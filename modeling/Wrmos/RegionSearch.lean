import Wrmos.RegionSpec

/-!
# First fit

`find_free` walks once over the regions of a list that begin in a space or behind it and keeps one
candidate: the start of the space, and then the end of each region that is in the way, rounded up.
`findFree_least` says that the candidate it returns is the least aligned address of the space from
which on the requested size is free, and that it returns `0` when there is none.

The loop invariant is about the addresses already skipped: no aligned address of the space below the
candidate fits (`findFreeFrom_least`).  A request for nothing is another matter: it overlaps no region,
so every aligned address would do, and the search passes some of them (`nothing_not_least`).
-/

namespace Wrmos
namespace Region

variable {τ : Type} {A : Arch} {l : List (Desc τ)} {sz align start spaceSz a b : Nat}

/-- The range shares no address with a region of the list. -/
def Clear (l : List (Desc τ)) (a sz : Nat) : Prop := ∀ d ∈ l, ∀ v, a ≤ v → v < a + sz → ¬ Holds d v

/-- The range begins at an aligned address of the space, lies inside the space and overlaps no
region. -/
structure Fits (l : List (Desc τ)) (sz align start spaceSz a : Nat) : Prop where
  aligned : align ∣ a
  begins : start ≤ a ∧ a < start + spaceSz
  ends : a + sz ≤ start + spaceSz
  clear : Clear l a sz

/-- None of the sums of the search wraps: the end of the space, and for the start of the space and the
end of each region that begins in it, rounding up and adding the size. -/
structure NoWrap (A : Arch) (l : List (Desc τ)) (sz align start spaceSz : Nat) : Prop where
  space : start + spaceSz < 2 ^ A.wordBits
  first : start + (align - 1) < 2 ^ A.wordBits ∧ roundUp A start align + sz < 2 ^ A.wordBits
  next : ∀ d ∈ l, start ≤ d.addr → d.addr < start + spaceSz →
    d.addr + d.sz + (align - 1) < 2 ^ A.wordBits ∧
      roundUp A (d.addr + d.sz) align + sz < 2 ^ A.wordBits

theorem clear_cons {d : Desc τ} :
    Clear (d :: l) a sz ↔ (∀ v, a ≤ v → v < a + sz → ¬ Holds d v) ∧ Clear l a sz := by
  simp [Clear]

/-- Two ranges that are not empty are disjoint when one ends before the other begins. -/
theorem apart_iff {d : Desc τ} (hsz : 0 < sz) (hd : 0 < d.sz) :
    (∀ v, a ≤ v → v < a + sz → ¬ Holds d v) ↔ a + sz ≤ d.addr ∨ d.addr + d.sz ≤ a := by
  unfold Holds
  constructor
  · intro h
    by_contra hno
    exact h (max a d.addr) (by omega) (by omega) (by omega)
  · intro h v h1 h2 h3
    omega

/-- `round_up` yields the least multiple of the alignment from an address on. -/
theorem roundUp_least (halign : 0 < align) (h : a + (align - 1) < 2 ^ A.wordBits) :
    align ∣ roundUp A a align ∧ a ≤ roundUp A a align ∧
      ∀ b, align ∣ b → a ≤ b → roundUp A a align ≤ b := by
  obtain ⟨hlo, hhi⟩ := roundUp_bounds (A := A) (n := a) halign (by omega)
  have hdvd : align ∣ roundUp A a align := Nat.dvd_mul_left _ _
  refine ⟨hdvd, hlo, fun b hb hab => ?_⟩
  by_contra hlt
  -- two multiples would be closer together than the alignment
  obtain ⟨m, hm⟩ := hdvd
  obtain ⟨n, rfl⟩ := hb
  rw [hm] at hlt hhi
  have hnm : n + 1 ≤ m := Nat.lt_of_mul_lt_mul_left (Nat.lt_of_not_le hlt)
  have := Nat.mul_le_mul_left align hnm
  rw [Nat.mul_add, Nat.mul_one] at this
  omega

/-- The second loop of `find_free`.  At each position the candidate is aligned, the regions still to
come are in order from the start of the space on, no aligned address from one of them on is below the
candidate, and what fits the whole list (`P`) is at or above the candidate and fits them.  Together
with the check after the loop, the result is the least of what fits. -/
theorem findFreeFrom_least (hsz : 0 < sz) (halign : 0 < align) (hstart : start ≠ 0)
    {P : Nat → Prop} :
    ∀ {l : List (Desc τ)} {cur : Nat}, l.Pairwise Before → (∀ d ∈ l, 0 < d.sz) →
      NoWrap A l sz align start spaceSz → (∀ d ∈ l, start ≤ d.addr) → align ∣ cur → start ≤ cur →
      cur + sz < 2 ^ A.wordBits → (∀ d ∈ l, ∀ b, align ∣ b → d.addr ≤ b → cur ≤ b) →
      (∀ b, P b ↔ cur ≤ b ∧ Fits l sz align start spaceSz b) →
      ∀ r, r = findFreeFrom A sz align (start + spaceSz) cur l →
        (r = 0 ∨ start + spaceSz < A.add r sz → ∀ b, ¬ P b) ∧
        (r ≠ 0 → A.add r sz ≤ start + spaceSz → IsLeast {b | P b} r) := by
  intro l
  induction l with
  | nil =>
    intro cur _ _ _ _ hdvd hlo htop _ hP r hr
    obtain rfl : r = cur := hr
    rw [Arch.add_of_lt htop]
    constructor
    · rintro (h0 | hlt) b hb
      · omega
      · have := ((hP b).mp hb).2.ends
        have := ((hP b).mp hb).1
        omega
    · intro _ hle
      refine ⟨(hP r).mpr ⟨le_rfl, hdvd, ⟨hlo, by omega⟩, hle, by simp [Clear]⟩, fun b hb => ?_⟩
      exact ((hP b).mp hb).1
  | cons it l ih =>
    intro cur hsort hpos hwrap hin hdvd hlo htop hmin hP r hr
    have hit : 0 < it.sz := hpos it List.mem_cons_self
    rw [List.pairwise_cons] at hsort
    rw [findFreeFrom, Arch.add_of_lt htop] at hr
    split_ifs at hr with hpast hfound
    · -- the candidate is beyond the space, and so is everything above it
      obtain rfl := hr
      refine ⟨fun _ b hb => ?_, fun h => absurd rfl h⟩
      have := ((hP b).mp hb).2.ends
      have := ((hP b).mp hb).1
      omega
    · -- the candidate ends before the region, so it is clear of it and of all that follow
      obtain rfl := hr
      rw [Arch.add_of_lt htop]
      have hclear : Clear (it :: l) r sz := by
        intro d hd
        rw [apart_iff hsz (hpos d hd)]
        rcases List.mem_cons.mp hd with rfl | hd
        · exact .inl hfound
        · have := hsort.1 d hd
          unfold Before at this
          omega
      refine ⟨by omega, fun _ hle => ⟨(hP r).mpr ⟨le_rfl, hdvd, ⟨hlo, by omega⟩, hle, hclear⟩, ?_⟩⟩
      exact fun b hb => ((hP b).mp hb).1
    · -- the region is in the way: go on behind it
      have hstep := hwrap.next it List.mem_cons_self (hin it List.mem_cons_self) (by omega)
      have hit' : A.add it.addr it.sz = it.addr + it.sz := Arch.add_of_lt (by omega)
      rw [hit'] at hr
      obtain ⟨hdvd', hlo', hleast⟩ := roundUp_least halign hstep.1
      have hwrap' : NoWrap A l sz align start spaceSz :=
        ⟨hwrap.space, hwrap.first, fun d hd => hwrap.next d (List.mem_cons_of_mem it hd)⟩
      have hstart' := hin it List.mem_cons_self
      refine ih hsort.2 (fun d hd => hpos d (List.mem_cons_of_mem it hd)) hwrap'
        (fun d hd => hin d (List.mem_cons_of_mem it hd)) hdvd' (by omega) hstep.2 (fun d hd b hal hdb => ?_)
        (fun b => ?_) r hr
      · have := hsort.1 d hd
        unfold Before at this
        exact hleast b hal (by omega)
      rw [hP]
      constructor
      · rintro ⟨hcb, hal, hbeg, hend, hclear⟩
        obtain ⟨hap, hclear⟩ := clear_cons.mp hclear
        rw [apart_iff hsz hit] at hap
        exact ⟨hleast b hal (by omega), hal, hbeg, hend, hclear⟩
      · rintro ⟨hcb, hal, hbeg, hend, hclear⟩
        refine ⟨?_, hal, hbeg, hend, clear_cons.mpr ⟨?_, hclear⟩⟩
        · exact hmin it List.mem_cons_self b hal (by omega)
        · rw [apart_iff hsz hit]
          omega

/-- The regions that begin before the space end before it, and the others come behind them. -/
theorem clear_dropWhile (hsort : l.Pairwise Before) (hpos : ∀ d ∈ l, 0 < d.sz)
    (hcross : ∀ d ∈ l, d.addr < start → d.addr + d.sz ≤ start) (hsz : 0 < sz) (hb : start ≤ b) :
    Clear l b sz ↔ Clear (l.dropWhile fun d => d.addr < start) b sz := by
  induction l with
  | nil => rfl
  | cons d l ih =>
    rw [List.pairwise_cons] at hsort
    by_cases hd : d.addr < start
    · rw [List.dropWhile_cons_of_pos (by simpa using hd), clear_cons,
        apart_iff hsz (hpos d List.mem_cons_self),
        ih hsort.2 (fun e he => hpos e (List.mem_cons_of_mem d he))
          fun e he => hcross e (List.mem_cons_of_mem d he)]
      have := hcross d List.mem_cons_self hd
      exact and_iff_right (.inr (by omega))
    · rw [List.dropWhile_cons_of_neg (by simpa using hd)]

theorem le_addr_of_mem_dropWhile (hsort : l.Pairwise Before) {d : Desc τ}
    (hd : d ∈ l.dropWhile fun d => d.addr < start) : start ≤ d.addr := by
  induction l with
  | nil => cases hd
  | cons e l ih =>
    rw [List.pairwise_cons] at hsort
    by_cases he : e.addr < start
    · rw [List.dropWhile_cons_of_pos (by simpa using he)] at hd
      exact ih hsort.2 hd
    · rw [List.dropWhile_cons_of_neg (by simpa using he)] at hd
      rcases List.mem_cons.mp hd with rfl | hd
      · omega
      · have := hsort.1 d hd
        unfold Before at this
        omega

/-- **`find_free`** finds the least aligned address of the space from which on the requested size is
free, and answers `0` when there is none. -/
theorem findFree_least (hsort : l.Pairwise Before) (hpos : ∀ d ∈ l, 0 < d.sz)
    (halign : ∃ k, align = 2 ^ k) (hstart : start ≠ 0)
    (hcross : ∀ d ∈ l, ¬ (d.addr < start ∧ start < d.addr + d.sz))
    (hwrap : NoWrap A l sz align start spaceSz) (hsz : 0 < sz) :
    (findFree A l sz align start spaceSz ≠ 0 →
      IsLeast {a | Fits l sz align start spaceSz a} (findFree A l sz align start spaceSz)) ∧
    (findFree A l sz align start spaceSz = 0 ↔ ¬ ∃ a, Fits l sz align start spaceSz a) := by
  have hal : 0 < align := by
    obtain ⟨k, rfl⟩ := halign
    exact Nat.two_pow_pos k
  have hcross' : ∀ d ∈ l, d.addr < start → d.addr + d.sz ≤ start := by
    intro d hd hlt
    have := hcross d hd
    omega
  obtain ⟨hdvd, hlo, hleast⟩ := roundUp_least hal hwrap.first.1
  have hsub := List.dropWhile_sublist (l := l) fun d => decide (d.addr < start)
  have hloop := findFreeFrom_least (P := Fits l sz align start spaceSz) hsz hal hstart
    (hsort.sublist hsub) (fun d hd => hpos d (hsub.subset hd))
    ⟨hwrap.space, hwrap.first, fun d hd => hwrap.next d (hsub.subset hd)⟩
    (fun d hd => le_addr_of_mem_dropWhile hsort hd) hdvd hlo hwrap.first.2
    (fun d hd b hb hdb => hleast b hb ((le_addr_of_mem_dropWhile hsort hd).trans hdb))
    (fun b => ⟨fun hb => ⟨hleast b hb.aligned hb.begins.1, hb.aligned, hb.begins, hb.ends,
        (clear_dropWhile hsort hpos hcross' hsz hb.begins.1).mp hb.clear⟩,
      fun hb => ⟨hb.2.aligned, hb.2.begins, hb.2.ends,
        (clear_dropWhile hsort hpos hcross' hsz hb.2.begins.1).mpr hb.2.clear⟩⟩)
    _ rfl
  unfold findFree
  dsimp only
  rw [Arch.add_of_lt hwrap.space]
  generalize findFreeFrom A sz align (start + spaceSz) (roundUp A start align)
    (l.dropWhile fun d => d.addr < start) = r at hloop ⊢
  obtain ⟨hnone, hsome⟩ := hloop
  split_ifs with hpast
  · have hno := hnone (.inr hpast.2)
    refine ⟨fun h => absurd rfl h, ⟨fun _ ⟨a, ha⟩ => hno a ha, fun _ => rfl⟩⟩
  · by_cases h0 : r = 0
    · have hno := hnone (.inl h0)
      exact ⟨fun h => absurd h0 h, ⟨fun _ ⟨a, ha⟩ => hno a ha, fun _ => h0⟩⟩
    · have hle : A.add r sz ≤ start + spaceSz := by
        rw [not_and, Nat.not_lt] at hpast
        exact hpast h0
      refine ⟨fun _ => hsome h0 hle, ⟨fun h => absurd h h0, fun hno => ?_⟩⟩
      exact absurd ⟨r, (hsome h0 hle).1⟩ hno

/-- In a space that begins with a page taken, the second page is found. -/
theorem secondPage_least :
    IsLeast {a | Fits [(⟨0x1000, 0x1000, ()⟩ : Desc Unit)] 0x1000 0x1000 0x1000 0x3000 a}
      (findFree .sparc [(⟨0x1000, 0x1000, ()⟩ : Desc Unit)] 0x1000 0x1000 0x1000 0x3000) :=
  (findFree_least (by simp) (by simp) ⟨12, rfl⟩ (by decide) (by simp)
    ⟨by decide, by decide, by simp; decide⟩ (by decide)).1 (by decide)

/-- **A request for nothing.**  It overlaps no region, so the first aligned address of the space would
do; the search goes on behind the region it finds there. -/
theorem nothing_not_least :
    let l : List (Desc Unit) := [⟨0x800, 0x1000, ()⟩]
    Wf .sparc l ∧ (∀ d ∈ l, ¬ (d.addr < 0x800 ∧ 0x800 < d.addr + d.sz)) ∧
      NoWrap .sparc l 0 0x1000 0x800 0x4000 ∧ findFree .sparc l 0 0x1000 0x800 0x4000 = 0x2000 ∧
      ¬ IsLeast {a | Fits l 0 0x1000 0x800 0x4000 a} (findFree .sparc l 0 0x1000 0x800 0x4000) := by
  intro l
  have hfound : findFree .sparc l 0 0x1000 0x800 0x4000 = 0x2000 := by decide
  refine ⟨⟨by simp [l], by simp [l, Proper]; decide⟩, by simp [l],
    ⟨by decide, by decide, by simp [l]; decide⟩, hfound, fun h => ?_⟩
  have hfits : Fits l 0 0x1000 0x800 0x4000 0x1000 :=
    ⟨by decide, by decide, by decide, fun d _ v h1 h2 => absurd h2 (by omega)⟩
  have := h.2 hfits
  rw [hfound] at this
  omega

end Region
end Wrmos
