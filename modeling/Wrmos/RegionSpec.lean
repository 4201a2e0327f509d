import Wrmos.Region
import Mathlib.Tactic.SplitIfs
import Mathlib.Tactic.Tauto

/-!
# What the operations on regions do to the covered addresses

`Covers l v t` says that a region of the list holds the address `v` and has the type `t`.  A list is
well formed (`Wf`) when its regions are not empty, do not reach the end of the address space and stand
in address order without overlap.

On well-formed lists and ranges that do not reach the end of the address space, `insert` gives the
range one type and keeps the rest (`insert_spec`), `free` of a piece of one region takes the range out
(`free_spec_inside`) and any other `free` does nothing (`free_spec_outside`).  Joining neighbours
(`wf_merge`) and cutting a region into pieces (`wf_replace`) are the two rearrangements behind them.
-/

namespace Wrmos

namespace Arch

variable {A : Arch} {x y : Nat}

theorem add_of_lt (h : x + y < 2 ^ A.wordBits) : A.add x y = x + y := Nat.mod_eq_of_lt h

theorem sub_of_le (hyx : y ≤ x) (hx : x < 2 ^ A.wordBits) : A.sub x y = x - y := by
  unfold sub
  rw [show x + (2 ^ A.wordBits - y) = (x - y) + 2 ^ A.wordBits by omega, Nat.add_mod_right,
    Nat.mod_eq_of_lt (by omega)]

end Arch

namespace Region

variable {τ : Type} {A : Arch} {N : Nat}

/-- One region ends before the other begins. -/
def Before (d e : Desc τ) : Prop := d.addr + d.sz ≤ e.addr

/-- The region is not empty and ends below the end of the address space. -/
def Proper (A : Arch) (d : Desc τ) : Prop := 0 < d.sz ∧ d.addr + d.sz < 2 ^ A.wordBits

/-- In address order, without overlap, all regions proper. -/
structure Wf (A : Arch) (l : List (Desc τ)) : Prop where
  sorted : l.Pairwise Before
  proper : ∀ d ∈ l, Proper A d

/-- The region holds the address. -/
def Holds (d : Desc τ) (v : Nat) : Prop := d.addr ≤ v ∧ v < d.addr + d.sz

/-- A region of type `t` holds the address. -/
def Covers (l : List (Desc τ)) (v : Nat) (t : τ) : Prop := ∃ d ∈ l, Holds d v ∧ d.type = t

theorem join_cons (d : Desc τ) (b a : List (Desc τ)) : join (d :: b) a = join b (d :: a) := by
  simp [join]

theorem mem_join {d : Desc τ} {b a : List (Desc τ)} : d ∈ join b a ↔ d ∈ b ∨ d ∈ a := by
  simp [join]

theorem covers_join {b a : List (Desc τ)} {v : Nat} {t : τ} :
    Covers (join b a) v t ↔ Covers b v t ∨ Covers a v t := by
  simp only [Covers, mem_join, or_and_right, exists_or]

theorem covers_cons {d : Desc τ} {a : List (Desc τ)} {v : Nat} {t : τ} :
    Covers (d :: a) v t ↔ Holds d v ∧ d.type = t ∨ Covers a v t := by
  simp [Covers]

theorem wf_join {b a : List (Desc τ)} :
    Wf A (join b a) ↔ b.Pairwise (fun d e => Before e d) ∧ a.Pairwise Before ∧
      (∀ d ∈ b, ∀ e ∈ a, Before d e) ∧ (∀ d ∈ b, Proper A d) ∧ ∀ e ∈ a, Proper A e := by
  constructor
  · rintro ⟨hs, hp⟩
    rw [join, List.pairwise_append, List.pairwise_reverse] at hs
    refine ⟨hs.1, hs.2.1, fun d hd e he => hs.2.2 d (List.mem_reverse.mpr hd) e he, ?_, ?_⟩
    · exact fun d hd => hp d (mem_join.mpr (.inl hd))
    · exact fun e he => hp e (mem_join.mpr (.inr he))
  · rintro ⟨hb, ha, hba, hpb, hpa⟩
    constructor
    · rw [join, List.pairwise_append, List.pairwise_reverse]
      exact ⟨hb, ha, fun d hd e he => hba d (List.mem_reverse.mp hd) e he⟩
    · intro d hd
      exact (mem_join.mp hd).elim (hpb d) (hpa d)

/-- Two regions of a well-formed list that hold one address are the same. -/
theorem Wf.holds_unique {l : List (Desc τ)} (hl : Wf A l) {d e : Desc τ} {v : Nat} (hd : d ∈ l)
    (he : e ∈ l) (hdv : Holds d v) (hev : Holds e v) : d = e := by
  by_contra hne
  have h := List.pairwise_iff_getElem.mp hl.sorted
  obtain ⟨i, hi, rfl⟩ := List.getElem_of_mem hd
  obtain ⟨j, hj, rfl⟩ := List.getElem_of_mem he
  unfold Holds at hdv hev
  rcases Nat.lt_trichotomy i j with hij | rfl | hij
  · have := h i j hi hj hij
    unfold Before at this
    omega
  · exact hne rfl
  · have := h j i hj hi hij
    unfold Before at this
    omega

/-! ## Rearranging a list -/

/-- Put a region between its neighbours. -/
theorem wf_insertBefore {b a : List (Desc τ)} {d : Desc τ} (h : Wf A (join b a))
    (hb : ∀ p ∈ b, Before p d) (ha : ∀ p ∈ a, Before d p) (hd : Proper A d) :
    Wf A (join b (d :: a)) := by
  obtain ⟨h1, h2, h3, h4, h5⟩ := wf_join.mp h
  refine wf_join.mpr ⟨h1, List.pairwise_cons.mpr ⟨ha, h2⟩, ?_, h4, ?_⟩
  · intro p hp e he
    rcases List.mem_cons.mp he with rfl | he
    · exact hb p hp
    · exact h3 p hp e he
  · intro e he
    rcases List.mem_cons.mp he with rfl | he
    · exact hd
    · exact h5 e he

/-- Join two neighbours that touch. -/
theorem wf_merge {b a : List (Desc τ)} {d e : Desc τ} (h : Wf A (join b (d :: e :: a)))
    (htouch : d.addr + d.sz = e.addr) (htype : d.type = e.type) :
    Wf A (join b (⟨d.addr, d.sz + e.sz, d.type⟩ :: a)) ∧
      ∀ v t, Covers (join b (⟨d.addr, d.sz + e.sz, d.type⟩ :: a)) v t ↔
        Covers (join b (d :: e :: a)) v t := by
  obtain ⟨h1, h2, h3, h4, h5⟩ := wf_join.mp h
  rw [List.pairwise_cons, List.pairwise_cons] at h2
  have hpd := h5 d List.mem_cons_self
  have hpe := h5 e (List.mem_cons_of_mem d List.mem_cons_self)
  simp only [Proper] at hpd hpe
  constructor
  · refine wf_join.mpr ⟨h1, List.pairwise_cons.mpr ⟨?_, h2.2.2⟩, ?_, h4, ?_⟩
    · intro p hp
      have := h2.2.1 p hp
      simp only [Before] at this ⊢
      omega
    · intro p hp q hq
      rcases List.mem_cons.mp hq with rfl | hq
      · exact h3 p hp d List.mem_cons_self
      · exact h3 p hp q (List.mem_cons_of_mem d (List.mem_cons_of_mem e hq))
    · intro q hq
      rcases List.mem_cons.mp hq with rfl | hq
      · simp only [Proper]
        omega
      · exact h5 q (List.mem_cons_of_mem d (List.mem_cons_of_mem e hq))
  · intro v t
    rw [covers_join, covers_join, covers_cons, covers_cons, covers_cons, ← htype]
    have hholds : Holds (⟨d.addr, d.sz + e.sz, d.type⟩ : Desc τ) v ↔ Holds d v ∨ Holds e v := by
      simp only [Holds]
      omega
    rw [hholds]
    tauto

/-- Replace a region by pieces of it. -/
theorem wf_replace {b a ds : List (Desc τ)} {d : Desc τ} (h : Wf A (join b (d :: a)))
    (hsorted : ds.Pairwise Before) (hpos : ∀ p ∈ ds, 0 < p.sz)
    (hin : ∀ p ∈ ds, d.addr ≤ p.addr ∧ p.addr + p.sz ≤ d.addr + d.sz) :
    Wf A (join b (ds ++ a)) := by
  obtain ⟨h1, h2, h3, h4, h5⟩ := wf_join.mp h
  rw [List.pairwise_cons] at h2
  have hpd := h5 d List.mem_cons_self
  simp only [Proper] at hpd
  refine wf_join.mpr ⟨h1, List.pairwise_append.mpr ⟨hsorted, h2.2, ?_⟩, ?_, h4, ?_⟩
  · intro p hp q hq
    have hq' := h2.1 q hq
    have hp' := hin p hp
    simp only [Before] at hq' ⊢
    omega
  · intro p hp q hq
    rcases List.mem_append.mp hq with hq | hq
    · have hd := h3 p hp d List.mem_cons_self
      have hq' := hin q hq
      simp only [Before] at hd ⊢
      omega
    · exact h3 p hp q (List.mem_cons_of_mem d hq)
  · intro q hq
    rcases List.mem_append.mp hq with hq | hq
    · have hq' := hin q hq
      have hz := hpos q hq
      simp only [Proper]
      omega
    · exact h5 q (List.mem_cons_of_mem d hq)

/-! ## The private members -/

open Lib

section Specs

theorem insertBefore_eq_ok {b a l : List (Desc τ)} {d : Desc τ}
    (h : insertBefore N b a d = .ok l) : l = join b (d :: a) := by
  unfold insertBefore checkForAlloc at h
  exact (Except.ok.inj (ensure_bind_eq_ok.mp h).2).symm

variable [DecidableEq τ] {addr sz : Nat}

/-- What `add` at a position yields: the region put in, joined with its neighbours or not. -/
theorem addAt_cases {b a l : List (Desc τ)} {type : τ} {mode : Mode}
    (h : addAt A N b a addr sz type mode = .ok l) :
    (∀ p ∈ a.head?, A.add addr sz ≤ p.addr) ∧ (∀ p ∈ b.head?, endOf A p ≤ addr) ∧
    (l = join b (⟨addr, sz, type⟩ :: a) ∨
      (∃ prev b' pos a', b = prev :: b' ∧ a = pos :: a' ∧ A.add addr sz = pos.addr ∧
        type = pos.type ∧ A.add prev.addr prev.sz = addr ∧ prev.type = type ∧
        l = join ({ prev with sz := A.add prev.sz (A.add sz pos.sz) } :: b') a') ∨
      (∃ pos a', a = pos :: a' ∧ A.add addr sz = pos.addr ∧ type = pos.type ∧
        l = join b ({ pos with addr := A.sub pos.addr sz, sz := A.add pos.sz sz } :: a')) ∨
      (∃ prev b', b = prev :: b' ∧ A.add prev.addr prev.sz = addr ∧ prev.type = type ∧
        l = join ({ prev with sz := A.add prev.sz sz } :: b') a)) := by
  unfold addAt at h
  obtain ⟨hnext, h⟩ := ensure_bind_eq_ok.mp h
  obtain ⟨hprev, h⟩ := ensure_bind_eq_ok.mp h
  refine ⟨hnext, hprev, ?_⟩
  cases mode with
  | notCombine => exact .inl (insertBefore_eq_ok h)
  | combine =>
    cases b with
    | nil =>
      cases a with
      | nil => exact .inl (insertBefore_eq_ok h)
      | cons pos a' =>
        dsimp only at h
        split_ifs at h with h1
        · exact .inr (.inr (.inl ⟨pos, a', rfl, h1.1, h1.2, (Except.ok.inj h).symm⟩))
        · exact .inl (insertBefore_eq_ok h)
    | cons prev b' =>
      cases a with
      | nil =>
        dsimp only at h
        split_ifs at h with h1
        · exact .inr (.inr (.inr ⟨prev, b', rfl, h1.1, h1.2, (Except.ok.inj h).symm⟩))
        · exact .inl (insertBefore_eq_ok h)
      | cons pos a' =>
        dsimp only at h
        split_ifs at h with h1 h2 h3
        · exact .inr (.inl ⟨prev, b', pos, a', rfl, rfl, h1.1.1, h1.1.2, h1.2.1, h1.2.2,
            (Except.ok.inj h).symm⟩)
        · exact .inr (.inr (.inl ⟨pos, a', rfl, h2.1, h2.2, (Except.ok.inj h).symm⟩))
        · exact .inr (.inr (.inr ⟨prev, b', rfl, h3.1, h3.2, (Except.ok.inj h).symm⟩))
        · exact .inl (insertBefore_eq_ok h)

/-- The checks of `add` on the two neighbours are checks on all regions: the range lies between those
before the position and those from it on. -/
theorem addAt_between {b a l : List (Desc τ)} {type : τ} {mode : Mode} (hwf : Wf A (join b a))
    (hend : addr + sz < 2 ^ A.wordBits) (h : addAt A N b a addr sz type mode = .ok l) :
    (∀ p ∈ b, p.addr + p.sz ≤ addr) ∧ ∀ p ∈ a, addr + sz ≤ p.addr := by
  obtain ⟨hnext, hprev, -⟩ := addAt_cases h
  rw [Arch.add_of_lt hend] at hnext
  obtain ⟨h1, h2, h3, h4, h5⟩ := wf_join.mp hwf
  constructor
  · cases b with
    | nil => intro p hp; cases hp
    | cons q b =>
      have hpq := h4 q List.mem_cons_self
      have hq : endOf A q ≤ addr := hprev q rfl
      rw [endOf, Arch.add_of_lt hpq.2] at hq
      intro p hp
      rcases List.mem_cons.mp hp with rfl | hp
      · exact hq
      · have := (List.pairwise_cons.mp h1).1 p hp
        simp only [Before] at this
        omega
  · cases a with
    | nil => intro p hp; cases hp
    | cons q a =>
      have hq : addr + sz ≤ q.addr := hnext q rfl
      intro p hp
      rcases List.mem_cons.mp hp with rfl | hp
      · exact hq
      · have := (List.pairwise_cons.mp h2).1 p hp
        simp only [Before] at this
        omega

/-- **`add` at a position**: the range gets the type, everything else stays. -/
theorem addAt_spec {b a l : List (Desc τ)} {type : τ} {mode : Mode} (hwf : Wf A (join b a))
    (hsz : 0 < sz) (hend : addr + sz < 2 ^ A.wordBits)
    (h : addAt A N b a addr sz type mode = .ok l) :
    Wf A l ∧ ∀ v t, Covers l v t ↔ (addr ≤ v ∧ v < addr + sz) ∧ t = type ∨ Covers (join b a) v t := by
  obtain ⟨hb, ha⟩ := addAt_between hwf hend h
  obtain ⟨-, -, hcases⟩ := addAt_cases h
  rw [Arch.add_of_lt hend] at hcases
  obtain ⟨h1, h2, h3, h4, h5⟩ := wf_join.mp hwf
  have hnew : Wf A (join b (⟨addr, sz, type⟩ :: a)) := wf_insertBefore hwf hb ha ⟨hsz, hend⟩
  have hcov : ∀ v t, Covers (join b (⟨addr, sz, type⟩ :: a)) v t ↔
      (addr ≤ v ∧ v < addr + sz) ∧ t = type ∨ Covers (join b a) v t := by
    intro v t
    rw [covers_join, covers_join, covers_cons, eq_comm (a := type)]
    simp only [Holds]
    tauto
  rcases hcases with rfl | ⟨prev, b', pos, a', rfl, rfl, hpos, htp, hpv, htq, rfl⟩ |
    ⟨pos, a', rfl, hpos, htp, rfl⟩ | ⟨prev, b', rfl, hpv, htq, rfl⟩
  · exact ⟨hnew, hcov⟩
  · -- three regions become one
    have hpp := h4 prev List.mem_cons_self
    have hpq := h5 pos List.mem_cons_self
    rw [Arch.add_of_lt hpp.2] at hpv
    rw [join_cons] at hnew hcov
    have hm1 := wf_merge hnew hpv htq
    have hm2 := wf_merge hm1.1 (by simp only; omega) (by simp only; rw [htq, htp])
    have hnum : A.add prev.sz (A.add sz pos.sz) = prev.sz + sz + pos.sz := by
      have := hpq.2
      rw [Arch.add_of_lt (x := sz) (by omega), Arch.add_of_lt (by omega), Nat.add_assoc]
    rw [join_cons, hnum]
    refine ⟨hm2.1, fun v t => ?_⟩
    rw [hm2.2, hm1.2, hcov]
  · have hpq := h5 pos List.mem_cons_self
    have hm := wf_merge hnew hpos htp
    have h1' : A.sub pos.addr sz = addr := by
      have := hpq.2
      rw [Arch.sub_of_le (by omega) (by omega)]
      omega
    have h2' : A.add pos.sz sz = sz + pos.sz := by
      have := hpq.2
      rw [Arch.add_of_lt (by omega), Nat.add_comm]
    rw [h1', h2', ← htp]
    exact ⟨hm.1, fun v t => (hm.2 v t).trans (hcov v t)⟩
  · have hpp := h4 prev List.mem_cons_self
    rw [Arch.add_of_lt hpp.2] at hpv
    rw [join_cons] at hnew hcov
    have hm := wf_merge hnew hpv htq
    have hnum : A.add prev.sz sz = prev.sz + sz := by
      rw [Arch.add_of_lt (by omega)]
    rw [join_cons, hnum]
    exact ⟨hm.1, fun v t => (hm.2 v t).trans (hcov v t)⟩

/-- The same as a change of types: the range has the type, the other addresses theirs as before. -/
theorem addAt_replaces {b a l : List (Desc τ)} {type : τ} {mode : Mode} (hwf : Wf A (join b a))
    (hsz : 0 < sz) (hend : addr + sz < 2 ^ A.wordBits)
    (h : addAt A N b a addr sz type mode = .ok l) :
    Wf A l ∧ ∀ v t, Covers l v t ↔ (addr ≤ v ∧ v < addr + sz) ∧ t = type ∨
      ¬ (addr ≤ v ∧ v < addr + sz) ∧ Covers (join b a) v t := by
  obtain ⟨hl, hcov⟩ := addAt_spec hwf hsz hend h
  refine ⟨hl, fun v t => ?_⟩
  rw [hcov]
  constructor
  · rintro (hv | hv)
    · exact .inl hv
    · by_cases hr : addr ≤ v ∧ v < addr + sz
      · -- the new region and the old one hold `v`: they are one
        obtain ⟨d, hd, hdv, rfl⟩ := hv
        refine .inl ⟨hr, ?_⟩
        obtain ⟨e, he, hev, hte⟩ := (hcov v type).mpr (.inl ⟨hr, rfl⟩)
        obtain ⟨d', hd', hdv', htd'⟩ := (hcov v d.type).mpr (.inr ⟨d, hd, hdv, rfl⟩)
        rw [← htd', ← hte, hl.holds_unique hd' he hdv' hev]
      · exact .inr ⟨hr, hv⟩
  · rintro (hv | ⟨-, hv⟩)
    · exact .inl hv
    · exact .inr hv

/-- What is left of a region before an address. -/
def headPiece (d : Desc τ) (addr : Nat) : List (Desc τ) :=
  if d.addr < addr then [⟨d.addr, addr - d.addr, d.type⟩] else []

/-- What is left of a region from an address on. -/
def tailPiece (d : Desc τ) (stop : Nat) : List (Desc τ) :=
  if stop < d.addr + d.sz then [⟨stop, d.addr + d.sz - stop, d.type⟩] else []

omit [DecidableEq τ] in
theorem mem_headPiece {d p : Desc τ} :
    p ∈ headPiece d addr ↔ d.addr < addr ∧ p = ⟨d.addr, addr - d.addr, d.type⟩ := by
  unfold headPiece
  split_ifs with h <;> simp [h]

omit [DecidableEq τ] in
theorem mem_tailPiece {d p : Desc τ} {stop : Nat} :
    p ∈ tailPiece d stop ↔
      stop < d.addr + d.sz ∧ p = ⟨stop, d.addr + d.sz - stop, d.type⟩ := by
  unfold tailPiece
  split_ifs with h <;> simp [h]

omit [DecidableEq τ] in
/-- **`remove` at a position** leaves the two pieces of the region around the range, where they are
not empty, and returns the position between them. -/
theorem removeAt_eq {b a : List (Desc τ)} {pos : Desc τ} {r : List (Desc τ) × List (Desc τ)}
    (hp : Proper A pos) (hin : pos.addr ≤ addr ∧ addr + sz ≤ pos.addr + pos.sz)
    (h : removeAt A N b pos a addr sz = .ok r) :
    r = (headPiece pos addr ++ b, tailPiece pos (addr + sz) ++ a) := by
  unfold Proper at hp
  unfold removeAt at h
  obtain ⟨-, h⟩ := ensure_bind_eq_ok.mp h
  rw [Arch.add_of_lt hp.2, Arch.add_of_lt (show addr + sz < _ by omega)] at h
  dsimp only at h
  unfold headPiece tailPiece
  split_ifs at h with h1 h2 h3
  · -- the whole region
    obtain rfl := Except.ok.inj h
    rw [if_neg (by omega), if_neg (by omega)]
    rfl
  · -- a piece at the beginning
    obtain rfl := Except.ok.inj h
    rw [if_neg (by omega), if_pos (by omega), Arch.add_of_lt (by omega),
      Arch.sub_of_le (by omega) (by omega)]
    have hsz' : pos.sz - sz = pos.addr + pos.sz - (addr + sz) := by omega
    simp [hsz', h2]
  · -- a piece at the end
    obtain rfl := Except.ok.inj h
    rw [if_pos (by omega), if_neg (by omega), Arch.sub_of_le (by omega) (by omega)]
    have hsz' : pos.sz - sz = addr - pos.addr := by omega
    simp [hsz']
  · -- a piece in the middle
    unfold checkForAlloc at h
    obtain ⟨-, h⟩ := ensure_bind_eq_ok.mp h
    obtain rfl := Except.ok.inj h
    rw [if_pos (by omega), if_pos (by omega), Arch.sub_of_le (by omega) (by omega),
      Arch.sub_of_le (by omega) (by omega)]
    rfl

omit [DecidableEq τ] in
theorem covers_append {l l' : List (Desc τ)} {v : Nat} {t : τ} :
    Covers (l ++ l') v t ↔ Covers l v t ∨ Covers l' v t := by
  simp only [Covers, List.mem_append, or_and_right, exists_or]

omit [DecidableEq τ] in
/-- The pieces cover what the region covers outside the range. -/
theorem covers_pieces {pos : Desc τ} (hin : pos.addr ≤ addr ∧ addr + sz ≤ pos.addr + pos.sz)
    (v : Nat) (t : τ) :
    Covers (headPiece pos addr ++ tailPiece pos (addr + sz)) v t ↔
      ¬ (addr ≤ v ∧ v < addr + sz) ∧ Holds pos v ∧ pos.type = t := by
  unfold headPiece tailPiece
  rw [covers_append]
  by_cases ht : pos.type = t
  · split_ifs <;> simp [Covers, Holds, ht] <;> omega
  · split_ifs <;> simp [Covers, ht]

omit [DecidableEq τ] in
/-- **`remove` at a position**: the range is taken out, everything else stays. -/
theorem removeAt_spec {b a b' a' : List (Desc τ)} {pos : Desc τ} (hwf : Wf A (join b (pos :: a)))
    (hin : pos.addr ≤ addr ∧ addr + sz ≤ pos.addr + pos.sz)
    (h : removeAt A N b pos a addr sz = .ok (b', a')) :
    Wf A (join b' a') ∧ ∀ v t, Covers (join b' a') v t ↔
      ¬ (addr ≤ v ∧ v < addr + sz) ∧ Covers (join b (pos :: a)) v t := by
  have hp := (wf_join.mp hwf).2.2.2.2 pos List.mem_cons_self
  obtain ⟨rfl, rfl⟩ := Prod.mk.inj (removeAt_eq hp hin h)
  have hjoin : join (headPiece pos addr ++ b) (tailPiece pos (addr + sz) ++ a) =
      join b ((headPiece pos addr ++ tailPiece pos (addr + sz)) ++ a) := by
    unfold headPiece
    split_ifs <;> simp [join]
  rw [hjoin]
  constructor
  · refine wf_replace hwf ?_ ?_ ?_
    · unfold headPiece tailPiece
      split_ifs <;> simp [Before]
      omega
    · intro p hp
      rw [List.mem_append, mem_headPiece, mem_tailPiece] at hp
      rcases hp with ⟨_, rfl⟩ | ⟨_, rfl⟩ <;> simp <;> omega
    · intro p hp
      rw [List.mem_append, mem_headPiece, mem_tailPiece] at hp
      rcases hp with ⟨_, rfl⟩ | ⟨_, rfl⟩ <;> simp <;> omega
  · intro v t
    -- no other region holds an address of the piece
    have hother : ∀ c, (Covers b v c ∨ Covers a v c) → ¬ (addr ≤ v ∧ v < addr + sz) := by
      rintro c hc hv
      have hposv : Holds pos v := by
        simp only [Holds]
        omega
      have hmem : ∃ d, (d ∈ b ∨ d ∈ a) ∧ Holds d v := by
        rcases hc with ⟨d, hd, hdv, -⟩ | ⟨d, hd, hdv, -⟩
        · exact ⟨d, .inl hd, hdv⟩
        · exact ⟨d, .inr hd, hdv⟩
      obtain ⟨d, hd, hdv⟩ := hmem
      obtain ⟨-, hsort, hba, -, -⟩ := wf_join.mp hwf
      simp only [Holds] at hdv hposv
      rcases hd with hd | hd
      · have := hba d hd pos List.mem_cons_self
        simp only [Before] at this
        omega
      · have := (List.pairwise_cons.mp hsort).1 d hd
        simp only [Before] at this
        omega
    rw [covers_join, covers_append, covers_pieces hin, covers_join, covers_cons]
    have := hother t
    tauto

/-! ## Joining a region with its neighbours -/

/-- A region put before a position takes in the region before it that it touches. -/
def absorbPrev : List (Desc τ) → Desc τ → List (Desc τ) × Desc τ
  | [], d => ([], d)
  | p :: b, d =>
    if p.addr + p.sz = d.addr ∧ p.type = d.type then (b, ⟨p.addr, p.sz + d.sz, d.type⟩)
    else (p :: b, d)

/-- And the region after it that it touches. -/
def absorbNext (d : Desc τ) : List (Desc τ) → Desc τ × List (Desc τ)
  | [] => (d, [])
  | n :: a =>
    if d.addr + d.sz = n.addr ∧ d.type = n.type then (⟨d.addr, d.sz + n.sz, d.type⟩, a)
    else (d, n :: a)

section Absorb

variable {b a : List (Desc τ)} {d p n : Desc τ}

theorem absorbPrev_touch (h : p.addr + p.sz = d.addr ∧ p.type = d.type) :
    absorbPrev (p :: b) d = (b, ⟨p.addr, p.sz + d.sz, d.type⟩) := if_pos h

theorem absorbPrev_apart (h : ¬ (p.addr + p.sz = d.addr ∧ p.type = d.type)) :
    absorbPrev (p :: b) d = (p :: b, d) := if_neg h

theorem absorbNext_touch (h : d.addr + d.sz = n.addr ∧ d.type = n.type) :
    absorbNext d (n :: a) = (⟨d.addr, d.sz + n.sz, d.type⟩, a) := if_pos h

theorem absorbNext_apart (h : ¬ (d.addr + d.sz = n.addr ∧ d.type = n.type)) :
    absorbNext d (n :: a) = (d, n :: a) := if_neg h

end Absorb

/-- The list with a region put at a position and joined with the neighbours it touches. -/
def merged (b : List (Desc τ)) (d : Desc τ) (a : List (Desc τ)) : List (Desc τ) :=
  join (absorbPrev b d).1
    ((absorbNext (absorbPrev b d).2 a).1 :: (absorbNext (absorbPrev b d).2 a).2)

theorem addAt_notCombine {b a l : List (Desc τ)} {type : τ}
    (h : addAt A N b a addr sz type .notCombine = .ok l) : l = join b (⟨addr, sz, type⟩ :: a) := by
  unfold addAt at h
  obtain ⟨-, h⟩ := ensure_bind_eq_ok.mp h
  obtain ⟨-, h⟩ := ensure_bind_eq_ok.mp h
  exact insertBefore_eq_ok h

/-- **`add` with `Combine`** joins the region with both neighbours where they touch it and have its
type. -/
theorem addAt_combine {b a l : List (Desc τ)} {type : τ} (hwf : Wf A (join b a))
    (hend : addr + sz < 2 ^ A.wordBits) (h : addAt A N b a addr sz type .combine = .ok l) :
    l = merged b ⟨addr, sz, type⟩ a := by
  obtain ⟨-, -, -, h4, h5⟩ := wf_join.mp hwf
  unfold addAt at h
  obtain ⟨-, h⟩ := ensure_bind_eq_ok.mp h
  obtain ⟨hprev, h⟩ := ensure_bind_eq_ok.mp h
  rw [Arch.add_of_lt hend] at h
  unfold merged
  cases b with
  | nil =>
    cases a with
    | nil => exact insertBefore_eq_ok h
    | cons pos a =>
      have hpos := (h5 pos List.mem_cons_self).2
      dsimp only at h
      split_ifs at h with h1
      · obtain rfl := Except.ok.inj h
        rw [absorbPrev, absorbNext_touch h1, Arch.sub_of_le (by omega) (by omega),
          Arch.add_of_lt (by omega), show pos.addr - sz = addr by omega, Nat.add_comm pos.sz sz, h1.2]
      · obtain rfl := insertBefore_eq_ok h
        rw [absorbPrev, absorbNext_apart h1]
  | cons prev b =>
    have hp := (h4 prev List.mem_cons_self).2
    cases a with
    | nil =>
      dsimp only at h
      rw [Arch.add_of_lt hp] at h
      split_ifs at h with h1
      · obtain rfl := Except.ok.inj h
        rw [absorbPrev_touch h1, Arch.add_of_lt (by omega), join_cons, h1.2]
        rfl
      · obtain rfl := insertBefore_eq_ok h
        rw [absorbPrev_apart h1]
        rfl
    | cons pos a =>
      have hpos := (h5 pos List.mem_cons_self).2
      dsimp only at h
      rw [Arch.add_of_lt hp] at h
      split_ifs at h with h1 h2 h3
      · -- both neighbours
        obtain rfl := Except.ok.inj h
        have hnext : prev.addr + (prev.sz + sz) = pos.addr ∧ type = pos.type :=
          ⟨by omega, h1.1.2⟩
        rw [absorbPrev_touch h1.2, absorbNext_touch hnext, Arch.add_of_lt (y := pos.sz) (by omega),
          Arch.add_of_lt (by omega), join_cons, h1.2.2, Nat.add_assoc]
      · -- the next one
        obtain rfl := Except.ok.inj h
        rw [absorbPrev_apart (fun hc => h1 ⟨h2, hc⟩), absorbNext_touch h2,
          Arch.sub_of_le (by omega) (by omega), Arch.add_of_lt (by omega),
          show pos.addr - sz = addr by omega, Nat.add_comm pos.sz sz, h2.2]
      · -- the previous one
        obtain rfl := Except.ok.inj h
        have hnext : ¬ (prev.addr + (prev.sz + sz) = pos.addr ∧ type = pos.type) := by
          rintro ⟨hc, ht⟩
          exact h2 ⟨by omega, ht⟩
        rw [absorbPrev_touch h3, absorbNext_apart hnext, Arch.add_of_lt (by omega), join_cons, h3.2]
      · obtain rfl := insertBefore_eq_ok h
        rw [absorbPrev_apart h3, absorbNext_apart h2]

/-! ## `insert` and `free` -/

/-- The range lies inside the region. -/
def Contains (d : Desc τ) (addr sz : Nat) : Prop := d.addr ≤ addr ∧ addr + sz ≤ d.addr + d.sz

/-- The resulting type of `insert`: the new one, or the new one and that of a region that passes the
test for containing the range. -/
theorem insertFrom_type [OrOp τ] {type ty : τ} {mode : Mode} :
    ∀ {a b l : List (Desc τ)}, insertFrom A N addr sz type mode b a = .ok (l, ty) →
      ty = type ∨ ∃ d ∈ a, d.addr ≤ addr ∧ A.add addr sz ≤ endOf A d ∧ ty = type ||| d.type := by
  intro a
  induction a with
  | nil =>
    intro b l h
    simp only [insertFrom] at h
    obtain ⟨l', -, h⟩ := bind_eq_ok.mp h
    exact .inl (Prod.mk.inj (Except.ok.inj h)).2.symm
  | cons it a ih =>
    intro b l h
    simp only [insertFrom] at h
    split_ifs at h with h1 h2
    · obtain ⟨r, -, h⟩ := bind_eq_ok.mp h
      obtain ⟨l', -, h⟩ := bind_eq_ok.mp h
      exact .inr ⟨it, List.mem_cons_self, h1.1, h1.2, (Prod.mk.inj (Except.ok.inj h)).2.symm⟩
    · obtain ⟨-, h⟩ := ensure_bind_eq_ok.mp h
      obtain ⟨l', -, h⟩ := bind_eq_ok.mp h
      exact .inl (Prod.mk.inj (Except.ok.inj h)).2.symm
    · rcases ih h with hty | ⟨d, hd, hin⟩
      · exact .inl hty
      · exact .inr ⟨d, List.mem_cons_of_mem it hd, hin⟩

/-- `insert` reaches the region that `find` finds. -/
theorem insertFrom_of_find [OrOp τ] {type ty : τ} {mode : Mode} {pos : Desc τ} :
    ∀ {a b b' a' l : List (Desc τ)}, findFrom A addr sz b a = some (b', pos, a') →
      insertFrom A N addr sz type mode b a = .ok (l, ty) → ty = type ||| pos.type := by
  intro a
  induction a with
  | nil => intro b b' a' l hfind; cases hfind
  | cons it a ih =>
    intro b b' a' l hfind h
    simp only [findFrom] at hfind
    simp only [insertFrom] at h
    split_ifs at hfind h with h1 h2 h3
    · obtain ⟨-, hr⟩ := Prod.mk.inj (Option.some.inj hfind)
      obtain ⟨rfl, -⟩ := Prod.mk.inj hr
      obtain ⟨r, -, h⟩ := bind_eq_ok.mp h
      obtain ⟨l', -, h⟩ := bind_eq_ok.mp h
      exact (Prod.mk.inj (Except.ok.inj h)).2.symm
    · -- a region behind the range ends both searches
      exact absurd (ensure_bind_eq_ok.mp h).1 h2
    · exact ih hfind h

/-- `insert` on a well-formed list gives the range one type and keeps the rest. -/
theorem insertFrom_spec [OrOp τ] {type ty : τ} {mode : Mode} (hsz : 0 < sz)
    (hend : addr + sz < 2 ^ A.wordBits) :
    ∀ {a b l : List (Desc τ)}, Wf A (join b a) →
      insertFrom A N addr sz type mode b a = .ok (l, ty) →
      Wf A l ∧ ∀ v t, Covers l v t ↔ (addr ≤ v ∧ v < addr + sz) ∧ t = ty ∨
        ¬ (addr ≤ v ∧ v < addr + sz) ∧ Covers (join b a) v t := by
  intro a
  induction a with
  | nil =>
    intro b l hwf h
    simp only [insertFrom] at h
    obtain ⟨l', h', h⟩ := bind_eq_ok.mp h
    obtain ⟨rfl, rfl⟩ := Prod.mk.inj (Except.ok.inj h)
    exact addAt_replaces hwf hsz hend h'
  | cons it a ih =>
    intro b l hwf h
    simp only [insertFrom] at h
    have hit := (wf_join.mp hwf).2.2.2.2 it List.mem_cons_self
    rw [endOf, Arch.add_of_lt hend, Arch.add_of_lt hit.2] at h
    split_ifs at h with h1 h2
    · obtain ⟨⟨b', a'⟩, hr, h⟩ := bind_eq_ok.mp h
      obtain ⟨l', h', h⟩ := bind_eq_ok.mp h
      obtain ⟨rfl, rfl⟩ := Prod.mk.inj (Except.ok.inj h)
      obtain ⟨hwf', hrem⟩ := removeAt_spec hwf h1 hr
      obtain ⟨hl, hcov⟩ := addAt_replaces hwf' hsz hend h'
      refine ⟨hl, fun v t => ?_⟩
      rw [hcov, hrem]
      tauto
    · obtain ⟨-, h⟩ := ensure_bind_eq_ok.mp h
      obtain ⟨l', h', h⟩ := bind_eq_ok.mp h
      obtain ⟨rfl, rfl⟩ := Prod.mk.inj (Except.ok.inj h)
      exact addAt_replaces hwf hsz hend h'
    · rw [← join_cons] at hwf ⊢
      exact ih hwf h

/-- **`insert`** on a well-formed list. -/
theorem insert_spec [OrOp τ] {l l' : List (Desc τ)} {type ty : τ} {mode : Mode} (hwf : Wf A l)
    (hsz : 0 < sz) (hend : addr + sz < 2 ^ A.wordBits)
    (h : insert A N l addr sz type mode = .ok (l', ty)) :
    Wf A l' ∧ ∀ v t, Covers l' v t ↔ (addr ≤ v ∧ v < addr + sz) ∧ t = ty ∨
      ¬ (addr ≤ v ∧ v < addr + sz) ∧ Covers l v t :=
  insertFrom_spec (b := []) hsz hend hwf h

omit [DecidableEq τ] in
/-- `find` returns a region that contains the range; the list is what stands around it. -/
theorem findFrom_some {pos : Desc τ} :
    ∀ {a b b' a' : List (Desc τ)}, findFrom A addr sz b a = some (b', pos, a') →
      join b a = join b' (pos :: a') ∧ pos.addr ≤ addr ∧ A.add addr sz ≤ endOf A pos := by
  intro a
  induction a with
  | nil => intro b b' a' h; cases h
  | cons it a ih =>
    intro b b' a' h
    simp only [findFrom] at h
    split_ifs at h with h1
    · obtain ⟨rfl, hr⟩ := Prod.mk.inj (Option.some.inj h)
      obtain ⟨rfl, rfl⟩ := Prod.mk.inj hr
      exact ⟨rfl, h1⟩
    · rw [← join_cons]
      exact ih h

omit [DecidableEq τ] in
/-- A region that contains the range is found. -/
theorem findFrom_of_contains {d : Desc τ} (hsz : 0 < sz) (hend : addr + sz < 2 ^ A.wordBits)
    (hd : Contains d addr sz) :
    ∀ {a b : List (Desc τ)}, Wf A (join b a) → d ∈ a → findFrom A addr sz b a ≠ none := by
  intro a
  induction a with
  | nil => intro b _ h; cases h
  | cons it a ih =>
    intro b hwf hmem
    have hit := (wf_join.mp hwf).2.2.2.2 it List.mem_cons_self
    have hsort := (List.pairwise_cons.mp (wf_join.mp hwf).2.1).1
    simp only [findFrom]
    rw [endOf, Arch.add_of_lt hend, Arch.add_of_lt hit.2]
    simp only [Contains] at hd
    split_ifs with h1 h2
    · simp
    · exfalso
      rcases List.mem_cons.mp hmem with rfl | hmem
      · omega
      · have := hsort d hmem
        simp only [Before] at this
        have := hit.1
        omega
    · rcases List.mem_cons.mp hmem with rfl | hmem
      · exact absurd hd h1
      · rw [← join_cons] at hwf
        exact ih hwf hmem

omit [DecidableEq τ] in
/-- **`free` of a piece of one region** takes the piece out. -/
theorem free_spec_inside {l l' : List (Desc τ)} {d : Desc τ} (hwf : Wf A l) (hsz : 0 < sz)
    (hend : addr + sz < 2 ^ A.wordBits) (hd : d ∈ l) (hin : Contains d addr sz)
    (h : free A N l addr sz = .ok l') :
    Wf A l' ∧ ∀ v t, Covers l' v t ↔ ¬ (addr ≤ v ∧ v < addr + sz) ∧ Covers l v t := by
  unfold free at h
  cases hf : findFrom A addr sz [] l with
  | none => exact absurd hf (findFrom_of_contains (b := []) hsz hend hin hwf hd)
  | some p =>
    obtain ⟨b, pos, a⟩ := p
    rw [hf] at h
    obtain ⟨⟨b', a'⟩, hr, h⟩ := bind_eq_ok.mp h
    obtain rfl := Except.ok.inj h
    obtain ⟨hjoin, h1, h2⟩ := findFrom_some hf
    have hl : l = join b (pos :: a) := hjoin
    rw [hl] at hwf ⊢
    have hp := (wf_join.mp hwf).2.2.2.2 pos List.mem_cons_self
    rw [endOf, Arch.add_of_lt hend, Arch.add_of_lt hp.2] at h2
    exact removeAt_spec hwf ⟨h1, h2⟩ hr

omit [DecidableEq τ] in
/-- **`free` of a range that touches no region** does nothing. -/
theorem free_spec_outside {l l' : List (Desc τ)} (hwf : Wf A l) (hsz : 0 < sz)
    (hend : addr + sz < 2 ^ A.wordBits)
    (hout : ∀ v t, addr ≤ v → v < addr + sz → ¬ Covers l v t)
    (h : free A N l addr sz = .ok l') : l' = l := by
  unfold free at h
  cases hf : findFrom A addr sz [] l with
  | none =>
    rw [hf] at h
    exact (Except.ok.inj h).symm
  | some p =>
    obtain ⟨b, pos, a⟩ := p
    exfalso
    obtain ⟨hjoin, h1, h2⟩ := findFrom_some hf
    have hl : l = join b (pos :: a) := hjoin
    rw [hl] at hwf hout
    have hp := (wf_join.mp hwf).2.2.2.2 pos List.mem_cons_self
    rw [endOf, Arch.add_of_lt hend, Arch.add_of_lt hp.2] at h2
    refine hout addr pos.type (Nat.le_refl _) (by omega) ⟨pos, mem_join.mpr (.inr (by simp)), ?_, rfl⟩
    simp only [Holds]
    omega

omit [DecidableEq τ] in
/-- `free` keeps a list well formed, and covers no more than before. -/
theorem free_wf {l l' : List (Desc τ)} (hwf : Wf A l) (hsz : 0 < sz)
    (hend : addr + sz < 2 ^ A.wordBits) (h : free A N l addr sz = .ok l') :
    Wf A l' ∧ ∀ v t, Covers l' v t → Covers l v t := by
  cases hf : findFrom A addr sz [] l with
  | none =>
    unfold free at h
    rw [hf] at h
    obtain rfl := Except.ok.inj h
    exact ⟨hwf, fun _ _ h => h⟩
  | some p =>
    obtain ⟨b, pos, a⟩ := p
    obtain ⟨hjoin, h1, h2⟩ := findFrom_some hf
    have hl : l = join b (pos :: a) := hjoin
    have hmem : pos ∈ l := by rw [hl]; exact mem_join.mpr (.inr List.mem_cons_self)
    rw [endOf, Arch.add_of_lt hend, Arch.add_of_lt (hwf.proper pos hmem).2] at h2
    obtain ⟨hwf', hcov⟩ := free_spec_inside hwf hsz hend hmem ⟨h1, h2⟩ h
    exact ⟨hwf', fun v t hv => ((hcov v t).mp hv).2⟩

/-- **`add`** on a well-formed list. -/
theorem addFrom_spec {type : τ} {mode : Mode} (hsz : 0 < sz) (hend : addr + sz < 2 ^ A.wordBits) :
    ∀ {a b l : List (Desc τ)}, Wf A (join b a) → addFrom A N addr sz type mode b a = .ok l →
      Wf A l ∧ ∀ v t, Covers l v t ↔
        (addr ≤ v ∧ v < addr + sz) ∧ t = type ∨ Covers (join b a) v t := by
  intro a
  induction a with
  | nil =>
    intro b l hwf h
    exact addAt_spec hwf hsz hend h
  | cons it a ih =>
    intro b l hwf h
    unfold addFrom at h
    split_ifs at h
    · exact addAt_spec hwf hsz hend (ensure_bind_eq_ok.mp h).2
    · rw [← join_cons] at hwf ⊢
      exact ih hwf h

theorem roundUp_bounds {n align : Nat} (halign : 0 < align) (h : n + align ≤ 2 ^ A.wordBits) :
    n ≤ roundUp A n align ∧ roundUp A n align < n + align := by
  unfold roundUp
  rw [Arch.add_of_lt (by omega)]
  have h1 := Nat.div_add_mod' (n + (align - 1)) align
  have h2 := Nat.mod_lt (n + (align - 1)) halign
  omega

omit [DecidableEq τ] in
/-- The second loop of `find_free` stays between the start and the end of the last region. -/
theorem findFreeFrom_bounds {start align bound : Nat} (sz spaceEnd : Nat) (halign : 0 < align)
    (htop : bound + align ≤ 2 ^ A.wordBits) :
    ∀ {l : List (Desc τ)} {cur : Nat}, (∀ d ∈ l, start ≤ d.addr ∧ d.addr + d.sz ≤ bound) →
      start ≤ cur → cur < bound + align →
      findFreeFrom A sz align spaceEnd cur l = 0 ∨
        start ≤ findFreeFrom A sz align spaceEnd cur l ∧
          findFreeFrom A sz align spaceEnd cur l < bound + align := by
  intro l
  induction l with
  | nil => exact fun _ hlo hhi => .inr ⟨hlo, hhi⟩
  | cons it l ih =>
    intro cur hl hlo hhi
    obtain ⟨hstart, hit⟩ := hl it List.mem_cons_self
    unfold findFreeFrom
    split_ifs
    · exact .inl rfl
    · exact .inr ⟨hlo, hhi⟩
    · rw [Arch.add_of_lt (by omega)]
      have := roundUp_bounds (A := A) (n := it.addr + it.sz) halign (by omega)
      exact ih (fun d hd => hl d (List.mem_cons_of_mem it hd)) (by omega) (by omega)

omit [DecidableEq τ] in
/-- **`find_free`** returns an address of the space, when the regions end below `bound`. -/
theorem findFree_spec {l : List (Desc τ)} {align start spaceSz bound : Nat} (halign : 0 < align)
    (hwf : Wf A l) (hbound : ∀ d ∈ l, d.addr + d.sz ≤ bound) (hsz : sz ≤ align)
    (htop : bound + 2 * align ≤ 2 ^ A.wordBits) (hspace : start + spaceSz ≤ bound)
    (h : findFree A l sz align start spaceSz ≠ 0) :
    start ≤ findFree A l sz align start spaceSz ∧
      findFree A l sz align start spaceSz + sz ≤ start + spaceSz := by
  -- the list is sorted, so the loop sees no region below the start
  have hrest : ∀ d ∈ l.dropWhile (fun d => d.addr < start), start ≤ d.addr := by
    intro d hd
    cases hdrop : l.dropWhile (fun d => d.addr < start) with
    | nil => rw [hdrop] at hd; cases hd
    | cons e l' =>
      have he : start ≤ e.addr := by
        have := List.head?_dropWhile_not (fun d : Desc τ => decide (d.addr < start)) l
        rw [hdrop] at this
        simpa using this
      have hsorted : (e :: l').Pairwise Before :=
        hdrop ▸ hwf.sorted.sublist (List.dropWhile_sublist _)
      rw [hdrop] at hd
      rcases List.mem_cons.mp hd with rfl | hd
      · exact he
      · have := (List.pairwise_cons.mp hsorted).1 d hd
        unfold Before at this
        omega
  have hfirst := roundUp_bounds (A := A) (n := start) halign (by omega)
  have htop : bound + align ≤ 2 ^ A.wordBits := by omega
  have hstart : roundUp A start align < bound + align := by omega
  have hin : ∀ d ∈ l.dropWhile (fun d => d.addr < start), start ≤ d.addr ∧ d.addr + d.sz ≤ bound :=
    fun d hd => ⟨hrest d hd, hbound d ((List.dropWhile_sublist _).subset hd)⟩
  have hloop := findFreeFrom_bounds sz (A.add start spaceSz) halign htop hin hfirst.1 hstart
  have hend : A.add start spaceSz = start + spaceSz := Arch.add_of_lt (by omega)
  unfold findFree at h ⊢
  dsimp only at h ⊢
  generalize findFreeFrom A sz align (A.add start spaceSz) (roundUp A start align)
    (l.dropWhile fun d => d.addr < start) = cur at h hloop ⊢
  split_ifs at h ⊢ with hpast
  · exact absurd rfl h
  · rcases hloop with h0 | ⟨hlo, hhi⟩
    · exact absurd h0 h
    · refine ⟨hlo, ?_⟩
      rw [not_and, Nat.not_lt] at hpast
      have := hpast h
      rwa [hend, Arch.add_of_lt (by omega)] at this

end Specs

end Region

end Wrmos
