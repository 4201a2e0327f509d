import Wrmos.Sigma0
import Wrmos.RegionSpec
import Mathlib.Data.List.TakeWhile

/-!
# What the hand-over of memory conserves

A request carves one page out of one region of sigma0 (`Sigma0.request_spec`), or there is no
aligned page of that size in any region.  So in every run the granted pages and the remaining
regions divide the conventional memory (`Span.Divided`), and a size that was once refused stays
without a page, since regions only get smaller.  sigma0 never joins two regions: a page that lies
across the border of two descriptors is not found.
-/

namespace Wrmos

open Lib (bind_eq_ok ensure_bind_eq_ok runAll runAll_invariant_of_step Span)

variable {A : Arch}

/-! ## Flexpages -/

namespace Fpage

theorem create_eq {va k c : Nat} (hk : 12 ≤ k) (hk' : k < 64) (hva : va < 2 ^ A.wordBits)
    (hal : 2 ^ k ∣ va) : create A va (2 ^ k) c = va / 2 ^ 10 * 2 ^ 10 + k * 2 ^ 4 + c % 8 := by
  have hlog : Nat.log2 (2 ^ k) = k := Nat.log2_two_pow
  have hpage : pageSz ≤ 2 ^ k := Nat.pow_le_pow_right (by decide : 0 < 2) hk
  have hcond : ¬ (2 ^ k < pageSz ∨ va % 2 ^ k ≠ 0 ∨ 2 ^ Nat.log2 (2 ^ k) ≠ 2 ^ k) := by
    rw [hlog]
    rintro (h | h | h)
    · omega
    · exact h (Nat.mod_eq_zero_of_dvd hal)
    · exact h rfl
  have hbase : va / 2 ^ 10 < 2 ^ (A.wordBits - 10) := by
    rw [Nat.div_lt_iff_lt_mul (by decide), ← Nat.pow_add]
    have hw : A.wordBits - 10 + 10 = A.wordBits := by cases A <;> rfl
    rwa [hw]
  unfold create
  rw [if_neg hcond, hlog, Nat.mod_eq_of_lt hbase, Nat.mod_eq_of_lt (show k < 2 ^ 6 from hk')]

/-- The address and the size that a page was created with are read from it. -/
theorem create_spec {va k c : Nat} (hk : 12 ≤ k) (hkw : k < A.wordBits) (hva : va < 2 ^ A.wordBits)
    (hal : 2 ^ k ∣ va) :
    addr A (create A va (2 ^ k) c) = va ∧ log2sz (create A va (2 ^ k) c) = k ∧
      size A (create A va (2 ^ k) c) = 2 ^ k ∧ access (create A va (2 ^ k) c) = c % 8 := by
  have hk' : k < 64 := lt_of_lt_of_le hkw (by cases A <;> decide)
  have hva10 : va / 2 ^ 10 * 2 ^ 10 = va :=
    Nat.div_mul_cancel ((Nat.pow_dvd_pow 2 (by omega)).trans hal)
  rw [create_eq hk hk' hva hal, hva10]
  have hdvd : 2 ^ 10 ∣ va := (Nat.pow_dvd_pow 2 (by omega)).trans hal
  have hlog : log2sz (va + k * 2 ^ 4 + c % 8) = k := by
    unfold log2sz Lib.bits
    omega
  refine ⟨?_, hlog, ?_, ?_⟩
  · unfold addr
    have hdiv : (va + k * 2 ^ 4 + c % 8) / 2 ^ 10 = va / 2 ^ 10 := by omega
    rw [hdiv, hva10, Nat.mod_eq_of_lt hva]
  · unfold size shiftOne
    rw [hlog, if_pos hkw]
  · unfold access Lib.bits
    omega

/-- A request for any page of a size. -/
theorem setAnyBase_spec {k c : Nat} (hk : 12 ≤ k) (hkw : k < A.wordBits) :
    base A (setAnyBase A (create A 0 (2 ^ k) c)) = anyBase A ∧
      size A (setAnyBase A (create A 0 (2 ^ k) c)) = 2 ^ k ∧
      access (setAnyBase A (create A 0 (2 ^ k) c)) = c % 8 := by
  have hk' : k < 64 := lt_of_lt_of_le hkw (by cases A <;> decide)
  rw [create_eq hk hk' (Nat.two_pow_pos _) (dvd_zero _)]
  have hmod : (0 / 2 ^ 10 * 2 ^ 10 + k * 2 ^ 4 + c % 8) % 2 ^ 10 = k * 2 ^ 4 + c % 8 := by omega
  unfold setAnyBase
  rw [hmod]
  have hlog : log2sz (anyBase A * 2 ^ 10 + (k * 2 ^ 4 + c % 8)) = k := by
    unfold log2sz Lib.bits
    omega
  refine ⟨?_, ?_, ?_⟩
  · unfold base
    have hdiv : (anyBase A * 2 ^ 10 + (k * 2 ^ 4 + c % 8)) / 2 ^ 10 = anyBase A := by omega
    rw [hdiv]
    exact Nat.mod_eq_of_lt (Nat.sub_lt (Nat.two_pow_pos _) (by decide))
  · unfold size shiftOne
    rw [hlog, if_pos hkw]
  · unfold access Lib.bits
    omega

end Fpage

/-! ## The regions of sigma0 -/

namespace Sigma0

def span (r : MemRegion) : Span := ⟨r.addr, r.size⟩

/-- The conventional memory that is left, as spans. -/
def free (s : Sigma0) : List Span := s.conventionalMemory.map span

/-- A region of conventional memory: it lies in the address space, its size is a word and it may be
accessed in every way. -/
structure InSpace (A : Arch) (r : MemRegion) : Prop where
  stop_le : r.addr + r.size ≤ 2 ^ A.wordBits
  size_lt : r.size < 2 ^ A.wordBits
  acc : r.acc = 7

/-- Every region of conventional memory is one. -/
def Sound (A : Arch) (s : Sigma0) : Prop :=
  ∀ r ∈ s.conventionalMemory, InSpace A r

/-- No span of the list has an aligned page of the size. -/
def NoPage (n : Nat) (l : List Span) : Prop :=
  ∀ r ∈ l, ∀ p : Span, p.size = n → n ∣ p.addr → ¬ Span.Within p r

theorem NoPage.carve {n : Nat} {p : Span} {l l' : List Span} (h : NoPage n l)
    (hc : Span.Carve p l l') : NoPage n l' := by
  intro s hs q hq hal hqs
  obtain ⟨r, hr, hsr⟩ := hc.within hs
  exact h r hr q hq hal (hqs.trans hsr)

variable {r : MemRegion} {k : Nat}

/-- In a region that is as large as the request the search computes the first aligned address. -/
theorem alignedVa_spec (hr : InSpace A r) (hsz : 2 ^ k ≤ r.size) :
    2 ^ k ∣ alignedVa A (2 ^ k) r ∧ r.addr ≤ alignedVa A (2 ^ k) r ∧
      alignedVa A (2 ^ k) r < r.addr + 2 ^ k ∧
      diff A (2 ^ k) r = alignedVa A (2 ^ k) r - r.addr := by
  have hstop := hr.stop_le
  have hb := Region.roundUp_bounds (A := A) (n := r.addr) (Nat.two_pow_pos k) (by omega)
  refine ⟨Dvd.intro_left _ rfl, hb.1, hb.2, Arch.sub_of_le hb.1 ?_⟩
  have := hr.size_lt
  show Region.roundUp A r.addr (2 ^ k) < 2 ^ A.wordBits
  exact Nat.lt_of_le_of_lt (Nat.div_mul_le_self _ _) (Nat.mod_lt _ (Nat.two_pow_pos _))

theorem fits_iff (hr : InSpace A r) :
    fits A (2 ^ k) 7 r = true ↔
      2 ^ k ≤ r.size ∧ alignedVa A (2 ^ k) r + 2 ^ k ≤ r.addr + r.size := by
  unfold fits MemRegion.isAccFit
  simp only [hr.acc, Nat.and_self, beq_self_eq_true, Bool.and_true, Bool.and_eq_true,
    decide_eq_true_eq]
  refine and_congr_right fun hsz => ?_
  obtain ⟨_, h1, h2, hd⟩ := alignedVa_spec hr hsz
  rw [hd, Arch.sub_of_le (by omega) hr.size_lt]
  omega

/-- A region that the search passes over has no aligned page of the size. -/
theorem not_within_of_not_fits (hr : InSpace A r) (h : fits A (2 ^ k) 7 r = false) {p : Span}
    (hp : p.size = 2 ^ k) (hal : 2 ^ k ∣ p.addr) : ¬ Span.Within p (span r) := by
  rintro ⟨h1, h2⟩
  have h1' : r.addr ≤ p.addr := h1
  have h2' : p.addr + p.size ≤ r.addr + r.size := h2
  have hsz : 2 ^ k ≤ r.size := by omega
  obtain ⟨hva, _, h4, _⟩ := alignedVa_spec hr hsz
  -- the first aligned address is not after another one
  have hle : alignedVa A (2 ^ k) r ≤ p.addr := by
    by_contra hlt
    have := Nat.le_of_dvd (by omega) (Nat.dvd_sub hva hal)
    omega
  have := (fits_iff hr).mpr ⟨hsz, by omega⟩
  rw [h] at this
  cases this

/-- A region of the list is replaced by what is left of it around a page. -/
theorem carve_of_pieces {before after c l : List MemRegion} {p : Span}
    (hl : l.Perm (c ++ (before ++ after))) (hp : Span.Within p (span r))
    (hc : c.map span = Span.remnants (span r) p) :
    Span.Carve p ((before ++ r :: after).map span) (l.map span) := by
  refine ⟨span r, (before ++ after).map span, List.perm_middle.map span, hp, ?_⟩
  rw [← hc, ← List.map_append]
  exact hl.map span

/-- What the four branches leave of the region that was found. -/
theorem take_spec {before after l : List MemRegion} (hr : InSpace A r)
    (hfit : fits A (2 ^ k) 7 r = true) (h : take A (2 ^ k) r before after = .ok l) :
    Span.Carve ⟨alignedVa A (2 ^ k) r, 2 ^ k⟩ ((before ++ r :: after).map span) (l.map span) ∧
      ∀ s ∈ l, s ∈ before ++ after ∨ InSpace A s := by
  obtain ⟨hsz, hend⟩ := (fits_iff hr).mp hfit
  obtain ⟨hva, hle, hlt, hdiff⟩ := alignedVa_spec hr hsz
  have hstop := hr.stop_le
  have hsize := hr.size_lt
  have hpos : 0 < 2 ^ k := Nat.two_pow_pos k
  unfold take at h
  rw [hdiff] at h
  generalize alignedVa A (2 ^ k) r = va at *
  have hwithin : Span.Within ⟨va, 2 ^ k⟩ (span r) := ⟨hle, hend⟩
  have hrem : Span.remnants (span r) ⟨va, 2 ^ k⟩ =
      (if r.addr < va then [⟨r.addr, va - r.addr⟩] else []) ++
        (if va + 2 ^ k < r.addr + r.size then
          [⟨va + 2 ^ k, r.addr + r.size - (va + 2 ^ k)⟩] else []) := rfl
  by_cases hd : va - r.addr = 0
  · have hva' : va = r.addr := by omega
    subst hva'
    rw [if_neg (lt_irrefl _), List.nil_append] at hrem
    by_cases hs : r.size = 2 ^ k
    · -- the page is the whole region
      rw [if_pos ⟨hd, hs⟩] at h
      obtain rfl := Except.ok.inj h
      refine ⟨carve_of_pieces (c := []) (List.Perm.refl _) hwithin ?_, fun s hs => .inl hs⟩
      rw [hrem, if_neg (by omega)]
      rfl
    · -- it stands at the start
      rw [if_neg (fun h => hs h.2), if_pos hd, Arch.add_of_lt (by omega),
        Arch.sub_of_le hsz hsize] at h
      obtain rfl := Except.ok.inj h
      refine ⟨carve_of_pieces (c := [_]) List.perm_middle hwithin ?_, fun s hs => ?_⟩
      · rw [hrem, if_pos (by omega), Nat.add_sub_add_left]
        rfl
      · rw [(List.perm_middle).mem_iff, List.mem_cons] at hs
        rcases hs with rfl | hs
        · exact .inr ⟨by simp only; omega, by simp only; omega, hr.acc⟩
        · exact .inl hs
  · rw [if_neg (fun h => hd h.1), if_neg hd] at h
    rw [if_pos (by omega), List.singleton_append] at hrem
    by_cases hs : va + 2 ^ k = r.addr + r.size
    · -- it stands at the end
      rw [if_pos (by unfold MemRegion.endOf Arch.add; rw [hs]), Arch.sub_of_le hsz hsize] at h
      obtain rfl := Except.ok.inj h
      refine ⟨carve_of_pieces (c := [_]) List.perm_middle hwithin ?_, fun s hs => ?_⟩
      · rw [hrem, if_neg (by omega), show va - r.addr = r.size - 2 ^ k by omega]
        rfl
      · rw [(List.perm_middle).mem_iff, List.mem_cons] at hs
        rcases hs with rfl | hs
        · exact .inr ⟨by simp only; omega, by simp only; omega, hr.acc⟩
        · exact .inl hs
    · -- it stands inside
      have hne : ¬ r.endOf A = A.add va (2 ^ k) := by
        unfold MemRegion.endOf
        rw [Arch.add_of_lt (x := va) (by omega)]
        unfold Arch.add
        rcases Nat.lt_or_ge (r.addr + r.size) (2 ^ A.wordBits) with hlt | hge
        · rw [Nat.mod_eq_of_lt hlt]
          omega
        · rw [show r.addr + r.size = 2 ^ A.wordBits by omega, Nat.mod_self]
          omega
      rw [if_neg hne, Arch.add_of_lt (by omega), Arch.sub_of_le (by omega) hsize,
        Arch.sub_of_le (by omega) (by omega)] at h
      obtain ⟨_, h⟩ := ensure_bind_eq_ok.mp h
      obtain rfl := Except.ok.inj h
      have hperm : ∀ a b : MemRegion,
          (before ++ b :: after ++ [a]).Perm ([a, b] ++ (before ++ after)) := fun a _ =>
        (List.perm_append_singleton _ _).trans (List.perm_middle.cons a)
      refine ⟨carve_of_pieces (hperm _ _) hwithin ?_, fun s hs => ?_⟩
      · rw [hrem, if_pos (by omega),
          show r.addr + r.size - (va + 2 ^ k) = r.size - (va - r.addr) - 2 ^ k by omega]
        rfl
      · rw [(hperm _ _).mem_iff, List.cons_append, List.cons_append, List.mem_cons, List.mem_cons] at hs
        rcases hs with rfl | rfl | hs
        · exact .inr ⟨by simp only; omega, by simp only; omega, hr.acc⟩
        · exact .inr ⟨by simp only; omega, by simp only; omega, hr.acc⟩
        · exact .inl hs

/-- **A request for any page of a size.**  Either no region has an aligned page of it, or such a
page is carved out of one region. -/
theorem request_spec {s s' : Sigma0} {fp page : Nat} (hs : Sound A s)
    (hbase : Fpage.base A fp = Fpage.anyBase A) (hsize : Fpage.size A fp = 2 ^ k)
    (hacc : Fpage.access fp = 7) (h : request A s fp = .ok (s', page)) :
    (page = Fpage.nil ∧ s' = s ∧ NoPage (2 ^ k) s.free) ∨
      ∃ va, page = Fpage.create A va (2 ^ k) 7 ∧ page ≠ Fpage.nil ∧ va < 2 ^ A.wordBits ∧
        2 ^ k ∣ va ∧ Span.Carve ⟨va, 2 ^ k⟩ s.free s'.free ∧ Sound A s' ∧
        s'.convMemSize = A.sub s.convMemSize (2 ^ k) := by
  unfold request at h
  rw [if_neg (not_not.mpr hbase), hsize, hacc] at h
  simp only [List.span_eq_takeWhile_dropWhile] at h
  have hsplit := List.takeWhile_append_dropWhile (p := fun r => !fits A (2 ^ k) 7 r)
    (l := s.conventionalMemory)
  have hhead := List.head?_dropWhile_not (fun r => !fits A (2 ^ k) 7 r) s.conventionalMemory
  generalize List.takeWhile (fun r => !fits A (2 ^ k) 7 r) s.conventionalMemory = before at h hsplit
  cases hdrop : List.dropWhile (fun r => !fits A (2 ^ k) 7 r) s.conventionalMemory with
  | nil =>
    rw [hdrop] at h
    obtain ⟨rfl, rfl⟩ := Prod.mk.inj (Except.ok.inj h)
    refine .inl ⟨rfl, rfl, fun t ht p hp hal => ?_⟩
    obtain ⟨r, hr, rfl⟩ := List.mem_map.mp ht
    have hfit : fits A (2 ^ k) 7 r = false := by
      simpa using List.dropWhile_eq_nil_iff.mp hdrop r hr
    exact not_within_of_not_fits (hs r hr) hfit hp hal
  | cons r after =>
    rw [hdrop] at h hsplit hhead
    have hfit : fits A (2 ^ k) 7 r = true := by simpa using hhead
    have hmem : ∀ t, t ∈ before ++ after → t ∈ s.conventionalMemory := fun t ht => by
      rw [← hsplit, List.perm_middle.mem_iff]
      exact List.mem_cons_of_mem r ht
    have hr : InSpace A r := hs r (by rw [← hsplit]; simp)
    obtain ⟨hne, h⟩ := ensure_bind_eq_ok.mp h
    obtain ⟨l, htake, h⟩ := bind_eq_ok.mp h
    obtain ⟨rfl, rfl⟩ := Prod.mk.inj (Except.ok.inj h)
    obtain ⟨hcarve, hl⟩ := take_spec hr hfit htake
    obtain ⟨hsz, hend⟩ := (fits_iff hr).mp hfit
    obtain ⟨hva, hle, _, _⟩ := alignedVa_spec hr hsz
    have hstop := hr.stop_le
    have hpos : 0 < 2 ^ k := Nat.two_pow_pos k
    refine .inr ⟨_, rfl, hne, by omega, hva, ?_, fun t ht => ?_, rfl⟩
    · rw [hsplit] at hcarve
      exact hcarve
    · exact (hl t ht).elim (fun h => hs t (hmem t h)) id

end Sigma0

/-! ## The memory map -/

namespace MemDesc

/-- The memory a descriptor stands for. -/
def span (d : MemDesc) : Span := ⟨d.low * 2 ^ 10, (d.heigh + 1 - d.low) * 2 ^ 10⟩

/-- The conventional memory of a memory map. -/
def conventionalSpans (ds : List MemDesc) : List Span :=
  (ds.filter fun d => d.type = conventional).map span

/-- A memory map: its descriptors of conventional memory are apart from each other and from what the
kernel and the modules use, they end inside the address space and are not all of it. -/
structure MapWf (A : Arch) (ds : List MemDesc) (used : List Span) : Prop where
  bounds : ∀ d ∈ ds, d.type = conventional →
    d.low ≤ d.heigh ∧ d.heigh < 2 ^ (A.wordBits - 10)
  apart : Span.Apart (conventionalSpans ds)
  total_lt : Span.total (conventionalSpans ds) < 2 ^ A.wordBits
  used : Disjoint (Span.union used) (Span.union (conventionalSpans ds))

theorem stop_span_le {d : MemDesc} (h : d.low ≤ d.heigh ∧ d.heigh < 2 ^ (A.wordBits - 10)) :
    d.span.addr + d.span.size ≤ 2 ^ A.wordBits := by
  obtain ⟨h1, h2⟩ := h
  have hw : 2 ^ A.wordBits = 2 ^ (A.wordBits - 10) * 2 ^ 10 := by
    rw [← Nat.pow_add]
    cases A <;> rfl
  show d.low * 2 ^ 10 + (d.heigh + 1 - d.low) * 2 ^ 10 ≤ 2 ^ A.wordBits
  rw [hw]
  omega

theorem low_heigh {low heigh w : Nat} (h : low ≤ heigh)
    (hstop : low * 2 ^ 10 + (heigh + 1 - low) * 2 ^ 10 ≤ w) (hlt : (heigh + 1 - low) * 2 ^ 10 < w) :
    low * 2 ^ 10 % w = low * 2 ^ 10 ∧
      ((heigh + 1) * 2 ^ 10 % w + (w - low * 2 ^ 10 % w)) % w = (heigh + 1 - low) * 2 ^ 10 := by
  have hlow : low * 2 ^ 10 < w := by
    clear hlt
    omega
  have haddr : low * 2 ^ 10 % w = low * 2 ^ 10 := Nat.mod_eq_of_lt hlow
  refine ⟨haddr, ?_⟩
  rw [haddr]
  have hend : (heigh + 1) * 2 ^ 10 ≤ w := by omega
  rcases Nat.lt_or_eq_of_le hend with hlt' | rfl
  · rw [Nat.mod_eq_of_lt hlt', show (heigh + 1) * 2 ^ 10 + (w - low * 2 ^ 10) =
      (heigh + 1 - low) * 2 ^ 10 + w by omega, Nat.add_mod_right, Nat.mod_eq_of_lt hlt]
  · rw [Nat.mod_self, Nat.zero_add, ← Nat.sub_mul, Nat.mod_eq_of_lt hlt]

/-- sigma0 reads the memory of a descriptor from it. -/
theorem addr_size_eq {d : MemDesc} (h : d.low ≤ d.heigh ∧ d.heigh < 2 ^ (A.wordBits - 10))
    (hlt : d.span.size < 2 ^ A.wordBits) : d.addr A = d.span.addr ∧ d.size A = d.span.size := by
  have hstop := stop_span_le h
  exact low_heigh h.1 hstop hlt

end MemDesc

namespace Sigma0

open MemDesc (conventional conventionalSpans)

theorem addDesc_spec {s s' : Sigma0} {d : MemDesc} (h : addDesc A s d = .ok s') :
    if d.type = conventional then
      s'.conventionalMemory = s.conventionalMemory ++ [⟨d.addr A, d.size A, 7⟩] ∧
        s'.convMemSize = A.add s.convMemSize (d.size A)
    else s'.conventionalMemory = s.conventionalMemory ∧ s'.convMemSize = s.convMemSize := by
  unfold addDesc at h
  by_cases hb : d.type = MemDesc.bootloader
  · rw [if_pos hb] at h
    rw [if_neg (by rw [hb]; decide)]
    obtain ⟨acc, _, h⟩ := bind_eq_ok.mp h
    cases acc with
    | none =>
      obtain rfl := Except.ok.inj h
      exact ⟨rfl, rfl⟩
    | some acc =>
      obtain ⟨l, _, h⟩ := bind_eq_ok.mp h
      obtain rfl := Except.ok.inj h
      exact ⟨rfl, rfl⟩
  · rw [if_neg hb] at h
    by_cases hc : d.type = conventional
    · rw [if_pos hc] at h ⊢
      obtain ⟨l, hl, h⟩ := bind_eq_ok.mp h
      obtain rfl := Except.ok.inj h
      obtain ⟨_, hl⟩ := ensure_bind_eq_ok.mp hl
      exact ⟨(Except.ok.inj hl).symm, rfl⟩
    · rw [if_neg hc] at h ⊢
      obtain rfl := Except.ok.inj h
      exact ⟨rfl, rfl⟩

/-- The regions that the loop over the descriptors adds. -/
theorem addDescs_spec : ∀ {ds : List MemDesc} {s s' : Sigma0},
    (∀ d ∈ ds, d.type = conventional → d.low ≤ d.heigh ∧ d.heigh < 2 ^ (A.wordBits - 10)) →
    s.convMemSize + Span.total (conventionalSpans ds) < 2 ^ A.wordBits →
    runAll (addDesc A) s ds = .ok s' → Sound A s →
    s'.free = s.free ++ conventionalSpans ds ∧ Sound A s' ∧
      s'.convMemSize = s.convMemSize + Span.total (conventionalSpans ds)
  | [], s, s', _, _, h, hs => by
    obtain rfl := Except.ok.inj h
    simp [conventionalSpans, hs]
  | d :: ds, s, s', hb, htot, h, hs => by
    obtain ⟨t, ht, h⟩ := bind_eq_ok.mp h
    have hspec := addDesc_spec ht
    have hb' : ∀ d ∈ ds, d.type = conventional →
        d.low ≤ d.heigh ∧ d.heigh < 2 ^ (A.wordBits - 10) :=
      fun d hd => hb d (List.mem_cons_of_mem _ hd)
    by_cases hc : d.type = conventional
    · rw [if_pos hc] at hspec
      have hcons : conventionalSpans (d :: ds) = d.span :: conventionalSpans ds := by
        simp [conventionalSpans, hc]
      rw [hcons, Span.total_cons] at htot ⊢
      have hd := hb d List.mem_cons_self hc
      obtain ⟨haddr, hsize⟩ := MemDesc.addr_size_eq hd (by omega)
      rw [haddr, hsize] at hspec
      rw [Arch.add_of_lt (by omega)] at hspec
      have hst : Sound A t := by
        intro r hr
        rw [hspec.1, List.mem_append, List.mem_singleton] at hr
        rcases hr with hr | rfl
        · exact hs r hr
        · exact ⟨MemDesc.stop_span_le hd, by simp only; omega, rfl⟩
      obtain ⟨hfree, hsound, hsz⟩ := addDescs_spec hb' (by rw [hspec.2]; omega) h hst
      refine ⟨?_, hsound, by rw [hsz, hspec.2]; omega⟩
      rw [hfree]
      unfold free
      rw [hspec.1]
      simp [Sigma0.span]
    · rw [if_neg hc] at hspec
      have hcons : conventionalSpans (d :: ds) = conventionalSpans ds := by
        simp [conventionalSpans, hc]
      rw [hcons] at htot ⊢
      have hst : Sound A t := by
        intro r hr
        rw [hspec.1] at hr
        exact hs r hr
      obtain ⟨hfree, hsound, hsz⟩ := addDescs_spec hb' (by rw [hspec.2]; exact htot) h hst
      refine ⟨?_, hsound, by rw [hsz, hspec.2]⟩
      rw [hfree]
      unfold free
      rw [hspec.1]

end Sigma0

/-! ## Runs -/

namespace Handover

open Sigma0 (NoPage)
open MemDesc (MapWf conventionalSpans)

/-- The granted pages. -/
def pages (A : Arch) (w : Handover) : List Span :=
  w.granted.map fun fp => ⟨Fpage.addr A fp, Fpage.size A fp⟩

/-- What holds between the turns, `init` being the conventional memory at the start.  `asks` says
that every size above the one alpha asks for has been refused. -/
structure Inv (A : Arch) (init : List Span) (w : Handover) : Prop where
  sound : Sigma0.Sound A w.sigma0
  divided : Span.Divided init (w.pages A) w.sigma0.free
  size : w.sigma0.convMemSize = Span.total w.sigma0.free
  aligned : ∀ p ∈ w.pages A, p.size ∣ p.addr
  asks : ∃ k, 12 ≤ k ∧ k ≤ 31 ∧ w.alpha.reqSize = 2 ^ k ∧
    (∀ j, k < j → j ≤ 31 → NoPage (2 ^ j) w.sigma0.free) ∧
    (w.alpha.stopped = true → k = 12 ∧ NoPage (2 ^ 12) w.sigma0.free)

variable {init : List Span} {w w' : Handover}

/-- A refusal: alpha asks for half the size or stops. -/
theorem receive_nil {a a' : Alpha} {k : Nat} (hk : 12 ≤ k) (hreq : a.reqSize = 2 ^ k)
    (h : a.receive A (Item.mapWord0 A) Fpage.nil = .ok a') :
    (k = 12 ∧ a' = { a with stopped := true }) ∨
      (12 < k ∧ a' = { a with reqSize := 2 ^ (k - 1) }) := by
  obtain ⟨_, h⟩ := ensure_bind_eq_ok.mp h
  obtain ⟨_, h⟩ := ensure_bind_eq_ok.mp h
  have hnil : A.field A.wordBits 0 (A.wordBits - 10) (Item.mapWord0 A) = 0 ∧
      Fpage.isNil Fpage.nil = true := by cases A <;> decide
  rw [if_pos hnil] at h
  by_cases hpage : a.reqSize = pageSz
  · rw [if_pos hpage] at h
    rw [hreq] at hpage
    exact .inl ⟨Nat.pow_right_injective le_rfl hpage, (Except.ok.inj h).symm⟩
  · rw [if_neg hpage] at h
    have hk12 : k ≠ 12 := by
      rintro rfl
      exact hpage hreq
    refine .inr ⟨by omega, ?_⟩
    rw [← Except.ok.inj h, hreq, ← Nat.pow_div (by omega : 1 ≤ k) (by decide), Nat.pow_one]

/-- A page: alpha goes on with the same size. -/
theorem receive_page {a a' : Alpha} {fp : Nat} (hfp : fp ≠ Fpage.nil)
    (h : a.receive A (Item.mapWord0 A) fp = .ok a') :
    a'.reqSize = a.reqSize ∧ a'.stopped = a.stopped := by
  obtain ⟨_, h⟩ := ensure_bind_eq_ok.mp h
  obtain ⟨_, h⟩ := ensure_bind_eq_ok.mp h
  have hnil : ¬ (A.field A.wordBits 0 (A.wordBits - 10) (Item.mapWord0 A) = 0 ∧
      Fpage.isNil fp = true) := fun hn => hfp (by simpa [Fpage.isNil] using hn.2)
  rw [if_neg hnil] at h
  obtain ⟨pool, _, h⟩ := bind_eq_ok.mp h
  obtain rfl := Except.ok.inj h
  exact ⟨rfl, rfl⟩

/-- A turn of alpha's loop keeps the invariant. -/
theorem inv_round (htot : Span.total init < 2 ^ A.wordBits) (hi : Inv A init w)
    (hgo : w.alpha.stopped = false) (h : w.round A = .ok w') : Inv A init w' := by
  obtain ⟨k, hk, hk31, hreq, hrefused, _⟩ := hi.asks
  have hkw : k < A.wordBits := lt_of_le_of_lt hk31 (by cases A <;> decide)
  obtain ⟨m, hm, h⟩ := bind_eq_ok.mp h
  obtain ⟨⟨s, fp⟩, hs, h⟩ := bind_eq_ok.mp h
  obtain ⟨a, ha, h⟩ := bind_eq_ok.mp h
  obtain rfl := Except.ok.inj h
  obtain ⟨_, hm⟩ := ensure_bind_eq_ok.mp hm
  obtain rfl := Except.ok.inj hm
  rw [hreq] at hs
  obtain ⟨_, hs⟩ := ensure_bind_eq_ok.mp hs
  obtain ⟨_, hs⟩ := ensure_bind_eq_ok.mp hs
  obtain ⟨hbase, hsize, hacc⟩ := Fpage.setAnyBase_spec (A := A) (c := 7) hk hkw
  rcases Sigma0.request_spec hi.sound hbase hsize hacc hs with
    ⟨rfl, rfl, hno⟩ | ⟨va, rfl, hne, hvaw, hva, hcarve, hsound, hconv⟩
  · -- no page of this size is left
    have hasks : ∀ j, k ≤ j → j ≤ 31 → NoPage (2 ^ j) w.sigma0.free := fun j hj hj31 => by
      rcases Nat.lt_or_eq_of_le hj with hlt | rfl
      · exact hrefused j hlt hj31
      · exact hno
    refine ⟨hi.sound, hi.divided, hi.size, hi.aligned, ?_⟩
    rcases receive_nil hk hreq ha with ⟨rfl, rfl⟩ | ⟨hk12, rfl⟩
    · exact ⟨12, hk, hk31, hreq, hrefused, fun _ => ⟨rfl, hno⟩⟩
    · refine ⟨k - 1, by omega, by omega, rfl, fun j hj => hasks j (by omega), fun hstop => ?_⟩
      rw [show w.alpha.stopped = true from hstop] at hgo
      cases hgo
  · -- a page is carved out of one region
    obtain ⟨haddr, _, hsz, _⟩ := Fpage.create_spec (A := A) (c := 7) hk hkw hvaw hva
    have hpages : Handover.pages A ⟨s, a, if Fpage.isNil (Fpage.create A va (2 ^ k) 7) then w.granted
        else Fpage.create A va (2 ^ k) 7 :: w.granted⟩ = ⟨va, 2 ^ k⟩ :: w.pages A := by
      unfold pages
      rw [if_neg (by simpa [Fpage.isNil] using hne), List.map_cons, haddr, hsz]
    obtain ⟨hreqSize, hstopped⟩ := receive_page hne ha
    refine ⟨hsound, ?_, ?_, ?_, k, hk, hk31, hreqSize.trans hreq,
      fun j hj hj31 => (hrefused j hj hj31).carve hcarve, fun hstop => ?_⟩
    · rw [hpages]
      exact hi.divided.carve (Nat.two_pow_pos k) hcarve
    · have h1 : Span.total w.sigma0.free = 2 ^ k + Span.total s.free := hcarve.total_eq
      have h2 := hi.divided.total_eq
      show s.convMemSize = Span.total s.free
      rw [hconv, hi.size, Arch.sub_of_le (by omega) (by omega)]
      omega
    · rw [hpages]
      intro p hp
      rcases List.mem_cons.mp hp with rfl | hp
      · exact hva
      · exact hi.aligned p hp
    · rw [hstopped, hgo] at hstop
      cases hstop

/-- The other messages of alpha leave the conventional memory as it is. -/
theorem inv_step (htot : Span.total init < 2 ^ A.wordBits) (hi : Inv A init w) {e : Event}
    (h : step A w e = .ok w') : Inv A init w' := by
  cases e with
  | round =>
    unfold step at h
    by_cases hstop : w.alpha.stopped = true
    · rw [if_pos hstop] at h
      exact Except.ok.inj h ▸ hi
    · rw [if_neg hstop] at h
      exact inv_round htot hi (by simpa using hstop) h
  | pagefault access addr inst =>
    obtain ⟨⟨s, fp⟩, hs, h⟩ := bind_eq_ok.mp h
    obtain rfl := Except.ok.inj h
    obtain ⟨_, hs⟩ := ensure_bind_eq_ok.mp hs
    obtain ⟨_, hs⟩ := ensure_bind_eq_ok.mp hs
    obtain ⟨_, _, hs⟩ := bind_eq_ok.mp hs
    obtain ⟨rfl, rfl⟩ := Prod.mk.inj (Except.ok.inj hs)
    exact hi
  | ioMap fpage attr =>
    obtain ⟨hbase, h⟩ := ensure_bind_eq_ok.mp h
    obtain ⟨⟨s, fp⟩, hs, h⟩ := bind_eq_ok.mp h
    obtain rfl := Except.ok.inj h
    obtain ⟨_, hs⟩ := ensure_bind_eq_ok.mp hs
    obtain ⟨_, hs⟩ := ensure_bind_eq_ok.mp hs
    have hs' : (w.sigma0, fpage) = (s, fp) := by
      have hs' : Sigma0.request A w.sigma0 fpage = .ok (s, fp) := hs
      unfold Sigma0.request at hs'
      rw [if_pos hbase] at hs'
      exact Except.ok.inj hs'
    obtain ⟨rfl, rfl⟩ := Prod.mk.inj hs'
    exact hi

theorem inv_start {ds : List MemDesc} {used : List Span} (hmap : MapWf A ds used)
    (h : start A ds = .ok w) : Inv A (conventionalSpans ds) w := by
  obtain ⟨s, hs, h⟩ := bind_eq_ok.mp h
  obtain rfl := Except.ok.inj h
  obtain ⟨hfree, hsound, hsize⟩ := Sigma0.addDescs_spec hmap.bounds
    (by rw [Nat.zero_add]; exact hmap.total_lt) hs (fun r hr => by cases hr)
  have hfree' : s.free = conventionalSpans ds := by rw [hfree]; rfl
  refine ⟨hsound, ?_, ?_, fun p hp => (by cases hp), 31, by decide, le_rfl, rfl, fun j hj hj31 => ?_,
    fun hstop => by cases hstop⟩
  · show Span.Divided (conventionalSpans ds) [] s.free
    rw [hfree']
    exact Span.Divided.start hmap.apart
  · show s.convMemSize = Span.total s.free
    rw [hfree', hsize, Nat.zero_add]
  · omega

/-- **The hand-over conserves memory.**  In every run from a memory map, whatever comes between the
turns of alpha's loop: the granted pages are apart, aligned to their sizes and inside conventional
memory that nothing else uses; they and the remaining regions are the conventional memory of the
start, with `conv_mem_size` the sum of what remains; and when alpha stops, no aligned page of a
requested size that lies in one region of the map is left. -/
theorem handover_conserves {ds : List MemDesc} {used : List Span} (hmap : MapWf A ds used) {es : List Event}
    {w w' : Handover} (hstart : start A ds = .ok w) (hrun : runAll (step A) w es = .ok w') :
    Span.Apart (w'.pages A) ∧
      (∀ p ∈ w'.pages A, p.size ∣ p.addr ∧ p.points ⊆ Span.union (conventionalSpans ds) ∧
        Disjoint p.points (Span.union used)) ∧
      (Span.union (conventionalSpans ds) = Span.union (w'.pages A) ∪ Span.union w'.sigma0.free ∧
        Disjoint (Span.union (w'.pages A)) (Span.union w'.sigma0.free) ∧
        Span.Apart w'.sigma0.free) ∧
      Span.total (w'.pages A) + Span.total w'.sigma0.free = Span.total (conventionalSpans ds) ∧
      w'.sigma0.convMemSize = Span.total w'.sigma0.free ∧
      (w'.alpha.stopped = true → ∀ k, 12 ≤ k → k ≤ 31 → ∀ p : Span, p.size = 2 ^ k → 2 ^ k ∣ p.addr →
        ∀ i ∈ conventionalSpans ds, Span.Within p i → ¬ p.points ⊆ Span.union w'.sigma0.free) := by
  have hi : Inv A (conventionalSpans ds) w' :=
    runAll_invariant_of_step (fun _ _ _ hi h => inv_step hmap.total_lt hi h) (inv_start hmap hstart)
      hrun
  obtain ⟨hgranted, hfree, hdisj⟩ := Span.apart_append.mp hi.divided.apart
  have hsub : ∀ p ∈ w'.pages A, p.points ⊆ Span.union (conventionalSpans ds) := fun p hp x hx => by
    rw [hi.divided.union_eq]
    exact .inl ⟨p, hp, hx⟩
  refine ⟨hgranted, fun p hp => ⟨hi.aligned p hp, hsub p hp, ?_⟩,
    ⟨hi.divided.union_eq, hdisj, hfree⟩, hi.divided.total_eq.symm, hi.size, ?_⟩
  · exact Set.disjoint_of_subset_left (hsub p hp) hmap.used.symm
  · intro hstop k hk hk31 p hp hal i hi' hpi hfree'
    obtain ⟨s, hs, hps⟩ := hi.divided.whole hmap.apart (by rw [hp]; exact Nat.two_pow_pos k) hi' hpi
      hfree'
    obtain ⟨l, hl, _, _, hrefused, hstopped⟩ := hi.asks
    obtain ⟨rfl, hno⟩ := hstopped hstop
    rcases Nat.lt_or_eq_of_le hk with hlt | rfl
    · exact hrefused k hlt hk31 s hs p hp hal hps
    · exact hno s hs p hp hal hps

/-- Eight kilobytes of which one page is aligned, and a kernel below them. -/
def oneDesc : List MemDesc := [⟨3, 10, MemDesc.conventional, 0⟩]

theorem mapWf_oneDesc : MapWf .x86 oneDesc [⟨0, 0x800⟩] where
  bounds := by decide
  apart := List.pairwise_singleton _ _
  total_lt := by decide
  used := by
    rw [Set.disjoint_left]
    rintro x ⟨s, hs, hx⟩ ⟨t, ht, hxt⟩
    obtain rfl := List.mem_singleton.mp hs
    obtain rfl : t = ⟨0xc00, 0x2000⟩ := List.mem_singleton.mp ht
    rw [Span.mem_points] at hx hxt
    simp only at hx hxt
    omega

/-- What a run that starts from a memory map comes to, as far as sigma0 and the loop of alpha are
concerned. -/
def outcome (A : Arch) (ds : List MemDesc) (es : List Event) : Option (Sigma0 × Bool × List Span) :=
  (start A ds >>= fun w => runAll (step A) w es).toOption.map fun w =>
    (w.sigma0, w.alpha.stopped, w.pages A)

theorem exists_of_outcome {ds : List MemDesc} {es : List Event} {s : Sigma0} {b : Bool}
    {l : List Span} (h : outcome A ds es = some (s, b, l)) :
    ∃ w w', start A ds = .ok w ∧ runAll (step A) w es = .ok w' ∧ w'.sigma0 = s ∧
      w'.alpha.stopped = b ∧ w'.pages A = l := by
  unfold outcome at h
  cases hx : (start A ds >>= fun w => runAll (step A) w es) with
  | error e =>
    rw [hx] at h
    cases h
  | ok w' =>
    rw [hx] at h
    obtain ⟨w, hw, hw'⟩ := bind_eq_ok.mp hx
    obtain ⟨hs, hb⟩ := Prod.mk.inj (Option.some.inj h)
    obtain ⟨hb, hl⟩ := Prod.mk.inj hb
    exact ⟨w, w', hw, hw', hs, hb, hl⟩

/-- One page is granted and what remains is as much as there was without it. -/
theorem oneDesc_conserves : ∃ w w', start .x86 oneDesc = .ok w ∧
    runAll (step .x86) w (List.replicate 21 .round) = .ok w' ∧ w'.pages .x86 = [⟨0x1000, 0x1000⟩] ∧
      0x1000 + Span.total w'.sigma0.free = 0x2000 := by
  obtain ⟨w, w', hw, hw', _, _, hl⟩ := exists_of_outcome (A := .x86) (s := ⟨[],
    [⟨0x2000, 0xc00, 7⟩, ⟨0xc00, 0x400, 7⟩], 0x1000⟩) (b := true) (l := [⟨0x1000, 0x1000⟩])
    (show outcome .x86 oneDesc (List.replicate 21 .round) = _ by decide +kernel)
  have h := (handover_conserves mapWf_oneDesc hw hw').2.2.2.1
  rw [hl] at h
  exact ⟨w, w', hw, hw', hl, h⟩

/-- Two descriptors that share the page at `0x1000`. -/
def twoDescs : List MemDesc := [⟨4, 4, MemDesc.conventional, 0⟩, ⟨5, 7, MemDesc.conventional, 0⟩]

/-- alpha stops and a page of the smallest size is free: its first kilobyte is one region of sigma0,
the rest another. -/
theorem twoDescs_page_left : MapWf .x86 twoDescs [⟨0, 0x1000⟩] ∧ ∃ w w', start .x86 twoDescs = .ok w ∧
    runAll (step .x86) w (List.replicate 20 .round) = .ok w' ∧ w'.alpha.stopped = true ∧
      ∃ p : Span, p.size = 2 ^ 12 ∧ 2 ^ 12 ∣ p.addr ∧ p.points ⊆ Span.union w'.sigma0.free := by
  constructor
  · refine ⟨by decide, ?_, by decide, ?_⟩
    · refine List.Pairwise.cons (fun t ht => ?_) (List.pairwise_singleton _ _)
      obtain rfl : t = ⟨0x1400, 0xc00⟩ := List.mem_singleton.mp ht
      rw [Set.disjoint_left]
      intro x hx hxt
      have hx : 0x1000 ≤ x ∧ x < 0x1000 + 0x400 := hx
      have hxt : 0x1400 ≤ x ∧ x < 0x1400 + 0xc00 := hxt
      omega
    · rw [Set.disjoint_left]
      rintro x ⟨s, hs, hx⟩ ⟨t, ht, hxt⟩
      obtain rfl := List.mem_singleton.mp hs
      have hx : 0 ≤ x ∧ x < 0 + 0x1000 := hx
      have ht : t ∈ [(⟨0x1000, 0x400⟩ : Span), ⟨0x1400, 0xc00⟩] := ht
      rw [List.mem_cons, List.mem_singleton] at ht
      rw [Span.mem_points] at hxt
      rcases ht with rfl | rfl <;> simp only at hxt <;> omega
  · obtain ⟨w, w', hw, hw', hs, hstop, _⟩ := exists_of_outcome (A := .x86) (s := ⟨[],
      [⟨0x1000, 0x400, 7⟩, ⟨0x1400, 0xc00, 7⟩], 0x1000⟩) (b := true) (l := [])
      (show outcome .x86 twoDescs (List.replicate 20 .round) = _ by decide +kernel)
    refine ⟨w, w', hw, hw', hstop, ⟨0x1000, 0x1000⟩, rfl, by decide, fun x hx => ?_⟩
    rw [hs]
    rw [Span.mem_points] at hx
    simp only at hx
    by_cases hlt : x < 0x1400
    · exact ⟨⟨0x1000, 0x400⟩, List.mem_cons_self, Span.mem_points.mpr (by simp only; omega)⟩
    · exact ⟨⟨0x1400, 0xc00⟩, List.mem_cons_of_mem _ List.mem_cons_self,
        Span.mem_points.mpr (by simp only; omega)⟩

end Handover

end Wrmos
