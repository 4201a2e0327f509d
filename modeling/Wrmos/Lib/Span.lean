import Mathlib

/-!
# Lists of intervals of addresses, and carving pages out of them

A `Span` is a half-open interval of natural numbers given by its start and its size.  A list of
spans stands for the memory an allocator holds: `union` is the set of its addresses, `total` the
sum of its sizes and `Apart` says that no two of its spans share an address.

`Carve p l l'` is one allocation: the span `p` lies in one span of `l`, and `l'` has what is left
of that span before and after `p` in its place.  `Divided init granted free` is the invariant of any
sequence of allocations: what was granted and what is free are apart, and together they are what
there was at the start.  Spans of a list are never joined, so a span that is free as a set of
addresses lies in one free span only where it lies in one span of the start (`Divided.whole`).
-/

namespace Wrmos
namespace Lib

/-- A half-open interval of addresses. -/
structure Span where
  addr : Nat
  size : Nat
  deriving DecidableEq, Repr

namespace Span

variable {s t p r : Span} {l l' rest init granted free : List Span} {x : Nat}

def stop (s : Span) : Nat := s.addr + s.size

/-- The addresses of a span. -/
def points (s : Span) : Set ℕ := Set.Ico s.addr s.stop

theorem mem_points : x ∈ s.points ↔ s.addr ≤ x ∧ x < s.addr + s.size := Iff.rfl

/-- The addresses of a list of spans. -/
def union (l : List Span) : Set ℕ := {x | ∃ s ∈ l, x ∈ s.points}

/-- The sum of the sizes. -/
def total (l : List Span) : Nat := (l.map size).sum

/-- No two spans share an address. -/
def Apart (l : List Span) : Prop := l.Pairwise fun s t => Disjoint s.points t.points

@[simp] theorem union_nil : union [] = ∅ := by
  ext x
  simp [union]

@[simp] theorem union_cons : union (s :: l) = s.points ∪ union l := by
  ext x
  simp [union]

@[simp] theorem union_append : union (l ++ l') = union l ∪ union l' := by
  ext x
  simp [union, or_and_right, exists_or]

theorem union_perm (h : l.Perm l') : union l = union l' := by
  ext x
  simp only [union, Set.mem_ofPred_eq, h.mem_iff]

@[simp] theorem total_nil : total [] = 0 := rfl

@[simp] theorem total_cons : total (s :: l) = s.size + total l := by simp [total]

@[simp] theorem total_append : total (l ++ l') = total l + total l' := by simp [total]

theorem total_perm (h : l.Perm l') : total l = total l' := (h.map size).sum_eq

theorem size_le_total (h : s ∈ l) : s.size ≤ total l :=
  List.single_le_sum (fun _ _ => Nat.zero_le _) _ (List.mem_map_of_mem h)

theorem apart_perm (h : l.Perm l') : Apart l ↔ Apart l' := h.pairwise_iff fun hd => hd.symm

theorem apart_cons : Apart (s :: l) ↔ Disjoint s.points (union l) ∧ Apart l := by
  unfold Apart
  rw [List.pairwise_cons]
  refine and_congr_left fun _ => ?_
  simp only [Set.disjoint_left, union, Set.mem_ofPred_eq, not_exists, not_and]
  exact ⟨fun h x hx t ht => h t ht hx, fun h t ht x hx => h hx t ht⟩

theorem apart_append : Apart (l ++ l') ↔ Apart l ∧ Apart l' ∧ Disjoint (union l) (union l') := by
  induction l with
  | nil => simp [Apart]
  | cons s l ih =>
    simp only [List.cons_append, apart_cons, ih, union_append, union_cons, Set.disjoint_union_left,
      Set.disjoint_union_right]
    tauto

/-- Two spans of a list whose spans are apart are one span when they share an address. -/
theorem Apart.eq_of_mem (h : Apart l) (hs : s ∈ l) (ht : t ∈ l) (hx : x ∈ s.points)
    (hxt : x ∈ t.points) : s = t := by
  have hsymm : Std.Symm fun s t : Span => Disjoint s.points t.points := ⟨fun _ _ hd => hd.symm⟩
  by_contra hne
  exact Set.disjoint_left.mp (List.Pairwise.forall h hs ht hne) hx hxt

theorem finite_union (l : List Span) : (union l).Finite := by
  induction l with
  | nil => simp
  | cons s l ih =>
    rw [union_cons]
    exact (Set.finite_Ico _ _).union ih

/-- Spans that are apart have as many addresses as the sum of their sizes. -/
theorem ncard_union (h : Apart l) : (union l).ncard = total l := by
  induction l with
  | nil => simp
  | cons s l ih =>
    obtain ⟨hdisj, hl⟩ := apart_cons.mp h
    have hs : s.points.ncard = s.size := by
      unfold points stop
      rw [← Finset.coe_Ico, Set.ncard_coe_finset, Nat.card_Ico, Nat.add_sub_cancel_left]
    rw [union_cons, Set.ncard_union_eq hdisj (Set.finite_Ico _ _) (finite_union l), hs, ih hl, total_cons]

/-- Spans that are apart have no more room than there are addresses. -/
theorem total_le {n : Nat} (h : Apart l) (hn : ∀ x ∈ union l, x < n) : total l ≤ n := by
  have hsub : union l ⊆ Set.Iio n := hn
  have hcard := Set.ncard_le_ncard hsub (Set.finite_Iio n)
  rwa [ncard_union h, ← Finset.coe_Iio, Set.ncard_coe_finset, Nat.card_Iio] at hcard

/-! ## Carving -/

/-- `p` lies in `r`. -/
def Within (p r : Span) : Prop := r.addr ≤ p.addr ∧ p.stop ≤ r.stop

theorem Within.trans (h : Within s p) (h' : Within p r) : Within s r :=
  ⟨h'.1.trans h.1, h.2.trans h'.2⟩

theorem Within.points (h : Within p r) : p.points ⊆ r.points :=
  Set.Ico_subset_Ico h.1 h.2

/-- What is left of `r` before and after `p`. -/
def remnants (r p : Span) : List Span :=
  (if r.addr < p.addr then [⟨r.addr, p.addr - r.addr⟩] else []) ++
    (if p.stop < r.stop then [⟨p.stop, r.stop - p.stop⟩] else [])

theorem mem_remnants (h : s ∈ remnants r p) :
    (s.addr = r.addr ∧ s.stop = p.addr ∧ r.addr < p.addr) ∨
      (s.addr = p.stop ∧ s.stop = r.stop ∧ p.stop < r.stop) := by
  unfold remnants at h
  rw [List.mem_append] at h
  rcases h with h | h
  · split at h
    · obtain rfl := List.mem_singleton.mp h
      left
      refine ⟨rfl, ?_, ‹_›⟩
      show r.addr + (p.addr - r.addr) = p.addr
      omega
    · cases h
  · split at h
    · obtain rfl := List.mem_singleton.mp h
      right
      refine ⟨rfl, ?_, ‹_›⟩
      show p.stop + (r.stop - p.stop) = r.stop
      omega
    · cases h

theorem Within.of_remnants (h : Within p r) (hs : s ∈ remnants r p) : Within s r := by
  have hp : p.stop = p.addr + p.size := rfl
  unfold Within at h ⊢
  rcases mem_remnants hs with ⟨ha, hb, _⟩ | ⟨ha, hb, _⟩ <;> omega

/-- A span is the page taken out of it and the remnants. -/
theorem points_eq_remnants (h : Within p r) : p.points ∪ union (remnants r p) = r.points := by
  ext x
  obtain ⟨h1, h2⟩ := h
  unfold stop at h2
  unfold remnants stop
  simp only [Set.mem_union, union_append, mem_points]
  split_ifs <;> simp [mem_points, union] <;> omega

theorem disjoint_remnants : Disjoint p.points (union (remnants r p)) := by
  rw [Set.disjoint_left]
  rintro x hx ⟨s, hs, hxs⟩
  rw [mem_points] at hx hxs
  have hp : p.stop = p.addr + p.size := rfl
  have hss : s.stop = s.addr + s.size := rfl
  rcases mem_remnants hs with ⟨_, hb, _⟩ | ⟨ha, _, _⟩ <;> omega

theorem apart_remnants : Apart (remnants r p) := by
  unfold remnants
  rw [apart_append]
  refine ⟨?_, ?_, ?_⟩
  · split <;> simp [Apart]
  · split <;> simp [Apart]
  · split_ifs <;> simp [Set.disjoint_left, mem_points, stop]
    omega

theorem total_remnants (h : Within p r) : p.size + total (remnants r p) = r.size := by
  obtain ⟨h1, h2⟩ := h
  unfold stop at h2
  unfold remnants stop
  split_ifs <;> simp <;> omega

/-- One span of the list has a page taken out of it. -/
def Carve (p : Span) (l l' : List Span) : Prop :=
  ∃ r rest, l.Perm (r :: rest) ∧ Within p r ∧ l'.Perm (remnants r p ++ rest)

namespace Carve

theorem union_eq (h : Carve p l l') : union l = p.points ∪ union l' := by
  obtain ⟨r, rest, hl, hp, hl'⟩ := h
  rw [union_perm hl, union_perm hl', union_cons, union_append, ← Set.union_assoc,
    points_eq_remnants hp]

theorem total_eq (h : Carve p l l') : total l = p.size + total l' := by
  obtain ⟨r, rest, hl, hp, hl'⟩ := h
  have := total_remnants hp
  rw [total_perm hl, total_perm hl', total_cons, total_append]
  omega

/-- Carving a page out of spans that are apart leaves them and the page apart. -/
theorem apart (h : Carve p l l') (hl : Apart l) : Apart (p :: l') := by
  obtain ⟨r, rest, hperm, hp, hperm'⟩ := h
  rw [apart_perm hperm, apart_cons, ← points_eq_remnants hp, Set.disjoint_union_left] at hl
  rw [apart_perm (hperm'.cons p), apart_cons, union_append, Set.disjoint_union_right, apart_append]
  exact ⟨⟨disjoint_remnants, hl.1.1⟩, apart_remnants, hl.2, hl.1.2⟩

/-- Every span of the new list lies in one of the old list. -/
theorem within (h : Carve p l l') (hs : s ∈ l') : ∃ r ∈ l, Within s r := by
  obtain ⟨r, rest, hl, hp, hl'⟩ := h
  rw [hl'.mem_iff, List.mem_append] at hs
  rcases hs with hs | hs
  · exact ⟨r, hl.mem_iff.mpr List.mem_cons_self, hp.of_remnants hs⟩
  · exact ⟨s, hl.mem_iff.mpr (List.mem_cons_of_mem r hs), le_rfl, le_rfl⟩

/-- A span of the new list starts where one of the old list does or right after the page. -/
theorem starts (h : Carve p l l') (hs : s ∈ l') :
    (∃ r ∈ l, s.addr = r.addr ∧ Within s r) ∨ s.addr = p.stop := by
  obtain ⟨r, rest, hl, hp, hl'⟩ := h
  rw [hl'.mem_iff, List.mem_append] at hs
  rcases hs with hs | hs
  · rcases mem_remnants hs with ⟨ha, _, _⟩ | ⟨ha, _, _⟩
    · exact .inl ⟨r, hl.mem_iff.mpr List.mem_cons_self, ha, hp.of_remnants hs⟩
    · exact .inr ha
  · exact .inl ⟨s, hl.mem_iff.mpr (List.mem_cons_of_mem r hs), rfl, le_rfl, le_rfl⟩

end Carve

/-! ## The same memory in other spans -/

/-- The spans of `l'` are those of `l`, some of them cut. -/
structure Recut (l l' : List Span) : Prop where
  union_eq : union l = union l'
  total_eq : total l = total l'
  apart : Apart l → Apart l'

namespace Recut

theorem refl (l : List Span) : Recut l l := ⟨rfl, rfl, id⟩

theorem trans {l₁ l₂ l₃ : List Span} (h : Recut l₁ l₂) (h' : Recut l₂ l₃) : Recut l₁ l₃ :=
  ⟨h.union_eq.trans h'.union_eq, h.total_eq.trans h'.total_eq, fun hl => h'.apart (h.apart hl)⟩

theorem of_perm (h : l.Perm l') : Recut l l' := ⟨union_perm h, total_perm h, (apart_perm h).mp⟩

/-- A page that is taken out stays beside what is left. -/
theorem of_carve (h : Carve p l l') : Recut l (p :: l') :=
  ⟨by rw [h.union_eq, union_cons], by rw [h.total_eq, total_cons], h.apart⟩

/-- A span is cut in the middle. -/
theorem halve {a size : Nat} (h : l.Perm (⟨a, size + size⟩ :: rest)) (hsize : 0 < size) :
    Recut l (⟨a, size⟩ :: ⟨a + size, size⟩ :: rest) := by
  refine of_carve ⟨⟨a, size + size⟩, rest, h, ?_, ?_⟩
  · unfold Within stop
    dsimp only
    omega
  · have hrem : remnants ⟨a, size + size⟩ ⟨a, size⟩ = [⟨a + size, size⟩] := by
      unfold remnants stop
      dsimp only
      rw [if_neg (Nat.lt_irrefl a), if_pos (by omega), List.nil_append]
      congr 2
      omega
    rw [hrem]
    exact .refl _

/-- Spans that lie apart from the others still do. -/
theorem apart_append (h : Recut l l') (hl : Apart (granted ++ l)) : Apart (granted ++ l') := by
  rw [Span.apart_append] at hl ⊢
  obtain ⟨hg, hl, hd⟩ := hl
  exact ⟨hg, h.apart hl, h.union_eq ▸ hd⟩

end Recut

/-! ## Any sequence of allocations -/

/-- What was there at the start is divided into granted pages and free spans.  A free span starts
where a span of the start does, or right after a granted address. -/
structure Divided (init granted free : List Span) : Prop where
  apart : Apart (granted ++ free)
  union_eq : union init = union granted ∪ union free
  total_eq : total init = total granted + total free
  starts : ∀ s ∈ free, (∃ i ∈ init, s.addr = i.addr ∧ Within s i) ∨
    (0 < s.addr ∧ s.addr - 1 ∈ union granted)

namespace Divided

theorem start (h : Apart init) : Divided init [] init :=
  ⟨by simpa using h, by simp, by simp, fun s hs => .inl ⟨s, hs, rfl, le_rfl, le_rfl⟩⟩

theorem disjoint (h : Divided init granted free) : Disjoint (union granted) (union free) :=
  (apart_append.mp h.apart).2.2

/-- An allocation keeps the division. -/
theorem carve (h : Divided init granted free) (hp : 0 < p.size) (hc : Carve p free l) :
    Divided init (p :: granted) l := by
  obtain ⟨hg, hf, hd⟩ := apart_append.mp h.apart
  have hpl := apart_cons.mp (hc.apart hf)
  rw [hc.union_eq, Set.disjoint_union_right] at hd
  refine ⟨?_, ?_, ?_, fun s hs => ?_⟩
  · rw [List.cons_append, apart_cons, union_append, Set.disjoint_union_right, apart_append]
    exact ⟨⟨hd.1.symm, hpl.1⟩, hg, hpl.2, hd.2⟩
  · rw [h.union_eq, hc.union_eq, union_cons, ← Set.union_assoc, Set.union_comm (union granted)]
  · have := hc.total_eq
    have := h.total_eq
    rw [total_cons]
    omega
  · rcases hc.starts hs with ⟨r, hr, ha, hsr⟩ | ha
    · rcases h.starts r hr with ⟨i, hi, hri, hw⟩ | ⟨hpos, hri⟩
      · exact .inl ⟨i, hi, ha.trans hri, hsr.trans hw⟩
      · refine .inr ⟨ha ▸ hpos, ?_⟩
        rw [ha, union_cons]
        exact .inr hri
    · have hstop : p.stop = p.addr + p.size := rfl
      refine .inr ⟨by omega, ?_⟩
      rw [union_cons]
      refine .inl (mem_points.mpr ?_)
      omega

/-- A span that lies in one span of the start and is free lies in one free span. -/
theorem whole (h : Divided init granted free) (hinit : Apart init) (hp : 0 < p.size)
    {i : Span} (hi : i ∈ init) (hpi : Within p i) (hfree : p.points ⊆ union free) :
    ∃ s ∈ free, Within p s := by
  have hstop : p.stop = p.addr + p.size := rfl
  obtain ⟨s, hs, hps⟩ : p.addr ∈ union free := hfree (mem_points.mpr (by omega))
  refine ⟨s, hs, hps.1, ?_⟩
  by_contra hlt
  have hsstop : s.stop = s.addr + s.size := rfl
  rw [mem_points] at hps
  -- the free span that goes on where `s` ends starts there
  obtain ⟨t, ht, hst⟩ : s.stop ∈ union free := hfree (mem_points.mpr (by omega))
  have hfreeApart := (apart_append.mp h.apart).2.1
  have hts : t.addr = s.stop := by
    by_contra hne
    rw [mem_points] at hst
    have heq : s = t := hfreeApart.eq_of_mem hs ht (x := s.stop - 1) (mem_points.mpr (by omega))
      (mem_points.mpr (by omega))
    rw [← heq] at hst
    omega
  unfold Within at hpi
  have histop : i.stop = i.addr + i.size := rfl
  rcases h.starts t ht with ⟨j, hj, htj, hw⟩ | ⟨hpos, hgranted⟩
  · -- it would start a second span of the start that has an address of `i`
    have hij : i = j := hinit.eq_of_mem hi hj (x := s.stop) (mem_points.mpr (by omega))
      (hw.points hst)
    rw [← hij] at htj
    omega
  · -- and the address before it is free, as the last one of `s`
    refine Set.disjoint_left.mp h.disjoint hgranted ⟨s, hs, mem_points.mpr ?_⟩
    omega

end Divided

end Span
end Lib
end Wrmos
