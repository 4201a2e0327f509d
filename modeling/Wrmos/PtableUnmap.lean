import Wrmos.PtableMap

/-!
# What `Ptable::unmap` does to the translation

The loop of `Ptable::unmap` passes map records and invalid ones in whole page sizes, also when it
stands in the middle of a block.  On a range that at every level begins at a block boundary or stays
inside one block (`GoodRange`) this never happens and exactly the range is cleared
(`unmapTb_spec`).  On any range at all, no record changes but those that cover an address of the
range (`unmapTb_footprint`).
-/

namespace Wrmos

open Lib

namespace Arch

variable {A : Arch}

/-! ## `Ptable::unmap` -/

/-- What a round of `Ptable::unmap` can do. -/
theorem unmapStep_cases {l : PtLevel} {childUnmap : Cells → Nat → Nat → Except Stop Cells}
    {c c' : Cells} {va rest len : Nat}
    (h : A.unmapStep l childUnmap c va rest = .ok (c', len)) :
    (A.cellAt c l va = .dir ∧ len = min rest (l.pageSz - va % l.pageSz) ∧
      childUnmap c va len = .ok c') ∨
    (∃ w, A.cellAt c l va = .map w ∧ l.pageSz ≤ rest ∧ len = l.pageSz ∧
      c' = A.setCell c l va .inv) ∨
    (A.cellAt c l va = .inv ∧ len = min rest l.pageSz ∧ c' = c) := by
  unfold unmapStep at h
  cases hcell : A.cellAt c l va with
  | dir =>
    rw [hcell] at h
    obtain ⟨c₁, hc₁, h⟩ := bind_eq_ok.mp h
    obtain ⟨rfl, rfl⟩ := Prod.mk.inj (Except.ok.inj h)
    exact .inl ⟨rfl, rfl, hc₁⟩
  | map w =>
    rw [hcell] at h
    obtain ⟨hle, h⟩ := ensure_bind_eq_ok.mp h
    obtain ⟨rfl, rfl⟩ := Prod.mk.inj (Except.ok.inj h)
    exact .inr (.inl ⟨w, rfl, hle, rfl, rfl⟩)
  | inv =>
    rw [hcell] at h
    obtain ⟨rfl, rfl⟩ := Prod.mk.inj (Except.ok.inj h)
    exact .inr (.inr ⟨rfl, rfl, rfl⟩)

theorem unmapTb_cons_ok {l : PtLevel} {ls : List PtLevel} {c c' : Cells} {va size : Nat}
    (h : A.unmapTb (l :: ls) c va size = .ok c') :
    (va % pageSz = 0 ∧ size % pageSz = 0 ∧ size ≤ l.aspaceSz) ∧
      rangeLoop A.add .outOfRounds (A.unmapStep l (A.unmapTb ls)) (size / pageSz + 1) c va size =
        .ok c' := by
  unfold unmapTb at h
  exact checkRange_bind_eq_ok.mp h

/-- At every level the range begins at a block boundary or stays inside one block. -/
def GoodRange (ls : List PtLevel) (va size : Nat) : Prop :=
  ∀ l ∈ ls, va % l.pageSz = 0 ∨ va % l.pageSz + size ≤ l.pageSz

instance (ls : List PtLevel) (va size : Nat) : Decidable (GoodRange ls va size) := by
  unfold GoodRange; infer_instance

/-- Clearing a map record clears its block. -/
theorem writes_setCell_inv {cur : Nat} {l : PtLevel} {ls : List PtLevel} {c : Cells}
    (hc : PtChain A.vaBits (l :: ls)) (hal : cur % l.pageSz = 0) :
    A.Writes (l :: ls) cur l.pageSz (fun _ => none) c (A.setCell c l cur .inv) := by
  have hl : l.low ≤ A.vaBits := hc.low_le_hi.trans hc.hi_lt.le
  constructor
  · intro d hd
    have hk : A.key l (cur + d) = A.key l cur := key_add hl (by omega)
    simp only [lookup, cellAt_setCell_inv hk]
  · intro v hv
    apply lookup_of_cells
    intro m hm
    apply cellAt_setCell_ne
    rcases List.mem_cons.mp hm with rfl | hm
    · exact .inr fun hk => hv (touch_block hl hal hk)
    · exact .inl (hc.lt_of_mem hm).1.ne'

/-- The loop of `Ptable::unmap` on a good range, when the child tables clear good ranges exactly. -/
theorem unmapLoop_spec {n : Nat} {l : PtLevel} {ls : List PtLevel} {c c' : Cells} {va size : Nat}
    (ih : ∀ {c c' : Cells} {va size : Nat}, va < 2 ^ A.wordBits → GoodRange ls va size →
      A.unmapTb ls c va size = .ok c' → SameLevels ls c c' ∧ A.Writes ls va size (fun _ => none) c c')
    (hc : PtChain A.vaBits (l :: ls)) (hva : va < 2 ^ A.wordBits) (hsz' : size ≤ 2 ^ A.vaBits)
    (hgood : GoodRange (l :: ls) va size)
    (hloop : rangeLoop A.add .outOfRounds (A.unmapStep l (A.unmapTb ls)) n c va size = .ok c') :
    SameLevels (l :: ls) c c' ∧ A.Writes (l :: ls) va size (fun _ => none) c c' := by
  have hl : l.low ≤ A.vaBits := hc.low_le_hi.trans hc.hi_lt.le
  let Inv : Cells → Nat → Nat → Prop := fun s cur rest =>
    ∃ o, o + rest = size ∧ cur = A.add va o ∧
      (o = 0 ∨ (va + o) % l.pageSz = 0 ∨ rest = 0) ∧ SameLevels (l :: ls) c s ∧
      A.Writes (l :: ls) va o (fun _ => none) c s
  have hstep : ∀ s cur rest s' len, Inv s cur rest → rest ≠ 0 →
      A.unmapStep l (A.unmapTb ls) s cur rest = .ok (s', len) →
      Inv s' (A.add cur len) (rest - len) := by
    rintro s cur rest s' len ⟨o, ho, rfl, hbound, hlev, hw⟩ hrest hs
    have hmod : A.add va o % l.pageSz = (va + o) % l.pageSz := add_mod hl va o
    have hlt := Nat.mod_lt (va + o) l.pageSz_pos
    have hcur : A.canon (va + o) = A.canon (A.add va o) := (A.canon_add va o).symm
    -- the loop stands at a block boundary, or the whole range lies in this block
    have hpos : (va + o) % l.pageSz = 0 ∨ o = 0 ∧ va % l.pageSz + size ≤ l.pageSz := by
      rcases hbound with rfl | hb | hb
      · exact (hgood l List.mem_cons_self).imp id fun h => ⟨rfl, h⟩
      · exact .inl hb
      · exact absurd hb hrest
    rcases unmapStep_cases hs with ⟨hdir, rfl, hchild⟩ | ⟨w, hmap, hle, rfl, rfl⟩ |
      ⟨hinv, rfl, rfl⟩
    · set len := min rest (l.pageSz - A.add va o % l.pageSz) with hlendef
      have hlen : len ≤ l.pageSz - A.add va o % l.pageSz := Nat.min_le_right _ _
      have hsub : GoodRange ls (A.add va o) len := by
        intro m hm
        have hml := (hc.lt_of_mem hm).2.le
        rw [add_mod (hml.trans hl)]
        rcases hpos with hp | ⟨rfl, hp⟩
        · exact .inl (Nat.mod_eq_zero_of_dvd
            ((PtLevel.pageSz_dvd hml).trans (Nat.dvd_of_mod_eq_zero hp)))
        · rw [Nat.add_zero]
          refine (hgood m (List.mem_cons_of_mem l hm)).imp id fun h => ?_
          omega
      obtain ⟨hlev₁, hw₁⟩ := ih (A.add_lt va o) hsub hchild
      have hlevl : s' l.level = s l.level :=
        hlev₁ l.level fun m hm => (hc.lt_of_mem hm).1.ne'
      have hchunk := (hw₁.of_child hl hdir hlen hlevl).congr_start hcur.symm
      refine ⟨o + len, by omega, by rw [add_add], ?_, ?_, hw.append (by omega) hchunk⟩
      · rcases hpos with hp | ⟨rfl, hp⟩
        · by_cases hfin : rest ≤ l.pageSz
          · exact .inr (.inr (by omega))
          · refine .inr (.inl ?_)
            rw [show o + len = o + l.pageSz by omega, ← Nat.add_assoc, Nat.add_mod_right, hp]
        · rw [Nat.add_zero] at hmod
          exact .inr (.inr (by omega))
      · intro n hn
        rw [hlev₁ n fun m hm => hn m (List.mem_cons_of_mem l hm), hlev n hn]
    · have hal : (va + o) % l.pageSz = 0 := by
        rcases hpos with hp | ⟨rfl, hp⟩
        · exact hp
        · rw [Nat.add_zero]
          omega
      have hblock := (writes_setCell_inv (c := s) hc (hmod.trans hal)).congr_start hcur.symm
      refine ⟨o + l.pageSz, by omega, by rw [add_add], .inr (.inl ?_), ?_,
        hw.append (by omega) hblock⟩
      · rw [← Nat.add_assoc, Nat.add_mod_right, hal]
      · intro n hn
        have hne : n ≠ l.level := fun h => hn l List.mem_cons_self h.symm
        rw [← hlev n hn]
        funext k
        exact if_neg fun h => hne h.1
    · -- nothing was mapped in this block
      have hblock : A.Writes (l :: ls) (va + o) (min rest l.pageSz) (fun _ => none) s' s' := by
        refine ⟨fun d hd => ?_, fun _ _ => rfl⟩
        have hk : A.key l (va + o + d) = A.key l (A.add va o) := by
          rw [← key_congr hcur]
          apply key_add hl
          rcases hpos with hp | ⟨rfl, hp⟩
          · omega
          · rw [Nat.add_zero]
            omega
        simp only [lookup, cellAt_congr hk, hinv]
      refine ⟨o + min rest l.pageSz, by omega, by rw [add_add], ?_, hlev,
        hw.append (by omega) hblock⟩
      by_cases hfin : rest ≤ l.pageSz
      · exact .inr (.inr (by omega))
      · rcases hpos with hp | ⟨rfl, hp⟩
        · refine .inr (.inl ?_)
          rw [Nat.min_eq_right (by omega), ← Nat.add_assoc, Nat.add_mod_right, hp]
        · omega
  have hinit : Inv c va size :=
    ⟨0, by omega, by rw [add, Nat.add_zero, Nat.mod_eq_of_lt hva], .inl rfl, fun _ _ => rfl,
      Writes.zero⟩
  obtain ⟨cur, o, ho, -, -, hlev, hw⟩ := rangeLoop_invariant hstep hinit hloop
  obtain rfl : o = size := by omega
  exact ⟨hlev, hw⟩

/-- **On a good range `Ptable::unmap` clears exactly its range.** -/
theorem unmapTb_spec :
    ∀ {ls : List PtLevel} {c c' : Cells} {va size : Nat}, PtChain A.vaBits ls →
      va < 2 ^ A.wordBits → GoodRange ls va size → A.unmapTb ls c va size = .ok c' →
      SameLevels ls c c' ∧ A.Writes ls va size (fun _ => none) c c' := by
  intro ls
  induction ls with
  | nil => intro c c' va size _ _ _ h; cases h
  | cons l ls ih =>
    intro c c' va size hc hva hgood h
    obtain ⟨⟨-, -, hsz⟩, hloop⟩ := unmapTb_cons_ok h
    have hsz' : size ≤ 2 ^ A.vaBits := hsz.trans (Nat.pow_le_pow_right Nat.two_pos hc.hi_lt)
    exact unmapLoop_spec (ih hc.tail) hc hva hsz' hgood hloop

/-! ## Which records a traversal reaches -/

/-- The record stays, or it was a map record of a level of the list that covers an address of the
range, and is now invalid. -/
def Cleared (A : Arch) (ls : List PtLevel) (va size : Nat) (c c' : Cells) (n k : Nat) : Prop :=
  c' n k = c n k ∨ (∃ w, c n k = .map w) ∧ c' n k = .inv ∧
    ∃ l ∈ ls, n = l.level ∧ ∃ d < size, k = A.key l (va + d)

theorem eq_map_of_cellAt {c : Cells} {l : PtLevel} {v w : Nat} (h : A.cellAt c l v = .map w) :
    c l.level (A.key l v) = .map w := by
  unfold cellAt at h
  cases hcell : c l.level (A.key l v) with
  | inv => simp [hcell] at h
  | dir => simp [hcell] at h
  | map w' =>
    rw [hcell] at h
    dsimp only at h
    split_ifs at h
    exact h

/-- **The footprint of `Ptable::unmap`**, on any range. -/
theorem unmapTb_footprint :
    ∀ {ls : List PtLevel} {c c' : Cells} {va size : Nat}, va < 2 ^ A.wordBits →
      A.unmapTb ls c va size = .ok c' → ∀ n k, A.Cleared ls va size c c' n k := by
  intro ls
  induction ls with
  | nil => intro c c' va size _ h; cases h
  | cons l ls ih =>
    intro c c' va size hva h
    obtain ⟨-, hloop⟩ := unmapTb_cons_ok h
    let Inv : Cells → Nat → Nat → Prop := fun s cur rest =>
      ∃ o, o + rest = size ∧ cur = A.add va o ∧ ∀ n k, A.Cleared (l :: ls) va size c s n k
    have hstep : ∀ s cur rest s' len, Inv s cur rest → rest ≠ 0 →
        A.unmapStep l (A.unmapTb ls) s cur rest = .ok (s', len) →
        Inv s' (A.add cur len) (rest - len) := by
      rintro s cur rest s' len ⟨o, ho, rfl, hI⟩ hrest hs
      -- a record that is still a map record was one at the start
      have hmapped : ∀ {n k w}, s n k = .map w → c n k = .map w := by
        intro n k w hw
        rcases hI n k with hsame | ⟨-, hinv, -⟩
        · rw [← hsame, hw]
        · rw [hinv] at hw
          cases hw
      have hcur : ∀ d, A.canon (A.add va o + d) = A.canon (va + (o + d)) := by
        intro d
        rw [← Nat.add_assoc]
        exact canon_add_right (A.canon_add va o) d
      rcases unmapStep_cases hs with ⟨-, rfl, hchild⟩ | ⟨w, hmap, hle, rfl, rfl⟩ | ⟨-, rfl, rfl⟩
      · refine ⟨o + min rest (l.pageSz - A.add va o % l.pageSz), by omega, by rw [add_add], ?_⟩
        intro n k
        rcases ih (A.add_lt va o) hchild n k with hsame | ⟨⟨w, hw⟩, hinv, m, hm, hn, d, hd, hk⟩
        · unfold Cleared
          rw [hsame]
          exact hI n k
        · refine .inr ⟨⟨w, hmapped hw⟩, hinv, m, List.mem_cons_of_mem l hm, hn, o + d, by omega, ?_⟩
          rw [hk, key_congr (hcur d)]
      · refine ⟨o + l.pageSz, by omega, by rw [add_add], ?_⟩
        intro n k
        by_cases hnk : n = l.level ∧ k = A.key l (A.add va o)
        · have hold : s n k = .map w := by rw [hnk.1, hnk.2, eq_map_of_cellAt hmap]
          refine .inr ⟨⟨w, hmapped hold⟩, if_pos hnk, l, List.mem_cons_self, hnk.1, o, by omega, ?_⟩
          rw [hnk.2, key_congr (A.canon_add va o)]
        · unfold Cleared
          rw [show A.setCell s l (A.add va o) .inv n k = s n k from if_neg hnk]
          exact hI n k
      · exact ⟨o + min rest l.pageSz, by omega, by rw [add_add], hI⟩
    have hinit : Inv c va size :=
      ⟨0, by omega, by rw [add, Nat.add_zero, Nat.mod_eq_of_lt hva], fun _ _ => .inl rfl⟩
    obtain ⟨cur, o, -, -, hI⟩ := rangeLoop_invariant hstep hinit hloop
    exact hI

/-- A translation survives `Ptable::unmap` when its record covers no address of the range. -/
theorem lookup_of_cleared {ls us : List PtLevel} {c c' : Cells} {va size v w : Nat} {l : PtLevel}
    (hinj : ∀ m ∈ us, ∀ n ∈ ls, m.level = n.level → m = n)
    (hcl : ∀ n k, A.Cleared us va size c c' n k) (h : A.lookup ls c v = some (l, w))
    (hout : ∀ d < size, A.key l v ≠ A.key l (va + d)) : A.lookup ls c' v = some (l, w) := by
  induction ls with
  | nil => cases h
  | cons m ls ih =>
    simp only [lookup] at h ⊢
    rcases hcl m.level (A.key m v) with hsame | ⟨⟨x, hx⟩, -, n, hn, hlev, d, hd, hk⟩
    · have hcell : A.cellAt c' m v = A.cellAt c m v := by
        unfold cellAt
        rw [hsame]
      rw [hcell]
      cases hm : A.cellAt c m v with
      | inv => rw [hm] at h; cases h
      | map y => rw [hm] at h; exact h
      | dir =>
        rw [hm] at h
        exact ih (fun p hp q hq => hinj p hp q (List.mem_cons_of_mem m hq)) h
    · -- the record of this level was cleared, so it is the one that translates `v`
      exfalso
      obtain rfl := hinj n hn m List.mem_cons_self hlev.symm
      have hcell : A.cellAt c n v = .map x ∨ A.cellAt c n v = .inv := by
        unfold cellAt
        rw [hx]
        dsimp only
        split_ifs
        · exact .inl rfl
        · exact .inr rfl
      rcases hcell with hcell | hcell
      · rw [hcell] at h
        obtain ⟨rfl, -⟩ := Prod.mk.inj (Option.some.inj h)
        exact hout d hd hk
      · rw [hcell] at h
        cases h

/-- Addresses of the block of a map record are translated by it. -/
theorem lookup_of_key {ls : List PtLevel} {c : Cells} {v v' w : Nat} {l : PtLevel}
    (hc : PtChain A.vaBits ls) (h : A.lookup ls c v = some (l, w)) (hk : A.key l v = A.key l v') :
    A.lookup ls c v' = some (l, w) := by
  induction ls with
  | nil => cases h
  | cons m ls ih =>
    simp only [lookup] at h ⊢
    cases hm : A.cellAt c m v with
    | inv => rw [hm] at h; cases h
    | map y =>
      rw [hm] at h
      obtain ⟨rfl, rfl⟩ := Prod.mk.inj (Option.some.inj h)
      rw [← cellAt_congr hk, hm]
    | dir =>
      rw [hm] at h
      have hkm : A.key m v = A.key m v' := by
        have hlow := (hc.lt_of_mem (lookup_mem h)).2.le
        rw [← key_div hlow v, ← key_div hlow v', hk]
      rw [← cellAt_congr hkm, hm]
      exact ih hc.tail h

/-- A translation that is there after clearing records was there before. -/
theorem lookup_some_of_cleared {ls us : List PtLevel} {c c' : Cells} {va size v : Nat}
    {r : PtLevel × Nat} (hcl : ∀ n k, A.Cleared us va size c c' n k)
    (h : A.lookup ls c' v = some r) : A.lookup ls c v = some r := by
  induction ls with
  | nil => cases h
  | cons m ls ih =>
    simp only [lookup] at h ⊢
    rcases hcl m.level (A.key m v) with hsame | ⟨-, hinv, -⟩
    · have hcell : A.cellAt c' m v = A.cellAt c m v := by
        unfold cellAt
        rw [hsame]
      rw [hcell] at h
      cases hm : A.cellAt c m v with
      | inv => rw [hm] at h; cases h
      | map y => rw [hm] at h; exact h
      | dir => rw [hm] at h; exact ih h
    · have hcell : A.cellAt c' m v = .inv := by
        unfold cellAt
        rw [hinv]
      rw [hcell] at h
      cases h

/-- A set of addresses is a union of blocks of level `l`. -/
def Saturated (A : Arch) (l : PtLevel) (W : Nat → Prop) : Prop :=
  ∀ v v', A.key l v = A.key l v' → W v → W v'

end Arch

end Wrmos
