import Wrmos.PtableUnmap

/-!
# When `Ptable::unmap` is exact

`Ptable::unmap` passes a record that is no directory in a whole page size of its level, also from the
middle of the block.  From such a start it stays off the block boundaries (`DriftEnd`) until a
directory record comes, whose child table brings it back to them, or until the range ends.  What lies
between the start of the block it stands in then and its position is passed over (`PassedOver`), unless
the record that holds the position began there; and the same happens again one level down (`Missed`).

`unmapTb_effect` says what `Ptable::unmap` does to every translation, and `unmapTb_exact_iff` when that
is exactly what it is for: no missed page was mapped, and the range does not begin inside a map record.
-/

namespace Wrmos

open Lib

namespace Arch

variable {A : Arch}

/-! ## The pages that are missed -/

/-- In steps of a page of level `l` from `va` on, the first `j` records of the range are no directories;
then comes one, or the range ends. -/
def DriftEnd (A : Arch) (l : PtLevel) (c : Cells) (va size j : Nat) : Prop :=
  (∀ i < j, A.cellAt c l (va + i * l.pageSz) ≠ .dir ∧ i * l.pageSz < size) ∧
    (j * l.pageSz < size → A.cellAt c l (va + j * l.pageSz) = .dir)

/-- The offset `d` lies in the block of level `l` in which the steps end, before the position and
before the record that translates the position; and the steps did not come round to their first
block. -/
def PassedOver (A : Arch) (l : PtLevel) (ls : List PtLevel) (c : Cells) (va size j d : Nat) : Prop :=
  j * l.pageSz ≤ d + va % l.pageSz ∧ d < j * l.pageSz ∧ A.key l (va + d) ≠ A.key l va ∧
    (j * l.pageSz < size → ∀ m w, A.lookup ls c (va + j * l.pageSz) = some (m, w) →
      d + (va + j * l.pageSz) % m.pageSz < j * l.pageSz)

/-- `Ptable::unmap` does not look at the record of the address at offset `d` of its range. -/
def Missed (A : Arch) : List PtLevel → Cells → Nat → Nat → Nat → Prop
  | [], _, _, _, _ => False
  | l :: ls, c, va, size, d =>
    va % l.pageSz ≠ 0 ∧ ∃ j, A.DriftEnd l c va size j ∧
      (A.PassedOver l ls c va size j d ∨
        j * l.pageSz ≤ d ∧ d < j * l.pageSz + (l.pageSz - va % l.pageSz) ∧
          A.Missed ls c (va + j * l.pageSz)
            (min (size - j * l.pageSz) (l.pageSz - va % l.pageSz)) (d - j * l.pageSz))

/-- `v` lies before `va` in the map record that translates `va`. -/
def StartsBefore (A : Arch) (ls : List PtLevel) (c : Cells) (va v : Nat) : Prop :=
  ∃ m w e, A.lookup ls c va = some (m, w) ∧ 0 < e ∧ e ≤ va % m.pageSz ∧
    A.canon (v + e) = A.canon va

/-- The steps end at one place. -/
theorem DriftEnd.unique {l : PtLevel} {c : Cells} {va size i j : Nat}
    (hi : A.DriftEnd l c va size i) (hj : A.DriftEnd l c va size j) : i = j := by
  rcases Nat.lt_trichotomy i j with h | h | h
  · exact absurd (hi.2 (hj.1 i h).2) (hj.1 i h).1
  · exact h
  · exact absurd (hj.2 (hi.1 j h).2) (hi.1 j h).1

/-- Only the records of the level and the translated bits of the first address matter. -/
theorem driftEnd_congr {l : PtLevel} {c c' : Cells} {va va' size j : Nat}
    (hcell : ∀ v, A.cellAt c' l v = A.cellAt c l v) (hva : A.canon va = A.canon va') :
    A.DriftEnd l c' va' size j ↔ A.DriftEnd l c va size j := by
  have h : ∀ d, A.cellAt c' l (va' + d) = A.cellAt c l (va + d) := fun d => by
    rw [hcell, cellAt_congr (key_congr (canon_add_right hva d))]
  unfold DriftEnd
  simp only [h]

theorem missed_congr {ls : List PtLevel} {c c' : Cells} {va va' size d : Nat}
    (hlow : ∀ m ∈ ls, m.low ≤ A.vaBits) (hcell : ∀ m ∈ ls, ∀ v, A.cellAt c' m v = A.cellAt c m v)
    (hva : A.canon va = A.canon va') :
    A.Missed ls c' va' size d ↔ A.Missed ls c va size d := by
  induction ls generalizing va va' size d with
  | nil => exact Iff.rfl
  | cons l ls ih =>
    have hl := hlow l List.mem_cons_self
    have hmod : ∀ {m : PtLevel}, m.low ≤ A.vaBits → ∀ e, (va' + e) % m.pageSz = (va + e) % m.pageSz := by
      intro m hm e
      rw [← canon_mod hm, ← canon_mod hm (va + e), canon_add_right hva e]
    have hoff : va' % l.pageSz = va % l.pageSz := hmod hl 0
    have hkey : ∀ e, A.key l (va' + e) = A.key l (va + e) := fun e =>
      (key_congr (canon_add_right hva e)).symm
    have hkey0 : A.key l va' = A.key l va := hkey 0
    have hlook : ∀ e, A.lookup ls c' (va' + e) = A.lookup ls c (va + e) := by
      intro e
      rw [lookup_of_cells fun m hm => hcell m (List.mem_cons_of_mem l hm) _,
        lookup_congr (canon_add_right hva e)]
    have hpassed : ∀ j, A.PassedOver l ls c' va' size j d ↔ A.PassedOver l ls c va size j d := by
      intro j
      unfold PassedOver
      rw [hoff, hkey, hkey0, hlook]
      refine and_congr_right' (and_congr_right' (and_congr_right' (imp_congr_right fun _ => ?_)))
      refine forall_congr' fun m => forall_congr' fun w => imp_congr_right fun hm => ?_
      rw [hmod (hlow m (List.mem_cons_of_mem l (lookup_mem hm)))]
    have hrec : ∀ j size d, A.Missed ls c' (va' + j * l.pageSz) size d ↔
        A.Missed ls c (va + j * l.pageSz) size d := fun j size d =>
      ih (fun m hm => hlow m (List.mem_cons_of_mem l hm))
        (fun m hm => hcell m (List.mem_cons_of_mem l hm)) (canon_add_right hva _)
    simp only [Missed, hoff, hpassed, hrec, driftEnd_congr (hcell l List.mem_cons_self) hva]

/-- The first page is never missed. -/
theorem not_missed_zero {ls : List PtLevel} {c : Cells} {va size : Nat} (hsz : 0 < size) :
    ¬ A.Missed ls c va size 0 := by
  induction ls generalizing va size with
  | nil => exact id
  | cons l ls ih =>
    rintro ⟨-, j, -, ⟨hle, hlt, -⟩ | ⟨hle, hlt, hrec⟩⟩
    · -- a position after the first block has more than a page before it
      have hmod := Nat.mod_lt va l.pageSz_pos
      have hj : 0 < j := Nat.pos_of_mul_pos_right hlt
      have := Nat.le_mul_of_pos_left l.pageSz hj
      omega
    · rw [Nat.zero_sub] at hrec
      exact ih (by omega) hrec

/-! ## The loop off the block boundaries -/

/-- A round at a record that is no directory invalidates it. -/
theorem unmapStep_passes {l : PtLevel} {childUnmap : Cells → Nat → Nat → Except Stop Cells}
    {s s' : Cells} {cur rest len : Nat} (h : A.unmapStep l childUnmap s cur rest = .ok (s', len))
    (hdir : A.cellAt s l cur ≠ .dir) :
    len = min rest l.pageSz ∧ (A.cellAt s l cur ≠ .inv → l.pageSz ≤ rest) ∧
      (∀ n, n ≠ l.level → s' n = s n) ∧
      (∀ v, A.key l v = A.key l cur → A.cellAt s' l v = .inv) ∧
      ∀ v, A.key l v ≠ A.key l cur → A.cellAt s' l v = A.cellAt s l v := by
  rcases unmapStep_cases h with ⟨hd, -⟩ | ⟨w, hmap, hle, rfl, rfl⟩ | ⟨hinv, rfl, rfl⟩
  · exact absurd hd hdir
  · refine ⟨(Nat.min_eq_right hle).symm, fun _ => hle, fun n hn => ?_, fun v hv => ?_, fun v hv => ?_⟩
    · funext k
      exact if_neg fun hk => hn hk.1
    · exact cellAt_setCell_inv hv
    · exact cellAt_setCell_ne (.inr hv)
  · exact ⟨rfl, fun hne => absurd hinv hne, fun _ _ => rfl, fun v hv => (cellAt_congr hv).trans hinv,
      fun _ _ => rfl⟩

/-- Positions a number of pages apart within the size of the translated space are in different
blocks. -/
theorem key_add_mul_ne {l : PtLevel} (hl : l.low ≤ A.vaBits) {va i : Nat} (hi : 0 < i)
    (hsz : i * l.pageSz < 2 ^ A.vaBits) : A.key l (va + i * l.pageSz) ≠ A.key l va := by
  intro hk
  have hcanon : A.canon (va + i * l.pageSz) = A.canon (va + 0) :=
    (canon_eq_iff hl).mpr ⟨hk, Nat.add_mul_mod_self_right va i l.pageSz⟩
  have hzero := offset_inj hsz (Nat.two_pow_pos _) hcanon
  have := Nat.mul_pos hi l.pageSz_pos
  omega

/-- The blocks an unaligned position comes through: `s'` are the records when it stands at the
`j`-th. -/
structure Drift (A : Arch) (l : PtLevel) (s : Cells) (cur rest j : Nat) (s' : Cells) : Prop where
  driftEnd : A.DriftEnd l s cur rest j
  fits : ∀ i < j, A.cellAt s l (cur + i * l.pageSz) ≠ .inv → (i + 1) * l.pageSz ≤ rest
  levels : ∀ n, n ≠ l.level → s' n = s n
  cleared : ∀ v, ∀ i < j, A.key l v = A.key l (cur + i * l.pageSz) → A.cellAt s' l v = .inv
  kept : ∀ v, (∀ i < j, A.key l v ≠ A.key l (cur + i * l.pageSz)) →
    A.cellAt s' l v = A.cellAt s l v

/-- No record is passed when a directory stands here or nothing is left. -/
theorem Drift.zero {l : PtLevel} {s : Cells} {cur rest : Nat}
    (h : 0 < rest → A.cellAt s l cur = .dir) : A.Drift l s cur rest 0 s where
  driftEnd := ⟨fun _ hi => absurd hi (Nat.not_lt_zero _), fun hlt => by
    rw [Nat.zero_mul] at hlt ⊢
    exact h hlt⟩
  fits _ hi := absurd hi (Nat.not_lt_zero _)
  levels _ _ := rfl
  cleared _ _ hi := absurd hi (Nat.not_lt_zero _)
  kept _ _ := rfl

/-- One record more. -/
theorem Drift.succ {l : PtLevel} (hl : l.low ≤ A.vaBits) {s s₁ s' : Cells} {cur rest j : Nat}
    (hsz : rest ≤ 2 ^ A.vaBits) (hrest : 0 < rest) (hdir : A.cellAt s l cur ≠ .dir)
    (hfits : A.cellAt s l cur ≠ .inv → l.pageSz ≤ rest) (hlev : ∀ n, n ≠ l.level → s₁ n = s n)
    (hclear : ∀ v, A.key l v = A.key l cur → A.cellAt s₁ l v = .inv)
    (hkeep : ∀ v, A.key l v ≠ A.key l cur → A.cellAt s₁ l v = A.cellAt s l v)
    (h : A.Drift l s₁ (A.add cur l.pageSz) (rest - l.pageSz) j s') :
    A.Drift l s cur rest (j + 1) s' := by
  have hkey : ∀ i, A.key l (A.add cur l.pageSz + i * l.pageSz) =
      A.key l (cur + (i + 1) * l.pageSz) := by
    intro i
    apply key_congr
    rw [canon_add_right (A.canon_add cur l.pageSz), Nat.add_mul, Nat.one_mul]
    congr 1
    omega
  -- within the range the records further on are the old ones
  have hcell : ∀ i, (i + 1) * l.pageSz < rest →
      A.cellAt s₁ l (A.add cur l.pageSz + i * l.pageSz) = A.cellAt s l (cur + (i + 1) * l.pageSz) := by
    intro i hi
    rw [cellAt_congr (hkey i)]
    exact hkeep _ (key_add_mul_ne hl (Nat.succ_pos i) (by omega))
  have hmul : ∀ i, (i + 1) * l.pageSz = i * l.pageSz + l.pageSz := fun i => Nat.succ_mul i _
  constructor
  · constructor
    · intro i hi
      cases i with
      | zero => simpa using ⟨hdir, hrest⟩
      | succ i =>
        obtain ⟨hd, hlt⟩ := h.driftEnd.1 i (by omega)
        have hlt' : (i + 1) * l.pageSz < rest := by
          rw [hmul]
          omega
        exact ⟨hcell i hlt' ▸ hd, hlt'⟩
    · intro hlt
      rw [← hcell j hlt]
      refine h.driftEnd.2 ?_
      rw [hmul] at hlt
      omega
  · intro i hi hne
    cases i with
    | zero =>
      rw [Nat.zero_mul, Nat.add_zero] at hne
      simpa using hfits hne
    | succ i =>
      have hlt := (h.driftEnd.1 i (by omega)).2
      have hlt' : (i + 1) * l.pageSz < rest := by
        rw [hmul]
        omega
      have := h.fits i (by omega) (hcell i hlt' ▸ hne)
      rw [hmul (i + 1)]
      omega
  · intro n hn
    rw [h.levels n hn, hlev n hn]
  · intro v i hi hk
    cases i with
    | zero =>
      rw [Nat.zero_mul, Nat.add_zero] at hk
      by_cases hin : ∃ i < j, A.key l v = A.key l (A.add cur l.pageSz + i * l.pageSz)
      · obtain ⟨i, hi, hk⟩ := hin
        exact h.cleared v i hi hk
      · rw [h.kept v fun i hi hk => hin ⟨i, hi, hk⟩, hclear v hk]
    | succ i => exact h.cleared v i (by omega) (hk.trans (hkey i).symm)
  · intro v hv
    rw [h.kept v fun i hi hk => hv (i + 1) (by omega) (hk.trans (hkey i)), hkeep v]
    simpa using hv 0 (Nat.succ_pos j)

/-- **The loop off the block boundaries**: it passes records until a directory comes or nothing is
left; the child table of the directory takes it to the end of the block, and it goes on from there. -/
theorem unmapLoop_drift {l : PtLevel} {childUnmap : Cells → Nat → Nat → Except Stop Cells}
    (hl : l.low ≤ A.vaBits) :
    ∀ {n : Nat} {s c' : Cells} {cur rest : Nat}, cur < 2 ^ A.wordBits → rest ≤ 2 ^ A.vaBits →
      rangeLoop A.add .outOfRounds (A.unmapStep l childUnmap) n s cur rest = .ok c' →
      ∃ j s', A.Drift l s cur rest j s' ∧
        (rest ≤ j * l.pageSz ∧ c' = s' ∨
          j * l.pageSz < rest ∧ ∃ len s'' k,
            len = min (rest - j * l.pageSz) (l.pageSz - cur % l.pageSz) ∧
            childUnmap s' (A.add cur (j * l.pageSz)) len = .ok s'' ∧
            rangeLoop A.add .outOfRounds (A.unmapStep l childUnmap) k s''
              (A.add cur (j * l.pageSz + len)) (rest - (j * l.pageSz + len)) = .ok c') := by
  intro n
  induction n with
  | zero =>
    intro s c' cur rest _ _ h
    have hrest : rest = 0 := by
      by_contra hne
      rw [rangeLoop, if_neg hne] at h
      cases h
    subst hrest
    rw [rangeLoop_zero] at h
    obtain rfl := Except.ok.inj h
    exact ⟨0, s, .zero fun h => absurd h (Nat.lt_irrefl 0), .inl ⟨Nat.zero_le _, rfl⟩⟩
  | succ n ih =>
    intro s c' cur rest hcur hsz h
    by_cases h0 : rest = 0
    · subst h0
      rw [rangeLoop_zero] at h
      obtain rfl := Except.ok.inj h
      exact ⟨0, s, .zero fun h => absurd h (Nat.lt_irrefl 0), .inl ⟨Nat.zero_le _, rfl⟩⟩
    rw [rangeLoop_succ h0] at h
    obtain ⟨⟨s₁, len⟩, hstep, hloop⟩ := bind_eq_ok.mp h
    have hpos : 0 < rest := Nat.pos_of_ne_zero h0
    by_cases hdir : A.cellAt s l cur = .dir
    · rcases unmapStep_cases hstep with ⟨-, hlen, hchild⟩ | ⟨w, hmap, -⟩ | ⟨hinv, -⟩
      · refine ⟨0, s, .zero fun _ => hdir, .inr ⟨by simpa using hpos, len, s₁, n, ?_, ?_, ?_⟩⟩
        · have hmod : A.add cur (0 * l.pageSz) = cur := by
            rw [Nat.zero_mul, add, Nat.add_zero, Nat.mod_eq_of_lt hcur]
          simpa using hlen
        · rwa [Nat.zero_mul, add, Nat.add_zero, Nat.mod_eq_of_lt hcur]
        · simpa using hloop
      · rw [hdir] at hmap
        cases hmap
      · rw [hdir] at hinv
        cases hinv
    · obtain ⟨rfl, hfits, hlev, hclear, hkeep⟩ := unmapStep_passes hstep hdir
      by_cases hlast : rest ≤ l.pageSz
      · rw [Nat.min_eq_left hlast, Nat.sub_self, rangeLoop_zero] at hloop
        obtain rfl := Except.ok.inj hloop
        refine ⟨1, s₁, .succ hl hsz hpos hdir hfits hlev hclear hkeep (.zero fun hlt => ?_),
          .inl ⟨by omega, rfl⟩⟩
        omega
      · rw [Nat.min_eq_right (by omega)] at hloop
        have hmod : A.add cur l.pageSz % l.pageSz = cur % l.pageSz := by
          rw [add_mod hl, Nat.add_mod_right]
        obtain ⟨j, s', hdrift, hend⟩ := ih (A.add_lt cur _) (by omega) hloop
        have hmul : (j + 1) * l.pageSz = j * l.pageSz + l.pageSz := Nat.succ_mul j _
        refine ⟨j + 1, s', .succ hl hsz hpos hdir hfits hlev hclear hkeep hdrift, ?_⟩
        rw [hmul]
        rcases hend with ⟨hle, rfl⟩ | ⟨hlt, len, s'', k, hlen, hchild, hrest⟩
        · exact .inl ⟨by omega, rfl⟩
        · refine .inr ⟨by omega, len, s'', k, ?_, ?_, ?_⟩
          · rw [hlen, hmod]
            congr 1
            omega
          · rwa [add_add, Nat.add_comm l.pageSz] at hchild
          · dsimp only at hrest
            rw [add_add, ← Nat.add_assoc, Nat.add_comm l.pageSz, Nat.sub_sub, ← Nat.add_assoc,
              Nat.add_comm l.pageSz] at hrest
            exact hrest

/-! ## What happens to a translation -/

/-- What `Ptable::unmap` does to the translations: in the range the missed ones stay and the others go;
outside it all stay but those of the record in which the range begins. -/
structure Effect (A : Arch) (ls : List PtLevel) (c c' : Cells) (va size : Nat) : Prop where
  missed : ∀ d < size, A.Missed ls c va size d → A.lookup ls c' (va + d) = A.lookup ls c (va + d)
  cleared : ∀ d < size, ¬ A.Missed ls c va size d → A.lookup ls c' (va + d) = none
  kept : ∀ v, ¬ A.Touch va size v → ¬ A.StartsBefore ls c va v → A.lookup ls c' v = A.lookup ls c v

/-- The records of the levels above are left alone. -/
theorem unmapTb_sameLevels {ls : List PtLevel} {c c' : Cells} {va size : Nat}
    (hva : va < 2 ^ A.wordBits) (h : A.unmapTb ls c va size = .ok c') : SameLevels ls c c' := by
  intro n hn
  funext k
  rcases unmapTb_footprint hva h n k with hsame | ⟨-, -, m, hm, rfl, -⟩
  · exact hsame
  · exact absurd rfl (hn m hm)

theorem lookup_cons_congr {l : PtLevel} {ls : List PtLevel} {c c' : Cells} {v : Nat}
    (hcell : A.cellAt c' l v = A.cellAt c l v) (hrest : A.lookup ls c' v = A.lookup ls c v) :
    A.lookup (l :: ls) c' v = A.lookup (l :: ls) c v := by
  simp only [lookup, hcell, hrest]

theorem lookup_cons_of_inv {l : PtLevel} {ls : List PtLevel} {c : Cells} {v : Nat}
    (h : A.cellAt c l v = .inv) : A.lookup (l :: ls) c v = none := by
  simp only [lookup, h]

/-- Going back by no more than the offset in the block stays in the block. -/
theorem mod_add_of_le_mod {v e p : Nat} (hp : 0 < p) (h : e ≤ (v + e) % p) :
    v % p + e = (v + e) % p := by
  have hdiv := Nat.div_add_mod (v + e) p
  have hlt := Nat.mod_lt (v + e) hp
  have hv : v = p * ((v + e) / p) + ((v + e) % p - e) := by omega
  have hmod : v % p = (v + e) % p - e := by
    conv_lhs => rw [hv]
    rw [Nat.mul_add_mod, Nat.mod_eq_of_lt (by omega)]
  omega

/-- An address before the range in its first record has the translation of the first address. -/
theorem StartsBefore.lookup_eq {ls : List PtLevel} {c : Cells} {va v : Nat}
    (hc : PtChain A.vaBits ls) (hv : A.StartsBefore ls c va v) :
    ∃ m w, A.lookup ls c va = some (m, w) ∧ A.key m va = A.key m v ∧
      A.lookup ls c v = some (m, w) := by
  obtain ⟨m, w, e, hlook, hpos, hle, hcanon⟩ := hv
  have hlow : m.low ≤ A.vaBits := hc.low_le_of_mem (lookup_mem hlook)
  have hmod : (v + e) % m.pageSz = va % m.pageSz := ((canon_eq_iff hlow).mp hcanon).2
  have hkey : A.key m va = A.key m v := by
    have hadd := mod_add_of_le_mod m.pageSz_pos (hmod ▸ hle)
    rw [← key_congr hcanon]
    refine key_add hlow ?_
    rw [hadd]
    exact Nat.mod_lt _ m.pageSz_pos
  exact ⟨m, w, hlook, hkey, lookup_of_key hc hlook hkey⟩

/-- The record that translates the first address is gone, also where it lies before the range. -/
theorem lookup_none_of_startsBefore {ls : List PtLevel} {c c' : Cells} {va size v : Nat}
    (hc : PtChain A.vaBits ls) (hva : va < 2 ^ A.wordBits) (h : A.unmapTb ls c va size = .ok c')
    (hgone : A.lookup ls c' va = none) (hv : A.StartsBefore ls c va v) :
    A.lookup ls c' v = none := by
  obtain ⟨m, w, hlook, hkey, hold⟩ := hv.lookup_eq hc
  cases hnew : A.lookup ls c' v with
  | none => rfl
  | some r =>
    have hr := lookup_some_of_cleared (unmapTb_footprint hva h) hnew
    rw [hold] at hr
    obtain rfl := Option.some.inj hr
    rw [lookup_of_key hc hnew hkey.symm] at hgone
    cases hgone

/-- The block of an offset, counted in pages from the first block. -/
theorem key_offset {l : PtLevel} (hl : l.low ≤ A.vaBits) {va d i : Nat}
    (h1 : i * l.pageSz ≤ d + va % l.pageSz) (h2 : d + va % l.pageSz < (i + 1) * l.pageSz) :
    A.key l (va + d) = A.key l (va + i * l.pageSz) := by
  apply key_of_div hl
  have hva := Nat.div_add_mod va l.pageSz
  have hcomm := Nat.mul_comm l.pageSz (va / l.pageSz)
  rw [Nat.succ_mul] at h2
  rw [Nat.add_mul_div_right va i l.pageSz_pos]
  apply Nat.div_eq_of_lt_le
  · rw [Nat.add_mul]
    omega
  · rw [Nat.add_mul, Nat.add_mul, Nat.one_mul]
    omega

namespace Drift

variable {l : PtLevel} {ls : List PtLevel} {c s' : Cells} {va size j : Nat}

/-- The tables below stay. -/
theorem cellAt_child (h : A.Drift l c va size j s') (hc : PtChain A.vaBits (l :: ls)) {m : PtLevel}
    (hm : m ∈ ls) (v : Nat) : A.cellAt s' m v = A.cellAt c m v :=
  cellAt_of_level (h.levels m.level (hc.lt_of_mem hm).1.ne')

theorem lookup_child (h : A.Drift l c va size j s') (hc : PtChain A.vaBits (l :: ls)) (v : Nat) :
    A.lookup ls s' v = A.lookup ls c v :=
  lookup_of_cells fun _ hm => h.cellAt_child hc hm v

/-- The passed blocks are not mapped any more. -/
theorem cellAt_offset (h : A.Drift l c va size j s') (hl : l.low ≤ A.vaBits) {d : Nat}
    (hd : d + va % l.pageSz < j * l.pageSz) : A.cellAt s' l (va + d) = .inv := by
  have hi : (d + va % l.pageSz) / l.pageSz < j := Nat.div_lt_of_lt_mul (Nat.mul_comm j _ ▸ hd)
  refine h.cleared _ _ hi (key_offset hl (Nat.div_mul_le_self _ _) ?_)
  rw [Nat.mul_comm]
  exact Nat.lt_mul_div_succ _ l.pageSz_pos

theorem lookup_kept (h : A.Drift l c va size j s') (hc : PtChain A.vaBits (l :: ls)) {v : Nat}
    (hv : ∀ i < j, A.key l v ≠ A.key l (va + i * l.pageSz)) :
    A.lookup (l :: ls) s' v = A.lookup (l :: ls) c v :=
  lookup_cons_congr (h.kept v hv) (h.lookup_child hc v)

/-- **Outside the range** only the record in which the range begins is invalidated. -/
theorem lookup_outside (h : A.Drift l c va size j s') (hc : PtChain A.vaBits (l :: ls)) {v : Nat}
    (hv : ¬ A.Touch va size v) (hbefore : ¬ A.StartsBefore (l :: ls) c va v) :
    A.lookup (l :: ls) s' v = A.lookup (l :: ls) c v := by
  have hl : l.low ≤ A.vaBits := hc.low_le_hi.trans hc.hi_lt.le
  by_cases hin : ∃ i < j, A.key l v = A.key l (va + i * l.pageSz)
  · obtain ⟨i, hi, hk⟩ := hin
    rw [lookup_cons_of_inv (h.cleared v i hi hk)]
    cases hcell : A.cellAt c l (va + i * l.pageSz) with
    | inv => rw [lookup_cons_of_inv ((cellAt_congr hk).trans hcell)]
    | dir => exact absurd hcell (h.driftEnd.1 i hi).1
    | map w =>
      exfalso
      have hfits := h.fits i hi (by rw [hcell]; exact Cell.noConfusion)
      have hoff := Nat.mod_lt va l.pageSz_pos
      have hvlt := Nat.mod_lt v l.pageSz_pos
      rw [Nat.succ_mul] at hfits
      by_cases hge : va % l.pageSz ≤ i * l.pageSz + v % l.pageSz
      · -- the address is in the range
        apply hv
        refine ⟨i * l.pageSz + v % l.pageSz - va % l.pageSz, by omega, (canon_eq_iff hl).mpr ⟨?_, ?_⟩⟩
        · rw [hk]
          refine (key_offset hl ?_ ?_).symm
          · omega
          · rw [Nat.succ_mul]
            omega
        · have hva := Nat.div_add_mod va l.pageSz
          have hsum : va + (i * l.pageSz + v % l.pageSz - va % l.pageSz) =
              v % l.pageSz + l.pageSz * (va / l.pageSz + i) := by
            rw [Nat.mul_add, Nat.mul_comm l.pageSz i]
            omega
          rw [hsum, Nat.add_mul_mod_self_left, Nat.mod_mod]
      · -- the address lies before the range in its first block
        have hi0 : i = 0 := by
          by_contra hne
          have := Nat.le_mul_of_pos_left l.pageSz (Nat.pos_of_ne_zero hne)
          omega
        subst hi0
        rw [Nat.zero_mul, Nat.add_zero] at hk hcell
        have hadd : v % l.pageSz + (va % l.pageSz - v % l.pageSz) < l.pageSz := by omega
        refine hbefore ⟨l, w, va % l.pageSz - v % l.pageSz, ?_, by omega, by omega,
          (canon_eq_iff hl).mpr ⟨?_, ?_⟩⟩
        · simp only [lookup, hcell]
        · rw [key_add hl hadd, hk]
        · have hmod : (v + (va % l.pageSz - v % l.pageSz)) % l.pageSz =
              v % l.pageSz + (va % l.pageSz - v % l.pageSz) := by
            rw [Nat.add_mod, Nat.mod_eq_of_lt (show va % l.pageSz - v % l.pageSz < l.pageSz by omega),
              Nat.mod_eq_of_lt hadd]
          omega
  · exact h.lookup_kept hc fun i hi hk => hin ⟨i, hi, hk⟩

/-- The range does not come back to its first block before its end. -/
theorem span_lt (h : A.Drift l c va size j s') (hsz : size ≤ 2 ^ A.vaBits) {i : Nat} (h0 : 0 < i)
    (hi : i < j) : (j - i) * l.pageSz < 2 ^ A.vaBits := by
  have hlast := (h.driftEnd.1 (j - 1) (by omega)).2
  have hle : (j - i) * l.pageSz ≤ (j - 1) * l.pageSz := Nat.mul_le_mul_right _ (by omega)
  omega

/-- **What is passed over stays.** -/
theorem lookup_passedOver (h : A.Drift l c va size j s') (hc : PtChain A.vaBits (l :: ls))
    (hsz : size ≤ 2 ^ A.vaBits) {d : Nat} (hd : A.PassedOver l ls c va size j d) :
    A.lookup (l :: ls) s' (va + d) = A.lookup (l :: ls) c (va + d) := by
  have hl : l.low ≤ A.vaBits := hc.low_le_hi.trans hc.hi_lt.le
  obtain ⟨hle, hlt, hfirst, -⟩ := hd
  have hoff := Nat.mod_lt va l.pageSz_pos
  have hblock : A.key l (va + d) = A.key l (va + j * l.pageSz) := by
    refine key_offset hl hle ?_
    rw [Nat.succ_mul]
    omega
  refine h.lookup_kept hc fun i hi hk => ?_
  rcases Nat.eq_zero_or_pos i with rfl | hpos
  · rw [Nat.zero_mul, Nat.add_zero] at hk
    exact hfirst hk
  · have hsum : va + j * l.pageSz = va + i * l.pageSz + (j - i) * l.pageSz := by
      rw [Nat.add_assoc, ← Nat.add_mul]
      congr 2
      omega
    rw [hblock, hsum] at hk
    exact key_add_mul_ne hl (by omega) (h.span_lt hsz hpos hi) hk

/-- The effect when the range ends before a directory comes. -/
theorem effect_of_end (h : A.Drift l c va size j s') (hc : PtChain A.vaBits (l :: ls))
    (hsz : size ≤ 2 ^ A.vaBits) (hoff : va % l.pageSz ≠ 0) (hend : size ≤ j * l.pageSz) :
    A.Effect (l :: ls) c s' va size := by
  have hl : l.low ≤ A.vaBits := hc.low_le_hi.trans hc.hi_lt.le
  constructor
  · rintro d hd ⟨-, k, hk, hcase⟩
    obtain rfl := hk.unique h.driftEnd
    rcases hcase with hpass | ⟨hle, -⟩
    · exact h.lookup_passedOver hc hsz hpass
    · omega
  · intro d hd hmiss
    by_cases hin : d + va % l.pageSz < j * l.pageSz
    · exact lookup_cons_of_inv (h.cellAt_offset hl hin)
    · -- not passed over, so it is the first block again
      have hfirst : A.key l (va + d) = A.key l va := by
        by_contra hne
        exact hmiss ⟨hoff, j, h.driftEnd,
          .inl ⟨by omega, by omega, hne, fun hlt => absurd hlt (by omega)⟩⟩
      have hj : 0 < j := by
        refine Nat.pos_of_ne_zero fun h0 => ?_
        rw [h0, Nat.zero_mul] at hend
        omega
      refine lookup_cons_of_inv (h.cleared _ 0 hj ?_)
      rw [Nat.zero_mul, Nat.add_zero, hfirst]
  · exact fun v hv hbefore => h.lookup_outside hc hv hbefore

/-- The effect when a directory comes: its child table takes the loop to the end of the block, and from
there on exactly the range is cleared. -/
theorem effect_of_dir {c' s'' : Cells} {len : Nat} (h : A.Drift l c va size j s')
    (hc : PtChain A.vaBits (l :: ls)) (hsz : size ≤ 2 ^ A.vaBits) (hoff : va % l.pageSz ≠ 0)
    (hlt : j * l.pageSz < size)
    (hlen : len = min (size - j * l.pageSz) (l.pageSz - va % l.pageSz))
    (hchild : A.unmapTb ls s' (A.add va (j * l.pageSz)) len = .ok s'')
    (heff : A.Effect ls s' s'' (A.add va (j * l.pageSz)) len)
    (htail : A.Writes (l :: ls) (A.add va (j * l.pageSz + len)) (size - (j * l.pageSz + len))
      (fun _ => none) s'' c') :
    A.Effect (l :: ls) c c' va size := by
  have hl : l.low ≤ A.vaBits := hc.low_le_hi.trans hc.hi_lt.le
  have hofflt := Nat.mod_lt va l.pageSz_pos
  have hlen0 : 0 < len := by omega
  have hlenle : j * l.pageSz + len ≤ size := by omega
  have hcanon : A.canon (va + j * l.pageSz) = A.canon (A.add va (j * l.pageSz)) :=
    (A.canon_add va _).symm
  have htail' := htail.congr_start (A.canon_add va _)
  -- the child table is that of the block of the position
  have hlev : s'' l.level = s' l.level :=
    unmapTb_sameLevels (A.add_lt va _) hchild l.level fun m hm => (hc.lt_of_mem hm).1.ne'
  have hkeyj : ∀ d, j * l.pageSz ≤ d + va % l.pageSz →
      d < j * l.pageSz + (l.pageSz - va % l.pageSz) →
      A.key l (va + d) = A.key l (va + j * l.pageSz) := by
    intro d h1 h2
    refine key_offset hl h1 ?_
    rw [Nat.succ_mul]
    omega
  have hdirj : A.cellAt s' l (va + j * l.pageSz) = .dir := by
    rw [h.kept, h.driftEnd.2 hlt]
    intro i hi hk
    have hsum : va + j * l.pageSz = va + i * l.pageSz + (j - i) * l.pageSz := by
      rw [Nat.add_assoc, ← Nat.add_mul]
      congr 2
      omega
    rw [hsum] at hk
    refine key_add_mul_ne hl (by omega) ?_ hk
    have := Nat.mul_le_mul_right l.pageSz (Nat.sub_le j i)
    omega
  have hdir : ∀ d, j * l.pageSz ≤ d + va % l.pageSz →
      d < j * l.pageSz + (l.pageSz - va % l.pageSz) → A.cellAt s'' l (va + d) = .dir := by
    intro d h1 h2
    rw [cellAt_of_level hlev, cellAt_congr (hkeyj d h1 h2), hdirj]
  -- before the end of the child's range the last part of the loop changes nothing
  have hhead : ∀ d, d < j * l.pageSz + len →
      A.lookup (l :: ls) c' (va + d) = A.lookup (l :: ls) s'' (va + d) := fun d hd =>
    htail'.outside _ (not_touch_of_lt (by omega) hd)
  have hzero : A.lookup ls s'' (A.add va (j * l.pageSz)) = none := by
    have := heff.cleared 0 hlen0 (not_missed_zero hlen0)
    rwa [Nat.add_zero] at this
  have hmissed : ∀ d, A.Missed ls s' (A.add va (j * l.pageSz)) len d ↔
      A.Missed ls c (va + j * l.pageSz) (min (size - j * l.pageSz) (l.pageSz - va % l.pageSz)) d := by
    intro d
    rw [← hlen]
    exact missed_congr (fun m hm => hc.tail.low_le_of_mem hm)
      (fun m hm v => h.cellAt_child hc hm v) hcanon
  have hshift : ∀ d, j * l.pageSz ≤ d →
      A.canon (A.add va (j * l.pageSz) + (d - j * l.pageSz)) = A.canon (va + d) := by
    intro d hd
    rw [← canon_add_right hcanon]
    congr 1
    omega
  constructor
  · rintro d hd ⟨-, k, hk, hcase⟩
    obtain rfl := hk.unique h.driftEnd
    rcases hcase with hpass | ⟨hle, hlt', hrec⟩
    · have ⟨hle, hbefore, _, hrecord⟩ := hpass
      rw [hhead d (by omega), ← h.lookup_passedOver hc hsz hpass]
      refine lookup_cons_congr (cellAt_of_level hlev) (heff.kept _ ?_ ?_)
      · rintro ⟨e, he, hv⟩
        rw [← canon_add_right hcanon, Nat.add_assoc] at hv
        have := offset_inj (by omega) (by omega) hv
        omega
      · rintro ⟨m, w, e, hlook, hpos, hele, hv⟩
        rw [h.lookup_child hc, ← lookup_congr hcanon] at hlook
        have hm : m.low ≤ A.vaBits := hc.tail.low_le_of_mem (lookup_mem hlook)
        rw [add_mod hm] at hele
        have hin := hrecord hlt m w hlook
        rw [← hcanon, Nat.add_assoc] at hv
        have := offset_inj (by omega) (by omega) hv
        omega
    · rw [hhead d (by omega), lookup_cons_of_dir (hdir d (by omega) hlt')]
      have hkeep := heff.missed (d - k * l.pageSz) (by omega) ((hmissed _).mpr hrec)
      rw [lookup_congr (hshift d hle), lookup_congr (hshift d hle)] at hkeep
      rw [hkeep, h.lookup_child hc, lookup_cons_of_dir]
      rw [cellAt_congr (hkeyj d (by omega) hlt'), h.driftEnd.2 hlt]
  · intro d hd hmiss
    have hpassed : ∀ e, A.cellAt s' l (va + e) = .inv → e < j * l.pageSz →
        A.lookup (l :: ls) c' (va + e) = none := by
      intro e he helt
      rw [hhead e (by omega)]
      exact lookup_cons_of_inv ((cellAt_of_level hlev).trans he)
    by_cases hin : d + va % l.pageSz < j * l.pageSz
    · exact hpassed d (h.cellAt_offset hl hin) (by omega)
    by_cases hbefore : d < j * l.pageSz
    · by_cases hfirst : A.key l (va + d) = A.key l va
      · have hj : 0 < j := Nat.pos_of_mul_pos_right (Nat.zero_lt_of_lt hbefore)
        refine hpassed d (h.cleared _ 0 hj ?_) hbefore
        rw [Nat.zero_mul, Nat.add_zero, hfirst]
      · -- the record of the position began before this page
        have hrecord : ∃ m w, A.lookup ls c (va + j * l.pageSz) = some (m, w) ∧
            j * l.pageSz ≤ d + (va + j * l.pageSz) % m.pageSz := by
          by_contra hnone
          refine hmiss ⟨hoff, j, h.driftEnd, .inl ⟨by omega, hbefore, hfirst, fun _ m w hmw => ?_⟩⟩
          by_contra hge
          exact hnone ⟨m, w, hmw, by omega⟩
        obtain ⟨m, w, hmw, hge⟩ := hrecord
        have hm : m.low ≤ A.vaBits := hc.tail.low_le_of_mem (lookup_mem hmw)
        have hstart : A.StartsBefore ls s' (A.add va (j * l.pageSz)) (va + d) := by
          refine ⟨m, w, j * l.pageSz - d, ?_, by omega, ?_, ?_⟩
          · rw [h.lookup_child hc, ← lookup_congr hcanon, hmw]
          · rw [add_mod hm]
            omega
          · rw [← hcanon]
            congr 1
            omega
        rw [hhead d (by omega), lookup_cons_of_dir (hdir d (by omega) (by omega))]
        exact lookup_none_of_startsBefore hc.tail (A.add_lt va _) hchild hzero hstart
    · by_cases hlast : d < j * l.pageSz + len
      · have hrec : ¬ A.Missed ls s' (A.add va (j * l.pageSz)) len (d - j * l.pageSz) := fun hrec =>
          hmiss ⟨hoff, j, h.driftEnd, .inr ⟨by omega, by omega, (hmissed _).mp hrec⟩⟩
        rw [hhead d hlast, lookup_cons_of_dir (hdir d (by omega) (by omega)),
          ← lookup_congr (hshift d (by omega))]
        exact heff.cleared _ (by omega) hrec
      · have := htail'.inside (d - (j * l.pageSz + len)) (by omega)
        rwa [Nat.add_assoc, Nat.add_sub_cancel' (by omega)] at this
  · intro v hv hbefore
    have hout : ¬ A.Touch (va + (j * l.pageSz + len)) (size - (j * l.pageSz + len)) v := by
      rintro ⟨e, he, hcan⟩
      exact hv ⟨j * l.pageSz + len + e, by omega, by rw [hcan, Nat.add_assoc]⟩
    rw [htail'.outside v hout, ← h.lookup_outside hc hv hbefore]
    refine lookup_cons_congr (cellAt_of_level hlev) (heff.kept v ?_ ?_)
    · rintro ⟨e, he, hcan⟩
      rw [← canon_add_right hcanon, Nat.add_assoc] at hcan
      exact hv ⟨j * l.pageSz + e, by omega, hcan⟩
    · rintro ⟨m, w, e, hlook, hpos, hele, hcan⟩
      have hm : m.low ≤ A.vaBits := hc.tail.low_le_of_mem (lookup_mem hlook)
      rw [h.lookup_child hc, ← lookup_congr hcanon] at hlook
      rw [add_mod hm] at hele
      rw [← hcanon] at hcan
      rcases Nat.eq_zero_or_pos j with rfl | hj
      · -- the first record of the range
        rw [Nat.zero_mul, Nat.add_zero] at hlook hele hcan
        refine hbefore ⟨m, w, e, ?_, hpos, hele, hcan⟩
        rw [lookup_cons_of_dir, hlook]
        simpa using h.driftEnd.2 hlt
      · have hdvd : m.pageSz ∣ l.pageSz :=
          PtLevel.pageSz_dvd (hc.lt_of_mem (lookup_mem hlook)).2.le
        have hele' : e ≤ va % l.pageSz := by
          rw [← Nat.mod_mod_of_dvd _ hdvd, Nat.add_mul_mod_self_right] at hele
          exact hele.trans (Nat.mod_le _ _)
        have hjP := Nat.le_mul_of_pos_left l.pageSz hj
        refine hv ⟨j * l.pageSz - e, by omega, ?_⟩
        have hsum : va + j * l.pageSz = va + (j * l.pageSz - e) + e := by omega
        rw [hsum] at hcan
        exact Nat.ModEq.add_right_cancel' e hcan

end Drift

theorem goodRange_of_aligned {l : PtLevel} {ls : List PtLevel} {va size : Nat}
    (hc : PtChain A.vaBits (l :: ls)) (h : va % l.pageSz = 0) : GoodRange (l :: ls) va size := by
  intro m hm
  rcases List.mem_cons.mp hm with rfl | hm
  · exact .inl h
  · exact .inl (Nat.mod_eq_zero_of_dvd
      ((PtLevel.pageSz_dvd (hc.lt_of_mem hm).2.le).trans (Nat.dvd_of_mod_eq_zero h)))

/-- **What `Ptable::unmap` does to every translation.** -/
theorem unmapTb_effect :
    ∀ {ls : List PtLevel} {c c' : Cells} {va size : Nat}, PtChain A.vaBits ls →
      va < 2 ^ A.wordBits → A.unmapTb ls c va size = .ok c' → A.Effect ls c c' va size := by
  intro ls
  induction ls with
  | nil => intro c c' va size _ _ h; cases h
  | cons l ls ih =>
    intro c c' va size hc hva h
    have hl : l.low ≤ A.vaBits := hc.low_le_hi.trans hc.hi_lt.le
    by_cases hoff : va % l.pageSz = 0
    · obtain ⟨-, hw⟩ := unmapTb_spec hc hva (goodRange_of_aligned hc hoff) h
      exact ⟨fun d _ hmiss => absurd hoff hmiss.1, fun d hd _ => hw.inside d hd,
        fun v hv _ => hw.outside v hv⟩
    · obtain ⟨⟨-, -, hsz⟩, hloop⟩ := unmapTb_cons_ok h
      have hsz' : size ≤ 2 ^ A.vaBits := hsz.trans (Nat.pow_le_pow_right Nat.two_pos hc.hi_lt)
      obtain ⟨j, s', hdrift, hend⟩ := unmapLoop_drift hl hva hsz' hloop
      rcases hend with ⟨hend, rfl⟩ | ⟨hlt, len, s'', k, hlen, hchild, hrest⟩
      · exact hdrift.effect_of_end hc hsz' hoff hend
      · have heff := ih hc.tail (A.add_lt va _) hchild
        -- after the child table the loop is at a block boundary or done
        have hgood : GoodRange (l :: ls) (A.add va (j * l.pageSz + len))
            (size - (j * l.pageSz + len)) := by
          by_cases hfin : size - (j * l.pageSz + len) = 0
          · intro m _
            have := Nat.mod_lt (A.add va (j * l.pageSz + len)) m.pageSz_pos
            exact .inr (by omega)
          · refine goodRange_of_aligned hc ?_
            have hva := Nat.div_add_mod va l.pageSz
            have hmod := Nat.mod_lt va l.pageSz_pos
            have hsum : va + (j * l.pageSz + len) = l.pageSz * (va / l.pageSz + j + 1) := by
              rw [Nat.mul_add, Nat.mul_add, Nat.mul_one, Nat.mul_comm l.pageSz j]
              omega
            rw [add_mod hl, hsum, Nat.mul_mod_right]
        obtain ⟨-, htail⟩ := unmapLoop_spec (fun hva => unmapTb_spec hc.tail hva) hc
          (A.add_lt va _) (by omega) hgood hrest
        exact hdrift.effect_of_dir hc hsz' hoff hlt hlen hchild heff htail

/-! ## When exactly the range is cleared -/

/-- The checks of a call that does not stop. -/
theorem unmapTb_checks {ls : List PtLevel} {c c' : Cells} {va size : Nat} (hc : PtChain A.vaBits ls)
    (h : A.unmapTb ls c va size = .ok c') :
    va % pageSz = 0 ∧ size % pageSz = 0 ∧ size ≤ 2 ^ A.vaBits := by
  cases ls with
  | nil => cases h
  | cons l ls =>
    obtain ⟨⟨hva, hsize, hsz⟩, -⟩ := unmapTb_cons_ok h
    exact ⟨hva, hsize, hsz.trans (Nat.pow_le_pow_right Nat.two_pos hc.hi_lt)⟩

theorem unmapTb_zero {ls : List PtLevel} {c c' : Cells} {va : Nat}
    (h : A.unmapTb ls c va 0 = .ok c') : c' = c := by
  cases ls with
  | nil => cases h
  | cons l ls =>
    have hloop := (unmapTb_cons_ok h).2
    rw [rangeLoop_zero] at hloop
    exact (Except.ok.inj hloop).symm

/-- A range of the size of the translated space holds every address. -/
theorem touch_all (va v : Nat) : A.Touch va (2 ^ A.vaBits) v := by
  have hpos : 0 < 2 ^ A.vaBits := Nat.two_pow_pos _
  have hlt := Nat.mod_lt va hpos
  have hdiv := Nat.div_add_mod va (2 ^ A.vaBits)
  refine ⟨(v + (2 ^ A.vaBits - va % 2 ^ A.vaBits)) % 2 ^ A.vaBits, Nat.mod_lt _ hpos, ?_⟩
  have hsum : va + (v + (2 ^ A.vaBits - va % 2 ^ A.vaBits)) =
      v + 2 ^ A.vaBits * (va / 2 ^ A.vaBits + 1) := by
    rw [Nat.mul_add, Nat.mul_one]
    omega
  unfold canon
  rw [Nat.add_mod_mod, hsum, Nat.add_mul_mod_self_left]

/-- The page before a range inside its first record is not in the range. -/
theorem exists_startsBefore {ls : List PtLevel} {c : Cells} {va size w : Nat} {m : PtLevel}
    (hc : PtChain A.vaBits ls) (hva : va % pageSz = 0) (hsize : size % pageSz = 0)
    (hsz : size < 2 ^ A.vaBits) (hlook : A.lookup ls c va = some (m, w))
    (hoff : va % m.pageSz ≠ 0) : ∃ v, ¬ A.Touch va size v ∧ A.StartsBefore ls c va v := by
  have hpage : pageSz ∣ 2 ^ A.vaBits := Nat.pow_dvd_pow 2 A.twelve_le_vaBits
  have hdvd : pageSz ∣ m.pageSz := Nat.pow_dvd_pow 2 (hc.twelve_le_of_mem (lookup_mem hlook))
  have hroom : size + pageSz ≤ 2 ^ A.vaBits := by
    have hle := Nat.le_of_dvd (Nat.sub_pos_of_lt hsz)
      (Nat.dvd_sub hpage (Nat.dvd_of_mod_eq_zero hsize))
    omega
  have hpos : 0 < pageSz := by decide
  refine ⟨va + (2 ^ A.vaBits - pageSz), ?_, m, w, pageSz, hlook, hpos, ?_, ?_⟩
  · rintro ⟨d, hd, hv⟩
    have := offset_inj (by omega) (by omega) hv
    omega
  · refine Nat.le_of_dvd (Nat.pos_of_ne_zero hoff) (Nat.dvd_of_mod_eq_zero ?_)
    rw [Nat.mod_mod_of_dvd _ hdvd, hva]
  · rw [Nat.add_assoc, Nat.sub_add_cancel (by omega)]
    exact Nat.add_mod_right va _

/-- **When `Ptable::unmap` is exact.**  It clears exactly its range if and only if no page it misses was
mapped, and the range does not begin inside a map record or is the whole translated space. -/
theorem unmapTb_exact_iff {ls : List PtLevel} {c c' : Cells} {va size : Nat} (hls : ls <:+ A.levels)
    (hva : va < 2 ^ A.wordBits) (h : A.unmapTb ls c va size = .ok c') :
    A.Writes ls va size (fun _ => none) c c' ↔
      (∀ d < size, A.Missed ls c va size d → A.lookup ls c (va + d) = none) ∧
        (0 < size → ∀ m w, A.lookup ls c va = some (m, w) →
          va % m.pageSz = 0 ∨ size = 2 ^ A.vaBits) := by
  have hc : PtChain A.vaBits ls := (ptChain_levels A).of_suffix hls
  have heff := unmapTb_effect hc hva h
  obtain ⟨hvap, hsizep, hsz⟩ := unmapTb_checks hc h
  constructor
  · intro hw
    refine ⟨fun d hd hmiss => ?_, fun hpos m w hlook => ?_⟩
    · rw [← heff.missed d hd hmiss, hw.inside d hd]
    · by_contra hneither
      obtain ⟨hoff, hfull⟩ := not_or.mp hneither
      obtain ⟨v, hout, hstart⟩ := exists_startsBefore hc hvap hsizep (by omega) hlook hoff
      obtain ⟨_, _, -, -, hold⟩ := hstart.lookup_eq hc
      -- that page is unmapped with the record
      have hgone := lookup_none_of_startsBefore hc hva h (hw.inside 0 hpos) hstart
      rw [hw.outside v hout, hold] at hgone
      cases hgone
  · rintro ⟨hmissed, hstart⟩
    rcases Nat.eq_zero_or_pos size with rfl | hpos
    · rw [unmapTb_zero h]
      exact .zero
    constructor
    · intro d hd
      by_cases hmiss : A.Missed ls c va size d
      · rw [heff.missed d hd hmiss, hmissed d hd hmiss]
      · exact heff.cleared d hd hmiss
    · intro v hv
      refine heff.kept v hv ?_
      rintro ⟨m, w, e, hlook, he, hle, -⟩
      rcases hstart hpos m w hlook with hal | rfl
      · omega
      · exact hv (touch_all va v)

/-- Two blocks are unmapped from the boundary of the first on. -/
theorem alignedRange_exact :
    let c : Cells := fun n k => if n = 1 ∧ k = 1 then .map 0x402 else .inv
    ∃ c', arm.unmapTb arm.levels c 0x100000 0x200000 = .ok c' ∧
      arm.Writes arm.levels 0x100000 0x200000 (fun _ => none) c c' := by
  intro c
  have hrun : (arm.unmapTb arm.levels c 0x100000 0x200000).map (fun _ => ()) = .ok () := by decide
  obtain ⟨c', hc', -⟩ := map_eq_ok hrun
  refine ⟨c', hc', (unmapTb_exact_iff (List.suffix_refl _) (by decide) hc').mpr
    ⟨fun d _ hmiss => absurd rfl hmiss.1, fun _ m w hlook => ?_⟩⟩
  have hfirst : arm.lookup arm.levels c 0x100000 = some (⟨1, 31, 20⟩, 0x402) := by decide
  rw [hfirst] at hlook
  obtain ⟨rfl, -⟩ := Prod.mk.inj (Option.some.inj hlook)
  exact .inl rfl

/-- **A start inside an unmapped block.**  The first step passes the block in a whole page size, and the
mapped page at the start of the next block with it. -/
theorem missedPage_not_exact :
    let c : Cells := fun n k =>
      if n = 1 ∧ k = 1 ∨ n = 2 ∧ k = 64 then .dir
      else if n = 3 ∧ k = 0x1000 then .map 0x11e
      else .inv
    ∃ c', sparc.unmapTb sparc.levels c 0x1000 0x1001000 = .ok c' ∧
      ¬ sparc.Writes sparc.levels 0x1000 0x1001000 (fun _ => none) c c' := by
  intro c
  have hrun : (sparc.unmapTb sparc.levels c 0x1000 0x1001000).map
      (fun c' => sparc.lookup sparc.levels c' 0x1000000) = .ok (some (⟨3, 17, 12⟩, 0x11e)) := by
    decide
  obtain ⟨c', hc', hlook⟩ := map_eq_ok hrun
  refine ⟨c', hc', fun hw => ?_⟩
  have hnone := hw.inside 0xfff000 (by decide)
  rw [hlook] at hnone
  cases hnone

end Arch

end Wrmos
