import Wrmos.PtableMap

/-!
# What `Ptable::walk` finds

`Ptable::walk` looks at the records that cover its range one after another.  It answers `0` when a
part of the range is not mapped, and otherwise the first address it read that is not `0`: the
records after that one are not looked at for their addresses (`walkTb_spec`).  What it reads is
`recordStart`: one address for each record, taken where the range enters it.
-/

namespace Wrmos

namespace Lib

/-- The first value of `f` on `0, …, n - 1` that is not `0`; `0` when there is none. -/
def firstNonzero (f : Nat → Nat) : Nat → Nat
  | 0 => 0
  | n + 1 => if firstNonzero f n = 0 then f n else firstNonzero f n

theorem firstNonzero_add (f : Nat → Nat) (m n : Nat) :
    firstNonzero f (m + n) =
      if firstNonzero f m = 0 then firstNonzero (fun i => f (m + i)) n else firstNonzero f m := by
  induction n with
  | zero => by_cases h : firstNonzero f m = 0 <;> simp [firstNonzero, h]
  | succ n ih =>
    rw [← Nat.add_assoc, firstNonzero, ih]
    by_cases h : firstNonzero f m = 0 <;> simp [firstNonzero, h]

theorem firstNonzero_congr {f g : Nat → Nat} {n : Nat} (h : ∀ i < n, f i = g i) :
    firstNonzero f n = firstNonzero g n := by
  induction n with
  | zero => rfl
  | succ n ih =>
    rw [firstNonzero, firstNonzero, ih fun i hi => h i (by omega), h n (by omega)]

/-- Only the first value counts when the others are `0`. -/
theorem firstNonzero_of_zero {f : Nat → Nat} {n : Nat} (hn : 0 < n)
    (h : ∀ i, 0 < i → i < n → f i = 0) : firstNonzero f n = f 0 := by
  induction n with
  | zero => omega
  | succ n ih =>
    rw [firstNonzero]
    rcases Nat.eq_zero_or_pos n with rfl | hpos
    · simp [firstNonzero]
    · rw [ih hpos fun i h0 hi => h i h0 (by omega), h n hpos (by omega)]
      split_ifs with h0
      · exact h0.symm
      · rfl

end Lib

open Lib

namespace Arch

variable {A : Arch}

/-- The physical address the kernel reads for `v` from the record that translates it. -/
def readPa (A : Arch) (l : PtLevel) (w v : Nat) : Nat :=
  padd (mmuGetMapPa A l.level w) (v % l.pageSz)

/-- The address read at page `i` of the range, when a record is entered there: at the first page, and
where a record begins. -/
def recordStart (A : Arch) (ls : List PtLevel) (c : Cells) (va i : Nat) : Nat :=
  match A.lookup ls c (va + i * pageSz) with
  | some (l, w) =>
    if i = 0 ∨ (va + i * pageSz) % l.pageSz = 0 then A.readPa l w (va + i * pageSz) else 0
  | none => 0

/-- The first non-zero address among the records of the range. -/
def firstAddr (A : Arch) (ls : List PtLevel) (c : Cells) (va size : Nat) : Nat :=
  firstNonzero (A.recordStart ls c va) (size / pageSz)

/-- What a round of `Ptable::walk` can do. -/
theorem walkStep_cases {l : PtLevel} {childWalk : Nat → Nat → Except Stop Nat} {c : Cells}
    {pa pa' va rest len : Nat} (h : A.walkStep l childWalk c pa va rest = .ok (pa', len)) :
    len = min rest (l.pageSz - va % l.pageSz) ∧
    ((A.cellAt c l va = .dir ∧ ∃ res, res ≠ 0 ∧ childWalk va len = .ok res ∧
        pa' = if pa = 0 then res else pa) ∨
      ∃ w, A.cellAt c l va = .map w ∧
        pa' = if pa = 0 then A.readPa l w va else pa) := by
  unfold walkStep at h
  dsimp only at h
  cases hcell : A.cellAt c l va with
  | inv =>
    rw [hcell] at h
    cases h
  | dir =>
    rw [hcell] at h
    cases hw : childWalk va (min rest (l.pageSz - va % l.pageSz)) with
    | error e =>
      rw [hw] at h
      cases h
    | ok res =>
      rw [hw] at h
      cases res with
      | zero => cases h
      | succ n =>
        obtain ⟨rfl, rfl⟩ := Prod.mk.inj (Except.ok.inj h)
        exact ⟨rfl, .inl ⟨rfl, n + 1, Nat.succ_ne_zero n, hw, rfl⟩⟩
  | map w =>
    rw [hcell] at h
    obtain ⟨rfl, rfl⟩ := Prod.mk.inj (Except.ok.inj h)
    exact ⟨rfl, .inr ⟨w, rfl, rfl⟩⟩

theorem walkTb_cons_ok {l : PtLevel} {ls : List PtLevel} {c : Cells} {va size pa : Nat}
    (h : A.walkTb c (l :: ls) va size = .ok pa) (hpa : pa ≠ 0) :
    (va % pageSz = 0 ∧ size % pageSz = 0 ∧ size ≤ l.aspaceSz) ∧
      rangeLoop A.add (.stop .outOfRounds) (A.walkStep l (A.walkTb c ls) c) (size / pageSz + 1) 0
        va size = .ok pa := by
  unfold walkTb at h
  obtain ⟨hr, h⟩ := checkRange_bind_eq_ok.mp h
  refine ⟨hr, ?_⟩
  split at h
  · next res hres => rw [hres, Except.ok.inj h]
  · exact absurd (Except.ok.inj h).symm hpa
  · cases h

theorem readPa_congr {l : PtLevel} {w x y : Nat} (h : x % l.pageSz = y % l.pageSz) :
    A.readPa l w x = A.readPa l w y := by
  unfold readPa
  rw [h]

theorem pageSz_dvd_pageSz {l : PtLevel} (h : 12 ≤ l.low) : pageSz ∣ l.pageSz :=
  Nat.pow_dvd_pow 2 h

section WalkSpec

variable {l : PtLevel} {ls : List PtLevel} {c : Cells} {va o len : Nat}

/-- Below a directory record the records entered are those of the child table. -/
theorem recordStart_child (hc : PtChain A.vaBits (l :: ls)) (ho : o % pageSz = 0)
    (hb : o = 0 ∨ (va + o) % l.pageSz = 0) (hdir : A.cellAt c l (A.add va o) = .dir)
    (hlen : len ≤ l.pageSz - A.add va o % l.pageSz) {i : Nat} (hi : i < len / pageSz) :
    A.recordStart (l :: ls) c va (o / pageSz + i) = A.recordStart ls c (A.add va o) i := by
  have hl : l.low ≤ A.vaBits := hc.low_le_hi.trans hc.hi_lt.le
  have hoff : (o / pageSz + i) * pageSz = o + i * pageSz := by
    rw [Nat.add_mul, Nat.div_mul_cancel (Nat.dvd_of_mod_eq_zero ho)]
  have hlt : i * pageSz < len := by
    have := Nat.div_mul_le_self len pageSz
    have := Nat.mul_lt_mul_of_pos_right hi (show 0 < pageSz by decide)
    omega
  have hcanon : A.canon (va + (o + i * pageSz)) = A.canon (A.add va o + i * pageSz) := by
    rw [← Nat.add_assoc]
    exact (canon_add_right (A.canon_add va o) _).symm
  have hk : A.key l (A.add va o + i * pageSz) = A.key l (A.add va o) := key_add hl (by omega)
  have hlook : A.lookup (l :: ls) c (va + (o + i * pageSz)) =
      A.lookup ls c (A.add va o + i * pageSz) := by
    rw [lookup_congr hcanon, lookup_cons_of_dir]
    rw [cellAt_congr hk, hdir]
  unfold recordStart
  rw [hoff, hlook]
  cases hres : A.lookup ls c (A.add va o + i * pageSz) with
  | none => rfl
  | some r =>
    obtain ⟨m, w⟩ := r
    have hm := hc.lt_of_mem (lookup_mem hres)
    have hmod : (va + (o + i * pageSz)) % m.pageSz = (A.add va o + i * pageSz) % m.pageSz := by
      rw [← Nat.add_assoc, Nat.add_mod, Nat.add_mod (A.add va o), add_mod (hm.2.le.trans hl)]
    have hcond : (o / pageSz + i = 0 ∨ (va + (o + i * pageSz)) % m.pageSz = 0) ↔
        (i = 0 ∨ (A.add va o + i * pageSz) % m.pageSz = 0) := by
      rw [← hmod]
      constructor
      · rintro (h | h)
        · exact .inl (Nat.eq_zero_of_add_eq_zero_left h)
        · exact .inr h
      · rintro (rfl | h)
        · -- the child table is entered at the start of the range or of a block
          rcases hb with rfl | hb
          · exact .inl (by simp)
          · refine .inr ?_
            rw [Nat.zero_mul, Nat.add_zero]
            exact Nat.mod_eq_zero_of_dvd
              ((PtLevel.pageSz_dvd hm.2.le).trans (Nat.dvd_of_mod_eq_zero hb))
        · exact .inr h
    simp only [hcond, readPa_congr hmod]

/-- In the block of one map record only the first page enters a record. -/
theorem firstNonzero_record (hc : PtChain A.vaBits (l :: ls)) (ho : o % pageSz = 0)
    (hb : o = 0 ∨ (va + o) % l.pageSz = 0) {w : Nat} (hmap : A.cellAt c l (A.add va o) = .map w)
    (hlen : len ≤ l.pageSz - A.add va o % l.pageSz) (hpos : 0 < len / pageSz) :
    firstNonzero (fun i => A.recordStart (l :: ls) c va (o / pageSz + i)) (len / pageSz) =
      A.readPa l w (A.add va o) := by
  have hl : l.low ≤ A.vaBits := hc.low_le_hi.trans hc.hi_lt.le
  have hstart : ∀ i < len / pageSz, A.recordStart (l :: ls) c va (o / pageSz + i) =
      if o / pageSz + i = 0 ∨ (va + (o + i * pageSz)) % l.pageSz = 0 then
        A.readPa l w (va + (o + i * pageSz)) else 0 := by
    intro i hi
    have hoff : (o / pageSz + i) * pageSz = o + i * pageSz := by
      rw [Nat.add_mul, Nat.div_mul_cancel (Nat.dvd_of_mod_eq_zero ho)]
    have hlt : i * pageSz < len := by
      have := Nat.div_mul_le_self len pageSz
      have := Nat.mul_lt_mul_of_pos_right hi (show 0 < pageSz by decide)
      omega
    have hk : A.key l (va + (o + i * pageSz)) = A.key l (A.add va o) := by
      rw [← key_add hl (show A.add va o % l.pageSz + i * pageSz < l.pageSz by omega)]
      apply key_congr
      rw [← Nat.add_assoc]
      exact (canon_add_right (A.canon_add va o) _).symm
    unfold recordStart
    rw [hoff]
    simp only [lookup, cellAt_congr hk, hmap]
  rw [firstNonzero_of_zero hpos]
  · rw [hstart 0 hpos, Nat.zero_mul, Nat.add_zero, Nat.add_zero, if_pos]
    · exact readPa_congr (add_mod hl va o).symm
    · rcases hb with rfl | hb
      · exact .inl (by simp)
      · exact .inr hb
  · intro i h0 hi
    have hlt : i * pageSz < len := by
      have := Nat.div_mul_le_self len pageSz
      have := Nat.mul_lt_mul_of_pos_right hi (show 0 < pageSz by decide)
      omega
    have hipos : 0 < i * pageSz := Nat.mul_pos h0 (by decide)
    rw [hstart i hi, if_neg]
    rintro (h | h)
    · exact h0.ne' (Nat.eq_zero_of_add_eq_zero_left h)
    · rw [add_mod hl] at hlen
      rw [← Nat.add_assoc, Nat.add_mod, Nat.mod_eq_of_lt (a := i * pageSz) (by omega),
        Nat.mod_eq_of_lt (by omega)] at h
      omega

end WalkSpec

/-- **`Ptable::walk` with a non-zero answer**: the whole range is mapped, and the answer is the first
non-zero address among its records. -/
theorem walkTb_spec {c : Cells} :
    ∀ {ls : List PtLevel} {va size pa : Nat}, PtChain A.vaBits ls → va < 2 ^ A.wordBits →
      A.walkTb c ls va size = .ok pa → pa ≠ 0 →
      (∀ d < size, (A.lookup ls c (va + d)).isSome) ∧ pa = A.firstAddr ls c va size := by
  intro ls
  induction ls with
  | nil => intro va size pa _ _ h; cases h
  | cons l ls ih =>
    intro va size pa hc hva h hpa
    obtain ⟨⟨hvap, hszp, hsz⟩, hloop⟩ := walkTb_cons_ok h hpa
    have hl : l.low ≤ A.vaBits := hc.low_le_hi.trans hc.hi_lt.le
    have hPp : l.pageSz % pageSz = 0 :=
      Nat.mod_eq_zero_of_dvd (pageSz_dvd_pageSz hc.twelve_le_low)
    let Inv : Nat → Nat → Nat → Prop := fun pa cur rest =>
      ∃ o, o + rest = size ∧ cur = A.add va o ∧ o % pageSz = 0 ∧
        (o = 0 ∨ (va + o) % l.pageSz = 0 ∨ rest = 0) ∧
        (∀ d < o, (A.lookup (l :: ls) c (va + d)).isSome) ∧
        pa = firstNonzero (A.recordStart (l :: ls) c va) (o / pageSz)
    have hstep : ∀ pa cur rest pa' len, Inv pa cur rest → rest ≠ 0 →
        A.walkStep l (A.walkTb c ls) c pa cur rest = .ok (pa', len) →
        Inv pa' (A.add cur len) (rest - len) := by
      rintro pa cur rest pa' len ⟨o, ho, rfl, hop, hbound, hmapped, rfl⟩ hrest hs
      have hlen := (walkStep_cases hs).1
      have hb : o = 0 ∨ (va + o) % l.pageSz = 0 := by tauto
      have hlt := Nat.mod_lt (A.add va o) l.pageSz_pos
      -- the loop advances by whole pages
      have hcurp : A.add va o % l.pageSz % pageSz = 0 := by
        rw [add_mod hl, Nat.mod_mod_of_dvd _ (Nat.dvd_of_mod_eq_zero hPp), Nat.add_mod, hvap, hop]
        rfl
      have hrp : rest % pageSz = 0 := by
        rw [show rest = size - o by omega]
        exact Nat.mod_eq_zero_of_dvd
          (Nat.dvd_sub (Nat.dvd_of_mod_eq_zero hszp) (Nat.dvd_of_mod_eq_zero hop))
      have hlenp : len % pageSz = 0 := by
        rcases Nat.le_total rest (l.pageSz - A.add va o % l.pageSz) with hmin | hmin
        · rw [hlen, Nat.min_eq_left hmin, hrp]
        · rw [hlen, Nat.min_eq_right hmin]
          exact Nat.mod_eq_zero_of_dvd
            (Nat.dvd_sub (Nat.dvd_of_mod_eq_zero hPp) (Nat.dvd_of_mod_eq_zero hcurp))
      have hlenpos : 0 < len / pageSz := by
        apply Nat.div_pos _ (by decide)
        exact Nat.le_of_dvd (by omega) (Nat.dvd_of_mod_eq_zero hlenp)
      have hle : len ≤ l.pageSz - A.add va o % l.pageSz := by omega
      have hdiv : (o + len) / pageSz = o / pageSz + len / pageSz :=
        Nat.add_div_of_dvd_right (Nat.dvd_of_mod_eq_zero hop)
      have hkey : ∀ d < len, A.canon (va + (o + d)) = A.canon (A.add va o + d) ∧
          A.key l (A.add va o + d) = A.key l (A.add va o) := by
        intro d hd
        refine ⟨?_, key_add hl (by omega)⟩
        rw [← Nat.add_assoc]
        exact (canon_add_right (A.canon_add va o) d).symm
      have hnext : ∀ d < o + len, (∀ e < len, (A.lookup (l :: ls) c (va + (o + e))).isSome) →
          (A.lookup (l :: ls) c (va + d)).isSome := by
        intro d hd hnew
        by_cases hdo : d < o
        · exact hmapped d hdo
        · have := hnew (d - o) (by omega)
          rwa [show o + (d - o) = d by omega] at this
      have hsum : (o + len) % pageSz = 0 := by
        rw [Nat.add_mod, hop, hlenp]
        rfl
      refine ⟨o + len, by omega, by rw [add_add], hsum, ?_, ?_, ?_⟩
      · by_cases hfin : rest ≤ l.pageSz - A.add va o % l.pageSz
        · exact .inr (.inr (by omega))
        · refine .inr (.inl ?_)
          rw [add_mod hl] at hlt hfin hlen
          have hda := Nat.div_add_mod (va + o) l.pageSz
          rw [show va + (o + len) = l.pageSz * ((va + o) / l.pageSz + 1) by
            rw [Nat.mul_add, Nat.mul_one]; omega]
          exact Nat.mul_mod_right _ _
      · intro d hd
        apply hnext d hd
        intro e he
        obtain ⟨hcan, hk⟩ := hkey e he
        rw [lookup_congr hcan]
        rcases (walkStep_cases hs).2 with ⟨hdir, res, hres, hchild, -⟩ | ⟨w, hmap, -⟩
        · rw [lookup_cons_of_dir (by rw [cellAt_congr hk, hdir])]
          exact (ih hc.tail (A.add_lt va o) hchild hres).1 e he
        · simp only [lookup, cellAt_congr hk, hmap, Option.isSome_some]
      · rw [hdiv, firstNonzero_add]
        rcases (walkStep_cases hs).2 with ⟨hdir, res, hres, hchild, rfl⟩ | ⟨w, hmap, rfl⟩
        · rw [(ih hc.tail (A.add_lt va o) hchild hres).2, firstAddr,
            firstNonzero_congr fun i hi => (recordStart_child hc hop hb hdir hle hi).symm]
        · rw [firstNonzero_record hc hop hb hmap hle hlenpos]
    have hinit : Inv 0 va size :=
      ⟨0, by omega, by rw [add, Nat.add_zero, Nat.mod_eq_of_lt hva], rfl, .inl rfl,
        fun _ hd => absurd hd (Nat.not_lt_zero _), by simp [firstNonzero]⟩
    obtain ⟨cur, o, ho, -, -, -, hmapped, hfirst⟩ := rangeLoop_invariant hstep hinit hloop
    obtain rfl : o = size := by omega
    exact ⟨hmapped, hfirst⟩

end Arch

end Wrmos
