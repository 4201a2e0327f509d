import Wrmos.Ptable
import Mathlib.Data.Nat.ModEq
import Mathlib.Tactic.Ring
import Mathlib.Tactic.SplitIfs

/-!
# What `Ptable::map` does to the translation

The translation of an address is `Arch.lookup`.  `Arch.Writes` says that a traversal gives the
addresses of a range a translation of their own and leaves all others alone; two adjacent writes
make one (`Writes.append`), and that is the induction behind the loops.

`mapTb_spec` is the result: `Ptable::map` writes its range, and an address is recorded at the topmost
level whose block around it lies wholly in the range (`mapSpec`).
-/

namespace Wrmos

open Lib

namespace Arch

variable {A : Arch}

/-! ## Addresses and blocks -/

/-- Block numbers without reference to the translated address bits. -/
theorem key_eq {l : PtLevel} (hl : l.low ≤ A.vaBits) (x : Nat) :
    A.key l x = x / l.pageSz % 2 ^ (A.vaBits - l.low) := by
  have hpow : 2 ^ A.vaBits = l.pageSz * 2 ^ (A.vaBits - l.low) := by
    rw [PtLevel.pageSz, ← pow_add]
    congr 1
    omega
  unfold key canon
  rw [hpow, Nat.mod_mul_right_div_self]

theorem canon_mod {l : PtLevel} (hl : l.low ≤ A.vaBits) (x : Nat) :
    A.canon x % l.pageSz = x % l.pageSz :=
  Nat.mod_mod_of_dvd x (Nat.pow_dvd_pow 2 hl)

/-- An address is its block and its offset in the block. -/
theorem canon_eq_iff {l : PtLevel} (hl : l.low ≤ A.vaBits) {x y : Nat} :
    A.canon x = A.canon y ↔ A.key l x = A.key l y ∧ x % l.pageSz = y % l.pageSz := by
  constructor
  · intro h
    refine ⟨by unfold key; rw [h], ?_⟩
    rw [← canon_mod hl x, ← canon_mod hl y, h]
  · rintro ⟨hk, hm⟩
    rw [← Nat.div_add_mod (A.canon x) l.pageSz, ← Nat.div_add_mod (A.canon y) l.pageSz,
      canon_mod hl, canon_mod hl, hm]
    unfold key at hk
    rw [hk]

theorem key_congr {l : PtLevel} {x y : Nat} (h : A.canon x = A.canon y) : A.key l x = A.key l y := by
  unfold key
  rw [h]

/-- Addresses of one page-sized stretch are in one block. -/
theorem key_of_div {l : PtLevel} (hl : l.low ≤ A.vaBits) {x y : Nat}
    (h : x / l.pageSz = y / l.pageSz) : A.key l x = A.key l y := by
  rw [key_eq hl, key_eq hl, h]

/-- The block of a deeper level determines the block of a higher one. -/
theorem key_div {l m : PtLevel} (hlm : m.low ≤ l.low) (x : Nat) :
    A.key m x * m.pageSz / l.pageSz = A.key l x := by
  obtain ⟨q, hq⟩ := PtLevel.pageSz_dvd hlm
  unfold key
  rw [hq, ← Nat.div_div_eq_div_mul, Nat.mul_div_cancel _ m.pageSz_pos, Nat.div_div_eq_div_mul]

theorem canon_add_right {x y : Nat} (h : A.canon x = A.canon y) (d : Nat) :
    A.canon (x + d) = A.canon (y + d) := by
  unfold canon at *
  rw [Nat.add_mod, h, ← Nat.add_mod]

/-- Offsets below the size of the translated space name different addresses. -/
theorem offset_inj {va d e : Nat} (hd : d < 2 ^ A.vaBits) (he : e < 2 ^ A.vaBits)
    (h : A.canon (va + d) = A.canon (va + e)) : d = e := by
  have hmod : Nat.ModEq (2 ^ A.vaBits) d e := Nat.ModEq.add_left_cancel' va h
  rwa [Nat.ModEq, Nat.mod_eq_of_lt hd, Nat.mod_eq_of_lt he] at hmod

/-- `v` is an address of the range of `len` bytes from `va`. -/
def Touch (A : Arch) (va len v : Nat) : Prop := ∃ d < len, A.canon v = A.canon (va + d)

theorem touch_congr {va va' len v v' : Nat} (hva : A.canon va = A.canon va')
    (hv : A.canon v = A.canon v') : A.Touch va len v ↔ A.Touch va' len v' := by
  unfold Touch
  rw [hv]
  simp only [canon_add_right hva]

theorem touch_offset {va len d : Nat} (h : d < len) : A.Touch va len (va + d) := ⟨d, h, rfl⟩

/-- A range is made of its first part and the rest. -/
theorem touch_append {va m n v : Nat} :
    A.Touch va (m + n) v ↔ A.Touch va m v ∨ A.Touch (va + m) n v := by
  constructor
  · rintro ⟨d, hd, hv⟩
    by_cases hm : d < m
    · exact .inl ⟨d, hm, hv⟩
    · refine .inr ⟨d - m, by omega, ?_⟩
      rw [hv]
      congr 1
      omega
  · rintro (⟨d, hd, hv⟩ | ⟨d, hd, hv⟩)
    · exact ⟨d, by omega, hv⟩
    · exact ⟨m + d, by omega, by rw [hv, Nat.add_assoc]⟩

/-- Addresses of the first part are not in the rest. -/
theorem not_touch_of_lt {va m n d : Nat} (hsz : m + n ≤ 2 ^ A.vaBits) (hd : d < m) :
    ¬ A.Touch (va + m) n (va + d) := by
  rintro ⟨e, he, hv⟩
  rw [Nat.add_assoc] at hv
  have := offset_inj (by omega) (by omega) hv
  omega

/-- A whole block is a range from its first address on. -/
theorem touch_block {l : PtLevel} (hl : l.low ≤ A.vaBits) {va v : Nat} (hva : va % l.pageSz = 0)
    (hk : A.key l v = A.key l va) : A.Touch va l.pageSz v := by
  have hlt : v % l.pageSz < l.pageSz := Nat.mod_lt _ l.pageSz_pos
  refine ⟨v % l.pageSz, hlt, (canon_eq_iff hl).mpr ⟨?_, ?_⟩⟩
  · rw [hk]
    apply key_of_div hl
    rw [Nat.add_div_of_dvd_right (Nat.dvd_of_mod_eq_zero hva), Nat.div_eq_of_lt hlt,
      Nat.add_zero]
  · rw [Nat.add_mod, hva, Nat.zero_add, Nat.mod_mod, Nat.mod_mod]

/-- The addresses from `va` to the end of its block are in that block. -/
theorem key_add {l : PtLevel} (hl : l.low ≤ A.vaBits) {va d : Nat}
    (h : va % l.pageSz + d < l.pageSz) : A.key l (va + d) = A.key l va := by
  apply key_of_div hl
  have hva := Nat.div_add_mod va l.pageSz
  rw [Nat.div_eq_iff l.pageSz_pos]
  rw [Nat.mul_comm]
  omega

/-! ## The translation -/

theorem cellAt_congr {c : Cells} {l : PtLevel} {x y : Nat} (h : A.key l x = A.key l y) :
    A.cellAt c l x = A.cellAt c l y := by
  unfold cellAt
  rw [h]

theorem lookup_congr {ls : List PtLevel} {c : Cells} {x y : Nat} (h : A.canon x = A.canon y) :
    A.lookup ls c x = A.lookup ls c y := by
  induction ls with
  | nil => rfl
  | cons l ls ih => simp only [lookup, cellAt_congr (key_congr h), ih]

/-- The translation of an address reads no more than one record per level. -/
theorem lookup_of_cells {ls : List PtLevel} {c c' : Cells} {v : Nat}
    (h : ∀ l ∈ ls, A.cellAt c' l v = A.cellAt c l v) : A.lookup ls c' v = A.lookup ls c v := by
  induction ls with
  | nil => rfl
  | cons l ls ih =>
    have htail := ih fun m hm => h m (List.mem_cons_of_mem l hm)
    simp only [lookup, h l List.mem_cons_self, htail]

theorem lookup_mem {ls : List PtLevel} {c : Cells} {v w : Nat} {l : PtLevel}
    (h : A.lookup ls c v = some (l, w)) : l ∈ ls := by
  induction ls with
  | nil => cases h
  | cons m ls ih =>
    simp only [lookup] at h
    split at h
    · cases h
    · exact List.mem_cons_of_mem m (ih h)
    · obtain ⟨rfl, -⟩ := Prod.mk.inj (Option.some.inj h)
      exact List.mem_cons_self

/-- A translated address is translated by the map record of its level. -/
theorem cellAt_of_lookup {ls : List PtLevel} {c : Cells} {v w : Nat} {l : PtLevel}
    (h : A.lookup ls c v = some (l, w)) : A.cellAt c l v = .map w := by
  induction ls with
  | nil => cases h
  | cons m ls ih =>
    simp only [lookup] at h
    split at h
    · cases h
    · exact ih h
    · rename_i w' hcell
      obtain ⟨rfl, rfl⟩ := Prod.mk.inj (Option.some.inj h)
      exact hcell

theorem lookup_cons_of_dir {l : PtLevel} {ls : List PtLevel} {c : Cells} {v : Nat}
    (h : A.cellAt c l v = .dir) : A.lookup (l :: ls) c v = A.lookup ls c v := by
  simp only [lookup, h]

theorem cellAt_of_level {c c' : Cells} {l : PtLevel} {v : Nat} (h : c' l.level = c l.level) :
    A.cellAt c' l v = A.cellAt c l v := by
  unfold cellAt
  rw [h]

theorem cellAt_setCell_ne {c : Cells} {l m : PtLevel} {va v : Nat} {x : Cell}
    (h : m.level ≠ l.level ∨ A.key m v ≠ A.key l va) :
    A.cellAt (A.setCell c l va x) m v = A.cellAt c m v := by
  have hne : ¬ (m.level = l.level ∧ A.key m v = A.key l va) := by tauto
  unfold cellAt setCell
  simp only [if_neg hne]

theorem cellAt_setCell_self {c : Cells} {l : PtLevel} {va v w : Nat} (hk : A.key l v = A.key l va)
    (hm : mmuHasMap A l.level = true) :
    A.cellAt (A.setCell c l va (.map w)) l v = .map w := by
  unfold cellAt setCell
  simp [hk, hm]

theorem cellAt_setCell_inv {c : Cells} {l : PtLevel} {va v : Nat} (hk : A.key l v = A.key l va) :
    A.cellAt (A.setCell c l va .inv) l v = .inv := by
  unfold cellAt setCell
  simp [hk]

theorem cellAt_of_noMap {c : Cells} {l : PtLevel} {v : Nat} (hm : mmuHasMap A l.level = false)
    (hdir : A.cellAt c l v ≠ .dir) : A.cellAt c l v = .inv := by
  unfold cellAt at hdir ⊢
  cases hcell : c l.level (A.key l v) <;> simp_all

theorem cellAt_newTable_self {c : Cells} {l : PtLevel} {child : Option PtLevel} {va v : Nat}
    (hk : A.key l v = A.key l va) : A.cellAt (A.newTable c l child va) l v = .dir := by
  unfold cellAt newTable
  simp [hk]

/-- A fresh table translates nothing, and where there was no table nothing was translated. -/
theorem lookup_newTable {l : PtLevel} {ls : List PtLevel} {c : Cells} {va : Nat}
    (hc : PtChain A.vaBits (l :: ls)) (hinv : A.cellAt c l va = .inv) (v : Nat) :
    A.lookup (l :: ls) (A.newTable c l ls.head? va) v = A.lookup (l :: ls) c v := by
  by_cases hk : A.key l v = A.key l va
  · have hold : A.lookup (l :: ls) c v = none := by
      simp only [lookup, cellAt_congr hk, hinv]
    rw [lookup_cons_of_dir (cellAt_newTable_self hk), hold]
    cases ls with
    | nil => rfl
    | cons m ls =>
      -- the record of the child table that covers `v` was zeroed
      have hm := hc.lt_of_mem List.mem_cons_self
      have hblock : A.key m v * m.pageSz / l.pageSz = A.key l va := by
        rw [key_div hm.2.le, hk]
      have hnew : A.cellAt (A.newTable c l (m :: ls).head? va) m v = .inv := by
        unfold cellAt newTable
        simp [hm.1.ne', hblock]
      simp only [lookup, hnew]
  · apply lookup_of_cells
    intro m hm
    have hcell : A.newTable c l ls.head? va m.level (A.key m v) = c m.level (A.key m v) := by
      unfold newTable
      rcases List.mem_cons.mp hm with rfl | hm
      · rw [if_neg (fun h => hk h.2)]
        cases ls with
        | nil => rfl
        | cons n ls =>
          have hn := hc.lt_of_mem List.mem_cons_self
          simp [hn.1.ne]
      · have hml := hc.lt_of_mem hm
        rw [if_neg (fun h => hml.1.ne' h.1)]
        cases ls with
        | nil => cases hm
        | cons n ls =>
          simp only [List.head?_cons]
          split_ifs with hsame
          · -- same level as the child table: then `m` is the child, and its block is another one
            exfalso
            rcases List.mem_cons.mp hm with rfl | hm'
            · exact hk (by rw [← key_div hml.2.le v, hsame.2])
            · exact absurd hsame.1 (hc.tail.lt_of_mem hm').1.ne'
          · rfl
    unfold cellAt
    rw [hcell]

/-- The checks of `Ptable::unmap` and `Ptable::walk`. -/
theorem checkRange_bind_eq_ok {α : Type} {l : PtLevel} {va size : Nat}
    {f : Unit → Except Stop α} {r : α} :
    (checkRange l va size >>= f) = .ok r ↔
      (va % pageSz = 0 ∧ size % pageSz = 0 ∧ size ≤ l.aspaceSz) ∧ f () = .ok r := by
  have hcheck : ∀ u, checkRange l va size = .ok u ↔
      va % pageSz = 0 ∧ size % pageSz = 0 ∧ size ≤ l.aspaceSz := by
    intro u
    unfold checkRange
    simp only [ensure_bind_eq_ok, ensure_eq_ok]
  rw [bind_eq_ok]
  simp only [hcheck]
  exact ⟨fun ⟨_, h⟩ => h, fun h => ⟨(), h⟩⟩

/-! ## Writing a range -/

/-- The translations of the addresses `va + d` with `d < len` become `F d`; all others stay. -/
structure Writes (A : Arch) (ls : List PtLevel) (va len : Nat)
    (F : Nat → Option (PtLevel × Nat)) (c c' : Cells) : Prop where
  inside : ∀ d < len, A.lookup ls c' (va + d) = F d
  outside : ∀ v, ¬ A.Touch va len v → A.lookup ls c' v = A.lookup ls c v

namespace Writes

variable {ls : List PtLevel} {va m n : Nat} {F : Nat → Option (PtLevel × Nat)} {c c' c'' : Cells}

theorem zero : A.Writes ls va 0 F c c :=
  ⟨fun _ hd => absurd hd (Nat.not_lt_zero _), fun _ _ => rfl⟩

/-- **Two writes, one after the other and side by side, are one.** -/
theorem append (hsz : m + n ≤ 2 ^ A.vaBits) (h1 : A.Writes ls va m F c c')
    (h2 : A.Writes ls (va + m) n (fun d => F (m + d)) c' c'') :
    A.Writes ls va (m + n) F c c'' := by
  constructor
  · intro d hd
    by_cases hm : d < m
    · rw [h2.outside _ (not_touch_of_lt hsz hm), h1.inside d hm]
    · have hd' := h2.inside (d - m) (by omega)
      rw [show va + m + (d - m) = va + d by omega, show m + (d - m) = d by omega] at hd'
      exact hd'
  · intro v hv
    rw [touch_append, not_or] at hv
    rw [h2.outside v hv.2, h1.outside v hv.1]

/-- Only the translated bits of the first address matter. -/
theorem congr_start {va' : Nat} (hva : A.canon va = A.canon va') (h : A.Writes ls va m F c c') :
    A.Writes ls va' m F c c' := by
  constructor
  · intro d hd
    rw [← h.inside d hd, lookup_congr (canon_add_right hva d)]
  · intro v hv
    exact h.outside v fun ht => hv ((touch_congr hva rfl).mp ht)

theorem congr_fun {G : Nat → Option (PtLevel × Nat)} (hFG : ∀ d < m, F d = G d)
    (h : A.Writes ls va m F c c') : A.Writes ls va m G c c' :=
  ⟨fun d hd => (h.inside d hd).trans (hFG d hd), h.outside⟩

end Writes

/-! ## `Ptable::map` -/

/-- The block of level `l` around the address at offset `d` of the range lies wholly in the
range. -/
def Whole (l : PtLevel) (va size d : Nat) : Prop :=
  (va + d) % l.pageSz ≤ d ∧ d + l.pageSz ≤ size + (va + d) % l.pageSz

instance (l : PtLevel) (va size d : Nat) : Decidable (Whole l va size d) := by
  unfold Whole; infer_instance

/-- The translation `Ptable::map` gives to the address at offset `d`: the record of the topmost
level whose block around it is whole, holding the physical address of the start of the block. -/
def mapSpec (A : Arch) (acc cachable : Nat) (va pa size : Nat) :
    List PtLevel → Nat → Option (PtLevel × Nat)
  | [], _ => none
  | l :: ls, d =>
    if Whole l va size d then
      (mmuMapWord A l.level (paddrAt pa (A.add va (d - (va + d) % l.pageSz)) va) acc cachable).map
        fun w => (l, w)
    else A.mapSpec acc cachable va pa size ls d

/-- The level at which the window records the address at offset `d`. -/
def windowLevel (va size : Nat) : List PtLevel → Nat → Option PtLevel
  | [], _ => none
  | l :: ls, d => if Whole l va size d then some l else windowLevel va size ls d

theorem mapSpec_windowLevel (code cachable va pa size d : Nat) :
    ∀ ls : List PtLevel, A.mapSpec code cachable va pa size ls d =
      (windowLevel va size ls d).bind fun l =>
        (mmuMapWord A l.level (paddrAt pa (A.add va (d - (va + d) % l.pageSz)) va) code
          cachable).map fun w => (l, w) := by
  intro ls
  induction ls with
  | nil => rfl
  | cons l ls ih =>
    simp only [mapSpec, windowLevel]
    split_ifs with hw
    · rfl
    · exact ih

theorem mapSpec_level {code cachable va pa size d w : Nat} {l : PtLevel} {ls : List PtLevel}
    (h : A.mapSpec code cachable va pa size ls d = some (l, w)) :
    windowLevel va size ls d = some l := by
  rw [mapSpec_windowLevel] at h
  obtain ⟨m, hm, h⟩ := Option.bind_eq_some_iff.mp h
  obtain ⟨x, -, h⟩ := Option.map_eq_some_iff.mp h
  rw [hm, (Prod.mk.inj h).1]

theorem two_pow_wordBits_dvd (A : Arch) : 2 ^ A.wordBits ∣ 2 ^ 64 :=
  Nat.pow_dvd_pow 2 (by cases A <;> decide)

theorem add_lt (A : Arch) (x y : Nat) : A.add x y < 2 ^ A.wordBits :=
  Nat.mod_lt _ (Nat.two_pow_pos _)

theorem add_lt_two_pow (A : Arch) (x y : Nat) : A.add x y < 2 ^ 64 :=
  Nat.lt_of_lt_of_le (A.add_lt x y) (Nat.le_of_dvd (Nat.two_pow_pos _) A.two_pow_wordBits_dvd)

theorem add_add (A : Arch) (x y z : Nat) : A.add (A.add x y) z = A.add x (y + z) := by
  unfold add
  rw [Nat.mod_add_mod, Nat.add_assoc]

theorem paddrAt_paddrAt {pa v₀ v₁ v₂ : Nat} (h : v₁ ≤ 2 ^ 64) :
    paddrAt (paddrAt pa v₁ v₀) v₂ v₁ = paddrAt pa v₂ v₀ := by
  unfold paddrAt
  omega

theorem pageSz_dvd_wordBits {l : PtLevel} (hl : l.low ≤ A.vaBits) :
    l.pageSz ∣ 2 ^ A.wordBits :=
  Nat.pow_dvd_pow 2 (hl.trans A.vaBits_le_wordBits)

theorem add_mod {l : PtLevel} (hl : l.low ≤ A.vaBits) (x y : Nat) :
    A.add x y % l.pageSz = (x + y) % l.pageSz :=
  Nat.mod_mod_of_dvd _ (pageSz_dvd_wordBits hl)

theorem childTable_eq_ok {l : PtLevel} {child : Option PtLevel} {c c₁ : Cells} {va : Nat} :
    A.childTable l child c va = .ok c₁ ↔
      A.cellAt c l va = .inv ∧ c₁ = A.newTable c l child va ∨ A.cellAt c l va = .dir ∧ c₁ = c := by
  unfold childTable
  cases A.cellAt c l va <;> simp [eq_comm]

theorem checkOverMap_ne_dir {allow : Bool} {x : Cell} {u : Unit}
    (h : checkOverMap allow x = .ok u) : x ≠ .dir := by
  rintro rfl
  cases h

/-- What a round of `Ptable::map` can do. -/
theorem mapStep_cases {l : PtLevel} {child : Option PtLevel}
    {childMap : Cells → Nat → Nat → Nat → Except Stop Cells} {vaddr paddr acc cachable : Nat}
    {allow : Bool} {c c' : Cells} {va rest len : Nat}
    (h : A.mapStep l child childMap vaddr paddr acc cachable allow c va rest = .ok (c', len)) :
    (va % l.pageSz = 0 ∧ l.pageSz ≤ rest ∧ A.cellAt c l va ≠ .dir ∧ len = l.pageSz ∧
      ∃ w, mmuSetMap A l.level (paddrAt paddr va vaddr) acc cachable = .ok w ∧
        c' = A.storeMap c l va w) ∨
    (¬ (va % l.pageSz = 0 ∧ l.pageSz ≤ rest) ∧ len = min rest (l.pageSz - va % l.pageSz) ∧
      ∃ c₁, A.childTable l child c va = .ok c₁ ∧
        childMap c₁ va (paddrAt paddr va vaddr) len = .ok c') := by
  unfold mapStep at h
  split at h
  · next hw =>
    left
    obtain ⟨u, hu, h⟩ := bind_eq_ok.mp h
    obtain ⟨w, hset, h⟩ := bind_eq_ok.mp h
    obtain ⟨rfl, rfl⟩ := Prod.mk.inj (Except.ok.inj h)
    exact ⟨hw.1, hw.2, checkOverMap_ne_dir hu, rfl, w, hset, rfl⟩
  · next hw =>
    right
    obtain ⟨c₁, hc₁, h⟩ := bind_eq_ok.mp h
    obtain ⟨c₂, hc₂, h⟩ := bind_eq_ok.mp h
    obtain ⟨rfl, rfl⟩ := Prod.mk.inj (Except.ok.inj h)
    exact ⟨hw, rfl, c₁, hc₁, hc₂⟩

/-- The checks of `Ptable::map`, and its loop. -/
theorem mapTb_cons_ok {acc cachable : Nat} {allow : Bool} {l : PtLevel} {ls : List PtLevel}
    {c c' : Cells} {va pa size : Nat}
    (h : A.mapTb acc cachable allow (l :: ls) c va pa size = .ok c') :
    va % pageSz = 0 ∧ pa % pageSz = 0 ∧ size % pageSz = 0 ∧ size ≤ l.aspaceSz ∧ acc < 8 ∧
      cachable < 2 ∧
      rangeLoop A.add .outOfRounds
        (A.mapStep l ls.head? (A.mapTb acc cachable allow ls) va pa acc cachable allow)
        (size / pageSz + 1) c va size = .ok c' := by
  unfold mapTb at h
  simpa only [ensure_bind_eq_ok] using h

section MapSpec

variable {acc cachable va pa size o rest d : Nat}

/-- Inside a block of level `l` that the range does not fill, the range and its part in the block
have the same whole blocks of a deeper level. -/
theorem whole_sub {l m : PtLevel} (hlm : m.low ≤ l.low) (hl : l.low ≤ A.vaBits)
    (hsz : o + rest = size) (ho : o = 0 ∨ (va + o) % l.pageSz = 0)
    (hd : d < min rest (l.pageSz - A.add va o % l.pageSz)) :
    Whole m va size (o + d) ↔
      Whole m (A.add va o) (min rest (l.pageSz - A.add va o % l.pageSz)) d := by
  have hdvd := PtLevel.pageSz_dvd hlm
  have hmpos := m.pageSz_pos
  have hlpos := l.pageSz_pos
  rw [add_mod hl] at hd ⊢
  have hr : (A.add va o + d) % m.pageSz = (va + (o + d)) % m.pageSz := by
    rw [Nat.add_mod, add_mod (hlm.trans hl), ← Nat.add_mod, Nat.add_assoc]
  unfold Whole
  rw [hr]
  set r := (va + (o + d)) % m.pageSz with hrdef
  constructor
  · rintro ⟨h1, h2⟩
    have hrd : r ≤ d := by
      rcases ho with rfl | ho
      · omega
      · have hmo : (va + o) % m.pageSz = 0 :=
          Nat.mod_eq_zero_of_dvd (hdvd.trans (Nat.dvd_of_mod_eq_zero ho))
        have : r = d % m.pageSz := by
          rw [hrdef, ← Nat.add_assoc, Nat.add_mod, hmo, Nat.zero_add, Nat.mod_mod]
        rw [this]
        exact Nat.mod_le _ _
    refine ⟨hrd, ?_⟩
    -- the end of the block of level `l` is a boundary of level `m`
    obtain ⟨q, hq⟩ : m.pageSz ∣ va + o + (l.pageSz - (va + o) % l.pageSz) := by
      apply hdvd.trans
      have hlt := Nat.mod_lt (va + o) hlpos
      have hda := Nat.div_add_mod (va + o) l.pageSz
      refine ⟨(va + o) / l.pageSz + 1, ?_⟩
      rw [Nat.mul_add, Nat.mul_one]
      omega
    obtain ⟨k, hk⟩ : m.pageSz ∣ va + (o + d) - r := Nat.dvd_sub_mod _
    have hkq : k < q := by
      by_contra hle
      have := Nat.mul_le_mul_left m.pageSz (Nat.le_of_not_lt hle)
      have hrle := Nat.mod_le (va + (o + d)) m.pageSz
      omega
    have := Nat.mul_le_mul_left m.pageSz hkq
    rw [Nat.mul_succ] at this
    have hrle := Nat.mod_le (va + (o + d)) m.pageSz
    omega
  · rintro ⟨h1, h2⟩
    omega

/-- The part of the range in a block that it does not fill is recorded in the child table, as a
range of its own. -/
theorem mapSpec_sub {l : PtLevel} (hl : l.low ≤ A.vaBits) (hsz : o + rest = size)
    (ho : o = 0 ∨ (va + o) % l.pageSz = 0)
    (hd : d < min rest (l.pageSz - A.add va o % l.pageSz)) :
    ∀ ls : List PtLevel, (∀ m ∈ ls, m.low ≤ l.low) →
      A.mapSpec acc cachable va pa size ls (o + d) =
        A.mapSpec acc cachable (A.add va o) (paddrAt pa (A.add va o) va)
          (min rest (l.pageSz - A.add va o % l.pageSz)) ls d := by
  intro ls
  induction ls with
  | nil => intro _; rfl
  | cons m ls ih =>
    intro hls
    have hm : m.low ≤ l.low := hls m List.mem_cons_self
    have hwhole := whole_sub hm hl hsz ho hd
    have htail := ih fun n hn => hls n (List.mem_cons_of_mem m hn)
    simp only [mapSpec]
    by_cases hw : Whole m va size (o + d)
    · have hw' := hwhole.mp hw
      have hr : (A.add va o + d) % m.pageSz = (va + (o + d)) % m.pageSz := by
        rw [Nat.add_mod, add_mod (hm.trans hl), ← Nat.add_mod, Nat.add_assoc]
      have hle : (va + (o + d)) % m.pageSz ≤ d := hr ▸ hw'.1
      rw [if_pos hw, if_pos hw', hr, add_add, paddrAt_paddrAt (A.add_lt_two_pow va o).le,
        show o + (d - (va + (o + d)) % m.pageSz) = o + d - (va + (o + d)) % m.pageSz by omega]
    · rw [if_neg hw, if_neg (fun h => hw (hwhole.mpr h)), htail]

/-- In a block of level `l` that the range does not fill nothing is recorded at level `l`. -/
theorem not_whole_sub {l : PtLevel} (hl : l.low ≤ A.vaBits) (hsz : o + rest = size)
    (ho : o = 0 ∨ (va + o) % l.pageSz = 0)
    (hnw : ¬ (A.add va o % l.pageSz = 0 ∧ l.pageSz ≤ rest))
    (hd : d < min rest (l.pageSz - A.add va o % l.pageSz)) : ¬ Whole l va size (o + d) := by
  rw [add_mod hl] at hd hnw
  have hlt := Nat.mod_lt (va + o) l.pageSz_pos
  have hsum : (va + (o + d)) % l.pageSz = (va + o) % l.pageSz + d := by
    rw [← Nat.add_assoc, Nat.add_mod, Nat.mod_eq_of_lt (a := d) (by omega),
      Nat.mod_eq_of_lt (by omega)]
  unfold Whole
  rw [hsum]
  rintro ⟨h1, h2⟩
  apply hnw
  rcases ho with rfl | ho <;> omega

/-- A block that the range fills is recorded at its own level. -/
theorem mapSpec_whole {l : PtLevel} {ls : List PtLevel} (hl : l.low ≤ A.vaBits)
    (hsz : o + rest = size) (hal : A.add va o % l.pageSz = 0) (hle : l.pageSz ≤ rest)
    (hd : d < l.pageSz) :
    A.mapSpec acc cachable va pa size (l :: ls) (o + d) =
      (mmuMapWord A l.level (paddrAt pa (A.add va o) va) acc cachable).map fun w => (l, w) := by
  rw [add_mod hl] at hal
  have hsum : (va + (o + d)) % l.pageSz = d := by
    rw [← Nat.add_assoc, Nat.add_mod, hal, Nat.zero_add, Nat.mod_mod, Nat.mod_eq_of_lt hd]
  have hw : Whole l va size (o + d) := by
    unfold Whole
    rw [hsum]
    omega
  simp only [mapSpec]
  rw [if_pos hw, hsum, Nat.add_sub_cancel]

end MapSpec

/-- Recording a whole block is a write of the block. -/
theorem writes_storeMap {acc cachable pa cur : Nat} {l : PtLevel} {ls : List PtLevel} {c : Cells}
    {w : Option Nat} (hc : PtChain A.vaBits (l :: ls)) (hal : cur % l.pageSz = 0)
    (hdir : A.cellAt c l cur ≠ .dir) (hset : mmuSetMap A l.level pa acc cachable = .ok w) :
    A.Writes (l :: ls) cur l.pageSz
      (fun _ => (mmuMapWord A l.level pa acc cachable).map fun w => (l, w)) c
      (A.storeMap c l cur w) := by
  have hl : l.low ≤ A.vaBits := (hc.low_le_hi.trans hc.hi_lt.le)
  obtain rfl := mmuSetMap_word hset
  constructor
  · intro d hd
    have hk : A.key l (cur + d) = A.key l cur := key_add hl (by omega)
    cases hw : mmuMapWord A l.level pa acc cachable with
    | none =>
      -- no map records on this level: the block was and stays unmapped
      have hcell := cellAt_of_noMap (mmuMapWord_eq_none_iff.mp hw) hdir
      simp [storeMap, lookup, cellAt_congr hk, hcell]
    | some w =>
      have hm : mmuHasMap A l.level = true := by
        by_contra hm
        rw [mmuMapWord_eq_none_iff.mpr (by simpa using hm)] at hw
        cases hw
      simp [storeMap, lookup, cellAt_setCell_self hk hm]
  · intro v hv
    cases mmuMapWord A l.level pa acc cachable with
    | none => rfl
    | some w =>
      apply lookup_of_cells
      intro m hm
      apply cellAt_setCell_ne
      rcases List.mem_cons.mp hm with rfl | hm
      · exact .inr fun hk => hv (touch_block hl hal hk)
      · exact .inl (hc.lt_of_mem hm).1.ne'

/-- The traversal has left the records of other levels alone. -/
def SameLevels (ls : List PtLevel) (c c' : Cells) : Prop :=
  ∀ n, (∀ l ∈ ls, l.level ≠ n) → c' n = c n

theorem childTable_sameLevels {l : PtLevel} {ls : List PtLevel} {c c₁ : Cells} {va : Nat}
    (h : A.childTable l ls.head? c va = .ok c₁) : SameLevels (l :: ls) c c₁ := by
  intro n hn
  rcases childTable_eq_ok.mp h with ⟨-, rfl⟩ | ⟨-, rfl⟩
  · funext k
    unfold newTable
    rw [if_neg (fun h => hn l List.mem_cons_self h.1.symm)]
    cases ls with
    | nil => rfl
    | cons m ls =>
      simp only [List.head?_cons]
      rw [if_neg (fun h => hn m (List.mem_cons_of_mem l List.mem_cons_self) h.1.symm)]
  · rfl

/-- With the child table in place the translation is the old one, and the record at `va` is a
directory. -/
theorem childTable_lookup {l : PtLevel} {ls : List PtLevel} {c c₁ : Cells} {va : Nat}
    (hc : PtChain A.vaBits (l :: ls)) (h : A.childTable l ls.head? c va = .ok c₁) :
    A.cellAt c₁ l va = .dir ∧ ∀ v, A.lookup (l :: ls) c₁ v = A.lookup (l :: ls) c v := by
  rcases childTable_eq_ok.mp h with ⟨hinv, rfl⟩ | ⟨hdir, rfl⟩
  · exact ⟨cellAt_newTable_self rfl, lookup_newTable hc hinv⟩
  · exact ⟨hdir, fun _ => rfl⟩

/-- A write below the directory record at `cur`, inside its block, is a write of the table. -/
theorem Writes.of_child {l : PtLevel} {ls : List PtLevel} {c c' : Cells} {cur len : Nat}
    {F : Nat → Option (PtLevel × Nat)} (hl : l.low ≤ A.vaBits)
    (hdir : A.cellAt c l cur = .dir) (hlen : len ≤ l.pageSz - cur % l.pageSz)
    (hlev : c' l.level = c l.level) (hw : A.Writes ls cur len F c c') :
    A.Writes (l :: ls) cur len F c c' := by
  constructor
  · intro d hd
    have hk : A.key l (cur + d) = A.key l cur := key_add hl (by omega)
    have hdir' : A.cellAt c' l (cur + d) = .dir := by
      rw [cellAt_congr hk, cellAt_of_level hlev, hdir]
    rw [lookup_cons_of_dir hdir', hw.inside d hd]
  · intro v hv
    simp only [lookup, cellAt_of_level hlev, hw.outside v hv]

/-- **`Ptable::map` writes its range.** -/
theorem mapTb_spec {acc cachable : Nat} {allow : Bool} :
    ∀ {ls : List PtLevel} {c c' : Cells} {va pa size : Nat}, PtChain A.vaBits ls →
      va < 2 ^ A.wordBits → A.mapTb acc cachable allow ls c va pa size = .ok c' →
      SameLevels ls c c' ∧
        A.Writes ls va size (A.mapSpec acc cachable va pa size ls) c c' := by
  intro ls
  induction ls with
  | nil => intro c c' va pa size _ _ h; cases h
  | cons l ls ih =>
    intro c c' va pa size hc hva h
    obtain ⟨-, -, -, hsz, -, -, hloop⟩ := mapTb_cons_ok h
    have hl : l.low ≤ A.vaBits := hc.low_le_hi.trans hc.hi_lt.le
    have hsz' : size ≤ 2 ^ A.vaBits :=
      hsz.trans (Nat.pow_le_pow_right Nat.two_pos hc.hi_lt)
    -- after `o` bytes: the first `o` bytes are written, and a block starts here
    let Inv : Cells → Nat → Nat → Prop := fun s cur rest =>
      ∃ o, o + rest = size ∧ cur = A.add va o ∧
        (o = 0 ∨ (va + o) % l.pageSz = 0 ∨ rest = 0) ∧ SameLevels (l :: ls) c s ∧
        A.Writes (l :: ls) va o (A.mapSpec acc cachable va pa size (l :: ls)) c s
    have hstep : ∀ s cur rest s' len, Inv s cur rest → rest ≠ 0 →
        A.mapStep l ls.head? (A.mapTb acc cachable allow ls) va pa acc cachable allow s cur rest =
          .ok (s', len) → Inv s' (A.add cur len) (rest - len) := by
      rintro s cur rest s' len ⟨o, ho, rfl, hbound, hlev, hw⟩ hrest hs
      have hbound' : o = 0 ∨ (va + o) % l.pageSz = 0 := by tauto
      have hcur : A.canon (va + o) = A.canon (A.add va o) := (A.canon_add va o).symm
      rcases mapStep_cases hs with ⟨hal, hle, hdir, rfl, w, hset, rfl⟩ |
        ⟨hnw, rfl, c₁, hc₁, hchild⟩
      · -- a whole block is recorded here
        refine ⟨o + l.pageSz, by omega, by rw [add_add], .inr (.inl ?_), ?_, ?_⟩
        · rw [add_mod hl] at hal
          rw [← Nat.add_assoc, Nat.add_mod_right, hal]
        · intro n hn
          have hne : n ≠ l.level := fun h => hn l List.mem_cons_self h.symm
          rw [← hlev n hn]
          cases w with
          | none => rfl
          | some w =>
            funext k
            exact if_neg fun h => hne h.1
        · have hblock := (writes_storeMap hc hal hdir hset).congr_start hcur.symm
          refine hw.append (by omega) (hblock.congr_fun ?_)
          intro d hd
          rw [mapSpec_whole hl ho hal hle hd]
      · -- the part of this block that is in the range goes to the child table
        set len := min rest (l.pageSz - A.add va o % l.pageSz) with hlendef
        have hlen : len ≤ l.pageSz - A.add va o % l.pageSz := Nat.min_le_right _ _
        have hlt := Nat.mod_lt (A.add va o) l.pageSz_pos
        obtain ⟨hdir, hsame⟩ := childTable_lookup hc hc₁
        obtain ⟨hlev₁, hw₁⟩ := ih hc.tail (A.add_lt va o) hchild
        have hlevl : s' l.level = c₁ l.level :=
          hlev₁ l.level fun m hm => (hc.lt_of_mem hm).1.ne'
        have hchunk := (hw₁.of_child hl hdir hlen hlevl).congr_start hcur.symm
        refine ⟨o + len, by omega, by rw [add_add], ?_, ?_, ?_⟩
        · -- either the range or the block ends
          by_cases hfin : rest ≤ l.pageSz - A.add va o % l.pageSz
          · exact .inr (.inr (by omega))
          · refine .inr (.inl ?_)
            rw [add_mod hl] at hlt hfin hlendef
            have hda := Nat.div_add_mod (va + o) l.pageSz
            rw [show va + (o + len) = l.pageSz * ((va + o) / l.pageSz + 1) by
              rw [Nat.mul_add, Nat.mul_one]; omega]
            exact Nat.mul_mod_right _ _
        · intro n hn
          rw [hlev₁ n fun m hm => hn m (List.mem_cons_of_mem l hm),
            childTable_sameLevels hc₁ n hn, hlev n hn]
        · refine hw.append (by omega) ⟨?_, ?_⟩
          · intro d hd
            rw [hchunk.inside d hd]
            simp only [mapSpec]
            rw [if_neg (not_whole_sub hl ho hbound' hnw hd),
              mapSpec_sub hl ho hbound' hd ls fun m hm => (hc.lt_of_mem hm).2.le]
          · intro v hv
            rw [hchunk.outside v hv, hsame v]
    have hinit : Inv c va size :=
      ⟨0, by omega, by rw [add, Nat.add_zero, Nat.mod_eq_of_lt hva], .inl rfl, fun _ _ => rfl,
        Writes.zero⟩
    obtain ⟨cur, o, ho, -, -, hlev, hw⟩ := rangeLoop_invariant hstep hinit hloop
    obtain rfl : o = size := by omega
    exact ⟨hlev, hw⟩

end Arch

end Wrmos
