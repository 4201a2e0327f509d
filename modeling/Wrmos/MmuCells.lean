import Wrmos.PtableReadBack

/-!
# What the records of the page tables are, and where they point

`mmu_set_map` and `mmu_set_dir` store one word, and `mmu_is_map`, `mmu_is_dir`, `mmu_get_map_pa` and
`mmu_get_dir_pa` read it again.  A record that was stored is always of the right kind.  Its address is not
always read back: sparc shifts a machine word and loses what is above 4 GB, arm and x86 shift an `int` and
fill the upper half with its sign, so does the lower part of a 2 MB record of x86-64, and a 1 GB record of
x86-64 holds the address at the wrong place.  `records_kept_iff` has for every kind of record the addresses
that survive.
-/

namespace Wrmos

open Lib (bits ensure)

/-! ## The code -/

/-- The width of a physical address.  `Paddr_width` of x86 is 32, and its 4 MB records have room for four
bits more. -/
def Arch.physBits : Arch → Nat
  | .sparc => 36
  | .arm => 32
  | .x86 => 36
  | .x86_64 => 52

/-- The levels with directory records; level 0 of sparc is the context table. -/
def mmuHasDir : Arch → Nat → Bool
  | .sparc, level => level ≤ 2
  | .arm, level | .x86, level => level == 1
  | .x86_64, level => level == 1 || level == 2 || level == 3

/-- The bytes of the table that a directory record points to. -/
def mmuTableBytes : Arch → Nat → Nat
  | .sparc, level => if level = 0 then 0x400 else 0x100
  | .arm, _ => 0x400
  | _, _ => 0x1000

/-- `mmu_set_dir`: the checks, then the word to store. -/
def mmuSetDir : Arch → Nat → Nat → Except Stop (Option Nat)
  | .sparc, level, tb => do
    ensure (level = 0 ∧ tb % 0x400 = 0 ∨ level = 1 ∧ tb % 0x100 = 0 ∨ level = 2 ∧ tb % 0x100 = 0)
      (.assertion "mmu_isalign(tb, L1_bytes)")
    .ok (some (tb / 2 ^ 4 / 4 * 4 % 2 ^ 32 + 1))
  | .arm, level, tb => do
    ensure (level = 1 ∧ tb % 0x400 = 0) (.assertion "level == 1  &&  mmu_isalign(tb, L2_bytes)")
    .ok (some (tb / 2 ^ 10 % 2 ^ 22 * 2 ^ 10 + 1))
  | .x86, level, tb => do
    ensure (level = 1 ∨ tb % 0x1000 = 0) (.assertion "level == 1  ||  mmu_isalign(tb, L2_bytes)")
    if level = 1 then
      ensure (tb % 0x1000 = 0) (.assertion "mmu_isalign(tb, 0x1000)")
      .ok (some (tb / 2 ^ 12 % 2 ^ 20 * 2 ^ 12 + 7))
    else .ok none
  | .x86_64, level, tb => do
    ensure (level = 1 ∨ level = 2 ∨ level = 3 ∨ tb % 0x1000 = 0)
      (.assertion "level == 1  ||  mmu_isalign(tb, L2_bytes)")
    if level = 1 ∨ level = 2 ∨ level = 3 then
      ensure (tb % 0x1000 = 0) (.assertion "mmu_isalign(tb, 0x1000)")
      .ok (some (tb / 2 ^ 12 % 2 ^ 40 * 2 ^ 12 + 7))
    else .ok none

/-- `mmu_get_dir_pa`: the `addr` fields of arm and x86 are narrower than `int`. -/
def mmuGetDirPa : Arch → Nat → Nat → Except Stop Nat
  | .sparc, _, w => do
    ensure (bits w 0 2 = 1) (.assertion "(*cell & Et_mask) == Et_ptd")
    .ok (w / 4 * 4 * 2 ^ 4 % 2 ^ 32)
  | .arm, level, w => do
    ensure (level = 1) (.assertion "level == 1")
    ensure (bits w 0 2 = 1) (.assertion "(*cell & Et_mask) == Et_l1_dir")
    .ok (sext32 (bits w 10 22 * 2 ^ 10))
  | .x86, level, w => do
    ensure (level = 1 ∧ bits w 7 1 = 0) (.assertion "level == 1  &&  !((PDT_dir_t*)cell)->is_map")
    .ok (sext32 (bits w 12 20 * 2 ^ 12))
  | .x86_64, level, w => do
    ensure (level = 1 ∨ (level = 2 ∨ level = 3) ∧ bits w 7 1 = 0)
      (.assertion "!((PDT_dir_t*)cell)->is_map")
    .ok (bits w 12 40 * 2 ^ 12)

/-- `mmu_is_map`. -/
def mmuIsMap : Arch → Nat → Nat → Bool
  | .sparc, _, w => bits w 0 2 == 2
  | .arm, level, w => (level == 1 || level == 2) && bits w 0 2 == 2
  | .x86, level, w =>
    if level = 1 then bits w 0 1 == 1 && bits w 7 1 == 1 else level == 2 && bits w 0 1 == 1
  | .x86_64, level, w =>
    if level = 2 ∨ level = 3 then bits w 0 1 == 1 && bits w 7 1 == 1 else level == 4 && bits w 0 1 == 1

/-- `mmu_is_dir`. -/
def mmuIsDir : Arch → Nat → Nat → Bool
  | .sparc, _, w => bits w 0 2 == 1
  | .arm, level, w => level == 1 && bits w 0 2 == 1
  | .x86, level, w => level == 1 && (bits w 0 1 == 1 && bits w 7 1 == 0)
  | .x86_64, level, w =>
    if level = 2 ∨ level = 3 then bits w 0 1 == 1 && bits w 7 1 == 0 else level == 1 && bits w 0 1 == 1

/-- `mmu_is_inv`. -/
def mmuIsInv : Arch → Nat → Nat → Bool
  | .sparc, _, w => bits w 0 2 == 0
  | .arm, level, w => (level == 1 || level == 2) && bits w 0 2 == 0
  | .x86, level, w => (level == 1 || level == 2) && bits w 0 1 == 0
  | .x86_64, level, w => (level == 1 || level == 2 || level == 3 || level == 4) && bits w 0 1 == 0

/-! ## What a record keeps -/

/-- After `mmu_set_map` the cell is a map record, and nothing else, with the address. -/
def MapKept (A : Arch) (level pa acc cachable : Nat) : Prop :=
  ∃ w, mmuSetMap A level pa acc cachable = .ok (some w) ∧
    (mmuIsMap A level w = true ∧ mmuIsDir A level w = false ∧ mmuIsInv A level w = false) ∧
    mmuGetMapPa A level w = pa

/-- After `mmu_set_dir` the cell is a directory record, and nothing else, with the address of the table. -/
def DirKept (A : Arch) (level tb : Nat) : Prop :=
  ∃ w, mmuSetDir A level tb = .ok (some w) ∧
    (mmuIsDir A level w = true ∧ mmuIsMap A level w = false ∧ mmuIsInv A level w = false) ∧
    mmuGetDirPa A level w = .ok tb

/-- The addresses of pages that a record keeps. -/
def MapFits : Arch → Nat → Nat → Prop
  | .sparc, _, pa => pa < 2 ^ 32
  | .arm, _, pa => pa < 2 ^ 31
  | .x86, level, pa => if level = 1 then pa / 2 ^ 31 % 2 = 0 else pa < 2 ^ 31
  | .x86_64, level, pa => if level = 2 then pa = 0 else if level = 3 then pa / 2 ^ 31 % 2 = 0 else True

/-- The addresses of tables that a record keeps. -/
def DirFits : Arch → Nat → Prop
  | .sparc, tb => tb < 2 ^ 32
  | .arm, tb | .x86, tb => tb < 2 ^ 31
  | .x86_64, _ => True

section Kept

variable {A : Arch} {level pa tb acc cachable w : Nat}

/-! ## The kinds of the records -/

/-- A map record is of the right kind. -/
theorem mmuMapWord_kind {l : PtLevel} (hl : l ∈ A.levels) (hacc : acc ≤ mmuAccMax A) (hc : cachable ≤ 1)
    (hw : mmuMapWord A l.level pa acc cachable = some w) :
    mmuIsMap A l.level w = true ∧ mmuIsDir A l.level w = false ∧ mmuIsInv A l.level w = false := by
  cases A <;> simp only [mmuAccMax] at hacc <;>
    simp only [Arch.levels, List.mem_cons, List.not_mem_nil, or_false] at hl
  case sparc =>
    simp only [mmuMapWord, Option.some.injEq] at hw
    simp only [mmuIsMap, mmuIsDir, mmuIsInv, bits, beq_iff_eq, beq_eq_false_iff_ne]
    omega
  case arm =>
    rcases hl with rfl | rfl <;> simp only [mmuMapWord] at hw <;>
      simp [mmuIsMap, mmuIsDir, mmuIsInv, bits] at hw ⊢ <;> omega
  case x86 =>
    rcases hl with rfl | rfl <;> simp only [mmuMapWord] at hw <;>
      simp [mmuIsMap, mmuIsDir, mmuIsInv, bits] at hw ⊢ <;> omega
  case x86_64 =>
    rcases hl with rfl | rfl | rfl | rfl <;> simp [mmuMapWord] at hw <;>
      simp [mmuIsMap, mmuIsDir, mmuIsInv, bits] <;> omega

/-- The alignment to the page of a level includes the one that `mmu_set_map` asks for. -/
theorem mmuMapAlign_dvd {l : PtLevel} (hl : l ∈ A.levels) :
    mmuMapAlign A l.level ∣ l.pageSz := by
  cases A <;> simp only [Arch.levels, List.mem_cons, List.not_mem_nil, or_false] at hl
  case sparc => rcases hl with rfl | rfl | rfl <;> decide
  case arm => rcases hl with rfl | rfl <;> decide
  case x86 => rcases hl with rfl | rfl <;> decide
  case x86_64 => rcases hl with rfl | rfl | rfl | rfl <;> decide

/-! ## The addresses of the records -/

/-- The address of a page is read back when the record keeps it. -/
theorem mmuReadField_iff {l : PtLevel} (hl : l ∈ A.levels) (hmap : mmuHasMap A l.level = true)
    (hal : pa % l.pageSz = 0) (hpa : pa < 2 ^ A.physBits) :
    mmuReadField A l.level (mmuHeldAddr A l.level pa) = pa ↔ MapFits A l.level pa := by
  cases A <;> simp only [Arch.levels, List.mem_cons, List.not_mem_nil, or_false] at hl <;>
    simp only [Arch.physBits] at hpa
  case sparc =>
    simp only [mmuReadField, mmuHeldAddr, MapFits]
    rcases hl with rfl | rfl | rfl <;> simp only [PtLevel.pageSz] at hal <;> omega
  case arm =>
    rcases hl with rfl | rfl <;>
      simp [PtLevel.pageSz, mmuReadField, mmuHeldAddr, MapFits, sext32] at hal ⊢ <;>
      split_ifs <;> omega
  case x86 =>
    rcases hl with rfl | rfl <;>
      simp [PtLevel.pageSz, mmuReadField, mmuHeldAddr, MapFits, sext32, orHigh] at hal ⊢ <;>
      split_ifs <;> omega
  case x86_64 =>
    rcases hl with rfl | rfl | rfl | rfl
    · cases hmap
    · simp [PtLevel.pageSz, mmuReadField, mmuHeldAddr, MapFits, sext32] at hal ⊢
      split_ifs <;> omega
    · simp [PtLevel.pageSz, mmuReadField, mmuHeldAddr, MapFits, sext32, orHigh] at hal ⊢
      split_ifs <;> omega
    · simp [PtLevel.pageSz, mmuReadField, mmuHeldAddr, MapFits] at hal ⊢
      omega

/-- **Map records**: the record keeps an address exactly when it fits. -/
theorem mapKept_iff {l : PtLevel} (hl : l ∈ A.levels) (hmap : mmuHasMap A l.level = true)
    (hal : pa % l.pageSz = 0) (hpa : pa < 2 ^ A.physBits) (hacc : acc ≤ mmuAccMax A) (hc : cachable ≤ 1) :
    MapKept A l.level pa acc cachable ↔ MapFits A l.level pa := by
  have hset : mmuSetMap A l.level pa acc cachable = .ok (mmuMapWord A l.level pa acc cachable) :=
    mmuSetMap_eq_ok.mpr (.inl ⟨hmap, Nat.mod_eq_zero_of_dvd
      ((mmuMapAlign_dvd hl).trans (Nat.dvd_of_mod_eq_zero hal)), hacc, hc, rfl⟩)
  obtain ⟨w, hw⟩ : ∃ w, mmuMapWord A l.level pa acc cachable = some w := by
    refine Option.ne_none_iff_exists'.mp fun hnone => ?_
    rw [mmuMapWord_eq_none_iff.mp hnone] at hmap
    cases hmap
  rw [hw] at hset
  rw [← mmuReadField_iff hl hmap hal hpa, ← (mmuGetMapPa_setMap hset).2]
  constructor
  · rintro ⟨w', hw', -, hget⟩
    obtain rfl := Option.some.inj (Except.ok.inj (hset.symm.trans hw'))
    exact hget
  · exact fun hget => ⟨w, hset, mmuMapWord_kind hl hacc hc hw, hget⟩

/-- What a directory record that was stored keeps. -/
theorem dirKept_of_set {level : Nat} (h : mmuSetDir A level tb = .ok (some w)) : DirKept A level tb ↔
    (mmuIsDir A level w = true ∧ mmuIsMap A level w = false ∧ mmuIsInv A level w = false) ∧
      mmuGetDirPa A level w = .ok tb := by
  constructor
  · rintro ⟨w', hw', hkept⟩
    obtain rfl := Option.some.inj (Except.ok.inj (h.symm.trans hw'))
    exact hkept
  · exact fun hkept => ⟨w, h, hkept⟩

/-- **Directory records**: the record keeps the address of a table exactly when it fits. -/
theorem dirKept_iff {level : Nat} (hdir : mmuHasDir A level = true) (hal : tb % mmuTableBytes A level = 0)
    (htb : tb < 2 ^ A.physBits) : DirKept A level tb ↔ DirFits A tb := by
  cases A <;> simp only [mmuHasDir, decide_eq_true_eq, beq_iff_eq, Bool.or_eq_true] at hdir <;>
    simp only [mmuTableBytes] at hal <;> simp only [Arch.physBits] at htb
  case sparc =>
    have hset : mmuSetDir .sparc level tb = .ok (some (tb / 2 ^ 4 / 4 * 4 % 2 ^ 32 + 1)) := by
      refine Lib.ensure_bind_eq_ok.mpr ⟨?_, rfl⟩
      split_ifs at hal <;> omega
    have hal' : tb % 2 ^ 8 = 0 := by split_ifs at hal <;> omega
    have hget : mmuGetDirPa .sparc level (tb / 2 ^ 4 / 4 * 4 % 2 ^ 32 + 1) = .ok (tb % 2 ^ 32) := by
      refine Lib.ensure_bind_eq_ok.mpr ⟨?_, congrArg Except.ok ?_⟩
      · simp only [bits]
        omega
      · omega
    rw [dirKept_of_set hset, hget]
    simp only [mmuIsDir, mmuIsMap, mmuIsInv, bits, DirFits, Except.ok.injEq, beq_iff_eq,
      beq_eq_false_iff_ne]
    omega
  case arm =>
    subst hdir
    have hset : mmuSetDir .arm 1 tb = .ok (some (tb / 2 ^ 10 % 2 ^ 22 * 2 ^ 10 + 1)) :=
      Lib.ensure_bind_eq_ok.mpr ⟨⟨rfl, hal⟩, rfl⟩
    have hget : mmuGetDirPa .arm 1 (tb / 2 ^ 10 % 2 ^ 22 * 2 ^ 10 + 1) = .ok (sext32 tb) := by
      refine Lib.ensure_bind_eq_ok.mpr ⟨rfl, Lib.ensure_bind_eq_ok.mpr ⟨?_, congrArg (Except.ok ∘ sext32) ?_⟩⟩
      all_goals
        simp only [bits]
        omega
    have hkind : mmuIsDir .arm 1 (tb / 2 ^ 10 % 2 ^ 22 * 2 ^ 10 + 1) = true ∧
        mmuIsMap .arm 1 (tb / 2 ^ 10 % 2 ^ 22 * 2 ^ 10 + 1) = false ∧
        mmuIsInv .arm 1 (tb / 2 ^ 10 % 2 ^ 22 * 2 ^ 10 + 1) = false := by
      simp [mmuIsDir, mmuIsMap, mmuIsInv, bits]
      omega
    rw [dirKept_of_set hset, hget, and_iff_right hkind, Except.ok.injEq]
    simp only [DirFits, sext32]
    split_ifs <;> omega
  case x86 =>
    subst hdir
    have hset : mmuSetDir .x86 1 tb = .ok (some (tb / 2 ^ 12 % 2 ^ 20 * 2 ^ 12 + 7)) :=
      Lib.ensure_bind_eq_ok.mpr ⟨.inl rfl, (if_pos rfl).trans (Lib.ensure_bind_eq_ok.mpr ⟨hal, rfl⟩)⟩
    have hget : mmuGetDirPa .x86 1 (tb / 2 ^ 12 % 2 ^ 20 * 2 ^ 12 + 7) = .ok (sext32 (tb % 2 ^ 32)) := by
      refine Lib.ensure_bind_eq_ok.mpr ⟨⟨rfl, ?_⟩, congrArg (Except.ok ∘ sext32) ?_⟩
      all_goals
        simp only [bits]
        omega
    have hkind : mmuIsDir .x86 1 (tb / 2 ^ 12 % 2 ^ 20 * 2 ^ 12 + 7) = true ∧
        mmuIsMap .x86 1 (tb / 2 ^ 12 % 2 ^ 20 * 2 ^ 12 + 7) = false ∧
        mmuIsInv .x86 1 (tb / 2 ^ 12 % 2 ^ 20 * 2 ^ 12 + 7) = false := by
      simp [mmuIsDir, mmuIsMap, mmuIsInv, bits]
      omega
    rw [dirKept_of_set hset, hget, and_iff_right hkind, Except.ok.injEq]
    simp only [DirFits, sext32]
    split_ifs <;> omega
  case x86_64 =>
    have hset : mmuSetDir .x86_64 level tb = .ok (some (tb / 2 ^ 12 % 2 ^ 40 * 2 ^ 12 + 7)) := by
      refine Lib.ensure_bind_eq_ok.mpr ⟨by omega, ?_⟩
      rw [if_pos (by omega)]
      exact Lib.ensure_bind_eq_ok.mpr ⟨hal, rfl⟩
    rw [dirKept_of_set hset]
    rcases hdir with (rfl | rfl) | rfl <;>
      simp [mmuIsDir, mmuIsMap, mmuIsInv, mmuGetDirPa, bits, DirFits, Lib.ensure_bind_eq_ok] <;> omega

/-- **The records of the page tables.**  A record that is stored in a table is of the right kind and gives
the address of its page or its table back, exactly when the address fits. -/
theorem records_kept_iff (A : Arch) :
    (∀ l ∈ A.levels, mmuHasMap A l.level = true → ∀ pa acc cachable, pa % l.pageSz = 0 →
      pa < 2 ^ A.physBits → acc ≤ mmuAccMax A → cachable ≤ 1 →
        (MapKept A l.level pa acc cachable ↔ MapFits A l.level pa)) ∧
    ∀ level, mmuHasDir A level = true → ∀ tb, tb % mmuTableBytes A level = 0 → tb < 2 ^ A.physBits →
      (DirKept A level tb ↔ DirFits A tb) :=
  ⟨fun _ hl hmap _ _ _ hal hpa hacc hc => mapKept_iff hl hmap hal hpa hacc hc,
    fun _ hdir _ hal htb => dirKept_iff hdir hal htb⟩

/-- A page at 1 GB on x86-64. -/
theorem lowPage_kept : MapKept .x86_64 3 0x40000000 3 1 ∧ DirKept .x86_64 3 0x1000 :=
  ⟨((records_kept_iff .x86_64).1 ⟨3, 29, 21⟩ (by decide) rfl 0x40000000 3 1 (by decide) (by decide)
      (by decide) (by decide)).mpr (by simp [MapFits]),
    ((records_kept_iff .x86_64).2 3 rfl 0x1000 (by decide) (by decide)).mpr trivial⟩

/-- A page at 2 GB is read back with a sign. -/
theorem highPage_not_kept : (∃ w, mmuSetMap .x86_64 3 0x80000000 3 1 = .ok (some w) ∧
    mmuGetMapPa .x86_64 3 w = 0xffffffff80000000) ∧ ¬MapKept .x86_64 3 0x80000000 3 1 := by
  have hset : mmuSetMap .x86_64 3 0x80000000 3 1 = .ok (some 0x80000087) := rfl
  refine ⟨⟨_, hset, by decide⟩, ?_⟩
  rintro ⟨w, hw, -, hget⟩
  obtain rfl := Option.some.inj (Except.ok.inj (hset.symm.trans hw))
  exact absurd hget (by decide)

end Kept

end Wrmos
