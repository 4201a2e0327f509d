import Wrmos.Arch
import Wrmos.Lib.Bits
import Mathlib.Tactic.SplitIfs

/-!
# Map records of the page tables

`lib/mmu` packs a physical address, an access code and the cache attribute into one word per
record.  The layouts are bit-field structures; a field of width `n` at bit `lo` is written here as
`value % 2 ^ n * 2 ^ lo` and read as `bits w lo n`.

Three readings of a record are kept apart.

* `mmuGetMapPa` is what the kernel reads back.  The `addr` fields of the arm and x86 structures are
  narrower than `int`, so `addr << 12` is computed in `int` and the result is sign-extended to the
  64 bits of `paddr_t`.
* `mmuFrame` is what the hardware translates to: the address field, rounded down to the size of the
  page the record stands for.
* `mmuGetAcc` is the access code, and `mmuUserAcc` the user rights the hardware derives from it.

The record for 1 GB pages stores `pa >> 21` in a field that starts at bit 30
(`PDPT_map_t::set`), and the root table of x86-64 has no map records at all: `mmu_set_map` leaves
the cell of level 1 as it is.
-/

namespace Wrmos

open Lib (bits bits_pack)

/-- A 32-bit value converted from `int` to a 64-bit unsigned type. -/
def sext32 (x : Nat) : Nat := if x < 2 ^ 31 then x else x + (2 ^ 64 - 2 ^ 32)

/-- `((paddr_t)hi << 32) | lo` where `lo` is an `int`. -/
def orHigh (hi lo : Nat) : Nat := if lo < 2 ^ 31 then hi * 2 ^ 32 + lo else sext32 lo

/-! ## Access rights -/

namespace Acc

/-- `kacc_t`: kernel and user read, write and execute, one bit each. -/
def kr : Nat := 32
def kw : Nat := 16
def kx : Nat := 8
def ur : Nat := 4
def uw : Nat := 2
def ux : Nat := 1
def krx : Nat := kr ||| kx
def krw : Nat := kr ||| kw
def krwx : Nat := kr ||| kw ||| kx
def urx : Nat := ur ||| ux
def urw : Nat := ur ||| uw
def urwx : Nat := ur ||| uw ||| ux
def krwUrw : Nat := krw ||| urw
def kxUx : Nat := kx ||| ux
def kwUr : Nat := kw ||| ur
def kdata : Nat := krw
def kutcb : Nat := krw
def utcb : Nat := krwUrw

end Acc

/-- The codes of `enum { Mmu_acc_… }`, the kernel's rights first. -/
inductive MmuAcc where
  | kroUro
  | krwUrw
  | krxUrx
  | krwxUrwx
  | kxoUxo
  | krwUro
  | krxUno
  | krwxUno
  | krwxUrx
  deriving DecidableEq, Repr

/-- The number of a code in the `enum` of its architecture. -/
def MmuAcc.code : Arch → MmuAcc → Nat
  | .sparc, .kroUro => 0
  | .sparc, .krwUrw => 1
  | .sparc, .krxUrx => 2
  | .sparc, .krwxUrwx => 3
  | .sparc, .kxoUxo => 4
  | .sparc, .krwUro => 5
  | .sparc, .krxUno => 6
  | .sparc, _ => 7
  | .arm, .krwxUno => 1
  | .arm, .krwxUrx => 2
  | .arm, .krwxUrwx => 3
  | .arm, _ => 0
  | _, .krxUno => 0
  | _, .krwxUno => 1
  | _, .krxUrx => 2
  | _, _ => 3

/-- The `switch` of `acc2mmuacc`: the combinations the kernel uses, with their codes on sparc, on arm
and on x86. -/
def accCodes : List (Nat × MmuAcc × MmuAcc × MmuAcc) :=
  [(Acc.kr, .krxUno, .krwxUno, .krxUno),
    (Acc.kw, .krwxUno, .krwxUno, .krwxUno),
    (Acc.kx, .krxUno, .krwxUno, .krxUno),
    (Acc.ur, .kroUro, .krwxUrx, .krxUrx),
    (Acc.uw, .krwUrw, .krwxUrwx, .krwxUrwx),
    (Acc.ux, .kxoUxo, .krwxUrx, .krxUrx),
    (Acc.krx, .krxUno, .krwxUno, .krxUno),
    (Acc.krw, .krwxUno, .krwxUno, .krwxUno),
    (Acc.krwx, .krwxUno, .krwxUno, .krwxUno),
    (Acc.urx, .krxUrx, .krwxUrx, .krxUrx),
    (Acc.urw, .krwUrw, .krwxUrwx, .krwxUrwx),
    (Acc.urwx, .krwxUrwx, .krwxUrwx, .krwxUrwx),
    (Acc.krwUrw, .krwxUrwx, .krwxUrwx, .krwxUrwx),
    (Acc.kxUx, .kxoUxo, .krwxUrx, .krxUrx),
    (Acc.kwUr, .krwUro, .krwxUrx, .krwxUrwx)]

/-- The code of one line of the `switch`. -/
def selectCode (A : Arch) (r : MmuAcc × MmuAcc × MmuAcc) : Nat :=
  match A with
  | .sparc => r.1.code A
  | .arm => r.2.1.code A
  | _ => r.2.2.code A

/-- `acc2mmuacc`. -/
def acc2mmuacc (A : Arch) (acc : Nat) : Except Stop Nat :=
  match accCodes.lookup acc with
  | some r => .ok (selectCode A r)
  | none => .error (.assertion "false")

/-- `Mmu_acc_max`. -/
def mmuAccMax : Arch → Nat
  | .sparc => 7
  | _ => 3

/-- The user rights (read 4, write 2, execute 1) the hardware gives for an access code. -/
def mmuUserAcc : Arch → Nat → Nat
  | .sparc, 0 => 4
  | .sparc, 1 => 6
  | .sparc, 2 => 5
  | .sparc, 3 => 7
  | .sparc, 4 => 1
  | .sparc, 5 => 4
  | .sparc, _ => 0
  | _, 2 => 5
  | _, 3 => 7
  | _, _ => 0

/-! ## Packing and reading a map record -/

/-- The word `mmu_set_map` stores, `none` where it leaves the cell alone.  The last case of each
architecture is its last level. -/
def mmuMapWord : Arch → Nat → Nat → Nat → Nat → Option Nat
  | .sparc, _, pa, acc, cachable =>
    some (pa / 2 ^ 12 % 2 ^ 24 * 2 ^ 8 + cachable * 2 ^ 7 + acc * 2 ^ 2 + 2)
  | .arm, level, pa, acc, cachable =>
    if level = 1 then
      some (pa / 2 ^ 20 % 2 ^ 12 * 2 ^ 20 + acc * 2 ^ 10 + cachable * 2 ^ 3 + cachable * 2 ^ 2 + 2)
    else
      some (pa / 2 ^ 12 % 2 ^ 20 * 2 ^ 12 + acc * 2 ^ 4 + cachable * 2 ^ 3 + cachable * 2 ^ 2 + 2)
  | .x86, level, pa, acc, cachable =>
    -- access code = user * 2 + writeable, stored in bits 2 and 1
    let low := (1 - cachable) * 2 ^ 4 + acc * 2 + 1
    if level = 1 then
      some (pa / 2 ^ 22 % 2 ^ 10 * 2 ^ 22 + pa / 2 ^ 32 % 2 ^ 4 * 2 ^ 13 + 2 ^ 7 + low)
    else some (pa / 2 ^ 12 % 2 ^ 20 * 2 ^ 12 + low)
  | .x86_64, level, pa, acc, cachable =>
    let low := (1 - cachable) * 2 ^ 4 + acc * 2 + 1
    if level = 1 then none
    else if level = 2 then some (pa / 2 ^ 21 % 2 ^ 22 * 2 ^ 30 + 2 ^ 7 + low)
    else if level = 3 then
      some (pa / 2 ^ 32 % 2 ^ 20 * 2 ^ 32 + pa / 2 ^ 21 % 2 ^ 11 * 2 ^ 21 + 2 ^ 7 + low)
    else some (pa / 2 ^ 12 % 2 ^ 40 * 2 ^ 12 + low)

/-- The alignment of the physical address that the assertions of `mmu_set_map` ask for. -/
def mmuMapAlign : Arch → Nat → Nat
  | .sparc, _ => 2 ^ 12
  | .arm, level => if level = 1 then 2 ^ 20 else 2 ^ 12
  | .x86, level => if level = 1 then 2 ^ 22 else 2 ^ 12
  | .x86_64, level => if level = 2 then 2 ^ 30 else if level = 3 then 2 ^ 21 else 2 ^ 12

/-- `mmu_has_map`: the table level holds map records. -/
def mmuHasMap (A : Arch) (level : Nat) : Bool :=
  match A with
  | .x86_64 => level != 1
  | _ => true

/-- `mmu_set_map`: the checks, then the word to store.  Level 1 of x86-64 has neither. -/
def mmuSetMap (A : Arch) (level pa acc cachable : Nat) : Except Stop (Option Nat) :=
  if mmuHasMap A level then do
    Lib.ensure (pa % mmuMapAlign A level = 0) (.assertion "mmu_isalign(pa, pgsz)")
    Lib.ensure (acc ≤ mmuAccMax A) (.assertion "access <= Mmu_acc_max")
    Lib.ensure (cachable ≤ 1) (.assertion "cachable <= 1")
    pure (mmuMapWord A level pa acc cachable)
  else pure none

/-- `mmu_get_map_pa`. -/
def mmuGetMapPa : Arch → Nat → Nat → Nat
  | .sparc, _, w => bits w 8 24 * 2 ^ 12 % 2 ^ 32
  | .arm, level, w =>
    if level = 1 then sext32 (bits w 20 12 * 2 ^ 20) else sext32 (bits w 12 20 * 2 ^ 12)
  | .x86, level, w =>
    if level = 1 then orHigh (bits w 13 4) (bits w 22 10 * 2 ^ 22)
    else sext32 (bits w 12 20 * 2 ^ 12)
  | .x86_64, level, w =>
    if level = 2 then sext32 (bits w 30 22 * 2 ^ 30 % 2 ^ 32)
    else if level = 3 then orHigh (bits w 32 20) (bits w 21 11 * 2 ^ 21)
    else bits w 12 40 * 2 ^ 12

/-- The address field of a record, as the hardware puts it together. -/
def mmuAddrField : Arch → Nat → Nat → Nat
  | .sparc, _, w => bits w 8 24 * 2 ^ 12
  | .arm, level, w => if level = 1 then bits w 20 12 * 2 ^ 20 else bits w 12 20 * 2 ^ 12
  | .x86, level, w =>
    if level = 1 then bits w 13 4 * 2 ^ 32 + bits w 22 10 * 2 ^ 22 else bits w 12 20 * 2 ^ 12
  | .x86_64, level, w =>
    if level = 2 then bits w 30 22 * 2 ^ 30
    else if level = 3 then bits w 32 20 * 2 ^ 32 + bits w 21 11 * 2 ^ 21
    else bits w 12 40 * 2 ^ 12

/-- The physical address a record of table `l` translates `va` to. -/
def mmuFrame (A : Arch) (l : PtLevel) (w va : Nat) : Nat :=
  mmuAddrField A l.level w / l.pageSz * l.pageSz + va % l.pageSz

/-- The address a record of the level holds when `pa` was stored in it. -/
def mmuHeldAddr : Arch → Nat → Nat → Nat
  | .sparc, _, pa => pa / 2 ^ 12 % 2 ^ 24 * 2 ^ 12
  | .arm, level, pa =>
    if level = 1 then pa / 2 ^ 20 % 2 ^ 12 * 2 ^ 20 else pa / 2 ^ 12 % 2 ^ 20 * 2 ^ 12
  | .x86, level, pa =>
    if level = 1 then pa / 2 ^ 32 % 2 ^ 4 * 2 ^ 32 + pa / 2 ^ 22 % 2 ^ 10 * 2 ^ 22
    else pa / 2 ^ 12 % 2 ^ 20 * 2 ^ 12
  | .x86_64, level, pa =>
    if level = 2 then pa / 2 ^ 21 % 2 ^ 22 * 2 ^ 30
    else if level = 3 then pa / 2 ^ 32 % 2 ^ 20 * 2 ^ 32 + pa / 2 ^ 21 % 2 ^ 11 * 2 ^ 21
    else pa / 2 ^ 12 % 2 ^ 40 * 2 ^ 12

/-- The access code of a map record (`mmu_get_map_acc` turns it into a text). -/
def mmuGetAcc : Arch → Nat → Nat → Nat
  | .sparc, _, w => bits w 2 3
  | .arm, level, w => if level = 1 then bits w 10 2 else bits w 4 2
  | _, _, w => bits w 1 2

/-- `mmu_get_map_cached`. -/
def mmuGetMapCached : Arch → Nat → Nat
  | .sparc, w => bits w 7 1
  | .arm, w => bits w 3 1
  | _, w => 1 - bits w 4 1

/-! ## What is read back -/

section ReadBack

variable {A : Arch} {level pa acc cachable w : Nat}

/-- `mmu_set_map` succeeded: the checks held, and this is what it stored. -/
theorem mmuSetMap_eq_ok {r : Option Nat} :
    mmuSetMap A level pa acc cachable = .ok r ↔
      (mmuHasMap A level = true ∧ pa % mmuMapAlign A level = 0 ∧ acc ≤ mmuAccMax A ∧
        cachable ≤ 1 ∧ r = mmuMapWord A level pa acc cachable) ∨
      (mmuHasMap A level = false ∧ r = none) := by
  unfold mmuSetMap
  cases h : mmuHasMap A level with
  | true =>
    simp only [if_true, Lib.ensure_bind_eq_ok, pure, Except.pure, Except.ok.injEq, true_and,
      false_and, or_false, reduceCtorEq, eq_comm (a := r)]
  | false =>
    simp [pure, Except.pure, eq_comm]

/-- A record is stored on the levels that have map records, and on no other. -/
theorem mmuMapWord_eq_none_iff :
    mmuMapWord A level pa acc cachable = none ↔ mmuHasMap A level = false := by
  cases A with
  | sparc => simp [mmuMapWord, mmuHasMap]
  | arm => by_cases h : level = 1 <;> simp [mmuMapWord, mmuHasMap, h]
  | x86 => by_cases h : level = 1 <;> simp [mmuMapWord, mmuHasMap, h]
  | x86_64 =>
    simp only [mmuMapWord, mmuHasMap, bne_eq_false_iff_eq]
    split_ifs <;> simp [*]

/-- In both cases the stored word is `mmuMapWord`. -/
theorem mmuSetMap_word {r : Option Nat} (h : mmuSetMap A level pa acc cachable = .ok r) :
    r = mmuMapWord A level pa acc cachable := by
  rcases mmuSetMap_eq_ok.mp h with ⟨-, -, -, -, rfl⟩ | ⟨hm, rfl⟩
  · rfl
  · exact (mmuMapWord_eq_none_iff.mpr hm).symm

/-- The access code is read back as it was stored. -/
theorem mmuGetAcc_mapWord (hacc : acc ≤ mmuAccMax A) (hc : cachable ≤ 1)
    (hw : mmuMapWord A level pa acc cachable = some w) : mmuGetAcc A level w = acc := by
  -- in every layout the code is one field: name what is above it and what is below it
  have key : ∀ hi r lo n : Nat, acc < 2 ^ n → r < 2 ^ lo →
      w = hi * 2 ^ (lo + n) + acc * 2 ^ lo + r → bits w lo n = acc := by
    intro hi r lo n hv hr he
    rw [he, bits_pack hv hr]
  cases A <;> simp only [mmuMapWord, mmuAccMax] at hw hacc
  case sparc =>
    obtain rfl := Option.some.inj hw
    exact key (pa / 2 ^ 12 % 2 ^ 24 * 2 ^ 3 + cachable * 2 ^ 2) 2 2 3 (by omega) (by omega)
      (by omega)
  case arm =>
    split_ifs at hw with h1 <;> obtain rfl := Option.some.inj hw
    · simp only [mmuGetAcc, if_pos h1]
      exact key (pa / 2 ^ 20 % 2 ^ 12 * 2 ^ 8) (cachable * 2 ^ 3 + cachable * 2 ^ 2 + 2) 10 2
        (by omega) (by omega) (by omega)
    · simp only [mmuGetAcc, if_neg h1]
      exact key (pa / 2 ^ 12 % 2 ^ 20 * 2 ^ 6) (cachable * 2 ^ 3 + cachable * 2 ^ 2 + 2) 4 2
        (by omega) (by omega) (by omega)
  case x86 =>
    simp only [mmuGetAcc]
    split_ifs at hw with h1 <;> obtain rfl := Option.some.inj hw
    · exact key (pa / 2 ^ 22 % 2 ^ 10 * 2 ^ 19 + pa / 2 ^ 32 % 2 ^ 4 * 2 ^ 10 + 2 ^ 4 +
        (1 - cachable) * 2) 1 1 2 (by omega) (by omega) (by omega)
    · exact key (pa / 2 ^ 12 % 2 ^ 20 * 2 ^ 9 + (1 - cachable) * 2) 1 1 2
        (by omega) (by omega) (by omega)
  case x86_64 =>
    simp only [mmuGetAcc]
    split_ifs at hw with h1 h2 h3 <;> obtain rfl := Option.some.inj hw
    · exact key (pa / 2 ^ 21 % 2 ^ 22 * 2 ^ 27 + 2 ^ 4 + (1 - cachable) * 2) 1 1 2
        (by omega) (by omega) (by omega)
    · exact key (pa / 2 ^ 32 % 2 ^ 20 * 2 ^ 29 + pa / 2 ^ 21 % 2 ^ 11 * 2 ^ 18 + 2 ^ 4 +
        (1 - cachable) * 2) 1 1 2 (by omega) (by omega) (by omega)
    · exact key (pa / 2 ^ 12 % 2 ^ 40 * 2 ^ 9 + (1 - cachable) * 2) 1 1 2
        (by omega) (by omega) (by omega)

/-- The address field is read back as it was stored. -/
theorem mmuAddrField_mapWord (hacc : acc ≤ mmuAccMax A) (hc : cachable ≤ 1)
    (hw : mmuMapWord A level pa acc cachable = some w) :
    mmuAddrField A level w = mmuHeldAddr A level pa := by
  -- in every layout an address field has nothing above it, or fields named by `hi`
  have key : ∀ hi r v lo n : Nat, v < 2 ^ n → r < 2 ^ lo →
      w = hi * 2 ^ (lo + n) + v * 2 ^ lo + r → bits w lo n = v := by
    intro hi r v lo n hv hr he
    rw [he, bits_pack hv hr]
  cases A <;> simp only [mmuMapWord, mmuAccMax] at hw hacc
  case sparc =>
    obtain rfl := Option.some.inj hw
    simp only [mmuAddrField, mmuHeldAddr]
    rw [key 0 (cachable * 2 ^ 7 + acc * 2 ^ 2 + 2) (pa / 2 ^ 12 % 2 ^ 24) 8 24 (by omega)
      (by omega) (by omega)]
  case arm =>
    simp only [mmuAddrField, mmuHeldAddr]
    split_ifs at hw ⊢ with h1 <;> obtain rfl := Option.some.inj hw
    · rw [key 0 (acc * 2 ^ 10 + cachable * 2 ^ 3 + cachable * 2 ^ 2 + 2) (pa / 2 ^ 20 % 2 ^ 12) 20
        12 (by omega) (by omega) (by omega)]
    · rw [key 0 (acc * 2 ^ 4 + cachable * 2 ^ 3 + cachable * 2 ^ 2 + 2) (pa / 2 ^ 12 % 2 ^ 20) 12
        20 (by omega) (by omega) (by omega)]
  case x86 =>
    simp only [mmuAddrField, mmuHeldAddr]
    split_ifs at hw ⊢ with h1 <;> obtain rfl := Option.some.inj hw
    · rw [key 0 (pa / 2 ^ 32 % 2 ^ 4 * 2 ^ 13 + 2 ^ 7 + ((1 - cachable) * 2 ^ 4 + acc * 2 + 1))
        (pa / 2 ^ 22 % 2 ^ 10) 22 10 (by omega) (by omega) (by omega),
        key (pa / 2 ^ 22 % 2 ^ 10 * 2 ^ 5) (2 ^ 7 + ((1 - cachable) * 2 ^ 4 + acc * 2 + 1))
        (pa / 2 ^ 32 % 2 ^ 4) 13 4 (by omega) (by omega) (by omega)]
    · rw [key 0 ((1 - cachable) * 2 ^ 4 + acc * 2 + 1) (pa / 2 ^ 12 % 2 ^ 20) 12 20 (by omega)
        (by omega) (by omega)]
  case x86_64 =>
    simp only [mmuAddrField, mmuHeldAddr]
    split_ifs at hw ⊢ with h1 h2 h3 <;> first | omega | obtain rfl := Option.some.inj hw
    · rw [key 0 (2 ^ 7 + ((1 - cachable) * 2 ^ 4 + acc * 2 + 1)) (pa / 2 ^ 21 % 2 ^ 22) 30 22
        (by omega) (by omega) (by omega)]
    · rw [key 0 (pa / 2 ^ 21 % 2 ^ 11 * 2 ^ 21 + 2 ^ 7 + ((1 - cachable) * 2 ^ 4 + acc * 2 + 1))
        (pa / 2 ^ 32 % 2 ^ 20) 32 20 (by omega) (by omega) (by omega),
        key (pa / 2 ^ 32 % 2 ^ 20) (2 ^ 7 + ((1 - cachable) * 2 ^ 4 + acc * 2 + 1))
        (pa / 2 ^ 21 % 2 ^ 11) 21 11 (by omega) (by omega) (by omega)]
    · rw [key 0 ((1 - cachable) * 2 ^ 4 + acc * 2 + 1) (pa / 2 ^ 12 % 2 ^ 40) 12 40 (by omega)
        (by omega) (by omega)]

/-- The cache attribute is read back as it was stored. -/
theorem mmuGetMapCached_mapWord (hacc : acc ≤ mmuAccMax A) (hc : cachable ≤ 1)
    (hw : mmuMapWord A level pa acc cachable = some w) : mmuGetMapCached A w = cachable := by
  have key : ∀ hi r v lo : Nat, v ≤ 1 → r < 2 ^ lo →
      w = hi * 2 ^ (lo + 1) + v * 2 ^ lo + r → bits w lo 1 = v := by
    intro hi r v lo hv hr he
    rw [he, bits_pack (by omega) hr]
  cases A <;> simp only [mmuMapWord, mmuAccMax] at hw hacc
  case sparc =>
    obtain rfl := Option.some.inj hw
    exact key (pa / 2 ^ 12 % 2 ^ 24) (acc * 2 ^ 2 + 2) cachable 7 hc (by omega) (by omega)
  case arm =>
    simp only [mmuGetMapCached]
    split_ifs at hw with h1 <;> obtain rfl := Option.some.inj hw
    · exact key (pa / 2 ^ 20 % 2 ^ 12 * 2 ^ 16 + acc * 2 ^ 6) (cachable * 2 ^ 2 + 2) cachable 3 hc
        (by omega) (by omega)
    · exact key (pa / 2 ^ 12 % 2 ^ 20 * 2 ^ 8 + acc) (cachable * 2 ^ 2 + 2) cachable 3 hc
        (by omega) (by omega)
  case x86 =>
    -- the bit says that the cache is off
    simp only [mmuGetMapCached]
    split_ifs at hw with h1 <;> obtain rfl := Option.some.inj hw
    · rw [key (pa / 2 ^ 22 % 2 ^ 10 * 2 ^ 17 + pa / 2 ^ 32 % 2 ^ 4 * 2 ^ 8 + 2 ^ 2) (acc * 2 + 1)
        (1 - cachable) 4 (by omega) (by omega) (by omega)]
      omega
    · rw [key (pa / 2 ^ 12 % 2 ^ 20 * 2 ^ 7) (acc * 2 + 1) (1 - cachable) 4 (by omega) (by omega)
        (by omega)]
      omega
  case x86_64 =>
    simp only [mmuGetMapCached]
    split_ifs at hw with h1 h2 h3 <;> obtain rfl := Option.some.inj hw
    · rw [key (pa / 2 ^ 21 % 2 ^ 22 * 2 ^ 25 + 2 ^ 2) (acc * 2 + 1) (1 - cachable) 4 (by omega)
        (by omega) (by omega)]
      omega
    · rw [key (pa / 2 ^ 32 % 2 ^ 20 * 2 ^ 27 + pa / 2 ^ 21 % 2 ^ 11 * 2 ^ 16 + 2 ^ 2) (acc * 2 + 1)
        (1 - cachable) 4 (by omega) (by omega) (by omega)]
      omega
    · rw [key (pa / 2 ^ 12 % 2 ^ 40 * 2 ^ 7) (acc * 2 + 1) (1 - cachable) 4 (by omega) (by omega)
        (by omega)]
      omega

theorem MmuAcc.code_le (A : Arch) (a : MmuAcc) : a.code A ≤ mmuAccMax A := by
  cases A <;> cases a <;> decide

/-- The access codes of `acc2mmuacc` fit the records. -/
theorem acc2mmuacc_le {code : Nat} (h : acc2mmuacc A acc = .ok code) : code ≤ mmuAccMax A := by
  unfold acc2mmuacc at h
  cases hr : accCodes.lookup acc with
  | none =>
    rw [hr] at h
    cases h
  | some r =>
    rw [hr] at h
    obtain rfl := Except.ok.inj h
    unfold selectCode
    split <;> exact MmuAcc.code_le _ _

end ReadBack

end Wrmos
