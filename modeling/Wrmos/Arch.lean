import Wrmos.Lib.Outcome
import Mathlib

/-!
# The four architectures and their machine words

The kernel is one source built for four architectures.  What differs between them below the
system-call layer is collected here: the width of `word_t`, the shape of the page tables
(`Ptable_l1` … `Ptable_l4` of `ptable.h`) and the place of the kernel window.  `Cfg_krn_vaddr` is
the value of the platform files (`cfg/plt`), one per architecture.

Addresses and sizes are natural numbers below `2 ^ wordBits`; `Arch.add` and `Arch.sub` are the
wrapping operations of `addr_t` and `size_t`.  A failed assertion and a call of `panic` end the
run: both are values of `Stop`.  Every project of `cfg/prj` builds the kernel with `DEBUG`, so
`wassert`, `assert` and `mmu_assert` are all compiled in.
-/

namespace Wrmos

/-- How the kernel stops: `panic` with its text, a failed assertion with its expression, or a loop
of the model that was given too few rounds. -/
inductive Stop where
  | panic (text : String)
  | assertion (expr : String)
  | outOfRounds
  deriving DecidableEq, Repr

/-- `Cfg_arch`. -/
inductive Arch where
  | sparc
  | arm
  | x86
  | x86_64
  deriving DecidableEq, Repr

/-- One level of the page-table hierarchy: the template arguments `Table_level`, `Addr_index_hi`
and `Addr_index_low` of `Ptable`. -/
structure PtLevel where
  level : Nat
  hi : Nat
  low : Nat
  deriving DecidableEq, Repr

/-- `Ptable::Page_sz`: the bytes one record of a table of this level covers. -/
def PtLevel.pageSz (l : PtLevel) : Nat := 2 ^ l.low

/-- `Ptable::Aspace_sz`: the bytes a whole table of this level covers. -/
def PtLevel.aspaceSz (l : PtLevel) : Nat := 2 ^ (l.hi + 1)

/-- `Cfg_page_sz` of every platform file. -/
def pageSz : Nat := 0x1000

namespace Arch

/-- The number of bits of `word_t`, `addr_t` and `size_t`. -/
def wordBits : Arch → Nat
  | .x86_64 => 64
  | _ => 32

/-- The tables from the root `Ptable_l1` down. -/
def levels : Arch → List PtLevel
  | .sparc => [⟨1, 31, 24⟩, ⟨2, 23, 18⟩, ⟨3, 17, 12⟩]
  | .arm => [⟨1, 31, 20⟩, ⟨2, 19, 12⟩]
  | .x86 => [⟨1, 31, 22⟩, ⟨2, 21, 12⟩]
  | .x86_64 => [⟨1, 47, 39⟩, ⟨2, 38, 30⟩, ⟨3, 29, 21⟩, ⟨4, 20, 12⟩]

/-- The number of address bits the root table translates: `Addr_index_hi + 1` of `Ptable_l1`. -/
def vaBits : Arch → Nat
  | .x86_64 => 48
  | _ => 32

/-- The level of `Ktab_t`. -/
def ktabLevel : Arch → Nat
  | .x86_64 => 4
  | _ => 2

/-- `Ktab_t::Aspace_sz`. -/
def ktabSz : Arch → Nat
  | .sparc => 2 ^ 24
  | .arm => 2 ^ 20
  | .x86 => 2 ^ 22
  | .x86_64 => 2 ^ 21

/-- `Cfg_krn_vaddr`. -/
def krnVaddr : Arch → Nat
  | .sparc => 0xf0000000
  | .arm => 0xf0000000
  | .x86 => 0xf0100000
  | .x86_64 => 0xffffffff80100000

/-- `Pgtab::Kspace_sz`. -/
def kspaceSz : Nat := 16 * 0x100000

/-- `Pgtab::Kern_va`: the start of the kernel window. -/
def kernVa (A : Arch) : Nat := A.krnVaddr / A.ktabSz * A.ktabSz

/-- Addition of machine words. -/
def add (A : Arch) (x y : Nat) : Nat := (x + y) % 2 ^ A.wordBits

/-- Subtraction of machine words. -/
def sub (A : Arch) (x y : Nat) : Nat := (x + (2 ^ A.wordBits - y)) % 2 ^ A.wordBits

/-- The address a page table sees: the bits above the root index are ignored. -/
def canon (A : Arch) (va : Nat) : Nat := va % 2 ^ A.vaBits

/-- The address lies in the kernel window `[Kern_va, Kern_va + Kspace_sz)` that all address spaces
share. -/
def InKern (A : Arch) (va : Nat) : Prop :=
  A.canon A.kernVa ≤ A.canon va ∧ A.canon va < A.canon A.kernVa + kspaceSz

instance (A : Arch) (va : Nat) : Decidable (A.InKern va) := by
  unfold InKern; infer_instance

theorem vaBits_le_wordBits (A : Arch) : A.vaBits ≤ A.wordBits := by
  cases A <;> decide

/-- Wrapping at the word size does not change what a page table sees. -/
theorem canon_add (A : Arch) (x y : Nat) : A.canon (A.add x y) = A.canon (x + y) := by
  unfold canon add
  exact Nat.mod_mod_of_dvd _ (Nat.pow_dvd_pow 2 A.vaBits_le_wordBits)

end Arch

/-! ## Physical addresses -/

/-- `paddr_t` arithmetic: sums are taken modulo `2 ^ 64`. -/
def padd (pa n : Nat) : Nat := (pa + n) % 2 ^ 64

/-- The value `paddr + va - vaddr` of `Ptable::map`, computed in 64 bits from the physical address,
the current and the first virtual address. -/
def paddrAt (paddr va vaddr : Nat) : Nat := (paddr + va + (2 ^ 64 - vaddr)) % 2 ^ 64

/-! ## The shape of the tables -/

/-- The hierarchy is without gaps: a table covers what one record of its parent covers, the root
translates at most `b` address bits and the records of the last table are pages. -/
def PtChain (b : Nat) : List PtLevel → Prop
  | [] => True
  | [l] => l.low = 12 ∧ l.low ≤ l.hi ∧ l.hi < b
  | l :: m :: ls =>
    m.level = l.level + 1 ∧ m.hi + 1 = l.low ∧ l.low ≤ l.hi ∧ l.hi < b ∧ PtChain b (m :: ls)

theorem ptChain_levels (A : Arch) : PtChain A.vaBits A.levels := by
  cases A <;> simp [Arch.levels, Arch.vaBits, PtChain]

namespace PtChain

variable {b : Nat} {l m : PtLevel} {ls : List PtLevel}

theorem tail : ∀ {ls : List PtLevel}, PtChain b (l :: ls) → PtChain b ls
  | [], _ => trivial
  | _ :: _, h => h.2.2.2.2

theorem low_le_hi : ∀ {ls : List PtLevel}, PtChain b (l :: ls) → l.low ≤ l.hi
  | [], h => h.2.1
  | _ :: _, h => h.2.2.1

theorem hi_lt : ∀ {ls : List PtLevel}, PtChain b (l :: ls) → l.hi < b
  | [], h => h.2.2
  | _ :: _, h => h.2.2.2.1

/-- Every record covers whole pages. -/
theorem twelve_le_low : ∀ {ls : List PtLevel} {l : PtLevel}, PtChain b (l :: ls) → 12 ≤ l.low
  | [], _, h => Nat.le_of_eq h.1.symm
  | _ :: _, _, h => by
    have h1 := h.2.1
    have h2 := h.tail.low_le_hi
    have h3 := h.tail.twelve_le_low
    omega

/-- Deeper tables have higher level numbers and smaller records. -/
theorem lt_of_mem : ∀ {ls : List PtLevel} {l : PtLevel}, PtChain b (l :: ls) →
    ∀ {m : PtLevel}, m ∈ ls → l.level < m.level ∧ m.low < l.low
  | [], _, _, m, hm => by cases hm
  | n :: ls, l, h, m, hm => by
    have hlev := h.1
    have hlow := h.2.1
    have hn := h.tail.low_le_hi
    rcases List.mem_cons.mp hm with rfl | hm
    · omega
    · have hrec := h.tail.lt_of_mem hm
      omega

theorem of_suffix {us : List PtLevel} (hc : PtChain b us) (h : ls <:+ us) : PtChain b ls := by
  induction us with
  | nil => rwa [List.suffix_nil.mp h]
  | cons l us ih =>
    rcases List.suffix_cons_iff.mp h with rfl | h
    · exact hc
    · exact ih hc.tail h

theorem twelve_le_of_mem (hc : PtChain b ls) (hm : m ∈ ls) : 12 ≤ m.low := by
  induction ls with
  | nil => cases hm
  | cons l ls ih =>
    rcases List.mem_cons.mp hm with rfl | hm
    · exact hc.twelve_le_low
    · exact ih hc.tail hm

theorem low_le_of_mem (hc : PtChain b ls) (hm : m ∈ ls) : m.low ≤ b := by
  cases ls with
  | nil => cases hm
  | cons l ls =>
    have hl : l.low ≤ b := hc.low_le_hi.trans hc.hi_lt.le
    rcases List.mem_cons.mp hm with rfl | hm
    · exact hl
    · exact (hc.lt_of_mem hm).2.le.trans hl

end PtChain

theorem Arch.twelve_le_vaBits (A : Arch) : 12 ≤ A.vaBits := by
  cases A <;> decide

namespace PtLevel

theorem pageSz_pos (l : PtLevel) : 0 < l.pageSz := Nat.two_pow_pos _

theorem pageSz_dvd {l m : PtLevel} (h : m.low ≤ l.low) : m.pageSz ∣ l.pageSz := Nat.pow_dvd_pow 2 h

end PtLevel

end Wrmos
