import Wrmos.L4Types
import Wrmos.Lib.Words

/-!
# `memcpy`, `memmove`, `memset` and `memcmp`

The four functions of `wlibc/src/string.c` that go over ranges of bytes.  Each has a byte loop and, for
ranges of at least 32 bytes that are aligned to it, loops over words of 64 bits or of a `long`; the word
loop of `memcmp` is compiled for big-endian machines only.  A loop over words reads and writes the words
through the byte order of the machine, and the byte loops are the loops over words of one byte.

Addresses are not wrapped: no object reaches over the end of the address space.
-/

namespace Wrmos
namespace MemOps

open Lib (ensure)

/-- `sizeof(uint64_t)`. -/
def u64Sz : Nat := 8

/-- `sizeof(long)`. -/
def longSz (A : Arch) : Nat := A.wordBits / 8

/-- `is_aligned`. -/
def isAligned (n a : Nat) : Bool := n % a == 0

/-- `is_aligned2`. -/
def isAligned2 (n1 n2 a : Nat) : Bool := isAligned n1 a && isAligned n2 a

/-- `is_aligned3`. -/
def isAligned3 (n1 n2 n3 a : Nat) : Bool := isAligned n1 a && isAligned n2 a && isAligned n3 a

variable (A : Arch)

/-- `for (i=0; i<k; ++i) ((T*)dst)[i] = ((T*)src)[i]`, for a type of `n` bytes. -/
def copyLoop (n dst src : Nat) : Nat → Lib.Mem → Lib.Mem
  | 0, m => m
  | k + 1, m =>
    let m := copyLoop n dst src k m
    m.putWord A.bigEndian n (dst + k * n) (m.word A.bigEndian n (src + k * n))

/-- `memcpy`. -/
def memcpy (dst src sz : Nat) (m : Lib.Mem) : Except Stop Lib.Mem := do
  ensure (sz < 0xf0000000) (.assertion "sz < 0xf0000000")
  if 32 ≤ sz ∧ isAligned3 dst src sz u64Sz = true then
    pure (copyLoop A u64Sz dst src (sz / u64Sz) m)
  else if 32 ≤ sz ∧ isAligned3 dst src sz (longSz A) = true then
    pure (copyLoop A (longSz A) dst src (sz / longSz A) m)
  else pure (copyLoop A 1 dst src sz m)

/-- `memmove`. -/
def memmove (dst src sz : Nat) (m : Lib.Mem) : Except Stop Lib.Mem :=
  if 32 ≤ sz ∧ (if src < dst then 8 ≤ dst - src else 8 ≤ src - dst) then memcpy A dst src sz m
  else .ok (copyLoop A 1 dst src sz m)

/-- `for (i=0; i<k; ++i) ((T*)dst)[i] = v`, for a type of `n` bytes. -/
def fillLoop (n dst v : Nat) : Nat → Lib.Mem → Lib.Mem
  | 0, m => m
  | k + 1, m => (fillLoop n dst v k m).putWord A.bigEndian n (dst + k * n) v

/-- `val<<24 | val<<16 | val<<8 | val` after `val &= 0xff`. -/
def fillInt (val : Int) : BitVec 32 :=
  let val := BitVec.ofInt 32 val &&& 0xff
  val <<< 24 ||| val <<< 16 ||| val <<< 8 ||| val

/-- The word of the loop over 64 bits. -/
def fill64 (val : Int) : BitVec 64 :=
  let v := (fillInt val).signExtend 64
  v ||| v <<< 32

/-- The word of the loop over `long`. -/
def fillLong (val : Int) : BitVec A.wordBits :=
  let v := (fillInt val).signExtend A.wordBits
  if 4 < longSz A then v ||| v <<< 32 else v

/-- `memset`. -/
def memset (dst : Nat) (val : Int) (sz : Nat) (m : Lib.Mem) : Lib.Mem :=
  if 32 ≤ sz ∧ isAligned2 dst sz u64Sz = true then
    fillLoop A u64Sz dst (fill64 val).toNat (sz / u64Sz) m
  else if 32 ≤ sz ∧ isAligned2 dst sz (longSz A) = true then
    fillLoop A (longSz A) dst (fillLong A val).toNat (sz / longSz A) m
  else fillLoop A 1 dst (BitVec.ofInt 8 val).toNat sz m

/-- The loop of `memcmp` over the words of type `unsigned long`. -/
def cmpLongs (m : Lib.Mem) : Nat → Nat → Nat → Int
  | 0, _, _ => 0
  | sz + 1, p1, p2 =>
    let w1 := m.word A.bigEndian (longSz A) p1
    let w2 := m.word A.bigEndian (longSz A) p2
    -- the difference is an `unsigned long`
    if w1 ≠ w2 then if A.sub w1 w2 < 0 then -1 else 1
    else cmpLongs m sz (p1 + longSz A) (p2 + longSz A)

/-- The loop of `memcmp` over the bytes. -/
def cmpBytes (m : Lib.Mem) : Nat → Nat → Nat → Int
  | 0, _, _ => 0
  | sz + 1, p1, p2 =>
    if m p1 ≠ m p2 then (m p1).toNat - (m p2).toNat else cmpBytes m sz (p1 + 1) (p2 + 1)

/-- `memcmp`. -/
def memcmp (m : Lib.Mem) (ptr1 ptr2 sz : Nat) : Int :=
  if A.bigEndian = true ∧ 32 ≤ sz ∧ isAligned3 ptr1 ptr2 sz (longSz A) = true then
    cmpLongs A m (sz / longSz A) ptr1 ptr2
  else cmpBytes m sz ptr1 ptr2

end MemOps
end Wrmos
