import Wrmos.Arch
import Mathlib.Logic.Function.Basic

/-!
# Bitmaps

`bitmap_t` of `lib/containers/bitmap.h`, which a task uses with 64 bits for the positions of its UTCBs.  A
word is an `unsigned long`, but the bit that is set, cleared or tested is `1 << n` with an `int` in front of the
shift: on a machine with words of 64 bits the bits from 31 on are not those that `get` reads.
-/

namespace Wrmos

structure Bitmap where
  words : Nat → Nat
  capacity : Nat
  count : Nat

namespace Bitmap

/-- `MAX_BITS`. -/
def maxBits : Nat := 64

/-- The constructor. -/
def empty : Bitmap := ⟨fun _ => 0, 0, 0⟩

/-- `init` of a bitmap with room for `max` bits; its result is not read. -/
def initOf (max : Nat) (b : Bitmap) (capacity : Nat) : Bitmap :=
  if max < capacity then b else { b with capacity := capacity, count := 0 }

/-- `init` of the bitmap of a task. -/
def init (b : Bitmap) (capacity : Nat) : Bitmap := initOf maxBits b capacity

/-- `1 << n` as an `unsigned long`; the processors shift an `int` by `n % 32`. -/
def one (A : Arch) (n : Nat) : Nat :=
  if n % 32 = 31 then 2 ^ A.wordBits - 2 ^ 31 else 2 ^ (n % 32)

/-- `get`; `none` is `-1`. -/
def get (A : Arch) (b : Bitmap) (pos : Nat) : Option Bool :=
  if b.capacity ≤ pos then none
  else some ((b.words (pos / A.wordBits)).testBit (pos % A.wordBits))

/-- `set`. -/
def set (A : Arch) (b : Bitmap) (pos : Nat) : Option Bitmap :=
  if b.capacity ≤ pos then none
  else if b.get A pos = some true then some b
  else some { b with
    count := (b.count + 1) % 2 ^ 32
    words := Function.update b.words (pos / A.wordBits)
      (b.words (pos / A.wordBits) ||| one A (pos % A.wordBits)) }

/-- `clear`. -/
def clear (A : Arch) (b : Bitmap) (pos : Nat) : Option Bitmap :=
  if b.capacity ≤ pos then none
  else if b.get A pos = some false then some b
  else some { b with
    count := (b.count + (2 ^ 32 - 1)) % 2 ^ 32
    words := Function.update b.words (pos / A.wordBits)
      (b.words (pos / A.wordBits) &&& (2 ^ A.wordBits - 1 - one A (pos % A.wordBits))) }

/-- The loop of `getfree` over the bits of a word. -/
def freeBit (A : Arch) (w n : Nat) : Option Nat := (List.range n).find? fun j => w &&& one A j == 0

/-- The position that `getfree` finds: in the words that belong to the bitmap as a whole, then in the
tail. -/
def freePos (A : Arch) (b : Bitmap) : Option Nat :=
  let full := b.capacity / A.wordBits
  let inWord := fun i =>
    if b.words i = 2 ^ A.wordBits - 1 then none
    else (freeBit A (b.words i) A.wordBits).map fun j => i * A.wordBits + j
  match (List.range full).findSome? inWord with
  | some pos => some pos
  | none => (freeBit A (b.words full) (b.capacity % A.wordBits)).map fun j => full * A.wordBits + j

/-- `getfree`; `none` is `-1`. -/
def getfree (A : Arch) (b : Bitmap) : Option (Nat × Bitmap) :=
  (b.freePos A).map fun pos => (pos, (b.set A pos).getD b)

/-- The loop of `getbusy` over the bits of a word. -/
def busyBit (A : Arch) (w n : Nat) : Option Nat := (List.range n).find? fun j => w &&& one A j != 0

/-- The position that `getbusy` finds. -/
def busyPos (A : Arch) (b : Bitmap) : Option Nat :=
  let full := b.capacity / A.wordBits
  let inWord := fun i =>
    if b.words i = 0 then none
    else (busyBit A (b.words i) A.wordBits).map fun j => i * A.wordBits + j
  match (List.range full).findSome? inWord with
  | some pos => some pos
  | none => (busyBit A (b.words full) (b.capacity % A.wordBits)).map fun j => full * A.wordBits + j

/-- `getbusy`; `none` is `-1`. -/
def getbusy (A : Arch) (b : Bitmap) : Option (Nat × Bitmap) :=
  (b.busyPos A).map fun pos => (pos, (b.clear A pos).getD b)

end Bitmap

end Wrmos
