import Wrmos.Arch

/-!
# I/O permissions

`Io_bitmap_t` of `x86/arch_data.h`: one bit for each port, set when the port is disabled, and a range
`[_begin, _end)` outside which no port is looked at.  The other architectures have no ports: there the
functions of `Arch_task_t` panic.
-/

namespace Wrmos

open Lib (ensure)

/-- `Io_bitmap_bits`. -/
def ioBitmapBits : Nat := 0x10000

structure IoBitmap where
  off : Nat → Bool
  first : Nat
  past : Nat

namespace IoBitmap

/-- `init`. -/
def init : IoBitmap := ⟨fun _ => true, 0, 0⟩

/-- `set_ioperm_all(enable)`. -/
def setAll (b : IoBitmap) (enable : Bool) : IoBitmap where
  off p := if p < ioBitmapBits then !enable else b.off p
  first := 0
  past := ioBitmapBits

/-- `set_ioperm_all(1)` of a new task. -/
def all : IoBitmap := init.setAll true

/-- The first enabled port of `[lo, lo + n)`. -/
def firstOn (off : Nat → Bool) (lo n : Nat) : Option Nat :=
  ((List.range n).map (lo + ·)).find? fun p => !off p

/-- The last enabled port of `[lo, lo + n)`. -/
def lastOn (off : Nat → Bool) (lo n : Nat) : Option Nat :=
  ((List.range n).reverse.map (lo + ·)).find? fun p => !off p

/-- `port+sz`, an `unsigned`. -/
def stop (port sz : Nat) : Nat := (port + sz) % 2 ^ 32

/-- `set_ioperm(port, sz, 1)`. -/
def enable (b : IoBitmap) (port sz : Nat) : Except Stop IoBitmap := do
  ensure (port < ioBitmapBits ∧ stop port sz ≤ ioBitmapBits)
    (.assertion "port < Io_bitmap_bits  &&  (port+sz) <= Io_bitmap_bits")
  ensure (sz ≠ 0) (.assertion "sz")
  pure
    { off := fun p => if port ≤ p ∧ p < stop port sz then false else b.off p
      first := min b.first port
      past := max b.past (stop port sz) }

/-- `set_ioperm(port, sz, 0)`.  The loop that looks for the last enabled port counts an `unsigned` down
to `_begin`: it does not end when no port is enabled and `_begin` is `0`. -/
def disable (b : IoBitmap) (port sz : Nat) : Except Stop IoBitmap := do
  ensure (port < ioBitmapBits ∧ stop port sz ≤ ioBitmapBits)
    (.assertion "port < Io_bitmap_bits  &&  (port+sz) <= Io_bitmap_bits")
  ensure (sz ≠ 0) (.assertion "sz")
  let off := fun p => if port ≤ p ∧ p < stop port sz then true else b.off p
  if b.past = 0 then pure { b with off := off }
  else do
    let first := (firstOn off b.first (b.past - b.first)).getD b.first
    let last := lastOn off first (b.past - first)
    ensure (last ≠ none ∨ first ≠ 0) .outOfRounds
    let past := last.getD b.past
    pure (if first = past then ⟨off, 0, 0⟩ else ⟨off, first, past⟩)

/-- `set_ioperm(port, sz, enable)`. -/
def setIoperm (b : IoBitmap) (port sz : Nat) (enable : Bool) : Except Stop IoBitmap :=
  if enable then b.enable port sz else b.disable port sz

/-- `is_ioperm(port, sz, enable)`. -/
def isIoperm (b : IoBitmap) (port sz : Nat) (enable : Bool) : Except Stop Bool := do
  ensure (port < ioBitmapBits ∧ stop port sz < ioBitmapBits)
    (.assertion "port < Io_bitmap_bits  &&  (port+sz) < Io_bitmap_bits")
  ensure (sz ≠ 0) (.assertion "sz")
  if b.past ≤ port ∨ stop port sz < b.first then pure (!enable)
  else pure (((List.range (stop port sz - port)).map (port + ·)).all fun p => b.off p != enable)

/-- `is_ioperm(port, sz, 1)`. -/
def isEnabled (b : IoBitmap) (port sz : Nat) : Except Stop Bool := b.isIoperm port sz true

/-- The port lies in one of the words from that of `first` to that of the last port before `past`. -/
def InLongs (A : Arch) (b : IoBitmap) (p : Nat) : Prop :=
  b.first / A.wordBits ≤ p / A.wordBits ∧ p / A.wordBits < (b.past - 1) / A.wordBits + 1

instance (A : Arch) (b : IoBitmap) (p : Nat) : Decidable (InLongs A b p) := by
  unfold InLongs; infer_instance

/-- The part of `set_from` under `need_clear`. -/
def clearLongs (A : Arch) (b : IoBitmap) : IoBitmap where
  off p := if InLongs A b p then true else b.off p
  first := 0
  past := 0

/-- The part of `set_from` under `need_copy`. -/
def copyLongs (A : Arch) (b src : IoBitmap) : IoBitmap where
  off p := if InLongs A src p then src.off p else b.off p
  first := src.first
  past := src.past

/-- `set_from(src)`. -/
def setFrom (A : Arch) (b src : IoBitmap) : IoBitmap :=
  if b.past = 0 ∧ src.past = 0 then b
  else if b.past = 0 then b.copyLongs A src
  else if src.past = 0 then b.clearLongs A
  else (b.clearLongs A).copyLongs A src

end IoBitmap

namespace Arch

/-- The ports of an architecture that has none. -/
def ports (A : Arch) : Except Stop Unit :=
  match A with
  | .x86 | .x86_64 => .ok ()
  | _ => .error (.panic "unexpected ioperm for this arch.")

end Arch

end Wrmos
