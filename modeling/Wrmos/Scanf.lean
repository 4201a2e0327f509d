import Wrmos.Printf
import Wrmos.Strtoul

/-!
# `vsscanf`

The formatted input of `wlibc/src/stdio.c`: a state machine over the characters of the format, with the
stages, the specifications and the length modifiers of `vsnprintf`.  The input is the list of its
characters before the terminating null character, which is read at the end of the list; the model stops when
a character behind it is read.

What is stored through the arguments is recorded in the order in which it is stored.  The value of a
floating-point number is not part of the model, only the text that `strtod` reads.
-/

namespace Wrmos
namespace Scanf

open Lib (ensure)
open Printf (Stage Length Spec Parsed baseOf widthPresent)
open Strtoul (deref skipSpaces skipSign strtoul)

/-- A character behind the terminating null character is read. -/
inductive ScanFault where
  | past (i : Nat)
  deriving DecidableEq, Repr

/-- What is stored through an argument. -/
inductive Stored where
  | int (v : Int)
  | char (ch : Char)
  | wchar (l : List Char)
  | float (text : List Char)
  deriving DecidableEq, Repr

/-! ## `strtod` -/

/-- `isdigit`. -/
def isdigit (ch : Char) : Bool := '0' ≤ ch && ch ≤ '9'

/-- The loop over the mantissa: the number of digits, and the pointer behind them and behind the point. -/
def mantissa : List Char → Bool → Nat × List Char
  | [], _ => (0, [])
  | ch :: p, point =>
    if isdigit ch then ((mantissa p point).1 + 1, (mantissa p point).2)
    else if ch ≠ '.' ∨ point = true then (0, ch :: p)
    else mantissa p true

/-- Skip the exponent, if there is one. -/
def skipExponent (p : List Char) : List Char :=
  if deref p = 'E' ∨ deref p = 'e' then
    let q := if deref p.tail = '-' ∨ deref p.tail = '+' then p.tail.tail else p.tail
    if isdigit (deref q) then q.dropWhile isdigit else p
  else p

/-- `strtod`: the offset of `*endptr` in the string. -/
def strtod (str : List Char) : Nat :=
  let (size, p) := mantissa (skipSign (skipSpaces str)).2 false
  if size = 0 then 0 else str.length - (skipExponent p).length

/-! ## One conversion -/

/-- The size of the buffer for an input of a given width. -/
def bufSz : Nat := 128

/-- `sizeof(wchar_t)`. -/
def wcharSz : Nat := 4

/-- The value as a signed integer of `bits` bits. -/
def toSigned (bits val : Nat) : Int := Int.bmod val (2 ^ bits)

/-- The value as an unsigned integer of `bits` bits. -/
def toUnsigned (bits val : Nat) : Int := (val % 2 ^ bits : Nat)

/-- What `%d` and `%i` store. -/
def storeSigned (A : Arch) (length : Length) (val : Nat) : Int :=
  match length with
  | .none => toSigned 32 val
  | .hh => toSigned 8 val
  | .h => toSigned 16 val
  | .l => toSigned A.wordBits val
  | .z => toUnsigned A.wordBits val
  | .t => toSigned A.wordBits val
  | _ => toSigned 64 val

/-- What `%u`, `%o` and `%x` store. -/
def storeUnsigned (A : Arch) (length : Length) (val : Nat) : Int :=
  match length with
  | .none => toUnsigned 32 val
  | .hh => toUnsigned 8 val
  | .h => toUnsigned 16 val
  | .l => toUnsigned A.wordBits val
  | .z => toUnsigned A.wordBits val
  | .t => toSigned A.wordBits val
  | _ => toUnsigned 64 val

/-- A width was read. -/
def hasWidth (s : Spec) : Bool := s.present &&& widthPresent != 0

/-- `s`: the input, or what `strncpy` copies of it. -/
def source (str : List Char) (s : Spec) : List Char := if hasWidth s then str.take s.width else str

/-- The characters of a `wchar_t`: of the input, or of the buffer, with what `mem` holds behind the null
character. -/
def wideChars (mem : Nat → Char) (str : List Char) (s : Spec) : List Char :=
  if hasWidth s then
    (List.range wcharSz).map fun i => if i ≤ s.width then deref ((source str s).drop i) else mem i
  else (List.range wcharSz).map fun i => deref (str.drop i)

/-- `vsscan_spec` at the position `ptr`: the number of characters of the conversion, or minus one, and what is
stored. -/
def vsscanSpec (A : Arch) (mem : Nat → Char) (str : List Char) (ptr : Nat) (s : Spec) :
    Except ScanFault (Int × Option Stored) :=
  if hasWidth s = true ∧ bufSz ≤ s.width then .ok (-1, none)
  else do
    -- `strncpy` reads the first character unless the width is zero
    ensure (hasWidth s = true ∧ 0 < s.width → ptr ≤ str.length) (.past ptr)
    let p := str.drop ptr
    let src := source p s
    -- what is read directly begins at the position
    let direct := ensure (hasWidth s = false → ptr ≤ str.length) (.past ptr)
    if s.specifier = 'd' ∨ s.specifier = 'i' then do
      direct
      let (val, len) := strtoul A src 10
      pure (Int.bmod len (2 ^ 32), some (.int (storeSigned A s.length val)))
    else if s.specifier = 'u' ∨ s.specifier = 'o' ∨ s.specifier = 'x' ∨ s.specifier = 'X' then do
      direct
      let (val, len) := strtoul A src (baseOf s.specifier)
      pure (Int.bmod len (2 ^ 32), some (.int (storeUnsigned A s.length val)))
    else if s.specifier ∈ ['f', 'F', 'e', 'E', 'g', 'G', 'a', 'A'] then
      if s.length = .none ∨ s.length = .l then do
        direct
        pure (Int.bmod (strtod src) (2 ^ 32), some (.float (src.take (strtod src))))
      else .ok (-1, none)
    else if s.specifier = 'c' then
      if s.length = .none then do
        direct
        pure (1, some (.char (deref src)))
      else if s.length = .l then do
        -- the last character of four may be the null character
        ensure (hasWidth s = false → ptr + 3 ≤ str.length) (.past (ptr + 3))
        pure (wcharSz, some (.wchar (wideChars mem p s)))
      else .ok (-1, none)
    else .ok (-1, none)

/-! ## The format -/

/-- `Width_digits`. -/
def parseWidthDigits (s : Spec) (ch : Char) : Parsed :=
  if '0' ≤ ch ∧ ch ≤ '9' then
    .more .widthDigits
      { s with
        present := s.present ||| widthPresent
        width := Printf.addDigit s.width ch } []
  else Printf.parseLength s [] ch

/-- The stages of a conversion. -/
def parseSpec (parse : Stage) (s : Spec) (ch : Char) : Parsed :=
  match parse with
  | .widthDigits => parseWidthDigits s ch
  | .length => Printf.parseLength s [] ch
  | .lengthMayBeH => Printf.parseLengthMayBeH s [] ch
  | .lengthMayBeL => Printf.parseLengthMayBeL s [] ch
  | .specifier => Printf.parseSpecifier s [] ch
  -- `vsscanf` does not get into the other stages, and stays in them
  | parse => .more parse s []

/-- The variables of the loop, and what was stored. -/
structure Run where
  parse : Stage
  spec : Spec
  strPtr : Nat
  scannedCnt : Nat
  out : List Stored

/-- The loop of `vsscanf` over the characters of the format. -/
def loop (A : Arch) (mem : Nat → Char) (str : List Char) :
    List Char → Run → Except ScanFault (Int × List Stored)
  | [], r => .ok (r.scannedCnt, r.out)
  | ch :: format, r =>
    if ch = '\x00' then .ok (r.scannedCnt, r.out)
    else if r.parse = .none then
      if ch = '%' then
        loop A mem str format
          { r with
            parse := .widthDigits
            spec := .zero }
      else do
        ensure (r.strPtr ≤ str.length) (.past r.strPtr)
        if ch ≠ deref (str.drop r.strPtr) then pure (r.scannedCnt, r.out)
        else loop A mem str format { r with strPtr := (r.strPtr + 1) % 2 ^ 32 }
    else
      match parseSpec r.parse r.spec ch with
      | .more parse spec _ =>
        loop A mem str format
          { r with
            parse := parse
            spec := spec }
      | .done spec _ => do
        let (res, val) ← vsscanSpec A mem str r.strPtr spec
        if res < 0 then pure (-1, r.out ++ val.toList)
        else
          loop A mem str format
            ⟨.none, spec, (r.strPtr + res.toNat) % 2 ^ 32, r.scannedCnt + 1, r.out ++ val.toList⟩

/-- `vsscanf`: the result, and what was stored. -/
def vsscanf (A : Arch) (mem : Nat → Char) (str : List Char) (format : List Char) :
    Except ScanFault (Int × List Stored) :=
  loop A mem str format ⟨.none, .zero, 0, 0, []⟩

end Scanf
end Wrmos
