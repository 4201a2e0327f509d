import Wrmos.Arch
import Wrmos.Lib.Outcome
import Mathlib.Logic.Function.Basic

/-!
# `vsnprintf`

The formatted output of `wlibc/src/stdio.c`: a state machine over the characters of the format, and the
printers of the conversions, which get the rest of the buffer as a buffer of their own.  `store` stops the
model at an index behind the buffer, and `digits` at an index behind the array of the digits.

`add_char` takes the size as an `unsigned`, and so does `min`: of a `size_t` only the low 32 bits arrive.
What the printers return is an `int`, which stands here as the `unsigned` of the same bits.

An argument is an integer, a string or a pointer for `%n`; one of the wrong kind, or none, stops the model,
and so do the conversions of floating-point numbers.  A string ends before its first null character.
-/

namespace Wrmos

open Lib (ensure)

/-- How a call ends without a result: an index behind the buffer or behind the digits, an argument that is
missing or of another kind, a conversion that is not part of the model, a panic. -/
inductive PrintFault where
  | overflow (i : Nat)
  | digits
  | args
  | float
  | panic
  deriving DecidableEq, Repr

namespace Printf

/-- `Parse_stage`. -/
inductive Stage where
  | none
  | flags
  | widthMayBeAsterisk
  | widthDigits
  | precisionDotOrAbsent
  | precisionMayBeAsterisk
  | precisionDigits
  | length
  | lengthMayBeH
  | lengthMayBeL
  | specifier
  deriving DecidableEq, Repr

/-- `Length_spec`. -/
inductive Length where
  | none
  | hh
  | h
  | l
  | ll
  | j
  | z
  | t
  | L
  deriving DecidableEq, Repr

/-- The bits of `flags`. -/
def alignLeft : Nat := 1
def forceSign : Nat := 2
def spaceInsteadPlus : Nat := 4
def alternate : Nat := 8
def nullPad : Nat := 16

/-- The bits of `present`. -/
def flagsPresent : Nat := 1
def widthPresent : Nat := 2
def precisionPresent : Nat := 4
def lengthPresent : Nat := 8
def specifierPresent : Nat := 16

/-- `Spec_t`. -/
structure Spec where
  present : Nat
  flags : Nat
  width : Nat
  precision : Nat
  length : Length
  specifier : Char
  deriving DecidableEq, Repr

/-- `memset(&spec, 0, sizeof(spec))`. -/
def Spec.zero : Spec := ⟨0, 0, 0, 0, .none, '\x00'⟩

/-- Whether a flag is set. -/
def Spec.has (s : Spec) (flag : Nat) : Bool := s.flags &&& flag != 0

/-- An argument. -/
inductive Arg where
  | int (v : Int)
  | str (s : List Char)
  | out
  deriving DecidableEq, Repr

/-! ## The buffer -/

/-- A part of the buffer of `cap` characters: what begins at `base` is handed on with the size `sz`. -/
structure Window where
  cap : Nat
  base : Nat
  sz : Nat

/-- A buffer and the number of characters that were printed to it. -/
structure Out where
  buf : Nat → Char
  ptr : Nat

/-- Store a character. -/
def store (cap : Nat) (buf : Nat → Char) (i : Nat) (ch : Char) : Except PrintFault (Nat → Char) := do
  ensure (i < cap) (.overflow i)
  pure (Function.update buf i ch)

/-- `buf_ptr += add_char(buf, sz, buf_ptr, ch)`. -/
def addChar (w : Window) (o : Out) (ch : Char) : Except PrintFault Out := do
  let buf ← (if o.ptr < w.sz % 2 ^ 32 then store w.cap o.buf (w.base + o.ptr) ch else pure o.buf)
  pure ⟨buf, (o.ptr + 1) % 2 ^ 32⟩

/-- `buf_ptr += add_chars(buf, sz, buf_ptr, ch, count)`. -/
def addChars (w : Window) (ch : Char) : Nat → Out → Except PrintFault Out
  | 0, o => .ok o
  | count + 1, o => do
    let o ← addChar w o ch
    addChars w ch count o

/-- The characters of a string or of an array one after the other. -/
def addStr (w : Window) : List Char → Out → Except PrintFault Out
  | [], o => .ok o
  | ch :: str, o => do
    let o ← addChar w o ch
    addStr w str o

/-! ## The printers -/

/-- `mod<0xa ? '0'+mod : 'a'+mod-10`. -/
def digitChar (d : Nat) : Char := if d < 0xa then Char.ofNat ('0'.toNat + d) else Char.ofNat ('a'.toNat + d - 10)

/-- The loop that prepares the digits, the last one first, with the room left in the array. -/
def digits (base : Nat) : Nat → Nat → Except PrintFault (List Char)
  | 0, _ => .error .digits
  | n + 1, val =>
    if val / base = 0 then .ok [digitChar (val % base)]
    else (digitChar (val % base) :: ·) <$> digits base n (val / base)

/-- `Len`. -/
def digitsLen : Nat := 22

/-- The sign that `snprint_64bit_int` prepares; the null character is none. -/
def sign (s : Spec) (base : Nat) (positive : Bool) : Char :=
  if base = 10 then
    if positive then
      if s.has forceSign then '+' else if s.has spaceInsteadPlus then ' ' else '\x00'
    else '-'
  else '\x00'

/-- The prefix that `snprint_64bit_int` prepares: the base, or zero for none. -/
def altPrefix (s : Spec) (base : Nat) : Nat :=
  if s.has alternate = true ∧ (base = 8 ∨ base = 16) then base else 0

/-- `snprint_64bit_int`. -/
def snprint64bitInt (w : Window) (buf : Nat → Char) (val : Nat) (s : Spec) (base : Nat) (positive : Bool) :
    Except PrintFault Out :=
  if base ≠ 8 ∧ base ≠ 10 ∧ base ≠ 16 then .ok ⟨buf, 0⟩
  else do
    let ds ← digits base digitsLen val
    let sgn := sign s base positive
    let pre := altPrefix s base
    let len := (max ds.length s.precision + (if sgn ≠ '\x00' then 1 else 0)) % 2 ^ 32
    let len := (len + (if pre = 16 then 2 else if pre = 8 then 1 else 0)) % 2 ^ 32
    let pad := if s.has nullPad then '0' else ' '
    let o ← (if s.has alignLeft = false ∧ len < s.width then addChars w pad (s.width - len) ⟨buf, 0⟩
      else .ok ⟨buf, 0⟩)
    let o ← (if sgn ≠ '\x00' then addChar w o sgn else .ok o)
    let o ← (if pre ≠ 0 then addChar w o '0' else .ok o)
    let o ← (if pre = 16 then addChar w o 'x' else .ok o)
    let o ← (if ds.length < s.precision then addChars w '0' (s.precision - ds.length) o else .ok o)
    let o ← addStr w ds.reverse o
    if s.has alignLeft = true ∧ len < s.width then addChars w pad (s.width - len) o else .ok o

/-- `snprint_uint64`. -/
def snprintUint64 (w : Window) (buf : Nat → Char) (val : Nat) (s : Spec) (base : Nat) : Except PrintFault Out :=
  snprint64bitInt w buf val s base true

/-- `snprint_int64`. -/
def snprintInt64 (w : Window) (buf : Nat → Char) (val : Int) (s : Spec) (base : Nat) : Except PrintFault Out :=
  snprint64bitInt w buf val.natAbs s base (decide (0 ≤ val))

/-- `snprint_char`. -/
def snprintChar (w : Window) (buf : Nat → Char) (ch : Char) (s : Spec) : Except PrintFault Out := do
  let o ← (if s.has alignLeft = false ∧ 1 < s.width then addChars w ' ' (s.width - 1) ⟨buf, 0⟩
    else .ok ⟨buf, 0⟩)
  let o ← addChar w o ch
  if s.has alignLeft = true ∧ 1 < s.width then addChars w ' ' (s.width - 1) o else .ok o

/-- The number of characters of a string that `snprint_str` prints. -/
def strLen (str : List Char) (s : Spec) : Nat :=
  if s.present &&& precisionPresent ≠ 0 then min (str.length % 2 ^ 32) s.precision
  else str.length % 2 ^ 32

/-- `snprint_str`. -/
def snprintStr (w : Window) (buf : Nat → Char) (str : List Char) (s : Spec) : Except PrintFault Out := do
  let len := strLen str s
  let o ← (if s.has alignLeft = false ∧ len < s.width then addChars w ' ' (s.width - len) ⟨buf, 0⟩
    else .ok ⟨buf, 0⟩)
  let o ← addStr w (str.take len) o
  if s.has alignLeft = true ∧ len < s.width then addChars w ' ' (s.width - len) o else .ok o

/-! ## The arguments -/

/-- The next argument, an integer. -/
def vaInt : List Arg → Except PrintFault (Int × List Arg)
  | .int v :: args => .ok (v, args)
  | _ => .error .args

/-- The next argument, a string. -/
def vaStr : List Arg → Except PrintFault (List Char × List Arg)
  | .str v :: args => .ok (v, args)
  | _ => .error .args

/-- The next argument, a pointer to what `%n` is stored to. -/
def vaOut : List Arg → Except PrintFault (List Arg)
  | .out :: args => .ok args
  | _ => .error .args

/-- The value as an unsigned integer of `bits` bits. -/
def toUnsigned (bits : Nat) (v : Int) : Nat := (v % 2 ^ bits).toNat

/-- What `%d` and `%i` read: the value of an `int64_t`. -/
def vaSigned (A : Arch) (length : Length) (v : Int) : Int :=
  match length with
  | .none => Int.bmod v (2 ^ 32)
  | .hh => toUnsigned 8 v
  | .h => toUnsigned 16 v
  | .l => Int.bmod v (2 ^ A.wordBits)
  | .z => Int.bmod (toUnsigned A.wordBits v) (2 ^ 64)
  | .t => Int.bmod v (2 ^ A.wordBits)
  | _ => Int.bmod v (2 ^ 64)

/-- What `%u`, `%o` and `%x` read: the value of a `uint64_t`. -/
def vaUnsigned (A : Arch) (length : Length) (v : Int) : Nat :=
  match length with
  | .none => toUnsigned 32 v
  | .hh => toUnsigned 8 v
  | .h => toUnsigned 16 v
  | .l => toUnsigned A.wordBits v
  | .z => toUnsigned A.wordBits v
  | .t => toUnsigned 64 (Int.bmod v (2 ^ A.wordBits))
  | _ => toUnsigned 64 v

/-! ## One conversion -/

/-- `-1` as an `unsigned`. -/
def minusOne : Nat := 2 ^ 32 - 1

/-- The base of an unsigned conversion. -/
def baseOf (specifier : Char) : Nat := if specifier = 'u' then 10 else if specifier = 'o' then 8 else 16

/-- `vsnprint_spec`: what was printed, or minus one, and the arguments that are left. -/
def vsnprintSpec (A : Arch) (w : Window) (buf : Nat → Char) (args : List Arg) (s : Spec) :
    Except PrintFault (Out × List Arg) :=
  if s.specifier = 'd' ∨ s.specifier = 'i' then do
    let (v, args) ← vaInt args
    let o ← snprintInt64 w buf (vaSigned A s.length v) s 10
    pure (o, args)
  else if s.specifier = 'u' ∨ s.specifier = 'o' ∨ s.specifier = 'x' ∨ s.specifier = 'X' then do
    let (v, args) ← vaInt args
    let o ← snprintUint64 w buf (vaUnsigned A s.length v) s (baseOf s.specifier)
    pure (o, args)
  else if s.specifier ∈ ['f', 'F', 'e', 'E', 'g', 'G', 'a', 'A'] then
    if s.length = .none then .error .float else .ok (⟨buf, minusOne⟩, args)
  else if s.specifier = 'c' then
    if s.length = .none ∨ s.length = .l then do
      let (v, args) ← vaInt args
      let o ← snprintChar w buf (Char.ofNat (toUnsigned 8 v)) s
      pure (o, args)
    else .ok (⟨buf, minusOne⟩, args)
  else if s.specifier = 's' then
    if s.length = .none then do
      let (v, args) ← vaStr args
      let o ← snprintStr w buf v s
      pure (o, args)
    -- `snprint_wstr` is a panic
    else if s.length = .l then .error .panic
    else .ok (⟨buf, minusOne⟩, args)
  else if s.specifier = 'p' then
    if s.length = .none then do
      let (v, args) ← vaInt args
      let o ← snprintUint64 w buf (toUnsigned A.wordBits v) s 16
      pure (o, args)
    else .ok (⟨buf, minusOne⟩, args)
  else if s.specifier = 'n' then do
    let args ← vaOut args
    pure (⟨buf, 0⟩, args)
  else if s.specifier = '%' then
    if s.present = specifierPresent then
      if 0 < w.sz then do
        let buf ← store w.cap buf w.base '%'
        pure (⟨buf, 1⟩, args)
      else .ok (⟨buf, 1⟩, args)
    else .ok (⟨buf, minusOne⟩, args)
  else .ok (⟨buf, minusOne⟩, args)

/-! ## The format -/

/-- What a character of a conversion leads to: to the next stage, or to the end of the conversion. -/
inductive Parsed where
  | more (parse : Stage) (spec : Spec) (args : List Arg)
  | done (spec : Spec) (args : List Arg)

/-- `Specifier`. -/
def parseSpecifier (s : Spec) (args : List Arg) (ch : Char) : Parsed :=
  .done
    { s with
      present := s.present ||| specifierPresent
      specifier := ch } args

/-- `Length_may_be_l`. -/
def parseLengthMayBeL (s : Spec) (args : List Arg) (ch : Char) : Parsed :=
  if ch = 'l' then .more .specifier { s with length := .ll } args else parseSpecifier s args ch

/-- `Length_may_be_h`. -/
def parseLengthMayBeH (s : Spec) (args : List Arg) (ch : Char) : Parsed :=
  if ch = 'h' then .more .specifier { s with length := .hh } args else parseSpecifier s args ch

/-- A length modifier was read. -/
def Spec.setLength (s : Spec) (length : Length) : Spec :=
  { s with
    present := s.present ||| lengthPresent
    length := length }

/-- `Length`. -/
def parseLength (s : Spec) (args : List Arg) (ch : Char) : Parsed :=
  if ch = 'h' then .more .lengthMayBeH (s.setLength .h) args
  else if ch = 'l' then .more .lengthMayBeL (s.setLength .l) args
  else if ch = 'j' then .more .specifier (s.setLength .j) args
  else if ch = 'z' then .more .specifier (s.setLength .z) args
  else if ch = 't' then .more .specifier (s.setLength .t) args
  else if ch = 'L' then .more .specifier (s.setLength .L) args
  else parseSpecifier s args ch

/-- `n * 10 + (ch - '0')`. -/
def addDigit (n : Nat) (ch : Char) : Nat := (n * 10 + (ch.toNat - '0'.toNat)) % 2 ^ 32

/-- `Precision_digits`. -/
def parsePrecisionDigits (s : Spec) (args : List Arg) (ch : Char) : Parsed :=
  if '0' ≤ ch ∧ ch ≤ '9' then .more .precisionDigits { s with precision := addDigit s.precision ch } args
  else parseLength s args ch

/-- `Precision_may_be_asterisk`. -/
def parsePrecisionMayBeAsterisk (s : Spec) (args : List Arg) (ch : Char) : Except PrintFault Parsed :=
  if ch = '*' then do
    let (v, args) ← vaInt args
    pure (.more .length { s with precision := toUnsigned 32 v } args)
  else .ok (parsePrecisionDigits s args ch)

/-- `Precision_dot_or_absent`. -/
def parsePrecisionDotOrAbsent (s : Spec) (args : List Arg) (ch : Char) : Parsed :=
  if ch = '.' then
    .more .precisionMayBeAsterisk { s with present := s.present ||| precisionPresent } args
  else parseLength s args ch

/-- `Width_digits`. -/
def parseWidthDigits (s : Spec) (args : List Arg) (ch : Char) : Parsed :=
  if '0' ≤ ch ∧ ch ≤ '9' then
    .more .widthDigits
      { s with
        present := s.present ||| widthPresent
        width := addDigit s.width ch } args
  else parsePrecisionDotOrAbsent s args ch

/-- `Width_may_be_asterisk`. -/
def parseWidthMayBeAsterisk (s : Spec) (args : List Arg) (ch : Char) : Except PrintFault Parsed :=
  if ch = '*' then do
    let (v, args) ← vaInt args
    pure (.more .precisionDotOrAbsent
      { s with
        present := s.present ||| widthPresent
        width := toUnsigned 32 v } args)
  else .ok (parseWidthDigits s args ch)

/-- A flag was read. -/
def Spec.setFlag (s : Spec) (flag : Nat) : Spec :=
  { s with
    present := s.present ||| flagsPresent
    flags := s.flags ||| flag }

/-- `Flags`. -/
def parseFlags (s : Spec) (args : List Arg) (ch : Char) : Except PrintFault Parsed :=
  if ch = '-' then .ok (.more .flags (s.setFlag alignLeft) args)
  else if ch = '+' then .ok (.more .flags (s.setFlag forceSign) args)
  else if ch = ' ' then .ok (.more .flags (s.setFlag spaceInsteadPlus) args)
  else if ch = '#' then .ok (.more .flags (s.setFlag alternate) args)
  else if ch = '0' then .ok (.more .flags (s.setFlag nullPad) args)
  else parseWidthMayBeAsterisk s args ch

/-- The stages of a conversion; each goes on with the next one when it does not know the character. -/
def parseSpec (parse : Stage) (s : Spec) (args : List Arg) (ch : Char) : Except PrintFault Parsed :=
  match parse with
  | .none => parseFlags s args ch
  | .flags => parseFlags s args ch
  | .widthMayBeAsterisk => parseWidthMayBeAsterisk s args ch
  | .widthDigits => .ok (parseWidthDigits s args ch)
  | .precisionDotOrAbsent => .ok (parsePrecisionDotOrAbsent s args ch)
  | .precisionMayBeAsterisk => parsePrecisionMayBeAsterisk s args ch
  | .precisionDigits => .ok (parsePrecisionDigits s args ch)
  | .length => .ok (parseLength s args ch)
  | .lengthMayBeH => .ok (parseLengthMayBeH s args ch)
  | .lengthMayBeL => .ok (parseLengthMayBeL s args ch)
  | .specifier => .ok (parseSpecifier s args ch)

/-- The variables of the loop. -/
structure Run where
  parse : Stage
  spec : Spec
  args : List Arg
  out : Out

/-- A character outside of a conversion: a line feed brings a carriage return. -/
def literal (w : Window) (o : Out) (ch : Char) : Except PrintFault Out := do
  let o ← addChar w o ch
  if ch = '\n' then addChar w o '\r' else pure o

/-- The loop of `vsnprintf` over the characters of the format. -/
def loop (A : Arch) (sz : Nat) : List Char → Run → Except PrintFault Out
  | [], r => .ok r.out
  | ch :: format, r =>
    if ch = '\x00' then .ok r.out
    else if r.parse = .none then
      if ch = '%' then
        loop A sz format
          { r with
            parse := .flags
            spec := .zero }
      else do
        let o ← literal ⟨sz, 0, sz⟩ r.out ch
        loop A sz format { r with out := o }
    else do
      match ← parseSpec r.parse r.spec r.args ch with
      | .more parse spec args => loop A sz format ⟨parse, spec, args, r.out⟩
      | .done spec args => do
        let p := min (sz % 2 ^ 32) r.out.ptr
        let (o, args) ← vsnprintSpec A ⟨sz, p, sz - p⟩ r.out.buf args spec
        -- a negative result ends the loop
        if 2 ^ 31 ≤ o.ptr then pure o
        else loop A sz format ⟨.none, spec, args, o.buf, (r.out.ptr + o.ptr) % 2 ^ 32⟩

/-- `vsnprintf`: the buffer and the length.  The warning about an error is not part of the model. -/
def vsnprintf (A : Arch) (buf : Nat → Char) (sz : Nat) (format : List Char) (args : List Arg) :
    Except PrintFault ((Nat → Char) × Nat) := do
  let o ← loop A sz format ⟨.none, .zero, args, buf, 0⟩
  let buf ← (if sz = 0 then .ok o.buf
    else if 2 ^ 31 ≤ o.ptr then store sz o.buf 0 '\x00'
    else if o.ptr < sz then store sz o.buf o.ptr '\x00'
    else store sz o.buf (sz - 1) '\x00')
  pure (buf, if 2 ^ 31 ≤ o.ptr then 0 else o.ptr)

end Printf

end Wrmos
