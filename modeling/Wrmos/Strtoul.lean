import Wrmos.Arch

/-!
# `strtoul`

The conversion of `wlibc/src/stdlib.c`.  A string is the list of its characters before the terminating
null, and a pointer into it is the list of the characters from there on, so that the null character is read
at the end of a list.  `unsigned long` has the size of a machine word.

The four loops over digits are `digitLoop`, each with its own digits, its own bound and its own way to make
room for the next digit.
-/

namespace Wrmos
namespace Strtoul

/-- `*p`. -/
def deref (p : List Char) : Char := p.headD '\x00'

/-- `isspace`, by the table of `ctype.c`. -/
def isspace (ch : Char) : Bool := (9 ≤ ch.toNat && ch.toNat ≤ 13) || ch.toNat == 32

/-- `char2digit`. -/
def char2digit : List Nat :=
  List.range 10 ++ List.replicate 7 99 ++ (List.range 26).map (· + 10) ++ List.replicate 6 99 ++
    (List.range 26).map (· + 10)

/-- `*p - '0'` as an `unsigned`.  For a character above `0x7f` it is out of every range, whether `char` has
a sign or not. -/
def offset0 (ch : Char) : Nat := (ch.toNat + (2 ^ 32 - 48)) % 2 ^ 32

/-- `result`, `overflow` and `any_digits`. -/
structure Acc where
  result : Nat
  overflow : Bool
  anyDigits : Bool
  deriving DecidableEq, Repr

variable (A : Arch)

/-- `ULONG_MAX`. -/
def ulongMax : Nat := 2 ^ A.wordBits - 1

/-- One digit more. -/
def Acc.push (maxres : Nat) (scale : Nat → Nat) (a : Acc) (digit : Nat) : Acc :=
  let result := scale a.result
  ⟨(result + digit) % 2 ^ A.wordBits,
    a.overflow || decide (maxres < a.result) || decide (ulongMax A - result < digit), true⟩

/-- A loop over the digits. -/
def digitLoop (digitOf : Char → Option Nat) (maxres : Nat) (scale : Nat → Nat) :
    List Char → Acc → Acc × List Char
  | [], a => (a, [])
  | ch :: p, a =>
    match digitOf ch with
    | none => (a, ch :: p)
    | some digit => digitLoop digitOf maxres scale p (a.push A maxres scale digit)

/-- A digit of the loops that do not look into the table. -/
def plainDigit (last : Nat) (ch : Char) : Option Nat :=
  if last < offset0 ch then none else some (offset0 ch)

/-- A digit of the loops that look into the table; `last` is the last digit. -/
def tableDigit (last : Nat) (ch : Char) : Option Nat :=
  if 122 - 48 < offset0 ch then none
  else
    let digit := char2digit.getD (offset0 ch) 0
    if last < digit then none else some digit

/-- The loop for the base 8. -/
def loop8 : List Char → Acc → Acc × List Char :=
  digitLoop A (plainDigit 7) (ulongMax A >>> 3) fun result => (result <<< 3) % 2 ^ A.wordBits

/-- The loop for the base 10. -/
def loop10 : List Char → Acc → Acc × List Char :=
  digitLoop A (plainDigit 9) (ulongMax A / 10) fun result => (result * 10) % 2 ^ A.wordBits

/-- The loop for the base 16. -/
def loop16 : List Char → Acc → Acc × List Char :=
  digitLoop A (tableDigit 15) (ulongMax A >>> 4) fun result => (result <<< 4) % 2 ^ A.wordBits

/-- The loop for the other bases; `digit >= base` ends it. -/
def loopBase (base : Nat) : List Char → Acc → Acc × List Char :=
  digitLoop A (tableDigit (base - 1)) (ulongMax A / base) fun result => (result * base) % 2 ^ A.wordBits

/-- Skip the spaces. -/
def skipSpaces : List Char → List Char
  | [] => []
  | ch :: p => if isspace ch then skipSpaces p else ch :: p

/-- Skip the sign; whether it was a minus. -/
def skipSign (p : List Char) : Bool × List Char :=
  if deref p = '-' then (true, p.tail)
  else if deref p = '+' then (false, p.tail)
  else (false, p)

/-- `'x'` or `'X'`. -/
def isX (ch : Char) : Bool := ch == 'x' || ch == 'X'

/-- Find the base, and skip the prefix: the base, `any_digits` and the pointer. -/
def skipPrefix (base : Nat) (p : List Char) : Nat × Bool × List Char :=
  if base = 0 then
    if deref p = '0' then
      if isX (deref p.tail) = true then (16, false, p.tail.tail) else (8, true, p.tail)
    else (10, false, p)
  else if base = 16 then
    if deref p = '0' ∧ isX (deref p.tail) = true then (16, false, p.tail.tail) else (16, false, p)
  else (base, false, p)

/-- The loop for the base. -/
def loopFor (base : Nat) (p : List Char) (a : Acc) : Acc × List Char :=
  if base = 8 then loop8 A p a
  else if base = 10 then loop10 A p a
  else if base = 16 then loop16 A p a
  else if 2 ≤ base ∧ base ≤ 36 then loopBase A base p a
  else (a, p)

/-- `strtoul`: the result, and the offset of `*endptr` in the string. -/
def strtoul (str : List Char) (base : Nat) : Nat × Nat :=
  let (negative, p) := skipSign (skipSpaces str)
  let (base, anyDigits, p) := skipPrefix base p
  let (a, p) := loopFor A base p ⟨0, false, anyDigits⟩
  let p := if a.anyDigits then p else str
  (if a.overflow then ulongMax A
    else if negative then (2 ^ A.wordBits - a.result) % 2 ^ A.wordBits
    else a.result, str.length - p.length)

end Strtoul
end Wrmos
