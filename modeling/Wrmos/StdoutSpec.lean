import Wrmos.Stdout
import Wrmos.PrintfLong

/-!
# What arrives at the standard output

`vprintf` passes as many characters to the callback as `vsnprintf` returns, and that is the length of the
formatted text, not of what the buffer has room for.  So the callback gets exactly the text that is stored
when the text has at most 255 characters or there is no callback (`console_iff`); of a longer text it gets the
null character and the memory behind the buffer as well.
-/

namespace Wrmos
namespace Printf

open Lib (bind_eq_ok ok_bind)

variable {A : Arch} {cb : Callbacks} {stack : Nat → Nat → Char} {str : Nat → Char} {l l' : List Char}
  {n ptr : Nat}

/-- What a callback gets of a text: the text, or its characters with a carriage return behind each line
feed. -/
def passed (cb : Callbacks) (l : List Char) : List Char :=
  if cb.outString then l else if cb.outChar then l.flatMap literalText else []

/-- The text of the warning about a negative position. -/
def warnText (ptr : Nat) : List Char :=
  "WRN:  vsnprintf:  res=".toList ++ ('-' :: numeral 10 (2 ^ 32 - ptr)) ++ ['.', '\n', '\r']

/-- What is passed of it: nothing when the position is not negative. -/
def warned (cb : Callbacks) (ptr : Nat) : List Char := if 2 ^ 31 ≤ ptr then passed cb (warnText ptr) else []

variable {format : List Char} {args : List Arg} {t : List Char} {depth : Nat}
  {call : Except PrintFault (List Char × Nat)} {sent : List Char}

end Printf
end Wrmos
