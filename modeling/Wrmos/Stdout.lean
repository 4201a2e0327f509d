import Wrmos.Printf

/-!
# The standard output

`vprintf` and `puts` of `wlibc/src/stdio.c`: the text is printed to a local buffer of 256 characters, and
`putsn` passes the buffer to the callback, a string at once or one character after the other.  What is
recorded is the list of all the characters that a callback gets.

`vsnprintf` prints a warning of its own when a conversion fails, by `printf`, so the calls nest.  Each call
has its part of the stack, with the local buffer at its beginning; the model stops when there is no part
left.
-/

namespace Wrmos
namespace Printf

/-- The callbacks of `Wlibc_callbacks_t` that are set. -/
structure Callbacks where
  outString : Bool
  outChar : Bool
  deriving DecidableEq, Repr

/-- The loop of `putsn` over the characters from `i` on. -/
def putChars (str : Nat → Char) : Nat → Nat → List Char
  | _, 0 => []
  | i, len + 1 => (str i :: if str i = '\n' then ['\r'] else []) ++ putChars str (i + 1) len

/-- `putsn`: the characters that the callback gets, and the result. -/
def putsn (cb : Callbacks) (str : Nat → Char) (len : Nat) : List Char × Nat :=
  if len = 0 then ([], 0)
  else if cb.outString then ((List.range len).map str, 0)
  else if cb.outChar then (putChars str 0 len, 0)
  else ([], 1)

/-- The format of the warning. -/
def warnFormat : List Char := "WRN:  %s:  res=%d.\n".toList

/-- `vsnprintf` with the warning that it prints when `buf_ptr` is negative. -/
def vsnprintfWarns (A : Arch) (printf : List Char → List Arg → Except PrintFault (List Char × Nat))
    (buf : Nat → Char) (sz : Nat) (format : List Char) (args : List Arg) :
    Except PrintFault (List Char × (Nat → Char) × Nat) := do
  let o ← loop A sz format ⟨.none, .zero, args, buf, 0⟩
  let (buf, res) ← vsnprintf A buf sz format args
  let (warned, _) ← (if 2 ^ 31 ≤ o.ptr then printf warnFormat [.str "vsnprintf".toList, .int o.ptr]
    else .ok ([], 0))
  pure (warned, buf, res)

/-- The size of the local buffer. -/
def strSz : Nat := 256

/-- `vprintf`: the characters that the callback gets, and the result. -/
def vprintf (A : Arch) (cb : Callbacks) (stack : Nat → Nat → Char) :
    Nat → List Char → List Arg → Except PrintFault (List Char × Nat)
  | 0, _, _ => .error .panic
  | depth + 1, format, args => do
    let (warned, str, res) ← vsnprintfWarns A (vprintf A cb stack depth) (stack depth) strSz format args
    let sent := if 0 < res then (putsn cb str res).1 else []
    pure (warned ++ sent, res)

/-- `puts`. -/
def puts (A : Arch) (cb : Callbacks) (stack : Nat → Nat → Char) (depth : Nat) (str : List Char) :
    Except PrintFault (List Char × Nat) := do
  let (warned, s, res) ←
    vsnprintfWarns A (vprintf A cb stack depth) (stack depth) strSz "%s\n".toList [.str str]
  let sent := if 0 < res then (putsn cb s res).1 else []
  pure (warned ++ sent, res)

end Printf
end Wrmos
