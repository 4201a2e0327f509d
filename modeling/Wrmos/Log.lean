import Wrmos.Arch
import Wrmos.Cbuf
import Wrmos.Lib.Ring

/-!
# The kernel log

`Log_buf_t` and `Log` of `krn/log.h`: a circular buffer of characters that is written with `overwrite` and read
string by string, from its end on.  Both loops walk the slots backwards, from the slot before the write
pointer to the slot before the read pointer, which they do not look at: it holds no character.

The log has 16 pages, so an index fits in `unsigned` and a length in `int`.
-/

namespace Wrmos

open Lib (Ring)

/-- `Log_buf_t`. -/
abbrev LogBuf := Cbuf Char

namespace LogBuf

/-- The slot before a slot. -/
def prev (sz i : Nat) : Nat := if i = 0 then sz - 1 else i - 1

/-- How often a loop over the slots goes round at most, from the slot before the write pointer on. -/
def rounds (c : LogBuf) : Nat := c.wp + c.sz + 1

/-- The loop of `strings`. -/
def stringsFrom (c : LogBuf) (rend : Nat) : Nat → Nat → Nat → Except Stop Nat
  | 0, _, _ => .error .outOfRounds
  | fuel + 1, i, cnt =>
    if i = rend then .ok cnt
    else stringsFrom c rend fuel (prev c.sz i) (if c.buf i = '\n' then cnt + 1 else cnt)

/-- `strings`. -/
def strings (c : LogBuf) : Except Stop Nat :=
  if c.rp = c.wp then .ok 0
  else stringsFrom c (prev c.sz c.rp) (rounds c) (prev c.sz c.wp) 0

/-- The loop of `get_string`: `str_s` and `str_e`, when the string is found. -/
def findFrom (c : LogBuf) (rend num : Nat) : Nat → Nat → Nat → Nat → Except Stop (Option (Nat × Nat))
  | 0, _, _, _ => .error .outOfRounds
  | fuel + 1, i, strE, cnt =>
    if i = rend then .ok none
    else
      let nextI := prev c.sz i
      if c.buf i = '\n' ∨ nextI = rend then
        if cnt = num then .ok (some (i, strE))
        else findFrom c rend num fuel nextI i (cnt + 1)
      else findFrom c rend num fuel nextI strE cnt

/-- The end of `get_string`, which copies `[str_s, str_e)`: how many characters, and which. -/
def copy (c : LogBuf) (len strS strE : Nat) : Nat × List Char :=
  if strS = strE then (0, [])
  else if strS < strE then
    let bytes := min len (strE - strS)
    (bytes, Cbuf.span c.buf strS bytes)
  else
    let bytes := min len (c.sz - strS)
    if bytes ≠ len then
      let l := min (len - bytes) strE
      (bytes + l, Cbuf.span c.buf strS bytes ++ Cbuf.span c.buf 0 l)
    else (bytes, Cbuf.span c.buf strS bytes)

/-- Step over a character at the start of the string. -/
def skip (c : LogBuf) (x : Char) (strS : Nat) : Nat := if c.buf strS = x then Ring.next c.sz strS else strS

/-- `get_string`: what it returns, and the characters it copies to `str`. -/
def getString (c : LogBuf) (num len : Nat) : Except Stop (Int × List Char) :=
  if c.rp = c.wp then .ok (-1, [])
  else
    let rbegin := prev c.sz c.wp
    (findFrom c (prev c.sz c.rp) num (rounds c) rbegin rbegin 0).map fun
      | none => (-1, [])
      | some (strS, strE) =>
        if strS = rbegin then (0, [])
        else
          let r := copy c len (skip c '\r' (skip c '\n' strS)) strE
          (r.1, r.2)

end LogBuf

namespace Log

/-- `init`. -/
def init (buf : Nat → Char) (sz : Nat) : LogBuf := Cbuf.init buf sz

/-- `write`. -/
def write (c : LogBuf) (buf : List Char) : LogBuf := (c.overwrite buf).1

/-- What `dump` prints of string `i`, of which it has room for 127 characters. -/
def dumpString (c : LogBuf) (prompt : List Char) (i : Nat) : Except Stop (List Char) :=
  (LogBuf.getString c i 127).map fun (len, str) =>
    if len < 0 then []
    else if i = 1 ∧ len = 0 then []
    else prompt ++ str ++ "\r\n".toList ++ "\x1b[0m".toList

/-- The loop of `dump`. -/
def dumpFrom (c : LogBuf) (prompt : List Char) : Nat → Except Stop (List Char)
  | 0 => .ok []
  | i + 1 => do
    let line ← dumpString c prompt (i + 1)
    let rest ← dumpFrom c prompt i
    pure (line ++ rest)

/-- `dump`. -/
def dump (c : LogBuf) (prompt : List Char) (lines : Int) : Except Stop (List Char) := do
  if lines = -1 then dumpFrom c prompt (← LogBuf.strings c)
  else dumpFrom c prompt lines.toNat

end Log
end Wrmos
