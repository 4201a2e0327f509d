import Wrmos.Lib.Outcome
import Mathlib.Logic.Function.Basic

/-!
# The line editor of the shell

`shell` reads characters and keeps a line and a position in it: characters are inserted and removed, the line
is exchanged with a line of the history, a tabulator completes the name of a command, and the end of the line
calls a command.  A line has room for `Line_sz` characters and no null character behind them.  A write behind
a line, behind the copy of it that `run_cmd` cuts into words or behind the table of words stops the model, and
so does an assertion that fails.

What is printed is not part of the model, nor is the last character, which only decides whether the commands
are listed.
-/

namespace Wrmos
namespace Shell

open Lib (ensure)

/-- How a call ends without a result: an index behind an array of characters, an index behind the table of
words, an assertion. -/
inductive Fault where
  | overflow (i : Nat)
  | argv (i : Nat)
  | assertion (expr : String)
  deriving DecidableEq, Repr

def lineSz : Nat := 32

/-- `line_t`. -/
structure Line where
  str : Nat → UInt8
  len : Nat

/-- The commands: their names are strings that are shorter than a line. -/
structure Cmds where
  names : List (List UInt8)
  short : ∀ name ∈ names, name.length < lineSz
  nonNull : ∀ name ∈ names, 0 ∉ name

/-- The history, and the ids of its first, last and current line. -/
structure History where
  lines : Fin 32 → Line
  first : Fin 32
  last : Fin 32
  cur : Fin 32

/-- Which of the calls of `getchar` waits: that of the loop, or one of those behind an escape. -/
inductive Mode where
  | key
  | esc
  | bracket
  | three
  deriving DecidableEq, Repr

/-- The variables of `shell`. -/
structure Call where
  line : Line
  wp : Nat
  mode : Mode

/-- The history, and the variables of `shell` while it runs. -/
structure State where
  history : History
  call : Option Call

/-- `shell` is called, or it reads a character, where `ret` is what the handler of a command returns if one is
called.  The stack holds `stack` where an array is not initialised. -/
inductive Event where
  | call (stack : Nat → UInt8)
  | char (c : UInt8) (ret : Int) (stack : Nat → UInt8)

/-! ## Lines -/

/-- Write a character to an array of `cap`. -/
def store (cap : Nat) (str : Nat → UInt8) (i : Nat) (ch : UInt8) : Except Fault (Nat → UInt8) := do
  ensure (i < cap) (.overflow i)
  .ok (Function.update str i ch)

/-- `for (i=begin; i>wp; --i) str[i] = str[i-1]`. -/
def shiftRight (wp : Nat) : Nat → (Nat → UInt8) → Except Fault (Nat → UInt8)
  | 0, str => .ok str
  | i + 1, str =>
    if wp < i + 1 then do
      let str ← store lineSz str (i + 1) (str i)
      shiftRight wp i str
    else .ok str

/-- `insert_char`. -/
def insertChar (line : Line) (wp : Nat) (ch : UInt8) : Except Fault Line := do
  ensure (wp ≤ line.len) (.assertion "wp <= line->len")
  ensure (line.len ≤ lineSz) (.assertion "line->len <= Line_sz")
  let str ← shiftRight wp (if line.len = lineSz then lineSz - 1 else line.len) line.str
  let str ← store lineSz str wp ch
  .ok ⟨str, if line.len < lineSz then line.len + 1 else line.len⟩

/-- `for (i=i; …; ++i) str[i] = str[i+1]`, `n` times. -/
def shiftLeft : Nat → Nat → (Nat → UInt8) → Except Fault (Nat → UInt8)
  | 0, _, str => .ok str
  | n + 1, i, str => do
    let str ← store lineSz str i (str (i + 1))
    shiftLeft n (i + 1) str

/-- `remove_char`. -/
def removeChar (line : Line) (wp : Nat) : Except Fault Line := do
  ensure (wp ≤ line.len) (.assertion "wp <= line->len")
  ensure (line.len ≠ 0) (.assertion "line->len")
  let str ← shiftLeft (line.len - 1 - wp) wp line.str
  .ok ⟨str, line.len - 1⟩

/-- The loops of `strncpy`: behind the end of the string come null characters. -/
def strncpyLoop (cap : Nat) (src : Nat → UInt8) :
    Nat → Nat → Bool → (Nat → UInt8) → Except Fault (Nat → UInt8)
  | 0, _, _, dst => .ok dst
  | n + 1, i, ended, dst => do
    let ended := ended || src i == 0
    let dst ← store cap dst i (if ended = true then 0 else src i)
    strncpyLoop cap src n (i + 1) ended dst

/-- `strncpy`. -/
def strncpy (cap : Nat) (dst src : Nat → UInt8) (n : Nat) : Except Fault (Nat → UInt8) :=
  strncpyLoop cap src n 0 false dst

/-- `line_t::set`. -/
def Line.set (line l : Line) : Except Fault Line := do
  let str ← strncpy lineSz line.str l.str l.len
  .ok ⟨str, l.len⟩

/-- `line_t::clear`. -/
def Line.clear (line : Line) : Line := { line with len := 0 }

/-! ## The history -/

/-- The id of the next line. -/
def nextId (i : Fin 32) : Fin 32 := if (i : Nat) + 1 = 32 then 0 else i + 1

/-- The id of the line before. -/
def prevId (i : Fin 32) : Fin 32 := if i ≠ 0 then i - 1 else 31

/-- `history_last`. -/
def historyLast (h : History) (line : Line) : Except Fault (History × Line) :=
  if line.len = 0 then .ok (h, line)
  else do
    let l ← (h.lines h.last).set line
    let lines := Function.update h.lines h.last l
    let last := nextId h.last
    let first := if h.first = last then nextId h.first else h.first
    .ok (⟨Function.update lines last (lines last).clear, first, last, last⟩, line.clear)

/-- `history_set`. -/
def historySet (h : History) (line : Line) : Except Fault History := do
  let l ← (h.lines h.cur).set line
  .ok { h with lines := Function.update h.lines h.cur l }

/-- `history_get`. -/
def historyGet (h : History) (line : Line) : Except Fault Line := line.set (h.lines h.cur)

/-- `history_next` and `history_prev`: go to the line that `move` says, unless the current one is `stop`. -/
def historyMove (stop : Fin 32) (move : Fin 32 → Fin 32) (h : History) (line : Line) (wp : Nat) :
    Except Fault (History × Line × Nat) :=
  if h.cur = stop then .ok (h, line, wp)
  else do
    let h ← historySet h line
    let h := { h with cur := move h.cur }
    let line ← historyGet h line
    .ok (h, line, line.len)

/-- `history_next`. -/
def historyNext (h : History) (line : Line) (wp : Nat) : Except Fault (History × Line × Nat) :=
  historyMove h.last nextId h line wp

/-- `history_prev`. -/
def historyPrev (h : History) (line : Line) (wp : Nat) : Except Fault (History × Line × Nat) :=
  historyMove h.first prevId h line wp

/-! ## Commands -/

/-- The characters of a string in memory: a null character is behind the last one. -/
def chars (name : List UInt8) (i : Nat) : UInt8 := name.getD i 0

/-- `strncmp`. -/
def strncmp (s₁ s₂ : Nat → UInt8) : Nat → Nat → Int
  | _, 0 => 0
  | i, n + 1 =>
    if s₁ i ≠ s₂ i then if s₁ i < s₂ i then -1 else 1
    else if s₁ i = 0 then 0
    else strncmp s₁ s₂ (i + 1) n

/-- The length of the beginning that the commands share: `i` counts up, and `n` is what is left. -/
def commonChars (cmds : List (List UInt8)) (back : List UInt8) : Nat → Nat → Nat
  | _, 0 => 0
  | i, n + 1 =>
    if cmds.any (fun name => chars back i == 0 || chars back i != chars name i) = true then i
    else commonChars cmds back (i + 1) n

/-- Insert characters one after the other. -/
def insertChars (line : Line) (wp : Nat) : List UInt8 → Except Fault (Line × Nat)
  | [] => .ok (line, wp)
  | ch :: rest => do
    let line ← insertChar line wp ch
    insertChars line (wp + 1) rest

/-- The first character before `wp` that is no blank. -/
def firstWord (line : Line) (wp : Nat) : Option Nat := (List.range wp).find? fun i => line.str i != 0x20

/-- The end of `find_cmd`: insert what the commands that were found share behind the word, and a blank behind
a single one. -/
def insertCommon (found : List (List UInt8)) (line : Line) (wp wordLen : Nat) : Except Fault (Line × Nat) :=
  match found.getLast? with
  | none => .ok (line, wp)
  | some back => do
    let common := commonChars found back 0 lineSz
    ensure (wordLen ≤ common) (.assertion "common_chars >= word_len")
    let (line, wp) ← insertChars line wp
      ((List.range (common - wordLen)).map fun i => chars back (wordLen + i))
    if found.length = 1 then do
      let line ← insertChar line wp 0x20
      .ok (line, wp + 1)
    else .ok (line, wp)

/-- `find_cmd`. -/
def findCmd (cmds : Cmds) (line : Line) (wp : Nat) : Except Fault (Line × Nat) :=
  let word := (firstWord line wp).getD 0
  let wordLen := ((firstWord line wp).map (wp - ·)).getD 0
  let found := cmds.names.filter fun name =>
    strncmp (fun i => line.str (word + i)) (chars name) 0 wordLen == 0
  insertCommon found line wp wordLen

/-- The variables of `make_words`: the characters, where the words begin, and where the current one begins. -/
structure Words where
  str : Nat → UInt8
  argv : List Nat
  wordStart : Option Nat

def argvSz : Nat := lineSz / 2

/-- One character of `make_words`. -/
def wordChar (slen i : Nat) (w : Words) : Except Fault Words := do
  let w := if w.wordStart = none ∧ w.str i ≠ 0x20 then { w with wordStart := some i } else w
  match w.wordStart with
  | none => .ok w
  | some start =>
    if w.str i = 0x20 ∨ i + 1 = slen then do
      ensure (w.argv.length < argvSz) (.argv w.argv.length)
      let str ← store (lineSz + 1) w.str (if w.str i = 0x20 then i else i + 1) 0
      .ok ⟨str, w.argv ++ [start], none⟩
    else .ok w

/-- `make_words`: `n` characters are left. -/
def makeWords (slen : Nat) : Nat → Nat → Words → Except Fault Words
  | 0, _, w => .ok w
  | n + 1, i, w => do
    let w ← wordChar slen i w
    makeWords slen n (i + 1) w

/-- The string that begins at an index of the copy of the line. -/
def cString (str : Nat → UInt8) (start : Nat) : List UInt8 :=
  ((List.range' start (lineSz + 1 - start)).map str).takeWhile (· != 0)

/-- `run_cmd`: whether a command is called. -/
def runCmd (cmds : Cmds) (stack : Nat → UInt8) (line : Line) : Except Fault Bool := do
  let str ← strncpy (lineSz + 1) stack line.str line.len
  let w ← makeWords line.len line.len 0 ⟨str, [], none⟩
  match w.argv with
  | [] => .ok false
  | start :: _ => .ok (cmds.names.any fun name => cString w.str start == name)

/-! ## The loop -/

/-- The characters that are inserted. -/
def isPrintable (c : UInt8) : Bool :=
  (0x30 ≤ c && c ≤ 0x39) || (0x61 ≤ c && c ≤ 0x7a) || (0x41 ≤ c && c ≤ 0x5a) || c == 0x20

/-- The end of a round: `update_line`, and the next character is read. -/
def endRound (h : History) (line : Line) (wp : Nat) : Except Fault State := do
  ensure (wp ≤ line.len) (.assertion "wp <= line->len")
  .ok ⟨h, some ⟨line, wp, .key⟩⟩

/-- A character that the loop reads. -/
def keyChar (cmds : Cmds) (h : History) (k : Call) (c : UInt8) (ret : Int) (stack : Nat → UInt8) :
    Except Fault State :=
  if c = 0x09 then do
    let (line, wp) ← findCmd cmds k.line k.wp
    endRound h line wp
  else if c = 0x0d then do
    let called ← runCmd cmds stack k.line
    let (h, line) ← historyLast h k.line
    if called = true ∧ ret ≠ 0 then .ok ⟨h, none⟩ else endRound h line 0
  else if c = 0x1b then .ok ⟨h, some { k with mode := .esc }⟩
  else if c = 0x7f then
    if k.wp ≠ 0 then do
      let line ← removeChar k.line (k.wp - 1)
      endRound h line (k.wp - 1)
    else endRound h k.line k.wp
  else if isPrintable c = true ∧ k.wp < lineSz then do
    let line ← insertChar k.line k.wp c
    endRound h line (k.wp + 1)
  else endRound h k.line k.wp

/-- A character behind an escape. -/
def escChar (h : History) (k : Call) (c : UInt8) : Except Fault State :=
  if c = 0x5b then .ok ⟨h, some { k with mode := .bracket }⟩ else endRound h k.line k.wp

/-- A character behind an escape and a bracket. -/
def bracketChar (h : History) (k : Call) (c : UInt8) : Except Fault State :=
  if c = 0x33 then .ok ⟨h, some { k with mode := .three }⟩
  else if c = 0x41 then do
    let (h, line, wp) ← historyPrev h k.line k.wp
    endRound h line wp
  else if c = 0x42 then do
    let (h, line, wp) ← historyNext h k.line k.wp
    endRound h line wp
  else if c = 0x43 then endRound h k.line (if k.wp = k.line.len then k.wp else k.wp + 1)
  else if c = 0x44 then endRound h k.line (k.wp - 1)
  else endRound h k.line k.wp

/-- A character behind the three of the delete key. -/
def threeChar (h : History) (k : Call) (c : UInt8) : Except Fault State :=
  if c = 0x7e ∧ k.wp ≠ k.line.len then do
    let line ← removeChar k.line k.wp
    endRound h line k.wp
  else endRound h k.line k.wp

/-- One event.  A call while `shell` runs and a character that no one reads change nothing. -/
def step (cmds : Cmds) (s : State) (e : Event) : Except Fault State :=
  match e, s.call with
  | .call stack, none => endRound s.history ⟨stack, 0⟩ 0
  | .call _, some _ => .ok s
  | .char _ _ _, none => .ok s
  | .char c ret stack, some k =>
    match k.mode with
    | .key => keyChar cmds s.history k c ret stack
    | .esc => escChar s.history k c
    | .bracket => bracketChar s.history k c
    | .three => threeChar s.history k c

/-- The static variables of a shell before the first call. -/
def start : State := ⟨⟨fun _ => ⟨fun _ => 0, 0⟩, 0, 0, 0⟩, none⟩

end Shell
end Wrmos
