import Wrmos.Arch
import Wrmos.Lib.Outcome
import Mathlib.Logic.Function.Basic

/-!
# The screen

`video.h` draws the characters that a program puts out into the video memory, a cell for each character of the
screen.  The cursor is a glyph in the text, and its position is kept in the last two cells of the first line.
The lines of the banner stay, the others scroll.  `inside_escape` filters control sequences: it is set by an
escape and ends at the next `m`, so what comes behind a sequence with another final letter is lost up to the
next `m`.

A stream of text and complete control sequences is drawn on a pair of screens, of which the second one gets
the stream with the control sequences removed.
-/

namespace Wrmos
namespace Video

open Lib

/-! ## The code -/

/-- What is drawn: a character, or all lines move up. -/
inductive Act where
  | put (x y : Nat) (ch : UInt8)
  | scroll
  deriving DecidableEq, Repr

/-- The cells of the video memory, the static variable of `video_putc`, and what has been drawn, which the
code does not keep. -/
structure Screen where
  vmem : Nat → Nat
  insideEscape : Bool
  acts : List Act

def xMin : Nat := 0
def xMax : Nat := 80
def yMin : Nat := 6
def yMax : Nat := 25
def curXStorageCell : Nat := 78
def curYStorageCell : Nat := 79
def cursor : UInt8 := 22
def space : UInt8 := 0x20

/-- `_video_store_x`. -/
def storeX (s : Screen) (x : Nat) : Screen :=
  { s with vmem := Function.update s.vmem curXStorageCell (x % 2 ^ 16) }

/-- `_video_store_y`. -/
def storeY (s : Screen) (y : Nat) : Screen :=
  { s with vmem := Function.update s.vmem curYStorageCell (y % 2 ^ 16) }

/-- `_video_get_x`. -/
def getX (s : Screen) : Nat := s.vmem curXStorageCell

/-- `_video_get_y`. -/
def getY (s : Screen) : Nat := s.vmem curYStorageCell

/-- `_video_add_x`. -/
def addX (s : Screen) (add : Int) : Screen := storeX s ((getX s + add) % 2 ^ 16).toNat

/-- `_video_add_y`. -/
def addY (s : Screen) (add : Int) : Screen := storeY s ((getY s + add) % 2 ^ 16).toNat

/-- `(attr << 8) | ch` with the attribute 7: a `char` from 128 on is negative and covers the attribute. -/
def cellWord (ch : UInt8) : Nat := if ch < 0x80 then 0x700 + ch.toNat else 0xff00 + ch.toNat

/-- `_video_set_cell`. -/
def setCell (s : Screen) (x y : Nat) (ch : UInt8) : Screen :=
  if xMax ≤ x ∨ yMax ≤ y then s
  else if xMax * y + x = curXStorageCell ∨ xMax * y + x = curYStorageCell then s
  else { s with vmem := Function.update s.vmem (xMax * y + x) (cellWord ch) }

/-- `_video_get_cell`. -/
def getCell (s : Screen) (x y : Nat) : UInt8 :=
  if xMax ≤ x ∨ yMax ≤ y then 0x40
  else if xMax * y + x = curXStorageCell ∨ xMax * y + x = curYStorageCell then 0
  else UInt8.ofNat (s.vmem (xMax * y + x))

/-- `_video_set_cur_cell`. -/
def setCurCell (s : Screen) (ch : UInt8) : Screen := setCell s (getX s) (getY s) ch

/-- `_video_get_cur_cell`. -/
def getCurCell (s : Screen) : UInt8 := getCell s (getX s) (getY s)

/-- A loop over lines and the cells of each. -/
@[irreducible] def forCells (f : Screen → Nat → Nat → Screen) (ys xs : List Nat) (s : Screen) : Screen :=
  ys.foldl (fun s y => xs.foldl (fun s x => f s x y) s) s

/-- `_video_clear_screen`. -/
def clearScreen (s : Screen) : Screen :=
  forCells (fun s x y => setCell s x y space) (List.range yMax) (List.range xMax) s

/-- The first loop of `_video_shift_line`. -/
def shiftUp (s : Screen) : Screen :=
  forCells (fun s x y => setCell s x y (getCell s x (y + 1))) (List.range' yMin (yMax - 1 - yMin))
    (List.range xMax) s

/-- The second loop of `_video_shift_line`. -/
def clearBottom (s : Screen) : Screen :=
  forCells (fun s x y => setCell s x y space) [yMax - 1] (List.range xMax) s

/-- `_video_shift_line`. -/
def shiftLine (s : Screen) : Screen := { clearBottom (shiftUp s) with acts := s.acts ++ [.scroll] }

/-- Remove the cursor. -/
def removeCursor (s : Screen) : Screen := if getCurCell s = cursor then setCurCell s space else s

/-- Set the cursor in a blank. -/
def showCursor (s : Screen) : Screen := if getCurCell s = space then setCurCell s cursor else s

/-- Scroll when the cursor is below the last line. -/
def scrollDown (s : Screen) : Screen := if getY s = yMax then shiftLine (addY s (-1)) else s

/-- `'\r'`. -/
def carriageReturn (s : Screen) : Screen := showCursor (storeX (removeCursor s) xMin)

/-- `'\n'`. -/
def lineFeed (s : Screen) : Screen := showCursor (scrollDown (addY (removeCursor s) 1))

/-- Draw a printable character. -/
def draw (s : Screen) (ch : UInt8) : Screen :=
  { setCurCell s ch with acts := s.acts ++ [.put (getX s) (getY s) ch] }

/-- Go on in the next line behind the last cell of a line. -/
def wrap (s : Screen) : Screen := if getX s = xMax then addY (storeX s xMin) 1 else s

/-- A printable character. -/
def printable (s : Screen) (ch : UInt8) : Screen :=
  setCurCell (scrollDown (wrap (addX (draw s ch) 1))) cursor

/-- What `video_putc` does outside of a sequence. -/
def putText (s : Screen) (ch : UInt8) : Screen :=
  if ch = 0x0d then carriageReturn s else if ch = 0x0a then lineFeed s else printable s ch

/-- `video_putc`. -/
def videoPutc (s : Screen) (ch : UInt8) : Screen :=
  let s := if ch = 0x1b then { s with insideEscape := true } else s
  if s.insideEscape = true then
    if ch = 0x6d then { s with insideEscape := false } else s
  else putText s ch

/-- `_video_puts`, and the calls for the bytes of a stream. -/
def videoPuts (s : Screen) (str : List UInt8) : Screen := str.foldl videoPutc s

/-- `_banner`. -/
def banner : List UInt8 :=
  ["   _    _ ___ __  __   ___  ___ \r\n",
   "  | |  | | _ \\  \\/  | / _ \\/ __|\r\n",
   "  | |/\\| |   / |\\/| || (_) \\__ \\\r\n",
   "  |__/\\__|_|_\\_|  |_(_)___/|___/\r\n",
   "          From Russia with love!\r\n"].flatMap fun line => line.toList.map fun ch => UInt8.ofNat ch.toNat

/-- `_video_print_banner`. -/
def printBanner (s : Screen) : Screen :=
  let s := forCells (fun s x y => setCell s x y space) (List.range yMin) (List.range xMax) s
  let saveX := getX s
  let saveY := getY s
  let s := storeY (storeX s xMin) 0
  let s := videoPuts s banner
  let s := setCell s xMin 0 space
  storeY (storeX s saveX) saveY

/-- `video_init`. -/
def videoInit (s : Screen) : Screen := printBanner (clearScreen (storeY (storeX s xMin) yMin))

/-- The screen behind `video_init`, where nothing has been drawn that counts. -/
def start (mem : Nat → Nat) : Screen := { videoInit ⟨mem, false, []⟩ with acts := [] }

/-! ## Streams -/

/-- A control sequence: its parameters and its final letter. -/
structure Sequence where
  params : List UInt8
  final : UInt8
  params_ok : ∀ b ∈ params, 0x30 ≤ b ∧ b ≤ 0x3f
  final_ok : 0x41 ≤ final ∧ final ≤ 0x5a ∨ 0x61 ≤ final ∧ final ≤ 0x7a

/-- A byte of text, which is no escape, or a complete control sequence. -/
inductive Item where
  | text (b : UInt8) (h : b ≠ 0x1b)
  | control (q : Sequence)

/-- The bytes of an item. -/
def Item.bytes : Item → List UInt8
  | .text b _ => [b]
  | .control q => 0x1b :: 0x5b :: (q.params ++ [q.final])

/-- The bytes of an item when control sequences are removed. -/
def Item.plain : Item → List UInt8
  | .text b _ => [b]
  | .control _ => []

/-- The screen, and a screen that gets the stream with the control sequences removed. -/
structure Pair where
  real : Screen
  plain : Screen

/-- One item. -/
def step (s : Pair) (it : Item) : Except Stop Pair :=
  .ok ⟨videoPuts s.real it.bytes, videoPuts s.plain it.plain⟩

/-- The same has been drawn, and the same is in the memory. -/
def Same (s : Pair) : Prop := s.real.acts = s.plain.acts ∧ s.real.vmem = s.plain.vmem

/-- After the item both screens are the same. -/
def Right (s : Pair) (it : Item) : Prop := Post (step s it) Same

/-- **The condition**: text comes outside of a sequence, except for a carriage return at the beginning of a
line, when the cursor is not to be set in a blank. -/
def Fits (s : Pair) : Item → Prop
  | .text b _ =>
    s.real.insideEscape = false ∨ b = 0x0d ∧ getX s.real = xMin ∧ getCurCell s.real ≠ space
  | .control _ => True

end Video
end Wrmos
