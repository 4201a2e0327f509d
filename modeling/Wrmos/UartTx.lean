import Wrmos.Cbuf
import Wrmos.Lib.Outcome

/-!
# The transmitter of the serial driver

`put_to_txbuf` of `app/uart/main.cpp` copies a text line by line into the ring of the transmitter and puts
a carriage return behind every newline.  The thread that calls it has written a null character behind the
text, so that `strchr` ends there at the latest; a text is the list of its bytes before that one.

A null character inside of the text ends the search as well.  Then there is no newline for the code, and
all that is left of the text is one line.
-/

namespace Wrmos
namespace Uart

/-- `'\n'`, `'\r'` and the null character. -/
def newline : UInt8 := 10

def carriageReturn : UInt8 := 13

def nul : UInt8 := 0

/-- `strchr`: where the character is, if it comes before the null character that ends the string. -/
def strchr (ch : UInt8) : List UInt8 → Option Nat
  | [] => none
  | b :: s => if b = ch then some 0 else if b = nul then none else (strchr ch s).map (· + 1)

/-- The loop of `put_to_txbuf` over what is left of the text: the ring, and how many bytes of the text were
written.  A round writes a byte at least or is the last one, so that there are no more rounds than bytes. -/
def putLines : Nat → Cbuf UInt8 → List UInt8 → Except Stop (Cbuf UInt8 × Nat)
  | rounds, c, pos =>
    if pos = [] then .ok (c, 0)
    else
      match rounds with
      | 0 => .error .outOfRounds
      | rounds + 1 =>
        let fin := strchr newline pos
        let l := (fin.map (· + 1)).getD pos.length
        let line := c.write (pos.take l)
        if line.2 ≠ l then .ok line
        else if fin.isSome then
          let ret := line.1.write [carriageReturn]
          if ret.2 ≠ 1 then .ok (ret.1, l)
          else (putLines rounds ret.1 (pos.drop l)).map fun r => (r.1, l + r.2)
        else (putLines rounds line.1 (pos.drop l)).map fun r => (r.1, l + r.2)

/-- `put_to_txbuf`. -/
def putToTxbuf (c : Cbuf UInt8) (buf : List UInt8) : Except Stop (Cbuf UInt8 × Nat) :=
  putLines buf.length c buf

/-- The bytes that fit into the ring. -/
def room (c : Cbuf UInt8) : Nat := c.sz - 1 - c.stored.length

end Uart
end Wrmos
