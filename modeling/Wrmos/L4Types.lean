import Wrmos.Arch
import Wrmos.Lib.Bits

/-!
# The words of the L4 interface

`lib/l4/inc/l4_types.h`: flexpages, typed items, message tags, thread identifiers and timeouts are
unions of one machine word with structures of bit fields.  A word is a natural number below
`2 ^ wordBits` and the accessors are functions of it, under the names of the source.

The structures of flexpages, acceptors and thread identifiers are written for both byte orders so
that the fields lie at the same bits.  Those of tags, typed items, error codes and times are written
once, in the order of a big-endian machine: on a little-endian one the first field takes the lowest
bits.  `Arch.field` places such a field.
-/

namespace Wrmos

open Lib (bits)

namespace Arch

/-- `__BYTE_ORDER__ == __ORDER_BIG_ENDIAN__`. -/
def bigEndian : Arch → Bool
  | .sparc => true
  | _ => false

/-- A field of `n` bits that has `above` bits of fields written before it in a structure of `total`
bits. -/
def field (A : Arch) (total above n w : Nat) : Nat :=
  bits w (if A.bigEndian then total - above - n else above) n

/-- The word with such a field replaced. -/
def setField (A : Arch) (total above n w v : Nat) : Nat :=
  let lo := if A.bigEndian then total - above - n else above
  w - bits w lo n * 2 ^ lo + v % 2 ^ n * 2 ^ lo

theorem field_setField (A : Arch) (total above n w v : Nat) :
    A.field total above n (A.setField total above n w v) = v % 2 ^ n :=
  Lib.bits_replace w v _ n

end Arch

/-! ## Flexpages -/

namespace Fpage

/-- `L4_fpage_t::Nil`. -/
def nil : Nat := 0

/-- `L4_fpage_t::Complete`. -/
def complete : Nat := 0x10

/-- `is_io`: the magic number of an I/O flexpage. -/
def isIo (fp : Nat) : Bool := bits fp 0 10 == 0x26

/-- `is_nil`. -/
def isNil (fp : Nat) : Bool := fp == nil

/-- `_mem.size`. -/
def log2sz (fp : Nat) : Nat := bits fp 4 6

/-- `addr`. -/
def addr (A : Arch) (fp : Nat) : Nat := fp / 2 ^ 10 * 2 ^ 10 % 2 ^ A.wordBits

/-- `is_complete`. -/
def isComplete (A : Arch) (fp : Nat) : Bool := addr A fp == 0 && log2sz fp == 1

/-- `1ul << n` as the processor shifts: sparc and x86 use the shift count modulo the word size, arm
shifts everything out. -/
def shiftOne (A : Arch) (n : Nat) : Nat :=
  if n < A.wordBits then 2 ^ n
  else
    match A with
    | .arm => 0
    | _ => 2 ^ (n % A.wordBits)

/-- `size`. -/
def size (A : Arch) (fp : Nat) : Nat := shiftOne A (log2sz fp)

/-- `access`. -/
def access (fp : Nat) : Nat := bits fp 0 3

/-- `io_port`, as the `unsigned` it is stored in: the base is a signed field. -/
def ioPort (A : Arch) (fp : Nat) : Nat :=
  let b := bits fp 16 (A.wordBits - 16)
  if b < 2 ^ (A.wordBits - 17) then b % 2 ^ 32
  else (b + (2 ^ A.wordBits - 2 ^ (A.wordBits - 16))) % 2 ^ 32

/-- `io_size`, as the `unsigned` it is stored in. -/
def ioSize (A : Arch) (fp : Nat) : Nat := shiftOne A (bits fp 10 6) % 2 ^ 32

/-- `create(adr, sz_bytes, acc)`: nil when the size is not a power of two from a page on or the
address is not aligned to it. -/
def create (A : Arch) (adr szBytes acc : Nat) : Nat :=
  if szBytes < pageSz ∨ adr % szBytes ≠ 0 ∨ 2 ^ Nat.log2 szBytes ≠ szBytes then nil
  else adr / 2 ^ 10 % 2 ^ (A.wordBits - 10) * 2 ^ 10 + Nat.log2 szBytes % 2 ^ 6 * 2 ^ 4 + acc % 8

/-- The loop of `set` and `set_io` that counts the clear bits below the lowest set one; `n` bounds the
rounds by the size of a word. -/
def lowBit : Nat → Nat → Nat
  | 0, _ => 0
  | n + 1, bytes => if bytes % 2 = 1 then 0 else lowBit n (bytes / 2) + 1

/-- `set(adr, sz_bytes, acc)` on a flexpage that holds any word: bit 3 is not written. -/
def set (A : Arch) (fp adr szBytes acc : Nat) : Nat :=
  if szBytes < pageSz ∨ adr &&& (szBytes - 1) ≠ 0 then nil
  else
    let new := adr / 2 ^ 10 % 2 ^ (A.wordBits - 10) * 2 ^ 10 +
      lowBit A.wordBits szBytes % 2 ^ 6 * 2 ^ 4 + bits fp 3 1 * 2 ^ 3 + acc % 2 ^ 3
    if size A new ≠ szBytes then nil else new

/-- `end`. -/
def endAddr (A : Arch) (fp : Nat) : Nat := A.add (addr A fp) (size A fp)

/-- `io_port`: the base is a signed field. -/
def ioPortWord (A : Arch) (fp : Nat) : Nat :=
  let b := bits fp 16 (A.wordBits - 16)
  if b < 2 ^ (A.wordBits - 17) then b else b + (2 ^ A.wordBits - 2 ^ (A.wordBits - 16))

/-- `io_size`. -/
def ioSizeWord (A : Arch) (fp : Nat) : Nat := shiftOne A (bits fp 10 6)

/-- `set_io(port, sz_ports)`, which writes the whole word. -/
def setIo (A : Arch) (port szPorts : Nat) : Nat :=
  if szPorts = 0 ∨ 0xffff < port ∨ 0xffff < A.add port szPorts ∨ port &&& (szPorts - 1) ≠ 0 then nil
  else
    let new := port % 2 ^ (A.wordBits - 16) * 2 ^ 16 +
      lowBit A.wordBits szPorts % 2 ^ 6 * 2 ^ 10 + 0x26
    if ioSizeWord A new ≠ szPorts then nil else new

/-- `create_io(port, sz_ports)`. -/
def createIo (A : Arch) (port szPorts : Nat) : Nat :=
  if szPorts = 0 ∨ 0xffff < port ∨ 0xffff < A.add port szPorts ∨ port % szPorts ≠ 0 ∨
      2 ^ Nat.log2 szPorts ≠ szPorts then nil
  else port * 2 ^ 16 + Nat.log2 szPorts * 2 ^ 10 + 0x26

end Fpage

/-! ## Typed items -/

namespace Item

/-- `L4_typed_item_t::type`. -/
def type (A : Arch) (w0 : Nat) : Nat := A.field A.wordBits (A.wordBits - 4) 3 w0

/-- `is_last`: the continue flag is clear. -/
def isLast (A : Arch) (w0 : Nat) : Bool := A.field A.wordBits (A.wordBits - 1) 1 w0 == 0

/-- `is_map_item`. -/
def isMap (A : Arch) (w0 : Nat) : Bool := type A w0 == 4

/-- `is_grant_item`. -/
def isGrant (A : Arch) (w0 : Nat) : Bool := type A w0 == 5

/-- `is_string_item`. -/
def isString (A : Arch) (w0 : Nat) : Bool := decide (type A w0 ≤ 3)

/-- The first word of `L4_map_item_t::set(fpage)`: a map item, the last one, with a null send
base. -/
def mapWord0 (A : Arch) : Nat := A.setField A.wordBits (A.wordBits - 4) 3 0 4

/-- The first word of a grant item, the last one of its message, with a null send base. -/
def grantWord0 (A : Arch) : Nat := A.setField A.wordBits (A.wordBits - 4) 3 0 5

/-- `L4_string_item_t::length`, an `unsigned`. -/
def length (A : Arch) (w0 : Nat) : Nat := A.field A.wordBits 0 (A.wordBits - 10) w0 % 2 ^ 32

/-- `L4_string_item_t::substring_number`. -/
def substringNumber (A : Arch) (w0 : Nat) : Nat := A.field A.wordBits (A.wordBits - 9) 5 w0 + 1

end Item

/-! ## Message tags -/

namespace Tag

section

variable (A : Arch) (t : Nat)

/-- `_ipc.label`, a signed field: as the number of its bits. -/
def ipcLabel : Nat := A.field A.wordBits 0 (A.wordBits - 18) t

/-- `_proto.label`, a signed field: as the number of its bits. -/
def protoLabel : Nat := A.field A.wordBits 0 (A.wordBits - 22) t

/-- The bits of a negative protocol label. -/
def protoOf (n : Nat) : Nat := 2 ^ (A.wordBits - 22) - n

def ipcIsFailed : Bool := A.field A.wordBits (A.wordBits - 18) 1 t == 1

def propagated : Bool := A.field A.wordBits (A.wordBits - 15) 1 t == 1

def typed : Nat := A.field A.wordBits (A.wordBits - 14) 6 t

def untyped : Nat := A.field A.wordBits (A.wordBits - 8) 8 t

/-- `ipc_set_ok` and `ipc_set_failed`. -/
def setError (v : Nat) : Nat := A.setField A.wordBits (A.wordBits - 18) 1 t v

/-- `set_proto(label, untyped, typed)`: the label is given by its bits. -/
def setProto (label untyped typed : Nat) : Nat :=
  let t := A.setField A.wordBits 0 (A.wordBits - 22) t label
  let t := A.setField A.wordBits (A.wordBits - 22) 8 t 0
  let t := A.setField A.wordBits (A.wordBits - 14) 6 t typed
  A.setField A.wordBits (A.wordBits - 8) 8 t untyped

/-- `set_proto_pf(label, access, untyped, typed)`. -/
def setProtoPf (label access untyped typed : Nat) : Nat :=
  A.setField A.wordBits (A.wordBits - 21) 3 (setProto A t label untyped typed) access

/-- `is_thread_start`. -/
def isThreadStart : Bool := ipcLabel A t == 0 && typed A t == 0 && untyped A t == 3

/-- `is_pf_request`. -/
def isPfRequest : Bool := protoLabel A t == protoOf A 2 && typed A t == 2 && untyped A t == 0

/-- `is_io_pf_request`. -/
def isIoPfRequest : Bool := protoLabel A t == protoOf A 3 && typed A t == 2 && untyped A t == 0

/-- `is_pf_reply`, and `is_io_pf_reply`, which is the same. -/
def isPfReply : Bool := ipcLabel A t == 0 && typed A t == 2 && untyped A t == 0

/-- `is_exc_reply`. -/
def isExcReply : Bool := ipcLabel A t == 0 && typed A t == 0 && untyped A t == 133

end

end Tag

/-! ## Thread identifiers -/

namespace Thrid

section

variable (A : Arch)

def nil : Nat := 0

/-- `Any`: all bits set. -/
def any : Nat := 2 ^ A.wordBits - 1

/-- `Any_local`: all but the low six bits set. -/
def anyLocal : Nat := 2 ^ A.wordBits - 64

/-- The width of the version field. -/
def versionWidth : Nat := if A.wordBits = 64 then 32 else 14

variable (id : Nat)

/-- `is_single`. -/
def isSingle : Bool := id != nil && id != any A && id != anyLocal A

/-- `is_local`. -/
def isLocal : Bool := isSingle A id && bits id 0 6 == 0

/-- `is_global`. -/
def isGlobal : Bool := isSingle A id && bits id 0 6 != 0

/-- `number`, an `unsigned`. -/
def number : Nat :=
  if isGlobal A id then bits id (versionWidth A) (A.wordBits - versionWidth A)
  else bits id 6 (A.wordBits - 6) % 2 ^ 32

/-- `create_global(num, ver)`. -/
def createGlobal (num ver : Nat) : Nat :=
  num % 2 ^ (A.wordBits - versionWidth A) * 2 ^ versionWidth A + ver % 2 ^ versionWidth A

/-- `create_irq(num)`. -/
def createIrq (num : Nat) : Nat := createGlobal A num 1

end

end Thrid

/-! ## Times and error codes -/

namespace Time

/-- `L4_time_t::is_never`. -/
def isNever (t : Nat) : Bool := t == 0

/-- `L4_time_t::is_zero`. -/
def isZero (t : Nat) : Bool := t == 0x400

/-- `L4_time_t::is_rel`. -/
def isRel (A : Arch) (t : Nat) : Bool := A.field 16 0 1 t == 0

/-- `L4_time_t::rel_exp`. -/
def relExp (A : Arch) (t : Nat) : Nat := A.field 16 1 5 t

/-- `L4_time_t::rel_usec`. -/
def relUsec (A : Arch) (t : Nat) : Nat :=
  if isNever t then 0 else A.field 16 6 10 t * 2 ^ A.field 16 1 5 t

/-- `zero`. -/
def zero : Nat := 0x400

/-- `Mantissa_max` and `Exponent_max_rel`. -/
def mantissaMax : Nat := 1023
def exponentMaxRel : Nat := 31

/-- The loop of `rel` that finds the highest set bit: the position is counted down before each test. -/
def msBit (usec : Nat) : Nat → Nat
  | 0 => 0
  | pos + 1 => if usec >>> pos ≠ 0 then pos else msBit usec pos

/-- The three fields of `_period`. -/
def setPeriod (A : Arch) (t exp mantissa : Nat) : Nat :=
  A.setField 16 6 10 (A.setField 16 1 5 (A.setField 16 0 1 t 0) exp) mantissa

/-- `rel(usec)`. -/
def rel (A : Arch) (t usec : Nat) : Nat :=
  if usec = 0 then zero
  else if usec ≤ mantissaMax then setPeriod A t 0 usec
  else
    let exp := msBit usec 64 + 1 - 10
    if exponentMaxRel < exp then zero else setPeriod A t exp (usec >>> exp)

/-- `create_rel(usec)`: a new time is `Zero`. -/
def createRel (A : Arch) (usec : Nat) : Nat := rel A zero usec

/-- `L4_timeouts_t::snd` and `L4_timeouts_t::rcv`. -/
def snd (raw : Nat) : Nat := bits raw 16 16
def rcv (raw : Nat) : Nat := bits raw 0 16

end Time

/-- `L4_ipcerr_t(phase, error, offset)`. -/
def ipcErr (A : Arch) (phase error offset : Nat) : Nat :=
  let w := A.setField A.wordBits 0 (A.wordBits - 4) 0 offset
  let w := A.setField A.wordBits (A.wordBits - 4) 3 w error
  A.setField A.wordBits (A.wordBits - 1) 1 w phase

end Wrmos
