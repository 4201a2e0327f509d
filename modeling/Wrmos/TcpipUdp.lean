import Wrmos.ListT
import Wrmos.Tcpip

/-!
# The packet queue of a UDP socket

`Udp_socket_t` keeps the datagrams that nobody waits for in a `list_t` of sixteen packets of its own.
`save_received_packet` takes an item from the list first and then saves the datagram in it, which fails
when the datagram is larger than the buffer of a packet.  The items are used again: the constructor of a
packet writes its length and nothing else, so the address and the bytes are those of the packet before.

Modelled are the socket with these operations, the part of `process_udp_packet` that has found it, and the
part of `process_cli_recvfrom` that has found it.

* The network state of a UDP socket is `Net_idle` all the time.
* A reply is what `reply_to_client` is called with.  The client of a request waits for the reply, so the
  sending does not fail.
* `recv_client` is `none` where it is `Nil`.  `sin_zero` of an address is written by nobody.
-/

namespace Wrmos
namespace UdpQueue

open Lib (ensure)
open Tcpip (UdpCli afInet pktBufSz pktsCap)
open ListT (ItemType)

/-- `sockaddr_in`. -/
structure SockaddrIn where
  sinFamily : Nat
  sinPort : Nat
  sinAddr : Nat
  deriving DecidableEq, Repr

/-- `Pkt_t`. -/
structure Pkt where
  saddr : SockaddrIn
  len : Nat
  buf : Nat → UInt8

/-- `Pkt_t()`, in an item that holds `p`. -/
def Pkt.construct (p : Pkt) : Pkt := { p with len := 0 }

/-- `save`. -/
def Pkt.save (p : Pkt) (addr : SockaddrIn) (bf : Nat → UInt8) (sz : Nat) : Pkt × Nat :=
  if pktBufSz < sz then (p, 2)
  else (⟨addr, sz, fun i => if i < sz then bf i else p.buf i⟩, 0)

/-- The bytes of a buffer. -/
def bytes (bf : Nat → UInt8) (sz : Nat) : List UInt8 := (List.range sz).map bf

/-- What a client gets, and what it is refused with. -/
inductive Reply where
  | error (cli ecode : Nat)
  | data (cli : Nat) (saddr : SockaddrIn) (bytes : List UInt8)
  deriving DecidableEq, Repr

/-- `Udp_socket_t`, as far as receiving is concerned. -/
structure Socket where
  ownerThrnoBegin : Nat
  ownerThrnoEnd : Nat
  cliState : UdpCli
  recvClient : Option Nat
  pkts : ListT.State Pkt

/-- A datagram for the socket: `ip->src`, `udp->src` and the payload. -/
structure Datagram where
  src : Nat
  sport : Nat
  payload : Nat → UInt8
  payloadLen : Nat

/-- The address that `process_udp_packet` makes. -/
def Datagram.saddr (d : Datagram) : SockaddrIn := ⟨afInet, d.sport, d.src⟩

variable (A : Arch) (k : ItemType Pkt)

/-- The constructor, with the items of the list at `localBuf` in memory that holds anything. -/
def Socket.new (m : Lib.Links) (data : Nat → Pkt) (localBuf thrnoBegin thrnoEnd : Nat) :
    Except Stop Socket := do
  let pkts ← ListT.State.new k m data localBuf pktsCap
  pure ⟨thrnoBegin, thrnoEnd, .idle, none, pkts⟩

namespace Socket

variable (s : Socket)

/-- `is_owner`. -/
def isOwner (cli : Nat) : Bool :=
  decide (s.ownerThrnoBegin ≤ Thrid.number A cli) && decide (Thrid.number A cli < s.ownerThrnoEnd)

/-- `_pkts.capacity()`. -/
def capacity : Nat := s.pkts.busy.sz + s.pkts.free.sz

/-- `save_received_packet`; the error code comes second. -/
def saveReceivedPacket (addr : SockaddrIn) (bf : Nat → UInt8) (sz : Nat) : Except Stop (Socket × Nat) :=
  if s.capacity = s.pkts.size then pure (s, 1)
  else do
    let (pkts, _) ← s.pkts.pushBack k (s.pkts.data s.pkts.free.begin).construct none
    let p ← pkts.back
    let (p, rc) := p.save addr bf sz
    pure ({ s with pkts := pkts.setData pkts.busy.last p }, rc)

/-- `get_received_packet`. -/
def getReceivedPacket : Except Stop (Option Pkt) :=
  if s.pkts.busy.sz = 0 then pure none
  else do
    ensure (s.pkts.busy.sz ≠ 0) (.assertion "busy.sz")
    pure (some (s.pkts.data s.pkts.busy.begin))

/-- `free_received_packet`. -/
def freeReceivedPacket : Except Stop Socket := do
  ensure (s.pkts.size ≠ 0) (.assertion "_pkts.size()")
  let (pkts, _) ← s.pkts.erase k s.pkts.busy.begin
  pure { s with pkts := pkts }

end Socket

/-- `reply_to_client` with data. -/
def replyToClient (cli : Option Nat) (saddr : SockaddrIn) (bf : Nat → UInt8) (sz : Nat) : Except Stop Reply :=
  match cli with
  | none => .error (.assertion "!cli.is_nil()")
  | some cli => pure (.data cli saddr (bytes bf sz))

/-- `process_udp_packet` from the socket on: the reply if a client was waiting, and else the error code of
`save_received_packet`. -/
def processUdpPacket (s : Socket) (d : Datagram) : Except Stop (Socket × (Reply ⊕ Nat)) :=
  if s.cliState = .recv ∨ s.recvClient.isSome = true then do
    let cli := s.recvClient
    let s : Socket :=
      { s with
        cliState := if s.cliState = .recv then .idle else s.cliState
        recvClient := none }
    let reply ← replyToClient cli d.saddr d.payload d.payloadLen
    pure (s, .inl reply)
  else do
    let (s, rc) ← s.saveReceivedPacket k d.saddr d.payload d.payloadLen
    pure (s, .inr rc)

/-- `process_cli_recvfrom` from the socket on: the reply, if there is one yet. -/
def processCliRecvfrom (s : Socket) (cli : Nat) : Except Stop (Socket × Option Reply) :=
  if s.isOwner A cli = false then pure (s, some (.error cli 4))
  else if s.cliState ≠ .idle then pure (s, some (.error cli 5))
  else do
    match ← s.getReceivedPacket with
    | some p =>
      let reply ← replyToClient (some cli) p.saddr p.buf p.len
      let s ← s.freeReceivedPacket k
      pure (s, some reply)
    | none =>
      pure ({ s with
        cliState := .recv
        recvClient := some cli }, none)

end UdpQueue
end Wrmos
