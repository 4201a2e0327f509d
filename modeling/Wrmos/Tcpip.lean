import Wrmos.Lib.NodeList
import Wrmos.Lib.Outcome
import Wrmos.Lib.InetChecksum
import Wrmos.L4Types

/-!
# The TCP/IP server: its state

`app/tcpip` is one application with two threads.  The Ethernet thread receives frames from the
driver and runs `process_eth_frame` on each; the client thread receives requests and runs
`process_client_request`; one mutex makes each of the two calls atomic, so a run of the server is a
sequence of such calls.  This module has what they share: the interfaces, the pool of frame buffers
with its memory, the ARP cache, the streams and the sockets, and the two calls that leave the
server, `send_to_eth_drv` and `reply_to_client`.

* Pointers into the frame memory are offsets in `frames_buf`; the contents of a buffer stay when it
  is freed.
* A `Stream_t*` is a node of `allstreams`, and nodes are used again.  A socket is named by its
  identifier; the counter of the identifiers is an `int` that the model does not let overflow.
* The machine is big-endian with words of 32 bits: the header structures of `packets.h` are laid out
  for it.
* `blocked` and `room` stand for the clients: a thread that sent a request waits for the reply with
  a buffer of `room` bytes, and a reply to a thread that does not wait fails.
* `out` records what left the server, and `stale` whether a buffer of the pool was read or written
  while it was free; the code reads neither.

A failed assertion, a loop that does not end and an access outside `frames_buf` end the run.
-/

namespace Wrmos
namespace Tcpip

open Lib

/-- How a call of the server ends without returning. -/
inductive Stop where
  /-- An assertion with its text. -/
  | assertion (expr : String)
  /-- `assert(!cli.is_nil())` of `reply_to_client`. -/
  | replyToNil
  /-- `assert(0 && "failed to send(cli) reply")` of `reply_to_client`. -/
  | replyFailed
  /-- A loop that does not end. -/
  | endless
  /-- An access outside the memory of the frames. -/
  | outside
  deriving DecidableEq, Repr

/-! ## Interfaces -/

/-- `Ip_iface_t`, with the address of its Ethernet interface. -/
structure IpIface where
  addr : Nat
  mask : Nat
  mac : Nat
  deriving DecidableEq, Repr

/-- The Ethernet address that `main` sets up. -/
def ethAddr : Nat := 0x223344556677

/-- `eth_ifaces`. -/
def ethIfaces : List Nat := [ethAddr]

/-- `ip_ifaces`. -/
def ipIfaces : List IpIface := [⟨0xc0a80064, 0xffffff00, ethAddr⟩]

/-- `Ip_ifaces_t::find`. -/
def findIface (addr : Nat) : Option IpIface := ipIfaces.find? fun i => i.addr == addr

/-- `Ip_ifaces_t::find_masked`. -/
def findMasked (addr : Nat) : Option IpIface :=
  ipIfaces.find? fun i => i.addr &&& i.mask == addr &&& i.mask

/-- `INADDR_ANY`. -/
def inaddrAny : Nat := 0

/-- `AF_INET`. -/
def afInet : Nat := 2

def sockStream : Nat := 1

def sockDgram : Nat := 2

/-- `mac_t::is_nil`. -/
def macNil : Nat := 0

def macBcast : Nat := 0xffffffffffff

/-! ## Streams and sockets -/

/-- The states of a stream. -/
inductive StreamState where
  | closed
  | listen
  | synSent
  | synReceived
  | established
  | finWait1
  | closeWait
  | finWait2
  | lastAck
  | timeWait
  | closing
  deriving DecidableEq, Repr

/-- `Stream_t`; `buf` has the first `wp` bytes of the receive buffer. -/
structure Stream where
  state : StreamState
  remAddr : Nat
  remPort : Nat
  seqRx : Nat
  seqTx : Nat
  initSeqRx : Nat
  initSeqTx : Nat
  buf : List UInt8
  deriving DecidableEq, Repr

/-- `sz`: the size of the receive buffer. -/
def streamBufSz : Nat := 0x100

/-- The constructor of `Stream_t`. -/
def Stream.mk' (addr port : Nat) : Stream := ⟨.closed, addr, port, 0, 0, 0, 0, []⟩

/-- `Socket_t`.  Thread identifiers are raw, `0` is `Nil`. -/
structure Socket where
  owner : Nat
  ownerThrnoBegin : Nat
  ownerThrnoEnd : Nat
  client : Nat
  recvClient : Nat
  id : Nat
  bound : Bool
  saddrAddr : Nat
  saddrPort : Nat
  waitArp : Bool
  txEthFrame : Nat
  txEthFrameLen : Nat
  deriving DecidableEq, Repr

/-- The constructor of `Socket_t`. -/
def Socket.mk' (owner thrnoBegin thrnoEnd id : Nat) : Socket :=
  ⟨owner, thrnoBegin, thrnoEnd, 0, 0, id, false, 0, 0, false, 0, 0⟩

/-- `is_owner`. -/
def Socket.isOwner (s : Socket) (cli : Nat) : Bool :=
  s.ownerThrnoBegin ≤ Thrid.number .sparc cli && Thrid.number .sparc cli < s.ownerThrnoEnd

/-- `Udp_socket_t::Cli_state_t`. -/
inductive UdpCli where
  | idle
  | send
  | recv
  deriving DecidableEq, Repr

/-- `Pkt_t`, its `len` being the length of `buf`. -/
structure Pkt where
  addr : Nat
  port : Nat
  buf : List UInt8
  deriving DecidableEq, Repr

/-- `Udp_socket_t`.  Its network state has the one value `Net_idle`. -/
structure UdpSocket extends Socket where
  cliState : UdpCli
  pkts : List Pkt
  deriving DecidableEq, Repr

/-- The size of `Pkt_t::buf`. -/
def pktBufSz : Nat := 0x100

/-- `Tcp_socket_t::Net_state_t`. -/
inductive TcpNet where
  | idle
  | listen
  | connection
  deriving DecidableEq, Repr

/-- `Tcp_socket_t::Cli_state_t`. -/
inductive TcpCli where
  | idle
  | connect
  | accept
  | recv
  | send
  | close
  | closed
  deriving DecidableEq, Repr

/-- `Tcp_socket_t`. -/
structure TcpSocket extends Socket where
  netState : TcpNet
  cliState : TcpCli
  streams : List Nat
  connectedQueue : List Nat
  connectedQueueSz : Nat
  stream : Option Nat
  deriving DecidableEq, Repr

def backlogMin : Nat := 1

def backlogMax : Nat := 3

/-! ## The frames -/

/-- `Frame_sz`. -/
def frameSz : Nat := 1518

/-- The distance of two buffers: `Frame_sz` rounded up to a word. -/
def frameStride : Nat := 1520

/-- The number of buffers that fit into `frames_buf`. -/
def framesCount : Nat := 5

/-- The size of `frames_buf` in bytes. -/
def framesBufSz : Nat := 0x800 * 4

/-- A frame as the driver receives it. -/
structure TxFrame where
  len : Nat
  byte : Lib.Mem

/-- The buffer of a reply: its size, and the bytes of it that are transferred. -/
structure Buf where
  sz : Nat
  bytes : List UInt8
  deriving DecidableEq, Repr

/-- All bytes of a buffer. -/
def Buf.whole (bytes : List UInt8) : Buf := ⟨bytes.length, bytes⟩

/-- What leaves the server.  A reply has a buffer where `reply_to_client` is called with one, also when
it is empty. -/
inductive Out where
  | frame (f : TxFrame)
  | reply (cli ecode : Nat) (words : List Nat) (bf : Option Buf)

/-- `record_t` of the ARP cache. -/
structure ArpRecord where
  ip : Nat
  mac : Nat
  timeout : Nat
  deriving DecidableEq, Repr

/-- `Timeout_usec`. -/
def arpTimeoutUsec : Nat := 30 * 1000 * 1000

/-- The state of the server. -/
structure Net where
  mem : Lib.Mem
  busy : Nat → Bool
  arp : List ArpRecord
  now : Nat
  cnt : Nat
  udpPort : Nat
  tcpPort : Nat
  allstreams : NodeList Unit
  stream : Nat → Stream
  udpIds : List Nat
  udp : Nat → UdpSocket
  tcpIds : List Nat
  tcp : Nat → TcpSocket
  ethBuf : Option Nat
  cliBuf : Option Nat
  key0 : Nat
  key1 : Nat
  blocked : Nat → Bool
  room : Nat → Nat
  out : List Out
  stale : Bool

/-- The room of `allstreams`, of either list of sockets and of the ARP cache. -/
def listCap : Nat := 8

/-- The room of a socket's list of received packets. -/
def pktsCap : Nat := 16

/-- The state after `main` has set up the interfaces and the client thread its name. -/
def Net.init (key0 key1 : Nat) : Net where
  mem := fun _ => 0
  busy := fun _ => false
  arp := []
  now := 0
  cnt := 0
  udpPort := 2000
  tcpPort := 2000
  allstreams := NodeList.init listCap
  stream := fun _ => Stream.mk' 0 0
  udpIds := []
  udp := fun i => ⟨Socket.mk' 0 0 0 i, .idle, []⟩
  tcpIds := []
  tcp := fun i => ⟨Socket.mk' 0 0 0 i, .idle, .idle, [], [], 0, none⟩
  ethBuf := none
  cliBuf := none
  key0 := key0
  key1 := key1
  blocked := fun _ => false
  room := fun _ => 0
  out := []
  stale := false

namespace Net

variable (s : Net)

/-! ### Access to the frames -/

/-- The buffer that holds an address. -/
def frameOf (a : Nat) : Nat := a / frameStride

/-- `Frames_t::get`. -/
def framesGet : Option (Nat × Net) :=
  ((List.range framesCount).find? fun i => !s.busy i).map fun i =>
    (i * frameStride, { s with busy := fun j => if j = i then true else s.busy j })

/-- `Frames_t::free`. -/
def framesFree (a : Nat) : Except Stop Net := do
  ensure (frameOf a < framesCount ∧ a % frameStride < frameSz)
    (.assertion "Attempt to free alien buffer")
  ensure (s.busy (frameOf a) = true) (.assertion "it->busy()")
  .ok { s with busy := fun j => if j = frameOf a then false else s.busy j }

/-- The server reads or writes the buffer at `a`. -/
def touch (a : Nat) : Net := { s with stale := s.stale || !s.busy (frameOf a) }

/-- `send_to_eth_drv` with a driver that accepts every frame. -/
def sendToEthDrv (a len : Nat) : Net :=
  { s.touch a with out := s.out ++ [.frame ⟨len, fun i => s.mem (a + i)⟩] }

/-! ### The ARP cache -/

/-- `Arp_cache_t::find`, which erases a record that has expired. -/
def arpFind (ip : Nat) : Nat × Net :=
  match s.arp.find? fun r => r.ip == ip with
  | none => (macNil, s)
  | some r => if r.timeout < s.now then (macNil, { s with arp := s.arp.erase r }) else (r.mac, s)

/-- `Arp_cache_t::add`. -/
def arpAdd (ip mac : Nat) : Net :=
  if s.arp.any fun r => r.ip == ip then
    { s with
      arp := s.arp.map fun r => if r.ip = ip then ⟨ip, mac, s.now + arpTimeoutUsec⟩ else r }
  else
    { s with
      arp := (if s.arp.length = listCap then s.arp.drop 1 else s.arp) ++
        [⟨ip, mac, s.now + arpTimeoutUsec⟩] }

/-! ### Sockets and streams -/

/-- Write a TCP socket. -/
def setTcp (i : Nat) (f : TcpSocket → TcpSocket) : Net :=
  { s with tcp := fun j => if j = i then f (s.tcp j) else s.tcp j }

/-- Write a UDP socket. -/
def setUdp (i : Nat) (f : UdpSocket → UdpSocket) : Net :=
  { s with udp := fun j => if j = i then f (s.udp j) else s.udp j }

/-- Write a stream. -/
def setStream (k : Nat) (f : Stream → Stream) : Net :=
  { s with stream := fun j => if j = k then f (s.stream j) else s.stream j }

/-- `Streams_t::add`; the callers have checked `free_sz`. -/
def streamsAdd (addr port : Nat) : Option (Nat × Net) :=
  match s.allstreams.pushBack () with
  | none => none
  | some (l, k) =>
    some (k, { s with
      allstreams := l, stream := fun j => if j = k then Stream.mk' addr port else s.stream j })

/-- `Streams_t::remove`; whether the stream was not there. -/
def streamsRemove (k : Nat) : Bool × Net :=
  if k ∈ s.allstreams.nodes then (false, { s with allstreams := s.allstreams.erase k })
  else (true, s)

/-- `Tcp_sockets_t::add` without a parent. -/
def tcpSocketsAdd (owner thrnoBegin thrnoEnd : Nat) (stream : Option Nat) : Option (Nat × Net) :=
  if s.tcpIds.length = listCap then none
  else
    let id := s.cnt + 1
    let t : TcpSocket := ⟨Socket.mk' owner thrnoBegin thrnoEnd id,
      if stream.isSome then .connection else .idle, .idle, [], [], 0, stream⟩
    some (id, { s with
      cnt := id, tcpIds := s.tcpIds ++ [id], tcp := fun j => if j = id then t else s.tcp j })

/-- `Udp_sockets_t::add`. -/
def udpSocketsAdd (owner thrnoBegin thrnoEnd : Nat) : Option (Nat × Net) :=
  if s.udpIds.length = listCap then none
  else
    let id := s.cnt + 1
    let u : UdpSocket := ⟨Socket.mk' owner thrnoBegin thrnoEnd id, .idle, []⟩
    some (id, { s with
      cnt := id, udpIds := s.udpIds ++ [id], udp := fun j => if j = id then u else s.udp j })

/-- `Tcp_sockets_t::remove`; `false` is the return code `0`. -/
def tcpSocketsRemove (id owner : Nat) : Bool × Net :=
  if id ∈ s.tcpIds ∧ (s.tcp id).owner = owner then
    (false, { s with tcpIds := s.tcpIds.erase id })
  else (true, s)

/-- `Udp_sockets_t::remove`. -/
def udpSocketsRemove (id owner : Nat) : Bool × Net :=
  if id ∈ s.udpIds ∧ (s.udp id).owner = owner then
    (false, { s with udpIds := s.udpIds.erase id })
  else (true, s)

/-- `find(id)` of either list. -/
def findTcp (id : Nat) : Option Nat := s.tcpIds.find? (· == id)

def findUdp (id : Nat) : Option Nat := s.udpIds.find? (· == id)

/-- The test of a socket's own end that the three searches share. -/
def boundTo (t : Socket) (locAddr locPort : Nat) : Bool :=
  (t.saddrAddr == inaddrAny || t.saddrAddr == locAddr) && t.saddrPort == locPort

/-- `find_connected_socket`. -/
def findConnectedSocket (locAddr locPort remAddr remPort : Nat) : Option Nat :=
  s.tcpIds.find? fun i =>
    boundTo (s.tcp i).toSocket locAddr locPort &&
      match (s.tcp i).stream with
      | none => false
      | some k => (s.stream k).remAddr == remAddr && (s.stream k).remPort == remPort

/-- `find_listening_socket`. -/
def findListeningSocket (locAddr locPort : Nat) : Option Nat :=
  s.tcpIds.find? fun i => boundTo (s.tcp i).toSocket locAddr locPort

/-- `Udp_sockets_t::find(loc_addr, loc_port)`. -/
def findUdpSocket (locAddr locPort : Nat) : Option Nat :=
  s.udpIds.find? fun i => boundTo (s.udp i).toSocket locAddr locPort

/-- `alloc_free_port` on one of the two counters: the port and the counter's next value. -/
def allocFreePort (port : Nat) : Nat × Nat :=
  if 3000 < port then (2000, 2001) else (port, port + 1)

/-! ### Replies -/

/-- What of a buffer the client receives. -/
def fitted (cli : Nat) (bf : Option Buf) : Option Buf :=
  bf.map fun b => ⟨b.sz, b.bytes.take (s.room cli)⟩

/-- The number of bytes in it. -/
def sentLen (bf : Option Buf) : Nat := (bf.map fun b => b.bytes.length).getD 0

/-- `reply_to_client`: how many bytes were transferred. -/
def replyToClient (cli ecode : Nat) (words : List Nat) (bf : Option Buf) : Except Stop (Nat × Net) := do
  ensure (cli ≠ 0) .replyToNil
  ensure (s.blocked cli = true) .replyFailed
  let bf := s.fitted cli bf
  .ok (sentLen bf, { s with
    blocked := fun t => if t = cli then false else s.blocked t
    out := s.out ++ [.reply cli ecode words bf] })

/-- The four words of a `sockaddr_in`; its `sin_zero` is written as zeros. -/
def sockaddrIn (addr port : Nat) : List Nat := [afInet * 2 ^ 16 + port, addr, 0, 0]

end Net

end Tcpip
end Wrmos
