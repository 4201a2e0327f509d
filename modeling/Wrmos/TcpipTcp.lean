import Wrmos.TcpipParse

/-!
# The TCP/IP server: sending frames and processing a segment

The builders of the frames the server sends by itself, then `send_tcp_msg`, the functions of
`Tcp_socket_t` that move streams between the lists of a listening socket, and
`process_tcp_to_socket` with one definition for each state of a stream.

A frame whose destination address is not known stays with the socket until an ARP reply comes:
`wait_arp` is set and the buffer stays busy.
-/

namespace Wrmos
namespace Tcpip

open Lib

/-! ## Flags of a segment -/

def flagFin : Nat := 1

def flagSyn : Nat := 2

def flagRst : Nat := 4

def flagPsh : Nat := 8

def flagAck : Nat := 16

/-- `tcp->flags & flag`. -/
def Seg.has (seg : Seg) (flag : Nat) : Bool := seg.flags / flag % 2 == 1

/-- Addition of sequence numbers. -/
def seqAdd (a n : Nat) : Nat := (a + n) % 2 ^ 32

/-! ## Builders -/

section Build

variable (m : Lib.Mem)

/-- The Ethernet header at `eth`. -/
def buildEth (eth src dst etype : Nat) : Lib.Mem :=
  ((m.put48 (eth + 6) src).put48 eth dst).put16 (eth + 12) etype

/-- The fields of an IP header of 20 bytes at `ip`, with a checksum of zero. -/
def buildIpFields (ip totalLength proto src dst : Nat) : Lib.Mem :=
  ((((((((m.put8 ip 0x45).put8 (ip + 1) 0).put16 (ip + 2) totalLength).put16 (ip + 4) 0).put16
    (ip + 6) 0x4000).put8 (ip + 8) 64).put8 (ip + 9) proto).put32 (ip + 12) src).put32 (ip + 16) dst
    |>.put16 (ip + 10) 0

/-- An IP header of 20 bytes at `ip`. -/
def buildIp (ip totalLength proto src dst : Nat) : Lib.Mem :=
  let m := buildIpFields m ip totalLength proto src dst
  m.put16 (ip + 10) (inetChecksum m ip 20 0)

/-- The fields of a TCP header of 40 bytes at `tcp`, with a checksum of zero.  Of the 20 bytes of
options only the first is written. -/
def buildTcpFields (tcp sport dport seq ack reserved flags : Nat) : Lib.Mem :=
  (((((((((m.put16 tcp sport).put16 (tcp + 2) dport).put32 (tcp + 4) seq).put32 (tcp + 8) ack).put8
    (tcp + 12) (10 * 16 + reserved * 2 + flags / 256)).put8 (tcp + 13) flags).put16
    (tcp + 14) 100).put16 (tcp + 18) 0).put8 (tcp + 20) 0).put16 (tcp + 16) 0

/-- A TCP header of 40 bytes at `tcp`, in front of a payload of `len` bytes. -/
def buildTcp (tcp sport dport seq ack reserved flags ipsrc ipdst len : Nat) : Lib.Mem :=
  let m := buildTcpFields m tcp sport dport seq ack reserved flags
  let tcplen := (len + 40) % 2 ^ 16
  m.put16 (tcp + 16) (inetChecksum m tcp tcplen (pseudoSum ipsrc ipdst protoTcp tcplen))

/-- The fields of a UDP header at `udp`, with a checksum of zero. -/
def buildUdpFields (udp sport dport length : Nat) : Lib.Mem :=
  (((m.put16 udp sport).put16 (udp + 2) dport).put16 (udp + 4) length).put16 (udp + 6) 0

/-- A UDP header at `udp`, in front of a payload of `len` bytes. -/
def buildUdp (udp sport dport ipsrc ipdst len : Nat) : Lib.Mem :=
  let length := (8 + len) % 2 ^ 16
  let m := buildUdpFields m udp sport dport length
  m.put16 (udp + 6) (inetChecksum m udp length (pseudoSum ipsrc ipdst protoUdp length))

/-- The ARP packet of 28 bytes of `send_arp_request`. -/
def buildArp (arp sha spa tpa : Nat) : Lib.Mem :=
  ((((((((m.put16 arp 1).put16 (arp + 2) 0x0800).put8 (arp + 4) 6).put8 (arp + 5) 4).put16
    (arp + 6) 1).put48 (arp + 8) sha).put32 (arp + 14) spa).put48 (arp + 18) macNil).put32
    (arp + 24) tpa

end Build

/-- The Ethernet type of IP, `Etype_ip`. -/
def etypeIp : Nat := 0x0800

def etypeArp : Nat := 0x0806

namespace Net

variable (s : Net)

/-- Write the frames and note that the buffer at `a` was used. -/
def setMem (a : Nat) (m : Lib.Mem) : Net := { s.touch a with mem := m }

/-! ## Sending -/

/-- `send_arp_request`. -/
def sendArpRequest (ipif : IpIface) (iaddr : Nat) : Except Stop Net :=
  match s.framesGet with
  | none => .error (.assertion "Implement me!")
  | some (eth, s) =>
    let m := buildEth s.mem eth ipif.mac macBcast etypeArp
    let s := s.setMem eth (buildArp m (eth + 14) ipif.mac ipif.addr iaddr)
    (s.sendToEthDrv eth 42).framesFree eth

/-- The interface a socket sends from. -/
def txIface (t : Socket) (remAddr : Nat) : Option IpIface :=
  if t.saddrAddr = inaddrAny then findMasked remAddr else findIface t.saddrAddr

/-- The headers of a segment without payload, built by `send_tcp_msg` in the buffer at `buf`. -/
def tcpMsg (m : Lib.Mem) (buf : Nat) (ipif : IpIface) (mac : Nat) (t : Socket) (st : Stream)
    (flags : Nat) : Lib.Mem :=
  let m := buildEth m buf ipif.mac mac etypeIp
  let m := buildIp m (buf + 14) 60 protoTcp ipif.addr st.remAddr
  buildTcp m (buf + 34) t.saddrPort st.remPort st.seqTx st.seqRx 0 flags ipif.addr st.remAddr 0

/-- `send_tcp_msg` from the buffer on: the frame is built, then it is sent, or it is stored while
the address is asked for. -/
def sendTcpFrame (i k flags buf mac : Nat) (ipif : IpIface) : Except Stop Net :=
  let st := s.stream k
  let s := s.setMem buf (tcpMsg s.mem buf ipif mac (s.tcp i).toSocket st flags)
  if mac = macNil then do
    ensure ((s.tcp i).waitArp = false) (.assertion "!socket->is_wait_arp()")
    let s := s.setTcp i fun t =>
      { t with txEthFrame := buf, txEthFrameLen := 74, waitArp := true }
    s.sendArpRequest ipif st.remAddr
  else (s.sendToEthDrv buf 74).framesFree buf

/-- `send_tcp_msg`. -/
def sendTcpMsg (i k flags : Nat) : Except Stop Net :=
  let remAddr := (s.stream k).remAddr
  let (mac, s) := s.arpFind remAddr
  match s.framesGet with
  | none => .error (.assertion "buf")
  | some (buf, s) =>
    match txIface (s.tcp i).toSocket remAddr with
    | none => .error (.assertion "ipif")
    | some ipif => s.sendTcpFrame i k flags buf mac ipif

/-- `send_icmp_dest_unreach`, which gives up when no buffer is free.  The checksum field of the ICMP
header is not written. -/
def sendIcmpDestUnreach (ipif : IpIface) (ethReq reqLen code : Nat) : Except Stop Net :=
  match s.framesGet with
  | none => .ok s
  | some (eth, s) =>
    let m := buildEth s.mem eth ipif.mac (s.mem.be48 (ethReq + 6)) etypeIp
    let m := buildIp m (eth + 14) (28 + reqLen) protoIcmp ipif.addr (s.mem.be32 (ethReq + 26))
    let m := (m.put8 (eth + 34) 3).put8 (eth + 35) code
    let s := s.setMem eth (m.copy reqLen (eth + 42) (ethReq + 14))
    (s.sendToEthDrv eth (14 + s.mem.be16 (eth + 16))).framesFree eth

/-! ## The lists of a listening socket -/

/-- `find_stream(addr, port)`. -/
def findStream (streams : List Nat) (addr port : Nat) : Option Nat :=
  streams.find? fun k => (s.stream k).remAddr == addr && (s.stream k).remPort == port

/-- `add_stream`, whose caller has not found the remote end among the connecting streams. -/
def addStream (i addr port : Nat) : Option (Nat × Net) :=
  if (s.tcp i).streams.length = backlogMax then none
  else (s.streamsAdd addr port).map fun p =>
    (p.1, p.2.setTcp i fun t => { t with streams := t.streams ++ [p.1] })

/-- `move_to_connected_queue`. -/
def moveToConnectedQueue (i k : Nat) : Except Stop (Nat × Net) := do
  ensure ((s.tcp i).netState = .listen) (.assertion "_net_state == Net_listen")
  ensure ((s.tcp i).cliState = .accept) (.assertion "_cli_state == Cli_accept")
  ensure ((s.tcp i).bound = true) (.assertion "_bound")
  if (s.tcp i).connectedQueue.length = (s.tcp i).connectedQueueSz then .ok (1, s)
  else if k ∉ (s.tcp i).streams then .ok (2, s)
  else .ok (0, s.setTcp i fun t =>
    { t with connectedQueue := t.connectedQueue ++ [k], streams := t.streams.erase k })

/-- `rem_stream(stream)`: out of the connected queue, by the remote end. -/
def remFromQueue (i k : Nat) : Net :=
  match s.findStream (s.tcp i).connectedQueue (s.stream k).remAddr (s.stream k).remPort with
  | none => s
  | some l => s.setTcp i fun t => { t with connectedQueue := t.connectedQueue.erase l }

/-- The client operation of a socket is over: `cli_state(Cli_idle)` and `client(Nil)`. -/
def tcpIdle (i : Nat) : Net := s.setTcp i fun t => { t with cliState := .idle, client := 0 }

/-- The address of the new socket in `accept_connected_stream`. -/
def acceptAddr (t : Socket) (remAddr : Nat) : Option Nat :=
  if t.saddrAddr = inaddrAny then (findMasked remAddr).map (·.addr) else some t.saddrAddr

/-- `Tcp_sockets_t::add(parent, stream, loc_addr)`. -/
def tcpSocketsAddTo (i k iaddr : Nat) : Except Stop (Option Nat × Net) := do
  let t := s.tcp i
  ensure (t.netState = .listen) (.assertion "parent->net_state() == Tcp_socket_t::Net_listen")
  match s.tcpSocketsAdd t.owner t.ownerThrnoBegin t.ownerThrnoEnd (some k) with
  | none => .ok (none, s)
  | some (j, s) =>
    ensure (t.bound = true) (.assertion "_bound")
    -- a new socket is not bound, so `bind` does not fail
    let s := (s.remFromQueue i k).setTcp j fun u =>
      { u with bound := true, saddrAddr := iaddr, saddrPort := t.saddrPort }
    .ok (some j, s)

/-- `accept_connected_stream`. -/
def acceptConnectedStream (i k : Nat) : Except Stop Net := do
  ensure ((s.tcp i).cliState = .accept)
    (.assertion "socket->cli_state() == Tcp_socket_t::Cli_accept")
  ensure ((s.stream k).state = .established) (.assertion "stream->state == Stream_t::Established")
  match acceptAddr (s.tcp i).toSocket (s.stream k).remAddr with
  | none => .error (.assertion "ipif")
  | some iaddr =>
    let (j, s) ← s.tcpSocketsAddTo i k iaddr
    match j with
    | none =>
      let (_, s) ← s.replyToClient (s.tcp i).client 7 [] none
      .ok (s.tcpIdle i)
    | some j =>
      let words := j :: sockaddrIn (s.stream k).remAddr (s.stream k).remPort
      let (_, s) ← s.replyToClient (s.tcp i).client 0 words none
      .ok (s.tcpIdle i)

/-- `rem_stream()` of a connection. -/
def remStream (i : Nat) : Except Stop Net := do
  ensure ((s.tcp i).netState = .connection) (.assertion "_net_state == Net_connection")
  ensure ((s.tcp i).cliState = .closed) (.assertion "_cli_state == Cli_closed")
  ensure ((s.tcp i).bound = true) (.assertion "_bound")
  match (s.tcp i).stream with
  | none => .error (.assertion "!rc")
  | some k =>
    let (rc, s) := s.streamsRemove k
    ensure (rc = false) (.assertion "!rc")
    .ok s

/-- `tcp_sockets.remove(..)` with the assertion that it succeeds. -/
def removeTcp (i owner : Nat) : Except Stop Net := do
  let (rc, s) := s.tcpSocketsRemove i owner
  ensure (rc = false) (.assertion "!rc")
  .ok s

/-! ## A segment for a socket -/

section Segment

variable (i : Nat) (seg : Seg)

/-- The stream of the segment: the first part of `process_tcp_to_socket`. -/
def selectStream : Except Stop (Option Nat × Net) :=
  match (s.tcp i).netState with
  | .listen => do
    ensure ((s.tcp i).bound = true) (.assertion "_bound")
    match s.findStream (s.tcp i).streams seg.src seg.sport with
    | some k => .ok (some k, s)
    | none =>
      if seg.has flagSyn then
        match s.addStream i seg.src seg.sport with
        | none => .error (.assertion "false")
        | some (k, s) => .ok (some k, s.setStream k fun st =>
          { st with initSeqTx := 123, seqTx := 123 })
      else .ok (none, s)
  | .connection =>
    match (s.tcp i).stream with
    | none => .error (.assertion "stream")
    | some k => .ok (some k, s)
  | .idle => .error (.assertion "false")

/-- Whether the sequence number is not the expected one. -/
def wrongSeq (st : Stream) : Bool :=
  !(st.state == .closed || st.state == .synSent) && seg.seq != st.seqRx

/-- What the sequence number and the length of the segment change. -/
def rxSeq (st : Stream) : Stream :=
  if seg.has flagSyn then { st with initSeqRx := seqAdd seg.seq 1, seqRx := seqAdd seg.seq 1 }
  else { st with seqRx := seqAdd st.seqRx seg.payload.length }

variable (k : Nat)

/-- `Rst`. -/
def processRst : Except Stop Net := do
  let s := s.setStream k fun st =>
    { st with seqTx := seqAdd st.seqTx 1, seqRx := seqAdd st.seqRx 1 }
  let s ← s.sendTcpMsg i k (flagRst + flagAck)
  let s := s.setStream k fun st => { st with state := .closed }
  ensure ((s.tcp i).cliState = .connect) (.assertion "false")
  let (_, s) ← s.replyToClient (s.tcp i).client 11 [] none
  .ok (s.tcpIdle i)

/-- `case Closed`. -/
def tcpClosed : Except Stop Net :=
  if seg.has flagSyn then do
    let s ← s.sendTcpMsg i k (flagSyn + flagAck)
    .ok (s.setStream k fun st => { st with seqTx := seqAdd st.seqTx 1, state := .synReceived })
  else .ok s

/-- `case Syn_sent`. -/
def tcpSynSent : Except Stop Net :=
  if seg.has flagAck then do
    let s := s.setStream k fun st =>
      { st with state := .established, seqTx := seqAdd st.seqTx 1 }
    let s ← s.sendTcpMsg i k flagAck
    ensure ((s.tcp i).cliState = .connect)
      (.assertion "socket->cli_state() == Tcp_socket_t::Cli_connect")
    let (_, s) ← s.replyToClient (s.tcp i).client 0 [] none
    .ok (s.tcpIdle i)
  else .error (.assertion "false")

/-- `case Syn_received`. -/
def tcpSynReceived : Except Stop Net :=
  if seg.has flagAck then do
    let s := s.setStream k fun st => { st with state := .established }
    let (rc, s) ← s.moveToConnectedQueue i k
    ensure (rc = 0) (.assertion "Connected queue is full. Implement me - send reject")
    if (s.tcp i).cliState = .accept then s.acceptConnectedStream i k else .ok s
  else .error (.assertion "false")

/-- `case Established`, the payload: `memcpy` to the end of the buffer. -/
def tcpAppend : Except Stop Net := do
  ensure (seg.payload.length ≤ streamBufSz - (s.stream k).buf.length) (.assertion "len <= free")
  .ok (s.setStream k fun st => { st with buf := st.buf ++ seg.payload })

/-- Deliver the buffer to `cli`; what does not fit moves to the front. -/
def deliver (cli : Nat) : Except Stop Net := do
  let st := s.stream k
  let (sent, s) ← s.replyToClient cli 0 (sockaddrIn st.remAddr st.remPort) (some (.whole st.buf))
  .ok (s.setStream k fun st => { st with buf := st.buf.drop sent })

/-- `case Established`, `Psh`. -/
def tcpPush : Except Stop Net :=
  if seg.has flagPsh = true ∧ (s.tcp i).cliState = .recv then do
    let s ← s.deliver k (s.tcp i).client
    .ok (s.tcpIdle i)
  else .ok s

/-- `case Established`, `Fin`.  The client that waits is told with an empty buffer, and what the
buffer of the stream held is dropped. -/
def tcpFin : Except Stop Net :=
  if seg.has flagFin then do
    let s := s.setStream k fun st => { st with seqRx := seqAdd st.seqRx 1 }
    let s ← s.sendTcpMsg i k (flagFin + flagAck)
    let s := s.setStream k fun st => { st with state := .lastAck }
    if (s.tcp i).cliState = .recv then
      let st := s.stream k
      let (_, s) ← s.replyToClient (s.tcp i).client 0 (sockaddrIn st.remAddr st.remPort)
        (some (.whole []))
      .ok ((s.setStream k fun st => { st with buf := [] }).tcpIdle i)
    else .ok s
  else .ok s

/-- `case Established`. -/
def tcpEstablished : Except Stop Net := do
  let s ← s.tcpAppend seg k
  let s ← s.tcpPush i seg k
  s.tcpFin i seg k

/-- `case Fin_wait1`. -/
def tcpFinWait1 : Except Stop Net :=
  if seg.has flagFin && seg.has flagAck then do
    let s := s.setStream k fun st =>
      { st with state := .timeWait, seqRx := seqAdd st.seqRx 1, seqTx := seqAdd st.seqTx 1 }
    let s ← s.sendTcpMsg i k flagAck
    ensure ((s.tcp i).cliState = .close)
      (.assertion "socket->cli_state() == Tcp_socket_t::Cli_close")
    let (_, s) ← s.replyToClient (s.tcp i).client 0 [] none
    let s := s.setTcp i fun t => { t with cliState := .closed }
    let s ← s.remStream i
    s.removeTcp i (s.tcp i).client
  else .ok s

/-- `case Last_ack`. -/
def tcpLastAck : Except Stop Net :=
  if seg.has flagAck then do
    let s := s.setStream k fun st => { st with state := .closed }
    if (s.tcp i).cliState = .close then
      let cli := (s.tcp i).client
      let s ← s.remStream i
      let s ← s.removeTcp i cli
      let s := s.setTcp i fun t => { t with cliState := .closed }
      let (_, s) ← s.replyToClient cli 0 [] none
      .ok s
    else .ok s
  else .error (.assertion "Something going wrong")

/-- The `switch` on the state of the stream. -/
def tcpSwitch : Except Stop Net :=
  match (s.stream k).state with
  | .closed => s.tcpClosed i seg k
  | .synSent => s.tcpSynSent i seg k
  | .synReceived => s.tcpSynReceived i seg k
  | .established => s.tcpEstablished i seg k
  | .finWait1 => s.tcpFinWait1 i seg k
  | .lastAck => s.tcpLastAck i seg k
  | .closeWait | .finWait2 | .timeWait | .closing => .error (.assertion "false")
  | .listen => .ok s

/-- `process_tcp_to_socket` once the stream is known. -/
def processTcpToStream : Except Stop Net :=
  if wrongSeq seg (s.stream k) then .ok s
  else do
    let s := s.setStream k (rxSeq seg)
    let s ← (if seg.has flagRst then s.processRst i k else .ok s)
    s.tcpSwitch i seg k

end Segment

/-- `process_tcp_to_socket`. -/
def processTcpToSocket (i : Nat) (seg : Seg) : Except Stop Net := do
  let (k, s) ← s.selectStream i seg
  match k with
  | none => .ok s
  | some k => s.processTcpToStream i seg k

/-- The rest of `process_tcp_packet`. -/
def processTcpPacket (ipif : IpIface) (eth : Nat) (seg : Seg) : Except Stop Net :=
  match s.findConnectedSocket seg.dst seg.dport seg.src seg.sport with
  | some i => s.processTcpToSocket i seg
  | none =>
    match s.findListeningSocket seg.dst seg.dport with
    | some i => s.processTcpToSocket i seg
    | none => s.sendIcmpDestUnreach ipif eth seg.reqLen codeDstPortUnreach

end Net

end Tcpip
end Wrmos
