import Wrmos.TcpipTcp

/-!
# The TCP/IP server: frames, requests and the steps of a run

The second half of `process_eth_frame`, the handlers of the client requests, and `step`, which is
one round of one of the two threads.

A handler of a request says whether it kept the client thread's buffer (the return code `0` of the
source).  No packet handler keeps the Ethernet thread's buffer: every path of `process_eth_frame`
returns `1`.
-/

namespace Wrmos
namespace Tcpip

open Lib

namespace Net

variable (s : Net)

/-! ## Frames -/

/-- Whether a client waits for a datagram. -/
def udpWaits (u : UdpSocket) : Bool := u.cliState == .recv || u.recvClient != 0

/-- How many payload bytes are copied for a socket: `reply_to_client` hands the kernel a string of
`payload_len()` bytes, a length of 22 bits, of which it transfers what the receiver has room for;
`save_received_packet` copies what fits into a packet. -/
def udpCopyLen (u : UdpSocket) (d : Dgram) : Nat :=
  if udpWaits u then min (d.payloadLen % 2 ^ 22) (s.room u.recvClient)
  else if u.pkts.length = pktsCap ∨ pktBufSz < d.payloadLen then 0
  else d.payloadLen

/-- `save_received_packet`: the node is taken first, and stays empty when the payload is too long. -/
def saveReceivedPacket (u : UdpSocket) (d : Dgram) (data : List UInt8) : UdpSocket :=
  if u.pkts.length = pktsCap then u
  else if pktBufSz < d.payloadLen then { u with pkts := u.pkts ++ [⟨0, 0, []⟩] }
  else { u with pkts := u.pkts ++ [⟨d.src, d.sport, data⟩] }

/-- The rest of `process_udp_packet`. -/
def processUdpPacket (ipif : IpIface) (eth : Nat) (d : Dgram) : Except Stop Net :=
  match s.findUdpSocket d.dst d.dport with
  | none => s.sendIcmpDestUnreach ipif eth d.reqLen codeDstPortUnreach
  | some i =>
    let u := s.udp i
    let n := s.udpCopyLen u d
    if framesBufSz < eth + d.payloadOff + n then .error .outside
    else
      let data := s.mem.slice (eth + d.payloadOff) n
      if udpWaits u then do
        let s := s.setUdp i fun u =>
          { u with cliState := if u.cliState = .recv then .idle else u.cliState, recvClient := 0 }
        let (_, s) ← s.replyToClient u.recvClient 0 (sockaddrIn d.src d.sport)
          (some ⟨d.payloadLen, data⟩)
        .ok s
      else .ok (s.setUdp i fun u => saveReceivedPacket u d data)

/-- `case Type_echo_request`: the request is turned into the reply where it stands. -/
def echoReply (m : Lib.Mem) (eth hdrlen icmplen : Nat) : Lib.Mem :=
  let icmp := eth + 14 + hdrlen
  let m := ((m.put8 icmp 0).put8 (icmp + 1) 0).put16 (icmp + 2) 0
  let m := m.put16 (icmp + 2) (inetChecksum m icmp icmplen 0)
  let src := m.be32 (eth + 26)
  let m := (m.put32 (eth + 26) (m.be32 (eth + 30))).put32 (eth + 30) src
  let mac := m.be48 (eth + 6)
  (m.put48 (eth + 6) (m.be48 eth)).put48 eth mac

/-- The reply to an ARP request, where it stands. -/
def arpReply (m : Lib.Mem) (eth tpa mac : Nat) : Lib.Mem :=
  let m := ((((m.put16 (eth + 20) 2).put48 (eth + 22) mac).put32 (eth + 28) tpa).put48
    (eth + 32) macNil).put32 (eth + 38) 0
  let src := m.be48 (eth + 6)
  (m.put48 (eth + 6) (m.be48 eth)).put48 eth src

/-- `check_arp_waiting_sockets`, the frame: the address is filled in, the frame is sent and its
buffer freed. -/
def sendStored (t : Socket) (sha : Nat) : Except Stop Net :=
  ((s.setMem t.txEthFrame (s.mem.put48 t.txEthFrame sha)).sendToEthDrv t.txEthFrame
    t.txEthFrameLen).framesFree t.txEthFrame

/-- Whether a socket waits for the address `spa`: the stored frame has it as its destination. -/
def waitsFor (t : Socket) (spa : Nat) : Bool :=
  t.waitArp && s.mem.be32 (t.txEthFrame + 30) == spa

/-- The size of the headers in a stored frame, which is read after the buffer was freed. -/
def udpHdrs (a : Nat) : Nat := 14 + s.mem.byte (a + 14) % 16 * 4 + 8

def tcpHdrs (a : Nat) : Nat :=
  14 + s.mem.byte (a + 14) % 16 * 4 + s.mem.byte (a + 14 + s.mem.byte (a + 14) % 16 * 4 + 12) / 16 * 4

/-- `check_arp_waiting_sockets` for a UDP socket. -/
def checkArpUdp (spa sha : Nat) (i : Nat) : Except Stop Net :=
  let u := s.udp i
  if s.waitsFor u.toSocket spa then do
    let s := s.setUdp i fun u => { u with waitArp := false }
    let s ← s.sendStored u.toSocket sha
    if u.cliState = .send then
      let s := s.touch u.txEthFrame
      let sent := subSz u.txEthFrameLen (s.udpHdrs u.txEthFrame)
      let (_, s) ← s.replyToClient u.client 0 [sent] none
      .ok (s.setUdp i fun u => { u with cliState := .idle, client := 0 })
    else .ok s
  else .ok s

/-- `check_arp_waiting_sockets` for a TCP socket. -/
def checkArpTcp (spa sha : Nat) (i : Nat) : Except Stop Net :=
  let t := s.tcp i
  if s.waitsFor t.toSocket spa then do
    let s := s.setTcp i fun t => { t with waitArp := false }
    let s ← s.sendStored t.toSocket sha
    if t.cliState = .send then
      let s := s.touch t.txEthFrame
      let sent := subSz t.txEthFrameLen (s.tcpHdrs t.txEthFrame)
      let (_, s) ← s.replyToClient t.client 0 [sent] none
      .ok (s.tcpIdle i)
    else .ok s
  else .ok s

/-- `foreach` over a list of sockets. -/
def foreachSocket (f : Net → Nat → Except Stop Net) : Net → List Nat → Except Stop Net := runAll f

/-- The two `foreach` calls of `process_arp_packet`. -/
def processArpReply (spa sha : Nat) : Except Stop Net := do
  let s ← foreachSocket (fun s i => s.checkArpUdp spa sha i) s s.udpIds
  foreachSocket (fun s i => s.checkArpTcp spa sha i) s s.tcpIds

/-- What the frame at `eth` asks for. -/
def processPacket (eth : Nat) (p : Packet) : Except Stop Net :=
  let ipif := (findIface (s.mem.be32 (eth + 30))).getD ⟨0, 0, 0⟩
  match p with
  | .drop => .ok s
  | .wrongChecksum off => .ok (s.setMem eth (s.mem.put16 (eth + off) 0))
  | .arpRequest arplen tpa =>
    let mac := ((findIface tpa).getD ⟨0, 0, 0⟩).mac
    .ok ((s.setMem eth (arpReply s.mem eth tpa mac)).sendToEthDrv eth (arplen + 14))
  | .arpReply spa sha => s.processArpReply spa sha
  | .echo hdrlen icmplen =>
    .ok ((s.setMem eth (echoReply s.mem eth hdrlen icmplen)).sendToEthDrv eth
      (14 + hdrlen + icmplen))
  | .unreach reqLen code => s.sendIcmpDestUnreach ipif eth reqLen code
  | .tcp seg => s.processTcpPacket ipif eth seg
  | .udp dgram => s.processUdpPacket ipif eth dgram

/-- What the ARP cache learns from a frame. -/
def learn (p : Parsed) : Net :=
  match p.learn with
  | none => s
  | some (ip, mac) => s.arpAdd ip mac

/-- What the second half copies out of the frame: the packet that a destination-unreachable message
quotes, or the payload of a datagram. -/
def copyReads (p : Packet) : List Span :=
  match p with
  | .tcp seg =>
    match s.findConnectedSocket seg.dst seg.dport seg.src seg.sport,
        s.findListeningSocket seg.dst seg.dport with
    | none, none => [⟨14, seg.reqLen⟩]
    | _, _ => []
  | .udp d =>
    match s.findUdpSocket d.dst d.dport with
    | none => [⟨14, d.reqLen⟩]
    | some i => [⟨d.payloadOff, s.udpCopyLen (s.udp i) d⟩]
  | _ => []

/-- Everything `process_eth_frame` reads of the frame. -/
def frameTrace (eth len : Nat) : Trace Unit := do
  let p ← parseEthFrame s.mem eth len
  Trace.readAll (s.copyReads p.packet)

/-- `process_eth_frame` on the `len` bytes at `eth`. -/
def processEthFrame (eth len : Nat) : Except Stop Net := do
  let p ← (parseEthFrame s.mem eth len).result
  ((s.touch eth).learn p).processPacket eth p.packet

end Net

/-! ## Requests -/

/-- A request of a client: its sender, the room of the buffer it waits with, the tag, the message
words and the bytes of the string item.  `appThreads` is the answer of the root task to
`wrm_app_threads`. -/
structure Request where
  cli : Nat
  room : Nat
  untyped : Nat
  typed : Nat
  mr : Nat → Nat
  data : List UInt8
  appThreads : Option (Nat × Nat)

namespace Request

variable (r : Request)

/-- The socket a request names. -/
def sock : Nat := r.mr 4

/-- `sin_family`, `sin_port` and `sin_addr` of a `sockaddr_in` at a message word. -/
def sinFamily (w : Nat) : Nat := r.mr w / 2 ^ 16 % 2 ^ 16

def sinPort (w : Nat) : Nat := r.mr w % 2 ^ 16

def sinAddr (w : Nat) : Nat := r.mr (w + 1) % 2 ^ 32

end Request

/-- Where the client thread's buffer receives a string: behind room for the headers. -/
def hdrsSpace : Nat := 74

namespace Net

variable (s : Net) (r : Request)

/-- Reply with an error, or with what a request has computed; the buffer is free for the next
request. -/
def answer (cli ecode : Nat) (words : List Nat) : Except Stop (Bool × Net) := do
  let (_, s) ← s.replyToClient cli ecode words none
  .ok (false, s)

/-- Reply with an error. -/
def refuse (cli ecode : Nat) : Except Stop (Bool × Net) := s.answer cli ecode []

/-- The protocol number of a socket type that `process_cli_socket` supports. -/
def protoUdpOk (proto : Nat) : Bool := proto == 0 || proto == protoUdp

def protoTcpOk (proto : Nat) : Bool := proto == 0 || proto == protoTcp

/-- `process_cli_socket`. -/
def processCliSocket : Except Stop (Bool × Net) :=
  if r.untyped ≠ 6 ∨ r.typed ≠ 0 then s.refuse r.cli 2
  else if r.mr 4 ≠ afInet then s.refuse r.cli 3
  else
    match r.appThreads with
    | none => s.refuse r.cli 4
    | some (thrnoBegin, thrnoEnd) =>
      if r.mr 5 = sockDgram then
        if protoUdpOk (r.mr 6) = false then s.refuse r.cli 5
        else
          match s.udpSocketsAdd r.cli thrnoBegin thrnoEnd with
          | none => s.refuse r.cli 6
          | some (id, s) => s.answer r.cli 0 [id]
      else if r.mr 5 = sockStream then
        if protoTcpOk (r.mr 6) = false then s.refuse r.cli 7
        else
          match s.tcpSocketsAdd r.cli thrnoBegin thrnoEnd none with
          | none => s.refuse r.cli 8
          | some (id, s) => s.answer r.cli 0 [id]
      else s.refuse r.cli 9

/-- `process_cli_close_tcp`. -/
def processCliCloseTcp (i cli : Nat) : Except Stop Net :=
  match (s.tcp i).netState with
  | .listen => do
    ensure ((s.tcp i).streams.length + (s.tcp i).connectedQueue.length = 0)
      (.assertion "TODO:  close all streams and after close socket.")
    let s := s.setTcp i fun t => { t with cliState := .closed }
    let s ← s.removeTcp i cli
    let (_, s) ← s.replyToClient cli 0 [] none
    .ok s
  | .connection =>
    match (s.tcp i).stream with
    | none => .error (.assertion "stream")
    | some k =>
      match (s.stream k).state with
      | .closed => do
        let s := s.setTcp i fun t => { t with cliState := .closed }
        let s ← s.remStream i
        let s ← s.removeTcp i cli
        let (_, s) ← s.replyToClient cli 0 [] none
        .ok s
      | .established =>
        let s := s.setTcp i fun t => { t with cliState := .close, client := cli }
        let s := s.setStream k fun st => { st with state := .finWait1 }
        s.sendTcpMsg i k (flagFin + flagAck)
      | _ => .error (.assertion "TODO")
  | .idle => .error (.assertion "TODO")

/-- `process_cli_close`. -/
def processCliClose : Except Stop (Bool × Net) :=
  if r.untyped ≠ 4 ∨ r.typed ≠ 0 then s.refuse r.cli 2
  else
    match s.findUdp r.sock with
    | some i =>
      if (s.udp i).isOwner r.cli = false then s.refuse r.cli 4
      else if (s.udp i).cliState ≠ .idle then s.refuse r.cli 5
      else
        let (rc, s) := s.udpSocketsRemove i r.cli
        if rc then s.refuse r.cli 6 else s.answer r.cli 0 []
    | none =>
      match s.findTcp r.sock with
      | none => s.refuse r.cli 3
      | some i =>
        if (s.tcp i).isOwner r.cli = false then s.refuse r.cli 4
        else if (s.tcp i).cliState ≠ .idle then s.refuse r.cli 5
        else do
          let s ← s.processCliCloseTcp i r.cli
          .ok (false, s)

/-- The checks of `process_cli_bind` on a socket that was found: the code of the error. -/
def bindError (t : Socket) (cliIdle netIdle : Bool) : Option Nat :=
  if t.isOwner r.cli = false then some 4
  else if r.sinFamily 5 ≠ afInet then some 5
  else if cliIdle = false then some 6
  else if netIdle = false then some 6
  else if r.sinAddr 5 ≠ inaddrAny ∧ findIface (r.sinAddr 5) = none then some 8
  else if t.bound then some 9
  else none

/-- `bind(const sockaddr_in*)` of a socket that is not bound. -/
def bindSocket (t : Socket) (addr port : Nat) : Socket :=
  { t with bound := true, saddrAddr := addr, saddrPort := port }

/-- `process_cli_bind`.  The domain of a socket is `AF_INET`, so the family is refused with `5` and
the later refusals of it (`7` and the one of `bind`) are not reached. -/
def processCliBind : Except Stop (Bool × Net) :=
  if r.untyped ≠ 8 ∨ r.typed ≠ 0 then s.refuse r.cli 2
  else
    match s.findUdp r.sock with
    | some i =>
      match bindError r (s.udp i).toSocket ((s.udp i).cliState == .idle) true with
      | some e => s.refuse r.cli e
      | none =>
        let s := s.setUdp i fun u =>
          { u with toSocket := bindSocket u.toSocket (r.sinAddr 5) (r.sinPort 5) }
        s.answer r.cli 0 []
    | none =>
      match s.findTcp r.sock with
      | none => s.refuse r.cli 3
      | some i =>
        match bindError r (s.tcp i).toSocket ((s.tcp i).cliState == .idle)
            ((s.tcp i).netState == .idle) with
        | some e => s.refuse r.cli e
        | none =>
          let s := s.setTcp i fun t =>
            { t with toSocket := bindSocket t.toSocket (r.sinAddr 5) (r.sinPort 5) }
          s.answer r.cli 0 []

/-- The length of the connected queue for a `backlog`, an `int`. -/
def backlogSz (backlog : Nat) : Nat :=
  if backlog = 0 ∨ 2 ^ 31 ≤ backlog then backlogMin
  else if backlogMax < backlog then backlogMax
  else backlog

/-- `process_cli_listen`. -/
def processCliListen : Except Stop (Bool × Net) :=
  if r.untyped ≠ 5 ∨ r.typed ≠ 0 then s.refuse r.cli 2
  else
    match s.findTcp r.sock with
    | none => s.refuse r.cli 3
    | some i =>
      if (s.tcp i).isOwner r.cli = false then s.refuse r.cli 4
      else if (s.tcp i).cliState ≠ .idle then s.refuse r.cli 6
      else if (s.tcp i).netState ≠ .idle then s.refuse r.cli 6
      else do
        ensure ((s.tcp i).bound = true) (.assertion "_bound")
        let s := s.setTcp i fun t =>
          { t with connectedQueueSz := backlogSz (r.mr 5 % 2 ^ 32), netState := .listen }
        s.answer r.cli 0 []

/-- `get_connected_stream`. -/
def getConnectedStream (i : Nat) : Option Nat × Net :=
  match (s.tcp i).connectedQueue with
  | [] => (none, s)
  | k :: _ => (some k, s.setTcp i fun t => { t with connectedQueue := t.connectedQueue.tail })

/-- `process_cli_accept`. -/
def processCliAccept : Except Stop (Bool × Net) :=
  if r.untyped ≠ 4 ∨ r.typed ≠ 0 then s.refuse r.cli 2
  else
    match s.findTcp r.sock with
    | none => s.refuse r.cli 3
    | some i =>
      if (s.tcp i).isOwner r.cli = false then s.refuse r.cli 4
      else if (s.tcp i).cliState ≠ .idle then s.refuse r.cli 6
      else if (s.tcp i).netState ≠ .listen then s.refuse r.cli 7
      else do
        let s := s.setTcp i fun t => { t with cliState := .accept, client := r.cli }
        ensure ((s.tcp i).bound = true) (.assertion "_bound")
        let (k, s) := s.getConnectedStream i
        match k with
        | none => .ok (false, s)
        | some k =>
          let s ← s.acceptConnectedStream i k
          .ok (false, s)

/-- `bind(uint32_t)`: a socket that is not bound gets a free port. -/
def autoBindTcp (i addr : Nat) : Net :=
  if (s.tcp i).bound then s
  else
    let (port, next) := allocFreePort s.tcpPort
    { s.setTcp i fun t => { t with toSocket := bindSocket t.toSocket addr port } with
      tcpPort := next }

def autoBindUdp (i addr : Nat) : Net :=
  if (s.udp i).bound then s
  else
    let (port, next) := allocFreePort s.udpPort
    { s.setUdp i fun u => { u with toSocket := bindSocket u.toSocket addr port } with
      udpPort := next }

/-- `stream(addr, port)`: the stream of a socket that connects. -/
def connectStream (i addr port : Nat) : Except Stop (Nat × Net) :=
  if (s.tcp i).streams.length = backlogMax then .error (.assertion "stream")
  else
    match s.streamsAdd addr port with
    | none => .error (.assertion "stream")
    | some (k, s) => .ok (k, s.setTcp i fun t => { t with stream := some k })

/-- `process_cli_connect`. -/
def processCliConnect : Except Stop (Bool × Net) :=
  if r.untyped ≠ 8 ∨ r.typed ≠ 0 then s.refuse r.cli 2
  else
    match s.findTcp r.sock with
    | none => s.refuse r.cli 3
    | some i =>
      if (s.tcp i).isOwner r.cli = false then s.refuse r.cli 4
      else if (s.tcp i).cliState ≠ .idle then s.refuse r.cli 5
      else if (s.tcp i).netState ≠ .idle then s.refuse r.cli 6
      else do
        ensure ((s.tcp i).stream = none) (.assertion "!socket->stream()")
        match findMasked (r.sinAddr 5) with
        | none => s.refuse r.cli 7
        | some ipif =>
          let s := s.autoBindTcp i ipif.addr
          let s := s.setTcp i fun t =>
            { t with netState := .connection, cliState := .connect, client := r.cli }
          let (k, s) ← s.connectStream i (r.sinAddr 5) (r.sinPort 5)
          let s := s.setStream k fun st => { st with state := .synSent }
          let s ← s.sendTcpMsg i k flagSyn
          .ok (false, s)

/-- The headers of a segment with payload, built in front of the payload at `eth + 74`. -/
def tcpDataMsg (m : Lib.Mem) (eth : Nat) (ipif : IpIface) (mac : Nat) (t : Socket) (st : Stream)
    (len : Nat) : Lib.Mem :=
  let m := buildEth m eth ipif.mac mac etypeIp
  let m := buildIp m (eth + 14) (60 + len) protoTcp ipif.addr st.remAddr
  buildTcp m (eth + 34) t.saddrPort st.remPort st.seqTx st.seqRx (m.byte (eth + 34 + 12) / 2 % 8)
    (flagPsh + flagAck) ipif.addr st.remAddr len

/-- `process_cli_sendto_tcp`; `frame` is the client thread's buffer. -/
def processCliSendtoTcp (i frame : Nat) : Except Stop (Bool × Net) :=
  if (s.tcp i).netState ≠ .connection then s.refuse r.cli 7
  else
    match (s.tcp i).stream with
    | none => .error (.assertion "stream")
    | some k =>
      if (s.stream k).state ≠ .established then s.refuse r.cli 8
      else
        match txIface (s.tcp i).toSocket (s.stream k).remAddr with
        | none => s.refuse r.cli 9
        | some ipif =>
          let s := s.autoBindTcp i ipif.addr
          let (mac, s) := s.arpFind (s.stream k).remAddr
          -- the string was received behind 74 bytes, as many as the headers take
          let eth := frame + hdrsSpace - 74
          let len := r.data.length
          let s := s.setMem eth (tcpDataMsg s.mem eth ipif mac (s.tcp i).toSocket (s.stream k) len)
          let s := s.setStream k fun st => { st with seqTx := seqAdd st.seqTx len }
          if mac = macNil then
            if (s.tcp i).waitArp then s.refuse r.cli 11
            else do
              let s := s.setTcp i fun t =>
                { t with
                  txEthFrame := eth, txEthFrameLen := 74 + len, waitArp := true
                  cliState := .send, client := r.cli }
              let s ← s.sendArpRequest ipif (s.stream k).remAddr
              .ok (true, s)
          else (s.sendToEthDrv eth (74 + len)).answer r.cli 0 [len]

/-- The headers of a datagram, built in front of the payload at `eth + 42`. -/
def udpDataMsg (m : Lib.Mem) (eth : Nat) (ipif : IpIface) (mac port dst dport len : Nat) : Lib.Mem :=
  let m := buildEth m eth ipif.mac mac etypeIp
  let m := buildIp m (eth + 14) (28 + len) protoUdp ipif.addr dst
  buildUdp m (eth + 34) port dport ipif.addr dst len

/-- `process_cli_sendto_udp`. -/
def processCliSendtoUdp (i frame : Nat) : Except Stop (Bool × Net) :=
  if r.sinFamily 6 ≠ afInet then s.refuse r.cli 8
  else
    match findMasked (r.sinAddr 6) with
    | none => s.refuse r.cli 9
    | some ipif =>
      let s := s.autoBindUdp i ipif.addr
      let (mac, s) := s.arpFind (r.sinAddr 6)
      let eth := frame + hdrsSpace - 42
      let len := r.data.length
      let s := s.setMem eth (udpDataMsg s.mem eth ipif mac (s.udp i).saddrPort (r.sinAddr 6)
        (r.sinPort 6) len)
      if mac = macNil then
        if (s.udp i).waitArp then s.refuse r.cli 11
        else do
          let s := s.setUdp i fun u =>
            { u with
              txEthFrame := eth, txEthFrameLen := 42 + len, waitArp := true
              cliState := .send, client := r.cli }
          let s ← s.sendArpRequest ipif (r.sinAddr 6)
          .ok (true, s)
      else (s.sendToEthDrv eth (42 + len)).answer r.cli 0 [len]

/-- `process_cli_sendto`: a socket that waits in `recv` may send as well.  The two typed words are a
string item, the only kind the client thread's acceptor admits. -/
def processCliSendto (frame : Nat) : Except Stop (Bool × Net) :=
  if r.untyped ≠ 9 ∨ r.typed ≠ 2 then s.refuse r.cli 2
  else
    match s.findUdp r.sock with
    | some i =>
      if (s.udp i).isOwner r.cli = false then s.refuse r.cli 4
      else if (s.udp i).cliState ≠ .idle ∧ (s.udp i).cliState ≠ .recv then s.refuse r.cli 5
      else s.processCliSendtoUdp r i frame
    | none =>
      match s.findTcp r.sock with
      | none => s.refuse r.cli 3
      | some i =>
        if (s.tcp i).isOwner r.cli = false then s.refuse r.cli 4
        else if (s.tcp i).cliState ≠ .idle ∧ (s.tcp i).cliState ≠ .recv then s.refuse r.cli 5
        else s.processCliSendtoTcp r i frame

/-- `process_cli_recvfrom_tcp`.  Where the connection is not established, the reply goes to
`socket->client()`. -/
def processCliRecvfromTcp (i cli : Nat) : Except Stop Net :=
  match (s.tcp i).stream with
  | none => .error (.assertion "stream")
  | some k =>
    if (s.stream k).state = .established then
      if (s.stream k).buf ≠ [] then s.deliver k cli
      else .ok (s.setTcp i fun t => { t with cliState := .recv, client := cli })
    else do
      let (_, s) ← s.replyToClient (s.tcp i).client 0
        (sockaddrIn (s.stream k).remAddr (s.stream k).remPort) (some (.whole []))
      .ok s

/-- The part of `process_cli_recvfrom` for a UDP socket. -/
def processCliRecvfromUdp (i cli : Nat) : Except Stop Net :=
  match (s.udp i).pkts with
  | p :: _ => do
    let (_, s) ← s.replyToClient cli 0 (sockaddrIn p.addr p.port) (some (.whole p.buf))
    .ok (s.setUdp i fun u => { u with pkts := u.pkts.tail })
  | [] => .ok (s.setUdp i fun u => { u with cliState := .recv, recvClient := cli })

/-- `process_cli_recvfrom`. -/
def processCliRecvfrom : Except Stop (Bool × Net) :=
  if r.untyped ≠ 5 ∨ r.typed ≠ 0 then s.refuse r.cli 2
  else
    match s.findUdp r.sock with
    | some i =>
      if (s.udp i).isOwner r.cli = false then s.refuse r.cli 4
      else if (s.udp i).cliState ≠ .idle then s.refuse r.cli 5
      else do
        let s ← s.processCliRecvfromUdp i r.cli
        .ok (false, s)
    | none =>
      match s.findTcp r.sock with
      | none => s.refuse r.cli 3
      | some i =>
        if (s.tcp i).isOwner r.cli = false then s.refuse r.cli 4
        else if (s.tcp i).cliState ≠ .idle then s.refuse r.cli 5
        else if (s.tcp i).netState ≠ .connection then s.refuse r.cli 6
        else do
          let s ← s.processCliRecvfromTcp i r.cli
          .ok (false, s)

/-- `process_client_request`, the requests numbered as `Psocket_opcode_t` does. -/
def processClientRequest (frame : Nat) : Except Stop (Bool × Net) :=
  match r.mr 3 with
  | 1 => s.processCliSocket r
  | 2 => s.processCliClose r
  | 3 => s.processCliBind r
  | 4 => s.processCliListen r
  | 5 => s.processCliAccept r
  | 6 => s.processCliConnect r
  | 7 => s.processCliSendto r frame
  | 8 => s.processCliRecvfrom r
  | _ => s.refuse r.cli 1

/-- A round of `client_thread` after a message was received: the checks of its form and its keys,
then the request. -/
def clientRequest (frame : Nat) : Except Stop (Bool × Net) :=
  if r.untyped < 3 then s.refuse r.cli 1
  else if r.mr 1 ≠ s.key0 ∨ r.mr 2 ≠ s.key1 then s.refuse r.cli 2
  else s.processClientRequest r frame

/-- The message has arrived: its sender waits for the reply, and its string is in the buffer. -/
def receiveRequest (frame : Nat) : Net :=
  { s.setMem frame (s.mem.load (frame + hdrsSpace) r.data) with
    blocked := fun t => if t = r.cli then true else s.blocked t
    room := fun t => if t = r.cli then r.room else s.room t }

end Net

/-! ## Runs -/

/-- What happens to the server. -/
inductive Event where
  /-- The Ethernet thread takes its buffer. -/
  | ethGet
  /-- The driver delivers a frame. -/
  | frame (bytes : List UInt8)
  /-- The client thread takes a buffer. -/
  | clientGet
  /-- A client sends a request. -/
  | request (r : Request)
  /-- Time passes. -/
  | wait (usec : Nat)

/-- One round of one of the threads.  A frame comes only to the Ethernet thread that has a buffer
and a request only to the client thread that has one; a thread that waits for its reply sends
nothing, and a message whose string is too long for the buffer is refused by the kernel. -/
def step (s : Net) : Event → Except Stop Net
  | .ethGet =>
    match s.ethBuf, s.framesGet with
    | some _, _ => .ok s
    | none, none => .error (.assertion "No free frames for rx from eth.")
    | none, some (buf, s) => .ok { s with ethBuf := some buf }
  | .frame bytes =>
    match s.ethBuf with
    | none => .ok s
    | some eth =>
      if frameSz < bytes.length then .error (.assertion "TODO ME")
      else (s.setMem eth (s.mem.load eth bytes)).processEthFrame eth bytes.length
  | .clientGet =>
    match s.cliBuf, s.framesGet with
    | some _, _ => .ok s
    | none, none => .error (.assertion "No free frames for tx from eth.")
    | none, some (buf, s) => .ok { s with cliBuf := some buf }
  | .request r =>
    match s.cliBuf with
    | none => .ok s
    | some frame =>
      if r.cli = 0 ∨ s.blocked r.cli = true ∨ frameSz - hdrsSpace < r.data.length then .ok s
      else do
        let (kept, s) ← (s.receiveRequest r frame).clientRequest r frame
        .ok (if kept then { s with cliBuf := none } else s)
  | .wait usec => .ok { s with now := s.now + usec }

/-- A run of the server. -/
def run : Net → List Event → Except Stop Net := runAll step

end Tcpip
end Wrmos
