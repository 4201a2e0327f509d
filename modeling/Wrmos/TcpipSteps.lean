import Wrmos.TcpipRequests

/-!
# The TCP/IP server: what a round does, in cases

The packets that are not segments, then `Packed` for the second half of `process_eth_frame` and
`Stepped` for a round of one of the two threads.

An ARP reply goes over all sockets.  `Checked` says what it does to one of them, and the two loops
take such steps only.
-/

namespace Wrmos
namespace Tcpip

open Lib

namespace Net

variable {s s' : Net} {i eth : Nat} {p : Packet}

/-- A socket for datagrams got its reply. -/
def udpIdle (s : Net) (i : Nat) : Net :=
  s.setUdp i fun u => { u with cliState := .idle, client := 0 }

/-- The client that waited for a datagram has got it. -/
def udpReceived (s : Net) (i : Nat) (d : Dgram) (data : List UInt8) : Net :=
  (s.setUdp i fun u =>
    { u with cliState := if u.cliState = .recv then .idle else u.cliState, recvClient := 0 }).replied
      (s.udp i).recvClient 0 (sockaddrIn d.src d.sport) (some ⟨d.payloadLen, data⟩)

/-- What a datagram does to its socket. -/
inductive Datagram (s : Net) (i : Nat) (d : Dgram) : Net → Prop where
  | received {data : List UInt8} (hwaits : udpWaits (s.udp i) = true)
      (hw : s.Waits (s.udp i).recvClient) : Datagram s i d (s.udpReceived i d data)
  | saved {data : List UInt8} (hwaits : udpWaits (s.udp i) = false) :
      Datagram s i d (s.setUdp i fun u => saveReceivedPacket u d data)

/-- The stored frame of a socket is sent to `sha`. -/
def released (s : Net) (t : Socket) (sha : Nat) : Net :=
  (s.emitted (storedMem s.mem t sha) (storedFrame s.mem t sha)).setBusy (frameOf t.txEthFrame) false

/-- What an ARP reply does to a UDP socket.  Where a client waits for the frame to be sent, the
headers of the frame are read after its buffer was freed. -/
inductive CheckedUdp (s : Net) (spa sha i : Nat) : Net → Prop where
  | other (h : s.waitsFor (s.udp i).toSocket spa = false) : CheckedUdp s spa sha i s
  | sent (h : s.waitsFor (s.udp i).toSocket spa = true)
      (hn : frameOf (s.udp i).txEthFrame < framesCount)
      (hbusy : s.busy (frameOf (s.udp i).txEthFrame) = true) (hcli : (s.udp i).cliState ≠ .send) :
      CheckedUdp s spa sha i
        ((s.setUdp i fun u => { u with waitArp := false }).released (s.udp i).toSocket sha)
  | answered {n : Nat} (h : s.waitsFor (s.udp i).toSocket spa = true)
      (hn : frameOf (s.udp i).txEthFrame < framesCount)
      (hbusy : s.busy (frameOf (s.udp i).txEthFrame) = true) (hcli : (s.udp i).cliState = .send)
      (hw : s.Waits (s.udp i).client) :
      CheckedUdp s spa sha i
        (((((s.setUdp i fun u => { u with waitArp := false }).released (s.udp i).toSocket sha).touch
          (s.udp i).txEthFrame).replied (s.udp i).client 0 [n] none).udpIdle i)

/-- What an ARP reply does to a TCP socket. -/
inductive CheckedTcp (s : Net) (spa sha i : Nat) : Net → Prop where
  | other (h : s.waitsFor (s.tcp i).toSocket spa = false) : CheckedTcp s spa sha i s
  | sent (h : s.waitsFor (s.tcp i).toSocket spa = true)
      (hn : frameOf (s.tcp i).txEthFrame < framesCount)
      (hbusy : s.busy (frameOf (s.tcp i).txEthFrame) = true) (hcli : (s.tcp i).cliState ≠ .send) :
      CheckedTcp s spa sha i
        ((s.setTcp i fun t => { t with waitArp := false }).released (s.tcp i).toSocket sha)
  | answered {n : Nat} (h : s.waitsFor (s.tcp i).toSocket spa = true)
      (hn : frameOf (s.tcp i).txEthFrame < framesCount)
      (hbusy : s.busy (frameOf (s.tcp i).txEthFrame) = true) (hcli : (s.tcp i).cliState = .send)
      (hw : s.Waits (s.tcp i).client) :
      CheckedTcp s spa sha i
        (((((s.setTcp i fun t => { t with waitArp := false }).released (s.tcp i).toSocket sha).touch
          (s.tcp i).txEthFrame).replied (s.tcp i).client 0 [n] none).tcpIdle i)

theorem checkArpUdp_cases {spa sha : Nat} (h : s.checkArpUdp spa sha i = .ok s') :
    CheckedUdp s spa sha i s' := by
  unfold checkArpUdp at h
  dsimp only at h
  split at h
  · rename_i hfor
    obtain ⟨t, hsend, h⟩ := bind_eq_ok.mp h
    obtain ⟨hn, hbusy, rfl⟩ := sendStored_eq_ok hsend
    split at h
    · rename_i hcli
      obtain ⟨⟨n, u⟩, hr, h⟩ := bind_eq_ok.mp h
      obtain ⟨hw, -, rfl⟩ := replyToClient_cases hr
      obtain rfl := Except.ok.inj h
      exact .answered hfor hn hbusy hcli hw
    · rename_i hcli
      obtain rfl := Except.ok.inj h
      exact .sent hfor hn hbusy hcli
  · rename_i hfor
    obtain rfl := Except.ok.inj h
    exact .other (by simpa using hfor)

theorem checkArpTcp_cases {spa sha : Nat} (h : s.checkArpTcp spa sha i = .ok s') :
    CheckedTcp s spa sha i s' := by
  unfold checkArpTcp at h
  dsimp only at h
  split at h
  · rename_i hfor
    obtain ⟨t, hsend, h⟩ := bind_eq_ok.mp h
    obtain ⟨hn, hbusy, rfl⟩ := sendStored_eq_ok hsend
    split at h
    · rename_i hcli
      obtain ⟨⟨n, u⟩, hr, h⟩ := bind_eq_ok.mp h
      obtain ⟨hw, -, rfl⟩ := replyToClient_cases hr
      obtain rfl := Except.ok.inj h
      exact .answered hfor hn hbusy hcli hw
    · rename_i hcli
      obtain rfl := Except.ok.inj h
      exact .sent hfor hn hbusy hcli
  · rename_i hfor
    obtain rfl := Except.ok.inj h
    exact .other (by simpa using hfor)

/-- What the second half of `process_eth_frame` does. -/
inductive Packed (s : Net) (eth : Nat) : Packet → Net → Prop where
  | drop : Packed s eth .drop s
  | marked {off : Nat} : Packed s eth (.wrongChecksum off) (s.setMem eth (s.mem.put16 (eth + off) 0))
  | arpReplied {arplen tpa mac : Nat} : Packed s eth (.arpRequest arplen tpa)
      ((s.setMem eth (Net.arpReply s.mem eth tpa mac)).sendToEthDrv eth (arplen + 14))
  | arpChecked {spa sha : Nat} {t s' : Net}
      (hudp : runAll (fun s i => s.checkArpUdp spa sha i) s s.udpIds = .ok t)
      (htcp : runAll (fun s i => s.checkArpTcp spa sha i) t t.tcpIds = .ok s') :
      Packed s eth (.arpReply spa sha) s'
  | echoed {hdrlen icmplen : Nat} : Packed s eth (.echo hdrlen icmplen)
      ((s.setMem eth (echoReply s.mem eth hdrlen icmplen)).sendToEthDrv eth (14 + hdrlen + icmplen))
  | unreach {reqLen code : Nat} {ipif : IpIface} {s' : Net}
      (h : s.sendIcmpDestUnreach ipif eth reqLen code = .ok s') : Packed s eth (.unreach reqLen code) s'
  | noTcp {seg : Seg} {ipif : IpIface} {s' : Net}
      (hconn : s.findConnectedSocket seg.dst seg.dport seg.src seg.sport = none)
      (hlist : s.findListeningSocket seg.dst seg.dport = none)
      (h : s.sendIcmpDestUnreach ipif eth seg.reqLen codeDstPortUnreach = .ok s') :
      Packed s eth (.tcp seg) s'
  | noUdp {d : Dgram} {ipif : IpIface} {s' : Net} (hfind : s.findUdpSocket d.dst d.dport = none)
      (h : s.sendIcmpDestUnreach ipif eth d.reqLen codeDstPortUnreach = .ok s') :
      Packed s eth (.udp d) s'
  | connected {seg : Seg} {i : Nat} {s' : Net}
      (hfind : s.findConnectedSocket seg.dst seg.dport seg.src seg.sport = some i)
      (h : Segmented s i seg s') : Packed s eth (.tcp seg) s'
  | fallback {seg : Seg} {i : Nat} {s' : Net}
      (hconn : s.findConnectedSocket seg.dst seg.dport seg.src seg.sport = none)
      (hfind : s.findListeningSocket seg.dst seg.dport = some i)
      (h : Segmented s i seg s') : Packed s eth (.tcp seg) s'
  | datagram {d : Dgram} {i : Nat} {s' : Net} (hfind : s.findUdpSocket d.dst d.dport = some i)
      (h : Datagram s i d s') : Packed s eth (.udp d) s'

theorem processPacket_cases (h : s.processPacket eth p = .ok s') : Packed s eth p s' := by
  unfold processPacket at h
  cases p with
  | drop =>
    obtain rfl := Except.ok.inj h
    exact .drop
  | wrongChecksum off =>
    obtain rfl := Except.ok.inj h
    exact .marked
  | arpRequest arplen tpa =>
    obtain rfl := Except.ok.inj h
    exact .arpReplied
  | arpReply spa sha =>
    obtain ⟨t, hudp, htcp⟩ := bind_eq_ok.mp h
    exact .arpChecked hudp htcp
  | echo hdrlen icmplen =>
    obtain rfl := Except.ok.inj h
    exact .echoed
  | unreach reqLen code => exact .unreach h
  | tcp seg =>
    unfold processTcpPacket at h
    dsimp only at h
    split at h
    · exact .connected ‹_› (processTcpToSocket_cases h)
    · rename_i hconn
      split at h
      · exact .fallback hconn ‹_› (processTcpToSocket_cases h)
      · exact .noTcp hconn ‹_› h
  | udp d =>
    unfold processUdpPacket at h
    dsimp only at h
    split at h
    · exact .noUdp ‹_› h
    · rename_i i hfind
      split at h
      · cases h
      · refine .datagram hfind ?_
        split at h
        · rename_i hwaits
          obtain ⟨⟨n, u⟩, hr, h⟩ := bind_eq_ok.mp h
          obtain ⟨hw, -, rfl⟩ := replyToClient_cases hr
          obtain rfl := Except.ok.inj h
          exact .received hwaits hw
        · rename_i hwaits
          obtain rfl := Except.ok.inj h
          exact .saved (by simpa using hwaits)

/-- A frame was received into the Ethernet thread's buffer, and its sender went into the ARP cache. -/
def received (s : Net) (eth : Nat) (bytes : List UInt8) (arp : List ArpRecord) : Net :=
  ((s.setMem eth (s.mem.load eth bytes)).touch eth).withArp arp

theorem learn_eq (s : Net) (p : Parsed) : ∃ arp, s.learn p = s.withArp arp := by
  unfold learn
  split
  · exact ⟨s.arp, rfl⟩
  · exact arpAdd_eq _ _

end Net

/-- The client thread takes the request: it has a buffer, and the sender does not wait for another
reply. -/
def Net.Takes (s : Net) (r : Request) : Prop :=
  s.cliBuf ≠ none ∧ r.cli ≠ 0 ∧ s.blocked r.cli = false ∧ hdrsSpace + r.data.length ≤ frameSz

instance (s : Net) (r : Request) : Decidable (s.Takes r) := by
  unfold Net.Takes
  infer_instance

/-- What a round does. -/
inductive Stepped (s : Net) : Event → Net → Prop where
  | idle {e : Event} : Stepped s e s
  | ethGot {n : Nat} (hn : n < framesCount) (hfree : s.busy n = false) (heth : s.ethBuf = none) :
      Stepped s .ethGet { s.setBusy n true with ethBuf := some (n * frameStride) }
  | cliGot {n : Nat} (hn : n < framesCount) (hfree : s.busy n = false) (hcli : s.cliBuf = none) :
      Stepped s .clientGet { s.setBusy n true with cliBuf := some (n * frameStride) }
  | framed {bytes : List UInt8} {eth : Nat} {p : Parsed} {arp : List ArpRecord} {s' : Net}
      (heth : s.ethBuf = some eth) (hlen : bytes.length ≤ frameSz)
      (hp : (parseEthFrame (s.mem.load eth bytes) eth bytes.length).result = .ok p)
      (h : Net.Packed (s.received eth bytes arp) eth p.packet s') : Stepped s (.frame bytes) s'
  | requested {r : Request} {frame : Nat} {s' : Net} (hbuf : s.cliBuf = some frame) (htakes : s.Takes r)
      (h : Net.Requested (s.receiveRequest r frame) r frame false s') : Stepped s (.request r) s'
  | kept {r : Request} {frame : Nat} {s' : Net} (hbuf : s.cliBuf = some frame) (htakes : s.Takes r)
      (h : Net.Requested (s.receiveRequest r frame) r frame true s') :
      Stepped s (.request r) { s' with cliBuf := none }
  | waited {usec : Nat} : Stepped s (.wait usec) { s with now := s.now + usec }

/-- **What a round does.** -/
theorem step_cases {s s' : Net} {e : Event} (h : step s e = .ok s') : Stepped s e s' := by
  cases e with
  | ethGet =>
    dsimp only [step] at h
    split at h
    · obtain rfl := Except.ok.inj h
      exact .idle
    · cases h
    · rename_i buf t heth hget
      obtain ⟨n, hn, hfree, rfl, rfl⟩ := Net.framesGet_eq_some hget
      obtain rfl := Except.ok.inj h
      exact .ethGot hn hfree heth
  | frame bytes =>
    dsimp only [step] at h
    split at h
    · obtain rfl := Except.ok.inj h
      exact .idle
    · rename_i eth heth
      split at h
      · cases h
      · rename_i hlen
        obtain ⟨p, hp, h⟩ := bind_eq_ok.mp h
        obtain ⟨arp, harp⟩ := Net.learn_eq ((s.setMem eth (s.mem.load eth bytes)).touch eth) p
        rw [harp] at h
        exact .framed heth (by omega) hp (Net.processPacket_cases h)
  | clientGet =>
    dsimp only [step] at h
    split at h
    · obtain rfl := Except.ok.inj h
      exact .idle
    · cases h
    · rename_i buf t hcli hget
      obtain ⟨n, hn, hfree, rfl, rfl⟩ := Net.framesGet_eq_some hget
      obtain rfl := Except.ok.inj h
      exact .cliGot hn hfree hcli
  | request r =>
    dsimp only [step] at h
    split at h
    · obtain rfl := Except.ok.inj h
      exact .idle
    · rename_i frame hbuf
      split at h
      · obtain rfl := Except.ok.inj h
        exact .idle
      · rename_i hc
        obtain ⟨hcli, hc⟩ := not_or.mp hc
        obtain ⟨hfree, hlen⟩ := not_or.mp hc
        obtain ⟨⟨kept, t⟩, hreq, h⟩ := bind_eq_ok.mp h
        obtain rfl := Except.ok.inj h
        have htakes : s.Takes r := by
          refine ⟨by rw [hbuf]; nofun, hcli, by simpa using hfree, ?_⟩
          unfold frameSz hdrsSpace at *
          omega
        cases kept with
        | false => exact .requested hbuf htakes (Net.clientRequest_cases hreq)
        | true => exact .kept hbuf htakes (Net.clientRequest_cases hreq)
  | wait usec =>
    obtain rfl := Except.ok.inj h
    exact .waited

/-! ## Clients and a remote host -/

/-- A request from a thread of the application `[0, 1000)`, with the keys `0` and room for 100 bytes. -/
def Request.from (cli op untyped typed : Nat) (words : List Nat) (data : List UInt8) : Request where
  cli := cli
  room := 100
  untyped := untyped
  typed := typed
  mr := fun i => if i = 3 then op else if i < 3 then 0 else words.getD (i - 4) 0
  data := data
  appThreads := some (0, 1000)

/-- Two threads. -/
def alice : Nat := 0x40001

def bob : Nat := 0x44001

def tcpSocketRequest (cli : Nat) : Event := .request (.from cli 1 6 0 [afInet, sockStream, 0] [])

def bindRequest (cli sock port : Nat) : Event :=
  .request (.from cli 3 8 0 (sock :: Net.sockaddrIn inaddrAny port) [])

def listenRequest (cli sock : Nat) : Event := .request (.from cli 4 5 0 [sock, 1] [])

def acceptRequest (cli sock : Nat) : Event := .request (.from cli 5 4 0 [sock] [])

def connectRequest (cli sock addr port : Nat) : Event :=
  .request (.from cli 6 8 0 (sock :: Net.sockaddrIn addr port) [])

/-- A host in the network of the server. -/
def hostAddr : Nat := 0xc0a80001

def hostMac : Nat := 0x020000000001

/-- A segment of the host without options to the port 80. -/
def segmentFrame (port seq flags : Nat) (payload : List UInt8) : Event :=
  let len := payload.length
  let m := buildEth (fun _ => 0) 0 hostMac ethAddr etypeIp
  let m := buildIp m 14 (40 + len) protoTcp hostAddr 0xc0a80064
  let m := (((m.put16 34 port).put16 36 80).put32 38 seq).put32 42 0
  let m := (((m.put8 46 0x50).put8 47 flags).put16 48 100).put16 50 0
  let m := m.load 54 payload
  let m := m.put16 50 (inetChecksum m 34 (20 + len) (pseudoSum hostAddr 0xc0a80064 protoTcp (20 + len)))
  .frame (m.slice 0 (54 + len))

end Tcpip
end Wrmos
