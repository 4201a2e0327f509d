import Wrmos.Tcpip
import Wrmos.Lib.Span

/-!
# The TCP/IP server: reading a frame

The first half of `process_eth_frame`: the headers of a received frame are read and checked, layer
by layer, and what is left is what the frame asks the server to do.  Five headers carry lengths of
their own, and all arithmetic with them is that of a `size_t` of 32 bits.

The code is written over a memory and the address of the frame.  It notes every range it reads, as
a `Span` of offsets in the frame, so that a statement about all reads of a run can be made
(`Trace`); the second half, in `TcpipServer.lean`, uses the result alone.
-/

namespace Wrmos
namespace Tcpip

open Lib

/-! ## Computations that note what they read -/

/-- The ranges that were read, and the result. -/
structure Trace (α : Type) where
  reads : List Span
  result : Except Stop α

namespace Trace

variable {α β : Type}

protected def pure (x : α) : Trace α := ⟨[], .ok x⟩

protected def bind (t : Trace α) (f : α → Trace β) : Trace β :=
  match t.result with
  | .error e => ⟨t.reads, .error e⟩
  | .ok x => ⟨t.reads ++ (f x).reads, (f x).result⟩

instance : Monad Trace where
  pure := Trace.pure
  bind := Trace.bind

/-- Note a range. -/
def read (off size : Nat) : Trace Unit := ⟨[⟨off, size⟩], .ok ()⟩

def stop (e : Stop) : Trace α := ⟨[], .error e⟩

/-- Note the ranges of a list. -/
def readAll (reads : List Span) : Trace Unit := ⟨reads, .ok ()⟩

/-- The computation ends with a result that satisfies `Q`, and every byte it reads lies among the
first `len`. -/
def Holds (t : Trace α) (len : Nat) (Q : α → Prop) : Prop :=
  (∀ r ∈ t.reads, ∀ x, r.addr ≤ x → x < r.stop → x < len) ∧ ∃ x, t.result = .ok x ∧ Q x

/-- The computation ends and reads the first `len` bytes only. -/
def InBounds (t : Trace α) (len : Nat) : Prop := t.Holds len fun _ => True

variable {t u : Trace α} {f : α → Trace β} {len off size : Nat} {Q : α → Prop} {R : β → Prop}

theorem holds_pure {x : α} : (Pure.pure x : Trace α).Holds len Q ↔ Q x := by
  constructor
  · rintro ⟨-, y, hy, hQ⟩
    cases hy
    exact hQ
  · exact fun h => ⟨fun _ hr => (List.not_mem_nil hr).elim, x, rfl, h⟩

theorem holds_stop {e : Stop} : (stop e : Trace α).Holds len Q ↔ False :=
  ⟨fun ⟨_, _, hx, _⟩ => (nomatch hx), False.elim⟩

theorem holds_bind : (t >>= f).Holds len R ↔ t.Holds len fun x => (f x).Holds len R := by
  obtain ⟨reads, result⟩ := t
  cases result with
  | error e =>
    constructor
    · rintro ⟨-, x, hx, -⟩
      cases hx
    · rintro ⟨-, x, hx, -⟩
      cases hx
  | ok a =>
    constructor
    · rintro ⟨hr, x, hx, hR⟩
      exact ⟨fun r h => hr r (List.mem_append_left _ h), a, rfl,
        fun r h => hr r (List.mem_append_right _ h), x, hx, hR⟩
    · rintro ⟨hr, _, ⟨⟩, hr', x, hx, hR⟩
      refine ⟨fun r h => ?_, x, hx, hR⟩
      rcases List.mem_append.mp h with h | h
      · exact hr r h
      · exact hr' r h

theorem holds_ite {c : Prop} [Decidable c] :
    (if c then t else u).Holds len Q ↔ (c → t.Holds len Q) ∧ (¬ c → u.Holds len Q) := by
  split <;> simp_all

/-- A range lies in the first `len` bytes. -/
def Inside (len off size : Nat) : Prop := size = 0 ∨ off + size ≤ len

theorem inside_iff : Inside len off size ↔ ∀ x, off ≤ x → x < off + size → x < len := by
  unfold Inside
  constructor
  · intro h x h1 h2
    omega
  · intro h
    rcases Nat.eq_zero_or_pos size with h0 | h0
    · exact .inl h0
    · have := h (off + size - 1) (by omega) (by omega)
      omega

theorem holds_read {P : Unit → Prop} : (read off size).Holds len P ↔ Inside len off size ∧ P () := by
  rw [inside_iff]
  constructor
  · rintro ⟨hr, x, -, hP⟩
    exact ⟨hr ⟨off, size⟩ List.mem_cons_self, hP⟩
  · rintro ⟨h, hP⟩
    refine ⟨fun r hr => ?_, (), rfl, hP⟩
    rw [List.mem_singleton.mp hr]
    exact h

theorem holds_readAll {reads : List Span} {P : Unit → Prop} : (readAll reads).Holds len P ↔
    (∀ r ∈ reads, Inside len r.addr r.size) ∧ P () := by
  simp only [inside_iff]
  exact ⟨fun ⟨hr, x, _, hP⟩ => ⟨hr, hP⟩, fun ⟨hr, hP⟩ => ⟨hr, (), rfl, hP⟩⟩

end Trace

/-! ## What a frame asks for -/

/-- A TCP segment: the fields of the headers that `process_tcp_to_socket` uses, the payload, and
`ip->hdrlen() + tcplen`, which a destination-unreachable message copies. -/
structure Seg where
  src : Nat
  sport : Nat
  dst : Nat
  dport : Nat
  seq : Nat
  flags : Nat
  payload : List UInt8
  reqLen : Nat

/-- A UDP datagram, its payload given by offset and `payload_len()`. -/
structure Dgram where
  src : Nat
  sport : Nat
  dst : Nat
  dport : Nat
  payloadOff : Nat
  payloadLen : Nat
  reqLen : Nat

/-- What the frame asks the server to do. -/
inductive Packet where
  /-- Nothing. -/
  | drop
  /-- Nothing; the checksum field at an offset is cleared. -/
  | wrongChecksum (off : Nat)
  /-- `Opcode_req` for one of our addresses. -/
  | arpRequest (arplen tpa : Nat)
  /-- `Opcode_rep`. -/
  | arpReply (spa sha : Nat)
  /-- `Type_echo_request`. -/
  | echo (hdrlen icmplen : Nat)
  /-- An unknown protocol. -/
  | unreach (reqLen code : Nat)
  | tcp (seg : Seg)
  | udp (dgram : Dgram)

/-- A frame that was read: what goes into the ARP cache, and what it asks for. -/
structure Parsed where
  learn : Option (Nat × Nat)
  packet : Packet

/-- Nothing to learn and nothing to do. -/
def Parsed.ignored : Parsed := ⟨none, .drop⟩

/-- `size_t` subtraction. -/
def subSz (a b : Nat) : Nat := (a + (2 ^ 32 - b % 2 ^ 32)) % 2 ^ 32

/-- The sum of the words of the pseudo header. -/
def pseudoSum (ipsrc ipdst proto len : Nat) : Nat :=
  ipsrc / 2 ^ 16 + ipsrc % 2 ^ 16 + (ipdst / 2 ^ 16 + ipdst % 2 ^ 16) + (proto + len)

/-- The protocols of `Ip_packet_t`. -/
def protoIcmp : Nat := 1

def protoTcp : Nat := 6

def protoUdp : Nat := 17

/-- The codes of a destination-unreachable message that the server uses. -/
def codeDstProtoUnreach : Nat := 2

def codeDstPortUnreach : Nat := 3

section Frame

-- the memory and the address of the frame
variable (m : Lib.Mem) (eth : Nat)

/-- `inet_checksum` over a range of the frame.  With `len1 == 0` the bound `len1 - 1` of its loop is
the largest `size_t`, and a counter that goes up by two never reaches it. -/
def inetChecksumAt (off n extra : Nat) : Trace Nat := do
  if n = 0 then Trace.stop .endless
  else
    Trace.read off n
    if framesBufSz < eth + off + n then Trace.stop .outside
    else Pure.pure (inetChecksum m (eth + off) n extra)

/-- `process_icmp_packet` up to the reply. -/
def parseIcmp (hdrlen icmplen : Nat) : Trace Packet := do
  let icmp := 14 + hdrlen
  if icmplen < 4 then Pure.pure .drop
  else
    let c ← inetChecksumAt m eth icmp icmplen 0
    if c ≠ 0 then Pure.pure .drop
    else
      Trace.read icmp 1
      if m.byte (eth + icmp) = 8 then
        -- the reply has the size of the request
        Trace.read 0 (icmp + icmplen)
        Pure.pure (.echo hdrlen icmplen)
      else Pure.pure .drop

/-- `process_tcp_packet` up to the search for a socket. -/
def parseTcp (hdrlen tcplen : Nat) : Trace Packet := do
  let tcp := 14 + hdrlen
  let ipsrc := m.be32 (eth + 26)
  let ipdst := m.be32 (eth + 30)
  if tcplen < 20 then Pure.pure .drop
  else
    Trace.read tcp 20
    let hlen := m.byte (eth + tcp + 12) / 16 * 4
    if tcplen < hlen then Pure.pure .drop
    else
      let len16 := tcplen % 2 ^ 16
      let c ← inetChecksumAt m eth tcp len16 (pseudoSum ipsrc ipdst protoTcp len16)
      if c ≠ 0 then Pure.pure (.wrongChecksum (tcp + 16))
      else
        Trace.read (tcp + hlen) (tcplen - hlen)
        Pure.pure (.tcp
          { src := ipsrc
            sport := m.be16 (eth + tcp)
            dst := ipdst
            dport := m.be16 (eth + tcp + 2)
            seq := m.be32 (eth + tcp + 4)
            flags := m.be16 (eth + tcp + 12) % 2 ^ 9
            payload := m.slice (eth + tcp + hlen) (tcplen - hlen)
            reqLen := (hdrlen + tcplen) % 2 ^ 32 })

/-- `process_udp_packet` up to the search for a socket. -/
def parseUdp (hdrlen udplen : Nat) : Trace Packet := do
  let udp := 14 + hdrlen
  let ipsrc := m.be32 (eth + 26)
  let ipdst := m.be32 (eth + 30)
  if udplen < 8 then Pure.pure .drop
  else
    Trace.read (udp + 4) 2
    let length := m.be16 (eth + udp + 4)
    if udplen < length then Pure.pure .drop
    else
      let c ← inetChecksumAt m eth udp length (pseudoSum ipsrc ipdst protoUdp length)
      if c ≠ 0 then
        Trace.read (udp + 6) 2
        Pure.pure (.wrongChecksum (udp + 6))
      else
        Trace.read udp 4
        Pure.pure (.udp
          { src := ipsrc
            sport := m.be16 (eth + udp)
            dst := ipdst
            dport := m.be16 (eth + udp + 2)
            payloadOff := udp + 8
            payloadLen := subSz length 8
            reqLen := (hdrlen + udplen) % 2 ^ 32 })

/-- The part of `process_ip_packet` that depends on the protocol. -/
def parseProtocol (iplen hdrlen totalLength : Nat) : Trace Packet := do
  let proto := m.byte (eth + 23)
  if proto = protoIcmp then parseIcmp m eth hdrlen (subSz totalLength hdrlen)
  else if proto = protoTcp then parseTcp m eth hdrlen (subSz totalLength hdrlen)
  else if proto = protoUdp then parseUdp m eth hdrlen (subSz totalLength hdrlen)
  else
    -- `send_icmp_dest_unreach` copies the packet
    Trace.read 14 iplen
    Pure.pure (.unreach iplen codeDstProtoUnreach)

/-- `process_ip_packet` up to what depends on the state of the server. -/
def parseIp (iplen : Nat) : Trace Parsed := do
  if iplen < 20 then Pure.pure .ignored
  else
    Trace.read 14 20
    let totalLength := m.be16 (eth + 16)
    if iplen < totalLength then Pure.pure .ignored
    else if (findIface (m.be32 (eth + 30))).isNone then Pure.pure .ignored
    else
      let learn := some (m.be32 (eth + 26), m.be48 (eth + 6))
      let hdrlen := m.byte (eth + 14) % 16 * 4
      let c ← inetChecksumAt m eth 14 hdrlen 0
      if c ≠ 0 then Pure.pure ⟨learn, .drop⟩
      else
        let packet ← parseProtocol m eth iplen hdrlen totalLength
        Pure.pure ⟨learn, packet⟩

/-- `process_arp_packet` up to the reply. -/
def parseArp (arplen : Nat) : Trace Parsed := do
  if arplen < 28 then Pure.pure .ignored
  else
    Trace.read 14 28
    if m.be16 (eth + 14) ≠ 1 ∨ m.be16 (eth + 16) ≠ 0x0800 then Pure.pure .ignored
    else if m.be16 (eth + 20) = 1 then
      if (findIface (m.be32 (eth + 38))).isNone then Pure.pure .ignored
      else
        -- the reply has the size of the request
        Trace.read 0 (arplen + 14)
        Pure.pure ⟨none, .arpRequest arplen (m.be32 (eth + 38))⟩
    else if m.be16 (eth + 20) = 2 then
      Pure.pure ⟨some (m.be32 (eth + 28), m.be48 (eth + 22)),
        .arpReply (m.be32 (eth + 28)) (m.be48 (eth + 22))⟩
    else Pure.pure .ignored

/-- `process_eth_frame` up to what depends on the state of the server. -/
def parseEthFrame (len : Nat) : Trace Parsed := do
  if len < 14 then Pure.pure .ignored
  else
    Trace.read 0 14
    if m.be48 eth ∉ ethIfaces ∧ m.be48 eth ≠ macBcast then Pure.pure .ignored
    else if m.be16 (eth + 12) = 0x0800 then parseIp m eth (len - 14)
    else if m.be16 (eth + 12) = 0x0806 then parseArp m eth (len - 14)
    else Pure.pure .ignored

end Frame

end Tcpip
end Wrmos
