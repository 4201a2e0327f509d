import Wrmos.TcpipServer

/-!
# The TCP/IP server: a frame is read inside its bounds

Which frames `process_eth_frame` reads without leaving the bytes that were received, and without a
loop that does not end.  The headers of an IP packet must agree on their lengths (`SizesAgree`):

* the header length of the IP header is neither zero nor larger than the packet;
* it is not larger than the total length either, for ICMP and for TCP;
* the length of a UDP datagram is not zero, and where it is below the eight bytes of its own header
  the number of payload bytes is that of a negative number: a client that waits for the datagram
  gets as many bytes behind the header as it has room for.

The proof follows the layers: for each of them one lemma computes the weakest condition under which
it stays inside, by the rules of `Trace.Holds`.
-/

namespace Wrmos
namespace Tcpip

open Lib Trace

section Layers

variable {m : Lib.Mem} {eth len off n extra hdrlen total : Nat} {Q : Packet → Prop}

theorem holds_inetChecksumAt (heth : eth + len ≤ framesBufSz) {Q : Nat → Prop} :
    (inetChecksumAt m eth off n extra).Holds len Q ↔
      n ≠ 0 ∧ off + n ≤ len ∧ Q (inetChecksum m (eth + off) n extra) := by
  unfold inetChecksumAt
  simp only [holds_ite, holds_bind, holds_read, holds_stop, holds_pure, Inside]
  constructor
  · rintro ⟨h0, h1⟩
    by_cases hn : n = 0
    · exact (h0 hn).elim
    · obtain ⟨h2, h3, h4⟩ := h1 hn
      exact ⟨hn, by omega, h4 (by omega)⟩
  · rintro ⟨hn, hle, hQ⟩
    exact ⟨hn, fun _ => ⟨.inr hle, fun h => by omega, fun _ => hQ⟩⟩

theorem subSz_of_le (h : hdrlen ≤ total) (ht : total < 2 ^ 32) : subSz total hdrlen = total - hdrlen := by
  unfold subSz
  omega

theorem subSz_of_lt (h : total < hdrlen) (hh : hdrlen < 2 ^ 32) :
    subSz total hdrlen = 2 ^ 32 - (hdrlen - total) := by
  unfold subSz
  omega

/-- An ICMP packet whose header fits the total length. -/
theorem holds_parseIcmp (heth : eth + len ≤ framesBufSz) (hlen : 14 + hdrlen + n ≤ len)
    (hQ : ∀ p, (∀ seg, p ≠ .tcp seg) → (∀ d, p ≠ .udp d) → (∀ a c, p ≠ .unreach a c) → Q p) :
    (parseIcmp m eth hdrlen n).Holds len Q := by
  unfold parseIcmp
  simp only [holds_ite, holds_bind, holds_read, holds_pure, holds_inetChecksumAt heth, Inside]
  refine ⟨fun _ => hQ _ nofun nofun nofun, fun hn => ⟨by omega, by omega, ?_⟩⟩
  refine ⟨fun _ => hQ _ nofun nofun nofun, fun _ => ⟨.inr (by omega), ?_⟩⟩
  exact ⟨fun _ => ⟨.inr (by omega), hQ _ nofun nofun nofun⟩, fun _ => hQ _ nofun nofun nofun⟩

/-- A TCP packet whose header fits the total length. -/
theorem holds_parseTcp (heth : eth + len ≤ framesBufSz) (hlen : 14 + hdrlen + n ≤ len)
    (hn16 : n < 2 ^ 16)
    (hQ : ∀ p, (∀ seg, p = .tcp seg → seg.reqLen = (hdrlen + n) % 2 ^ 32) → (∀ d, p ≠ .udp d) →
      (∀ a c, p ≠ .unreach a c) → Q p) :
    (parseTcp m eth hdrlen n).Holds len Q := by
  unfold parseTcp
  simp only [holds_ite, holds_bind, holds_read, holds_pure, holds_inetChecksumAt heth, Inside]
  refine ⟨fun _ => hQ _ nofun nofun nofun, fun hn => ⟨.inr (by omega), ?_⟩⟩
  refine ⟨fun _ => hQ _ nofun nofun nofun, fun hle => ⟨by omega, by omega, ?_⟩⟩
  refine ⟨fun _ => hQ _ nofun nofun nofun, fun _ => ⟨.inr (by omega), ?_⟩⟩
  refine hQ _ (fun seg h => ?_) nofun nofun
  rw [← Packet.tcp.inj h]

/-- A packet that is shorter than the header it announces is not read inside its bounds. -/
theorem not_holds_parseIcmp (heth : eth + len ≤ framesBufSz) (hlen : len < n) (hn : 4 ≤ n) :
    ¬ (parseIcmp m eth hdrlen n).Holds len Q := by
  unfold parseIcmp
  simp only [holds_ite, holds_bind, holds_inetChecksumAt heth]
  rintro ⟨-, h⟩
  obtain ⟨-, h, -⟩ := h (by omega)
  omega

theorem not_holds_parseTcp (heth : eth + len ≤ framesBufSz) (hlen : len < n % 2 ^ 16)
    (hn : 2 ^ 16 ≤ n) : ¬ (parseTcp m eth hdrlen n).Holds len Q := by
  have hhlen : m.byte (eth + (14 + hdrlen) + 12) / 16 * 4 ≤ 60 := by
    have := Mem.byte_lt (m := m) (a := eth + (14 + hdrlen) + 12)
    omega
  unfold parseTcp
  simp only [holds_ite, holds_bind, holds_inetChecksumAt heth, holds_read]
  rintro ⟨-, h⟩
  obtain ⟨-, -, h⟩ := h (by omega)
  obtain ⟨-, h, -⟩ := h (by omega)
  omega

end Layers

/-! ## The condition -/

namespace Net

variable (s : Net) (eth len : Nat)

/-- The fields of the IP header and of the UDP header that the condition is about. -/
def ipTotalLength : Nat := s.mem.be16 (eth + 16)

def ipHdrlen : Nat := s.mem.byte (eth + 14) % 16 * 4

def udpLength : Nat := s.mem.be16 (eth + (14 + s.ipHdrlen eth) + 4)

/-- The frame is an IP packet for the server that is as long as its header says. -/
def IpForUs : Prop :=
  34 ≤ len ∧ (s.mem.be48 eth ∈ ethIfaces ∨ s.mem.be48 eth = macBcast) ∧
    s.mem.be16 (eth + 12) = 0x0800 ∧ s.ipTotalLength eth ≤ len - 14 ∧
    findIface (s.mem.be32 (eth + 30)) ≠ none

/-- The checksum of a UDP datagram verifies. -/
def UdpVerified : Prop :=
  inetChecksum s.mem (eth + (14 + s.ipHdrlen eth)) (s.udpLength eth)
    (pseudoSum (s.mem.be32 (eth + 26)) (s.mem.be32 (eth + 30)) protoUdp (s.udpLength eth)) = 0

/-- What a waiting client gets of a datagram whose length is below that of its own header: as much as
it has room for, of a string whose length is negative. -/
def shortCopyLen (i : Nat) : Nat :=
  min ((2 ^ 32 + s.udpLength eth - 8) % 2 ^ 22) (s.room (s.udp i).recvClient)

/-- The lengths of a UDP datagram agree. -/
def UdpSizesAgree : Prop :=
  8 ≤ subSz (s.ipTotalLength eth) (s.ipHdrlen eth) ∧
      s.udpLength eth ≤ subSz (s.ipTotalLength eth) (s.ipHdrlen eth) →
    0 < s.udpLength eth ∧
    (s.ipTotalLength eth < s.ipHdrlen eth →
      14 + s.ipHdrlen eth + max 6 (s.udpLength eth) ≤ len ∧
      (¬ s.UdpVerified eth → 14 + s.ipHdrlen eth + 8 ≤ len)) ∧
    (s.UdpVerified eth → s.udpLength eth < 8 →
      ∀ i, s.findUdpSocket (s.mem.be32 (eth + 30)) (s.mem.be16 (eth + (14 + s.ipHdrlen eth) + 2)) =
        some i → udpWaits (s.udp i) = true →
        Inside len (14 + s.ipHdrlen eth + 8) (s.shortCopyLen eth i))

/-- The lengths in the headers of a frame agree. -/
def SizesAgree : Prop :=
  s.IpForUs eth len →
    s.ipHdrlen eth ≠ 0 ∧ 14 + s.ipHdrlen eth ≤ len ∧
    (inetChecksum s.mem (eth + 14) (s.ipHdrlen eth) 0 = 0 →
      (s.mem.byte (eth + 23) = protoIcmp ∨ s.mem.byte (eth + 23) = protoTcp →
        s.ipHdrlen eth ≤ s.ipTotalLength eth) ∧
      (s.mem.byte (eth + 23) = protoUdp → s.UdpSizesAgree eth len))

end Net

section Spec

variable {s : Net} {eth len hdrlen n : Nat}

/-- What the second half copies lies inside the frame. -/
def CopyInside (s : Net) (len : Nat) (p : Packet) : Prop :=
  ∀ r ∈ s.copyReads p, Inside len r.addr r.size

theorem copyInside_of_nil {p : Packet} (h : s.copyReads p = []) : CopyInside s len p := by
  unfold CopyInside
  rw [h]
  exact fun r hr => (List.not_mem_nil hr).elim

theorem copyInside_tcp {seg : Seg} (h : 14 + seg.reqLen ≤ len) : CopyInside s len (.tcp seg) := by
  unfold CopyInside Net.copyReads
  intro r hr
  dsimp only at hr
  split at hr
  · rw [List.mem_singleton.mp hr]
    exact .inr h
  · exact (List.not_mem_nil hr).elim

theorem copyInside_udp {d : Dgram} (h : 14 + d.reqLen ≤ len) : CopyInside s len (.udp d) ↔
    ∀ i, s.findUdpSocket d.dst d.dport = some i →
      Inside len d.payloadOff (s.udpCopyLen (s.udp i) d) := by
  unfold CopyInside Net.copyReads
  cases hf : s.findUdpSocket d.dst d.dport with
  | none => simp [Inside, hf, h]
  | some i => simp [hf]

/-- The payload of a datagram that is not shorter than its header. -/
theorem udpCopyLen_le {u : UdpSocket} {d : Dgram} (h : 8 ≤ n) (hn : n < 2 ^ 16)
    (hd : d.payloadLen = subSz n 8) : s.udpCopyLen u d ≤ n - 8 := by
  rw [subSz_of_le h (by omega)] at hd
  unfold Net.udpCopyLen
  split
  · exact (Nat.min_le_left _ _).trans (hd ▸ Nat.mod_le _ _)
  · split
    · exact Nat.zero_le _
    · exact hd.le

/-- The payload of a datagram that is shorter than its header. -/
theorem udpCopyLen_short {u : UdpSocket} {d : Dgram} (h : n < 8) (hd : d.payloadLen = subSz n 8) :
    s.udpCopyLen u d =
      if Net.udpWaits u then min ((2 ^ 32 + n - 8) % 2 ^ 22) (s.room u.recvClient) else 0 := by
  rw [subSz_of_lt h (by omega)] at hd
  unfold Net.udpCopyLen
  have hbig : pktBufSz < d.payloadLen := by
    rw [hd]
    unfold pktBufSz
    omega
  rw [if_pos (Or.inr hbig), hd, show 2 ^ 32 - (8 - n) = 2 ^ 32 + n - 8 by omega]

/-- The datagram of a frame whose UDP packet has `n` bytes. -/
def Net.dgram (s : Net) (eth n : Nat) : Dgram where
  src := s.mem.be32 (eth + 26)
  sport := s.mem.be16 (eth + (14 + s.ipHdrlen eth))
  dst := s.mem.be32 (eth + 30)
  dport := s.mem.be16 (eth + (14 + s.ipHdrlen eth) + 2)
  payloadOff := 14 + s.ipHdrlen eth + 8
  payloadLen := subSz (s.udpLength eth) 8
  reqLen := (s.ipHdrlen eth + n) % 2 ^ 32

/-- A UDP packet, whatever its lengths are. -/
theorem holds_parseUdp (heth : eth + len ≤ framesBufSz)
    (hreq : 14 + (s.ipHdrlen eth + n) % 2 ^ 32 ≤ len) :
    (parseUdp s.mem eth (s.ipHdrlen eth) n).Holds len (CopyInside s len) ↔
      (8 ≤ n → 14 + s.ipHdrlen eth + 6 ≤ len ∧ (s.udpLength eth ≤ n →
        s.udpLength eth ≠ 0 ∧ 14 + s.ipHdrlen eth + s.udpLength eth ≤ len ∧
        (¬ s.UdpVerified eth → 14 + s.ipHdrlen eth + 8 ≤ len) ∧
        (s.UdpVerified eth → 14 + s.ipHdrlen eth + 4 ≤ len ∧
          ∀ i, s.findUdpSocket (s.dgram eth n).dst (s.dgram eth n).dport = some i →
            Inside len (14 + s.ipHdrlen eth + 8)
              (s.udpCopyLen (s.udp i) (s.dgram eth n))))) := by
  have hdrop : CopyInside s len .drop := copyInside_of_nil rfl
  have hwrong : ∀ off, CopyInside s len (.wrongChecksum off) := fun off => copyInside_of_nil rfl
  have hcopy : CopyInside s len (.udp (s.dgram eth n)) ↔
      ∀ i, s.findUdpSocket (s.dgram eth n).dst (s.dgram eth n).dport = some i →
        Inside len (14 + s.ipHdrlen eth + 8) (s.udpCopyLen (s.udp i) (s.dgram eth n)) :=
    copyInside_udp hreq
  unfold parseUdp
  simp only [holds_ite, holds_bind, holds_read, holds_pure, holds_inetChecksumAt heth, hdrop, hwrong,
    implies_true, and_true, true_and, not_lt, ne_eq, not_not]
  simp only [Inside, OfNat.ofNat_ne_zero, false_or] at hcopy ⊢
  rw [← hcopy]
  exact Iff.rfl

theorem ipHdrlen_le (s : Net) (eth : Nat) : s.ipHdrlen eth ≤ 60 := by
  unfold Net.ipHdrlen
  omega

theorem ipTotalLength_lt (s : Net) (eth : Nat) : s.ipTotalLength eth < 2 ^ 16 := Mem.be16_lt

/-- A UDP packet behind an IP header. -/
theorem holds_parseUdp_iff (heth : eth + len ≤ framesBufSz)
    (hlen : 14 + s.ipTotalLength eth ≤ len) :
    (parseUdp s.mem eth (s.ipHdrlen eth) (subSz (s.ipTotalLength eth) (s.ipHdrlen eth))).Holds len
      (CopyInside s len) ↔ s.UdpSizesAgree eth len := by
  have hh := ipHdrlen_le s eth
  have ht := ipTotalLength_lt s eth
  have hl : s.udpLength eth < 2 ^ 16 := Mem.be16_lt
  generalize hn : subSz (s.ipTotalLength eth) (s.ipHdrlen eth) = n
  have hreq : (s.ipHdrlen eth + n) % 2 ^ 32 = s.ipTotalLength eth := by
    rw [← hn]
    unfold subSz
    omega
  have hcons : s.ipHdrlen eth ≤ s.ipTotalLength eth → n = s.ipTotalLength eth - s.ipHdrlen eth :=
    fun h => hn ▸ subSz_of_le h (by omega)
  have hincons : s.ipTotalLength eth < s.ipHdrlen eth → 2 ^ 16 ≤ n := fun h => by
    rw [← hn, subSz_of_lt h (hh.trans_lt (by decide))]
    clear hreq
    omega
  rw [holds_parseUdp heth (by rw [hreq]; exact hlen)]
  unfold Net.UdpSizesAgree
  rw [hn]
  have hcopy : ∀ i, s.udpLength eth ≤ n → 14 + s.ipHdrlen eth + s.udpLength eth ≤ len →
      (Inside len (14 + s.ipHdrlen eth + 8) (s.udpCopyLen (s.udp i) (s.dgram eth n)) ↔
        (s.udpLength eth < 8 → Net.udpWaits (s.udp i) = true →
          Inside len (14 + s.ipHdrlen eth + 8) (s.shortCopyLen eth i))) := by
    intro i hle hin
    unfold Net.shortCopyLen
    rcases Nat.lt_or_ge (s.udpLength eth) 8 with h8 | h8
    · rw [udpCopyLen_short (d := s.dgram eth n) h8 rfl]
      by_cases hw : Net.udpWaits (s.udp i) = true
      · rw [if_pos hw]
        exact ⟨fun h _ _ => h, fun h => h h8 hw⟩
      · rw [if_neg hw]
        exact ⟨fun _ _ h => absurd h hw, fun _ => .inl rfl⟩
    · have := udpCopyLen_le (s := s) (u := s.udp i) (d := s.dgram eth n) h8 hl rfl
      exact ⟨fun _ h => absurd h (by omega), fun _ => .inr (by omega)⟩
  constructor
  · rintro h ⟨h8, hle⟩
    obtain ⟨h6, h⟩ := h h8
    obtain ⟨h0, hin, hwrong, hright⟩ := h hle
    refine ⟨by omega, fun _ => ⟨by omega, hwrong⟩, fun hv hshort i hi => ?_⟩
    exact (hcopy i hle hin).mp ((hright hv).2 i hi) hshort
  · intro h h8
    rcases Nat.lt_or_ge (s.ipTotalLength eth) (s.ipHdrlen eth) with hlt | hge
    · have := hincons hlt
      obtain ⟨h0, hpad, hshort⟩ := h ⟨h8, by omega⟩
      obtain ⟨hin, hwrong⟩ := hpad hlt
      refine ⟨by omega, fun hle => ⟨by omega, by omega, hwrong, fun hv => ⟨by omega, ?_⟩⟩⟩
      exact fun i hi => (hcopy i hle (by omega)).mpr fun hs => hshort hv hs i hi
    · have := hcons hge
      refine ⟨by omega, fun hle => ?_⟩
      obtain ⟨h0, -, hshort⟩ := h ⟨h8, hle⟩
      refine ⟨by omega, by omega, fun _ => by omega, fun hv => ⟨by omega, ?_⟩⟩
      exact fun i hi => (hcopy i hle (by omega)).mpr fun hs => hshort hv hs i hi

/-- What depends on the protocol. -/
theorem holds_parseProtocol (heth : eth + len ≤ framesBufSz) (hlen : 14 + s.ipTotalLength eth ≤ len)
    (h34 : 34 ≤ len) (hle : len ≤ frameSz) :
    (parseProtocol s.mem eth (len - 14) (s.ipHdrlen eth) (s.ipTotalLength eth)).Holds len
      (CopyInside s len) ↔
      (s.mem.byte (eth + 23) = protoIcmp ∨ s.mem.byte (eth + 23) = protoTcp →
        s.ipHdrlen eth ≤ s.ipTotalLength eth) ∧
      (s.mem.byte (eth + 23) = protoUdp → s.UdpSizesAgree eth len) := by
  have hh := ipHdrlen_le s eth
  have ht := ipTotalLength_lt s eth
  unfold frameSz at hle
  unfold parseProtocol
  simp only [holds_ite, holds_bind, holds_read, holds_pure, holds_parseUdp_iff heth hlen]
  have hicmp : s.ipHdrlen eth ≤ s.ipTotalLength eth ↔
      (parseIcmp s.mem eth (s.ipHdrlen eth)
        (subSz (s.ipTotalLength eth) (s.ipHdrlen eth))).Holds len (CopyInside s len) := by
    constructor
    · intro h
      rw [subSz_of_le h (by omega)]
      refine holds_parseIcmp heth (by omega) fun p h1 h2 _ => copyInside_of_nil ?_
      cases p with
      | tcp seg => exact absurd rfl (h1 seg)
      | udp d => exact absurd rfl (h2 d)
      | _ => rfl
    · intro h
      by_contra hlt
      rw [subSz_of_lt (by omega) (by omega)] at h
      exact not_holds_parseIcmp heth (by omega) (by omega) h
  have htcp : s.ipHdrlen eth ≤ s.ipTotalLength eth ↔
      (parseTcp s.mem eth (s.ipHdrlen eth)
        (subSz (s.ipTotalLength eth) (s.ipHdrlen eth))).Holds len (CopyInside s len) := by
    constructor
    · intro h
      rw [subSz_of_le h (by omega)]
      refine holds_parseTcp heth (by omega) (by omega) fun p h1 h2 _ => ?_
      cases p with
      | tcp seg =>
        refine copyInside_tcp ?_
        have := h1 seg rfl
        omega
      | udp d => exact absurd rfl (h2 d)
      | _ => exact copyInside_of_nil rfl
    · intro h
      by_contra hlt
      rw [subSz_of_lt (by omega) (by omega)] at h
      exact not_holds_parseTcp heth (by omega) (by omega) h
  rw [← hicmp, ← htcp]
  have hunreach : CopyInside s len (.unreach (len - 14) codeDstProtoUnreach) :=
    copyInside_of_nil rfl
  have hquote : Inside len 14 (len - 14) := .inr (by omega)
  simp only [protoIcmp, protoTcp, protoUdp]
  constructor
  · rintro ⟨h1, h2⟩
    refine ⟨?_, fun h => (h2 (by omega)).2 (by omega) |>.1 h⟩
    rintro (h | h)
    · exact h1 h
    · exact (h2 (by omega)).1 h
  · rintro ⟨h1, h2⟩
    exact ⟨fun h => h1 (.inl h), fun _ => ⟨fun h => h1 (.inr h), fun _ => ⟨h2, fun _ =>
      ⟨hquote, hunreach⟩⟩⟩⟩

/-- An IP packet. -/
theorem holds_parseIp (heth : eth + len ≤ framesBufSz) (hle : len ≤ frameSz) (h14 : 14 ≤ len) :
    (parseIp s.mem eth (len - 14)).Holds len (fun p => CopyInside s len p.packet) ↔
      (34 ≤ len → s.ipTotalLength eth ≤ len - 14 → findIface (s.mem.be32 (eth + 30)) ≠ none →
        s.ipHdrlen eth ≠ 0 ∧ 14 + s.ipHdrlen eth ≤ len ∧
        (inetChecksum s.mem (eth + 14) (s.ipHdrlen eth) 0 = 0 →
          (s.mem.byte (eth + 23) = protoIcmp ∨ s.mem.byte (eth + 23) = protoTcp →
            s.ipHdrlen eth ≤ s.ipTotalLength eth) ∧
          (s.mem.byte (eth + 23) = protoUdp → s.UdpSizesAgree eth len))) := by
  have hignored : CopyInside s len Parsed.ignored.packet := copyInside_of_nil rfl
  have hdrop : CopyInside s len .drop := copyInside_of_nil rfl
  unfold parseIp
  simp only [holds_ite, holds_bind, holds_read, holds_pure, holds_inetChecksumAt heth]
  change (_ ∧ (_ → _ ∧ (_ < s.ipTotalLength eth → _) ∧ (¬ _ < s.ipTotalLength eth → _ ∧
    (_ → s.ipHdrlen eth ≠ 0 ∧ 14 + s.ipHdrlen eth ≤ len ∧ (_ → _) ∧
      (_ → (parseProtocol s.mem eth (len - 14) (s.ipHdrlen eth) (s.ipTotalLength eth)).Holds len
        (CopyInside s len)))))) ↔ _
  constructor
  · rintro ⟨-, h⟩ h34 htot hif
    obtain ⟨-, -, h⟩ := h (by omega)
    obtain ⟨-, h⟩ := h (by omega)
    obtain ⟨h0, hin, -, h⟩ := h (by simpa using hif)
    refine ⟨h0, hin, fun hv => ?_⟩
    exact (holds_parseProtocol heth (by omega) h34 hle).mp (h (not_not.mpr hv))
  · intro h
    refine ⟨fun _ => hignored, fun h20 => ⟨.inr (by omega), fun _ => hignored, fun htot =>
      ⟨fun _ => hignored, fun hif => ?_⟩⟩⟩
    obtain ⟨h0, hin, h⟩ := h (by omega) (by omega) (by simpa using hif)
    refine ⟨h0, hin, fun _ => hdrop, fun hv => ?_⟩
    exact (holds_parseProtocol heth (by omega) (by omega) hle).mpr (h (not_not.mp hv))

/-- An ARP packet is read inside its bounds, whatever it says. -/
theorem holds_parseArp (h14 : 14 ≤ len) :
    (parseArp s.mem eth (len - 14)).Holds len fun p => CopyInside s len p.packet := by
  have hignored : CopyInside s len Parsed.ignored.packet := copyInside_of_nil rfl
  unfold parseArp
  simp only [holds_ite, holds_bind, holds_read, holds_pure]
  refine ⟨fun _ => hignored, fun h28 => ⟨.inr (by omega), fun _ => hignored, fun _ => ⟨fun _ =>
    ⟨fun _ => hignored, fun _ => ⟨.inr (by omega), ?_⟩⟩, fun _ => ⟨fun _ => ?_, fun _ => hignored⟩⟩⟩⟩
  · exact copyInside_of_nil rfl
  · exact copyInside_of_nil rfl

/-- **A frame is read inside its bounds, and no loop of `process_eth_frame` runs forever, exactly
when the lengths in its headers agree.** -/
theorem frame_inBounds_iff (heth : eth + len ≤ framesBufSz) (hle : len ≤ frameSz) :
    (s.frameTrace eth len).InBounds len ↔ s.SizesAgree eth len := by
  have hignored : CopyInside s len Parsed.ignored.packet := copyInside_of_nil rfl
  unfold Net.frameTrace InBounds
  simp only [holds_bind, holds_readAll, and_true]
  change (parseEthFrame s.mem eth len).Holds len (fun p => CopyInside s len p.packet) ↔ _
  unfold parseEthFrame
  simp only [holds_ite, holds_bind, holds_read, holds_pure]
  constructor
  · rintro ⟨-, h⟩ ⟨h34, hmac, hip, htot, hif⟩
    obtain ⟨-, -, h⟩ := h (by omega)
    obtain ⟨h, -⟩ := h (not_and_or.mpr (hmac.imp not_not.mpr not_not.mpr))
    exact (holds_parseIp heth hle (by omega)).mp (h hip) h34 htot hif
  · intro h
    refine ⟨fun _ => hignored, fun h14 => ⟨.inr (by omega), fun _ => hignored, fun hmac =>
      ⟨fun hip => ?_, fun _ => ⟨fun _ => holds_parseArp (by omega), fun _ => hignored⟩⟩⟩⟩
    refine (holds_parseIp heth hle (by omega)).mpr fun h34 htot hif => ?_
    have hours : s.mem.be48 eth ∈ ethIfaces ∨ s.mem.be48 eth = macBcast :=
      by_contra fun hc => hmac (not_or.mp hc)
    exact h ⟨h34, hours, hip, htot, hif⟩

end Spec

/-! ## Two frames -/

/-- The state of a server whose frame memory holds a frame at its start. -/
def Net.holding (bytes : List UInt8) : Net :=
  { Net.init 0 0 with mem := (Net.init 0 0).mem.load 0 bytes }

/-- An echo request from `192.168.0.1`. -/
def echoFrame : List UInt8 :=
  [34, 51, 68, 85, 102, 119, 2, 0, 0, 0, 0, 1, 8, 0, 69, 0, 0, 28, 0, 0, 0, 0, 64, 1, 249, 43,
    192, 168, 0, 1, 192, 168, 0, 100, 8, 0, 247, 253, 0, 1, 0, 1]

/-- An echo request is read inside its bounds. -/
theorem echoFrame_inBounds : ((Net.holding echoFrame).frameTrace 0 42).InBounds 42 := by
  refine (frame_inBounds_iff (by decide) (by decide)).mpr fun _ => ⟨by decide, by decide, fun _ => ?_⟩
  exact ⟨fun _ => by decide, fun h => absurd h (by decide)⟩

/-- An IP header that gives its own length as zero. -/
def noHeaderFrame : List UInt8 :=
  [34, 51, 68, 85, 102, 119, 2, 0, 0, 0, 0, 1, 8, 0, 64, 0, 0, 20, 0, 0, 0, 0, 64, 1, 0, 0, 192,
    168, 0, 1, 192, 168, 0, 100]

/-- The checksum of a header of length zero is computed in a loop that does not end. -/
theorem noHeaderFrame_endless : ¬ ((Net.holding noHeaderFrame).frameTrace 0 34).InBounds 34 := by
  rintro ⟨-, _, hok, -⟩
  have hstop : ((Net.holding noHeaderFrame).frameTrace 0 34).result.isOk = false := by
    decide +kernel
  rw [hok] at hstop
  cases hstop

end Tcpip
end Wrmos
