import Wrmos.TcpipServer

/-!
# The TCP/IP server: well-formed frames

What it means that an IP frame is well formed: it fits a buffer, its total length is what is sent
behind the Ethernet header, and the checksum of its IP header and the one of its protocol verify.
Every builder of the server but one makes such frames.

A builder writes its fields, then the checksum over a range in which the checksum field is zero, so
that `inetChecksum_store` applies; what is written later lies outside that range.  The builder of a
destination-unreachable message writes no ICMP checksum at all.
-/

namespace Wrmos
namespace Tcpip

open Lib

/-- The length of the IP header of the frame at `a`. -/
def ipHdrlenAt (m : Lib.Mem) (a : Nat) : Nat := m.byte (a + 14) % 16 * 4

/-- The length of what is behind the IP header of the frame at `a`. -/
def ipPloadAt (m : Lib.Mem) (a : Nat) : Nat := m.be16 (a + 16) - ipHdrlenAt m a

/-- What the checksum of a protocol sums besides the packet: the pseudo header of TCP and UDP. -/
def extraSum (m : Lib.Mem) (a : Nat) : Nat :=
  if m.byte (a + 23) = protoIcmp then 0
  else pseudoSum (m.be32 (a + 26)) (m.be32 (a + 30)) (m.byte (a + 23)) (ipPloadAt m a)

/-- The frame of `len` bytes at `a` is well formed, if it is an IP frame. -/
structure WellFormed (m : Lib.Mem) (a len : Nat) : Prop where
  headers : 34 ≤ len
  size : len ≤ frameSz
  total : m.be16 (a + 16) + 14 = len
  hdrlen : ipHdrlenAt m a ≤ m.be16 (a + 16)
  header : inetChecksum m (a + 14) (ipHdrlenAt m a) 0 = 0
  payload : inetChecksum m (a + 14 + ipHdrlenAt m a) (ipPloadAt m a) (extraSum m a) = 0
  udpLength : m.byte (a + 23) = protoUdp →
    m.be16 (a + 14 + ipHdrlenAt m a + 4) = ipPloadAt m a ∧ 8 ≤ ipPloadAt m a

/-- A frame that leaves the server is well formed, if it is an IP frame. -/
def TxFrame.Ok (f : TxFrame) : Prop := f.byte.be16 12 = etypeIp → WellFormed f.byte 0 f.len

section Shift

variable {m m' : Lib.Mem} {a off n len extra : Nat}

theorem sum16_shift : sum16 (fun i => m (a + i)) off n = sum16 m (a + off) n := by
  induction n using Nat.twoStepInduction generalizing off with
  | zero => rfl
  | one => rfl
  | more n ih _ =>
    simp only [sum16]
    rw [ih]
    rfl

theorem inetChecksum_shift :
    inetChecksum (fun i => m (a + i)) off n extra = inetChecksum m (a + off) n extra := by
  unfold inetChecksum
  rw [sum16_shift]

/-- A frame is well formed where it stands exactly when it is as the driver receives it. -/
theorem wellFormed_shift : WellFormed (fun i => m (a + i)) 0 len ↔ WellFormed m a len := by
  have hhdr : ipHdrlenAt (fun i => m (a + i)) 0 = ipHdrlenAt m a := rfl
  have hpl : ipPloadAt (fun i => m (a + i)) 0 = ipPloadAt m a := rfl
  have hextra : extraSum (fun i => m (a + i)) 0 = extraSum m a := rfl
  have hpos : ∀ x, a + (0 + 14 + x) = a + 14 + x := fun x => by omega
  have hlen : Mem.be16 (fun i => m (a + i)) (0 + 14 + ipHdrlenAt m a + 4) =
      m.be16 (a + 14 + ipHdrlenAt m a + 4) := by
    have h : ∀ x, Mem.be16 (fun i => m (a + i)) x = m.be16 (a + x) := fun _ => rfl
    rw [h, show a + (0 + 14 + ipHdrlenAt m a + 4) = a + 14 + ipHdrlenAt m a + 4 by omega]
  constructor
  · rintro ⟨h0, h1, h2, h3, h4, h5, h6⟩
    rw [hhdr, inetChecksum_shift] at h4
    rw [hhdr, hpl, hextra, inetChecksum_shift, hpos] at h5
    rw [hhdr, hlen] at h6
    exact ⟨h0, h1, h2, h3, h4, h5, h6⟩
  · rintro ⟨h0, h1, h2, h3, h4, h5, h6⟩
    refine ⟨h0, h1, h2, h3, ?_, ?_, ?_⟩
    · rw [hhdr, inetChecksum_shift]
      exact h4
    · rw [hhdr, hpl, hextra, inetChecksum_shift, hpos]
      exact h5
    · rw [hhdr, hlen]
      exact h6

/-- Whether a frame is well formed depends on what is behind the hardware addresses only. -/
theorem WellFormed.congr (h : WellFormed m a len) (hm : Mem.AgreeOn m (a + 12) (len - 12) m') :
    WellFormed m' a len := by
  obtain ⟨h0, h1, h2, h3, h4, h5, h6⟩ := h
  have hbyte : ∀ x, a + 12 ≤ x → x < a + 34 → m'.byte x = m.byte x := fun x hx hx' =>
    hm.byte hx (by omega)
  have htotal : m'.be16 (a + 16) = m.be16 (a + 16) := hm.be16 (by omega) (by omega)
  have hhdr : ipHdrlenAt m' a = ipHdrlenAt m a := by
    unfold ipHdrlenAt
    rw [hbyte _ (by omega) (by omega)]
  have hpl : ipPloadAt m' a = ipPloadAt m a := by
    unfold ipPloadAt
    rw [htotal, hhdr]
  have hproto : m'.byte (a + 23) = m.byte (a + 23) := hbyte _ (by omega) (by omega)
  have hextra : extraSum m' a = extraSum m a := by
    unfold extraSum
    rw [hproto, hpl, hm.be32 (b := a + 26) (by omega) (by omega),
      hm.be32 (b := a + 30) (by omega) (by omega)]
  have hple : ipHdrlenAt m a + ipPloadAt m a = m.be16 (a + 16) := by
    unfold ipPloadAt
    omega
  refine ⟨h0, h1, ?_, ?_, ?_, ?_, ?_⟩
  · rw [htotal]
    exact h2
  · rw [hhdr, htotal]
    exact h3
  · rw [hhdr, inetChecksum_congr (hm.mono (by omega) (by omega))]
    exact h4
  · rw [hhdr, hpl, hextra, inetChecksum_congr (hm.mono (by omega) (by omega))]
    exact h5
  · rw [hhdr, hpl, hproto]
    intro hp
    obtain ⟨h7, h8⟩ := h6 hp
    rw [hm.be16 (by omega) (by omega)]
    exact ⟨h7, h8⟩

end Shift

/-! ## The builders -/

section Build

variable {m : Lib.Mem} {ip totalLength proto src dst tcp udp sport dport seq ack reserved flags len : Nat}

/-- The fields of an IP header that was just built. -/
theorem buildIpFields_spec (m : Lib.Mem) (ip totalLength proto src dst : Nat) :
    let m' := buildIpFields m ip totalLength proto src dst
    m'.byte ip = 0x45 ∧ m'.be16 (ip + 2) = totalLength % 2 ^ 16 ∧ m'.byte (ip + 9) = proto % 256 ∧
      m'.be32 (ip + 12) = src % 2 ^ 32 ∧ m'.be32 (ip + 16) = dst % 2 ^ 32 ∧ m'.be16 (ip + 10) = 0 := by
  unfold buildIpFields
  refine ⟨?_, ?_, ?_, ?_, ?_, Mem.be16_put16⟩
  · simp (disch := omega) only [Mem.byte_put8_ne, Mem.byte_put16_ne, Mem.byte_put32_ne, Mem.byte_put8]
  · simp (disch := omega) only [Mem.be16_put8_ne, Mem.be16_put16_ne, Mem.be16_put32_ne, Mem.be16_put16]
  · simp (disch := omega) only [Mem.byte_put16_ne, Mem.byte_put32_ne, Mem.byte_put8]
  · simp (disch := omega) only [Mem.be32_put16_ne, Mem.be32_put32_ne, Mem.be32_put32]
  · simp (disch := omega) only [Mem.be32_put16_ne, Mem.be32_put32]

theorem agreeOn_buildEth {a n eth ethsrc ethdst etype : Nat} (h : a + n ≤ eth ∨ eth + 14 ≤ a) :
    Mem.AgreeOn m a n (buildEth m eth ethsrc ethdst etype) :=
  ((Mem.agreeOn_put48 (by omega)).trans (Mem.agreeOn_put48 (by omega))).trans
    (Mem.agreeOn_put16 (by omega))

theorem agreeOn_buildIpFields {a n : Nat} (h : a + n ≤ ip ∨ ip + 20 ≤ a) :
    Mem.AgreeOn m a n (buildIpFields m ip totalLength proto src dst) :=
  (Mem.agreeOn_put8 (by omega)).trans <| (Mem.agreeOn_put8 (by omega)).trans <|
    (Mem.agreeOn_put16 (by omega)).trans <| (Mem.agreeOn_put16 (by omega)).trans <|
    (Mem.agreeOn_put16 (by omega)).trans <| (Mem.agreeOn_put8 (by omega)).trans <|
    (Mem.agreeOn_put8 (by omega)).trans <| (Mem.agreeOn_put32 (by omega)).trans <|
    (Mem.agreeOn_put32 (by omega)).trans (Mem.agreeOn_put16 (by omega))

theorem agreeOn_buildIp {a n : Nat} (h : a + n ≤ ip ∨ ip + 20 ≤ a) :
    Mem.AgreeOn m a n (buildIp m ip totalLength proto src dst) :=
  (agreeOn_buildIpFields h).trans (Mem.agreeOn_put16 (by omega))

theorem agreeOn_buildTcp {a n ipsrc ipdst : Nat} (h : a + n ≤ tcp ∨ tcp + 40 ≤ a) :
    Mem.AgreeOn m a n (buildTcp m tcp sport dport seq ack reserved flags ipsrc ipdst len) :=
  ((Mem.agreeOn_put16 (by omega)).trans <| (Mem.agreeOn_put16 (by omega)).trans <|
    (Mem.agreeOn_put32 (by omega)).trans <| (Mem.agreeOn_put32 (by omega)).trans <|
    (Mem.agreeOn_put8 (by omega)).trans <| (Mem.agreeOn_put8 (by omega)).trans <|
    (Mem.agreeOn_put16 (by omega)).trans <| (Mem.agreeOn_put16 (by omega)).trans <|
    (Mem.agreeOn_put8 (by omega)).trans (Mem.agreeOn_put16 (by omega))).trans
    (Mem.agreeOn_put16 (by omega))

theorem agreeOn_buildUdp {a n ipsrc ipdst : Nat} (h : a + n ≤ udp ∨ udp + 8 ≤ a) :
    Mem.AgreeOn m a n (buildUdp m udp sport dport ipsrc ipdst len) :=
  ((Mem.agreeOn_put16 (by omega)).trans <| (Mem.agreeOn_put16 (by omega)).trans <|
    (Mem.agreeOn_put16 (by omega)).trans (Mem.agreeOn_put16 (by omega))).trans
    (Mem.agreeOn_put16 (by omega))

/-- The checksum of an IP header that was just built verifies. -/
theorem buildIp_header :
    inetChecksum (buildIp m ip totalLength proto src dst) ip 20 0 = 0 := by
  have hz := (buildIpFields_spec m ip totalLength proto src dst).2.2.2.2.2
  exact inetChecksum_store (j := 5) (by decide) hz (by decide) (by decide)

/-- The sum of a pseudo header is small. -/
theorem pseudoSum_lt {n : Nat} (hs : src < 2 ^ 32) (hd : dst < 2 ^ 32) (hp : proto < 256)
    (hn : n < 2 ^ 16) : pseudoSum src dst proto n < 2 ^ 30 := by
  unfold pseudoSum
  omega

/-- The checksum of a TCP packet that was just built verifies. -/
theorem buildTcp_checksum (m : Lib.Mem) (tcp sport dport seq ack reserved flags len : Nat)
    {ipsrc ipdst : Nat} (hs : ipsrc < 2 ^ 32) (hd : ipdst < 2 ^ 32)
    (hl : len + 40 < 2 ^ 14) :
    inetChecksum (buildTcp m tcp sport dport seq ack reserved flags ipsrc ipdst len) tcp (len + 40)
      (pseudoSum ipsrc ipdst protoTcp (len + 40)) = 0 := by
  unfold buildTcp
  simp only [Nat.mod_eq_of_lt (show len + 40 < 2 ^ 16 by omega)]
  exact inetChecksum_store (j := 8) (by omega) Mem.be16_put16 hl
    (pseudoSum_lt hs hd (by decide) (by omega))

/-- The checksum of a UDP packet that was just built verifies. -/
theorem buildUdp_checksum (m : Lib.Mem) (udp sport dport len : Nat) {ipsrc ipdst : Nat}
    (hs : ipsrc < 2 ^ 32) (hd : ipdst < 2 ^ 32)
    (hl : 8 + len < 2 ^ 14) :
    inetChecksum (buildUdp m udp sport dport ipsrc ipdst len) udp (8 + len)
      (pseudoSum ipsrc ipdst protoUdp (8 + len)) = 0 := by
  unfold buildUdp
  simp only [Nat.mod_eq_of_lt (show 8 + len < 2 ^ 16 by omega)]
  exact inetChecksum_store (j := 3) (by omega) Mem.be16_put16 hl
    (pseudoSum_lt hs hd (by decide) (by omega))

theorem buildUdp_length {ipsrc ipdst : Nat} (hl : 8 + len < 2 ^ 16) :
    (buildUdp m udp sport dport ipsrc ipdst len).be16 (udp + 4) = 8 + len := by
  unfold buildUdp buildUdpFields
  simp (disch := omega) only [Mem.be16_put16_ne, Mem.be16_put16]
  omega

/-- A packet of `n` bytes behind an IP header that was just built makes a well-formed frame. -/
theorem wellFormed_of_buildIp {m' : Lib.Mem} {a n : Nat} (hn : 34 + n ≤ frameSz) (hp : proto < 256)
    (hs : src < 2 ^ 32) (hd : dst < 2 ^ 32)
    (hm : Mem.AgreeOn (buildIp m (a + 14) (20 + n) proto src dst) (a + 14) 20 m')
    (hsum : inetChecksum m' (a + 34) n (if proto = protoIcmp then 0 else pseudoSum src dst proto n) = 0)
    (hudp : proto = protoUdp → m'.be16 (a + 38) = n ∧ 8 ≤ n) : WellFormed m' a (34 + n) := by
  unfold frameSz at hn
  have hfields := buildIpFields_spec m (a + 14) (20 + n) proto src dst
  -- the checksum, written last, leaves the fields as they are
  have hb : ∀ x, x ≠ a + 24 → x ≠ a + 25 → (buildIp m (a + 14) (20 + n) proto src dst).byte x =
      (buildIpFields m (a + 14) (20 + n) proto src dst).byte x := fun x h1 h2 =>
    Mem.byte_put16_ne (by omega)
  obtain ⟨h1, h2, h3, h4, h5, -⟩ := hfields
  have hver : m'.byte (a + 14) = 0x45 := by
    rw [hm.byte (Nat.le_refl _) (by omega), hb _ (by omega) (by omega), h1]
  have htot : m'.be16 (a + 16) = 20 + n := by
    rw [hm.be16 (by omega) (by omega)]
    exact (Mem.be16_put16_ne (by omega)).trans (h2.trans (Nat.mod_eq_of_lt (by omega)))
  have hproto : m'.byte (a + 23) = proto := by
    rw [hm.byte (by omega) (by omega), hb _ (by omega) (by omega)]
    exact h3.trans (Nat.mod_eq_of_lt hp)
  have hsrc : m'.be32 (a + 26) = src := by
    rw [hm.be32 (by omega) (by omega)]
    exact (Mem.be32_put16_ne (by omega)).trans (h4.trans (Nat.mod_eq_of_lt hs))
  have hdst : m'.be32 (a + 30) = dst := by
    rw [hm.be32 (by omega) (by omega)]
    exact (Mem.be32_put16_ne (by omega)).trans (h5.trans (Nat.mod_eq_of_lt hd))
  have hhdr : ipHdrlenAt m' a = 20 := by
    unfold ipHdrlenAt
    rw [hver]
  have hpl : ipPloadAt m' a = n := by
    unfold ipPloadAt
    rw [htot, hhdr]
    omega
  have hextra : extraSum m' a = if proto = protoIcmp then 0 else pseudoSum src dst proto n := by
    unfold extraSum
    rw [hproto, hsrc, hdst, hpl]
  refine ⟨by omega, hn, by omega, by omega, ?_, ?_, ?_⟩
  · rw [hhdr, inetChecksum_congr hm]
    exact buildIp_header
  · rw [hhdr, hpl, hextra]
    exact hsum
  · rw [hproto, hhdr, hpl]
    exact hudp

/-- The frame of `send_tcp_msg`. -/
theorem wellFormed_tcpMsg {buf mac : Nat} {ipif : IpIface} {t : Socket} {st : Stream}
    (hs : ipif.addr < 2 ^ 32) (hd : st.remAddr < 2 ^ 32) :
    WellFormed (Net.tcpMsg m buf ipif mac t st flags) buf 74 :=
  wellFormed_of_buildIp (n := 40) (by decide) (by decide) hs hd (agreeOn_buildTcp (by omega))
    (buildTcp_checksum _ _ _ _ _ _ _ _ 0 hs hd (by decide)) nofun

/-- The frame of `process_cli_sendto_tcp`. -/
theorem wellFormed_tcpDataMsg {eth mac : Nat} {ipif : IpIface} {t : Socket} {st : Stream}
    (hs : ipif.addr < 2 ^ 32) (hd : st.remAddr < 2 ^ 32) (hlen : 74 + len ≤ frameSz) :
    WellFormed (Net.tcpDataMsg m eth ipif mac t st len) eth (74 + len) := by
  unfold frameSz at hlen
  have h := wellFormed_of_buildIp (m := buildEth m eth ipif.mac mac etypeIp) (a := eth)
    (n := len + 40) (by unfold frameSz; omega) (by decide) hs hd
    (agreeOn_buildTcp (by omega))
    (buildTcp_checksum (buildIp (buildEth m eth ipif.mac mac etypeIp) (eth + 14)
      (20 + (len + 40)) protoTcp ipif.addr st.remAddr) (eth + 34) t.saddrPort st.remPort st.seqTx
      st.seqRx ((buildIp (buildEth m eth ipif.mac mac etypeIp) (eth + 14)
        (20 + (len + 40)) protoTcp ipif.addr st.remAddr).byte (eth + 34 + 12) / 2 % 8)
      (flagPsh + flagAck) len hs hd (by omega)) nofun
  rw [show 34 + (len + 40) = 74 + len by omega, show 20 + (len + 40) = 60 + len by omega] at h
  exact h

/-- The frame of `process_cli_sendto_udp`. -/
theorem wellFormed_udpDataMsg {eth mac port dport : Nat} {ipif : IpIface}
    (hs : ipif.addr < 2 ^ 32) (hd : dst < 2 ^ 32) (hlen : 42 + len ≤ frameSz) :
    WellFormed (Net.udpDataMsg m eth ipif mac port dst dport len) eth (42 + len) := by
  unfold frameSz at hlen
  have h := wellFormed_of_buildIp (m := buildEth m eth ipif.mac mac etypeIp) (a := eth)
    (n := 8 + len) (by unfold frameSz; omega) (by decide) hs hd
    (agreeOn_buildUdp (by omega))
    (buildUdp_checksum (buildIp (buildEth m eth ipif.mac mac etypeIp) (eth + 14)
      (20 + (8 + len)) protoUdp ipif.addr dst) (eth + 34) port dport len hs hd (by omega))
    (fun _ => ⟨buildUdp_length (by omega), by omega⟩)
  rw [show 34 + (8 + len) = 42 + len by omega, show 20 + (8 + len) = 28 + len by omega] at h
  exact h

/-! ### The reply to an echo request -/

/-- Swapping the two addresses of an IP header keeps its sum. -/
theorem sum16_swap {m' : Lib.Mem} {a n : Nat} (hn : 20 ≤ n) (hlow : Mem.AgreeOn m a 12 m')
    (hhigh : Mem.AgreeOn m (a + 20) (n - 20) m') (h12 : m'.be32 (a + 12) = m.be32 (a + 16))
    (h16 : m'.be32 (a + 16) = m.be32 (a + 12)) : sum16 m' a n = sum16 m a n := by
  obtain ⟨k, rfl⟩ : ∃ k, n = 2 * 6 + (k + 2 + 2 + 2 + 2) := ⟨n - 20, by omega⟩
  have hlast : sum16 m' (a + 20) k = sum16 m (a + 20) k :=
    sum16_congr (hhigh.mono (Nat.le_refl _) (by omega))
  rw [sum16_add, sum16_add, sum16_congr hlow]
  simp only [sum16]
  have h1 := Mem.be16_lt (m := m) (a := a + 12)
  have h2 := Mem.be16_lt (m := m) (a := a + 12 + 2)
  have h3 := Mem.be16_lt (m := m) (a := a + 16)
  have h4 := Mem.be16_lt (m := m) (a := a + 16 + 2)
  have h5 := Mem.be16_lt (m := m') (a := a + 12)
  have h6 := Mem.be16_lt (m := m') (a := a + 12 + 2)
  have h7 := Mem.be16_lt (m := m') (a := a + 16)
  have h8 := Mem.be16_lt (m := m') (a := a + 16 + 2)
  unfold Mem.be32 at h12 h16
  simp only [Nat.add_assoc, Nat.reduceAdd, Nat.reduceMul] at *
  omega

/-- **The reply to an echo request is well formed**, if the request has a header of 20 bytes. -/
theorem wellFormed_echoReply {eth icmplen : Nat} (h20 : 20 ≤ ipHdrlenAt m eth)
    (htotal : m.be16 (eth + 16) = ipHdrlenAt m eth + icmplen) (h4 : 4 ≤ icmplen)
    (hsize : 14 + m.be16 (eth + 16) ≤ frameSz) (hproto : m.byte (eth + 23) = protoIcmp)
    (hver : inetChecksum m (eth + 14) (ipHdrlenAt m eth) 0 = 0) :
    WellFormed (Net.echoReply m eth (ipHdrlenAt m eth) icmplen) eth
      (14 + ipHdrlenAt m eth + icmplen) := by
  generalize hh : ipHdrlenAt m eth = h at *
  unfold frameSz at hsize
  unfold Net.echoReply
  generalize hm1 : ((m.put8 (eth + 14 + h) 0).put8 (eth + 14 + h + 1) 0).put16 (eth + 14 + h + 2) 0 = m1
  generalize hm2 : m1.put16 (eth + 14 + h + 2) (inetChecksum m1 (eth + 14 + h) icmplen 0) = m2
  generalize hm3 : (m2.put32 (eth + 26) (m2.be32 (eth + 30))).put32 (eth + 30) (m2.be32 (eth + 26)) = m3
  simp only [hm1, hm2, hm3]
  -- the frame is changed in the ICMP header, in the two IP addresses and in the hardware addresses
  have hicmp : inetChecksum m2 (eth + 14 + h) icmplen 0 = 0 := by
    rw [← hm2]
    refine inetChecksum_store (j := 1) (by omega) ?_ (by omega) (by decide)
    rw [← hm1]
    exact Mem.be16_put16
  have hA : ∀ a n, a + n ≤ eth + 14 + h ∨ eth + 14 + h + 4 ≤ a → Mem.AgreeOn m a n m2 := by
    intro a n hd
    rw [← hm2, ← hm1]
    exact (Mem.agreeOn_put8 (by omega)).trans <| (Mem.agreeOn_put8 (by omega)).trans <|
      (Mem.agreeOn_put16 (by omega)).trans (Mem.agreeOn_put16 (by omega))
  have hB : ∀ a n, a + n ≤ eth + 26 ∨ eth + 34 ≤ a → Mem.AgreeOn m2 a n m3 := by
    intro a n hd
    rw [← hm3]
    exact (Mem.agreeOn_put32 (by omega)).trans (Mem.agreeOn_put32 (by omega))
  have hC : ∀ a n, eth + 12 ≤ a → Mem.AgreeOn m3 a n
      ((m3.put48 (eth + 6) (m3.be48 eth)).put48 eth (m3.be48 (eth + 6))) := fun a n hd =>
    (Mem.agreeOn_put48 (by omega)).trans (Mem.agreeOn_put48 (by omega))
  refine WellFormed.congr (m := m3) ?_ (hC _ _ (Nat.le_refl _))
  have hsrc : m2.be32 (eth + 26) = m.be32 (eth + 26) := (hA (eth + 26) 4 (by omega)).be32 (by omega) (by omega)
  have hdst : m2.be32 (eth + 30) = m.be32 (eth + 30) := (hA (eth + 30) 4 (by omega)).be32 (by omega) (by omega)
  have hfirst : Mem.AgreeOn m (eth + 14) 12 m3 := (hA _ _ (by omega)).trans (hB _ _ (by omega))
  have h3src : m3.be32 (eth + 26) = m.be32 (eth + 30) := by
    rw [← hm3, Mem.be32_put32_ne (by omega), Mem.be32_put32, hdst, Nat.mod_eq_of_lt Mem.be32_lt]
  have h3dst : m3.be32 (eth + 30) = m.be32 (eth + 26) := by
    rw [← hm3, Mem.be32_put32, hsrc, Nat.mod_eq_of_lt Mem.be32_lt]
  have h3tot : m3.be16 (eth + 16) = h + icmplen := (hfirst.be16 (by omega) (by omega)).trans htotal
  have h3proto : m3.byte (eth + 23) = protoIcmp := (hfirst.byte (by omega) (by omega)).trans hproto
  have h3hdr : ipHdrlenAt m3 eth = h := by
    rw [← hh]
    unfold ipHdrlenAt
    rw [hfirst.byte (Nat.le_refl _) (by omega)]
  have h3pl : ipPloadAt m3 eth = icmplen := by
    unfold ipPloadAt
    omega
  have hsum : sum16 m3 (eth + 14) h = sum16 m (eth + 14) h :=
    sum16_swap h20 hfirst ((hA _ _ (by omega)).trans (hB _ _ (by omega))) h3src h3dst
  refine ⟨by omega, by unfold frameSz; omega, by omega, by omega, ?_, ?_, ?_⟩
  · rw [h3hdr]
    unfold inetChecksum at hver ⊢
    rw [hsum]
    exact hver
  · rw [h3hdr, h3pl]
    unfold extraSum
    rw [if_pos h3proto, inetChecksum_congr (hB _ _ (by omega))]
    exact hicmp
  · rw [h3proto]
    nofun

end Build

end Tcpip
end Wrmos
