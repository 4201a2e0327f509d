import Wrmos.TcpipPool
import Wrmos.TcpipDiscipline
import Wrmos.TcpipParseSpec

/-!
# The TCP/IP server: the frames that leave it

Every frame of a run is well formed, or it is a destination-unreachable message, which is well formed but for
the checksum of ICMP (`run_emitted`).  Two kinds of frames from outside are taken out: one that is answered
with more than a buffer holds, which would overwrite the next buffer, and an echo request whose IP header is
shorter than the two addresses that are swapped in it.

The frames in the sockets stay well formed by what is shown with the buffers (`FramesOk`); here are the
answers to the frames from outside, which are written and sent where they stand.
-/

namespace Wrmos
namespace Tcpip

open Lib

/-- What a frame asks for, besides the fields that the checks of `process_eth_frame` have compared. -/
def Packet.Read (m : Lib.Mem) (eth len : Nat) : Packet → Prop
  | .drop | .arpReply _ _ | .unreach _ _ | .udp _ => True
  | .wrongChecksum off => off + 2 ≤ 100
  | .arpRequest _ _ => m.be16 (eth + 12) = etypeArp
  | .echo hdrlen icmplen => hdrlen = ipHdrlenAt m eth ∧ m.be16 (eth + 16) = hdrlen + icmplen ∧ 4 ≤ icmplen ∧
      14 + m.be16 (eth + 16) ≤ len ∧ m.byte (eth + 23) = protoIcmp ∧
      inetChecksum m (eth + 14) hdrlen 0 = 0
  | .tcp seg => seg.src < 2 ^ 32

/-! ## The first half of `process_eth_frame` -/

namespace Trace

variable {α β : Type} {t u : Trace α} {f : α → Trace β} {P : α → Prop} {Q : β → Prop}

/-- What the computation returns, if it returns, satisfies `P`. -/
def Returns (t : Trace α) (P : α → Prop) : Prop := Post t.result P

theorem Returns.pure {x : α} (h : P x) : (Pure.pure x : Trace α).Returns P := Post.ok h

theorem Returns.stop {e : Stop} : (stop e : Trace α).Returns P := Post.error

theorem Returns.bind (h : t.Returns P) (hf : ∀ x, P x → (f x).Returns Q) : (t >>= f).Returns Q := by
  obtain ⟨reads, result⟩ := t
  cases result with
  | error e => exact nofun
  | ok x => exact hf x (h x rfl)

theorem Returns.read {off size : Nat} {f : Unit → Trace β} (hf : (f ()).Returns Q) :
    (Trace.read off size >>= f).Returns Q :=
  Returns.bind (P := fun _ => True) (fun _ _ => trivial) fun _ _ => hf

theorem Returns.ite {c : Prop} [Decidable c] (ht : c → t.Returns P) (hu : ¬ c → u.Returns P) :
    (if c then t else u).Returns P := by
  split
  · exact ht ‹_›
  · exact hu ‹_›

end Trace

section Parse

open Trace

variable {m : Lib.Mem} {eth len hdrlen iplen n : Nat}

theorem returns_inetChecksumAt {off extra : Nat} : (inetChecksumAt m eth off n extra).Returns fun c =>
    c = inetChecksum m (eth + off) n extra ∧ n ≠ 0 ∧ eth + off + n ≤ framesBufSz := by
  unfold inetChecksumAt
  refine .ite (fun _ => .stop) fun hn => .read <| .ite (fun _ => .stop) fun hle => .pure ⟨rfl, hn, ?_⟩
  omega

theorem hdrlen_le (m : Lib.Mem) (eth : Nat) : ipHdrlenAt m eth ≤ 60 := by
  unfold ipHdrlenAt
  omega

theorem returns_parseIcmp (hhdr : hdrlen = ipHdrlenAt m eth) (hle : 14 + m.be16 (eth + 16) ≤ len)
    (hproto : m.byte (eth + 23) = protoIcmp) (hver : inetChecksum m (eth + 14) hdrlen 0 = 0) :
    (parseIcmp m eth hdrlen (subSz (m.be16 (eth + 16)) hdrlen)).Returns (Packet.Read m eth len) := by
  unfold parseIcmp
  refine .ite (fun _ => .pure trivial) fun h4 => .bind returns_inetChecksumAt fun c hc =>
    .ite (fun _ => .pure trivial) fun _ => .read <| .ite (fun _ => .read <| .pure ?_) fun _ => .pure trivial
  have h16 := Mem.be16_lt (m := m) (a := eth + 16)
  have hh := hdrlen_le m eth
  have hn := hc.2.2
  have hsub : subSz (m.be16 (eth + 16)) hdrlen = m.be16 (eth + 16) - hdrlen := by
    unfold subSz framesBufSz at *
    omega
  have htotal : m.be16 (eth + 16) = hdrlen + subSz (m.be16 (eth + 16)) hdrlen := by omega
  exact ⟨hhdr, htotal, by omega, hle, hproto, hver⟩

theorem returns_parseTcp {tcplen : Nat} (hhdr : hdrlen = ipHdrlenAt m eth) :
    (parseTcp m eth hdrlen tcplen).Returns (Packet.Read m eth len) := by
  have hh := hdrlen_le m eth
  unfold parseTcp
  refine .ite (fun _ => .pure trivial) fun _ => .read <| .ite (fun _ => .pure trivial) fun _ =>
    .bind returns_inetChecksumAt fun c _ => .ite (fun _ => .pure ?_) fun _ => .read <| .pure Mem.be32_lt
  change 14 + hdrlen + 16 + 2 ≤ 100
  omega

theorem returns_parseUdp {udplen : Nat} (hhdr : hdrlen = ipHdrlenAt m eth) :
    (parseUdp m eth hdrlen udplen).Returns (Packet.Read m eth len) := by
  have hh := hdrlen_le m eth
  unfold parseUdp
  refine .ite (fun _ => .pure trivial) fun _ => .read <| .ite (fun _ => .pure trivial) fun _ =>
    .bind returns_inetChecksumAt fun c _ => .ite (fun _ => .read <| .pure ?_) fun _ => .read <| .pure trivial
  change 14 + hdrlen + 6 + 2 ≤ 100
  omega

theorem returns_parseIp (hlen : iplen + 14 = len) :
    (parseIp m eth iplen).Returns fun p => p.packet.Read m eth len := by
  unfold parseIp
  refine .ite (fun _ => .pure trivial) fun _ => .read <| .ite (fun _ => .pure trivial) fun htotal =>
    .ite (fun _ => .pure trivial) fun _ => .bind returns_inetChecksumAt fun c hc =>
    .ite (fun _ => .pure trivial) fun hz => .bind (P := Packet.Read m eth len) ?_ fun _ hp => .pure hp
  have hver : inetChecksum m (eth + 14) (m.byte (eth + 14) % 16 * 4) 0 = 0 :=
    hc.1.symm.trans (not_not.mp hz)
  unfold parseProtocol
  refine .ite (fun hproto => ?_) fun _ => .ite (fun _ => returns_parseTcp rfl) fun _ =>
    .ite (fun _ => returns_parseUdp rfl) fun _ => .read <| .pure trivial
  exact returns_parseIcmp rfl (by omega) hproto hver

/-- What a frame asks for was read from it. -/
theorem returns_parseEthFrame : (parseEthFrame m eth len).Returns fun p => p.packet.Read m eth len := by
  unfold parseEthFrame
  refine .ite (fun _ => .pure trivial) fun h14 => .read <| .ite (fun _ => .pure trivial) fun _ =>
    .ite (fun _ => returns_parseIp (by omega)) fun _ => .ite (fun harp => ?_) fun _ => .pure trivial
  unfold parseArp
  refine .ite (fun _ => .pure trivial) fun h28 => .read <| .ite (fun _ => .pure trivial) fun _ =>
    .ite (fun _ => .ite (fun _ => .pure trivial) fun _ => .read <| .pure harp) fun _ =>
    .ite (fun _ => .pure trivial) fun _ => .pure trivial

end Parse

/-! ## What is written -/

section Write

variable {m : Lib.Mem} {n eth len : Nat}

theorem agreeOutside_load {off : Nat} {bytes : List UInt8} (h : off + bytes.length ≤ frameStride) :
    AgreeOutside m (m.load (n * frameStride + off) bytes) [n] :=
  agreeOutside_of_agreeOn off bytes.length h fun x k hx y h1 h2 => if_neg (by omega)

theorem agreeOutside_put16 {off v : Nat} (h : off + 2 ≤ frameStride) :
    AgreeOutside m (m.put16 (n * frameStride + off) v) [n] :=
  agreeOutside_of_agreeOn off 2 h fun _ _ _ => Mem.agreeOn_put16 (by omega)

/-- The reply to an ARP request changes no more than the first 42 bytes, and not the type. -/
theorem agreeOn_arpReply {x k tpa mac : Nat} (h : x + k ≤ eth ∨ eth + 42 ≤ x ∨ x = eth + 12 ∧ k = 2) :
    Mem.AgreeOn m x k (Net.arpReply m eth tpa mac) :=
  (Mem.agreeOn_put16 (by omega)).trans <| (Mem.agreeOn_put48 (by omega)).trans <|
    (Mem.agreeOn_put32 (by omega)).trans <| (Mem.agreeOn_put48 (by omega)).trans <|
    (Mem.agreeOn_put32 (by omega)).trans <| (Mem.agreeOn_put48 (by omega)).trans
    (Mem.agreeOn_put48 (by omega))

theorem agreeOn_echoReply {x k hdrlen icmplen : Nat} (hhdr : hdrlen ≤ 60)
    (h : x + k ≤ eth ∨ eth + 78 ≤ x) : Mem.AgreeOn m x k (Net.echoReply m eth hdrlen icmplen) :=
  (Mem.agreeOn_put8 (by omega)).trans <| (Mem.agreeOn_put8 (by omega)).trans <|
    (Mem.agreeOn_put16 (by omega)).trans <| (Mem.agreeOn_put16 (by omega)).trans <|
    (Mem.agreeOn_put32 (by omega)).trans <| (Mem.agreeOn_put32 (by omega)).trans <|
    (Mem.agreeOn_put48 (by omega)).trans (Mem.agreeOn_put48 (by omega))

/-- A frame that is no IP frame. -/
theorem good_arpReply {tpa mac : Nat} (h : m.be16 (eth + 12) = etypeArp) :
    TxFrame.Good ⟨len, fun i => Net.arpReply m eth tpa mac (eth + i)⟩ := by
  refine .inl fun hip => ?_
  have hsame : (Net.arpReply m eth tpa mac).be16 (eth + 12) = m.be16 (eth + 12) :=
    (agreeOn_arpReply (.inr (.inr ⟨rfl, rfl⟩))).be16 (Nat.le_refl _) (Nat.le_refl _)
  exact absurd ((hsame.trans h).symm.trans hip) (by decide)

/-- **A destination-unreachable message** that fits a buffer. -/
theorem unreachable_message {ipif : IpIface} {mac src req reqLen code : Nat} (hfit : 42 + reqLen ≤ frameSz)
    {m₁ m₂ m₃ : Lib.Mem} (h₁ : m₁ = buildEth m eth ipif.mac mac etypeIp)
    (h₂ : m₂ = buildIp m₁ (eth + 14) (28 + reqLen) protoIcmp ipif.addr src)
    (h₃ : m₃ = ((m₂.put8 (eth + 34) 3).put8 (eth + 35) code).copy reqLen (eth + 42) (req + 14)) :
    TxFrame.Unreachable ⟨14 + m₃.be16 (eth + 16), fun i => m₃ (eth + i)⟩ := by
  unfold frameSz at hfit
  -- what is behind the IP header does not touch the two headers
  have hA : ∀ x k, x + k ≤ eth + 34 → Mem.AgreeOn m₂ x k m₃ := by
    intro x k hx
    have hcopy : Mem.AgreeOn ((m₂.put8 (eth + 34) 3).put8 (eth + 35) code) x k m₃ := fun y h1 h2 => by
      rw [h₃]
      exact if_neg (by omega)
    exact (Mem.agreeOn_put8 (by omega)).trans <| (Mem.agreeOn_put8 (by omega)).trans hcopy
  obtain ⟨hver, htot, hproto, -, -, -⟩ :=
    buildIpFields_spec m₁ (eth + 14) (28 + reqLen) protoIcmp ipif.addr src
  have hip : ∀ x, x ≠ eth + 24 → x ≠ eth + 25 →
      m₂.byte x = (buildIpFields m₁ (eth + 14) (28 + reqLen) protoIcmp ipif.addr src).byte x := by
    intro x h1 h2
    rw [h₂]
    exact Mem.byte_put16_ne (by omega)
  have hbyte : m₃.byte (eth + 14) = 0x45 := by
    rw [(hA (eth + 14) 1 (by omega)).byte (Nat.le_refl _) (by omega), hip _ (by omega) (by omega), hver]
  have htotal : m₃.be16 (eth + 16) = 28 + reqLen := by
    rw [(hA (eth + 16) 2 (by omega)).be16 (Nat.le_refl _) (by omega), h₂]
    exact (Mem.be16_put16_ne (by omega)).trans (htot.trans (Nat.mod_eq_of_lt (by omega)))
  have hhdr : ipHdrlenAt m₃ eth = 20 := by
    unfold ipHdrlenAt
    rw [hbyte]
  refine ⟨?_, ?_, ?_, hhdr, ?_, ?_, ?_⟩
  · have heth : m₂.be16 (eth + 12) = etypeIp := by
      rw [h₂, (agreeOn_buildIp (a := eth + 12) (n := 2) (by omega)).be16 (Nat.le_refl _) (Nat.le_refl _), h₁]
      exact Mem.be16_put16
    exact ((hA (eth + 12) 2 (by omega)).be16 (Nat.le_refl _) (Nat.le_refl _)).trans heth
  · change 14 + m₃.be16 (eth + 16) ≤ frameSz
    unfold frameSz
    omega
  · exact Nat.add_comm _ _
  · rw [inetChecksum_shift]
    have hag := hA (eth + 14) 20 (by omega)
    rw [inetChecksum_congr hag, h₂]
    exact buildIp_header
  · change m₃.byte (eth + 23) = protoIcmp
    rw [(hA (eth + 23) 1 (by omega)).byte (Nat.le_refl _) (by omega), hip _ (by omega) (by omega)]
    exact hproto
  · change m₃.byte (eth + 34) = 3
    have hcopy : m₃.byte (eth + 34) = ((m₂.put8 (eth + 34) 3).put8 (eth + 35) code).byte (eth + 34) := by
      rw [h₃]
      exact congrArg UInt8.toNat (if_neg (by omega))
    rw [hcopy, Mem.byte_put8_ne (by omega), Mem.byte_put8]

/-- Nor does it touch another buffer. -/
theorem agreeOutside_message {ipif : IpIface} {mac src req reqLen code : Nat} (hfit : 42 + reqLen ≤ frameSz)
    {m₁ m₂ m₃ : Lib.Mem} (h₁ : m₁ = buildEth m (n * frameStride) ipif.mac mac etypeIp)
    (h₂ : m₂ = buildIp m₁ (n * frameStride + 14) (28 + reqLen) protoIcmp ipif.addr src)
    (h₃ : m₃ = ((m₂.put8 (n * frameStride + 34) 3).put8 (n * frameStride + 35) code).copy reqLen
      (n * frameStride + 42) (req + 14)) : AgreeOutside m m₃ [n] := by
  unfold frameSz at hfit
  refine agreeOutside_of_agreeOn 0 (42 + reqLen) (by unfold frameStride; omega) fun x k hx => ?_
  have hA : Mem.AgreeOn m x k m₁ := h₁ ▸ agreeOn_buildEth (by omega)
  have hB : Mem.AgreeOn m₁ x k m₂ := h₂ ▸ agreeOn_buildIp (by omega)
  have hC : Mem.AgreeOn m₂ x k ((m₂.put8 (n * frameStride + 34) 3).put8 (n * frameStride + 35) code) :=
    (Mem.agreeOn_put8 (by omega)).trans (Mem.agreeOn_put8 (by omega))
  have hD : Mem.AgreeOn ((m₂.put8 (n * frameStride + 34) 3).put8 (n * frameStride + 35) code) x k m₃ :=
    fun y h1 h2 => by
      rw [h₃]
      exact if_neg (by omega)
  exact hA.trans (hB.trans (hC.trans hD))

end Write

/-- The server answers the packet with a frame that fits a buffer: it quotes at most 1476 bytes, and it swaps
addresses that lie in the header of the request. -/
def Net.Answers (s : Net) : Packet → Prop
  | .echo hdrlen _ => 20 ≤ hdrlen
  | .unreach reqLen _ => 42 + reqLen ≤ frameSz
  | .tcp seg => s.findConnectedSocket seg.dst seg.dport seg.src seg.sport = none →
      s.findListeningSocket seg.dst seg.dport = none → 42 + seg.reqLen ≤ frameSz
  | .udp d => s.findUdpSocket d.dst d.dport = none → 42 + d.reqLen ≤ frameSz
  | .drop | .wrongChecksum _ | .arpRequest _ _ | .arpReply _ _ => True

namespace Net

section Rounds

variable {s t : Net} {p : List Nat} {n eth len : Nat} {pkt : Packet}

/-- What `send_icmp_dest_unreach` sends, if that fits. -/
theorem sendIcmpDestUnreach_frames {ipif : IpIface} {req reqLen code : Nat} (hp : PoolInv s p)
    (h : FramesOk s) (hfit : 42 + reqLen ≤ frameSz)
    (hsend : s.sendIcmpDestUnreach ipif req reqLen code = .ok t) : FramesOk t := by
  unfold sendIcmpDestUnreach at hsend
  split at hsend
  · obtain rfl := Except.ok.inj hsend
    exact h
  · rename_i eth u hget
    obtain ⟨n, hn, hfree, rfl, rfl⟩ := framesGet_eq_some hget
    replace hsend := hsend.symm.trans (send_fresh hn hfree)
    obtain rfl := Except.ok.inj hsend
    exact h.wrote samePool_emitted (writes_emitted (agreeOutside_message hfit rfl rfl rfl)
      (.inr (unreachable_message hfit rfl rfl rfl))) fun m hm =>
        List.mem_singleton.mp hm ▸ hp.not_stored hfree

/-- The rule for a frame that is written in its buffer. -/
theorem FramesOk.marked {m : Lib.Mem} (hp : PoolInv s p) (hn : n ∈ p) (h : FramesOk s) {a : Nat}
    (hm : AgreeOutside s.mem m [n]) : FramesOk (s.setMem a m) := by
  have hpool : SamePool s (s.setMem a m) := samePool_of_eq rfl
  exact h.wrote hpool (writes_of_eq hm rfl rfl) fun _ hk => List.mem_singleton.mp hk ▸ hp.hand_not_stored hn

/-- And sent where it stands. -/
theorem FramesOk.resent {m : Lib.Mem} (hp : PoolInv s p) (hn : n ∈ p) (h : FramesOk s) {a k : Nat}
    (hm : AgreeOutside s.mem m [n]) (hgood : TxFrame.Good ⟨k, fun i => m (a + i)⟩) :
    FramesOk ((s.setMem a m).sendToEthDrv a k) :=
  (FramesOk.marked hp hn h hm).still ⟨samePool_sendToEthDrv, writes_sendToEthDrv hgood⟩

theorem Packed.frames (hp : PoolInv s p) (hn : n ∈ p) (heth : eth = n * frameStride) (h : FramesOk s)
    (hlen : len ≤ frameSz) (hread : pkt.Read s.mem eth len) (hfit : s.Answers pkt)
    (hpk : Packed s eth pkt t) : FramesOk t := by
  subst heth
  unfold frameSz at hlen
  cases hpk with
  | drop => exact h
  | @marked off =>
    have hoff : off + 2 ≤ 100 := hread
    have hin : off + 2 ≤ frameStride := by
      unfold frameStride
      omega
    exact h.marked hp hn (agreeOutside_put16 hin)
  | arpReplied =>
    exact h.resent hp hn (agreeOutside_of_agreeOn 0 42 (by decide) fun _ _ _ => agreeOn_arpReply (by omega))
      (good_arpReply hread)
  | arpChecked hudp htcp => exact (arpChecked_keeps (F := True) hp hudp htcp).frames trivial h
  | @echoed hdrlen icmplen =>
    obtain ⟨hhdr, htotal, h4, hle, hproto, hver⟩ := hread
    have h20 : 20 ≤ hdrlen := hfit
    have hh := hdrlen_le s.mem (n * frameStride)
    subst hhdr
    refine h.resent hp hn (agreeOutside_of_agreeOn 0 78 (by decide) fun _ _ _ =>
      agreeOn_echoReply hh (by omega)) (good_of_wellFormed ?_)
    exact wellFormed_echoReply h20 htotal h4 (by unfold frameSz; omega) hproto hver
  | unreach hs => exact sendIcmpDestUnreach_frames hp h hfit hs
  | noTcp hconn hlist hs => exact sendIcmpDestUnreach_frames hp h (hfit hconn hlist) hs
  | noUdp hfind hs => exact sendIcmpDestUnreach_frames hp h (hfit hfind) hs
  | connected hfind hs =>
    exact (hs.drops (F := True) hp (List.mem_of_find?_eq_some hfind) fun _ => hread).frames trivial h
  | fallback _ hfind hs =>
    exact (hs.drops (F := True) hp (List.mem_of_find?_eq_some hfind) fun _ => hread).frames trivial h
  | datagram _ hd => exact h.still hd.still

end Rounds

end Net

/-! ## Runs -/

namespace Emitted

/-- A frame that arrives is answered with a frame that fits. -/
def Fits (s : Net) : Event → Prop
  | .frame bytes =>
    match s.ethBuf with
    | none => True
    | some eth =>
      match (parseEthFrame (s.mem.load eth bytes) eth bytes.length).result with
      | .error _ => True
      | .ok p => s.Answers p.packet
  | .ethGet | .clientGet | .request _ | .wait _ => True

/-- The invariant of a run: every buffer has one owner, and the frames in the sockets are well formed. -/
structure Inv (s : Net) : Prop where
  pool : ∃ lost, Pool.Inv ⟨s, lost⟩
  eth : ∀ a, s.ethBuf = some a → ∃ n, a = n * frameStride
  frames : s.FramesOk

section Steps

open Net

variable {s s' : Net} {e : Event} {lost : List Nat} {n : Nat}

theorem mem_hand (h : n * frameStride ∈ s.ethBuf.toList ++ s.cliBuf.toList) : n ∈ s.inHand ++ lost :=
  List.mem_append_left _ (List.mem_map.mpr ⟨n * frameStride, h, frameOf_start⟩)

/-- A buffer is read into by the thread that has it. -/
theorem loaded_frames {t : Net} (hpool : Pool.Inv ⟨s, lost⟩) (h : s.FramesOk) (hmem : n ∈ s.inHand ++ lost)
    (hs : SamePool s t) (hag : AgreeOutside s.mem t.mem [n]) (hstream : t.stream = s.stream)
    (hout : t.out = s.out) : t.FramesOk :=
  h.wrote hs (writes_of_eq hag hstream hout) fun _ hk =>
    List.mem_singleton.mp hk ▸ hpool.pool.hand_not_stored hmem

theorem framed_frames {bytes : List UInt8} {p : Parsed} {arp : List ArpRecord} {t : Net}
    (hpool : Pool.Inv ⟨s, lost⟩) (h : s.FramesOk) (heth : s.ethBuf = some (n * frameStride))
    (hlen : bytes.length ≤ frameSz)
    (hp : (parseEthFrame (s.mem.load (n * frameStride) bytes) (n * frameStride) bytes.length).result = .ok p)
    (hfits : s.Answers p.packet)
    (hpk : Packed (s.received (n * frameStride) bytes arp) (n * frameStride) p.packet t) : t.FramesOk := by
  have hmem : n ∈ s.inHand ++ lost := mem_hand (by simp [heth])
  have hs : SamePool s (s.received (n * frameStride) bytes arp) :=
    samePool_of_eq rfl
  have hin : 0 + bytes.length ≤ frameStride := by
    unfold frameSz at hlen
    unfold frameStride
    omega
  have hag : AgreeOutside s.mem (s.mem.load (n * frameStride + 0) bytes) [n] := agreeOutside_load hin
  rw [Nat.add_zero] at hag
  have hframes := loaded_frames hpool h hmem hs hag rfl rfl
  have hanswers : (s.received (n * frameStride) bytes arp).Answers p.packet := by
    revert hfits
    cases p.packet <;> exact id
  exact hpk.frames (hpool.pool.same hs) hmem rfl hframes hlen (returns_parseEthFrame p hp) hanswers

theorem Inv.step (h : Inv s) (hfits : Fits s e) (hstep : Tcpip.step s e = .ok s') : Inv s' := by
  obtain ⟨⟨lost, hpool⟩, heth, hframes⟩ := h
  have hpool' : Pool.Inv ⟨s', s.dropped s' ++ lost⟩ :=
    hpool.step (bind_eq_ok.mpr ⟨s', hstep, rfl⟩)
  -- a request is read into the client thread's buffer
  have hrequest : ∀ {r : Request} {n : Nat}, s.cliBuf = some (n * frameStride) →
      hdrsSpace + r.data.length ≤ frameSz → SamePool s (s.receiveRequest r (n * frameStride)) ∧
        (s.receiveRequest r (n * frameStride)).FramesOk := by
    intro r n hbuf hlen
    have hs : SamePool s (s.receiveRequest r (n * frameStride)) :=
      samePool_of_eq rfl
    have hin : hdrsSpace + r.data.length ≤ frameStride := by
      unfold frameSz at hlen
      unfold frameStride
      omega
    exact ⟨hs, loaded_frames hpool hframes (mem_hand (by simp [hbuf])) hs (agreeOutside_load hin) rfl rfl⟩
  cases step_cases hstep with
  | idle => exact ⟨⟨_, hpool'⟩, heth, hframes⟩
  | waited => exact ⟨⟨_, hpool'⟩, heth, hframes.tcp, hframes.udp, hframes.rem, hframes.sent⟩
  | @ethGot n =>
    exact ⟨⟨_, hpool'⟩, fun a ha => ⟨n, (Option.some.inj ha).symm⟩, hframes.tcp, hframes.udp, hframes.rem,
      hframes.sent⟩
  | cliGot => exact ⟨⟨_, hpool'⟩, heth, hframes.tcp, hframes.udp, hframes.rem, hframes.sent⟩
  | @framed bytes eth p arp _ hbuf hlen hp hpk =>
    obtain ⟨n, rfl⟩ := heth eth hbuf
    have hs : SamePool s (s.received (n * frameStride) bytes arp) :=
      samePool_of_eq rfl
    have hhands : SameHands s s' := hs.hands.trans (hpk.drops (hpool.pool.same hs)).hands
    have hanswers : s.Answers p.packet := by
      unfold Fits at hfits
      dsimp only at hfits
      rw [hbuf] at hfits
      dsimp only at hfits
      rw [hp] at hfits
      exact hfits
    exact ⟨⟨_, hpool'⟩, fun a ha => heth a (hhands.eth ▸ ha),
      framed_frames hpool hframes hbuf hlen hp hanswers hpk⟩
  | @requested r frame _ hbuf htakes hr =>
    obtain ⟨n, rfl⟩ := hpool.aligned frame hbuf
    have hlen := htakes.2.2.2
    obtain ⟨hs, hread⟩ := hrequest hbuf hlen
    have hd : Drops True _ s' _ :=
      hr.drops (hpool.pool.same hs) fun _ => ⟨n, mem_hand (by simp [hbuf]), rfl, hlen⟩
    exact ⟨⟨_, hpool'⟩, fun a ha => heth a ((hs.hands.trans hd.hands).eth ▸ ha), hd.frames trivial hread⟩
  | @kept r frame t hbuf htakes hr =>
    obtain ⟨n, rfl⟩ := hpool.aligned frame hbuf
    have hlen := htakes.2.2.2
    obtain ⟨hs, hread⟩ := hrequest hbuf hlen
    have hhand := Pool.inHand_perm_of_cli hbuf
    have hk : Keeps True _ t _ :=
      Requested.stores ((hpool.pool.same hs).perm (hhand.append_right lost)) (fun _ => hlen) hr
    obtain ⟨htcp, hudp, hrem, hsent⟩ := hk.frames trivial hread
    exact ⟨⟨_, hpool'⟩, fun a ha => heth a ((hs.hands.trans hk.hands).eth ▸ ha), htcp, hudp, hrem, hsent⟩

theorem inv_init (key0 key1 : Nat) : Inv (Net.init key0 key1) :=
  ⟨⟨[], Pool.inv_start key0 key1⟩, nofun, nofun, nofun, fun _ => Nat.two_pow_pos 32, nofun⟩

end Steps

instance (s : Net) : (p : Packet) → Decidable (s.Answers p)
  | .echo hdrlen _ => inferInstanceAs (Decidable (20 ≤ hdrlen))
  | .unreach reqLen _ => inferInstanceAs (Decidable (42 + reqLen ≤ frameSz))
  | .tcp seg => inferInstanceAs (Decidable (s.findConnectedSocket seg.dst seg.dport seg.src seg.sport = none →
      s.findListeningSocket seg.dst seg.dport = none → 42 + seg.reqLen ≤ frameSz))
  | .udp d => inferInstanceAs (Decidable (s.findUdpSocket d.dst d.dport = none → 42 + d.reqLen ≤ frameSz))
  | .drop => isTrue trivial
  | .wrongChecksum _ => isTrue trivial
  | .arpRequest _ _ => isTrue trivial
  | .arpReply _ _ => isTrue trivial

instance (s : Net) : (e : Event) → Decidable (Fits s e)
  | .frame bytes => by
    unfold Fits
    dsimp only
    split
    · exact isTrue trivial
    · split
      · exact isTrue trivial
      · infer_instance
  | .ethGet => isTrue trivial
  | .clientGet => isTrue trivial
  | .request _ => isTrue trivial
  | .wait _ => isTrue trivial

end Emitted

end Tcpip
end Wrmos
