import Wrmos.TcpipFrames

/-!
# The TCP/IP server: what the calls of the lower half do

One lemma for each call that takes a buffer, sends a frame or replies to a client: what state it
leaves when it returns.  Later proofs use these and do not look into the calls again.

`Sent` describes `send_tcp_msg`.  Either the frame leaves the server and the pool of buffers is as it
was, or the frame stays with the socket in a buffer that becomes busy, and an ARP request leaves the
server instead.
-/

namespace Wrmos
namespace Tcpip

open Lib

/-- Two memories agree outside some buffers. -/
def AgreeOutside (m m' : Lib.Mem) (ns : List Nat) : Prop := ∀ x, Net.frameOf x ∉ ns → m' x = m x

theorem AgreeOutside.trans {m m' m'' : Lib.Mem} {ns ns' : List Nat} (h : AgreeOutside m m' ns)
    (h' : AgreeOutside m' m'' ns') : AgreeOutside m m'' (ns ++ ns') := fun x hx =>
  (h' x fun h => hx (List.mem_append_right _ h)).trans
    (h x fun h => hx (List.mem_append_left _ h))

/-- What agrees outside a range of one buffer agrees outside that buffer. -/
theorem agreeOutside_of_agreeOn {m m' : Lib.Mem} {n : Nat} (off len : Nat) (hlen : off + len ≤ frameStride)
    (h : ∀ x k, x + k ≤ n * frameStride + off ∨ n * frameStride + off + len ≤ x →
      Mem.AgreeOn m x k m') : AgreeOutside m m' [n] := by
  intro x hx
  refine h x 1 ?_ x (Nat.le_refl x) (by omega)
  have hx' : Net.frameOf x ≠ n := fun hc => hx (List.mem_singleton.mpr hc)
  unfold Net.frameOf at hx'
  unfold frameStride at *
  omega

namespace Net

variable {s s' : Net} {i k flags a buf cli ecode n len off : Nat} {words : List Nat} {bf : Option Buf}

/-- A buffer becomes busy or free. -/
def setBusy (s : Net) (n : Nat) (b : Bool) : Net :=
  { s with busy := fun j => if j = n then b else s.busy j }

@[simp] theorem setTcp_self (f : TcpSocket → TcpSocket) : (s.setTcp i f).tcp i = f (s.tcp i) :=
  if_pos rfl

theorem setTcp_of_ne {j : Nat} (f : TcpSocket → TcpSocket) (h : j ≠ i) :
    (s.setTcp i f).tcp j = s.tcp j := if_neg h

theorem setTcp_congr {f g : TcpSocket → TcpSocket} (h : f (s.tcp i) = g (s.tcp i)) :
    s.setTcp i f = s.setTcp i g := by
  have hfun : (fun j => if j = i then f (s.tcp j) else s.tcp j) =
      fun j => if j = i then g (s.tcp j) else s.tcp j := by
    funext j
    by_cases hj : j = i
    · rw [if_pos hj, if_pos hj, hj, h]
    · rw [if_neg hj, if_neg hj]
  unfold setTcp
  rw [hfun]

/-- A write of what is there. -/
theorem setTcp_eq_self {f : TcpSocket → TcpSocket} (h : f (s.tcp i) = s.tcp i) : s.setTcp i f = s := by
  have hfun : (fun j => if j = i then f (s.tcp j) else s.tcp j) = s.tcp := by
    funext j
    by_cases hj : j = i
    · rw [if_pos hj, hj, h]
    · rw [if_neg hj]
  unfold setTcp
  rw [hfun]

theorem setUdp_eq_self {f : UdpSocket → UdpSocket} (h : f (s.udp i) = s.udp i) : s.setUdp i f = s := by
  have hfun : (fun j => if j = i then f (s.udp j) else s.udp j) = s.udp := by
    funext j
    by_cases hj : j = i
    · rw [if_pos hj, hj, h]
    · rw [if_neg hj]
  unfold setUdp
  rw [hfun]

@[simp] theorem setUdp_self (f : UdpSocket → UdpSocket) : (s.setUdp i f).udp i = f (s.udp i) :=
  if_pos rfl

theorem setUdp_of_ne {j : Nat} (f : UdpSocket → UdpSocket) (h : j ≠ i) :
    (s.setUdp i f).udp j = s.udp j := if_neg h

@[simp] theorem setStream_self (f : Stream → Stream) :
    (s.setStream k f).stream k = f (s.stream k) := if_pos rfl

theorem setStream_of_ne {j : Nat} (f : Stream → Stream) (h : j ≠ k) :
    (s.setStream k f).stream j = s.stream j := if_neg h

theorem frameOf_start : frameOf (n * frameStride) = n := Nat.mul_div_cancel n (by decide)

/-- `Frames_t::get` takes a free buffer. -/
theorem framesGet_eq_some (h : s.framesGet = some (a, s')) :
    ∃ n, n < framesCount ∧ s.busy n = false ∧ a = n * frameStride ∧ s' = s.setBusy n true := by
  obtain ⟨n, hn, heq⟩ := Option.map_eq_some_iff.mp h
  obtain ⟨rfl, rfl⟩ := Prod.mk.inj heq
  have hfree : s.busy n = false := by simpa using List.find?_some hn
  exact ⟨n, List.mem_range.mp (List.mem_of_find?_eq_some hn), hfree, rfl, rfl⟩

/-- `Frames_t::free` frees a busy buffer. -/
theorem framesFree_eq_ok (h : s.framesFree a = .ok s') :
    frameOf a < framesCount ∧ s.busy (frameOf a) = true ∧ s' = s.setBusy (frameOf a) false := by
  unfold framesFree at h
  obtain ⟨h1, h⟩ := ensure_bind_eq_ok.mp h
  obtain ⟨h2, h⟩ := ensure_bind_eq_ok.mp h
  exact ⟨h1.1, h2, (Except.ok.inj h).symm⟩

theorem framesFree_of_busy (ha : frameOf a < framesCount) (hoff : a % frameStride < frameSz)
    (hb : s.busy (frameOf a) = true) : s.framesFree a = .ok (s.setBusy (frameOf a) false) := by
  unfold framesFree
  rw [ensure_bind_of ⟨ha, hoff⟩, ensure_bind_of hb]
  rfl

/-- A buffer that is taken and freed again leaves the pool as it was. -/
theorem busy_twice {busy : Nat → Bool} (h : busy n = false) :
    (fun j => if j = n then false else if j = n then true else busy j) = busy := by
  funext j
  by_cases hj : j = n
  · rw [if_pos hj, hj, h]
  · rw [if_neg hj, if_neg hj]

/-- `reply_to_client` answers a waiting client. -/
theorem replyToClient_eq_ok (h : s.replyToClient cli ecode words bf = .ok (n, s')) :
    cli ≠ 0 ∧ s.blocked cli = true ∧ n = sentLen (s.fitted cli bf) ∧
      s' = { s with
        blocked := fun t => if t = cli then false else s.blocked t
        out := s.out ++ [.reply cli ecode words (s.fitted cli bf)] } := by
  unfold replyToClient at h
  obtain ⟨h1, h⟩ := ensure_bind_eq_ok.mp h
  obtain ⟨h2, h⟩ := ensure_bind_eq_ok.mp h
  obtain ⟨rfl, rfl⟩ := Prod.mk.inj (Except.ok.inj h)
  exact ⟨h1, h2, rfl, rfl⟩

/-- The state after a reply. -/
def replied (s : Net) (cli ecode : Nat) (words : List Nat) (bf : Option Buf) : Net :=
  { s with
    blocked := fun t => if t = cli then false else s.blocked t
    out := s.out ++ [.reply cli ecode words (s.fitted cli bf)] }

theorem sentLen_whole {bytes : List UInt8} :
    sentLen (s.fitted cli (some (.whole bytes))) = (bytes.take (s.room cli)).length := rfl

/-! ## Emitted frames -/

/-- The state after a frame was written at the start of a buffer and sent from there. -/
def emitted (s : Net) (mem : Lib.Mem) (f : TxFrame) : Net :=
  { s with mem := mem, out := s.out ++ [.frame f] }

/-- A frame that is built in a fresh buffer, sent, and its buffer freed. -/
theorem send_fresh {m : Lib.Mem} (hn : n < framesCount) (hfree : s.busy n = false) :
    (((s.setBusy n true).setMem (n * frameStride) m).sendToEthDrv (n * frameStride) len).framesFree
      (n * frameStride) = .ok (s.emitted m ⟨len, fun j => m (n * frameStride + j)⟩) := by
  have hof : frameOf (n * frameStride) = n := frameOf_start
  have hbusy : (((s.setBusy n true).setMem (n * frameStride) m).sendToEthDrv (n * frameStride)
      len).busy n = true := if_pos rfl
  have hoff : n * frameStride % frameStride < frameSz := by
    rw [Nat.mul_mod_left]
    decide
  rw [framesFree_of_busy (by rw [hof]; exact hn) hoff (by rw [hof]; exact hbusy), hof]
  simp only [setBusy, setMem, sendToEthDrv, touch, emitted, hof, if_true, Bool.not_true,
    Bool.or_false, busy_twice hfree]

theorem arpFrame_ok {m : Lib.Mem} {sha spa tpa : Nat} :
    TxFrame.Ok ⟨42, fun j => buildArp (buildEth m a sha macBcast etypeArp) (a + 14) sha spa tpa (a + j)⟩ := by
  intro h
  have hag : Mem.AgreeOn (buildEth m a sha macBcast etypeArp) a 14
      (buildArp (buildEth m a sha macBcast etypeArp) (a + 14) sha spa tpa) :=
    (Mem.agreeOn_put16 (by omega)).trans <| (Mem.agreeOn_put16 (by omega)).trans <|
      (Mem.agreeOn_put8 (by omega)).trans <| (Mem.agreeOn_put8 (by omega)).trans <|
      (Mem.agreeOn_put16 (by omega)).trans <| (Mem.agreeOn_put48 (by omega)).trans <|
      (Mem.agreeOn_put32 (by omega)).trans <| (Mem.agreeOn_put48 (by omega)).trans
      (Mem.agreeOn_put32 (by omega))
  have h12 : (buildArp (buildEth m a sha macBcast etypeArp) (a + 14) sha spa tpa).be16 (a + 12) =
      etypeArp := (hag.be16 (by omega) (by omega)).trans Mem.be16_put16
  exact absurd (h12.symm.trans h) (by decide)

/-- `send_arp_request`. -/
theorem sendArpRequest_eq_ok {ipif : IpIface} {iaddr : Nat} (h : s.sendArpRequest ipif iaddr = .ok s') :
    ∃ n mem f, n < framesCount ∧ s.busy n = false ∧ AgreeOutside s.mem mem [n] ∧ TxFrame.Ok f ∧
      s' = s.emitted mem f := by
  unfold sendArpRequest at h
  split at h
  · cases h
  · rename_i buf t hget
    obtain ⟨n, hn, hfree, rfl, rfl⟩ := framesGet_eq_some hget
    replace h := h.symm.trans (send_fresh hn hfree)
    obtain rfl := Except.ok.inj h
    refine ⟨n, _, _, hn, hfree, ?_, arpFrame_ok, rfl⟩
    refine agreeOutside_of_agreeOn 0 42 (by decide) fun x k hx => ?_
    exact (agreeOn_buildEth (by omega)).trans <| (Mem.agreeOn_put16 (by omega)).trans <|
      (Mem.agreeOn_put16 (by omega)).trans <| (Mem.agreeOn_put8 (by omega)).trans <|
      (Mem.agreeOn_put8 (by omega)).trans <| (Mem.agreeOn_put16 (by omega)).trans <|
      (Mem.agreeOn_put48 (by omega)).trans <| (Mem.agreeOn_put32 (by omega)).trans <|
      (Mem.agreeOn_put48 (by omega)).trans (Mem.agreeOn_put32 (by omega))

/-! ## `send_tcp_msg` -/

theorem findIface_addr {addr : Nat} {f : IpIface} (h : findIface addr = some f) :
    f.addr = addr ∧ f.addr < 2 ^ 32 := by
  have hmem := List.mem_of_find?_eq_some h
  refine ⟨by simpa using List.find?_some h, ?_⟩
  rw [List.mem_singleton.mp hmem]
  decide

theorem findMasked_addr {addr : Nat} {f : IpIface} (h : findMasked addr = some f) :
    f.addr < 2 ^ 32 := by
  rw [List.mem_singleton.mp (List.mem_of_find?_eq_some h)]
  decide

theorem txIface_addr {t : Socket} {remAddr : Nat} {f : IpIface} (h : txIface t remAddr = some f) :
    f.addr < 2 ^ 32 := by
  unfold txIface at h
  split at h
  · exact findMasked_addr h
  · exact (findIface_addr h).2

/-- The state with another ARP cache. -/
def withArp (s : Net) (arp : List ArpRecord) : Net := { s with arp := arp }

/-- `Arp_cache_t::find` changes the cache only. -/
theorem arpFind_eq (ip : Nat) : ∃ arp, (s.arpFind ip).2 = s.withArp arp := by
  unfold arpFind
  split
  · exact ⟨s.arp, rfl⟩
  · split
    · exact ⟨_, rfl⟩
    · exact ⟨s.arp, rfl⟩

/-- The address that is found depends on the cache and the time only. -/
theorem arpFind_congr {t : Net} (harp : t.arp = s.arp) (hnow : t.now = s.now) (ip : Nat) :
    (t.arpFind ip).1 = (s.arpFind ip).1 := by
  unfold arpFind
  rw [harp, hnow]
  cases s.arp.find? fun r => r.ip == ip with
  | none => rfl
  | some r =>
    by_cases ht : r.timeout < s.now
    · simp only [if_pos ht]
    · simp only [if_neg ht]

theorem arpAdd_eq (ip mac : Nat) : ∃ arp, s.arpAdd ip mac = s.withArp arp := by
  unfold arpAdd
  split
  · exact ⟨_, rfl⟩
  · exact ⟨_, rfl⟩

/-- The socket waits with a frame for an ARP reply. -/
def waiting (frame len : Nat) (t : TcpSocket) : TcpSocket :=
  { t with txEthFrame := frame, txEthFrameLen := len, waitArp := true }

/-- A busy buffer may be written. -/
theorem setMem_of_busy {m : Lib.Mem} (h : s.busy (frameOf a) = true) : s.setMem a m = { s with mem := m } := by
  unfold setMem touch
  rw [h, Bool.not_true, Bool.or_false]

/-- What `send_tcp_msg` does. -/
inductive Sent (s : Net) (i k : Nat) : Net → Prop where
  /-- The frame is sent. -/
  | now {arp : List ArpRecord} {mem : Lib.Mem} {f : TxFrame} {n : Nat} (hn : n < framesCount)
      (hfree : s.busy n = false) (hmem : AgreeOutside s.mem mem [n])
      (hf : (s.stream k).remAddr < 2 ^ 32 → f.Ok) :
      Sent s i k ((s.withArp arp).emitted mem f)
  /-- The frame is stored, and an ARP request is sent. -/
  | stored {arp : List ArpRecord} {mem : Lib.Mem} {f : TxFrame} {n n' : Nat} (hn : n < framesCount)
      (hfree : s.busy n = false) (hn' : n' < framesCount) (hfree' : s.busy n' = false) (hne : n' ≠ n)
      (hmem : AgreeOutside s.mem mem [n, n']) (hf : f.Ok) (hwait : (s.tcp i).waitArp = false)
      (hwf : (s.stream k).remAddr < 2 ^ 32 → WellFormed mem (n * frameStride) 74) :
      Sent s i k ((((s.withArp arp).setTcp i (waiting (n * frameStride) 74)).setBusy n true).emitted mem f)

theorem agreeOutside_tcpMsg {m : Lib.Mem} {mac : Nat} {ipif : IpIface} {t : Socket} {st : Stream} :
    AgreeOutside m (tcpMsg m (n * frameStride) ipif mac t st flags) [n] :=
  agreeOutside_of_agreeOn 0 74 (by decide) fun _ _ _ =>
    (agreeOn_buildEth (by omega)).trans <| (agreeOn_buildIp (by omega)).trans
      (agreeOn_buildTcp (by omega))

/-- A frame in one buffer is not touched by what is written into another. -/
theorem wellFormed_agreeOutside {m m' : Lib.Mem} {ns : List Nat} (h : WellFormed m a len)
    (hm : AgreeOutside m m' ns) (hn : ∀ x, a ≤ x → x < a + len → frameOf x ∉ ns) :
    WellFormed m' a len := by
  have hlen := h.headers
  exact h.congr fun x h1 h2 => hm x (hn x (by omega) (by omega))

theorem frameOf_range {x : Nat} (h1 : n * frameStride ≤ x) (h2 : x < n * frameStride + frameStride) :
    frameOf x = n := by
  unfold frameOf
  unfold frameStride at *
  omega

/-- `send_tcp_msg` from the buffer on. -/
theorem sendTcpFrame_sent {t : Net} {arp : List ArpRecord} {mac : Nat} {ipif : IpIface}
    (hn : n < framesCount) (hfree : s.busy n = false) (hs : t = s.withArp arp)
    (hif : ipif.addr < 2 ^ 32)
    (h : (t.setBusy n true).sendTcpFrame i k flags (n * frameStride) mac ipif = .ok s') :
    Sent s i k s' := by
  subst hs
  unfold sendTcpFrame at h
  dsimp only at h
  split at h
  · obtain ⟨hwait, h⟩ := ensure_bind_eq_ok.mp h
    have hbusy : ((s.withArp arp).setBusy n true).busy (frameOf (n * frameStride)) =
        true := if_pos frameOf_start
    rw [setMem_of_busy hbusy] at h
    obtain ⟨n', mem, f, hn', hfree', hmem, hf, rfl⟩ := sendArpRequest_eq_ok h
    have hne : n' ≠ n := by
      rintro rfl
      exact absurd hfree' (by simp [setTcp, setBusy])
    have hfree2 : s.busy n' = false := by simpa [setTcp, setBusy, withArp, hne] using hfree'
    change Sent s i k ((((s.withArp arp).setTcp i (waiting (n * frameStride) 74)).setBusy n true).emitted mem f)
    refine .stored hn hfree hn' hfree2 hne (agreeOutside_tcpMsg.trans hmem) hf ?_ fun hrem => ?_
    · exact hwait
    · refine wellFormed_agreeOutside (wellFormed_tcpMsg hif hrem) hmem fun x h1 h2 => ?_
      rw [frameOf_range h1 (h2.trans_le (Nat.add_le_add_left (by decide) _))]
      simpa using Ne.symm hne
  · replace h := h.symm.trans (send_fresh hn hfree)
    obtain rfl := Except.ok.inj h
    exact .now hn hfree agreeOutside_tcpMsg fun hrem _ =>
      wellFormed_shift.mpr (wellFormed_tcpMsg hif hrem)

/-- **`send_tcp_msg`.** -/
theorem sendTcpMsg_sent (h : s.sendTcpMsg i k flags = .ok s') : Sent s i k s' := by
  unfold sendTcpMsg at h
  obtain ⟨arp, harp⟩ := arpFind_eq (s := s) (s.stream k).remAddr
  dsimp only at h
  rw [harp] at h
  split at h
  · cases h
  · rename_i buf t hget
    obtain ⟨n, hn, hfree, rfl, rfl⟩ := framesGet_eq_some hget
    split at h
    · cases h
    · rename_i ipif hif
      exact sendTcpFrame_sent hn hfree rfl (txIface_addr hif) h

/-- `send_icmp_dest_unreach` leaves the pool as it was. -/
theorem sendIcmpDestUnreach_eq_ok {ipif : IpIface} {ethReq reqLen code : Nat}
    (h : s.sendIcmpDestUnreach ipif ethReq reqLen code = .ok s') :
    s' = s ∨ ∃ mem f, s' = s.emitted mem f := by
  unfold sendIcmpDestUnreach at h
  split at h
  · exact .inl (Except.ok.inj h).symm
  · rename_i eth t hget
    obtain ⟨n, hn, hfree, rfl, rfl⟩ := framesGet_eq_some hget
    replace h := h.symm.trans (send_fresh hn hfree)
    exact .inr ⟨_, _, Except.ok.inj h⟩

/-- A stored frame with its hardware address. -/
def storedMem (m : Lib.Mem) (t : Socket) (sha : Nat) : Lib.Mem := m.put48 t.txEthFrame sha

/-- A stored frame as it is sent. -/
def storedFrame (m : Lib.Mem) (t : Socket) (sha : Nat) : TxFrame :=
  ⟨t.txEthFrameLen, fun j => storedMem m t sha (t.txEthFrame + j)⟩

/-- A stored frame is sent and its buffer freed. -/
theorem sendStored_eq_ok {t : Socket} {sha : Nat} (h : s.sendStored t sha = .ok s') :
    frameOf t.txEthFrame < framesCount ∧ s.busy (frameOf t.txEthFrame) = true ∧
      s' = (s.emitted (storedMem s.mem t sha) (storedFrame s.mem t sha)).setBusy
        (frameOf t.txEthFrame) false := by
  obtain ⟨h1, h2, rfl⟩ := framesFree_eq_ok h
  have hb : s.busy (frameOf t.txEthFrame) = true := h2
  refine ⟨h1, hb, ?_⟩
  rw [setMem_of_busy hb]
  unfold sendToEthDrv touch
  simp only [hb, Bool.not_true, Bool.or_false]
  rfl

end Net

end Tcpip
end Wrmos
