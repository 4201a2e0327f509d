import Wrmos.TcpipClients
import Wrmos.TcpipDemux
import Wrmos.TcpipTx

/-!
# The TCP/IP server: who has the buffers of the pool

A buffer of the pool is busy from `Frames_t::get` to `Frames_t::free`.  In between it is in the hand of the
Ethernet thread or of the client thread, or it is in a socket: a frame that cannot leave because the address
of its receiver is not known stays with its socket.

`PoolInv` says that the busy buffers are the ones in the sockets and the ones of a list `p`, each of them
once.  The list has what the threads hold; a function that takes a buffer for a frame of its own gives it
back or to a socket.  When a TCP socket goes while it waits for an address, nobody frees its buffer:
`dropped` has these, and the book of a run collects them.  A UDP socket that waits has a client whose send is
not over, and cannot be closed.

So at every moment of every run the busy buffers are the ones of the threads, of the sockets and of the book
(`run_ledger`).

A frame may leave long after it was built.  `FramesOk` says that each frame in a socket is well formed and
lies in one buffer; every write goes to a buffer that is free or in the hand of the writer, so the frames stay
as they are.  Both are shown in one pass over what the server does (`Keeps`, `Drops`).
-/

namespace Wrmos
namespace Tcpip

open Lib

/-! ## Frames -/

/-- A destination-unreachable message that fits a buffer.  Its ICMP checksum is what was in the buffer
before. -/
structure TxFrame.Unreachable (f : TxFrame) : Prop where
  etype : f.byte.be16 12 = etypeIp
  size : f.len ≤ frameSz
  total : f.byte.be16 16 + 14 = f.len
  hdrlen : ipHdrlenAt f.byte 0 = 20
  header : inetChecksum f.byte 14 20 0 = 0
  proto : f.byte.byte 23 = protoIcmp
  type : f.byte.byte 34 = 3

/-- A frame that the server may send. -/
def TxFrame.Good (f : TxFrame) : Prop := f.Ok ∨ f.Unreachable

/-- A frame in a socket: it is well formed and lies in one buffer. -/
structure Socket.FrameOk (t : Socket) (m : Lib.Mem) : Prop where
  wellFormed : WellFormed m t.txEthFrame t.txEthFrameLen
  inside : t.txEthFrame % frameStride + t.txEthFrameLen ≤ frameStride

/-- The buffer that a socket keeps while it waits for an address. -/
def Socket.buffers (t : Socket) : List Nat := if t.waitArp then [Net.frameOf t.txEthFrame] else []

/-- A UDP socket that waits for an address has a client whose send is not over. -/
def UdpSocket.WaitsToSend (u : UdpSocket) : Prop := u.waitArp = true → u.cliState = .send

namespace Net

/-- The buffers in the sockets. -/
def stored (s : Net) : List Nat :=
  heldBy s.tcpIds (fun i => (s.tcp i).buffers) ++ heldBy s.udpIds fun i => (s.udp i).buffers

/-- The buffers of the two threads. -/
def inHand (s : Net) : List Nat := (s.ethBuf.toList ++ s.cliBuf.toList).map frameOf

/-- The buffers of the TCP sockets that went between `s` and `s'`. -/
def dropped (s s' : Net) : List Nat :=
  heldBy (s.tcpIds.filter (· ∉ s'.tcpIds)) fun i => (s'.tcp i).buffers

/-- The busy buffers are the ones of the list `p` and the ones in the sockets, each of them once. -/
structure PoolInv (s : Net) (p : List Nat) : Prop where
  ids : IdsOk s
  nodup : (p ++ s.stored).Nodup
  busy : ∀ n, s.busy n = true ↔ n ∈ p ++ s.stored
  inPool : ∀ n ∈ p ++ s.stored, n < framesCount
  sends : ∀ i ∈ s.udpIds, (s.udp i).WaitsToSend

/-- The frames in the sockets are well formed, and so is every frame that has left; the address of the other
end of a stream has 32 bits. -/
structure FramesOk (s : Net) : Prop where
  tcp : ∀ i ∈ s.tcpIds, (s.tcp i).waitArp = true → (s.tcp i).FrameOk s.mem
  udp : ∀ i ∈ s.udpIds, (s.udp i).waitArp = true → (s.udp i).FrameOk s.mem
  rem : ∀ k, (s.stream k).remAddr < 2 ^ 32
  sent : ∀ f, Out.frame f ∈ s.out → f.Good

section Rules

variable {s s' t : Net} {p p' ns : List Nat} {i k n a : Nat}

theorem buffers_of_not_waiting {t : Socket} (h : t.waitArp = false) : t.buffers = [] := by
  unfold Socket.buffers
  rw [h]
  rfl

theorem buffers_of_waiting {t : Socket} (h : t.waitArp = true) : t.buffers = [frameOf t.txEthFrame] := by
  unfold Socket.buffers
  rw [if_pos h]

theorem dropped_of_subset (htcp : s.tcpIds ⊆ s'.tcpIds) : s.dropped s' = [] := by
  have hnone : s.tcpIds.filter (· ∉ s'.tcpIds) = [] :=
    List.filter_eq_nil_iff.mpr fun a ha => by simpa using htcp ha
  unfold dropped
  rw [hnone]
  rfl

theorem dropped_congr (htcp : t.tcpIds = s.tcpIds) : t.dropped s' = s.dropped s' := by
  unfold dropped
  rw [htcp]

theorem filter_erase {l : List Nat} (hl : l.Nodup) (hi : i ∈ l) : l.filter (· ∉ l.erase i) = [i] := by
  have hone : ∀ a ∈ l, decide (a ∉ l.erase i) = (a == i) := fun a ha => by
    by_cases hai : a = i
    · simp [hai, hl.mem_erase_iff]
    · simp [hai, hl.mem_erase_iff, ha]
  rw [List.filter_congr hone, List.filter_beq, List.count_eq_one_of_mem hl hi]
  rfl

theorem dropped_eraseTcp (h : IdsOk s) (hi : i ∈ s.tcpIds) (htcp : s'.tcpIds = s.tcpIds.erase i) :
    s.dropped s' = (s'.tcp i).buffers := by
  unfold dropped
  rw [htcp, filter_erase h.tcp hi]
  exact List.append_nil _

/-! ## Changes of the pool and of the sockets -/

/-- The rule for a change that moves buffers between the list and the sockets. -/
theorem PoolInv.moved (h : PoolInv s p) (hperm : (p ++ s.stored).Perm (p' ++ s'.stored))
    (hbusy : s'.busy = s.busy) (hids : IdsOk s') (hsends : ∀ i ∈ s'.udpIds, (s'.udp i).WaitsToSend) :
    PoolInv s' p' where
  ids := hids
  sends := hsends
  nodup := hperm.nodup_iff.mp h.nodup
  busy := fun n => by
    rw [hbusy, h.busy n]
    exact hperm.mem_iff
  inPool := fun n hn => h.inPool n (hperm.mem_iff.mpr hn)

/-- The list in another order. -/
theorem PoolInv.perm (h : PoolInv s p) (hp : p.Perm p') : PoolInv s p' :=
  h.moved (hp.append_right _) rfl h.ids h.sends

/-- The two threads have what they had. -/
structure SameHands (s s' : Net) : Prop where
  eth : s'.ethBuf = s.ethBuf
  cli : s'.cliBuf = s.cliBuf

theorem SameHands.trans (h : SameHands s s') (h' : SameHands s' t) : SameHands s t :=
  ⟨h'.eth.trans h.eth, h'.cli.trans h.cli⟩

/-- The frame of a socket is the same. -/
structure SameFrame (t t' : Socket) : Prop where
  waitArp : t'.waitArp = t.waitArp
  frame : t'.txEthFrame = t.txEthFrame
  len : t'.txEthFrameLen = t.txEthFrameLen

theorem SameFrame.refl (t : Socket) : SameFrame t t := ⟨rfl, rfl, rfl⟩

theorem SameFrame.trans {u u' u'' : Socket} (h : SameFrame u u') (h' : SameFrame u' u'') : SameFrame u u'' :=
  ⟨h'.waitArp.trans h.waitArp, h'.frame.trans h.frame, h'.len.trans h.len⟩

theorem SameFrame.buffers {u u' : Socket} (h : SameFrame u u') : u'.buffers = u.buffers := by
  unfold Socket.buffers
  rw [h.waitArp, h.frame]

/-- Nothing about the buffers has changed but what is in them. -/
structure SamePool (s s' : Net) : Prop where
  tcpIds : s'.tcpIds = s.tcpIds
  udpIds : s'.udpIds = s.udpIds
  cnt : s.cnt ≤ s'.cnt
  busy : s'.busy = s.busy
  hands : SameHands s s'
  tcp : ∀ i, SameFrame (s.tcp i).toSocket (s'.tcp i).toSocket
  udp : ∀ i, SameFrame (s.udp i).toSocket (s'.udp i).toSocket
  sends : ∀ i, (s.udp i).WaitsToSend → (s'.udp i).WaitsToSend

theorem SamePool.trans (h : SamePool s s') (h' : SamePool s' t) : SamePool s t where
  tcpIds := h'.tcpIds.trans h.tcpIds
  udpIds := h'.udpIds.trans h.udpIds
  cnt := h.cnt.trans h'.cnt
  busy := h'.busy.trans h.busy
  hands := h.hands.trans h'.hands
  tcp := fun i => (h.tcp i).trans (h'.tcp i)
  udp := fun i => (h.udp i).trans (h'.udp i)
  sends := fun i hi => h'.sends i (h.sends i hi)

/-- The rule for a change of what is not about the buffers. -/
theorem samePool_of_eq (h : (s'.tcp, s'.udp, s'.tcpIds, s'.udpIds, s'.cnt, s'.busy, s'.ethBuf, s'.cliBuf) =
    (s.tcp, s.udp, s.tcpIds, s.udpIds, s.cnt, s.busy, s.ethBuf, s.cliBuf)) : SamePool s s' := by
  simp only [Prod.mk.injEq] at h
  obtain ⟨htcp, hudp, htids, huids, hcnt, hbusy, heth, hcli⟩ := h
  exact ⟨htids, huids, hcnt.ge, hbusy, ⟨heth, hcli⟩, fun _ => htcp ▸ .refl _, fun _ => hudp ▸ .refl _,
    fun _ => hudp ▸ id⟩

theorem samePool_setTcp {f : TcpSocket → TcpSocket}
    (h : SameFrame (s.tcp i).toSocket (f (s.tcp i)).toSocket) : SamePool s (s.setTcp i f) := by
  refine ⟨rfl, rfl, le_rfl, rfl, ⟨rfl, rfl⟩, fun j => ?_, fun _ => .refl _, fun _ => id⟩
  by_cases hj : j = i
  · subst hj
    rw [setTcp_self]
    exact h
  · rw [setTcp_of_ne f hj]
    exact .refl _

theorem samePool_setUdp {f : UdpSocket → UdpSocket}
    (h : SameFrame (s.udp i).toSocket (f (s.udp i)).toSocket)
    (hsends : (s.udp i).WaitsToSend → (f (s.udp i)).WaitsToSend) : SamePool s (s.setUdp i f) := by
  refine ⟨rfl, rfl, le_rfl, rfl, ⟨rfl, rfl⟩, fun _ => .refl _, fun j => ?_, fun j => ?_⟩
  · by_cases hj : j = i
    · subst hj
      rw [setUdp_self]
      exact h
    · rw [setUdp_of_ne f hj]
      exact .refl _
  · by_cases hj : j = i
    · subst hj
      rw [setUdp_self]
      exact hsends
    · rw [setUdp_of_ne f hj]
      exact id

theorem SamePool.stored (h : SamePool s s') : s'.stored = s.stored := by
  unfold Net.stored
  rw [h.tcpIds, h.udpIds, heldBy_congr fun i _ => (h.tcp i).buffers,
    heldBy_congr fun i _ => (h.udp i).buffers]

theorem PoolInv.same (h : PoolInv s p) (hs : SamePool s s') : PoolInv s' p :=
  h.moved (hs.stored ▸ .refl _) hs.busy (h.ids.same hs.tcpIds hs.udpIds hs.cnt) fun i hi =>
    hs.sends i (h.sends i (hs.udpIds ▸ hi))

/-! ## What is written and what leaves -/

/-- What is written goes to the buffers `ns`, and what leaves is good. -/
structure Writes (s s' : Net) (ns : List Nat) : Prop where
  mem : AgreeOutside s.mem s'.mem ns
  rem : ∀ k, (s.stream k).remAddr < 2 ^ 32 → (s'.stream k).remAddr < 2 ^ 32
  out : ∀ f, Out.frame f ∈ s'.out → Out.frame f ∈ s.out ∨ f.Good

theorem writes_of_eq (hmem : AgreeOutside s.mem s'.mem ns) (hstream : s'.stream = s.stream)
    (hout : s'.out = s.out) : Writes s s' ns :=
  ⟨hmem, fun _ => hstream ▸ id, fun _ hf => .inl (hout ▸ hf)⟩

theorem agreeOutside_refl {m : Lib.Mem} : AgreeOutside m m [] := fun _ _ => rfl

/-- Nothing more is written afterwards. -/
theorem Writes.then (h : Writes s s' ns) (h' : Writes s' t []) : Writes s t ns where
  mem := fun x hx => (h'.mem x List.not_mem_nil).trans (h.mem x hx)
  rem := fun k hk => h'.rem k (h.rem k hk)
  out := fun f hf => (h'.out f hf).elim (h.out f) .inr

theorem out_concat_frame {out : List Out} {f g : TxFrame} (hg : g.Good)
    (hf : Out.frame f ∈ out ++ [.frame g]) : Out.frame f ∈ out ∨ f.Good := by
  rcases List.mem_append.mp hf with hf | hf
  · exact .inl hf
  · obtain rfl := Out.frame.inj (List.mem_singleton.mp hf)
    exact .inr hg

/-- Nothing about the buffers has changed. -/
structure Still (s s' : Net) : Prop where
  pool : SamePool s s'
  writes : Writes s s' []

theorem Still.trans (h : Still s s') (h' : Still s' t) : Still s t :=
  ⟨h.pool.trans h'.pool, h.writes.then h'.writes⟩

theorem still_of_eq (hpool : SamePool s s') (hmem : s'.mem = s.mem) (hstream : s'.stream = s.stream)
    (hout : s'.out = s.out) : Still s s' :=
  ⟨hpool, writes_of_eq (fun _ _ => by rw [hmem]) hstream hout⟩

theorem Still.refl (s : Net) : Still s s :=
  still_of_eq (samePool_of_eq rfl) rfl rfl rfl

theorem still_setTcp {f : TcpSocket → TcpSocket} (h : SameFrame (s.tcp i).toSocket (f (s.tcp i)).toSocket) :
    Still s (s.setTcp i f) := still_of_eq (samePool_setTcp h) rfl rfl rfl

theorem still_setUdp {f : UdpSocket → UdpSocket} (h : SameFrame (s.udp i).toSocket (f (s.udp i)).toSocket)
    (hsends : (s.udp i).WaitsToSend → (f (s.udp i)).WaitsToSend) : Still s (s.setUdp i f) :=
  still_of_eq (samePool_setUdp h hsends) rfl rfl rfl

/-- The rule for streams that are written. -/
theorem still_streams (l : NodeList Unit) (st : Nat → Stream)
    (h : ∀ k, (s.stream k).remAddr < 2 ^ 32 → (st k).remAddr < 2 ^ 32) :
    Still s { s with allstreams := l, stream := st } :=
  ⟨samePool_of_eq rfl, agreeOutside_refl, h, fun _ => .inl⟩

theorem still_setStream {f : Stream → Stream} (h : (f (s.stream k)).remAddr = (s.stream k).remAddr) :
    Still s (s.setStream k f) := by
  refine still_streams s.allstreams _ fun j hj => ?_
  by_cases hjk : j = k
  · subst hjk
    rw [if_pos rfl, h]
    exact hj
  · rw [if_neg hjk]
    exact hj

/-- The rule for a new stream. -/
theorem still_newStream (l : NodeList Unit) (k : Nat) (st : Stream) (hst : st.remAddr < 2 ^ 32) :
    Still s { s with allstreams := l, stream := fun j => if j = k then st else s.stream j } := by
  refine still_streams l _ fun j hj => ?_
  by_cases hjk : j = k
  · rw [if_pos hjk]
    exact hst
  · rw [if_neg hjk]
    exact hj

/-! ## The frames in the sockets -/

theorem mem_stored_tcp (hi : i ∈ s.tcpIds) (hw : (s.tcp i).waitArp = true) :
    frameOf (s.tcp i).txEthFrame ∈ s.stored := by
  refine List.mem_append_left _ (List.mem_flatMap.mpr ⟨i, hi, ?_⟩)
  rw [buffers_of_waiting hw]
  exact List.mem_singleton_self _

theorem mem_stored_udp (hi : i ∈ s.udpIds) (hw : (s.udp i).waitArp = true) :
    frameOf (s.udp i).txEthFrame ∈ s.stored := by
  refine List.mem_append_right _ (List.mem_flatMap.mpr ⟨i, hi, ?_⟩)
  rw [buffers_of_waiting hw]
  exact List.mem_singleton_self _

/-- A buffer that is free is in no socket. -/
theorem PoolInv.not_stored (h : PoolInv s p) (hfree : s.busy n = false) : n ∉ s.stored := fun hn => by
  have hb := (h.busy n).mpr (List.mem_append_right p hn)
  rw [hfree] at hb
  cases hb

/-- And so is a buffer that is in a hand. -/
theorem PoolInv.hand_not_stored (h : PoolInv s p) (hn : n ∈ p) : n ∉ s.stored := fun hs =>
  (List.nodup_append.mp h.nodup).2.2 n hn n hs rfl

/-- A frame is not touched by what is written into other buffers. -/
theorem frameOk_agreeOutside {u u' : Socket} {m m' : Lib.Mem} (h : u.FrameOk m) (hu : SameFrame u u')
    (hm : AgreeOutside m m' ns) (hn : frameOf u.txEthFrame ∉ ns) : u'.FrameOk m' := by
  have hin := h.inside
  refine ⟨?_, ?_⟩
  · rw [hu.frame, hu.len]
    refine wellFormed_agreeOutside h.wellFormed hm fun x h1 h2 => ?_
    have hof : frameOf x = frameOf u.txEthFrame := by
      unfold frameOf
      unfold frameStride at *
      omega
    rw [hof]
    exact hn
  · rw [hu.frame, hu.len]
    exact hin

/-- **The rule for what is written**: it goes to buffers that are in no socket. -/
theorem FramesOk.wrote (h : FramesOk s) (hs : SamePool s t) (hw : Writes s t ns)
    (hns : ∀ n ∈ ns, n ∉ s.stored) : FramesOk t where
  tcp := fun i hi hwait => by
    have hi' : i ∈ s.tcpIds := hs.tcpIds ▸ hi
    have hwait' : (s.tcp i).waitArp = true := (hs.tcp i).waitArp.symm.trans hwait
    exact frameOk_agreeOutside (h.tcp i hi' hwait') (hs.tcp i) hw.mem fun hn =>
      hns _ hn (mem_stored_tcp hi' hwait')
  udp := fun i hi hwait => by
    have hi' : i ∈ s.udpIds := hs.udpIds ▸ hi
    have hwait' : (s.udp i).waitArp = true := (hs.udp i).waitArp.symm.trans hwait
    exact frameOk_agreeOutside (h.udp i hi' hwait') (hs.udp i) hw.mem fun hn =>
      hns _ hn (mem_stored_udp hi' hwait')
  rem := fun k => hw.rem k (h.rem k)
  sent := fun f hf => (hw.out f hf).elim (h.sent f) id

theorem FramesOk.still (h : FramesOk s) (hs : Still s t) : FramesOk t :=
  h.wrote hs.pool hs.writes fun _ hn => absurd hn List.not_mem_nil

/-- The rule for the frame of one TCP socket. -/
theorem FramesOk.setTcp {f : TcpSocket → TcpSocket} (h : FramesOk s)
    (hf : (f (s.tcp i)).waitArp = true → (f (s.tcp i)).FrameOk s.mem) : FramesOk (s.setTcp i f) := by
  refine ⟨fun j hj hw => ?_, h.udp, h.rem, h.sent⟩
  by_cases hji : j = i
  · subst hji
    rw [setTcp_self] at hw ⊢
    exact hf hw
  · rw [setTcp_of_ne f hji] at hw ⊢
    exact h.tcp j hj hw

/-- The rule for the frame of one UDP socket. -/
theorem FramesOk.setUdp {f : UdpSocket → UdpSocket} (h : FramesOk s)
    (hf : (f (s.udp i)).waitArp = true → (f (s.udp i)).FrameOk s.mem) : FramesOk (s.setUdp i f) := by
  refine ⟨h.tcp, fun j hj hw => ?_, h.rem, h.sent⟩
  by_cases hji : j = i
  · subst hji
    rw [setUdp_self] at hw ⊢
    exact hf hw
  · rw [setUdp_of_ne f hji] at hw ⊢
    exact h.udp j hj hw

/-! ## Buffers come and go -/

/-- A buffer is taken out of the pool. -/
theorem PoolInv.taken (h : PoolInv s p) (hn : n < framesCount) (hfree : s.busy n = false) :
    PoolInv (s.setBusy n true) (n :: p) where
  ids := h.ids.same rfl rfl le_rfl
  sends := h.sends
  nodup := by
    refine List.nodup_cons.mpr ⟨fun hm => ?_, h.nodup⟩
    have hb := (h.busy n).mpr hm
    rw [hfree] at hb
    cases hb
  busy := fun j => by
    by_cases hj : j = n
    · exact iff_of_true (if_pos hj) (hj ▸ List.mem_cons_self)
    · have hb : (s.setBusy n true).busy j = s.busy j := if_neg hj
      rw [hb, h.busy j]
      exact (List.mem_cons.trans (or_iff_right hj)).symm
  inPool := fun j hj => by
    rcases List.mem_cons.mp hj with rfl | hj
    · exact hn
    · exact h.inPool j hj

/-- A buffer is given back. -/
theorem PoolInv.freed (h : PoolInv s (n :: p)) : PoolInv (s.setBusy n false) p where
  ids := h.ids.same rfl rfl le_rfl
  sends := h.sends
  nodup := (List.nodup_cons.mp h.nodup).2
  busy := fun j => by
    by_cases hj : j = n
    · have hb : (s.setBusy n false).busy j = false := if_pos hj
      rw [hb]
      exact iff_of_false nofun (hj ▸ (List.nodup_cons.mp h.nodup).1)
    · have hb : (s.setBusy n false).busy j = s.busy j := if_neg hj
      rw [hb, h.busy j]
      exact List.mem_cons.trans (or_iff_right hj)
  inPool := fun j hj => h.inPool j (List.mem_cons_of_mem n hj)

/-- The rule for a change of one TCP socket. -/
theorem PoolInv.setTcp {f : TcpSocket → TcpSocket} (h : PoolInv s p) (hi : i ∈ s.tcpIds)
    (hperm : (p ++ (s.tcp i).buffers).Perm (p' ++ (f (s.tcp i)).buffers)) : PoolInv (s.setTcp i f) p' := by
  refine h.moved ?_ rfl (h.ids.same rfl rfl le_rfl) h.sends
  unfold stored
  rw [← List.append_assoc, ← List.append_assoc]
  refine List.Perm.append_right _ (perm_heldBy_update h.ids.tcp hi (fun j _ hj => ?_) ?_)
  · rw [setTcp_of_ne f hj]
  · rw [setTcp_self]
    exact hperm

/-- The rule for a change of one UDP socket. -/
theorem PoolInv.setUdp {f : UdpSocket → UdpSocket} (h : PoolInv s p) (hi : i ∈ s.udpIds)
    (hperm : (p ++ (s.udp i).buffers).Perm (p' ++ (f (s.udp i)).buffers))
    (hsends : (f (s.udp i)).WaitsToSend) : PoolInv (s.setUdp i f) p' := by
  refine h.moved ?_ rfl (h.ids.same rfl rfl le_rfl) fun j hj => ?_
  · unfold stored
    refine (List.perm_append_comm_assoc _ _ _).trans (.trans ?_ (List.perm_append_comm_assoc _ _ _).symm)
    refine List.Perm.append_left _ (perm_heldBy_update h.ids.udp hi (fun j _ hj => ?_) ?_)
    · rw [setUdp_of_ne f hj]
    · rw [setUdp_self]
      exact hperm
  · by_cases hji : j = i
    · subst hji
      rw [setUdp_self]
      exact hsends
    · rw [setUdp_of_ne f hji]
      exact h.sends j hj

/-- The rule for a TCP socket that goes: nobody frees its buffer. -/
theorem PoolInv.eraseTcp (h : PoolInv s p) (hi : i ∈ s.tcpIds) {l : NodeList Unit} :
    PoolInv { s with allstreams := l, tcpIds := s.tcpIds.erase i } ((s.tcp i).buffers ++ p) := by
  refine h.moved ?_ rfl (h.ids.eraseTcp rfl rfl le_rfl) h.sends
  unfold stored
  refine (((heldBy_perm hi).append_right _).append_left p).trans ?_
  rw [List.append_assoc, List.append_assoc]
  exact List.perm_append_comm_assoc _ _ _

/-- The rule for a UDP socket that goes: it does not wait for an address. -/
theorem PoolInv.eraseUdp (h : PoolInv s p) (hi : i ∈ s.udpIds) (hnone : (s.udp i).buffers = []) :
    PoolInv { s with udpIds := s.udpIds.erase i } p := by
  refine h.moved ?_ rfl (h.ids.eraseUdp rfl rfl le_rfl) fun j hj => h.sends j (List.mem_of_mem_erase hj)
  have hold := heldBy_perm (f := fun j => (s.udp j).buffers) hi
  rw [hnone, List.nil_append] at hold
  exact (hold.append_left _).append_left p

end Rules

section Cases

variable {F : Prop} {s t u : Net} {p : List Nat} {r : Request} {seg : Seg} {i k frame n : Nat}

/-- The sockets that were there still are, and the list has not changed.  With `F` the frames are as they
should be afterwards. -/
structure Keeps (F : Prop) (s t : Net) (p : List Nat) : Prop where
  pool : PoolInv t p
  tcpIds : s.tcpIds ⊆ t.tcpIds
  hands : SameHands s t
  frames : F → FramesOk s → FramesOk t

/-- What the sockets that went have is on the list. -/
structure Drops (F : Prop) (s t : Net) (p : List Nat) : Prop where
  pool : PoolInv t (s.dropped t ++ p)
  hands : SameHands s t
  frames : F → FramesOk s → FramesOk t

/-- The rule for a change that writes. -/
theorem PoolInv.wrote (h : PoolInv s p) (hs : SamePool s t)
    (hw : F → FramesOk s → ∃ ns, Writes s t ns ∧ ∀ n ∈ ns, n ∉ s.stored) : Keeps F s t p := by
  refine ⟨h.same hs, hs.tcpIds ▸ List.Subset.refl _, hs.hands, fun hF hf => ?_⟩
  obtain ⟨ns, hwrites, hns⟩ := hw hF hf
  exact hf.wrote hs hwrites hns

theorem PoolInv.keeps (h : PoolInv s p) (hs : Still s t) : Keeps F s t p :=
  h.wrote hs.pool fun _ _ => ⟨[], hs.writes, fun _ hn => absurd hn List.not_mem_nil⟩

theorem Keeps.trans (h : Keeps F s t p) (h' : Keeps F t u p) : Keeps F s u p :=
  ⟨h'.pool, List.Subset.trans h.tcpIds h'.tcpIds, h.hands.trans h'.hands, fun hF hf =>
    h'.frames hF (h.frames hF hf)⟩

theorem Keeps.same (h : Keeps F s t p) (hs : Still t u) : Keeps F s u p := h.trans (h.pool.keeps hs)

theorem Keeps.drops (h : Keeps F s t p) : Drops F s t p := by
  refine ⟨?_, h.hands, h.frames⟩
  rw [dropped_of_subset h.tcpIds]
  exact h.pool

theorem Drops.same (h : Drops F s t p) (hs : Still t u) : Drops F s u p := by
  refine ⟨?_, h.hands.trans hs.pool.hands, fun hF hf => (h.frames hF hf).still hs⟩
  have hd : s.dropped u = s.dropped t := by
    unfold dropped
    rw [hs.pool.tcpIds, heldBy_congr fun i _ => (hs.pool.tcp i).buffers]
  rw [hd]
  exact h.pool.same hs.pool

/-- What comes after a change that keeps the list of sockets. -/
theorem Keeps.then (h : Keeps F s t p) (hids : t.tcpIds = s.tcpIds) (h' : Drops F t u p) : Drops F s u p :=
  ⟨dropped_congr hids ▸ h'.pool, h.hands.trans h'.hands, fun hF hf => h'.frames hF (h.frames hF hf)⟩

theorem PoolInv.then (h : PoolInv s p) (hs : Still s t) (h' : Drops F t u p) : Drops F s u p :=
  (h.keeps hs).then hs.pool.tcpIds h'

/-- The rule for a new TCP socket, which does not wait. -/
theorem PoolInv.newTcp (h : PoolInv s p) (hids : t.tcpIds = s.tcpIds ++ [s.cnt + 1])
    (hudpIds : t.udpIds = s.udpIds) (hcnt : t.cnt = s.cnt + 1) (hbusy : t.busy = s.busy)
    (hudp : t.udp = s.udp) (hold : ∀ j ∈ s.tcpIds, t.tcp j = s.tcp j)
    (hnone : (t.tcp (s.cnt + 1)).waitArp = false) (hands : SameHands s t) (hmem : t.mem = s.mem)
    (hstream : t.stream = s.stream) (hout : t.out = s.out) : Keeps F s t p := by
  refine ⟨h.moved ?_ hbusy (h.ids.newTcp hids hudpIds hcnt) fun j hj => hudp ▸ h.sends j (hudpIds ▸ hj),
    hids ▸ List.subset_append_left _ _, hands, fun _ hf => ⟨fun j hj hw => ?_, ?_, hstream ▸ hf.rem,
      hout ▸ hf.sent⟩⟩
  · unfold stored
    rw [hids, hudpIds, hudp, heldBy_concat, buffers_of_not_waiting hnone, List.append_nil,
      heldBy_congr fun j hj => congrArg (fun t : TcpSocket => t.buffers) (hold j hj)]
  · rw [hids] at hj
    rcases List.mem_append.mp hj with hj | hj
    · rw [hold j hj] at hw ⊢
      exact hmem ▸ hf.tcp j hj hw
    · rw [List.mem_singleton.mp hj, hnone] at hw
      cases hw
  · rw [hudpIds, hudp, hmem]
    exact hf.udp

/-- The rule for a new UDP socket. -/
theorem PoolInv.newUdp (h : PoolInv s p) (hids : t.udpIds = s.udpIds ++ [s.cnt + 1])
    (htcpIds : t.tcpIds = s.tcpIds) (hcnt : t.cnt = s.cnt + 1) (hbusy : t.busy = s.busy)
    (htcp : t.tcp = s.tcp) (hold : ∀ j ∈ s.udpIds, t.udp j = s.udp j)
    (hnone : (t.udp (s.cnt + 1)).waitArp = false) (hands : SameHands s t) (hmem : t.mem = s.mem)
    (hstream : t.stream = s.stream) (hout : t.out = s.out) : Keeps F s t p := by
  refine ⟨h.moved ?_ hbusy (h.ids.newUdp htcpIds hids hcnt) fun j hj => ?_,
    htcpIds ▸ List.Subset.refl _, hands, fun _ hf => ⟨?_, fun j hj hw => ?_, hstream ▸ hf.rem,
      hout ▸ hf.sent⟩⟩
  · unfold stored
    rw [hids, htcpIds, htcp, heldBy_concat, buffers_of_not_waiting hnone, List.append_nil,
      heldBy_congr fun j hj => congrArg (fun u : UdpSocket => u.buffers) (hold j hj)]
  · rw [hids] at hj
    rcases List.mem_append.mp hj with hj | hj
    · rw [hold j hj]
      exact h.sends j hj
    · rw [List.mem_singleton.mp hj]
      exact fun hw => absurd (hnone.symm.trans hw) Bool.false_ne_true
  · rw [htcpIds, htcp, hmem]
    exact hf.tcp
  · rw [hids] at hj
    rcases List.mem_append.mp hj with hj | hj
    · rw [hold j hj] at hw ⊢
      exact hmem ▸ hf.udp j hj hw
    · rw [List.mem_singleton.mp hj, hnone] at hw
      cases hw

/-! ## What leaves the buffers alone -/

theorem samePool_emitted {mem : Lib.Mem} {f : TxFrame} : SamePool s (s.emitted mem f) :=
  samePool_of_eq rfl

theorem writes_emitted {mem : Lib.Mem} {f : TxFrame} {ns : List Nat} (h : AgreeOutside s.mem mem ns)
    (hf : f.Good) : Writes s (s.emitted mem f) ns :=
  ⟨h, fun _ => id, fun _ => out_concat_frame hf⟩

theorem samePool_sendToEthDrv {a len : Nat} : SamePool s (s.sendToEthDrv a len) :=
  samePool_of_eq rfl

theorem writes_sendToEthDrv {a len : Nat} (h : TxFrame.Good ⟨len, fun i => s.mem (a + i)⟩) :
    Writes s (s.sendToEthDrv a len) [] :=
  ⟨agreeOutside_refl, fun _ => id, fun _ => out_concat_frame h⟩

theorem still_replied {cli ecode : Nat} {words : List Nat} {bf : Option Buf} :
    Still s (s.replied cli ecode words bf) := by
  refine ⟨samePool_of_eq rfl, agreeOutside_refl, fun _ => id, fun f hf => ?_⟩
  rcases List.mem_append.mp hf with hf | hf
  · exact .inl hf
  · cases List.mem_singleton.mp hf

theorem still_touch {a : Nat} : Still s (s.touch a) :=
  still_of_eq (samePool_of_eq rfl) rfl rfl rfl

theorem still_tcpIdle : Still s (s.tcpIdle i) := by
  unfold tcpIdle
  exact still_setTcp ⟨rfl, rfl, rfl⟩

theorem still_udpIdle (hnone : (s.udp i).waitArp = false) : Still s (s.udpIdle i) := by
  unfold udpIdle
  exact still_setUdp ⟨rfl, rfl, rfl⟩ fun _ hw => absurd (hnone.symm.trans hw) Bool.false_ne_true

theorem still_answered {ecode : Nat} {words : List Nat} {bf : Option Buf} :
    Still s (s.answered i ecode words bf) := still_replied.trans still_tcpIdle

theorem sendIcmpDestUnreach_samePool {ipif : IpIface} {ethReq reqLen code : Nat}
    (h : s.sendIcmpDestUnreach ipif ethReq reqLen code = .ok t) : SamePool s t := by
  rcases sendIcmpDestUnreach_eq_ok h with rfl | ⟨mem, f, rfl⟩
  · exact (Still.refl _).pool
  · exact samePool_emitted

theorem still_autoBindTcp {ifaddr : Nat} : Still s (s.autoBindTcp i ifaddr) := by
  obtain ⟨f, port, hbind, hf⟩ := autoBindTcp_eq s i ifaddr
  rw [hbind]
  have hset : Still s (s.setTcp i fun t => { t with toSocket := f t.toSocket }) := by
    refine still_setTcp ?_
    obtain ⟨b, addr, port, hft⟩ := hf (s.tcp i).toSocket
    change SameFrame (s.tcp i).toSocket (f (s.tcp i).toSocket)
    rw [hft]
    exact ⟨rfl, rfl, rfl⟩
  exact hset.trans (still_of_eq (samePool_of_eq rfl) rfl rfl rfl)

theorem still_autoBindUdp {ifaddr : Nat} : Still s (s.autoBindUdp i ifaddr) := by
  obtain ⟨f, port, hbind, hf⟩ := autoBindUdp_eq s i ifaddr
  rw [hbind]
  obtain ⟨b, addr, port', hft⟩ := hf (s.udp i).toSocket
  have hset : Still s (s.setUdp i fun u => { u with toSocket := f u.toSocket }) := by
    refine still_setUdp ?_ fun hs hw => hs ?_
    · change SameFrame (s.udp i).toSocket (f (s.udp i).toSocket)
      rw [hft]
      exact ⟨rfl, rfl, rfl⟩
    · have hw' : (f (s.udp i).toSocket).waitArp = true := hw
      rw [hft] at hw'
      exact hw'
  exact hset.trans (still_of_eq (samePool_of_eq rfl) rfl rfl rfl)

theorem samePool_tcpBuilt {ifaddr len : Nat} {arp : List ArpRecord} {mem : Lib.Mem} :
    SamePool s (s.tcpBuilt i k frame ifaddr arp mem len) :=
  still_autoBindTcp.pool.trans (samePool_of_eq rfl)

theorem writes_tcpBuilt {ifaddr len : Nat} {arp : List ArpRecord} {mem : Lib.Mem} {ns : List Nat}
    (hmem : AgreeOutside s.mem mem ns) : Writes s (s.tcpBuilt i k frame ifaddr arp mem len) ns := by
  have hset : Writes s (((s.autoBindTcp i ifaddr).withArp arp).setMem frame mem) ns :=
    ⟨hmem, still_autoBindTcp.writes.rem, still_autoBindTcp.writes.out⟩
  exact hset.then (still_setStream rfl).writes

theorem samePool_udpBuilt {ifaddr : Nat} {arp : List ArpRecord} {mem : Lib.Mem} :
    SamePool s (s.udpBuilt i frame ifaddr arp mem) :=
  still_autoBindUdp.pool.trans (samePool_of_eq rfl)

theorem writes_udpBuilt {ifaddr : Nat} {arp : List ArpRecord} {mem : Lib.Mem} {ns : List Nat}
    (hmem : AgreeOutside s.mem mem ns) : Writes s (s.udpBuilt i frame ifaddr arp mem) ns :=
  ⟨hmem, still_autoBindUdp.writes.rem, still_autoBindUdp.writes.out⟩

/-! ## A segment -/

/-- `send_tcp_msg` takes one buffer, and gives it back or to the socket. -/
theorem Sent.keeps (h : PoolInv s p) (hi : i ∈ s.tcpIds) (hs : Sent s i k t) : Keeps F s t p := by
  have hsame : ∀ {arp : List ArpRecord} {mem : Lib.Mem} {f : TxFrame},
      SamePool s ((s.withArp arp).emitted mem f) := samePool_of_eq rfl
  cases hs with
  | @now arp mem f n _ hfree hmem hf =>
    refine h.wrote hsame fun _ hframes => ⟨[n], ⟨hmem, fun _ => id, fun _ => ?_⟩, fun m hm => ?_⟩
    · exact out_concat_frame (.inl (hf (hframes.rem k)))
    · exact List.mem_singleton.mp hm ▸ h.not_stored hfree
  | @stored arp mem f n n' hn hfree _ hfree' _ hmem hf hwait hwf =>
    have harp : SamePool s (s.withArp arp) := samePool_of_eq rfl
    have htaken : PoolInv ((s.withArp arp).setBusy n true) (n :: p) := (h.same harp).taken hn hfree
    have hset : PoolInv (((s.withArp arp).setBusy n true).setTcp i (waiting (n * frameStride) 74)) p := by
      refine htaken.setTcp hi ?_
      have hold : (((s.withArp arp).setBusy n true).tcp i).buffers = [] := buffers_of_not_waiting hwait
      have hnew : (waiting (n * frameStride) 74 (((s.withArp arp).setBusy n true).tcp i)).buffers = [n] := by
        rw [buffers_of_waiting rfl]
        exact congrArg (fun a => [a]) frameOf_start
      rw [hold, hnew, List.append_nil]
      exact (List.perm_append_singleton n p).symm
    refine ⟨hset.same samePool_emitted, List.Subset.refl _, ⟨rfl, rfl⟩, fun _ hframes => ?_⟩
    have hsent : FramesOk ((s.withArp arp).emitted mem f) := by
      refine hframes.wrote hsame ⟨hmem, fun _ => id, fun _ => out_concat_frame (.inl hf)⟩ fun m hm => ?_
      rcases List.mem_cons.mp hm with rfl | hm
      · exact h.not_stored hfree
      · exact List.mem_singleton.mp hm ▸ h.not_stored hfree'
    have hin : n * frameStride % frameStride + 74 ≤ frameStride := by
      rw [Nat.mul_mod_left]
      decide
    have hstored := hsent.setTcp (i := i) (f := waiting (n * frameStride) 74) fun _ =>
      ⟨hwf (hframes.rem k), hin⟩
    exact ⟨hstored.tcp, hstored.udp, hstored.rem, hstored.sent⟩

theorem Sent.sameIds (hs : Sent s i k t) : t.tcpIds = s.tcpIds := by
  cases hs with
  | now => rfl
  | stored => rfl

/-- A segment is sent for a stream that was written before. -/
theorem Sent.keepsAfter (h : PoolInv s p) (hs : Still s u) (hi : i ∈ s.tcpIds) (hsent : Sent u i k t) :
    Keeps F s t p :=
  (h.keeps hs).trans (hsent.keeps (h.same hs.pool) (hs.pool.tcpIds ▸ hi))

theorem processRst_keeps (h : PoolInv s p) (hi : i ∈ s.tcpIds) (hrst : s.processRst i k = .ok t) :
    Keeps F s t p := by
  obtain ⟨u, hsent, -, -, rfl⟩ := processRst_cases hrst
  exact (hsent.keepsAfter h (still_setStream rfl) hi).same ((still_setStream rfl).trans still_answered)

theorem processRst_sameIds (hrst : s.processRst i k = .ok t) : t.tcpIds = s.tcpIds := by
  obtain ⟨u, hsent, -, -, rfl⟩ := processRst_cases hrst
  exact hsent.sameIds

/-- The socket for the stream that is accepted. -/
theorem PoolInv.accepted (h : PoolInv s p) (k iaddr : Nat) :
    Keeps F s (s.accepted i k (s.cnt + 1) iaddr) p := by
  unfold Net.accepted
  dsimp only
  generalize hu : ({ s with
      cnt := s.cnt + 1
      tcpIds := s.tcpIds ++ [s.cnt + 1]
      tcp := fun l => if l = s.cnt + 1 then _ else s.tcp l } : Net) = u
  have hnew : Keeps F s u p := by
    rw [← hu]
    refine h.newTcp rfl rfl rfl rfl rfl (fun l hl => if_neg ?_) ?_ ⟨rfl, rfl⟩ rfl rfl rfl
    · exact fun hc => absurd (h.ids.tcpFresh l hl) (by omega)
    · exact congrArg (fun t : TcpSocket => t.waitArp) (if_pos rfl)
  have hrem : Still u (u.remFromQueue i k) := by
    unfold remFromQueue
    split
    · exact .refl u
    · exact still_setTcp ⟨rfl, rfl, rfl⟩
  exact hnew.same (hrem.trans (still_setTcp ⟨rfl, rfl, rfl⟩))

theorem Accepted.keeps (h : PoolInv s p) (hacc : Accepted s i k t) : Keeps F s t p := by
  cases hacc with
  | full => exact h.keeps still_answered
  | done => exact (h.accepted k _).same still_answered

theorem still_delivered {cli : Nat} : Still s (s.delivered k cli) := by
  unfold delivered
  exact still_replied.trans (still_setStream rfl)

theorem Pushed.still (hpush : Pushed s i seg k t) : Still s t := by
  cases hpush with
  | kept => exact .refl s
  | delivered => exact still_delivered.trans still_tcpIdle

theorem Finished.keeps (h : PoolInv s p) (hi : i ∈ s.tcpIds) (hfin : Finished s i seg k t) :
    Keeps F s t p := by
  cases hfin with
  | no => exact h.keeps (.refl s)
  | quiet _ hsent => exact (hsent.keepsAfter h (still_setStream rfl) hi).same (still_setStream rfl)
  | told _ hsent =>
    refine (hsent.keepsAfter h (still_setStream rfl) hi).same ?_
    exact ((still_setStream rfl).trans (still_replied.trans (still_setStream rfl))).trans still_tcpIdle

/-- A socket goes: what it has is on the list. -/
theorem Keeps.removed (h : Keeps F s t p) (hids : t.tcpIds = s.tcpIds) (hi : i ∈ t.tcpIds)
    {l : NodeList Unit} :
    Drops F s { t with allstreams := l, tcpIds := t.tcpIds.erase i } p := by
  have hd : t.dropped { t with allstreams := l, tcpIds := t.tcpIds.erase i } = (t.tcp i).buffers :=
    dropped_eraseTcp h.pool.ids hi rfl
  refine ⟨?_, ⟨h.hands.eth, h.hands.cli⟩, fun hF hf => ?_⟩
  · rw [← dropped_congr hids, hd]
    exact h.pool.eraseTcp hi
  · obtain ⟨htcp, hudp, hrem, hsent⟩ := h.frames hF hf
    exact ⟨fun j hj => htcp j (List.mem_of_mem_erase hj), hudp, hrem, hsent⟩

theorem FinWaited.drops (h : PoolInv s p) (hi : i ∈ s.tcpIds) (hw : FinWaited s i seg k t) :
    Drops F s t p := by
  cases hw with
  | no => exact (h.keeps (.refl s)).drops
  | @closed u l _ _ hsent _ _ _ _ _ hmem =>
    have hset : Still (u.replied (u.tcp i).client 0 [] none)
        ((u.replied (u.tcp i).client 0 [] none).setTcp i fun t => { t with cliState := .closed }) :=
      still_setTcp ⟨rfl, rfl, rfl⟩
    have hkeeps : Keeps F s _ p :=
      (hsent.keepsAfter h (still_setStream rfl) hi).same (still_replied.trans hset)
    exact hkeeps.removed hsent.sameIds hmem

theorem Switched.drops (h : PoolInv s p) (hi : i ∈ s.tcpIds) (hsw : Switched s i seg k t) :
    Drops F s t p := by
  cases hsw with
  | listen => exact (h.keeps (.refl s)).drops
  | closed => exact (h.keeps (.refl s)).drops
  | opened _ _ hsent => exact ((hsent.keeps h hi).same (still_setStream rfl)).drops
  | connected _ _ hsent => exact ((hsent.keepsAfter h (still_setStream rfl) hi).same still_answered).drops
  | accepted _ _ _ _ _ _ _ hacc =>
    have hq : Still s (s.queued i k) := by
      unfold queued
      exact .trans (still_setStream rfl) (still_setTcp ⟨rfl, rfl, rfl⟩)
    exact ((h.keeps hq).trans (hacc.keeps (h.same hq.pool))).drops
  | received _ _ hpush hfin =>
    have ha : Still s (s.appended seg k) := by
      unfold appended
      exact still_setStream rfl
    have hp := ha.trans hpush.still
    exact ((h.keeps hp).trans (hfin.keeps (h.same hp.pool) (hp.pool.tcpIds ▸ hi))).drops
  | finWait1 _ hw => exact hw.drops h hi
  | lastAck => exact (h.keeps (still_setStream rfl)).drops

theorem Processed.drops (h : PoolInv s p) (hi : i ∈ s.tcpIds) (hp : Processed s i seg k t) :
    Drops F s t p := by
  have hs : Still s (s.setStream k (rxSeq seg)) := still_setStream (rxSeq_end seg _).1
  cases hp with
  | wrongSeq => exact (h.keeps (.refl s)).drops
  | plain _ _ hsw => exact h.then hs (hsw.drops (h.same hs.pool) hi)
  | reset _ _ hrst hsw =>
    have hr : Keeps F _ _ p := processRst_keeps (h.same hs.pool) hi hrst
    exact h.then hs (hr.then (processRst_sameIds hrst) (hsw.drops hr.pool (hr.tcpIds hi)))

theorem Selected.keeps {o : Option Nat} (h : PoolInv s p) (hseg : F → seg.src < 2 ^ 32)
    (hsel : Selected s i seg o t) : Keeps F s t p ∧ t.tcpIds = s.tcpIds := by
  cases hsel with
  | connecting => exact ⟨h.keeps (.refl s), rfl⟩
  | unknown => exact ⟨h.keeps (.refl s), rfl⟩
  | connection => exact ⟨h.keeps (.refl s), rfl⟩
  | @added k l =>
    have hstreams : ∀ st : Nat → Stream, SamePool s { s with allstreams := l, stream := st } := fun _ =>
      samePool_of_eq rfl
    have hpool : SamePool s (s.withStream i k l seg.src seg.sport) := by
      unfold withStream
      exact (hstreams _).trans (samePool_setTcp ⟨rfl, rfl, rfl⟩)
    refine ⟨h.wrote hpool fun hF _ => ⟨[], ?_, fun _ hn => absurd hn List.not_mem_nil⟩, rfl⟩
    have hadd := still_newStream (s := s) l k
      { Stream.mk' seg.src seg.sport with initSeqTx := 123, seqTx := 123 } (hseg hF)
    exact (hadd.trans (still_setTcp ⟨rfl, rfl, rfl⟩)).writes

theorem Segmented.drops (h : PoolInv s p) (hi : i ∈ s.tcpIds) (hsrc : F → seg.src < 2 ^ 32)
    (hseg : Segmented s i seg t) : Drops F s t p := by
  cases hseg with
  | none => exact (h.keeps (.refl s)).drops
  | some hsel hp =>
    obtain ⟨hk, hids⟩ := hsel.keeps h hsrc
    exact hk.then hids (hp.drops hk.pool (hids ▸ hi))

/-! ## The other packets -/

theorem Datagram.still {d : Dgram} (hd : Datagram s i d t) : Still s t := by
  cases hd with
  | received =>
    unfold udpReceived
    refine .trans (still_setUdp ⟨rfl, rfl, rfl⟩ fun hs hw => ?_) still_replied
    have hsend : (s.udp i).cliState = .send := hs hw
    rw [hsend, if_neg (by decide)]
  | @saved data =>
    have hsame : (saveReceivedPacket (s.udp i) d data).toSocket = (s.udp i).toSocket ∧
        (saveReceivedPacket (s.udp i) d data).cliState = (s.udp i).cliState := by
      unfold saveReceivedPacket
      split
      · exact ⟨rfl, rfl⟩
      split
      · exact ⟨rfl, rfl⟩
      · exact ⟨rfl, rfl⟩
    refine still_setUdp (hsame.1 ▸ .refl _) fun hs hw => hsame.2.trans (hs ?_)
    exact (congrArg Socket.waitArp hsame.1).symm.trans hw

theorem good_of_wellFormed {m : Lib.Mem} {a len : Nat} (h : WellFormed m a len) :
    TxFrame.Good ⟨len, fun i => m (a + i)⟩ := .inl fun _ => wellFormed_shift.mpr h

theorem agreeOutside_put48 {m : Lib.Mem} {a v : Nat} (h : a % frameStride + 6 ≤ frameStride) :
    AgreeOutside m (m.put48 a v) [frameOf a] := by
  intro x hx
  have hx' : frameOf x ≠ frameOf a := fun hc => hx (List.mem_singleton.mpr hc)
  refine (Mem.agreeOn_put48 (a := x) (n := 1) ?_) x (Nat.le_refl x) (by omega)
  unfold frameOf at hx'
  unfold frameStride at *
  omega

/-- What a part of the loops over the sockets leaves. -/
structure Checked (F : Prop) (s t : Net) (p : List Nat) : Prop where
  pool : PoolInv t p
  tcpIds : t.tcpIds = s.tcpIds
  udpIds : t.udpIds = s.udpIds
  hands : SameHands s t
  frames : F → FramesOk s → FramesOk t

theorem Checked.trans (h : Checked F s t p) (h' : Checked F t u p) : Checked F s u p :=
  ⟨h'.pool, h'.tcpIds.trans h.tcpIds, h'.udpIds.trans h.udpIds, h.hands.trans h'.hands, fun hF hf =>
    h'.frames hF (h.frames hF hf)⟩

theorem PoolInv.checked (h : PoolInv s p) (hs : Still s t) : Checked F s t p :=
  ⟨h.same hs.pool, hs.pool.tcpIds, hs.pool.udpIds, hs.pool.hands, fun _ hf => hf.still hs⟩

/-- The stored frame of a socket is sent with the hardware address of its receiver: its buffer goes back to
the pool. -/
theorem PoolInv.released {v : Socket} (sha : Nat) (h : PoolInv s (frameOf v.txEthFrame :: p)) :
    PoolInv (s.released v sha) p ∧ (FramesOk s → v.FrameOk s.mem → FramesOk (s.released v sha)) := by
  refine ⟨(h.same samePool_emitted).freed, fun hf hv => ?_⟩
  have hlen := hv.wellFormed.headers
  have hin := hv.inside
  have hmem : AgreeOutside s.mem (storedMem s.mem v sha) [frameOf v.txEthFrame] :=
    agreeOutside_put48 (by omega)
  have hgood : (storedFrame s.mem v sha).Good :=
    good_of_wellFormed (hv.wellFormed.congr (Mem.agreeOn_put48 (by omega)))
  obtain ⟨htcp, hudp, hrem, hsent⟩ := hf.wrote samePool_emitted (writes_emitted hmem hgood) fun n hn =>
    List.mem_singleton.mp hn ▸ h.hand_not_stored List.mem_cons_self
  exact ⟨htcp, hudp, hrem, hsent⟩

theorem waitArp_of_waitsFor {v : Socket} {spa : Nat} (h : s.waitsFor v spa = true) : v.waitArp = true :=
  (Bool.and_eq_true_iff.mp h).1

theorem CheckedUdp.keeps {spa sha : Nat} (h : PoolInv s p) (hi : i ∈ s.udpIds)
    (hc : CheckedUdp s spa sha i t) : Checked F s t p := by
  have hout : s.waitsFor (s.udp i).toSocket spa = true →
      Checked F s ((s.setUdp i fun u => { u with waitArp := false }).released (s.udp i).toSocket sha) p := by
    intro hfor
    have hwait := waitArp_of_waitsFor hfor
    -- the socket no longer waits: its buffer is on the list
    have hset : PoolInv (s.setUdp i fun u => { u with waitArp := false })
        (frameOf (s.udp i).txEthFrame :: p) := by
      refine h.setUdp hi ?_ fun hw => absurd hw Bool.false_ne_true
      rw [buffers_of_waiting hwait]
      exact (List.perm_append_singleton _ p).trans (.of_eq (List.append_nil _).symm)
    obtain ⟨hpool, hframes⟩ := hset.released sha
    exact ⟨hpool, rfl, rfl, ⟨rfl, rfl⟩, fun _ hf =>
      hframes (hf.setUdp fun hw => absurd hw Bool.false_ne_true) (hf.udp i hi hwait)⟩
  cases hc with
  | other => exact h.checked (.refl s)
  | sent hfor => exact hout hfor
  | answered hfor =>
    have hoff : ((s.setUdp i fun u => { u with waitArp := false }).udp i).waitArp = false := by
      rw [setUdp_self]
    exact (hout hfor).trans ((hout hfor).pool.checked
      (still_touch.trans (still_replied.trans (still_udpIdle hoff))))

theorem CheckedTcp.keeps {spa sha : Nat} (h : PoolInv s p) (hi : i ∈ s.tcpIds)
    (hc : CheckedTcp s spa sha i t) : Checked F s t p := by
  have hout : s.waitsFor (s.tcp i).toSocket spa = true →
      Checked F s ((s.setTcp i fun t => { t with waitArp := false }).released (s.tcp i).toSocket sha) p := by
    intro hfor
    have hwait := waitArp_of_waitsFor hfor
    have hset : PoolInv (s.setTcp i fun t => { t with waitArp := false })
        (frameOf (s.tcp i).txEthFrame :: p) := by
      refine h.setTcp hi ?_
      rw [buffers_of_waiting hwait]
      exact (List.perm_append_singleton _ p).trans (.of_eq (List.append_nil _).symm)
    obtain ⟨hpool, hframes⟩ := hset.released sha
    exact ⟨hpool, rfl, rfl, ⟨rfl, rfl⟩, fun _ hf =>
      hframes (hf.setTcp fun hw => absurd hw Bool.false_ne_true) (hf.tcp i hi hwait)⟩
  cases hc with
  | other => exact h.checked (.refl s)
  | sent hfor => exact hout hfor
  | answered hfor =>
    exact (hout hfor).trans ((hout hfor).pool.checked (still_touch.trans (still_replied.trans still_tcpIdle)))

/-- The two loops over the sockets. -/
theorem arpChecked_keeps {spa sha : Nat} (h : PoolInv s p)
    (hudp : runAll (fun s i => s.checkArpUdp spa sha i) s s.udpIds = .ok t)
    (htcp : runAll (fun s i => s.checkArpTcp spa sha i) t t.tcpIds = .ok u) : Keeps F s u p := by
  have ht : Checked F s t p :=
    runAll_invariant (I := fun v => Checked F s v p) (C := fun _ i => i ∈ s.udpIds)
      (fun v i w hv hi hw => hv.trans ((checkArpUdp_cases hw).keeps hv.pool (hv.udpIds ▸ hi)))
      (h.checked (.refl s)) (meets_of_forall fun _ hi _ => hi) hudp
  have hu : Checked F t u p :=
    runAll_invariant (I := fun v => Checked F t v p) (C := fun _ i => i ∈ t.tcpIds)
      (fun v i w hv hi hw => hv.trans ((checkArpTcp_cases hw).keeps hv.pool (hv.tcpIds ▸ hi)))
      (ht.pool.checked (.refl t)) (meets_of_forall fun _ hi _ => hi) htcp
  obtain ⟨hpool, htids, -, hhands, hframes⟩ := ht.trans hu
  exact ⟨hpool, htids ▸ List.Subset.refl _, hhands, hframes⟩

/-- What becomes of the buffers; of what is in them, see `Packed.frames`. -/
theorem Packed.drops {eth : Nat} {pkt : Packet} (h : PoolInv s p) (hp : Packed s eth pkt t) :
    Drops False s t p := by
  have hquiet : SamePool s t → Drops False s t p := fun hs => (h.wrote hs nofun).drops
  have hset : ∀ {m : Lib.Mem}, SamePool s (s.setMem eth m) :=
    samePool_of_eq rfl
  cases hp with
  | drop => exact hquiet (Still.refl s).pool
  | marked => exact hquiet hset
  | arpReplied => exact hquiet (hset.trans samePool_sendToEthDrv)
  | arpChecked hudp htcp => exact (arpChecked_keeps h hudp htcp).drops
  | echoed => exact hquiet (hset.trans samePool_sendToEthDrv)
  | unreach hs => exact hquiet (sendIcmpDestUnreach_samePool hs)
  | noTcp _ _ hs => exact hquiet (sendIcmpDestUnreach_samePool hs)
  | noUdp _ hs => exact hquiet (sendIcmpDestUnreach_samePool hs)
  | connected hfind hs => exact hs.drops h (List.mem_of_find?_eq_some hfind) nofun
  | fallback _ hfind hs => exact hs.drops h (List.mem_of_find?_eq_some hfind) nofun
  | datagram _ hd => exact hquiet hd.still.pool

/-! ## A request -/

theorem still_pending {cli : Nat} {c : TcpCli} : Still s (s.pending i cli c) := by
  unfold pending
  exact still_setTcp ⟨rfl, rfl, rfl⟩

theorem still_connecting {l : NodeList Unit} {cli ifaddr addr port : Nat} (haddr : addr < 2 ^ 32) :
    Still s (s.connecting i k l cli ifaddr addr port) := by
  have hset : Still s ((s.autoBindTcp i ifaddr).setTcp i fun t =>
      { t with netState := .connection, cliState := .connect, client := cli }) :=
    still_autoBindTcp.trans (still_setTcp ⟨rfl, rfl, rfl⟩)
  unfold connecting
  exact .trans (hset.trans (still_newStream l k _ haddr)) (still_setTcp ⟨rfl, rfl, rfl⟩)

theorem PoolInv.withUdp (h : PoolInv s p) (cli b e : Nat) : Keeps F s (s.withUdp cli b e) p := by
  refine h.newUdp rfl rfl rfl rfl rfl (fun j hj => if_neg ?_) ?_ ⟨rfl, rfl⟩ rfl rfl rfl
  · exact fun hc => absurd (h.ids.udpFresh j hj) (by omega)
  · exact congrArg (fun u : UdpSocket => u.waitArp) (if_pos rfl)

theorem PoolInv.withTcp (h : PoolInv s p) (cli b e : Nat) : Keeps F s (s.withTcp cli b e) p := by
  refine h.newTcp rfl rfl rfl rfl rfl (fun j hj => if_neg ?_) ?_ ⟨rfl, rfl⟩ rfl rfl rfl
  · exact fun hc => absurd (h.ids.tcpFresh j hj) (by omega)
  · exact congrArg (fun t : TcpSocket => t.waitArp) (if_pos rfl)

/-- A request arrives in a buffer of the list, which its string fits. -/
def Fitting (p : List Nat) (r : Request) (frame : Nat) : Prop :=
  ∃ n ∈ p, frame = n * frameStride ∧ hdrsSpace + r.data.length ≤ frameSz

/-- The rule for what is built in the buffer of a request. -/
theorem PoolInv.built (h : PoolInv s p) (hbuf : F → Fitting p r frame) (hs : SamePool s t)
    (hw : ∀ n, frame = n * frameStride → hdrsSpace + r.data.length ≤ frameSz → FramesOk s → Writes s t [n]) :
    Keeps F s t p := by
  refine h.wrote hs fun hF hf => ?_
  obtain ⟨n, hn, hframe, hlen⟩ := hbuf hF
  exact ⟨[n], hw n hframe hlen hf, fun m hm => List.mem_singleton.mp hm ▸ h.hand_not_stored hn⟩

/-- A request that leaves the client thread its buffer. -/
theorem Requested.drops (h : PoolInv s p) (hbuf : F → Fitting p r frame)
    (hr : Requested s r frame false t) : Drops F s t p := by
  cases hr with
  | refused => exact (h.keeps still_replied).drops
  | newUdp => exact ((h.withUdp _ _ _).same still_replied).drops
  | newTcp => exact ((h.withTcp _ _ _).same still_replied).drops
  | @closeUdp i _ hi _ _ hcli =>
    have hnone : (s.udp i).buffers = [] := by
      refine buffers_of_not_waiting (Bool.eq_false_iff.mpr fun hw => ?_)
      exact absurd (hcli.symm.trans (h.sends i hi hw)) (by decide)
    have hgone : Keeps F s { s with udpIds := s.udpIds.erase i } p :=
      ⟨h.eraseUdp hi hnone, List.Subset.refl _, ⟨rfl, rfl⟩, fun _ hf =>
        ⟨hf.tcp, fun j hj => hf.udp j (List.mem_of_mem_erase hj), hf.rem, hf.sent⟩⟩
    exact (hgone.same still_replied).drops
  | @closeListener i _ hi =>
    have hset : Still s (s.setTcp i fun t => { t with cliState := .closed }) := still_setTcp ⟨rfl, rfl, rfl⟩
    exact ((h.keeps hset).removed rfl hi).same still_replied
  | @closeClosed i k _ hi =>
    have hset : Still s (s.setTcp i fun t => { t with cliState := .closed }) := still_setTcp ⟨rfl, rfl, rfl⟩
    exact ((h.keeps hset).removed rfl hi).same still_replied
  | closing _ hi _ _ _ _ _ _ hsent =>
    exact (hsent.keepsAfter h (still_pending.trans (still_setStream rfl)) hi).drops
  | bindUdp => exact (h.keeps ((still_setUdp ⟨rfl, rfl, rfl⟩ id).trans still_replied)).drops
  | bindTcp => exact (h.keeps ((still_setTcp ⟨rfl, rfl, rfl⟩).trans still_replied)).drops
  | listening => exact (h.keeps ((still_setTcp ⟨rfl, rfl, rfl⟩).trans still_replied)).drops
  | accepting => exact (h.keeps still_pending).drops
  | @acceptedQueued i k q _ _ hi _ _ _ _ _ _ hacc =>
    have hs : Still s ((s.pending i r.cli .accept).setTcp i fun t =>
        { t with connectedQueue := t.connectedQueue.tail }) :=
      still_pending.trans (still_setTcp ⟨rfl, rfl, rfl⟩)
    exact ((h.keeps hs).trans (hacc.keeps (h.same hs.pool))).drops
  | connecting _ hi _ _ _ _ _ _ hsent =>
    exact (hsent.keepsAfter h (still_connecting (sinAddr_lt 5)) hi).drops
  | sendTcpBusy _ _ _ _ _ _ hmem =>
    exact ((h.built hbuf samePool_tcpBuilt fun n hn _ _ => writes_tcpBuilt (hmem n hn)).same
      still_replied).drops
  | sendTcpNow _ _ _ _ _ _ hmem hwf =>
    refine ((h.built hbuf (samePool_tcpBuilt.trans samePool_sendToEthDrv) fun n hn hlen hf => ?_).same
      still_replied).drops
    exact (writes_tcpBuilt (hmem n hn)).then (writes_sendToEthDrv (good_of_wellFormed (hwf (hf.rem _) hlen)))
  | sendUdpBusy _ _ _ hmem =>
    exact ((h.built hbuf samePool_udpBuilt fun n hn _ _ => writes_udpBuilt (hmem n hn)).same
      still_replied).drops
  | sendUdpNow _ _ _ hmem hwf =>
    refine ((h.built hbuf (samePool_udpBuilt.trans samePool_sendToEthDrv) fun n hn hlen _ => ?_).same
      still_replied).drops
    unfold hdrsSpace at hlen
    exact (writes_udpBuilt (hmem n hn)).then (writes_sendToEthDrv (good_of_wellFormed (hwf (by omega))))
  | recvTcpData => exact (h.keeps still_delivered).drops
  | recvTcpWait => exact (h.keeps still_pending).drops
  | recvTcpEnd => exact (h.keeps still_replied).drops
  | recvUdpData => exact (h.keeps (still_replied.trans (still_setUdp ⟨rfl, rfl, rfl⟩ id))).drops
  | @recvUdpWait i _ _ _ _ hcli =>
    have hs : Still s (s.setUdp i fun u => { u with cliState := .recv, recvClient := r.cli }) :=
      still_setUdp ⟨rfl, rfl, rfl⟩ fun hs hw => absurd (hcli.symm.trans (hs hw)) (by decide)
    exact (h.keeps hs).drops

/-- A socket without a buffer gets one from the list. -/
theorem perm_stored {t t' : Socket} (hold : t.waitArp = false) (hnew : t'.waitArp = true)
    (hframe : frameOf t'.txEthFrame = n) : (n :: p ++ t.buffers).Perm (p ++ t'.buffers) := by
  rw [buffers_of_not_waiting hold, buffers_of_waiting hnew, hframe, List.append_nil]
  exact (List.perm_append_singleton n p).symm

/-- A frame that was built in one buffer before another was written. -/
theorem frameOk_written {v : Socket} {m m' : Lib.Mem} {n' : Nat}
    (hwf : WellFormed m v.txEthFrame v.txEthFrameLen) (hm : AgreeOutside m m' [n'])
    (hne : frameOf v.txEthFrame ≠ n') (hin : v.txEthFrame % frameStride + v.txEthFrameLen ≤ frameStride) :
    v.FrameOk m' :=
  frameOk_agreeOutside ⟨hwf, hin⟩ (.refl v) hm fun hc => hne (List.mem_singleton.mp hc)

/-- A request that gives the client thread's buffer to its socket. -/
theorem Requested.stores (h : PoolInv s (n :: p)) (hlen : F → hdrsSpace + r.data.length ≤ frameSz)
    (hr : Requested s r (n * frameStride) true t) : Keeps F s t p := by
  have hhand : ∀ m ∈ [n], m ∉ s.stored := fun m hm =>
    List.mem_singleton.mp hm ▸ h.hand_not_stored List.mem_cons_self
  have hne : ∀ {m : Nat}, s.busy m = false → n ≠ m := fun hm hc => by
    have hb := (h.busy n).mpr (List.mem_append_left _ List.mem_cons_self)
    rw [hc, hm] at hb
    cases hb
  cases hr with
  | @sendTcpWait i k n' f arp mem mem' g _ hi _ _ _ _ _ _ _ _ hmem hwf hwait _ hfree hmem' hg =>
    have hbuilt : SamePool s (s.tcpBuilt i k (n * frameStride) f.addr arp mem r.data.length) :=
      samePool_tcpBuilt
    have hnone : ((s.tcpBuilt i k (n * frameStride) f.addr arp mem r.data.length).tcp i).waitArp = false :=
      (hbuilt.tcp i).waitArp.trans hwait
    have hset := (h.same hbuilt).setTcp (f := tcpWaiting (n * frameStride) (74 + r.data.length) r.cli)
      (hbuilt.tcpIds ▸ hi) (perm_stored hnone rfl frameOf_start)
    refine ⟨hset.same samePool_emitted, hbuilt.tcpIds ▸ List.Subset.refl _,
      ⟨hbuilt.hands.eth, hbuilt.hands.cli⟩, fun hF hf => ?_⟩
    have hlen := hlen hF
    have hwrote := hf.wrote hbuilt (writes_tcpBuilt (hmem n rfl)) hhand
    have hsent := hwrote.wrote samePool_emitted (writes_emitted hmem' (.inl hg)) fun m hm =>
      List.mem_singleton.mp hm ▸ (h.same hbuilt).not_stored (hbuilt.busy ▸ hfree)
    have hin : n * frameStride % frameStride + (74 + r.data.length) ≤ frameStride := by
      rw [Nat.mul_mod_left]
      unfold hdrsSpace frameSz at hlen
      unfold frameStride
      omega
    have hok := hsent.setTcp (i := i) (f := tcpWaiting (n * frameStride) (74 + r.data.length) r.cli) fun _ =>
      frameOk_written (hwf (hf.rem k) hlen) hmem' (frameOf_start.symm ▸ hne hfree) hin
    exact ⟨hok.tcp, hok.udp, hok.rem, hok.sent⟩
  | @sendUdpWait i n' f arp mem mem' g _ hi _ _ _ _ hmem hwf hwait _ hfree hmem' hg =>
    have hbuilt : SamePool s (s.udpBuilt i (n * frameStride + 32) f.addr arp mem) := samePool_udpBuilt
    have hnone : ((s.udpBuilt i (n * frameStride + 32) f.addr arp mem).udp i).waitArp = false :=
      (hbuilt.udp i).waitArp.trans hwait
    have hframe : frameOf (n * frameStride + 32) = n :=
      frameOf_range (Nat.le_add_right _ _) (Nat.add_lt_add_left (by decide) _)
    have hset := (h.same hbuilt).setUdp (f := udpWaiting (n * frameStride + 32) (42 + r.data.length) r.cli)
      (hbuilt.udpIds ▸ hi) (perm_stored hnone rfl hframe) fun _ => rfl
    refine ⟨hset.same samePool_emitted, hbuilt.tcpIds ▸ List.Subset.refl _,
      ⟨hbuilt.hands.eth, hbuilt.hands.cli⟩, fun hF hf => ?_⟩
    have hlen := hlen hF
    unfold hdrsSpace frameSz at hlen
    have hwrote := hf.wrote hbuilt (writes_udpBuilt (hmem n rfl)) hhand
    have hsent := hwrote.wrote samePool_emitted (writes_emitted hmem' (.inl hg)) fun m hm =>
      List.mem_singleton.mp hm ▸ (h.same hbuilt).not_stored (hbuilt.busy ▸ hfree)
    have hin : (n * frameStride + 32) % frameStride + (42 + r.data.length) ≤ frameStride := by
      unfold frameStride
      omega
    have hok := hsent.setUdp (i := i)
      (f := udpWaiting (n * frameStride + 32) (42 + r.data.length) r.cli) fun _ =>
        frameOk_written (hwf (by unfold frameSz; omega)) hmem' (hframe.symm ▸ hne hfree) hin
    exact ⟨hok.tcp, hok.udp, hok.rem, hok.sent⟩

end Cases

end Net

/-! ## Runs -/

namespace Pool

/-- The server, and the buffers that went with their sockets. -/
structure State where
  net : Net
  lost : List Nat

/-- A round. -/
def step (x : State) (e : Event) : Except Stop State := do
  let s ← Tcpip.step x.net e
  .ok ⟨s, x.net.dropped s ++ x.lost⟩

def start (key0 key1 : Nat) : State := ⟨Net.init key0 key1, []⟩

/-- Every buffer that somebody has. -/
def State.held (x : State) : List Nat := x.net.inHand ++ (x.net.stored ++ x.lost)

/-- The invariant of a run. -/
structure Inv (x : State) : Prop where
  pool : x.net.PoolInv (x.net.inHand ++ x.lost)
  aligned : ∀ a, x.net.cliBuf = some a → ∃ n, a = n * frameStride

section Steps

open Net

variable {x x' : State} {s' : Net} {e : Event} {n : Nat}

theorem inHand_of_sameHands {s s' : Net} (h : SameHands s s') : s'.inHand = s.inHand := by
  unfold inHand
  rw [h.eth, h.cli]

/-- What is in a hand, when the client thread has a buffer. -/
theorem inHand_perm_of_cli {s : Net} (hbuf : s.cliBuf = some (n * frameStride)) :
    s.inHand.Perm (n :: s.ethBuf.toList.map frameOf) := by
  unfold inHand
  rw [hbuf, Option.toList_some, List.map_append]
  have hof : [n * frameStride].map frameOf = [n] := congrArg (fun a => [a]) frameOf_start
  rw [hof]
  exact List.perm_append_singleton n _

/-- The rule for a round in which the threads keep what they have. -/
theorem Inv.dropped (h : Inv x) (hd : Drops False x.net s' (x.net.inHand ++ x.lost)) :
    Inv ⟨s', x.net.dropped s' ++ x.lost⟩ := by
  refine ⟨hd.pool.perm ?_, fun a ha => h.aligned a (hd.hands.cli ▸ ha)⟩
  rw [inHand_of_sameHands hd.hands]
  exact List.perm_append_comm_assoc _ _ _

/-- The rule for a thread that takes a buffer. -/
theorem Inv.got (h : Inv x) (hn : n < framesCount) (hfree : x.net.busy n = false)
    (hs : SamePool ((x.net).setBusy n true) { s' with ethBuf := x.net.ethBuf, cliBuf := x.net.cliBuf })
    (hhand : s'.inHand.Perm (n :: x.net.inHand))
    (haligned : ∀ a, s'.cliBuf = some a → ∃ n, a = n * frameStride) :
    Inv ⟨s', x.net.dropped s' ++ x.lost⟩ := by
  have htaken := (h.pool.taken hn hfree).same hs
  have hd : x.net.dropped s' = [] :=
    dropped_of_subset (hs.tcpIds ▸ List.Subset.refl _)
  rw [hd]
  refine ⟨?_, haligned⟩
  refine PoolInv.perm ?_ ((hhand.append_right x.lost).symm)
  exact ⟨htaken.ids.same rfl rfl le_rfl, htaken.nodup, htaken.busy, htaken.inPool, htaken.sends⟩

theorem Inv.step (h : Inv x) (hstep : Pool.step x e = .ok x') : Inv x' := by
  obtain ⟨s', hs', hx⟩ := bind_eq_ok.mp hstep
  obtain rfl := Except.ok.inj hx
  cases step_cases hs' with
  | idle => exact h.dropped (h.pool.keeps (.refl x.net)).drops
  | @waited usec =>
    have hs : SamePool x.net { x.net with now := x.net.now + usec } :=
      samePool_of_eq rfl
    exact h.dropped (h.pool.wrote hs nofun).drops
  | @ethGot n hn hfree heth =>
    refine h.got hn hfree (samePool_of_eq rfl) ?_ h.aligned
    unfold inHand
    rw [heth]
    exact .of_eq (congrArg (fun a => a :: x.net.cliBuf.toList.map frameOf) frameOf_start)
  | @cliGot n hn hfree hcli =>
    refine h.got hn hfree (samePool_of_eq rfl) ?_ fun a ha =>
      ⟨n, (Option.some.inj ha).symm⟩
    have hold : x.net.inHand = x.net.ethBuf.toList.map frameOf := by
      unfold inHand
      rw [hcli, Option.toList_none, List.append_nil]
    rw [hold]
    exact inHand_perm_of_cli rfl
  | @framed bytes eth _ arp _ _ _ _ hp =>
    have hs : SamePool x.net (x.net.received eth bytes arp) :=
      samePool_of_eq rfl
    exact h.dropped ((h.pool.wrote hs nofun).then hs.tcpIds (hp.drops (h.pool.same hs)))
  | @requested r frame _ _ _ hr =>
    have hs : SamePool x.net (x.net.receiveRequest r frame) :=
      samePool_of_eq rfl
    exact h.dropped ((h.pool.wrote hs nofun).then hs.tcpIds (hr.drops (h.pool.same hs) nofun))
  | @kept r frame t hbuf _ hr =>
    obtain ⟨n, rfl⟩ := h.aligned frame hbuf
    have hs : SamePool x.net (x.net.receiveRequest r (n * frameStride)) :=
      samePool_of_eq rfl
    have hhand := inHand_perm_of_cli hbuf
    have hk : Keeps False _ t _ :=
      Requested.stores ((h.pool.same hs).perm (hhand.append_right x.lost)) nofun hr
    have hd : x.net.dropped { t with cliBuf := none } = [] := dropped_of_subset hk.tcpIds
    rw [hd]
    refine ⟨?_, nofun⟩
    have hnew : ({ t with cliBuf := none } : Net).inHand = x.net.ethBuf.toList.map frameOf := by
      unfold inHand
      have heth : t.ethBuf = x.net.ethBuf := hk.hands.eth
      rw [heth, Option.toList_none, List.append_nil]
    rw [hnew]
    exact ⟨hk.pool.ids.same rfl rfl le_rfl, hk.pool.nodup, hk.pool.busy, hk.pool.inPool, hk.pool.sends⟩

theorem inv_start (key0 key1 : Nat) : Inv (start key0 key1) where
  pool := ⟨⟨List.nodup_nil, List.nodup_nil, nofun, nofun, nofun⟩, List.nodup_nil,
    fun _ => iff_of_false nofun nofun, nofun, nofun⟩
  aligned := nofun

theorem Inv.run {es : List Event} (h : Inv x) (hrun : runAll Pool.step x es = .ok x') : Inv x' :=
  runAll_invariant_of_step (fun _ _ _ hx hs => Inv.step hx hs) h hrun

end Steps

end Pool

end Tcpip
end Wrmos
