import Wrmos.TcpipReplies

/-!
# The TCP/IP server: the request/reply discipline

`reply_to_client` stops when it is asked to answer `Nil`, and when the thread does not wait.  Under the
invariant about the clients no packet handler gets there, and of the requests only the one that receives from
a connection that is not established.

So a run keeps the discipline as long as no request loses a client: every thread that waits is recorded once,
in the socket its request names, and has got a reply for each request but the last (`discipline_iff`).  The
condition is exact: a request that loses a client leaves a thread that waits and that nobody will answer, or
stops the server.
-/

namespace Wrmos
namespace Tcpip

open Lib

/-- The server does not stop in `reply_to_client`. -/
def Stop.NotInReply (e : Stop) : Prop := e ≠ .replyToNil ∧ e ≠ .replyFailed

/-- Every thread that waits is recorded once, as the client of a socket that its request names and of the
operation that it asks for, and nobody else is recorded; of its requests each but the last, where it waits,
has one reply. -/
structure Disciplined (s : Net) (g : Asked) : Prop where
  recorded : ∀ c, s.records.count c = if s.blocked c then 1 else 0
  nonNil : 0 ∉ s.records
  tcp : ∀ i ∈ s.tcpIds, ∀ c ∈ (s.tcp i).records, g.For c i (s.tcp i).cliState.op
  sending : ∀ i ∈ s.udpIds, (s.udp i).cliState = .send → g.For (s.udp i).client i 7
  receiving : ∀ i ∈ s.udpIds, (s.udp i).recvClient ≠ 0 → g.For (s.udp i).recvClient i 8
  replies : ∀ c, g.count c = repliesTo c s.out + if s.blocked c then 1 else 0

/-- The book after an event. -/
def Asked.after (g : Asked) (s : Net) : Event → Asked
  | .request r => if s.Takes r then g.take r else g
  | _ => g

namespace Discipline

/-- The server and what its clients have asked for. -/
structure State where
  net : Net
  asked : Asked

/-- A round. -/
def step (x : State) (e : Event) : Except Stop State := do
  let s ← Tcpip.step x.net e
  .ok ⟨s, x.asked.after x.net e⟩

/-- The start: nobody has asked for anything. -/
def start (key0 key1 : Nat) : State := ⟨Net.init key0 key1, ⟨fun _ => 0, fun _ => none⟩⟩

/-- The round does not stop in `reply_to_client`, it leaves the server in good order, and a request is
answered to nobody but its sender. -/
def Sound (x : State) (e : Event) : Prop :=
  StopsIn (step x e) Stop.NotInReply ∧
    ∀ x', step x e = .ok x' → Disciplined x'.net x'.asked ∧
      ∀ r, e = .request r → ∀ c, c ≠ r.cli → x'.net.blocked c = x.net.blocked c

/-- A request that is taken loses no client. -/
def Fits (x : State) : Event → Prop
  | .request r => x.net.Takes r → ¬ x.net.LosesClient r
  | _ => True

instance (x : State) : DecidablePred (Fits x) := fun e => by
  cases e <;> unfold Fits <;> infer_instance

end Discipline

theorem notInReply_assertion {expr : String} : (Stop.assertion expr).NotInReply := ⟨nofun, nofun⟩

namespace Net

variable {s s' t : Net} {g : Asked} {p : List Nat} {r : Request} {seg : Seg} {i j k frame c : Nat}

/-! ## Sending -/

/-- A thread that waits can be answered. -/
theorem replyToClient_stopsIn {ecode : Nat} {words : List Nat} {bf : Option Buf} (h : s.Waits c) :
    StopsIn (s.replyToClient c ecode words bf) Stop.NotInReply := by
  unfold replyToClient
  rw [ensure_bind_of h.1, ensure_bind_of h.2]
  exact .ok

theorem framesFree_stopsIn {a : Nat} : StopsIn (s.framesFree a) Stop.NotInReply :=
  .ensure notInReply_assertion fun _ => .ensure notInReply_assertion fun _ => .ok

theorem sendArpRequest_stopsIn {ipif : IpIface} {iaddr : Nat} :
    StopsIn (s.sendArpRequest ipif iaddr) Stop.NotInReply := by
  unfold sendArpRequest
  split
  · exact .error notInReply_assertion
  · exact framesFree_stopsIn

theorem sendTcpMsg_stopsIn {flags : Nat} : StopsIn (s.sendTcpMsg i k flags) Stop.NotInReply := by
  unfold sendTcpMsg
  dsimp only
  split
  · exact .error notInReply_assertion
  split
  · exact .error notInReply_assertion
  unfold sendTcpFrame
  dsimp only
  split
  · exact .ensure notInReply_assertion fun _ => sendArpRequest_stopsIn
  · exact framesFree_stopsIn

theorem sendIcmpDestUnreach_stopsIn {ipif : IpIface} {ethReq reqLen code : Nat} :
    StopsIn (s.sendIcmpDestUnreach ipif ethReq reqLen code) Stop.NotInReply := by
  unfold sendIcmpDestUnreach
  split
  · exact .ok
  · exact framesFree_stopsIn

/-! ## A segment -/

theorem selectStream_stopsIn : StopsIn (s.selectStream i seg) Stop.NotInReply := by
  unfold selectStream
  split
  · refine .ensure notInReply_assertion fun _ => ?_
    split
    · exact .ok
    refine .ite (fun _ => ?_) fun _ => .ok
    split
    · exact .error notInReply_assertion
    · exact .ok
  · split
    · exact .error notInReply_assertion
    · exact .ok
  · exact .error notInReply_assertion

/-- The client of a socket in an operation can be answered. -/
theorem ClientInv.answer_stopsIn {ecode : Nat} {words : List Nat} {bf : Option Buf} {op : TcpCli}
    {f : Nat × Net → Except Stop Net} (h : ClientInv s g p) (hi : i ∈ s.tcpIds)
    (hcli : (s.tcp i).cliState = op) (hop : op ≠ .idle ∧ op ≠ .closed)
    (hf : ∀ a, a.2 = s.replied (s.tcp i).client ecode words bf → StopsIn (f a) Stop.NotInReply) :
    StopsIn (s.replyToClient (s.tcp i).client ecode words bf >>= f) Stop.NotInReply := by
  subst hcli
  refine .bind (replyToClient_stopsIn (h.tcpWaits hi hop.1 hop.2)) fun a ha => hf a ?_
  exact (replyToClient_cases ha).2.2

theorem processRst_stopsIn (h : ClientInv s g p) (hi : i ∈ s.tcpIds) :
    StopsIn (s.processRst i k) Stop.NotInReply := by
  unfold processRst
  refine .bind sendTcpMsg_stopsIn fun t ht => .ensure notInReply_assertion fun hcli => ?_
  have hsame := (sameClients_setStream.trans (sendTcpMsg_sent ht).sameClients).trans
    (sameClients_setStream (k := k) (f := fun st => { st with state := .closed }))
  exact (h.same hsame).answer_stopsIn (hsame.tcpIds ▸ hi) hcli (by decide) fun _ _ => .ok

theorem tcpSocketsAddTo_stopsIn {iaddr : Nat} : StopsIn (s.tcpSocketsAddTo i k iaddr) Stop.NotInReply := by
  unfold tcpSocketsAddTo
  refine .ensure notInReply_assertion fun _ => ?_
  split
  · exact .ok
  · exact .ensure notInReply_assertion fun _ => .ok

/-- What `Tcp_sockets_t::add` returns: without room the state is the same. -/
theorem tcpSocketsAddTo_cases {iaddr : Nat} {o : Option Nat} (h : s.tcpSocketsAddTo i k iaddr = .ok (o, t)) :
    o = none ∧ t = s ∨ o = some (s.cnt + 1) ∧ t = s.accepted i k (s.cnt + 1) iaddr := by
  unfold tcpSocketsAddTo tcpSocketsAdd at h
  obtain ⟨-, h⟩ := ensure_bind_eq_ok.mp h
  by_cases hfull : s.tcpIds.length = listCap
  · simp only [if_pos hfull] at h
    obtain ⟨rfl, rfl⟩ := Prod.mk.inj (Except.ok.inj h)
    exact .inl ⟨rfl, rfl⟩
  · simp only [if_neg hfull, Option.isSome_some, if_true] at h
    obtain ⟨-, h⟩ := ensure_bind_eq_ok.mp h
    obtain ⟨rfl, rfl⟩ := Prod.mk.inj (Except.ok.inj h)
    exact .inr ⟨rfl, rfl⟩

theorem acceptConnectedStream_stopsIn (h : ClientInv s g p) (hi : i ∈ s.tcpIds) :
    StopsIn (s.acceptConnectedStream i k) Stop.NotInReply := by
  unfold acceptConnectedStream
  refine .ensure notInReply_assertion fun hcli => .ensure notInReply_assertion fun _ => ?_
  split
  · exact .error notInReply_assertion
  rename_i iaddr _
  refine .bind tcpSocketsAddTo_stopsIn fun a ha => ?_
  obtain ⟨o, t⟩ := a
  rcases tcpSocketsAddTo_cases ha with ⟨rfl, rfl⟩ | ⟨rfl, rfl⟩
  · exact h.answer_stopsIn hi hcli (by decide) fun _ _ => .ok
  · obtain ⟨hinv, hsame, hmem⟩ := h.accepted hi k iaddr
    exact hinv.answer_stopsIn hmem (hsame.cliState.trans hcli) (by decide) fun _ _ => .ok

theorem moveToConnectedQueue_stopsIn : StopsIn (s.moveToConnectedQueue i k) Stop.NotInReply := by
  unfold moveToConnectedQueue
  refine .ensure notInReply_assertion fun _ => .ensure notInReply_assertion fun _ =>
    .ensure notInReply_assertion fun _ => ?_
  exact .ite (fun _ => .ok) fun _ => .ite (fun _ => .ok) fun _ => .ok

theorem moveToConnectedQueue_same {rc : Nat} (h : s.moveToConnectedQueue i k = .ok (rc, t)) :
    SameClients s t := by
  unfold moveToConnectedQueue at h
  obtain ⟨-, h⟩ := ensure_bind_eq_ok.mp h
  obtain ⟨-, h⟩ := ensure_bind_eq_ok.mp h
  obtain ⟨-, h⟩ := ensure_bind_eq_ok.mp h
  split at h
  · obtain ⟨-, rfl⟩ := Prod.mk.inj (Except.ok.inj h)
    exact .refl _
  split at h
  · obtain ⟨-, rfl⟩ := Prod.mk.inj (Except.ok.inj h)
    exact .refl _
  · obtain ⟨-, rfl⟩ := Prod.mk.inj (Except.ok.inj h)
    exact sameClients_setTcp ⟨rfl, rfl⟩

theorem tcpSynReceived_stopsIn (h : ClientInv s g p) (hi : i ∈ s.tcpIds) :
    StopsIn (s.tcpSynReceived i seg k) Stop.NotInReply := by
  unfold tcpSynReceived
  refine .ite (fun _ => ?_) fun _ => .error notInReply_assertion
  refine .bind moveToConnectedQueue_stopsIn fun a ha => .ensure notInReply_assertion fun _ => ?_
  have hsame := sameClients_setStream.trans (moveToConnectedQueue_same ha)
  exact .ite (fun _ => acceptConnectedStream_stopsIn (h.same hsame) (hsame.tcpIds ▸ hi)) fun _ => .ok

theorem tcpSynSent_stopsIn (h : ClientInv s g p) (hi : i ∈ s.tcpIds) :
    StopsIn (s.tcpSynSent i seg k) Stop.NotInReply := by
  unfold tcpSynSent
  refine .ite (fun _ => ?_) fun _ => .error notInReply_assertion
  refine .bind sendTcpMsg_stopsIn fun t ht => .ensure notInReply_assertion fun hcli => ?_
  have hsame := sameClients_setStream.trans (sendTcpMsg_sent ht).sameClients
  exact (h.same hsame).answer_stopsIn (hsame.tcpIds ▸ hi) hcli (by decide) fun _ _ => .ok

theorem tcpClosed_stopsIn : StopsIn (s.tcpClosed i seg k) Stop.NotInReply := by
  unfold tcpClosed
  exact .ite (fun _ => .bind sendTcpMsg_stopsIn fun _ _ => .ok) fun _ => .ok

theorem deliver_stopsIn (h : s.Waits c) : StopsIn (s.deliver k c) Stop.NotInReply :=
  .bind (replyToClient_stopsIn h) fun _ _ => .ok

theorem tcpPush_stopsIn (h : ClientInv s g p) (hi : i ∈ s.tcpIds) :
    StopsIn (s.tcpPush i seg k) Stop.NotInReply := by
  unfold tcpPush
  refine .ite (fun hc => .bind (deliver_stopsIn (h.tcpWaits hi ?_ ?_)) fun _ _ => .ok) fun _ => .ok
  · exact fun hidle => absurd (hc.2.symm.trans hidle) (by decide)
  · exact fun hclosed => absurd (hc.2.symm.trans hclosed) (by decide)

theorem tcpFin_stopsIn (h : ClientInv s g p) (hi : i ∈ s.tcpIds) :
    StopsIn (s.tcpFin i seg k) Stop.NotInReply := by
  unfold tcpFin
  refine .ite (fun _ => .bind sendTcpMsg_stopsIn fun t ht => ?_) fun _ => .ok
  have hsame := (sameClients_setStream.trans (sendTcpMsg_sent ht).sameClients).trans
    (sameClients_setStream (k := k) (f := fun st => { st with state := .lastAck }))
  refine .ite (fun hcli => ?_) fun _ => .ok
  exact (h.same hsame).answer_stopsIn (hsame.tcpIds ▸ hi) hcli (by decide) fun _ _ => .ok

theorem tcpEstablished_stopsIn (h : ClientInv s g p) (hi : i ∈ s.tcpIds) :
    StopsIn (s.tcpEstablished i seg k) Stop.NotInReply := by
  unfold tcpEstablished
  refine .bind (.ensure notInReply_assertion fun _ => .ok) fun u hu => ?_
  obtain ⟨-, hu⟩ := ensure_bind_eq_ok.mp hu
  obtain rfl := Except.ok.inj hu
  have hinv := h.same (sameClients_setStream (k := k)
    (f := fun st => { st with buf := st.buf ++ seg.payload }))
  refine .bind (tcpPush_stopsIn hinv hi) fun v hv => ?_
  obtain ⟨hinv, hids⟩ := (tcpPush_cases hv).clientInv hinv hi
  exact tcpFin_stopsIn hinv (hids ▸ hi)

theorem remStream_stopsIn : StopsIn (s.remStream i) Stop.NotInReply := by
  unfold remStream
  refine .ensure notInReply_assertion fun _ => .ensure notInReply_assertion fun _ =>
    .ensure notInReply_assertion fun _ => ?_
  split
  · exact .error notInReply_assertion
  · exact .ensure notInReply_assertion fun _ => .ok

theorem removeTcp_stopsIn {owner : Nat} : StopsIn (s.removeTcp i owner) Stop.NotInReply :=
  .ensure notInReply_assertion fun _ => .ok

theorem tcpFinWait1_stopsIn (h : ClientInv s g p) (hi : i ∈ s.tcpIds) :
    StopsIn (s.tcpFinWait1 i seg k) Stop.NotInReply := by
  unfold tcpFinWait1
  refine .ite (fun _ => ?_) fun _ => .ok
  refine .bind sendTcpMsg_stopsIn fun t ht => .ensure notInReply_assertion fun hcli => ?_
  have hsame := sameClients_setStream.trans (sendTcpMsg_sent ht).sameClients
  exact (h.same hsame).answer_stopsIn (hsame.tcpIds ▸ hi) hcli (by decide) fun _ _ =>
    .bind remStream_stopsIn fun _ _ => removeTcp_stopsIn

/-- Where a client waits for the close, the stream is not removed and the reply not reached. -/
theorem tcpLastAck_stopsIn : StopsIn (s.tcpLastAck i seg k) Stop.NotInReply := by
  unfold tcpLastAck
  refine .ite (fun _ => .ite (fun hcli => ?_) fun _ => .ok) fun _ => .error notInReply_assertion
  refine .bind remStream_stopsIn fun t ht => ?_
  obtain ⟨-, hclosed, -⟩ := remStream_eq_ok ht
  exact absurd (hcli.symm.trans hclosed) (by decide)

theorem tcpSwitch_stopsIn (h : ClientInv s g p) (hi : i ∈ s.tcpIds) :
    StopsIn (s.tcpSwitch i seg k) Stop.NotInReply := by
  unfold tcpSwitch
  split
  · exact tcpClosed_stopsIn
  · exact tcpSynSent_stopsIn h hi
  · exact tcpSynReceived_stopsIn h hi
  · exact tcpEstablished_stopsIn h hi
  · exact tcpFinWait1_stopsIn h hi
  · exact tcpLastAck_stopsIn
  · exact .error notInReply_assertion
  · exact .error notInReply_assertion
  · exact .error notInReply_assertion
  · exact .error notInReply_assertion
  · exact .ok

theorem processTcpToSocket_stopsIn (h : ClientInv s g p) (hi : i ∈ s.tcpIds) :
    StopsIn (s.processTcpToSocket i seg) Stop.NotInReply := by
  unfold processTcpToSocket
  refine .bind selectStream_stopsIn fun a ha => ?_
  obtain ⟨o, t⟩ := a
  have hsame := (selectStream_cases ha).sameClients
  replace h := h.same hsame
  replace hi : i ∈ t.tcpIds := hsame.tcpIds ▸ hi
  cases o with
  | none => exact .ok
  | some k =>
    show StopsIn (t.processTcpToStream i seg k) Stop.NotInReply
    unfold processTcpToStream
    refine .ite (fun _ => .ok) fun _ => ?_
    have hinv := h.same (sameClients_setStream (k := k) (f := rxSeq seg))
    refine .bind (.ite (fun _ => processRst_stopsIn hinv hi) fun _ => .ok) fun u hu => ?_
    split at hu
    · obtain ⟨hinv, hids⟩ := processRst_clientInv hinv hi hu
      exact tcpSwitch_stopsIn hinv (hids ▸ hi)
    · obtain rfl := Except.ok.inj hu
      exact tcpSwitch_stopsIn hinv hi

/-! ## The other packets -/

/-- A datagram for a client that waits can be handed over. -/
theorem processUdpPacket_stopsIn {ipif : IpIface} {eth : Nat} {d : Dgram} (h : ClientInv s g p) :
    StopsIn (s.processUdpPacket ipif eth d) Stop.NotInReply := by
  unfold processUdpPacket
  split
  · exact sendIcmpDestUnreach_stopsIn
  rename_i i hfind
  have hi : i ∈ s.udpIds := List.mem_of_find?_eq_some hfind
  refine .ite (fun _ => .error ⟨nofun, nofun⟩) fun _ => .ite (fun hwaits => ?_) fun _ => .ok
  exact .bind (replyToClient_stopsIn (h.udpWaits hi (recvClient_mem (h.udpReceived hi hwaits).1)))
    fun _ _ => .ok

theorem checkArpUdp_stopsIn {spa sha : Nat} (h : ClientInv s g p) (hi : i ∈ s.udpIds) :
    StopsIn (s.checkArpUdp spa sha i) Stop.NotInReply := by
  unfold checkArpUdp
  refine .ite (fun _ => .bind framesFree_stopsIn fun t ht => .ite (fun hcli => ?_) fun _ => .ok) fun _ => .ok
  obtain ⟨-, -, rfl⟩ := sendStored_eq_ok ht
  exact .bind (replyToClient_stopsIn (h.udpWaits hi (client_mem hcli))) fun _ _ => .ok

theorem checkArpTcp_stopsIn {spa sha : Nat} (h : ClientInv s g p) (hi : i ∈ s.tcpIds) :
    StopsIn (s.checkArpTcp spa sha i) Stop.NotInReply := by
  unfold checkArpTcp
  refine .ite (fun _ => .bind framesFree_stopsIn fun t ht => .ite (fun hcli => ?_) fun _ => .ok) fun _ => .ok
  obtain ⟨-, -, rfl⟩ := sendStored_eq_ok ht
  refine .bind (replyToClient_stopsIn (h.tcpWaits hi ?_ ?_)) fun _ _ => .ok
  · exact fun hidle => absurd (hcli.symm.trans hidle) (by decide)
  · exact fun hclosed => absurd (hcli.symm.trans hclosed) (by decide)

theorem processArpReply_stopsIn {spa sha : Nat} (h : ClientInv s g p) :
    StopsIn (s.processArpReply spa sha) Stop.NotInReply := by
  unfold processArpReply
  have hudp : ∀ (v : Net) (i : Nat) (w : Net), ClientInv v g p ∧ v.udpIds = s.udpIds → i ∈ s.udpIds →
      v.checkArpUdp spa sha i = .ok w → ClientInv w g p ∧ w.udpIds = s.udpIds := fun v i w hv hi hw => by
    obtain ⟨hinv, hu, -⟩ := (checkArpUdp_cases hw).clientInv hv.1 (hv.2 ▸ hi)
    exact ⟨hinv, hu.trans hv.2⟩
  refine .bind (StopsIn.runAll hudp (fun v i hv hi => checkArpUdp_stopsIn hv.1 (hv.2 ▸ hi)) ⟨h, rfl⟩
    (meets_of_forall fun _ hi _ => hi)) fun t ht => ?_
  have hinv := (runAll_invariant hudp ⟨h, rfl⟩ (meets_of_forall fun _ hi _ => hi) ht).1
  refine StopsIn.runAll (I := fun v => ClientInv v g p ∧ v.tcpIds = t.tcpIds) (C := fun _ i => i ∈ t.tcpIds)
    (fun v i w hv hi hw => ?_) (fun v i hv hi => checkArpTcp_stopsIn hv.1 (hv.2 ▸ hi)) ⟨hinv, rfl⟩
    (meets_of_forall fun _ hi _ => hi)
  obtain ⟨hinv, hids⟩ := (checkArpTcp_cases hw).clientInv hv.1 (hv.2 ▸ hi)
  exact ⟨hinv, hids.trans hv.2⟩

theorem processPacket_stopsIn {eth : Nat} {q : Packet} (h : ClientInv s g p) :
    StopsIn (s.processPacket eth q) Stop.NotInReply := by
  unfold processPacket
  cases q with
  | drop => exact .ok
  | wrongChecksum off => exact .ok
  | arpRequest arplen tpa => exact .ok
  | arpReply spa sha => exact processArpReply_stopsIn h
  | echo hdrlen icmplen => exact .ok
  | unreach reqLen code => exact sendIcmpDestUnreach_stopsIn
  | tcp seg =>
    dsimp only
    unfold processTcpPacket
    split
    · exact processTcpToSocket_stopsIn h (List.mem_of_find?_eq_some ‹_›)
    split
    · exact processTcpToSocket_stopsIn h (List.mem_of_find?_eq_some ‹_›)
    · exact sendIcmpDestUnreach_stopsIn
  | udp d => exact processUdpPacket_stopsIn h

end Net

/-! ## Reading a frame -/

section Parse

variable {α β : Type} {E : Stop → Prop} {m : Lib.Mem} {eth : Nat}

theorem Trace.stopsIn_bind {t : Trace α} {f : α → Trace β} (ht : StopsIn t.result E)
    (hf : ∀ a, StopsIn (f a).result E) : StopsIn (t >>= f).result E := by
  obtain ⟨reads, result⟩ := t
  cases result with
  | error e => exact .error (ht e rfl)
  | ok a => exact hf a

theorem Trace.stopsIn_ite {c : Prop} [Decidable c] {t u : Trace α} (ht : StopsIn t.result E)
    (hu : StopsIn u.result E) : StopsIn (if c then t else u).result E := by
  split
  · exact ht
  · exact hu

theorem inetChecksumAt_stopsIn {off n extra : Nat} :
    StopsIn (inetChecksumAt m eth off n extra).result Stop.NotInReply :=
  Trace.stopsIn_ite (.error ⟨nofun, nofun⟩) <| Trace.stopsIn_bind .ok fun _ =>
    Trace.stopsIn_ite (.error ⟨nofun, nofun⟩) .ok

theorem parseProtocol_stopsIn {iplen hdrlen totalLength : Nat} :
    StopsIn (parseProtocol m eth iplen hdrlen totalLength).result Stop.NotInReply := by
  unfold parseProtocol
  refine Trace.stopsIn_ite ?_ <| Trace.stopsIn_ite ?_ <| Trace.stopsIn_ite ?_ <|
    Trace.stopsIn_bind .ok fun _ => .ok
  · exact Trace.stopsIn_ite .ok <| Trace.stopsIn_bind inetChecksumAt_stopsIn fun _ =>
      Trace.stopsIn_ite .ok <| Trace.stopsIn_bind .ok fun _ =>
        Trace.stopsIn_ite (Trace.stopsIn_bind .ok fun _ => .ok) .ok
  · exact Trace.stopsIn_ite .ok <| Trace.stopsIn_bind .ok fun _ => Trace.stopsIn_ite .ok <|
      Trace.stopsIn_bind inetChecksumAt_stopsIn fun _ => Trace.stopsIn_ite .ok <|
        Trace.stopsIn_bind .ok fun _ => .ok
  · exact Trace.stopsIn_ite .ok <| Trace.stopsIn_bind .ok fun _ => Trace.stopsIn_ite .ok <|
      Trace.stopsIn_bind inetChecksumAt_stopsIn fun _ =>
        Trace.stopsIn_ite (Trace.stopsIn_bind .ok fun _ => .ok) <| Trace.stopsIn_bind .ok fun _ => .ok

theorem parseEthFrame_stopsIn {len : Nat} : StopsIn (parseEthFrame m eth len).result Stop.NotInReply := by
  unfold parseEthFrame
  refine Trace.stopsIn_ite .ok <| Trace.stopsIn_bind .ok fun _ => Trace.stopsIn_ite .ok <|
    Trace.stopsIn_ite ?_ <| Trace.stopsIn_ite ?_ .ok
  · exact Trace.stopsIn_ite .ok <| Trace.stopsIn_bind .ok fun _ => Trace.stopsIn_ite .ok <|
      Trace.stopsIn_ite .ok <| Trace.stopsIn_bind inetChecksumAt_stopsIn fun _ => Trace.stopsIn_ite .ok <|
        Trace.stopsIn_bind parseProtocol_stopsIn fun _ => .ok
  · exact Trace.stopsIn_ite .ok <| Trace.stopsIn_bind .ok fun _ => Trace.stopsIn_ite .ok <|
      Trace.stopsIn_ite (Trace.stopsIn_ite .ok <| Trace.stopsIn_bind .ok fun _ => .ok) <|
        Trace.stopsIn_ite .ok .ok

end Parse

namespace Net

variable {s t : Net} {g : Asked} {p : List Nat} {r : Request} {i k frame c : Nat}

theorem processEthFrame_stopsIn {eth len : Nat} (h : ClientInv s g p) :
    StopsIn (s.processEthFrame eth len) Stop.NotInReply := by
  unfold processEthFrame
  refine .bind parseEthFrame_stopsIn fun q _ => ?_
  obtain ⟨arp, harp⟩ := learn_eq (s.touch eth) q
  rw [harp]
  exact processPacket_stopsIn (h.same (sameClients_of_eq rfl rfl rfl rfl le_rfl rfl fun _ => rfl))

/-! ## The requests -/

theorem Waits.of_blocked (h : s.Waits c) (hb : t.blocked = s.blocked) : t.Waits c :=
  ⟨h.1, (congrFun hb c).trans h.2⟩

theorem answer_stopsIn {ecode : Nat} {words : List Nat} (h : s.Waits c) :
    StopsIn (s.answer c ecode words) Stop.NotInReply := .bind (replyToClient_stopsIn h) fun _ _ => .ok

theorem refuse_stopsIn {ecode : Nat} (h : s.Waits c) : StopsIn (s.refuse c ecode) Stop.NotInReply :=
  answer_stopsIn h

theorem processCliSocket_stopsIn (h : s.Waits r.cli) : StopsIn (s.processCliSocket r) Stop.NotInReply := by
  unfold processCliSocket
  refine .ite (fun _ => refuse_stopsIn h) fun _ => .ite (fun _ => refuse_stopsIn h) fun _ => ?_
  split
  · exact refuse_stopsIn h
  refine .ite (fun _ => .ite (fun _ => refuse_stopsIn h) fun _ => ?_) fun _ =>
    .ite (fun _ => .ite (fun _ => refuse_stopsIn h) fun _ => ?_) fun _ => refuse_stopsIn h
  · split
    · exact refuse_stopsIn h
    · rename_i id t hadd
      unfold udpSocketsAdd at hadd
      split at hadd
      · cases hadd
      · obtain ⟨-, rfl⟩ := Prod.mk.inj (Option.some.inj hadd)
        exact answer_stopsIn (h.of_blocked rfl)
  · split
    · exact refuse_stopsIn h
    · rename_i id t hadd
      unfold tcpSocketsAdd at hadd
      split at hadd
      · cases hadd
      · obtain ⟨-, rfl⟩ := Prod.mk.inj (Option.some.inj hadd)
        exact answer_stopsIn (h.of_blocked rfl)

theorem processCliCloseTcp_stopsIn (h : s.Waits c) : StopsIn (s.processCliCloseTcp i c) Stop.NotInReply := by
  unfold processCliCloseTcp
  split
  · refine .ensure notInReply_assertion fun _ => .bind removeTcp_stopsIn fun t ht => ?_
    obtain ⟨-, -, rfl⟩ := removeTcp_eq_ok ht
    exact .bind (replyToClient_stopsIn (h.of_blocked rfl)) fun _ _ => .ok
  · split
    · exact .error notInReply_assertion
    split
    · refine .bind remStream_stopsIn fun t ht => .bind removeTcp_stopsIn fun u hu => ?_
      obtain ⟨-, -, -, l, -, -, rfl⟩ := remStream_eq_ok ht
      obtain ⟨-, -, rfl⟩ := removeTcp_eq_ok hu
      exact .bind (replyToClient_stopsIn (h.of_blocked rfl)) fun _ _ => .ok
    · exact sendTcpMsg_stopsIn
    · exact .error notInReply_assertion
  · exact .error notInReply_assertion

theorem processCliClose_stopsIn (h : s.Waits r.cli) : StopsIn (s.processCliClose r) Stop.NotInReply := by
  unfold processCliClose
  refine .ite (fun _ => refuse_stopsIn h) fun _ => ?_
  split
  · refine .ite (fun _ => refuse_stopsIn h) fun _ => .ite (fun _ => refuse_stopsIn h) fun _ => ?_
    split
    rename_i rc t hrem
    have hb : t.blocked = s.blocked := by
      unfold udpSocketsRemove at hrem
      split at hrem
      · obtain ⟨-, rfl⟩ := Prod.mk.inj hrem
        rfl
      · obtain ⟨-, rfl⟩ := Prod.mk.inj hrem
        rfl
    exact .ite (fun _ => refuse_stopsIn (h.of_blocked hb)) fun _ => answer_stopsIn (h.of_blocked hb)
  · split
    · exact refuse_stopsIn h
    refine .ite (fun _ => refuse_stopsIn h) fun _ => .ite (fun _ => refuse_stopsIn h) fun _ => ?_
    exact .bind (processCliCloseTcp_stopsIn h) fun _ _ => .ok

theorem processCliBind_stopsIn (h : s.Waits r.cli) : StopsIn (s.processCliBind r) Stop.NotInReply := by
  unfold processCliBind
  refine .ite (fun _ => refuse_stopsIn h) fun _ => ?_
  split
  · split
    · exact refuse_stopsIn h
    · exact answer_stopsIn (h.of_blocked rfl)
  · split
    · exact refuse_stopsIn h
    split
    · exact refuse_stopsIn h
    · exact answer_stopsIn (h.of_blocked rfl)

theorem processCliListen_stopsIn (h : s.Waits r.cli) : StopsIn (s.processCliListen r) Stop.NotInReply := by
  unfold processCliListen
  refine .ite (fun _ => refuse_stopsIn h) fun _ => ?_
  split
  · exact refuse_stopsIn h
  refine .ite (fun _ => refuse_stopsIn h) fun _ => .ite (fun _ => refuse_stopsIn h) fun _ =>
    .ite (fun _ => refuse_stopsIn h) fun _ => .ensure notInReply_assertion fun _ => ?_
  exact answer_stopsIn (h.of_blocked rfl)

theorem getConnectedStream_same {o : Option Nat} (h : s.getConnectedStream i = (o, t)) : SameClients s t := by
  unfold getConnectedStream at h
  split at h
  · obtain ⟨-, rfl⟩ := Prod.mk.inj h
    exact .refl _
  · obtain ⟨-, rfl⟩ := Prod.mk.inj h
    exact sameClients_setTcp ⟨rfl, rfl⟩

theorem processCliAccept_stopsIn (hinv : ClientInv s g [r.cli]) (hlast : g.last r.cli = some r)
    (hop : r.mr 3 = 5) (h : s.Waits r.cli) : StopsIn (s.processCliAccept r) Stop.NotInReply := by
  unfold processCliAccept
  refine .ite (fun _ => refuse_stopsIn h) fun _ => ?_
  split
  · exact refuse_stopsIn h
  rename_i i hfind
  obtain ⟨hi, hid⟩ := findTcp_eq_some hfind
  refine .ite (fun _ => refuse_stopsIn h) fun _ => .ite (fun _ => refuse_stopsIn h) fun hcli =>
    .ite (fun _ => refuse_stopsIn h) fun _ => .ensure notInReply_assertion fun _ => ?_
  have hpend : ClientInv (s.pending i r.cli .accept) g [] :=
    hinv.recordTcp .accept hi (not_not.mp hcli) (by decide) rfl rfl ⟨r, hlast, hid.symm, hop⟩
  split
  rename_i o t hget
  have hsame := getConnectedStream_same hget
  split
  · exact .ok
  · exact .bind (acceptConnectedStream_stopsIn (hpend.same hsame) (hsame.tcpIds ▸ hi)) fun _ _ => .ok

theorem processCliConnect_stopsIn (h : s.Waits r.cli) : StopsIn (s.processCliConnect r) Stop.NotInReply := by
  unfold processCliConnect
  refine .ite (fun _ => refuse_stopsIn h) fun _ => ?_
  split
  · exact refuse_stopsIn h
  refine .ite (fun _ => refuse_stopsIn h) fun _ => .ite (fun _ => refuse_stopsIn h) fun _ =>
    .ite (fun _ => refuse_stopsIn h) fun _ => .ensure notInReply_assertion fun _ => ?_
  split
  · exact refuse_stopsIn h
  refine .bind ?_ fun _ _ => .bind sendTcpMsg_stopsIn fun _ _ => .ok
  unfold connectStream
  refine .ite (fun _ => .error notInReply_assertion) fun _ => ?_
  split
  · exact .error notInReply_assertion
  · exact .ok

theorem processCliSendtoTcp_stopsIn (h : s.Waits r.cli) :
    StopsIn (s.processCliSendtoTcp r i frame) Stop.NotInReply := by
  unfold processCliSendtoTcp
  refine .ite (fun _ => refuse_stopsIn h) fun _ => ?_
  split
  · exact .error notInReply_assertion
  rename_i k _
  refine .ite (fun _ => refuse_stopsIn h) fun _ => ?_
  split
  · exact refuse_stopsIn h
  rename_i f _
  obtain ⟨arp, harp⟩ := arpFind_eq (s := s.autoBindTcp i f.addr) ((s.autoBindTcp i f.addr).stream k).remAddr
  have hbind : (s.autoBindTcp i f.addr).blocked = s.blocked := sameClients_autoBindTcp.blocked
  dsimp only
  rw [harp]
  refine .ite (fun _ => .ite (fun _ => refuse_stopsIn (h.of_blocked hbind)) fun _ => ?_) fun _ =>
    answer_stopsIn (h.of_blocked hbind)
  exact .bind sendArpRequest_stopsIn fun _ _ => .ok

theorem processCliSendtoUdp_stopsIn (h : s.Waits r.cli) :
    StopsIn (s.processCliSendtoUdp r i frame) Stop.NotInReply := by
  unfold processCliSendtoUdp
  refine .ite (fun _ => refuse_stopsIn h) fun _ => ?_
  split
  · exact refuse_stopsIn h
  rename_i f _
  obtain ⟨arp, harp⟩ := arpFind_eq (s := s.autoBindUdp i f.addr) (r.sinAddr 6)
  have hbind : (s.autoBindUdp i f.addr).blocked = s.blocked := sameClients_autoBindUdp.blocked
  dsimp only
  rw [harp]
  refine .ite (fun _ => .ite (fun _ => refuse_stopsIn (h.of_blocked hbind)) fun _ => ?_) fun _ =>
    answer_stopsIn (h.of_blocked hbind)
  exact .bind sendArpRequest_stopsIn fun _ _ => .ok

theorem processCliSendto_stopsIn (h : s.Waits r.cli) :
    StopsIn (s.processCliSendto r frame) Stop.NotInReply := by
  unfold processCliSendto
  refine .ite (fun _ => refuse_stopsIn h) fun _ => ?_
  split
  · exact .ite (fun _ => refuse_stopsIn h) fun _ => .ite (fun _ => refuse_stopsIn h) fun _ =>
      processCliSendtoUdp_stopsIn h
  · split
    · exact refuse_stopsIn h
    · exact .ite (fun _ => refuse_stopsIn h) fun _ => .ite (fun _ => refuse_stopsIn h) fun _ =>
        processCliSendtoTcp_stopsIn h

/-- A connection that is established has the buffer or records the client; one that is not asks for a reply to
the client that is not there. -/
theorem processCliRecvfrom_stopsIn (hkeys : r.mr 1 = s.key0 ∧ r.mr 2 = s.key1) (hop : r.mr 3 = 8)
    (hmore : ¬ s.ReceivesNoMore r) (h : s.Waits r.cli) :
    StopsIn (s.processCliRecvfrom r) Stop.NotInReply := by
  unfold processCliRecvfrom
  refine .ite (fun _ => refuse_stopsIn h) fun hform => ?_
  split
  · refine .ite (fun _ => refuse_stopsIn h) fun _ => .ite (fun _ => refuse_stopsIn h) fun _ =>
      .bind ?_ fun _ _ => .ok
    unfold processCliRecvfromUdp
    split
    · exact .bind (replyToClient_stopsIn h) fun _ _ => .ok
    · exact .ok
  split
  · exact refuse_stopsIn h
  rename_i i hfind
  obtain ⟨hi, hid⟩ := findTcp_eq_some hfind
  subst hid
  refine .ite (fun _ => refuse_stopsIn h) fun hmay => .ite (fun _ => refuse_stopsIn h) fun hcli =>
    .ite (fun _ => refuse_stopsIn h) fun hnet => .bind ?_ fun _ _ => .ok
  unfold processCliRecvfromTcp
  split
  · exact .error notInReply_assertion
  rename_i k hk
  refine .ite (fun _ => .ite (fun _ => deliver_stopsIn h) fun _ => .ok) fun hst => ?_
  exact absurd ⟨asks_of hkeys hop hform, hi, Bool.eq_true_of_not_eq_false hmay, not_not.mp hcli,
    not_not.mp hnet, k, hk, hst⟩ hmore

/-- **A request that asks for no reply to `Nil` does not stop in `reply_to_client`.** -/
theorem clientRequest_stopsIn (hinv : ClientInv s g [r.cli]) (hlast : g.last r.cli = some r)
    (hmore : ¬ s.ReceivesNoMore r) : StopsIn (s.clientRequest r frame) Stop.NotInReply := by
  have h : s.Waits r.cli := by
    refine ⟨fun h0 => hinv.nonNil ?_, (hinv.waits r.cli).mpr List.mem_cons_self⟩
    exact List.mem_cons.mpr (.inl h0.symm)
  unfold clientRequest
  refine .ite (fun _ => refuse_stopsIn h) fun _ => .ite (fun _ => refuse_stopsIn h) fun hkeys => ?_
  have hkeys : r.mr 1 = s.key0 ∧ r.mr 2 = s.key1 := by tauto
  unfold processClientRequest
  split
  · exact processCliSocket_stopsIn h
  · exact processCliClose_stopsIn h
  · exact processCliBind_stopsIn h
  · exact processCliListen_stopsIn h
  · exact processCliAccept_stopsIn hinv hlast ‹_› h
  · exact processCliConnect_stopsIn h
  · exact processCliSendto_stopsIn h
  · exact processCliRecvfrom_stopsIn hkeys ‹_› hmore h
  · exact refuse_stopsIn h

/-! ## The requests that lose a client -/

theorem findTcp_of_mem (h : i ∈ s.tcpIds) : s.findTcp i = some i := by
  unfold findTcp
  cases hf : s.tcpIds.find? (· == i) with
  | none => exact absurd (beq_self_eq_true i) (List.find?_eq_none.mp hf i h)
  | some j =>
    have hj : j = i := by simpa using List.find?_some hf
    rw [hj]

theorem findUdp_of_mem (h : i ∈ s.udpIds) : s.findUdp i = some i := by
  unfold findUdp
  cases hf : s.udpIds.find? (· == i) with
  | none => exact absurd (beq_self_eq_true i) (List.find?_eq_none.mp hf i h)
  | some j =>
    have hj : j = i := by simpa using List.find?_some hf
    rw [hj]

theorem findUdp_of_tcp (h : ClientInv s g p) (hi : i ∈ s.tcpIds) : s.findUdp i = none := by
  unfold findUdp
  refine List.find?_eq_none.mpr fun j hj hji => ?_
  rw [beq_iff_eq.mp hji] at hj
  exact h.ids.apart i hi hj

/-- A request with the keys gets to its handler. -/
theorem Asks.clientRequest_eq {op untyped typed : Nat} (h : s.Asks r op untyped typed) (hu : 3 ≤ untyped) :
    s.clientRequest r frame = s.processClientRequest r frame := by
  unfold clientRequest
  rw [if_neg (by rw [h.untyped]; omega), if_neg (not_or.mpr ⟨not_not.mpr h.key0, not_not.mpr h.key1⟩)]

theorem Asks.form {op untyped typed : Nat} (h : s.Asks r op untyped typed) :
    ¬ (r.untyped ≠ untyped ∨ r.typed ≠ typed) :=
  not_or.mpr ⟨not_not.mpr h.untyped, not_not.mpr h.typed⟩

/-- The waiting threads that are not recorded, in another order. -/
theorem ClientInv.perm {p' : List Nat} (h : ClientInv s g p) (hp : p.Perm p') : ClientInv s g p' :=
  h.moved (hp.append_right _) rfl rfl h.ids h.tcp h.udp

/-- A UDP socket with a client in its second place alone. -/
theorem records_recv {u : UdpSocket} (hidle : u.cliState = .idle) (hne : u.recvClient ≠ 0) :
    u.records = [u.recvClient] := by
  unfold UdpSocket.records
  rw [hidle, if_neg hne]
  rfl

/-- A socket that is closed while a client receives. -/
theorem closeUdp_loses (frame : Nat) (h : ClientInv s g [r.cli]) (hasks : s.Asks r 2 4 0)
    (hi : r.sock ∈ s.udpIds) (hmay : (s.udp r.sock).isOwner r.cli = true)
    (hidle : (s.udp r.sock).cliState = .idle) (hne : (s.udp r.sock).recvClient ≠ 0)
    (hown : (s.udp r.sock).owner = r.cli) :
    ∃ t, s.clientRequest r frame = .ok (false, t) ∧ ClientInv t g [(s.udp r.sock).recvClient] := by
  have hw : s.Waits r.cli := ⟨fun h0 => h.nonNil (List.mem_cons.mpr (.inl h0.symm)),
    (h.waits r.cli).mpr List.mem_cons_self⟩
  refine ⟨({ s with udpIds := s.udpIds.erase r.sock }).replied r.cli 0 [] none, ?_, ?_⟩
  · rw [hasks.clientRequest_eq (by decide)]
    unfold processClientRequest
    rw [hasks.op]
    show s.processCliClose r = _
    unfold processCliClose
    rw [if_neg hasks.form, findUdp_of_mem hi]
    dsimp only
    rw [if_neg (by rw [hmay]; decide), if_neg (not_not.mpr hidle)]
    have hrem : s.udpSocketsRemove r.sock r.cli = (false, { s with udpIds := s.udpIds.erase r.sock }) :=
      if_pos ⟨hi, hown⟩
    rw [hrem]
    dsimp only
    rw [if_neg (by decide)]
    unfold answer replyToClient
    rw [ensure_bind_of hw.1, ensure_bind_of hw.2]
    rfl
  · have hinv := h.eraseUdp hi
    rw [records_recv hidle hne] at hinv
    exact (hinv.perm (.swap _ _ _)).replied

/-- A socket on which a second client receives. -/
theorem recvUdp_loses (frame : Nat) (h : ClientInv s g [r.cli]) (hlast : g.last r.cli = some r)
    (hasks : s.Asks r 8 5 0) (hi : r.sock ∈ s.udpIds) (hmay : (s.udp r.sock).isOwner r.cli = true)
    (hidle : (s.udp r.sock).cliState = .idle) (hne : (s.udp r.sock).recvClient ≠ 0)
    (hpkts : (s.udp r.sock).pkts = []) :
    ∃ t, s.clientRequest r frame = .ok (false, t) ∧ ClientInv t g [(s.udp r.sock).recvClient] := by
  have hnil : r.cli ≠ 0 := fun h0 => h.nonNil (List.mem_cons.mpr (.inl h0.symm))
  refine ⟨s.setUdp r.sock fun u => { u with cliState := .recv, recvClient := r.cli }, ?_, ?_⟩
  · rw [hasks.clientRequest_eq (by decide)]
    unfold processClientRequest
    rw [hasks.op]
    show s.processCliRecvfrom r = _
    unfold processCliRecvfrom
    rw [if_neg hasks.form, findUdp_of_mem hi]
    dsimp only
    rw [if_neg (by rw [hmay]; decide), if_neg (not_not.mpr hidle)]
    unfold processCliRecvfromUdp
    rw [hpkts]
    rfl
  · refine h.setUdp hi ?_ ⟨fun _ => hnil, nofun, fun _ => ⟨r, hlast, rfl, hasks.op⟩⟩
    have hnew : ({ s.udp r.sock with cliState := .recv, recvClient := r.cli } : UdpSocket).records =
        [r.cli] := by
      unfold UdpSocket.records
      dsimp only
      rw [if_neg hnil]
      rfl
    rw [records_recv hidle hne]
    refine List.Perm.trans ?_ (List.Perm.append_left _ (.of_eq hnew.symm))
    exact .swap _ _ _

/-- An ARP request leaves when a buffer is free. -/
theorem sendArpRequest_of_free (h : ∃ n < framesCount, s.busy n = false) (ipif : IpIface) (iaddr : Nat) :
    ∃ mem f, s.sendArpRequest ipif iaddr = .ok (s.emitted mem f) := by
  obtain ⟨n, hn, hfree⟩ := h
  unfold sendArpRequest
  cases hget : s.framesGet with
  | none =>
    have hnone := List.find?_eq_none.mp (Option.map_eq_none_iff.mp hget) n (List.mem_range.mpr hn)
    rw [hfree] at hnone
    exact absurd rfl hnone
  | some b =>
    obtain ⟨a, t⟩ := b
    obtain ⟨m, hm, hfree', rfl, rfl⟩ := framesGet_eq_some hget
    exact ⟨_, _, send_fresh hm hfree'⟩

/-- A connection on which one client receives while another one sends and has to wait. -/
theorem sendTcp_loses (frame : Nat) (h : ClientInv s g [r.cli]) (hlast : g.last r.cli = some r)
    (hplace : s.TakesPlace r) :
    ∃ t, s.clientRequest r frame = .ok (true, t) ∧ ClientInv t g [(s.tcp r.sock).client] := by
  obtain ⟨hasks, hi, hmay, hcli, hnet, hwait, hfree, k, hk, hst, hif, hmac⟩ := hplace
  obtain ⟨f, hif⟩ := Option.isSome_iff_exists.mp hif
  obtain ⟨g', q, hbind, hg⟩ := autoBindTcp_eq s r.sock f.addr
  have hstr : (s.autoBindTcp r.sock f.addr).stream = s.stream := by rw [hbind]; rfl
  have hmac' : ((s.autoBindTcp r.sock f.addr).arpFind (s.stream k).remAddr).1 = macNil :=
    (arpFind_congr (by rw [hbind]; rfl) (by rw [hbind]; rfl) _).trans hmac
  obtain ⟨arp, harp⟩ := arpFind_eq (s := s.autoBindTcp r.sock f.addr) (s.stream k).remAddr
  have hwait' : ((s.autoBindTcp r.sock f.addr).tcp r.sock).waitArp = false := by
    rw [hbind]
    refine (congrArg (fun t : TcpSocket => t.waitArp)
      (setTcp_self fun t => { t with toSocket := g' t.toSocket })).trans ?_
    obtain ⟨b, addr, port, hgt⟩ := hg (s.tcp r.sock).toSocket
    change (g' (s.tcp r.sock).toSocket).waitArp = _
    rw [hgt]
    exact hwait
  obtain ⟨mem, ip, hrun⟩ : ∃ mem ip, s.clientRequest r frame =
      ((s.tcpBuilt r.sock k frame f.addr arp mem r.data.length).setTcp r.sock
        (tcpWaiting frame (74 + r.data.length) r.cli)).sendArpRequest f ip >>= fun w => .ok (true, w) := by
    refine ⟨?m, ?ip, ?_⟩
    rotate_left 2
    · rw [hasks.clientRequest_eq (by decide)]
      unfold processClientRequest
      rw [hasks.op]
      show s.processCliSendto r frame = _
      unfold processCliSendto
      rw [if_neg hasks.form, findUdp_of_tcp h hi, findTcp_of_mem hi]
      dsimp only
      rw [if_neg (by rw [hmay]; decide), if_neg (by tauto)]
      unfold processCliSendtoTcp
      rw [if_neg (not_not.mpr hnet), Option.mem_def.mp hk]
      dsimp only
      rw [if_neg (not_not.mpr hst), hif]
      dsimp only
      rw [hstr, harp, hdrsSpace_sub_tcp, hmac', if_pos rfl, if_neg (by exact Bool.eq_false_iff.mp hwait')]
      rfl
  have hbuilt : SameClients s (s.tcpBuilt r.sock k frame f.addr arp mem r.data.length) := sameClients_tcpBuilt
  have hbusy : (s.tcpBuilt r.sock k frame f.addr arp mem r.data.length).busy = s.busy := by
    unfold tcpBuilt
    rw [hbind]
    rfl
  have hfree' : ∃ n < framesCount, ((s.tcpBuilt r.sock k frame f.addr arp mem r.data.length).setTcp r.sock
      (tcpWaiting frame (74 + r.data.length) r.cli)).busy n = false := by
    obtain ⟨n, hn, hb⟩ := hfree
    exact ⟨n, hn, (congrFun hbusy n).trans hb⟩
  obtain ⟨mem', e, harp'⟩ := sendArpRequest_of_free hfree' f ip
  rw [harp'] at hrun
  refine ⟨_, hrun, ?_⟩
  have hone := hbuilt.tcp r.sock
  refine ClientInv.same ((h.same hbuilt).setTcp (hbuilt.tcpIds ▸ hi) ?_
    ⟨fun hc => absurd (show TcpCli.send = .idle from hc) (by decide), fun c hc => ?_⟩) sameClients_emitted
  · have hrec : ((s.tcpBuilt r.sock k frame f.addr arp mem r.data.length).tcp r.sock).records =
        [(s.tcp r.sock).client] := by
      rw [hone.records]
      unfold TcpSocket.records
      rw [hcli, if_neg (by decide)]
    rw [hrec]
    exact .swap _ _ _
  · rw [List.mem_singleton.mp hc]
    exact ⟨r, hlast, rfl, hasks.op⟩

/-- A connection that is not established has no client to reply to. -/
theorem recvTcp_stops (h : ClientInv s g p) (hmore : s.ReceivesNoMore r) :
    s.clientRequest r frame = .error .replyToNil := by
  obtain ⟨hasks, hi, hmay, hcli, hnet, k, hk, hst⟩ := hmore
  have hclient : (s.tcp r.sock).client = 0 := (h.tcp _ hi).idle hcli
  rw [hasks.clientRequest_eq (by decide)]
  unfold processClientRequest
  rw [hasks.op]
  show s.processCliRecvfrom r = _
  unfold processCliRecvfrom
  rw [if_neg hasks.form, findUdp_of_tcp h hi, findTcp_of_mem hi]
  dsimp only
  rw [if_neg (by rw [hmay]; decide), if_neg (not_not.mpr hcli), if_neg (not_not.mpr hnet)]
  unfold processCliRecvfromTcp
  rw [Option.mem_def.mp hk]
  dsimp only
  rw [if_neg hst, hclient]
  unfold replyToClient
  rw [ensure_bind_of_not (not_not.mpr rfl)]
  rfl

/-- **A request that loses a client** stops in the reply, or leaves a thread that waits and is not
recorded. -/
theorem clientRequest_loses (frame : Nat) (h : ClientInv s g [r.cli]) (hlast : g.last r.cli = some r)
    (hlose : s.LosesClient r) : s.clientRequest r frame = .error .replyToNil ∨
      ∃ kept t c, s.clientRequest r frame = .ok (kept, t) ∧ ClientInv t g [c] := by
  rcases hlose with ⟨hi, hmay, hidle, hne, ⟨hasks, hown⟩ | ⟨hasks, hpkts⟩⟩ | hplace | hmore
  · obtain ⟨t, hrun, hinv⟩ := closeUdp_loses frame h hasks hi hmay hidle hne hown
    exact .inr ⟨_, t, _, hrun, hinv⟩
  · obtain ⟨t, hrun, hinv⟩ := recvUdp_loses frame h hlast hasks hi hmay hidle hne hpkts
    exact .inr ⟨_, t, _, hrun, hinv⟩
  · obtain ⟨t, hrun, hinv⟩ := sendTcp_loses frame h hlast hplace
    exact .inr ⟨_, t, _, hrun, hinv⟩
  · exact .inl (recvTcp_stops h hmore)

/-! ## Runs -/

theorem ClientInv.disciplined (h : ClientInv s g []) : Disciplined s g where
  recorded := fun c => by
    have hnodup : s.records.Nodup := h.nodup
    have hwaits := h.waits c
    rw [List.nil_append] at hwaits
    by_cases hb : s.blocked c = true
    · rw [if_pos hb]
      exact List.count_eq_one_of_mem hnodup (hwaits.mp hb)
    · rw [if_neg hb]
      exact List.count_eq_zero_of_not_mem fun hm => hb (hwaits.mpr hm)
  nonNil := h.nonNil
  tcp := fun i hi => (h.tcp i hi).asked
  sending := fun i hi => (h.udp i hi).sending
  receiving := fun i hi => (h.udp i hi).receiving
  replies := h.count

/-- A thread that waits and is not recorded. -/
theorem ClientInv.not_disciplined (h : ClientInv s g [c]) : ¬ Disciplined s g := by
  intro hd
  have hcount := hd.recorded c
  rw [if_pos ((h.waits c).mpr List.mem_cons_self)] at hcount
  have hone : c ∈ s.records := List.count_pos_iff.mp (by omega)
  exact (List.nodup_cons.mp h.nodup).1 hone

/-- What a request loses is not changed by its arrival. -/
theorem losesClient_received (frame : Nat) : (s.receiveRequest r frame).LosesClient r ↔ s.LosesClient r := by
  have hasks : ∀ {op u w : Nat}, (s.receiveRequest r frame).Asks r op u w ↔ s.Asks r op u w :=
    ⟨fun h => ⟨h.key0, h.key1, h.op, h.untyped, h.typed⟩, fun h => ⟨h.key0, h.key1, h.op, h.untyped, h.typed⟩⟩
  have harp : ∀ ip, ((s.receiveRequest r frame).arpFind ip).1 = (s.arpFind ip).1 := arpFind_congr rfl rfl
  unfold LosesClient LosesReceiver TakesPlace ReceivesNoMore
  simp only [hasks, harp]
  exact Iff.rfl

/-- A request that is not taken leaves the server alone. -/
theorem request_refused (h : ¬ s.Takes r) : Tcpip.step s (.request r) = .ok s := by
  dsimp only [Tcpip.step]
  cases hbuf : s.cliBuf with
  | none => rfl
  | some frame =>
    refine if_pos ?_
    by_contra hc
    obtain ⟨hcli, hc⟩ := not_or.mp hc
    obtain ⟨hfree, hlen⟩ := not_or.mp hc
    refine h ⟨by rw [hbuf]; exact Option.some_ne_none _, hcli, by simpa using hfree, ?_⟩
    unfold frameSz hdrsSpace at *
    omega

/-- A request that is taken. -/
theorem request_taken (h : s.Takes r) : ∃ frame, Tcpip.step s (.request r) =
    (s.receiveRequest r frame).clientRequest r frame >>= fun a =>
      .ok (if a.1 then { a.2 with cliBuf := none } else a.2) := by
  obtain ⟨hbuf, hcli, hfree, hlen⟩ := h
  obtain ⟨frame, hframe⟩ := Option.ne_none_iff_exists'.mp hbuf
  refine ⟨frame, ?_⟩
  dsimp only [Tcpip.step]
  rw [hframe]
  refine if_neg (not_or.mpr ⟨hcli, not_or.mpr ⟨?_, by omega⟩⟩)
  rw [hfree]
  decide

end Net

namespace Discipline

open Net

variable {x x' : State} {e : Event}

/-- What happens besides the requests keeps the invariant, and does not stop in a reply. -/
theorem other_step {s s' : Net} {g : Asked} (h : ClientInv s g []) (hother : ∀ r, e ≠ .request r)
    (hstep : Tcpip.step s e = .ok s') : ClientInv s' g [] := by
  have hsame : ∀ {t}, SameClients s t → ClientInv t g [] := h.same
  cases step_cases hstep with
  | idle => exact h
  | ethGot => exact hsame (sameClients_of_eq rfl rfl rfl rfl le_rfl rfl fun _ => rfl)
  | cliGot => exact hsame (sameClients_of_eq rfl rfl rfl rfl le_rfl rfl fun _ => rfl)
  | @framed bytes eth q arp _ heth hlen hp hpacked =>
    have hr : SameClients s (s.received eth bytes arp) :=
      sameClients_of_eq rfl rfl rfl rfl le_rfl rfl fun _ => rfl
    exact hpacked.clientInv (hsame hr)
  | requested => exact absurd rfl (hother _)
  | kept => exact absurd rfl (hother _)
  | waited => exact hsame (sameClients_of_eq rfl rfl rfl rfl le_rfl rfl fun _ => rfl)

theorem other_stopsIn {s : Net} {g : Asked} (h : ClientInv s g []) (hother : ∀ r, e ≠ .request r) :
    StopsIn (Tcpip.step s e) Stop.NotInReply := by
  cases e with
  | request r => exact absurd rfl (hother r)
  | ethGet =>
    dsimp only [Tcpip.step]
    split
    · exact .ok
    · exact .error notInReply_assertion
    · exact .ok
  | clientGet =>
    dsimp only [Tcpip.step]
    split
    · exact .ok
    · exact .error notInReply_assertion
    · exact .ok
  | frame bytes =>
    dsimp only [Tcpip.step]
    split
    · exact .ok
    · refine .ite (fun _ => .error notInReply_assertion) fun _ => processEthFrame_stopsIn (h.same ?_)
      exact sameClients_of_eq rfl rfl rfl rfl le_rfl rfl fun _ => rfl
  | wait usec => exact .ok

/-- **A round keeps the invariant**, unless it is a request that loses a client. -/
theorem inv_step (h : ClientInv x.net x.asked []) (hfits : Fits x e) (hstep : step x e = .ok x') :
    ClientInv x'.net x'.asked [] := by
  obtain ⟨s, hs, hx⟩ := bind_eq_ok.mp hstep
  obtain rfl := Except.ok.inj hx
  show ClientInv s (x.asked.after x.net e) []
  cases e with
  | ethGet => exact other_step h (fun _ hr => by cases hr) hs
  | frame bytes => exact other_step h (fun _ hr => by cases hr) hs
  | clientGet => exact other_step h (fun _ hr => by cases hr) hs
  | wait usec => exact other_step h (fun _ hr => by cases hr) hs
  | request r =>
    by_cases htakes : x.net.Takes r
    · obtain ⟨frame, hrun⟩ := request_taken htakes
      obtain ⟨⟨kept, t⟩, hreq, hs⟩ := bind_eq_ok.mp (hrun.symm.trans hs)
      have hinv : ClientInv t (x.asked.take r) [] :=
        (clientRequest_cases hreq).clientInv (h.received htakes) (if_pos rfl)
          (mt (losesClient_received frame).mp (hfits htakes))
      have hafter : x.asked.after x.net (.request r) = x.asked.take r := if_pos htakes
      rw [hafter, ← Except.ok.inj hs]
      refine hinv.same ?_
      cases kept with
      | false => exact .refl t
      | true => exact sameClients_of_eq rfl rfl rfl rfl le_rfl rfl fun _ => rfl
    · rw [request_refused htakes] at hs
      have hafter : x.asked.after x.net (.request r) = x.asked := if_neg htakes
      rw [hafter, ← Except.ok.inj hs]
      exact h

/-- A round that loses no client is sound. -/
theorem sound_of_fits (h : ClientInv x.net x.asked []) (hfits : Fits x e) : Sound x e := by
  refine ⟨?_, fun x' hstep => ⟨(inv_step h hfits hstep).disciplined, ?_⟩⟩
  · refine .bind ?_ fun _ _ => .ok
    cases e with
    | ethGet => exact other_stopsIn h fun _ hr => by cases hr
    | frame bytes => exact other_stopsIn h fun _ hr => by cases hr
    | clientGet => exact other_stopsIn h fun _ hr => by cases hr
    | wait usec => exact other_stopsIn h fun _ hr => by cases hr
    | request r =>
      by_cases htakes : x.net.Takes r
      · obtain ⟨frame, hrun⟩ := request_taken htakes
        rw [hrun]
        have hlose := mt (losesClient_received frame).mp (hfits htakes)
        exact .bind (clientRequest_stopsIn (h.received htakes) (if_pos rfl) fun hmore =>
          hlose (.inr (.inr hmore))) fun _ _ => .ok
      · rw [request_refused htakes]
        exact .ok
  · rintro r rfl c hc
    obtain ⟨s, hs, hx⟩ := bind_eq_ok.mp hstep
    obtain rfl := Except.ok.inj hx
    show s.blocked c = x.net.blocked c
    by_cases htakes : x.net.Takes r
    · obtain ⟨frame, hrun⟩ := request_taken htakes
      obtain ⟨⟨kept, t⟩, hreq, hs⟩ := bind_eq_ok.mp (hrun.symm.trans hs)
      have hothers := (clientRequest_cases hreq).others (h.received htakes) (if_pos rfl) hc
      rw [← Except.ok.inj hs]
      have hkept : (if kept then { t with cliBuf := none } else t).blocked = t.blocked := by
        cases kept <;> rfl
      exact (congrFun hkept c).trans (hothers.trans (if_neg hc))
    · rw [request_refused htakes] at hs
      rw [← Except.ok.inj hs]

/-- A request that loses a client is not sound. -/
theorem fits_of_sound (h : ClientInv x.net x.asked []) (hsound : Sound x e) : Fits x e := by
  cases e with
  | ethGet => trivial
  | frame bytes => trivial
  | clientGet => trivial
  | wait usec => trivial
  | request r =>
    intro htakes hlose
    obtain ⟨hstop, hgood⟩ := hsound
    obtain ⟨frame, hrun⟩ := request_taken htakes
    have hafter : x.asked.after x.net (.request r) = x.asked.take r := if_pos htakes
    rcases clientRequest_loses frame (h.received htakes) (if_pos rfl)
      ((losesClient_received frame).mpr hlose) with herr | ⟨kept, t, c, hok, hinv⟩
    · have herr' : step x (.request r) = .error .replyToNil := by
        unfold step
        rw [hrun, herr]
        rfl
      exact (hstop _ herr').1 rfl
    · have hok' : step x (.request r) =
          .ok ⟨if kept then { t with cliBuf := none } else t, x.asked.take r⟩ := by
        unfold step
        rw [hrun, hok, hafter]
        rfl
      refine ClientInv.not_disciplined (hinv.same ?_) (hgood _ hok').1
      cases kept with
      | false => exact .refl t
      | true => exact sameClients_of_eq rfl rfl rfl rfl le_rfl rfl fun _ => rfl

/-- **The request/reply discipline.**  For every interleaving of requests and frames, the rounds are all sound
if and only if no request that is taken loses a client. -/
theorem discipline_iff (key0 key1 : Nat) (es : List Event) :
    Meets step Sound (start key0 key1) es ↔ Meets step Fits (start key0 key1) es := by
  have hinit : ClientInv (start key0 key1).net (start key0 key1).asked [] := clientInv_init
  constructor
  · exact Meets.of_invariant (I := fun x => ClientInv x.net x.asked [])
      (fun x e x' hx hs hstep => inv_step hx (fits_of_sound hx hs) hstep)
      (fun x e hx hs => fits_of_sound hx hs) hinit
  · exact Meets.of_invariant (I := fun x => ClientInv x.net x.asked [])
      (fun x e x' hx hf hstep => inv_step hx hf hstep) (fun x e hx hf => sound_of_fits hx hf) hinit

/-! ## Two runs -/

def udpSocketRequest (cli : Nat) : Event := .request (.from cli 1 6 0 [afInet, sockDgram, 0] [])

def recvRequest (cli sock : Nat) : Event := .request (.from cli 8 5 0 [sock] [])

/-- A datagram of one byte for the host. -/
def sendToHost (cli sock : Nat) : Event :=
  .request (.from cli 7 9 2 (sock :: 0 :: sockaddrIn hostAddr 7) [65])

/-- The ARP reply of the host. -/
def arpReplyFrame : Event :=
  let m := buildArp (buildEth (fun _ => 0) 0 hostMac ethAddr etypeArp) 14 hostMac hostAddr 0xc0a80064
  .frame ((m.put16 20 2).slice 0 42)

/-- Two clients of one socket: `bob` receives, `alice` sends and is answered after the ARP reply. -/
def bothRun : List Event :=
  [.clientGet, .ethGet, udpSocketRequest alice, recvRequest bob 1, sendToHost alice 1, arpReplyFrame,
    .clientGet]

/-- `alice` has her two replies, and `bob` is recorded. -/
example : okAnd (runAll step (start 0 0) bothRun)
    (fun x => x.net.records == [bob] && repliesTo alice x.net.out == 2) = true := by
  decide +kernel

/-- Now `alice` receives as well: she takes the place of `bob`, who waits and is not recorded. -/
theorem bob_lost : (∃ x, runAll step (start 0 0) (bothRun ++ [recvRequest alice 1]) = .ok x ∧
      x.net.blocked bob = true ∧ x.net.records = [alice]) ∧
    ¬ Meets step Sound (start 0 0) (bothRun ++ [recvRequest alice 1]) := by
  constructor
  · have hok : okAnd (runAll step (start 0 0) (bothRun ++ [recvRequest alice 1]))
        (fun x => x.net.blocked bob && x.net.records == [alice]) = true := by
      decide +kernel
    obtain ⟨x, hrun, hx⟩ := okAnd_iff.mp hok
    obtain ⟨hblocked, hrecords⟩ := (Bool.and_eq_true _ _).mp hx
    exact ⟨x, hrun, hblocked, beq_iff_eq.mp hrecords⟩
  · intro h
    have hfits := Meets.of_invariant (I := fun x => ClientInv x.net x.asked [])
      (fun x e x' hx hs hstep => inv_step hx (fits_of_sound hx hs) hstep)
      (fun x e hx hs => fits_of_sound hx hs) clientInv_init h
    exact absurd hfits (by decide +kernel)

end Discipline

end Tcpip
end Wrmos
