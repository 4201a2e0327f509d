import Wrmos.TcpipSend

/-!
# The TCP/IP server: what a segment does, in cases

For each part of `process_tcp_to_socket` one inductive type with the states it can leave when it
returns, and one theorem that there are no others.  A constructor carries the checks that were
passed on the way; the state is written with the updates of the server's own parts, `Sent` for
`send_tcp_msg` and `answered` for a reply that ends the client operation of a socket.

Every invariant of the server is proved by going through these cases.
-/

namespace Wrmos
namespace Tcpip

open Lib

namespace Net

variable {s s' : Net} {i k : Nat} {seg : Seg}

/-- A client that waits for a reply. -/
def Waits (s : Net) (cli : Nat) : Prop := cli ≠ 0 ∧ s.blocked cli = true

theorem replyToClient_cases {cli ecode n : Nat} {words : List Nat} {bf : Option Buf}
    (h : s.replyToClient cli ecode words bf = .ok (n, s')) :
    s.Waits cli ∧ n = sentLen (s.fitted cli bf) ∧ s' = s.replied cli ecode words bf := by
  obtain ⟨h1, h2, h3, rfl⟩ := replyToClient_eq_ok h
  exact ⟨⟨h1, h2⟩, h3, rfl⟩

/-- The client of a socket got its reply, and its operation is over. -/
def answered (s : Net) (i ecode : Nat) (words : List Nat) (bf : Option Buf) : Net :=
  (s.replied (s.tcp i).client ecode words bf).tcpIdle i

@[simp] theorem answered_self {ecode : Nat} {words : List Nat} {bf : Option Buf} :
    (s.answered i ecode words bf).tcp i = { s.tcp i with cliState := .idle, client := 0 } := if_pos rfl

theorem answered_of_ne {ecode j : Nat} {words : List Nat} {bf : Option Buf} (h : j ≠ i) :
    (s.answered i ecode words bf).tcp j = s.tcp j := if_neg h

/-- A reply to the client of a socket, the end of its operation. -/
theorem answer_cases {ecode : Nat} {words : List Nat}
    (h : (s.replyToClient (s.tcp i).client ecode words none >>= fun p => .ok (p.2.tcpIdle i)) = .ok s') :
    s.Waits (s.tcp i).client ∧ s' = s.answered i ecode words none := by
  obtain ⟨⟨n, t⟩, hr, h⟩ := bind_eq_ok.mp h
  obtain ⟨hw, -, rfl⟩ := replyToClient_cases hr
  exact ⟨hw, (Except.ok.inj h).symm⟩

/-! ## The stream of a segment -/

/-- The state after `add_stream` gave a listening socket the stream in node `k`. -/
def withStream (s : Net) (i k : Nat) (l : NodeList Unit) (addr port : Nat) : Net :=
  ({ s with
      allstreams := l
      stream := fun j => if j = k then
        { Stream.mk' addr port with initSeqTx := 123, seqTx := 123 } else s.stream j }).setTcp i fun t =>
    { t with streams := t.streams ++ [k] }

/-- What `selectStream` finds. -/
inductive Selected (s : Net) (i : Nat) (seg : Seg) : Option Nat → Net → Prop where
  | connecting {k : Nat} (hnet : (s.tcp i).netState = .listen) (hbound : (s.tcp i).bound = true)
      (hfind : s.findStream (s.tcp i).streams seg.src seg.sport = some k) :
      Selected s i seg (some k) s
  | added {k : Nat} {l : NodeList Unit} (hnet : (s.tcp i).netState = .listen)
      (hbound : (s.tcp i).bound = true)
      (hfind : s.findStream (s.tcp i).streams seg.src seg.sport = none)
      (hsyn : seg.has flagSyn = true) (hroom : (s.tcp i).streams.length ≠ backlogMax)
      (hpush : s.allstreams.pushBack () = some (l, k)) :
      Selected s i seg (some k) (s.withStream i k l seg.src seg.sport)
  | unknown (hnet : (s.tcp i).netState = .listen)
      (hfind : s.findStream (s.tcp i).streams seg.src seg.sport = none)
      (hsyn : seg.has flagSyn = false) : Selected s i seg none s
  | connection {k : Nat} (hnet : (s.tcp i).netState = .connection)
      (hstream : (s.tcp i).stream = some k) : Selected s i seg (some k) s

/-- A stream that is written after it was given to a socket. -/
theorem setStream_added {l : NodeList Unit} {st : Stream} {g : TcpSocket → TcpSocket}
    {f : Stream → Stream} :
    (({ s with
        allstreams := l
        stream := fun j => if j = k then st else s.stream j } : Net).setTcp i g).setStream k f =
      ({ s with
        allstreams := l
        stream := fun j => if j = k then f st else s.stream j } : Net).setTcp i g := by
  unfold setStream setTcp
  congr 1
  funext j
  by_cases hj : j = k <;> simp [hj]

theorem addStream_eq_some {addr port : Nat} (h : s.addStream i addr port = some (k, s')) :
    (s.tcp i).streams.length ≠ backlogMax ∧ ∃ l, s.allstreams.pushBack () = some (l, k) ∧
      s' = ({ s with
        allstreams := l
        stream := fun j => if j = k then Stream.mk' addr port else s.stream j }).setTcp i fun t =>
          { t with streams := t.streams ++ [k] } := by
  unfold addStream streamsAdd at h
  split at h
  · cases h
  · rename_i hroom
    refine ⟨hroom, ?_⟩
    split at h
    · cases h
    · rename_i l n hpush
      rw [Option.map_some, Option.some.injEq, Prod.mk.injEq] at h
      obtain ⟨rfl, rfl⟩ := h
      exact ⟨l, hpush, rfl⟩

theorem selectStream_cases {o : Option Nat} (h : s.selectStream i seg = .ok (o, s')) :
    Selected s i seg o s' := by
  unfold selectStream at h
  split at h
  · rename_i hnet
    obtain ⟨hbound, h⟩ := ensure_bind_eq_ok.mp h
    split at h
    · rename_i k hfind
      obtain ⟨rfl, rfl⟩ := Prod.mk.inj (Except.ok.inj h)
      exact .connecting hnet hbound hfind
    · rename_i hfind
      split at h
      · rename_i hsyn
        split at h
        · cases h
        · rename_i k t hadd
          obtain ⟨rfl, rfl⟩ := Prod.mk.inj (Except.ok.inj h)
          obtain ⟨hroom, l, hpush, rfl⟩ := addStream_eq_some hadd
          rw [setStream_added]
          exact .added hnet hbound hfind hsyn hroom hpush
      · rename_i hsyn
        obtain ⟨rfl, rfl⟩ := Prod.mk.inj (Except.ok.inj h)
        exact .unknown hnet hfind (by simpa using hsyn)
  · rename_i hnet
    split at h
    · cases h
    · rename_i k hstream
      obtain ⟨rfl, rfl⟩ := Prod.mk.inj (Except.ok.inj h)
      exact .connection hnet hstream
  · cases h

/-! ## The parts of the switch -/

/-- `Rst`: the counters go up, the segment is answered, the stream is closed and the client that
connects is told. -/
theorem processRst_cases (h : s.processRst i k = .ok s') :
    ∃ t, Sent (s.setStream k fun st =>
        { st with seqTx := seqAdd st.seqTx 1, seqRx := seqAdd st.seqRx 1 }) i k t ∧
      (t.tcp i).cliState = .connect ∧ t.Waits (t.tcp i).client ∧
      s' = (t.setStream k fun st => { st with state := .closed }).answered i 11 [] none := by
  unfold processRst at h
  obtain ⟨t, hsend, h⟩ := bind_eq_ok.mp h
  obtain ⟨hcli, h⟩ := ensure_bind_eq_ok.mp h
  obtain ⟨hw, rfl⟩ := answer_cases h
  exact ⟨t, sendTcpMsg_sent hsend, hcli, hw, rfl⟩

/-- The state after `accept_connected_stream` made the socket `j` for the stream `k`. -/
def accepted (s : Net) (i k j iaddr : Nat) : Net :=
  let t := s.tcp i
  (({ s with
      cnt := j
      tcpIds := s.tcpIds ++ [j]
      tcp := fun l => if l = j then
        ⟨Socket.mk' t.owner t.ownerThrnoBegin t.ownerThrnoEnd j, .connection, .idle, [], [], 0, some k⟩
        else s.tcp l }).remFromQueue i k).setTcp j fun u =>
    { u with bound := true, saddrAddr := iaddr, saddrPort := t.saddrPort }

/-- What `accept_connected_stream` does. -/
inductive Accepted (s : Net) (i k : Nat) : Net → Prop where
  | full {iaddr : Nat} (hcli : (s.tcp i).cliState = .accept) (hnet : (s.tcp i).netState = .listen)
      (hstate : (s.stream k).state = .established)
      (haddr : acceptAddr (s.tcp i).toSocket (s.stream k).remAddr = some iaddr)
      (hfull : s.tcpIds.length = listCap) (hw : s.Waits (s.tcp i).client) :
      Accepted s i k (s.answered i 7 [] none)
  | done {iaddr : Nat} (hcli : (s.tcp i).cliState = .accept) (hnet : (s.tcp i).netState = .listen)
      (hbound : (s.tcp i).bound = true) (hstate : (s.stream k).state = .established)
      (haddr : acceptAddr (s.tcp i).toSocket (s.stream k).remAddr = some iaddr)
      (hroom : s.tcpIds.length ≠ listCap)
      (hw : (s.accepted i k (s.cnt + 1) iaddr).Waits ((s.accepted i k (s.cnt + 1) iaddr).tcp i).client) :
      Accepted s i k ((s.accepted i k (s.cnt + 1) iaddr).answered i 0
        ((s.cnt + 1) :: sockaddrIn ((s.accepted i k (s.cnt + 1) iaddr).stream k).remAddr
          ((s.accepted i k (s.cnt + 1) iaddr).stream k).remPort) none)

theorem acceptConnectedStream_cases (h : s.acceptConnectedStream i k = .ok s') :
    Accepted s i k s' := by
  unfold acceptConnectedStream at h
  obtain ⟨hcli, h⟩ := ensure_bind_eq_ok.mp h
  obtain ⟨hstate, h⟩ := ensure_bind_eq_ok.mp h
  split at h
  · cases h
  · rename_i iaddr haddr
    obtain ⟨⟨j, t⟩, hadd, h⟩ := bind_eq_ok.mp h
    unfold tcpSocketsAddTo tcpSocketsAdd at hadd
    obtain ⟨hnet, hadd⟩ := ensure_bind_eq_ok.mp hadd
    by_cases hfull : s.tcpIds.length = listCap
    · simp only [if_pos hfull] at hadd
      obtain ⟨rfl, rfl⟩ := Prod.mk.inj (Except.ok.inj hadd)
      obtain ⟨hw, rfl⟩ := answer_cases h
      exact .full hcli hnet hstate haddr hfull hw
    · simp only [if_neg hfull, Option.isSome_some, if_true] at hadd
      obtain ⟨hbound, hadd⟩ := ensure_bind_eq_ok.mp hadd
      obtain ⟨rfl, rfl⟩ := Prod.mk.inj (Except.ok.inj hadd)
      obtain ⟨hw, rfl⟩ := answer_cases h
      exact .done hcli hnet hbound hstate haddr hfull hw

/-- The stream `k` of a listening socket goes to its connected queue. -/
def queued (s : Net) (i k : Nat) : Net :=
  (s.setStream k fun st => { st with state := .established }).setTcp i fun t =>
    { t with connectedQueue := t.connectedQueue ++ [k], streams := t.streams.erase k }

/-- `Syn_received` and `Ack`: the connection waits for `accept`, which a client has called. -/
theorem tcpSynReceived_cases (h : s.tcpSynReceived i seg k = .ok s') :
    seg.has flagAck = true ∧ (s.tcp i).netState = .listen ∧ (s.tcp i).cliState = .accept ∧
      (s.tcp i).bound = true ∧ k ∈ (s.tcp i).streams ∧
      (s.tcp i).connectedQueue.length ≠ (s.tcp i).connectedQueueSz ∧ Accepted (s.queued i k) i k s' := by
  unfold tcpSynReceived moveToConnectedQueue at h
  split at h
  · rename_i hack
    obtain ⟨⟨rc, t⟩, hmove, h⟩ := bind_eq_ok.mp h
    obtain ⟨hnet, hmove⟩ := ensure_bind_eq_ok.mp hmove
    obtain ⟨hcli, hmove⟩ := ensure_bind_eq_ok.mp hmove
    obtain ⟨hbound, hmove⟩ := ensure_bind_eq_ok.mp hmove
    obtain ⟨hrc, h⟩ := ensure_bind_eq_ok.mp h
    split at hmove
    · obtain ⟨rfl, rfl⟩ := Prod.mk.inj (Except.ok.inj hmove)
      exact absurd hrc (by decide)
    · rename_i hsz
      split at hmove
      · obtain ⟨rfl, rfl⟩ := Prod.mk.inj (Except.ok.inj hmove)
        exact absurd hrc (by decide)
      · rename_i hk
        obtain ⟨rfl, rfl⟩ := Prod.mk.inj (Except.ok.inj hmove)
        have hacc : ((s.queued i k).tcp i).cliState = .accept := by
          unfold queued setTcp
          simpa using hcli
        change (if ((s.queued i k).tcp i).cliState = .accept then _ else _) = _ at h
        rw [if_pos hacc] at h
        exact ⟨hack, hnet, hcli, hbound, not_not.mp hk, hsz, acceptConnectedStream_cases h⟩
  · cases h

/-- The buffer of the stream `k` went to a client that waits. -/
def delivered (s : Net) (k cli : Nat) : Net :=
  let st := s.stream k
  (s.replied cli 0 (sockaddrIn st.remAddr st.remPort) (some (.whole st.buf))).setStream k fun st =>
    { st with buf := st.buf.drop (st.buf.take (s.room cli)).length }

theorem delivered_self {cli : Nat} : (s.delivered k cli).stream k =
    { s.stream k with
      buf := (s.stream k).buf.drop ((s.stream k).buf.take (s.room cli)).length } := if_pos rfl

theorem deliver_cases {cli : Nat} (h : s.deliver k cli = .ok s') :
    s.Waits cli ∧ s' = s.delivered k cli := by
  unfold deliver at h
  obtain ⟨⟨n, t⟩, hr, h⟩ := bind_eq_ok.mp h
  obtain ⟨hw, hn, rfl⟩ := replyToClient_cases hr
  refine ⟨hw, ?_⟩
  rw [← Except.ok.inj h, hn, sentLen_whole]
  unfold delivered setStream replied
  congr 1
  funext j
  by_cases hj : j = k
  · rw [if_pos hj, if_pos hj, hj]
  · rw [if_neg hj, if_neg hj]

/-- The state after the payload went to the buffer. -/
def appended (s : Net) (seg : Seg) (k : Nat) : Net :=
  s.setStream k fun st => { st with buf := st.buf ++ seg.payload }

/-- What `Psh` does. -/
inductive Pushed (s : Net) (i : Nat) (seg : Seg) (k : Nat) : Net → Prop where
  | kept (h : ¬ (seg.has flagPsh = true ∧ (s.tcp i).cliState = .recv)) : Pushed s i seg k s
  | delivered (hpsh : seg.has flagPsh = true) (hcli : (s.tcp i).cliState = .recv)
      (hw : s.Waits (s.tcp i).client) :
      Pushed s i seg k ((s.delivered k (s.tcp i).client).tcpIdle i)

theorem tcpPush_cases (h : s.tcpPush i seg k = .ok s') : Pushed s i seg k s' := by
  unfold tcpPush at h
  split at h
  · rename_i hc
    obtain ⟨t, hd, h⟩ := bind_eq_ok.mp h
    obtain ⟨hw, rfl⟩ := deliver_cases hd
    obtain rfl := Except.ok.inj h
    exact .delivered hc.1 hc.2 hw
  · rename_i hc
    obtain rfl := Except.ok.inj h
    exact .kept hc

/-- What `Fin` does to an established connection. -/
inductive Finished (s : Net) (i : Nat) (seg : Seg) (k : Nat) : Net → Prop where
  | no (hfin : seg.has flagFin = false) : Finished s i seg k s
  | quiet {t : Net} (hfin : seg.has flagFin = true)
      (hsent : Sent (s.setStream k fun st => { st with seqRx := seqAdd st.seqRx 1 }) i k t)
      (hcli : (t.tcp i).cliState ≠ .recv) :
      Finished s i seg k (t.setStream k fun st => { st with state := .lastAck })
  | told {t : Net} (hfin : seg.has flagFin = true)
      (hsent : Sent (s.setStream k fun st => { st with seqRx := seqAdd st.seqRx 1 }) i k t)
      (hcli : (t.tcp i).cliState = .recv) (hw : t.Waits (t.tcp i).client) :
      Finished s i seg k (((t.setStream k fun st => { st with state := .lastAck }).replied
        (t.tcp i).client 0 (sockaddrIn
          ((t.setStream k fun st => { st with state := .lastAck }).stream k).remAddr
          ((t.setStream k fun st => { st with state := .lastAck }).stream k).remPort) (some (.whole [])) |>.setStream k
        fun st => { st with buf := [] }).tcpIdle i)

theorem tcpFin_cases (h : s.tcpFin i seg k = .ok s') : Finished s i seg k s' := by
  unfold tcpFin at h
  split at h
  · rename_i hfin
    obtain ⟨t, hsend, h⟩ := bind_eq_ok.mp h
    dsimp only at h
    split at h
    · rename_i hcli
      obtain ⟨⟨n, u⟩, hr, h⟩ := bind_eq_ok.mp h
      obtain ⟨hw, -, rfl⟩ := replyToClient_cases hr
      obtain rfl := Except.ok.inj h
      exact .told hfin (sendTcpMsg_sent hsend) hcli hw
    · rename_i hcli
      obtain rfl := Except.ok.inj h
      exact .quiet hfin (sendTcpMsg_sent hsend) hcli
  · rename_i hfin
    obtain rfl := Except.ok.inj h
    exact .no (by simpa using hfin)

/-- The stream in node `k` is freed and the socket `i` taken out of the list. -/
def removed (s : Net) (i k : Nat) : Net :=
  { s with allstreams := s.allstreams.erase k, tcpIds := s.tcpIds.erase i }

theorem remStream_eq_ok (h : s.remStream i = .ok s') :
    (s.tcp i).netState = .connection ∧ (s.tcp i).cliState = .closed ∧ (s.tcp i).bound = true ∧
      ∃ k, (s.tcp i).stream = some k ∧ k ∈ s.allstreams.nodes ∧
        s' = { s with allstreams := s.allstreams.erase k } := by
  unfold remStream streamsRemove at h
  obtain ⟨hnet, h⟩ := ensure_bind_eq_ok.mp h
  obtain ⟨hcli, h⟩ := ensure_bind_eq_ok.mp h
  obtain ⟨hbound, h⟩ := ensure_bind_eq_ok.mp h
  split at h
  · cases h
  · rename_i k hk
    by_cases hmem : k ∈ s.allstreams.nodes
    · simp only [if_pos hmem] at h
      obtain ⟨-, h⟩ := ensure_bind_eq_ok.mp h
      exact ⟨hnet, hcli, hbound, k, hk, hmem, (Except.ok.inj h).symm⟩
    · simp only [if_neg hmem] at h
      obtain ⟨hc, -⟩ := ensure_bind_eq_ok.mp h
      cases hc

theorem removeTcp_eq_ok {owner : Nat} (h : s.removeTcp i owner = .ok s') :
    i ∈ s.tcpIds ∧ (s.tcp i).owner = owner ∧ s' = { s with tcpIds := s.tcpIds.erase i } := by
  unfold removeTcp tcpSocketsRemove at h
  by_cases hc : i ∈ s.tcpIds ∧ (s.tcp i).owner = owner
  · simp only [if_pos hc] at h
    obtain ⟨-, h⟩ := ensure_bind_eq_ok.mp h
    exact ⟨hc.1, hc.2, (Except.ok.inj h).symm⟩
  · simp only [if_neg hc] at h
    obtain ⟨hf, -⟩ := ensure_bind_eq_ok.mp h
    cases hf

/-- What a segment does to a connection that is being closed by its client. -/
inductive FinWaited (s : Net) (i : Nat) (seg : Seg) (k : Nat) : Net → Prop where
  | no (h : ¬ (seg.has flagFin = true ∧ seg.has flagAck = true)) : FinWaited s i seg k s
  | closed {t : Net} {l : Nat} (hfin : seg.has flagFin = true) (hack : seg.has flagAck = true)
      (hsent : Sent (s.setStream k fun st =>
        { st with state := .timeWait, seqRx := seqAdd st.seqRx 1, seqTx := seqAdd st.seqTx 1 }) i k t)
      (hcli : (t.tcp i).cliState = .close) (hw : t.Waits (t.tcp i).client)
      (hnet : (t.tcp i).netState = .connection) (hstream : (t.tcp i).stream = some l)
      (hl : l ∈ t.allstreams.nodes) (hi : i ∈ t.tcpIds) (hown : (t.tcp i).owner = (t.tcp i).client) :
      FinWaited s i seg k (((t.replied (t.tcp i).client 0 [] none).setTcp i fun t =>
        { t with cliState := .closed }).removed i l)

theorem tcpFinWait1_cases (h : s.tcpFinWait1 i seg k = .ok s') : FinWaited s i seg k s' := by
  unfold tcpFinWait1 at h
  split at h
  · rename_i hc
    obtain ⟨hfin, hack⟩ := Bool.and_eq_true_iff.mp hc
    obtain ⟨t, hsend, h⟩ := bind_eq_ok.mp h
    obtain ⟨hcli, h⟩ := ensure_bind_eq_ok.mp h
    obtain ⟨⟨n, u⟩, hr, h⟩ := bind_eq_ok.mp h
    obtain ⟨hw, -, rfl⟩ := replyToClient_cases hr
    obtain ⟨v, hrem, h⟩ := bind_eq_ok.mp h
    obtain ⟨hnet, -, -, l, hl, hmem, rfl⟩ := remStream_eq_ok hrem
    obtain ⟨hi, hown, rfl⟩ := removeTcp_eq_ok h
    rw [setTcp_self] at hnet hl hown
    have hnet' : (t.tcp i).netState = .connection := hnet
    have hl' : (t.tcp i).stream = some l := hl
    have hown' : (t.tcp i).owner = (t.tcp i).client := hown
    exact .closed hfin hack (sendTcpMsg_sent hsend) hcli hw hnet' hl' hmem hi hown'
  · rename_i hc
    obtain rfl := Except.ok.inj h
    exact .no fun hb => hc (Bool.and_eq_true_iff.mpr hb)

/-- `Last_ack` and `Ack`: the connection is closed.  Where a client waits for that, `rem_stream()`
fails. -/
theorem tcpLastAck_cases (h : s.tcpLastAck i seg k = .ok s') :
    seg.has flagAck = true ∧ (s.tcp i).cliState ≠ .close ∧
      s' = s.setStream k fun st => { st with state := .closed } := by
  unfold tcpLastAck at h
  split at h
  · rename_i hack
    dsimp only at h
    split at h
    · rename_i hcli
      obtain ⟨t, hrem, -⟩ := bind_eq_ok.mp h
      obtain ⟨-, hc, -⟩ := remStream_eq_ok hrem
      exact absurd (hcli.symm.trans hc) (by decide)
    · rename_i hcli
      exact ⟨hack, hcli, (Except.ok.inj h).symm⟩
  · cases h

/-- What a segment does, by the state of its stream. -/
inductive Switched (s : Net) (i : Nat) (seg : Seg) (k : Nat) : Net → Prop where
  | listen (hst : (s.stream k).state = .listen) : Switched s i seg k s
  | closed (hst : (s.stream k).state = .closed) (hsyn : seg.has flagSyn = false) : Switched s i seg k s
  | opened {t : Net} (hst : (s.stream k).state = .closed) (hsyn : seg.has flagSyn = true)
      (hsent : Sent s i k t) :
      Switched s i seg k (t.setStream k fun st =>
        { st with seqTx := seqAdd st.seqTx 1, state := .synReceived })
  | connected {t : Net} (hst : (s.stream k).state = .synSent) (hack : seg.has flagAck = true)
      (hsent : Sent (s.setStream k fun st =>
        { st with state := .established, seqTx := seqAdd st.seqTx 1 }) i k t)
      (hcli : (t.tcp i).cliState = .connect) (hw : t.Waits (t.tcp i).client) :
      Switched s i seg k (t.answered i 0 [] none)
  | accepted {s' : Net} (hst : (s.stream k).state = .synReceived) (hack : seg.has flagAck = true)
      (hnet : (s.tcp i).netState = .listen) (hcli : (s.tcp i).cliState = .accept)
      (hbound : (s.tcp i).bound = true) (hk : k ∈ (s.tcp i).streams)
      (hsz : (s.tcp i).connectedQueue.length ≠ (s.tcp i).connectedQueueSz)
      (hacc : Accepted (s.queued i k) i k s') : Switched s i seg k s'
  | received {t s' : Net} (hst : (s.stream k).state = .established)
      (hlen : seg.payload.length ≤ streamBufSz - (s.stream k).buf.length)
      (hpush : Pushed (s.appended seg k) i seg k t) (hfin : Finished t i seg k s') :
      Switched s i seg k s'
  | finWait1 {s' : Net} (hst : (s.stream k).state = .finWait1) (h : FinWaited s i seg k s') :
      Switched s i seg k s'
  | lastAck (hst : (s.stream k).state = .lastAck) (hack : seg.has flagAck = true)
      (hcli : (s.tcp i).cliState ≠ .close) :
      Switched s i seg k (s.setStream k fun st => { st with state := .closed })

theorem tcpSwitch_cases (h : s.tcpSwitch i seg k = .ok s') : Switched s i seg k s' := by
  unfold tcpSwitch at h
  split at h
  · rename_i hst
    unfold tcpClosed at h
    split at h
    · rename_i hsyn
      obtain ⟨t, hsend, h⟩ := bind_eq_ok.mp h
      obtain rfl := Except.ok.inj h
      exact .opened hst hsyn (sendTcpMsg_sent hsend)
    · rename_i hsyn
      obtain rfl := Except.ok.inj h
      exact .closed hst (by simpa using hsyn)
  · rename_i hst
    unfold tcpSynSent at h
    split at h
    · rename_i hack
      obtain ⟨t, hsend, h⟩ := bind_eq_ok.mp h
      obtain ⟨hcli, h⟩ := ensure_bind_eq_ok.mp h
      obtain ⟨hw, rfl⟩ := answer_cases h
      exact .connected hst hack (sendTcpMsg_sent hsend) hcli hw
    · cases h
  · rename_i hst
    obtain ⟨hack, hnet, hcli, hbound, hk, hsz, hacc⟩ := tcpSynReceived_cases h
    exact .accepted hst hack hnet hcli hbound hk hsz hacc
  · rename_i hst
    obtain ⟨t, happ, h⟩ := bind_eq_ok.mp h
    obtain ⟨hlen, happ⟩ := ensure_bind_eq_ok.mp happ
    obtain rfl := Except.ok.inj happ
    obtain ⟨u, hpush, hfin⟩ := bind_eq_ok.mp h
    exact .received hst hlen (tcpPush_cases hpush) (tcpFin_cases hfin)
  · rename_i hst
    exact .finWait1 hst (tcpFinWait1_cases h)
  · rename_i hst
    obtain ⟨hack, hcli, rfl⟩ := tcpLastAck_cases h
    exact .lastAck hst hack hcli
  · cases h
  · cases h
  · cases h
  · cases h
  · rename_i hst
    obtain rfl := Except.ok.inj h
    exact .listen hst

/-- What a segment does to the stream it is for. -/
inductive Processed (s : Net) (i : Nat) (seg : Seg) (k : Nat) : Net → Prop where
  | wrongSeq (h : wrongSeq seg (s.stream k) = true) : Processed s i seg k s
  | plain {s' : Net} (hseq : Net.wrongSeq seg (s.stream k) = false) (hrst : seg.has flagRst = false)
      (h : Switched (s.setStream k (rxSeq seg)) i seg k s') : Processed s i seg k s'
  | reset {t s' : Net} (hseq : Net.wrongSeq seg (s.stream k) = false) (hrst : seg.has flagRst = true)
      (ht : (s.setStream k (rxSeq seg)).processRst i k = .ok t) (h : Switched t i seg k s') :
      Processed s i seg k s'

theorem processTcpToStream_cases (h : s.processTcpToStream i seg k = .ok s') :
    Processed s i seg k s' := by
  unfold processTcpToStream at h
  split at h
  · rename_i hseq
    obtain rfl := Except.ok.inj h
    exact .wrongSeq hseq
  · rename_i hseq
    obtain ⟨t, hrst, h⟩ := bind_eq_ok.mp h
    split at hrst
    · rename_i hr
      exact .reset (by simpa using hseq) hr hrst (tcpSwitch_cases h)
    · rename_i hr
      obtain rfl := Except.ok.inj hrst
      exact .plain (by simpa using hseq) (by simpa using hr) (tcpSwitch_cases h)

/-- What a segment does to a socket. -/
inductive Segmented (s : Net) (i : Nat) (seg : Seg) : Net → Prop where
  | none (h : Selected s i seg none s) : Segmented s i seg s
  | some {k : Nat} {t s' : Net} (hsel : Selected s i seg (some k) t) (h : Processed t i seg k s') :
      Segmented s i seg s'

theorem processTcpToSocket_cases (h : s.processTcpToSocket i seg = .ok s') :
    Segmented s i seg s' := by
  unfold processTcpToSocket at h
  obtain ⟨⟨o, t⟩, hsel, h⟩ := bind_eq_ok.mp h
  have hsel := selectStream_cases hsel
  cases o with
  | none =>
    obtain rfl := Except.ok.inj h
    cases hsel
    exact .none (.unknown ‹_› ‹_› ‹_›)
  | some k => exact .some hsel (processTcpToStream_cases h)

end Net

end Tcpip
end Wrmos
