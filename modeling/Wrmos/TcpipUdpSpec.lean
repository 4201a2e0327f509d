import Wrmos.TcpipUdp
import Wrmos.ListTRuns
import Wrmos.Lib.Mailbox

/-!
# What becomes of the datagrams

A UDP socket is for its clients a mailbox: sixteen messages, or one client that waits.  `Holds` says that a
socket has the contents of a mailbox, its list those of an abstract list of packets.  Every call of the
socket returns and leaves it the contents of a mailbox again, and it is the call of the mailbox, whenever
the event `Fits` (`call_holds`).

The exception is a datagram that is larger than a packet and comes when nobody waits and the list has room.
`save_received_packet` then returns its error code behind a packet that stays in the list, so that a client
is later handed an empty message that nobody sent.  What was handed out and what is queued is therefore what
was accepted, in order, exactly in the runs without such a datagram (`sound_iff_fits`).
-/

namespace Wrmos
namespace UdpQueue

open Lib (Links NodeList Mailbox.Box Mailbox.Op Mailbox.Out Mailbox.Ledger Mailbox.Balanced runAll Meets)
open Tcpip (pktBufSz pktsCap)
open ListT (ItemType Rep)

/-- A datagram arrives, or a client asks for one. -/
inductive Event where
  | datagram (d : Datagram)
  | recvfrom (cli : Nat)

/-- What a client is sent: where it is from, and its bytes. -/
structure Message where
  saddr : SockaddrIn
  bytes : List UInt8
  deriving DecidableEq, Repr

def Pkt.message (p : Pkt) : Message := ⟨p.saddr, bytes p.buf p.len⟩

def Datagram.message (d : Datagram) : Message := ⟨d.saddr, bytes d.payload d.payloadLen⟩

def Event.op : Event → Mailbox.Op Message Nat
  | .datagram d => .post d.message
  | .recvfrom cli => .take cli

def Reply.out : Reply → Mailbox.Out Message Nat
  | .error _ _ => .refused
  | .data cli saddr bytes => .handed cli ⟨saddr, bytes⟩

/-- The messages in the list, from its first item to its last. -/
def Socket.queued (s : Socket) : List Message :=
  (Links.follow s.pkts.links.next s.pkts.size s.pkts.busy.begin).map fun n => (s.pkts.data n).message

variable (A : Arch) (k : ItemType Pkt)

/-- An event, and how it ends. -/
def call (s : Socket) : Event → Except Stop (Socket × Mailbox.Out Message Nat)
  | .datagram d => do
    let (s, r) ← processUdpPacket k s d
    pure (s, r.elim Reply.out fun rc => if rc = 0 then .stored else .rejected)
  | .recvfrom cli => do
    let (s, r) ← processCliRecvfrom A k s cli
    pure (s, r.elim .waits Reply.out)

/-- The socket and the ledger of what it did. -/
structure Run where
  socket : Socket
  ledger : Mailbox.Ledger Message Nat

def step (r : Run) (e : Event) : Except Stop Run := do
  let (s, out) ← call A k r.socket e
  pure ⟨s, r.ledger.note e.op out⟩

/-- A datagram finds a client that waits, or the list full, or it is no larger than a packet. -/
def Fits (s : Socket) : Event → Prop
  | .datagram d => (s.cliState = .recv ∨ s.recvClient.isSome = true) ∨ s.capacity = s.pkts.size ∨
      d.payloadLen ≤ pktBufSz
  | .recvfrom _ => True

/-- The messages that were accepted are those handed out, in order, and behind them those in the list; the
clients that asked are those that were answered and the one that waits; and as many requests as there are
messages in the list are answered with these. -/
structure Delivers (r : Run) : Prop where
  order : r.ledger.handed.map Prod.snd ++ r.socket.queued = r.ledger.accepted
  answered : r.ledger.handed.map Prod.fst ++ r.socket.recvClient.toList = r.ledger.asked
  drains : ∀ clis : List Nat, clis.length = r.socket.queued.length →
    (∀ cli ∈ clis, r.socket.isOwner A cli = true) →
    ∃ r', runAll (step A k) r (clis.map .recvfrom) = .ok r' ∧ r'.socket.queued = [] ∧
      r'.ledger = ⟨r.ledger.accepted, r.ledger.asked ++ clis, r.ledger.handed ++ clis.zip r.socket.queued⟩

/-- What the event leads to delivers, and a datagram that is not accepted leaves the list and what was
handed out as they were. -/
def Sound (r : Run) (e : Event) : Prop :=
  ∀ r', step A k r e = .ok r' → Delivers A k r' ∧
    ∀ d, e = .datagram d → r'.ledger.accepted = r.ledger.accepted →
      r'.socket.queued = r.socket.queued ∧ r'.ledger.handed = r.ledger.handed

/-! ## The socket and the mailbox -/

/-- The socket has the contents of the mailbox. -/
structure Holds (may : Nat → Bool) (s : Socket) (box : Mailbox.Box Message Nat) : Prop where
  list : ∃ L, Rep s.pkts L ∧ L.busy.map (fun e => e.2.message) = box.queue ∧
    L.busy.length + L.free.length = pktsCap
  waiting : s.recvClient = box.waiting
  state : s.cliState = if box.waiting.isSome then .recv else .idle
  owner : s.isOwner A = may

variable {A k} {may : Nat → Bool} {s : Socket} {box : Mailbox.Box Message Nat} {L : NodeList Pkt} {n : Nat}
  {fs : List Nat} {p : Pkt}

theorem queued_of_rep (h : Rep s.pkts L) : s.queued = L.busy.map fun e => e.2.message := by
  have hwalk : Links.follow s.pkts.links.next s.pkts.size s.pkts.busy.begin = L.nodes :=
    h.busy.follow_next (Nat.le_refl _)
  unfold Socket.queued
  rw [hwalk]
  unfold NodeList.nodes
  rw [List.map_map]
  refine List.map_congr_left fun e he => ?_
  show (s.pkts.data e.1).message = e.2.message
  rw [h.data e he]

theorem Holds.queued (h : Holds A may s box) : s.queued = box.queue := by
  obtain ⟨L, hrep, hqueue, -⟩ := h.list
  rw [queued_of_rep hrep, hqueue]

theorem size_of_rep (h : Rep s.pkts L) : s.pkts.size = L.busy.length := by
  show s.pkts.busy.sz = _
  rw [h.busy.sz]
  exact List.length_map ..

/-- The list is full when no item is free. -/
theorem full_iff (h : Rep s.pkts L) : s.capacity = s.pkts.size ↔ L.free = [] := by
  rw [← h.free.sz_eq_zero]
  show s.pkts.busy.sz + s.pkts.free.sz = s.pkts.busy.sz ↔ _
  omega

/-! ## Saving a datagram -/

/-- `push_back()` and `save`: the packet is in the list, whatever `save` returns. -/
theorem saveReceivedPacket_eq (addr : SockaddrIn) (bf : Nat → UInt8) (sz : Nat) (h : Rep s.pkts L)
    (hfree : L.free = n :: fs) :
    ∃ pkts, s.saveReceivedPacket k addr bf sz =
        .ok ({ s with pkts := pkts }, ((s.pkts.data n).construct.save addr bf sz).2) ∧
      Rep pkts ⟨L.busy ++ [(n, ((s.pkts.data n).construct.save addr bf sz).1)], fs⟩ := by
  have hbegin : s.pkts.free.begin = n := by
    rw [h.free.begin, hfree]
    rfl
  have hroom : s.capacity ≠ s.pkts.size := by
    rw [Ne, full_iff h, hfree]
    exact List.cons_ne_nil n fs
  have hsz : s.pkts.free.sz ≠ 0 := by
    rw [Ne, h.free.sz_eq_zero, hfree]
    exact List.cons_ne_nil n fs
  have hlen : L.nodes.length ≤ L.busy.length := (List.length_map _).le
  obtain ⟨t, hpush, hrep⟩ := h.insertItem (k := k) (x := (s.pkts.data n).construct)
    (NodeList.insertAt_of_free (i := L.busy.length) hfree) (h.at_last hlen)
  rw [List.take_length, List.drop_length] at hrep
  have hlast : t.busy.last = n := by
    rw [hrep.busy.last]
    unfold NodeList.nodes
    rw [List.map_append]
    exact List.getLastD_concat ..
  have hback : t.back = .ok (s.pkts.data n).construct := by
    have hne : t.busy.sz ≠ 0 := by
      rw [Ne, hrep.busy.sz_eq_zero]
      simp [NodeList.nodes]
    unfold ListT.State.back
    rw [Lib.ensure_bind_of hne, hlast,
      hrep.data (n, (s.pkts.data n).construct) (List.mem_append_right _ List.mem_cons_self)]
    rfl
  refine ⟨t.setData n ((s.pkts.data n).construct.save addr bf sz).1, ?_, hrep.setData_last⟩
  unfold Socket.saveReceivedPacket ListT.State.pushBack ListT.State.checkForAlloc
  rw [if_neg hroom, if_neg hsz, hbegin]
  show (s.pkts.insertItem k s.pkts.busy.last .next (s.pkts.data n).construct >>= fun q =>
    q.1.back >>= fun p => pure ({ s with pkts := q.1.setData q.1.busy.last (p.save addr bf sz).1 }, (p.save addr bf sz).2)) = _
  rw [hpush, Lib.ok_bind, hback, Lib.ok_bind, hlast]
  rfl

/-- A datagram that fits is saved whole. -/
theorem save_of_le (p : Pkt) (addr : SockaddrIn) (bf : Nat → UInt8) {sz : Nat} (h : sz ≤ pktBufSz) :
    (p.save addr bf sz).2 = 0 ∧ (p.save addr bf sz).1.message = ⟨addr, bytes bf sz⟩ := by
  unfold Pkt.save
  rw [if_neg (by omega)]
  refine ⟨rfl, ?_⟩
  show (⟨addr, _⟩ : Message) = _
  congr 1
  refine List.map_congr_left fun i hi => ?_
  exact if_pos (List.mem_range.mp hi)

theorem save_of_lt {addr : SockaddrIn} {bf : Nat → UInt8} {sz : Nat} (h : pktBufSz < sz) :
    p.save addr bf sz = (p, 2) := if_pos h

/-! ## One event -/

theorem Holds.full_iff (h : Holds A may s box) : s.capacity = s.pkts.size ↔ box.queue.length = pktsCap := by
  obtain ⟨L, hrep, hqueue, hlen⟩ := h.list
  rw [UdpQueue.full_iff hrep, ← hqueue, List.length_map, ← hlen, ← List.length_eq_zero_iff]
  omega

theorem Holds.waits_iff (h : Holds A may s box) :
    (s.cliState = .recv ∨ s.recvClient.isSome = true) ↔ box.waiting.isSome = true := by
  rw [h.state, h.waiting]
  cases box.waiting <;> simp

/-- A datagram for a client that waits. -/
theorem Holds.post_waiting (h : Holds A may s box) {cli : Nat} (hw : box.waiting = some cli) (d : Datagram) :
    ∃ s', call A k s (.datagram d) = .ok (s', .handed cli d.message) ∧
      Holds A may s' ⟨box.queue, none, nofun⟩ := by
  have hrecv : s.recvClient = some cli := h.waiting.trans hw
  have hstate : s.cliState = .recv := by
    rw [h.state, hw]
    rfl
  refine ⟨{ s with
      cliState := .idle
      recvClient := none }, ?_, h.list, rfl, rfl, h.owner⟩
  show (processUdpPacket k s d >>= fun q => pure (q.1, _)) = _
  unfold processUdpPacket
  rw [if_pos (.inl hstate), hrecv, if_pos hstate]
  rfl

/-- A datagram when nobody waits and the list is full. -/
theorem Holds.post_full (h : Holds A may s box) (hw : box.waiting = none) (hfull : box.queue.length = pktsCap)
    (d : Datagram) : call A k s (.datagram d) = .ok (s, .rejected) := by
  have hnot : ¬ (s.cliState = .recv ∨ s.recvClient.isSome = true) := by
    rw [h.waits_iff, hw]
    nofun
  show (processUdpPacket k s d >>= fun q => pure (q.1, _)) = _
  unfold processUdpPacket Socket.saveReceivedPacket
  rw [if_neg hnot, if_pos (h.full_iff.mpr hfull)]
  rfl

/-- A datagram when nobody waits and the list has room. -/
theorem Holds.post_room (h : Holds A may s box) (hw : box.waiting = none) (hroom : box.queue.length ≠ pktsCap)
    (d : Datagram) : ∃ s' p, call A k s (.datagram d) =
        .ok (s', if (Pkt.save p d.saddr d.payload d.payloadLen).2 = 0 then .stored else .rejected) ∧
      Holds A may s' ⟨box.queue ++ [(Pkt.save p d.saddr d.payload d.payloadLen).1.message], none, nofun⟩ := by
  have hnot : ¬ (s.cliState = .recv ∨ s.recvClient.isSome = true) := by
    rw [h.waits_iff, hw]
    nofun
  obtain ⟨L, hrep, hqueue, hlen⟩ := h.list
  obtain ⟨n, fs, hfree⟩ := List.exists_cons_of_ne_nil
    (fun hnil => hroom (h.full_iff.mp ((UdpQueue.full_iff hrep).mpr hnil)))
  obtain ⟨pkts, hsave, hrep'⟩ := saveReceivedPacket_eq (k := k) d.saddr d.payload d.payloadLen hrep hfree
  refine ⟨{ s with pkts := pkts }, (s.pkts.data n).construct, ?_, ⟨_, hrep', ?_, ?_⟩, ?_, ?_, h.owner⟩
  · show (processUdpPacket k s d >>= fun q => pure (q.1, _)) = _
    unfold processUdpPacket
    rw [if_neg hnot, hsave]
    rfl
  · rw [List.map_append, hqueue]
    rfl
  · rw [hfree, List.length_cons] at hlen
    rw [List.length_append, List.length_singleton, Nat.add_assoc, Nat.add_comm 1]
    exact hlen
  · exact h.waiting.trans hw
  · rw [h.state, hw]

/-- A request that is refused. -/
theorem Holds.take_refused (h : Holds A may s box) {cli : Nat}
    (hmay : may cli = true → box.waiting.isSome = true) : call A k s (.recvfrom cli) = .ok (s, .refused) := by
  show (processCliRecvfrom A k s cli >>= fun q => pure (q.1, _)) = _
  unfold processCliRecvfrom
  rw [h.owner]
  by_cases hcli : may cli = true
  · have hstate : s.cliState ≠ .idle := by
      rw [h.state, hmay hcli]
      nofun
    rw [hcli, if_neg (by nofun), if_pos hstate]
    rfl
  · rw [if_pos (Bool.eq_false_iff.mpr hcli)]
    rfl

/-- A request when the list is empty. -/
theorem Holds.take_empty (h : Holds A may s box) {cli : Nat} (hmay : may cli = true)
    (hw : box.waiting = none) (hq : box.queue = []) :
    ∃ s', call A k s (.recvfrom cli) = .ok (s', .waits) ∧ Holds A may s' ⟨[], some cli, fun _ => rfl⟩ := by
  obtain ⟨L, hrep, hqueue, hlen⟩ := h.list
  have hstate : s.cliState = .idle := by
    rw [h.state, hw]
    rfl
  have hsz : s.pkts.busy.sz = 0 := by
    rw [← List.length_eq_zero_iff, ← hqueue, List.length_map] at hq
    exact (size_of_rep hrep).trans hq
  refine ⟨{ s with
      cliState := .recv
      recvClient := some cli }, ?_, ⟨L, hrep, hqueue.trans hq, hlen⟩, rfl, rfl, h.owner⟩
  show (processCliRecvfrom A k s cli >>= fun q => pure (q.1, _)) = _
  unfold processCliRecvfrom Socket.getReceivedPacket
  rw [h.owner, hmay, if_neg (by nofun), if_neg (not_not.mpr hstate), if_pos hsz]
  rfl

/-- A request when the list has a message. -/
theorem Holds.take_cons (h : Holds A may s box) {cli : Nat} (hmay : may cli = true)
    (hw : box.waiting = none) {a : Message} {q : List Message} (hq : box.queue = a :: q) :
    ∃ s', call A k s (.recvfrom cli) = .ok (s', .handed cli a) ∧ Holds A may s' ⟨q, none, nofun⟩ := by
  obtain ⟨L, hrep, hqueue, hlen⟩ := h.list
  rw [hq] at hqueue
  obtain ⟨⟨n, p⟩, rest, hbusy, ha, hrest⟩ := List.map_eq_cons_iff.mp hqueue
  have hstate : s.cliState = .idle := by
    rw [h.state, hw]
    rfl
  have hnodes : L.nodes = n :: rest.map Prod.fst := by
    unfold NodeList.nodes
    rw [hbusy]
    rfl
  have hsz : s.pkts.busy.sz ≠ 0 := by
    rw [Ne, hrep.busy.sz_eq_zero, hnodes]
    exact List.cons_ne_nil n _
  have hbegin : s.pkts.busy.begin = n := by
    rw [hrep.busy.begin, hnodes]
    rfl
  have hdata : s.pkts.data n = p := hrep.data (n, p) (hbusy ▸ List.mem_cons_self)
  obtain ⟨pkts, herase, hrep'⟩ := hrep.erase (k := k) (n := n) (hnodes ▸ List.mem_cons_self)
  have hget : s.getReceivedPacket = .ok (some p) := by
    unfold Socket.getReceivedPacket
    rw [if_neg hsz, Lib.ensure_bind_of hsz, hbegin, hdata]
    rfl
  have hfreed : s.freeReceivedPacket k = .ok { s with pkts := pkts } := by
    unfold Socket.freeReceivedPacket
    rw [show s.pkts.size = s.pkts.busy.sz from rfl, Lib.ensure_bind_of hsz, hbegin, herase]
    rfl
  have hleft : (L.erase n).busy = rest := by
    have hnot : n ∉ rest.map Prod.fst := (List.nodup_cons.mp (hnodes ▸ hrep.busy.nodup)).1
    unfold NodeList.erase
    rw [hbusy]
    simp only [List.filter_cons, bne_self_eq_false, Bool.false_eq_true, if_false]
    refine List.filter_eq_self.mpr fun e he => bne_iff_ne.mpr ?_
    rintro rfl
    exact hnot (List.mem_map_of_mem he)
  refine ⟨{ s with pkts := pkts }, ?_, ⟨L.erase n, hrep', ?_, ?_⟩, h.waiting.trans hw, ?_, h.owner⟩
  · show (processCliRecvfrom A k s cli >>= fun q => pure (q.1, _)) = _
    unfold processCliRecvfrom
    rw [h.owner, hmay, if_neg (by nofun), if_neg (not_not.mpr hstate), hget, ← ha]
    show (s.freeReceivedPacket k >>= fun t => pure (t, some (Reply.data cli p.saddr (bytes p.buf p.len)))) >>=
      _ = _
    rw [hfreed]
    rfl
  · rw [hleft]
    exact hrest
  · rw [hleft]
    rw [hbusy, List.length_cons] at hlen
    show rest.length + (L.free.length + 1) = pktsCap
    omega
  · rw [h.state, hw]

/-- **One event.**  The socket has the contents of a mailbox again.  The event is the call of the mailbox if
it fits, and else a message is in the list that was rejected. -/
theorem call_holds (h : Holds A may s box) (e : Event) : ∃ s' out box', call A k s e = .ok (s', out) ∧
    Holds A may s' box' ∧ (Fits s e → (box', out) = Lib.Mailbox.step pktsCap may box e.op) ∧
    (¬ Fits s e → (∃ d, e = .datagram d) ∧ out = .rejected ∧ ∃ x, box'.queue = box.queue ++ [x]) := by
  cases e with
  | datagram d =>
    cases hw : box.waiting with
    | some cli =>
      obtain ⟨s', hcall, h'⟩ := h.post_waiting (k := k) hw d
      refine ⟨s', _, _, hcall, h', fun _ => (Lib.Mailbox.post_waiting hw).symm, fun hfits => ?_⟩
      exact absurd (.inl (h.waits_iff.mpr (by rw [hw]; rfl))) hfits
    | none =>
      by_cases hfull : box.queue.length = pktsCap
      · refine ⟨s, _, _, h.post_full hw hfull d, h, fun _ => (Lib.Mailbox.post_full hw hfull).symm,
          fun hfits => ?_⟩
        exact absurd (.inr (.inl (h.full_iff.mpr hfull))) hfits
      · obtain ⟨s', p, hcall, h'⟩ := h.post_room (k := k) hw hfull d
        refine ⟨s', _, _, hcall, h', fun hfits => ?_, fun hfits => ⟨⟨d, rfl⟩, ?_, _, rfl⟩⟩
        · have hle : d.payloadLen ≤ pktBufSz := by
            rcases hfits with hwait | hsz | hle
            · rw [h.waits_iff, hw] at hwait
              cases hwait
            · exact absurd (h.full_iff.mp hsz) hfull
            · exact hle
          obtain ⟨hrc, hmsg⟩ := save_of_le p d.saddr d.payload hle
          refine Eq.trans ?_ (Lib.Mailbox.post_room hw hfull).symm
          simp only [hrc, hmsg, if_true]
          rfl
        · have hlt : pktBufSz < d.payloadLen := Nat.lt_of_not_le fun hle => hfits (.inr (.inr hle))
          rw [save_of_lt hlt]
          rfl
  | recvfrom cli =>
    by_cases hmay : may cli = true → box.waiting.isSome = true
    · exact ⟨s, _, box, h.take_refused hmay, h, fun _ => (Lib.Mailbox.take_refused hmay).symm,
        fun hfits => absurd trivial hfits⟩
    · obtain ⟨hcli, hsome⟩ := Classical.not_imp.mp hmay
      have hw : box.waiting = none := Option.not_isSome_iff_eq_none.mp hsome
      cases hq : box.queue with
      | nil =>
        obtain ⟨s', hcall, h'⟩ := h.take_empty (k := k) hcli hw hq
        exact ⟨s', _, _, hcall, h', fun _ => (Lib.Mailbox.take_empty hcli hw hq).symm,
          fun hfits => absurd trivial hfits⟩
      | cons a q =>
        obtain ⟨s', hcall, h'⟩ := h.take_cons (k := k) hcli hw hq
        exact ⟨s', _, _, hcall, h', fun _ => (Lib.Mailbox.take_cons hcli hw hq).symm,
          fun hfits => absurd trivial hfits⟩

/-! ## Runs -/

variable {r r' : Run} {l : Mailbox.Ledger Message Nat}

theorem step_of_call {s' : Socket} {out : Mailbox.Out Message Nat} {e : Event}
    (h : call A k r.socket e = .ok (s', out)) : step A k r e = .ok ⟨s', r.ledger.note e.op out⟩ := by
  unfold step
  rw [h]
  rfl

/-- Requests are answered as the mailbox answers them. -/
theorem run_recvfrom : ∀ (clis : List Nat) (l : Mailbox.Ledger Message Nat) {s : Socket}
    {box : Mailbox.Box Message Nat}, Holds A may s box →
    ∃ s', runAll (step A k) ⟨s, l⟩ (clis.map .recvfrom) =
        .ok ⟨s', (Lib.Mailbox.run pktsCap may (box, l) (clis.map .take)).2⟩ ∧
      Holds A may s' (Lib.Mailbox.run pktsCap may (box, l) (clis.map .take)).1
  | [], _, s, _, h => ⟨s, rfl, h⟩
  | cli :: clis, l, s, box, h => by
    obtain ⟨t, out, box', hcall, h', hfits, -⟩ := call_holds (k := k) h (.recvfrom cli)
    obtain ⟨rfl, rfl⟩ := Prod.mk.inj (hfits trivial)
    obtain ⟨s', hrun, h''⟩ := run_recvfrom clis (l.note (.take cli) (Lib.Mailbox.take may box cli).2) h'
    refine ⟨s', ?_, h''⟩
    show (step A k ⟨s, l⟩ (.recvfrom cli) >>= fun r => runAll (step A k) r (clis.map .recvfrom)) = _
    rw [step_of_call hcall]
    exact hrun

/-- A socket with the contents of a mailbox that fits the ledger delivers. -/
theorem Holds.delivers (h : Holds A may r.socket box) (hbal : Mailbox.Balanced box r.ledger) :
    Delivers A k r where
  order := by rw [h.queued, hbal.order]
  answered := by rw [h.waiting, hbal.answered]
  drains := by
    intro clis hlen howner
    rw [h.queued] at hlen ⊢
    obtain ⟨s', hrun, h'⟩ := run_recvfrom (k := k) clis r.ledger h
    obtain ⟨hempty, hledger⟩ := Lib.Mailbox.run_takes pktsCap r.ledger hlen
      fun cli hcli => h.owner ▸ howner cli hcli
    exact ⟨_, hrun, h'.queued.trans hempty, hledger⟩

/-- The socket has the contents of a mailbox, and the ledger fits it. -/
def Inv (A : Arch) (may : Nat → Bool) (r : Run) : Prop :=
  ∃ box, Holds A may r.socket box ∧ Mailbox.Balanced box r.ledger

theorem Inv.step {e : Event} (h : Inv A may r) (hfits : Fits r.socket e) :
    ∃ r', UdpQueue.step A k r e = .ok r' ∧ Inv A may r' ∧ Sound A k r e := by
  obtain ⟨box, hholds, hbal⟩ := h
  obtain ⟨s', out, box', hcall, h', hsame, -⟩ := call_holds (k := k) hholds e
  obtain ⟨rfl, rfl⟩ := Prod.mk.inj (hsame hfits)
  have hbal' := hbal.step pktsCap may e.op
  refine ⟨_, step_of_call hcall, ⟨_, h', hbal'⟩, fun r' hr' => ?_⟩
  obtain rfl := Except.ok.inj ((step_of_call hcall).symm.trans hr')
  refine ⟨Holds.delivers h' hbal', ?_⟩
  rintro d rfl hacc
  obtain ⟨hbox, hledger⟩ := Lib.Mailbox.post_of_accepted_eq hacc
  refine ⟨?_, congrArg (·.handed) hledger⟩
  rw [h'.queued, hholds.queued]
  exact congrArg (·.queue) hbox

/-- A datagram that does not fit leaves a message behind. -/
theorem Inv.not_sound {e : Event} (h : Inv A may r) (hfits : ¬ Fits r.socket e) : ¬ Sound A k r e := by
  obtain ⟨box, hholds, hbal⟩ := h
  obtain ⟨s', out, box', hcall, h', -, hleft⟩ := call_holds (k := k) hholds e
  obtain ⟨⟨d, rfl⟩, rfl, x, hx⟩ := hleft hfits
  intro hsound
  have horder := (hsound _ (step_of_call hcall)).1.order
  have hqueue : box.queue ++ [x] = box.queue := by
    rw [← hx, ← h'.queued]
    exact List.append_cancel_left (horder.trans hbal.order.symm)
  exact List.cons_ne_nil x [] (List.append_right_eq_self.mp hqueue)

/-- Every run returns. -/
theorem Holds.run : ∀ (es : List Event) (r : Run) {box : Mailbox.Box Message Nat}, Holds A may r.socket box →
    ∃ r', runAll (UdpQueue.step A k) r es = .ok r'
  | [], r, _, _ => ⟨r, rfl⟩
  | e :: es, r, _, h => by
    obtain ⟨s', out, box', hcall, h', -, -⟩ := call_holds (k := k) h e
    obtain ⟨r', hrun⟩ := Holds.run es ⟨s', r.ledger.note e.op out⟩ h'
    refine ⟨r', ?_⟩
    show (UdpQueue.step A k r e >>= fun r => runAll (UdpQueue.step A k) r es) = _
    rw [step_of_call hcall]
    exact hrun

/-- A socket that has just been made. -/
structure Socket.Fresh (s : Socket) : Prop where
  list : ∃ free, Rep s.pkts ⟨[], free⟩ ∧ free.length = pktsCap
  idle : s.cliState = .idle
  nobody : s.recvClient = none

theorem Socket.Fresh.holds (h : s.Fresh) : Holds A (s.isOwner A) s ⟨[], none, nofun⟩ where
  list := by
    obtain ⟨free, hrep, hlen⟩ := h.list
    exact ⟨_, hrep, rfl, (Nat.zero_add _).trans hlen⟩
  waiting := h.nobody
  state := h.idle
  owner := rfl

theorem Socket.fresh_new (m : Links) (data : Nat → Pkt) (localBuf : Nat) (hbuf : localBuf ≠ 0)
    (thrnoBegin thrnoEnd : Nat) :
    ∃ s, Socket.new k m data localBuf thrnoBegin thrnoEnd = .ok s ∧ s.Fresh := by
  obtain ⟨pkts, hnew, href⟩ := ListT.new_refines (k := k) m data (n := pktsCap) hbuf
  refine ⟨⟨thrnoBegin, thrnoEnd, .idle, none, pkts⟩, ?_, ⟨_, href.rep, ?_⟩, rfl, rfl⟩
  · unfold Socket.new
    rw [hnew]
    rfl
  · show ([] ++ k.blockItems localBuf (k.itemSize * pktsCap)).length = pktsCap
    unfold ItemType.blockItems
    rw [List.nil_append, List.length_map, List.length_range, Nat.mul_div_cancel_left _ k.itemSize_pos]

/-- **What becomes of the datagrams.**  Every sequence of datagrams and requests is a run.  In every state
that it leads to, the accepted datagrams are delivered in order, each to one request, and those that were
not accepted changed nothing, if and only if every event fits. -/
theorem sound_iff_fits (hs : s.Fresh) (es : List Event) :
    (∃ r, runAll (step A k) ⟨s, .empty⟩ es = .ok r) ∧
    (Meets (step A k) (Sound A k) ⟨s, .empty⟩ es ↔
      Meets (step A k) (fun r => Fits r.socket) ⟨s, .empty⟩ es) := by
  have hinv : Inv A (s.isOwner A) ⟨s, .empty⟩ := ⟨_, hs.holds, Lib.Mailbox.balanced_empty⟩
  have hkeep : ∀ r e r', Inv A (s.isOwner A) r → Fits r.socket e → step A k r e = .ok r' →
      Inv A (s.isOwner A) r' := by
    intro r e r' hr hfits hstep
    obtain ⟨r'', hstep', hr'', -⟩ := hr.step (k := k) hfits
    obtain rfl := Except.ok.inj (hstep'.symm.trans hstep)
    exact hr''
  have hfits : ∀ r e, Inv A (s.isOwner A) r → Sound A k r e → Fits r.socket e := fun r e hr hsound =>
    not_not.mp fun hnot => hr.not_sound hnot hsound
  refine ⟨Holds.run es _ hs.holds, ?_, ?_⟩
  · refine Meets.of_invariant (fun r e r' hr hsound => hkeep r e r' hr (hfits r e hr hsound)) hfits hinv
  · refine Meets.of_invariant hkeep (fun r e hr he => ?_) hinv
    obtain ⟨r', -, -, hsound⟩ := hr.step (k := k) he
    exact hsound

/-- An item of a `Pkt_t` with its two links, on a machine of 32 bits. -/
def pktItem : ItemType Pkt := ⟨284, by decide, fun _ _ => false, true⟩

/-- What the memory of the items holds before: a packet of somebody else. -/
def oldPkt : Pkt := ⟨⟨2, 7, 0xc0a80001⟩, 4, fun _ => 0⟩

/-- A datagram of so many bytes from the port 53 of 10.0.0.1. -/
def sized (sz : Nat) : Datagram := ⟨0x0a000001, 53, fun _ => 0x41, sz⟩

/-- Two datagrams of the largest size of a packet and three requests of the thread 42. -/
theorem sized_sound :
    ∃ s, Socket.new pktItem ⟨fun _ => 0, fun _ => 0⟩ (fun _ => oldPkt) 0x1000 0 100 = .ok s ∧
      Meets (step .sparc pktItem) (Sound .sparc pktItem) ⟨s, .empty⟩ [.datagram (sized 256),
        .recvfrom 0xa8001, .datagram (sized 256), .recvfrom 0xa8001, .recvfrom 0xa8001] := by
  obtain ⟨s, hnew, hs⟩ := Socket.fresh_new (k := pktItem) ⟨fun _ => 0, fun _ => 0⟩ (fun _ => oldPkt)
    0x1000 (by decide) 0 100
  refine ⟨s, hnew, (sound_iff_fits hs _).2.mpr (Lib.meets_of_forall fun e he r => ?_)⟩
  simp only [List.mem_cons, List.not_mem_nil, or_false] at he
  rcases he with rfl | rfl | rfl | rfl | rfl
  · exact .inr (.inr (Nat.le_refl 256))
  · exact trivial
  · exact .inr (.inr (Nat.le_refl 256))
  · exact trivial
  · exact trivial

/-- A datagram of 257 bytes is rejected, and the next request is handed an empty message with the address of
somebody else. -/
theorem oversized_handed :
    ∃ s r, Socket.new pktItem ⟨fun _ => 0, fun _ => 0⟩ (fun _ => oldPkt) 0x1000 0 100 = .ok s ∧
      runAll (step .sparc pktItem) ⟨s, .empty⟩ [.datagram (sized 257), .recvfrom 0xa8001] = .ok r ∧
      r.ledger.accepted = [] ∧ r.ledger.handed = [(0xa8001, ⟨⟨2, 7, 0xc0a80001⟩, []⟩)] ∧
      ¬ Meets (step .sparc pktItem) (Sound .sparc pktItem) ⟨s, .empty⟩
        [.datagram (sized 257), .recvfrom 0xa8001] := by
  have hrun : Lib.okAnd
      (Socket.new pktItem ⟨fun _ => 0, fun _ => 0⟩ (fun _ => oldPkt) 0x1000 0 100 >>= fun s =>
        runAll (step .sparc pktItem) ⟨s, .empty⟩ [.datagram (sized 257), .recvfrom 0xa8001])
      (fun r => decide (r.ledger.accepted = [] ∧
        r.ledger.handed = [(0xa8001, ⟨⟨2, 7, 0xc0a80001⟩, []⟩)])) = true := by
    decide +kernel
  obtain ⟨r, hr, hledger⟩ := Lib.okAnd_iff.mp hrun
  obtain ⟨haccepted, hhanded⟩ := of_decide_eq_true hledger
  obtain ⟨s, hnew, hr⟩ := Lib.bind_eq_ok.mp hr
  obtain ⟨s', hnew', hs⟩ := Socket.fresh_new (k := pktItem) ⟨fun _ => 0, fun _ => 0⟩ (fun _ => oldPkt)
    0x1000 (by decide) 0 100
  obtain rfl := Except.ok.inj (hnew.symm.trans hnew')
  refine ⟨s, r, hnew, hr, haccepted, hhanded, fun hsound => ?_⟩
  refine Inv.not_sound ⟨_, hs.holds, Lib.Mailbox.balanced_empty⟩ ?_ hsound.1
  rintro ((hstate | hwait) | hfull | hle)
  · rw [hs.idle] at hstate
    cases hstate
  · rw [hs.nobody] at hwait
    cases hwait
  · rw [hs.holds (A := .sparc) |>.full_iff] at hfull
    cases hfull
  · exact absurd hle (by decide)

end UdpQueue
end Wrmos
