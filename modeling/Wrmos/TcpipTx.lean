import Wrmos.TcpipDemux
import Mathlib.Data.Nat.ModEq

/-!
# The TCP/IP server: what the sequence numbers count

A book beside the server says for each stream whether our Syn and our Fin were acknowledged, and how much
payload the clients have sent.  A segment acknowledges a Syn or a Fin that is on its way when its
acknowledgement number is one more than everything counted; a request to send counts when it is not answered
with an error.  The stream is right when the distance of `seq_tx` from `init_seq_tx` is what the book counts.

The number of a stream goes wrong in five ways.  It counts the Syn of a connection that another host opens
when it is sent; it counts every reset, and a Syn or a Fin for any acknowledgement; it does not count the Fin
with which the server answers a Fin, nor one that is acknowledged before the other Fin comes; and a request to
send counts although it is refused because the socket still waits for an address.  In a run without these
steps every stream is right, and a run with one is not (`right_iff_fits`).
-/

namespace Wrmos
namespace Tcpip

open Lib

/-! ## The book -/

/-- What is counted of a stream. -/
structure Account where
  syn : Bool
  fin : Bool
  bytes : Nat
  deriving DecidableEq, Repr

namespace Account

def empty : Account := ⟨false, false, 0⟩

def total (a : Account) : Nat := a.syn.toNat + a.fin.toNat + a.bytes

end Account

/-- Our Syn was sent, and was not acknowledged. -/
@[simp] def StreamState.synOut : StreamState → Bool
  | .synSent | .synReceived => true
  | _ => false

/-- Our Fin was sent, and the stream waits for the other end. -/
@[simp] def StreamState.finOut : StreamState → Bool
  | .finWait1 | .lastAck => true
  | _ => false

/-- The segment acknowledges one more than what is counted. -/
def acks (st : Stream) (a : Account) (seg : Seg) (ack : Nat) : Bool :=
  seg.has flagAck && ack == seqAdd st.initSeqTx (a.total + 1)

/-- The account after a segment. -/
def Account.acked (a : Account) (st : Stream) (seg : Seg) (ack : Nat) : Account :=
  if acks st a seg ack then { a with syn := a.syn || st.state.synOut, fin := a.fin || st.state.finOut } else a

namespace Net

variable (s : Net)

/-- The segment in a frame, with its acknowledgement number. -/
def frameSegment (bytes : List UInt8) : Option (Seg × Nat) :=
  match s.ethBuf with
  | none => none
  | some eth =>
    let m := s.mem.load eth bytes
    match (parseEthFrame m eth bytes.length).result with
    | .ok ⟨_, .tcp seg⟩ => some (seg, m.be32 (eth + 14 + ipHdrlenAt m eth + 8))
    | _ => none

/-- The socket a segment is for. -/
def segSocket (seg : Seg) : Option Nat :=
  (s.findConnectedSocket seg.dst seg.dport seg.src seg.sport).or (s.findListeningSocket seg.dst seg.dport)

/-- The stream of the socket that a segment is for. -/
def socketStream (i : Nat) (seg : Seg) : Option Nat :=
  match (s.tcp i).netState with
  | .listen => s.findStream (s.tcp i).streams seg.src seg.sport
  | .connection => (s.tcp i).stream
  | .idle => none

/-- The stream of the socket that a request names. -/
def sendStream (r : Request) : Option Nat :=
  if (s.findUdp r.sock).isSome then none else (s.findTcp r.sock).bind fun i => (s.tcp i).stream

/-- The last that left the server is a reply to a client with an error. -/
def refused (cli : Nat) : Bool :=
  match s.out.getLast? with
  | some (.reply c ecode _ _) => c == cli && ecode != 0
  | _ => false

end Net

/-- The accounts, by the node of the stream. -/
abbrev Book := Nat → Account

/-- The account of a stream after a segment with its acknowledgement number, which counts when the segment is
taken. -/
def Book.segment (b : Book) (s : Net) (p : Option (Seg × Nat)) (k : Nat) : Account :=
  match p with
  | none => b k
  | some (seg, ack) =>
    if (s.segSocket seg).bind (fun i => s.socketStream i seg) = some k ∧
      Net.wrongSeq seg (s.stream k) = false then (b k).acked (s.stream k) seg ack else b k

/-- The account of a stream after a request, which counts when it sends and is not refused. -/
def Book.request (b : Book) (s : Net) (r : Request) (s' : Net) (k : Nat) : Account :=
  if s.Takes r ∧ s.Asks r 7 9 2 ∧ s.sendStream r = some k ∧ s'.refused r.cli = false then
    { b k with bytes := (b k).bytes + r.data.length } else b k

/-- A stream is new after a step. -/
def Net.Opens (s s' : Net) (k : Nat) : Prop := k ∈ s'.allstreams.nodes ∧ k ∉ s.allstreams.nodes

instance (s s' : Net) (k : Nat) : Decidable (s.Opens s' k) := inferInstanceAs (Decidable (_ ∧ _))

/-- The account of a stream after an event that led from `s` to `s'`; a new stream has an empty one. -/
def Book.next (b : Book) (s : Net) (e : Event) (s' : Net) (k : Nat) : Account :=
  if s.Opens s' k then .empty
  else
    match e with
    | .frame bytes => b.segment s (s.frameSegment bytes) k
    | .request r => b.request s r s' k
    | _ => b k

namespace Tx

/-- The server and the book. -/
structure State where
  net : Net
  book : Book

/-- The start. -/
def State.start (key0 key1 : Nat) : State := ⟨Net.init key0 key1, fun _ => .empty⟩

/-- A round of the server. -/
def step (x : State) (e : Event) : Except Stop State :=
  (Tcpip.step x.net e).map fun s' => ⟨s', x.book.next x.net e s'⟩

/-- The sequence number is what is counted; it has 32 bits. -/
def Right (st : Stream) (a : Account) : Prop := st.seqTx ≡ st.initSeqTx + a.total [MOD 2 ^ 32]

/-- After the event every stream is right, and a request to send that is answered with an error has left the
sequence numbers as they were. -/
def Sound (x : State) (e : Event) : Prop :=
  ∀ x', step x e = .ok x' → (∀ k, Right (x'.net.stream k) (x'.book k)) ∧
    ∀ r, e = .request r → x.net.Takes r → x.net.Asks r 7 9 2 → x'.net.refused r.cli = true →
      ∀ k, (x'.net.stream k).seqTx ≡ (x.net.stream k).seqTx [MOD 2 ^ 32]

/-- The segment counts for its stream what it acknowledges: a reset acknowledges a Syn or Fin and has no Syn;
there is no Syn for a closed stream; our Syn is acknowledged with the right number, our Fin in the segment
with the other Fin, and not after it. -/
def FitsStream (st : Stream) (a : Account) (seg : Seg) (ack : Nat) : Prop :=
  if seg.has flagRst then
    (st.state.synOut || st.state.finOut) = true ∧ acks st a seg ack = true ∧ seg.has flagSyn = false
  else
    match st.state with
    | .closed => seg.has flagSyn = false
    | .synSent => acks st a seg ack = true
    | .finWait1 => acks st a seg ack = (seg.has flagFin && seg.has flagAck)
    | .lastAck => acks st a seg ack = false
    | _ => True

/-- The segment fits its stream, unless it is ignored, and opens no connection. -/
def FitsSegment (x : State) (seg : Seg) (ack i : Nat) : Prop :=
  match x.net.socketStream i seg with
  | some k => Net.wrongSeq seg (x.net.stream k) = true ∨ FitsStream (x.net.stream k) (x.book k) seg ack
  | none => (x.net.tcp i).netState = .listen → seg.has flagSyn = false

/-- The request is to send payload on a connection whose other end has no known address while the socket waits
for an address already. -/
def Stalls (s : Net) (r : Request) : Prop :=
  s.Takes r ∧ s.Asks r 7 9 2 ∧ s.findUdp r.sock = none ∧ r.data ≠ [] ∧ ∃ i ∈ s.findTcp r.sock,
    (s.tcp i).isOwner r.cli = true ∧ ((s.tcp i).cliState = .idle ∨ (s.tcp i).cliState = .recv) ∧
    (s.tcp i).netState = .connection ∧ (s.tcp i).waitArp = true ∧ ∃ k ∈ (s.tcp i).stream,
      (s.stream k).state = .established ∧
      (Net.txIface (s.tcp i).toSocket (s.stream k).remAddr).isSome = true ∧
      (s.arpFind (s.stream k).remAddr).1 = macNil

def Fits (x : State) : Event → Prop
  | .frame bytes => ∀ p ∈ x.net.frameSegment bytes, ∀ i ∈ x.net.segSocket p.1, FitsSegment x p.1 p.2 i
  | .request r => ¬Stalls x.net r
  | _ => True

instance (st : Stream) (a : Account) (seg : Seg) (ack : Nat) : Decidable (FitsStream st a seg ack) := by
  unfold FitsStream
  split
  · infer_instance
  · split <;> infer_instance

instance (x : State) (seg : Seg) (ack i : Nat) : Decidable (FitsSegment x seg ack i) := by
  unfold FitsSegment
  split <;> infer_instance

instance (s : Net) (r : Request) : Decidable (Stalls s r) := by
  unfold Stalls
  infer_instance

instance (x : State) : ∀ e, Decidable (Fits x e)
  | .frame bytes => inferInstanceAs (Decidable (∀ p ∈ x.net.frameSegment bytes,
      ∀ i ∈ x.net.segSocket p.1, FitsSegment x p.1 p.2 i))
  | .request r => inferInstanceAs (Decidable (¬Stalls x.net r))
  | .ethGet | .clientGet | .wait _ => isTrue trivial

end Tx

namespace Net

/-! ## What a segment does to its stream -/

/-- How much a segment adds, by the state of its stream. -/
def switchGain (st : StreamState) (seg : Seg) : Nat :=
  match st with
  | .closed => (seg.has flagSyn).toNat
  | .synSent => 1
  | .finWait1 => (seg.has flagFin && seg.has flagAck).toNat
  | _ => 0

/-- The state that a segment leads to. -/
def switchNext (st : StreamState) (seg : Seg) : StreamState :=
  match st with
  | .closed => if seg.has flagSyn then .synReceived else .closed
  | .synSent | .synReceived => .established
  | .established => if seg.has flagFin then .lastAck else .established
  | .finWait1 => if seg.has flagFin && seg.has flagAck then .timeWait else .finWait1
  | .lastAck => .closed
  | st => st

/-- A stream has sent so much more and is in a state. -/
structure Moves (st st' : Stream) (gain : Nat) (next : StreamState) : Prop where
  init : st'.initSeqTx = st.initSeqTx
  seq : st'.seqTx ≡ st.seqTx + gain [MOD 2 ^ 32]
  state : st'.state = next

variable {s s' t : Net} {i j k n : Nat} {seg : Seg} {st st' st'' : Stream} {next next' : StreamState}

theorem seqAdd_modEq (a n : Nat) : seqAdd a n ≡ a + n [MOD 2 ^ 32] := Nat.mod_modEq _ _

theorem Moves.trans {m : Nat} (h : Moves st st' n next) (h' : Moves st' st'' m next') :
    Moves st st'' (n + m) next' where
  init := h'.init.trans h.init
  seq := (h'.seq.trans (h.seq.add_right m)).trans (by rw [Nat.add_assoc])
  state := h'.state

/-- Nothing of it has changed. -/
theorem moves_of_eq (hinit : st'.initSeqTx = st.initSeqTx) (hseq : st'.seqTx = st.seqTx)
    (hstate : st'.state = next) : Moves st st' 0 next := ⟨hinit, by rw [hseq]; exact Nat.ModEq.refl _, hstate⟩

theorem moves_one (hinit : st'.initSeqTx = st.initSeqTx) (hseq : st'.seqTx = seqAdd st.seqTx 1)
    (hstate : st'.state = next) : Moves st st' 1 next :=
  ⟨hinit, by rw [hseq]; exact seqAdd_modEq _ _, hstate⟩

/-- The buffer of a stream may change. -/
structure SameTx (st st' : Stream) : Prop where
  init : st'.initSeqTx = st.initSeqTx
  seq : st'.seqTx = st.seqTx
  state : st'.state = st.state

theorem Pushed.sameTx (h : Pushed s i seg k t) : SameTx (s.stream k) (t.stream k) := by
  cases h with
  | kept => exact ⟨rfl, rfl, rfl⟩
  | delivered =>
    show SameTx _ ((s.delivered k (s.tcp i).client).stream k)
    rw [delivered_self]
    exact ⟨rfl, rfl, rfl⟩

theorem Finished.moves (h : Finished s i seg k t) (hst : (s.stream k).state = .established) :
    Moves (s.stream k) (t.stream k) 0 (if seg.has flagFin then .lastAck else .established) := by
  cases h with
  | no hfin =>
    rw [hfin]
    exact moves_of_eq rfl rfl hst
  | quiet hfin hsent =>
    rw [hfin, setStream_self, hsent.stream, setStream_self]
    exact moves_of_eq rfl rfl rfl
  | @told u hfin hsent =>
    rw [hfin]
    refine moves_of_eq ?_ ?_ ?_ <;>
      simp [tcpIdle, setTcp, setStream, replied, hsent.stream]

theorem Switched.moves (h : Switched s i seg k t) : Moves (s.stream k) (t.stream k)
    (switchGain (s.stream k).state seg) (switchNext (s.stream k).state seg) := by
  cases h with
  | listen hst =>
    rw [hst]
    exact moves_of_eq rfl rfl hst
  | closed hst hsyn =>
    rw [hst]
    unfold switchGain switchNext
    rw [hsyn]
    exact moves_of_eq rfl rfl hst
  | opened hst hsyn hsent =>
    rw [hst]
    unfold switchGain switchNext
    rw [hsyn, setStream_self, hsent.stream]
    exact moves_one rfl rfl rfl
  | connected hst hack hsent =>
    rw [hst, answered_stream, hsent.stream, setStream_self]
    exact moves_one rfl rfl rfl
  | accepted hst _ _ _ _ _ _ hacc =>
    rw [hst, hacc.stream]
    have hq : (s.queued i k).stream k = { s.stream k with state := .established } :=
      setStream_self (s := s) fun st => { st with state := .established }
    rw [hq]
    exact moves_of_eq rfl rfl rfl
  | @received u _ hst _ hpush hfin =>
    have happ : (s.appended seg k).stream k = { s.stream k with buf := (s.stream k).buf ++ seg.payload } :=
      setStream_self _
    have hsame := hpush.sameTx
    rw [happ] at hsame
    have hmoves := hfin.moves (hsame.state.trans hst)
    rw [hst]
    exact ⟨hmoves.init.trans hsame.init, hsame.seq ▸ hmoves.seq, hmoves.state⟩
  | finWait1 hst hw =>
    rw [hst]
    unfold switchGain switchNext
    cases hw with
    | no hno =>
      have hfalse : (seg.has flagFin && seg.has flagAck) = false :=
        Bool.eq_false_iff.mpr fun hb => hno (Bool.and_eq_true_iff.mp hb)
      rw [hfalse]
      exact moves_of_eq rfl rfl hst
    | @closed u l hfin hack hsent =>
      have hstream : ∀ v : Net, (((v.replied (v.tcp i).client 0 [] none).setTcp i fun t =>
        { t with cliState := .closed }).removed i l).stream = v.stream := fun _ => rfl
      rw [hfin, hack, hstream, hsent.stream, setStream_self]
      exact moves_one rfl rfl rfl
  | lastAck hst =>
    rw [hst, setStream_self]
    exact moves_of_eq rfl rfl rfl

/-- How much a segment adds, and the state it leads to. -/
def gain (st : StreamState) (seg : Seg) : Nat :=
  if seg.has flagRst then 1 + switchGain .closed seg else switchGain st seg

def nextState (st : StreamState) (seg : Seg) : StreamState :=
  if seg.has flagRst then switchNext .closed seg else switchNext st seg

theorem sameTx_rxSeq (seg : Seg) (st : Stream) : SameTx st (rxSeq seg st) := by
  unfold rxSeq
  split <;> exact ⟨rfl, rfl, rfl⟩

/-- What a segment that is not ignored does to its stream. -/
theorem Processed.moves (h : Processed s i seg k t) (hseq : Net.wrongSeq seg (s.stream k) = false) :
    Moves (s.stream k) (t.stream k) (gain (s.stream k).state seg) (nextState (s.stream k).state seg) := by
  have hsame := sameTx_rxSeq seg (s.stream k)
  unfold gain nextState
  cases h with
  | wrongSeq hwrong =>
    rw [hseq] at hwrong
    cases hwrong
  | plain _ hrst hsw =>
    have hmoves := hsw.moves
    rw [setStream_self, hsame.state] at hmoves
    rw [hrst]
    exact ⟨hmoves.init.trans hsame.init, hsame.seq ▸ hmoves.seq, hmoves.state⟩
  | @reset u _ _ hrst hu hsw =>
    obtain ⟨v, hsent, -, -, rfl⟩ := processRst_cases hu
    have hmoves := hsw.moves
    rw [answered_stream, setStream_self, hsent.stream, setStream_self, setStream_self] at hmoves
    rw [hrst]
    have hreset : Moves (s.stream k)
        { (rxSeq seg (s.stream k)) with
          seqTx := seqAdd (rxSeq seg (s.stream k)).seqTx 1
          seqRx := seqAdd (rxSeq seg (s.stream k)).seqRx 1
          state := .closed } 1 .closed :=
      moves_one hsame.init (congrArg (seqAdd · 1) hsame.seq) rfl
    exact hreset.trans hmoves

/-! ## The nodes -/

/-- No stream is new. -/
structure NoNew (s s' : Net) : Prop where
  old : ∀ k, k ∈ s'.allstreams.nodes → k ∈ s.allstreams.nodes
  wf : s.allstreams.Wf → s'.allstreams.Wf

theorem noNew_of_eq (h : s'.allstreams = s.allstreams) : NoNew s s' := ⟨fun _ hk => h ▸ hk, fun hw => h ▸ hw⟩

theorem NoNew.trans {u : Net} (h : NoNew s t) (h' : NoNew t u) : NoNew s u :=
  ⟨fun k hk => h.old k (h'.old k hk), fun hw => h'.wf (h.wf hw)⟩

theorem noNew_removed {l : Nat} (hl : l ∈ s.allstreams.nodes) : NoNew s (s.removed i l) where
  old k hk := by
    have hk' : k ∈ (s.allstreams.erase l).nodes := hk
    rw [NodeList.nodes_erase] at hk'
    exact (List.mem_filter.mp hk').1
  wf hw := NodeList.wf_erase hw hl

theorem Accepted.noNew (h : Accepted s i k t) : NoNew s t := by
  cases h with
  | full => exact noNew_of_eq rfl
  | @done iaddr =>
    refine noNew_of_eq ?_
    show (s.accepted i k (s.cnt + 1) iaddr).allstreams = s.allstreams
    unfold accepted
    dsimp only
    generalize hu : ({ s with
        cnt := s.cnt + 1
        tcpIds := s.tcpIds ++ [s.cnt + 1]
        tcp := fun l => if l = s.cnt + 1 then _ else s.tcp l } : Net) = u
    obtain ⟨q, hrem, -⟩ := remFromQueue_eq u i k
    rw [hrem, ← hu]
    rfl

theorem Switched.noNew (h : Switched s i seg k t) : NoNew s t := by
  cases h with
  | listen => exact noNew_of_eq rfl
  | closed => exact noNew_of_eq rfl
  | opened _ _ hsent => exact noNew_of_eq hsent.sameHolders.all
  | connected _ _ hsent => exact noNew_of_eq hsent.sameHolders.all
  | accepted _ _ _ _ _ _ _ hacc =>
    have hq : NoNew s (s.queued i k) := noNew_of_eq rfl
    exact hq.trans hacc.noNew
  | received _ _ hpush hfin =>
    have happ : NoNew s (s.appended seg k) := noNew_of_eq rfl
    exact happ.trans ((noNew_of_eq hpush.sameHolders.all).trans (noNew_of_eq hfin.sameHolders.all))
  | finWait1 _ hw =>
    cases hw with
    | no => exact noNew_of_eq rfl
    | @closed u l _ _ hsent _ _ _ _ hl =>
      have hclose : NoNew s ((u.replied (u.tcp i).client 0 [] none).setTcp i fun t =>
        { t with cliState := .closed }) := noNew_of_eq hsent.sameHolders.all
      exact hclose.trans (noNew_removed hl)
  | lastAck => exact noNew_of_eq rfl

theorem Processed.noNew (h : Processed s i seg k t) : NoNew s t := by
  cases h with
  | wrongSeq => exact noNew_of_eq rfl
  | plain _ _ hsw =>
    have hrx : NoNew s (s.setStream k (rxSeq seg)) := noNew_of_eq rfl
    exact hrx.trans hsw.noNew
  | reset _ _ hu hsw =>
    have hrx : NoNew s (s.setStream k (rxSeq seg)) := noNew_of_eq rfl
    exact (hrx.trans (noNew_of_eq (processRst_sameHolders hu).all)).trans hsw.noNew

/-- A packet that is no segment writes no stream. -/
theorem Packed.streams {eth : Nat} {p : Packet} (h : Packed s eth p t) (hp : ∀ seg, p ≠ .tcp seg) :
    t.stream = s.stream ∧ t.allstreams = s.allstreams := by
  cases h with
  | drop => exact ⟨rfl, rfl⟩
  | marked => exact ⟨rfl, rfl⟩
  | arpReplied => exact ⟨rfl, rfl⟩
  | @arpChecked spa sha u _ hudp htcp =>
    refine ⟨?_, (arpChecked_sameHolders hudp htcp).all⟩
    have h1 : u.stream = s.stream := runAll_invariant_of_step (I := fun v => v.stream = s.stream)
      (fun v j w hv hw => by
        rw [← hv]
        cases checkArpUdp_cases hw <;> rfl) rfl hudp
    exact runAll_invariant_of_step (I := fun v => v.stream = s.stream)
      (fun v j w hv hw => by
        rw [← hv]
        cases checkArpTcp_cases hw <;> rfl) h1 htcp
  | echoed => exact ⟨rfl, rfl⟩
  | unreach hu => rcases sendIcmpDestUnreach_eq_ok hu with rfl | ⟨mem, f, rfl⟩ <;> exact ⟨rfl, rfl⟩
  | noUdp _ hu => rcases sendIcmpDestUnreach_eq_ok hu with rfl | ⟨mem, f, rfl⟩ <;> exact ⟨rfl, rfl⟩
  | datagram _ hd => cases hd <;> exact ⟨rfl, rfl⟩
  | noTcp => exact absurd rfl (hp _)
  | connected => exact absurd rfl (hp _)
  | fallback => exact absurd rfl (hp _)

theorem Packed.segment {eth : Nat} (h : Packed s eth (.tcp seg) t) :
    s.segSocket seg = none ∧ t.stream = s.stream ∧ t.allstreams = s.allstreams ∨
      ∃ i, s.segSocket seg = some i ∧ Segmented s i seg t := by
  unfold segSocket
  cases h with
  | noTcp hconn hlist hu =>
    rw [hconn, hlist]
    rcases sendIcmpDestUnreach_eq_ok hu with rfl | ⟨mem, f, rfl⟩ <;> exact .inl ⟨rfl, rfl, rfl⟩
  | connected hfind hs =>
    rw [hfind]
    exact .inr ⟨_, rfl, hs⟩
  | fallback hconn hfind hs =>
    rw [hconn, hfind]
    exact .inr ⟨_, rfl, hs⟩

/-- What a segment does to the streams: it is for a stream of the socket, it is ignored, or it opens a
connection. -/
theorem segmented_streams (h : Segmented s i seg t) :
    (∃ k, s.socketStream i seg = some k ∧ Processed s i seg k t) ∨
      (s.socketStream i seg = none ∧ seg.has flagSyn = false ∧ t = s) ∨
        (s.tcp i).netState = .listen ∧ s.socketStream i seg = none ∧ seg.has flagSyn = true ∧
          ∃ k l, s.allstreams.pushBack () = some (l, k) ∧
            Processed (s.withStream i k l seg.src seg.sport) i seg k t := by
  unfold socketStream
  cases h with
  | none hsel =>
    cases hsel with
    | unknown hnet hfind hsyn =>
      rw [hnet]
      exact .inr (.inl ⟨hfind, hsyn, rfl⟩)
  | @some k u _ hsel hp =>
    cases hsel with
    | connecting hnet _ hfind =>
      rw [hnet]
      exact .inl ⟨k, hfind, hp⟩
    | connection hnet hstream =>
      rw [hnet]
      exact .inl ⟨k, hstream, hp⟩
    | @added _ l hnet _ hfind hsyn _ hpush =>
      rw [hnet]
      exact .inr (.inr ⟨rfl, hfind, hsyn, k, l, hpush, hp⟩)

/-- A closed stream is not removed. -/
theorem Switched.all_of_closed (h : Switched s i seg k t) (hst : (s.stream k).state = .closed) :
    t.allstreams = s.allstreams := by
  cases h with
  | listen hs => exact absurd (hst.symm.trans hs) (by decide)
  | closed => rfl
  | opened _ _ hsent => exact hsent.sameHolders.all
  | connected hs => exact absurd (hst.symm.trans hs) (by decide)
  | accepted hs => exact absurd (hst.symm.trans hs) (by decide)
  | received hs => exact absurd (hst.symm.trans hs) (by decide)
  | finWait1 hs => exact absurd (hst.symm.trans hs) (by decide)
  | lastAck hs => exact absurd (hst.symm.trans hs) (by decide)

theorem Processed.all_of_closed (h : Processed s i seg k t) (hst : (s.stream k).state = .closed) :
    t.allstreams = s.allstreams := by
  cases h with
  | wrongSeq => rfl
  | plain _ _ hsw =>
    have hrx : ((s.setStream k (rxSeq seg)).stream k).state = .closed := by
      rw [setStream_self, (sameTx_rxSeq seg _).state]
      exact hst
    exact hsw.all_of_closed hrx
  | reset _ _ hu hsw =>
    refine (hsw.all_of_closed ?_).trans (processRst_sameHolders hu).all
    obtain ⟨v, -, -, -, rfl⟩ := processRst_cases hu
    rw [answered_stream, setStream_self]

/-! ## What a request does to the streams -/

/-- A stream has at most begun to close. -/
structure Quiet (st st' : Stream) : Prop where
  init : st'.initSeqTx = st.initSeqTx
  seq : st'.seqTx = st.seqTx
  state : st'.state = st.state ∨ st.state = .established ∧ st'.state = .finWait1

theorem Quiet.refl (st : Stream) : Quiet st st := ⟨rfl, rfl, .inl rfl⟩

/-- No stream has changed its numbers, and none is new. -/
structure Quiets (s s' : Net) : Prop where
  noNew : NoNew s s'
  stream : ∀ j, Quiet (s.stream j) (s'.stream j)

theorem quiets_of_eq (hall : s'.allstreams = s.allstreams) (hstream : s'.stream = s.stream) : Quiets s s' :=
  ⟨noNew_of_eq hall, fun _ => hstream ▸ Quiet.refl _⟩

/-- A request that is not one to send leaves the numbers as they are, or it connects. -/
theorem Requested.quiets {r : Request} {frame : Nat} {kept : Bool} (h : Requested s r frame kept t)
    (hop : ¬s.Asks r 7 9 2) : Quiets s t ∨ ∃ k l addr port, s.allstreams.pushBack () = some (l, k) ∧
      t.allstreams = l ∧
        t.stream = fun j =>
          if j = k then { Stream.mk' addr port with state := .synSent } else s.stream j := by
  cases h with
  | refused => exact .inl (quiets_of_eq rfl rfl)
  | newUdp => exact .inl (quiets_of_eq rfl rfl)
  | newTcp => exact .inl (quiets_of_eq rfl rfl)
  | closeUdp => exact .inl (quiets_of_eq rfl rfl)
  | closeListener => exact .inl (quiets_of_eq rfl rfl)
  | @closeClosed i k _ _ _ _ _ _ _ _ hmem =>
    have hremoved : NoNew s ((s.setTcp i fun t => { t with cliState := .closed }).removed i k) :=
      NoNew.trans (t := s.setTcp i fun t => { t with cliState := .closed }) (noNew_of_eq rfl)
        (noNew_removed hmem)
    exact .inl ⟨hremoved.trans (noNew_of_eq rfl), fun _ => Quiet.refl _⟩
  | @closing i k u _ _ _ _ _ _ _ hst hsent =>
    refine .inl ⟨noNew_of_eq hsent.sameHolders.all, fun j => ?_⟩
    rw [hsent.stream]
    by_cases hj : j = k
    · subst hj
      rw [setStream_self]
      exact ⟨rfl, rfl, .inr ⟨hst, rfl⟩⟩
    · rw [setStream_of_ne _ hj]
      exact Quiet.refl _
  | bindUdp => exact .inl (quiets_of_eq rfl rfl)
  | bindTcp => exact .inl (quiets_of_eq rfl rfl)
  | listening => exact .inl (quiets_of_eq rfl rfl)
  | accepting => exact .inl (quiets_of_eq rfl rfl)
  | @acceptedQueued i k _ _ _ _ _ _ _ _ _ _ hacc =>
    have htake : NoNew s ((s.pending i r.cli .accept).setTcp i fun t =>
        { t with connectedQueue := t.connectedQueue.tail }) := noNew_of_eq rfl
    refine .inl ⟨htake.trans hacc.noNew, fun j => ?_⟩
    rw [hacc.stream]
    exact Quiet.refl _
  | @connecting i k l f _ _ _ _ _ _ _ _ hpush hsent =>
    refine .inr ⟨k, l, r.sinAddr 5, r.sinPort 5, hpush, hsent.sameHolders.all, ?_⟩
    rw [hsent.stream]
    obtain ⟨g, p, hbind, -⟩ := autoBindTcp_eq s i f.addr
    unfold Net.connecting
    rw [hbind]
    rfl
  | sendTcpBusy h => exact absurd h hop
  | sendTcpWait h => exact absurd h hop
  | sendTcpNow h => exact absurd h hop
  | sendUdpBusy h => exact absurd h hop
  | sendUdpWait h => exact absurd h hop
  | sendUdpNow h => exact absurd h hop
  | @recvTcpData i k =>
    refine .inl ⟨noNew_of_eq rfl, fun j => ?_⟩
    by_cases hj : j = k
    · subst hj
      rw [delivered_self]
      exact ⟨rfl, rfl, .inl rfl⟩
    · have hother : (s.delivered k r.cli).stream j = s.stream j := if_neg hj
      rw [hother]
      exact Quiet.refl _
  | recvTcpWait => exact .inl (quiets_of_eq rfl rfl)
  | recvTcpEnd => exact .inl (quiets_of_eq rfl rfl)
  | recvUdpData => exact .inl (quiets_of_eq rfl rfl)
  | recvUdpWait => exact .inl (quiets_of_eq rfl rfl)

/-! ## What a request to send does -/

variable {r : Request} {frame : Nat} {kept : Bool}

/-- The request passes all checks of a request to send on the connection of the socket `i`. -/
structure Sends (s : Net) (r : Request) (i k : Nat) : Prop where
  notUdp : s.findUdp r.sock = none
  found : s.findTcp r.sock = some i
  owner : (s.tcp i).isOwner r.cli = true
  cli : (s.tcp i).cliState = .idle ∨ (s.tcp i).cliState = .recv
  net : (s.tcp i).netState = .connection
  stream : (s.tcp i).stream = some k
  state : (s.stream k).state = .established
  iface : (txIface (s.tcp i).toSocket (s.stream k).remAddr).isSome = true

theorem Sends.sendStream (h : Sends s r i k) : s.sendStream r = some k := by
  unfold Net.sendStream
  rw [h.notUdp, h.found]
  exact h.stream

theorem Sends.unique {l : Nat} (h : Sends s r i k) (h' : Sends s r j l) : j = i ∧ l = k := by
  obtain rfl := Option.some.inj (h.found.symm.trans h'.found)
  exact ⟨rfl, Option.some.inj (h'.stream.symm.trans h.stream)⟩

/-- Nothing was sent: no stream has changed, and the client was told. -/
structure Unsent (s : Net) (r : Request) (s' : Net) : Prop where
  all : s'.allstreams = s.allstreams
  stream : s'.stream = s.stream
  told : s.findUdp r.sock = none → s'.refused r.cli = true

theorem refused_replied {cli ecode : Nat} {words : List Nat} {bf : Option Buf} :
    (s.replied cli ecode words bf).refused cli = (ecode != 0) := by
  unfold refused replied
  simp

theorem refuse_unsent {ecode : Nat} (hcode : ecode ≠ 0) (h : s.refuse r.cli ecode = .ok (kept, t)) :
    Unsent s r t := by
  obtain ⟨-, -, rfl⟩ := answer_requested h
  exact ⟨rfl, rfl, fun _ => by rw [refused_replied]; simpa using hcode⟩

/-- The frame for a datagram writes no stream. -/
theorem processCliSendtoUdp_streams (h : s.processCliSendtoUdp r i frame = .ok (kept, t)) :
    t.allstreams = s.allstreams ∧ t.stream = s.stream := by
  unfold processCliSendtoUdp at h
  split at h
  · obtain ⟨-, -, rfl⟩ := answer_requested h
    exact ⟨rfl, rfl⟩
  split at h
  · obtain ⟨-, -, rfl⟩ := answer_requested h
    exact ⟨rfl, rfl⟩
  rename_i f hif
  obtain ⟨g, p, hbind, -⟩ := autoBindUdp_eq s i f.addr
  obtain ⟨arp, harp⟩ := arpFind_eq (s := s.autoBindUdp i f.addr) (r.sinAddr 6)
  have hall : (s.autoBindUdp i f.addr).allstreams = s.allstreams := by rw [hbind]; rfl
  have hstr : (s.autoBindUdp i f.addr).stream = s.stream := by rw [hbind]; rfl
  dsimp only at h
  rw [harp] at h
  split at h
  · split at h
    · obtain ⟨-, -, rfl⟩ := answer_requested h
      exact ⟨hall, hstr⟩
    · obtain ⟨w, hsend, h⟩ := bind_eq_ok.mp h
      obtain ⟨-, rfl⟩ := Prod.mk.inj (Except.ok.inj h)
      obtain ⟨n, mem', e, -, -, -, -, rfl⟩ := sendArpRequest_eq_ok hsend
      exact ⟨hall, hstr⟩
  · obtain ⟨-, -, rfl⟩ := answer_requested h
    exact ⟨hall, hstr⟩

/-- The segment with the payload was built: the number went on, and the request is refused when the address
is not known and the socket waits for one. -/
theorem sendtoTcp_sent {f : IpIface} {v : Net} {mac ip len : Nat}
    (h : (if mac = macNil then
        if (v.tcp i).waitArp then v.refuse r.cli 11
        else (v.setTcp i (tcpWaiting frame (74 + len) r.cli)).sendArpRequest f ip >>= fun w => .ok (true, w)
      else (v.sendToEthDrv frame (74 + len)).answer r.cli 0 [len]) = .ok (kept, t))
    (hall : v.allstreams = s.allstreams)
    (hstream : ∀ j, v.stream j = if j = k then { s.stream k with seqTx := seqAdd (s.stream k).seqTx len }
      else s.stream j) :
    t.allstreams = s.allstreams ∧
      (t.stream = fun j => if j = k then { s.stream k with seqTx := seqAdd (s.stream k).seqTx len }
        else s.stream j) ∧
      t.refused r.cli = (decide (mac = macNil) && (v.tcp i).waitArp) := by
  split at h
  · rename_i hnil
    split at h
    · rename_i hw
      obtain ⟨-, -, rfl⟩ := answer_requested h
      refine ⟨hall, funext hstream, ?_⟩
      rw [refused_replied, hw, decide_eq_true hnil]
      rfl
    · rename_i hw
      obtain ⟨w, hsend, h⟩ := bind_eq_ok.mp h
      obtain ⟨-, rfl⟩ := Prod.mk.inj (Except.ok.inj h)
      obtain ⟨n, mem', e, -, -, -, -, rfl⟩ := sendArpRequest_eq_ok hsend
      refine ⟨hall, funext hstream, ?_⟩
      rw [Bool.eq_false_iff.mpr hw, Bool.and_false]
      unfold refused emitted
      simp
  · rename_i hnil
    obtain ⟨-, -, rfl⟩ := answer_requested h
    refine ⟨hall, funext hstream, ?_⟩
    rw [refused_replied, decide_eq_false hnil]
    rfl

/-- What a request to send on a TCP socket does. -/
theorem processCliSendtoTcp_sent (hudp : s.findUdp r.sock = none) (hfound : s.findTcp r.sock = some i)
    (howner : (s.tcp i).isOwner r.cli = true) (hcli : (s.tcp i).cliState = .idle ∨ (s.tcp i).cliState = .recv)
    (h : s.processCliSendtoTcp r i frame = .ok (kept, t)) :
    Unsent s r t ∧ (∀ j k, ¬Sends s r j k) ∨ ∃ k, Sends s r i k ∧ t.allstreams = s.allstreams ∧
      (t.stream = fun j => if j = k then
        { s.stream k with seqTx := seqAdd (s.stream k).seqTx r.data.length } else s.stream j) ∧
      t.refused r.cli = (decide ((s.arpFind (s.stream k).remAddr).1 = macNil) && (s.tcp i).waitArp) := by
  have honly : ∀ {j k}, Sends s r j k → j = i := fun hs => Option.some.inj (hs.found.symm.trans hfound)
  unfold processCliSendtoTcp at h
  split at h
  · rename_i hnet
    exact .inl ⟨refuse_unsent (by decide) h, fun j k hs => hnet (honly hs ▸ hs.net)⟩
  rename_i hnet
  split at h
  · cases h
  rename_i k hk
  have hstream : ∀ {j l}, Sends s r j l → l = k := fun hs =>
    Option.some.inj (hs.stream.symm.trans (honly hs ▸ hk))
  split at h
  · rename_i hst
    exact .inl ⟨refuse_unsent (by decide) h, fun j l hs => hst (hstream hs ▸ hs.state)⟩
  rename_i hst
  split at h
  · rename_i hif
    refine .inl ⟨refuse_unsent (by decide) h, fun j l hs => ?_⟩
    have hsome := hs.iface
    rw [honly hs, hstream hs, hif] at hsome
    cases hsome
  rename_i f hif
  obtain ⟨g, p, hbind, hg⟩ := autoBindTcp_eq s i f.addr
  have hmac : ((s.autoBindTcp i f.addr).arpFind (s.stream k).remAddr).1 =
      (s.arpFind (s.stream k).remAddr).1 :=
    arpFind_congr (by rw [hbind]; rfl) (by rw [hbind]; rfl) _
  have hstr : (s.autoBindTcp i f.addr).stream = s.stream := by rw [hbind]; rfl
  have hall : (s.autoBindTcp i f.addr).allstreams = s.allstreams := by rw [hbind]; rfl
  have hwait : ((s.autoBindTcp i f.addr).tcp i).waitArp = (s.tcp i).waitArp := by
    rw [hbind]
    refine (congrArg (fun t : TcpSocket => t.waitArp)
      (setTcp_self fun t => { t with toSocket := g t.toSocket })).trans ?_
    obtain ⟨b, addr, port, hgt⟩ := hg (s.tcp i).toSocket
    change (g (s.tcp i).toSocket).waitArp = _
    rw [hgt]
  obtain ⟨arp, harp⟩ := arpFind_eq (s := s.autoBindTcp i f.addr) (s.stream k).remAddr
  dsimp only at h
  rw [hstr, harp, hdrsSpace_sub_tcp, hmac] at h
  refine .inr ⟨k, ⟨hudp, hfound, howner, hcli, not_not.mp hnet, hk, not_not.mp hst, by rw [hif]; rfl⟩, ?_⟩
  have hsent := sendtoTcp_sent (s := s) (k := k) h hall fun j => by
    by_cases hj : j = k
    · subst hj
      rw [if_pos rfl, setStream_self]
      exact congrArg (fun st : Stream => { st with seqTx := seqAdd st.seqTx r.data.length }) (congrFun hstr j)
    · rw [if_neg hj, setStream_of_ne _ hj]
      exact congrFun hstr j
  rw [← hwait]
  exact hsent

/-- What a request to send does. -/
theorem processCliSendto_sent (hform : r.untyped = 9 ∧ r.typed = 2)
    (h : s.processCliSendto r frame = .ok (kept, t)) :
    Unsent s r t ∧ (∀ i k, ¬Sends s r i k) ∨ ∃ i k, Sends s r i k ∧ t.allstreams = s.allstreams ∧
      (t.stream = fun j => if j = k then
        { s.stream k with seqTx := seqAdd (s.stream k).seqTx r.data.length } else s.stream j) ∧
      t.refused r.cli = (decide ((s.arpFind (s.stream k).remAddr).1 = macNil) && (s.tcp i).waitArp) := by
  unfold processCliSendto at h
  rw [if_neg (not_or.mpr ⟨not_not.mpr hform.1, not_not.mpr hform.2⟩)] at h
  split at h
  · rename_i i hudp
    refine .inl ⟨?_, fun j k hs => absurd (hudp.symm.trans hs.notUdp) (Option.some_ne_none _)⟩
    split at h
    · exact refuse_unsent (by decide) h
    split at h
    · exact refuse_unsent (by decide) h
    obtain ⟨hall, hstr⟩ := processCliSendtoUdp_streams h
    exact ⟨hall, hstr, fun hnone => absurd (hudp.symm.trans hnone) (Option.some_ne_none _)⟩
  rename_i hudp
  split at h
  · rename_i hfound
    refine .inl ⟨refuse_unsent (by decide) h, fun j k hs => ?_⟩
    exact absurd (hs.found.symm.trans hfound) (Option.some_ne_none _)
  rename_i i hfound
  have honly : ∀ {j k}, Sends s r j k → j = i := fun hs => Option.some.inj (hs.found.symm.trans hfound)
  split at h
  · rename_i howner
    refine .inl ⟨refuse_unsent (by decide) h, fun j k hs => ?_⟩
    exact absurd (howner.symm.trans (honly hs ▸ hs.owner)) (by decide)
  rename_i howner
  split at h
  · rename_i hcli
    refine .inl ⟨refuse_unsent (by decide) h, fun j k hs => ?_⟩
    rcases honly hs ▸ hs.cli with hc | hc
    · exact hcli.1 hc
    · exact hcli.2 hc
  rename_i hcli
  rcases processCliSendtoTcp_sent hudp hfound (Bool.eq_true_of_not_eq_false howner) (by tauto) h with
    hun | ⟨k, hsent⟩
  · exact .inl hun
  · exact .inr ⟨i, k, hsent⟩

/-- A round with a request that is taken. -/
theorem step_request (htakes : s.Takes r) (h : Tcpip.step s (.request r) = .ok s') :
    ∃ frame kept t, (s.receiveRequest r frame).clientRequest r frame = .ok (kept, t) ∧
      s'.stream = t.stream ∧ s'.allstreams = t.allstreams ∧ s'.out = t.out := by
  obtain ⟨hbuf, hcli, hfree, hlen⟩ := htakes
  dsimp only [Tcpip.step] at h
  split at h
  · rename_i hnone
    exact absurd hnone hbuf
  rename_i frame _
  rw [if_neg (by
    rintro (h0 | hb | hl)
    · exact hcli h0
    · rw [hfree] at hb
      cases hb
    · omega)] at h
  obtain ⟨⟨kept, t⟩, hreq, h⟩ := bind_eq_ok.mp h
  obtain rfl := Except.ok.inj h
  refine ⟨frame, kept, t, hreq, ?_⟩
  cases kept <;> exact ⟨rfl, rfl, rfl⟩

end Net

namespace Tx

open Net

variable {x x' : State} {e : Event} {st st' : Stream} {a : Account} {seg : Seg} {ack k : Nat}

/-! ## A stream and its account -/

/-- The state of a stream whose account has nothing in advance. -/
structure Ready (st : StreamState) (a : Account) : Prop where
  active : st ≠ .synReceived
  syn : st = .synSent → a.syn = false
  fin : st = .synSent ∨ st = .established ∨ st = .finWait1 ∨ st = .lastAck → a.fin = false

/-- What the segment acknowledges. -/
def ackGain (st : Stream) (a : Account) (seg : Seg) (ack : Nat) : Nat :=
  ((st.state.synOut || st.state.finOut) && acks st a seg ack).toNat

theorem total_acked (h : Ready st.state a) :
    (a.acked st seg ack).total = a.total + ackGain st a seg ack := by
  obtain ⟨hactive, hsyn, hfin⟩ := h
  unfold Account.acked ackGain Account.total
  cases hacks : acks st a seg ack with
  | false => simp
  | true =>
    cases hst : st.state <;> rw [hst] at hactive hsyn hfin <;>
      simp_all <;> omega

theorem add_modEq_iff {m n g : Nat} (hn : n < 2) (hg : g < 4) :
    m + g ≡ m + n [MOD 2 ^ 32] ↔ n = g := by
  constructor
  · intro h
    exact ((Nat.ModEq.add_left_cancel' m h).eq_of_lt_of_lt (by omega) (by omega)).symm
  · rintro rfl
    exact Nat.ModEq.refl _

/-- The stream stays right when it moves by what the segment acknowledges. -/
theorem right_iff (seg : Seg) (ack : Nat) (hright : Right st a) (hready : Ready st.state a) {g : Nat}
    {next : StreamState} (hg : g < 4) (hmoves : Moves st st' g next) :
    Right st' (a.acked st seg ack) ↔ ackGain st a seg ack = g := by
  have hgain : ackGain st a seg ack < 2 := Bool.toNat_lt _
  have hseq : st'.seqTx ≡ st.initSeqTx + a.total + g [MOD 2 ^ 32] := hmoves.seq.trans (hright.add_right g)
  unfold Right
  rw [hmoves.init, total_acked hready, ← Nat.add_assoc,
    ← add_modEq_iff (m := st.initSeqTx + a.total) hgain hg]
  exact ⟨fun h => hseq.symm.trans h, fun h => hseq.trans h⟩

theorem fitsStream_iff (hready : Ready st.state a) :
    FitsStream st a seg ack ↔ ackGain st a seg ack = gain st.state seg := by
  obtain ⟨hactive, -, -⟩ := hready
  unfold FitsStream ackGain gain switchGain
  by_cases hrst : seg.has flagRst = true
  · rw [if_pos hrst, if_pos hrst]
    cases hsyn : seg.has flagSyn <;> cases hacks : acks st a seg ack <;>
      cases hout : (st.state.synOut || st.state.finOut) <;> simp
  · rw [if_neg hrst, if_neg hrst]
    cases hst : st.state with
    | synReceived => exact absurd hst hactive
    | closed => cases seg.has flagSyn <;> simp
    | synSent => simp
    | finWait1 => cases acks st a seg ack <;> cases seg.has flagFin && seg.has flagAck <;> simp
    | lastAck => simp
    | listen => simp
    | established => simp
    | closeWait => simp
    | finWait2 => simp
    | timeWait => simp
    | closing => simp

theorem ready_idle {next : StreamState} (hactive : next ≠ .synReceived) (hsyn : next ≠ .synSent)
    (hfin : next ≠ .established ∧ next ≠ .finWait1 ∧ next ≠ .lastAck) : Ready next a :=
  ⟨hactive, fun h => absurd h hsyn, by tauto⟩

theorem ready_closed : Ready .closed a := ready_idle (by decide) (by decide) (by decide)

/-- A segment that fits leaves nothing in advance. -/
theorem ready_next (hready : Ready st.state a) (hfits : FitsStream st a seg ack) :
    Ready (nextState st.state seg) (a.acked st seg ack) := by
  unfold FitsStream at hfits
  unfold nextState
  by_cases hrst : seg.has flagRst = true
  · rw [if_pos hrst] at hfits ⊢
    unfold switchNext
    rw [hfits.2.2]
    exact ready_closed
  · rw [if_neg hrst] at hfits ⊢
    have hacked : st.state.finOut = false → (a.acked st seg ack).fin = a.fin := by
      intro hout
      unfold Account.acked
      split
      · show (a.fin || st.state.finOut) = a.fin
        rw [hout, Bool.or_false]
      · rfl
    have hbehind : ∀ {next : StreamState}, next = .established ∨ next = .finWait1 ∨ next = .lastAck →
        (a.acked st seg ack).fin = false → Ready next (a.acked st seg ack) := by
      rintro next (rfl | rfl | rfl) hfin <;> exact ⟨by decide, nofun, fun _ => hfin⟩
    cases hst : st.state with
    | synReceived => exact absurd hst hready.active
    | closed =>
      rw [hst] at hfits
      unfold switchNext
      rw [show seg.has flagSyn = false from hfits]
      exact ready_closed
    | synSent =>
      exact hbehind (.inl rfl) ((hacked (by rw [hst]; rfl)).trans (hready.fin (.inl hst)))
    | established =>
      have hfin := (hacked (by rw [hst]; rfl)).trans (hready.fin (.inr (.inl hst)))
      unfold switchNext
      cases seg.has flagFin with
      | false => exact hbehind (.inl rfl) hfin
      | true => exact hbehind (.inr (.inr rfl)) hfin
    | finWait1 =>
      rw [hst] at hfits
      unfold switchNext
      cases hboth : seg.has flagFin && seg.has flagAck with
      | true =>
        show Ready .timeWait _
        exact ready_idle (by decide) (by decide) (by decide)
      | false =>
        have hacks : acks st a seg ack = false := hfits.trans hboth
        refine hbehind (.inr (.inl rfl)) ?_
        unfold Account.acked
        rw [hacks]
        exact hready.fin (.inr (.inr (.inl hst)))
    | lastAck => exact ready_closed
    | listen =>
      show Ready .listen _
      exact ready_idle (by decide) (by decide) (by decide)
    | closeWait =>
      show Ready .closeWait _
      exact ready_idle (by decide) (by decide) (by decide)
    | finWait2 =>
      show Ready .finWait2 _
      exact ready_idle (by decide) (by decide) (by decide)
    | timeWait =>
      show Ready .timeWait _
      exact ready_idle (by decide) (by decide) (by decide)
    | closing =>
      show Ready .closing _
      exact ready_idle (by decide) (by decide) (by decide)

/-! ## Runs -/

/-- The streams are right, and no account has anything in advance. -/
structure Inv (x : State) : Prop where
  wf : x.net.allstreams.Wf
  right : ∀ k, Right (x.net.stream k) (x.book k)
  ready : ∀ k, Ready (x.net.stream k).state (x.book k)

theorem inv_start (key0 key1 : Nat) : Inv (.start key0 key1) where
  wf := NodeList.wf_init
  right _ := Nat.ModEq.refl _
  ready _ := ready_closed

variable {s' : Net} {b : Book}

/-- A step that changes no number and counts nothing. -/
theorem Inv.quiet (h : Inv x) (hq : Quiets x.net s') (hbook : ∀ k, b k = x.book k) : Inv ⟨s', b⟩ where
  wf := hq.noNew.wf h.wf
  right k := by
    show Right (s'.stream k) (b k)
    unfold Right
    rw [hbook k, (hq.stream k).init, (hq.stream k).seq]
    exact h.right k
  ready k := by
    show Ready (s'.stream k).state (b k)
    rw [hbook k]
    obtain ⟨hactive, hsyn, hfin⟩ := h.ready k
    rcases (hq.stream k).state with hst | ⟨hst, hst'⟩
    · rw [hst]
      exact ⟨hactive, hsyn, hfin⟩
    · rw [hst']
      exact ⟨by decide, nofun, fun _ => hfin (.inr (.inl hst))⟩

theorem not_opens (hnew : NoNew x.net s') (k : Nat) : ¬x.net.Opens s' k := fun ⟨h, h'⟩ => h' (hnew.old k h)

theorem next_frame {bytes : List UInt8} (h : ¬x.net.Opens s' k) :
    x.book.next x.net (.frame bytes) s' k = x.book.segment x.net (x.net.frameSegment bytes) k := if_neg h

theorem next_request {r : Request} (h : ¬x.net.Opens s' k) :
    x.book.next x.net (.request r) s' k = x.book.request x.net r s' k := if_neg h

/-- A stream that the segment is not for keeps its account. -/
theorem segment_of_ne {p : Option (Seg × Nat)}
    (h : ∀ q ∈ p, (x.net.segSocket q.1).bind (fun i => x.net.socketStream i q.1) ≠ some k) :
    x.book.segment x.net p k = x.book k := by
  unfold Book.segment
  cases p with
  | none => rfl
  | some q => exact if_neg fun hk => h q rfl hk.1

/-! ### Frames -/

theorem gain_lt (st : StreamState) (seg : Seg) : gain st seg < 4 := by
  have hswitch : ∀ st, switchGain st seg < 2 := by
    intro st
    unfold switchGain
    split
    · exact Bool.toNat_lt _
    · decide
    · exact Bool.toNat_lt _
    · decide
  unfold gain
  split
  · exact (Nat.add_lt_add_left (hswitch _) 1).trans (by decide)
  · exact (hswitch _).trans (by decide)

/-- What the search for the stream of a segment reads. -/
structure SameSockets (s u : Net) : Prop where
  stream : u.stream = s.stream
  tcp : u.tcp = s.tcp
  ids : u.tcpIds = s.tcpIds
  all : u.allstreams = s.allstreams

theorem SameSockets.segSocket {s u : Net} (h : SameSockets s u) : u.segSocket seg = s.segSocket seg := by
  unfold Net.segSocket findConnectedSocket findListeningSocket
  rw [h.stream, h.tcp, h.ids]

theorem SameSockets.socketStream {s u : Net} {i : Nat} (h : SameSockets s u) :
    u.socketStream i seg = s.socketStream i seg := by
  unfold Net.socketStream findStream
  rw [h.stream, h.tcp]

theorem stream_of_wrongSeq {s t : Net} {i : Nat} (h : Processed s i seg k t)
    (hseq : wrongSeq seg (s.stream k) = true) : t = s := by
  cases h with
  | wrongSeq => rfl
  | plain hno => exact absurd (hno.symm.trans hseq) (by decide)
  | reset hno => exact absurd (hno.symm.trans hseq) (by decide)

variable {u : Net} {i : Nat} {bytes : List UInt8}

/-- A segment for a stream that is there. -/
theorem Inv.processed (h : Inv x) (hu : SameSockets x.net u)
    (hseg : x.net.frameSegment bytes = some (seg, ack))
    (hi : x.net.segSocket seg = some i) (hk : x.net.socketStream i seg = some k)
    (hp : Processed u i seg k s') :
    (FitsSegment x seg ack i → Inv ⟨s', x.book.next x.net (.frame bytes) s'⟩) ∧
      ((∀ j, Right (s'.stream j) (x.book.next x.net (.frame bytes) s' j)) → FitsSegment x seg ack i) := by
  have hnew : NoNew x.net s' := (noNew_of_eq hu.all).trans hp.noNew
  have hbind : (x.net.segSocket seg).bind (fun i => x.net.socketStream i seg) = some k := by
    rw [hi]
    exact hk
  have hother : ∀ j, j ≠ k → s'.stream j = x.net.stream j ∧
      x.book.next x.net (.frame bytes) s' j = x.book j := fun j hj => by
    refine ⟨(hp.touches.others j hj).trans (congrFun hu.stream j), ?_⟩
    rw [next_frame (not_opens hnew j), hseg]
    refine segment_of_ne fun q hq => ?_
    obtain rfl := Option.some.inj hq
    rw [hbind]
    exact fun hjk => hj (Option.some.inj hjk).symm
  have hself : x.book.next x.net (.frame bytes) s' k = if wrongSeq seg (x.net.stream k) = false then
      (x.book k).acked (x.net.stream k) seg ack else x.book k := by
    rw [next_frame (not_opens hnew k), hseg]
    unfold Book.segment
    by_cases hseq : wrongSeq seg (x.net.stream k) = false
    · rw [if_pos hseq]
      exact if_pos ⟨hbind, hseq⟩
    · rw [if_neg hseq]
      exact if_neg fun hc => hseq hc.2
  unfold FitsSegment
  rw [hk]
  rw [← hu.stream] at hself
  cases hseq : wrongSeq seg (x.net.stream k) with
  | true =>
    rw [hu.stream, hseq] at hself
    obtain rfl := stream_of_wrongSeq hp (hu.stream ▸ hseq)
    refine ⟨fun _ => h.quiet (quiets_of_eq hu.all hu.stream) fun j => ?_, fun _ => .inl hseq⟩
    by_cases hj : j = k
    · rw [hj, hself]
      rfl
    · exact (hother j hj).2
  | false =>
    have hmoves := hp.moves (hu.stream ▸ hseq)
    rw [hu.stream] at hmoves hself
    rw [hseq, if_pos rfl] at hself
    have hiff := right_iff seg ack (h.right k) (h.ready k) (gain_lt _ _) hmoves
    rw [← fitsStream_iff (h.ready k), ← hself] at hiff
    constructor
    · intro hfits
      replace hfits := hfits.resolve_left (by rw [hseq]; decide)
      refine ⟨hnew.wf h.wf, fun j => ?_, fun j => ?_⟩
      · by_cases hj : j = k
        · rw [hj]
          exact hiff.mpr hfits
        · show Right (s'.stream j) (x.book.next x.net (.frame bytes) s' j)
          rw [(hother j hj).1, (hother j hj).2]
          exact h.right j
      · show Ready (s'.stream j).state (x.book.next x.net (.frame bytes) s' j)
        by_cases hj : j = k
        · rw [hj, hself, hmoves.state]
          exact ready_next (h.ready k) hfits
        · rw [(hother j hj).1, (hother j hj).2]
          exact h.ready j
    · exact fun hright => .inr (hiff.mp (hright k))

/-- What a step with a segment leads to. -/
theorem Inv.segmented (h : Inv x) (hu : SameSockets x.net u)
    (hseg : x.net.frameSegment bytes = some (seg, ack))
    (hi : x.net.segSocket seg = some i) (hs : Segmented u i seg s') :
    (FitsSegment x seg ack i → Inv ⟨s', x.book.next x.net (.frame bytes) s'⟩) ∧
      ((∀ j, Right (s'.stream j) (x.book.next x.net (.frame bytes) s' j)) → FitsSegment x seg ack i) := by
  rcases segmented_streams hs with ⟨k, hk, hp⟩ | ⟨hk, hsyn, rfl⟩ | ⟨hnet, hk, hsyn, k, l, hpush, hp⟩
  · exact h.processed hu hseg hi (hu.socketStream ▸ hk) hp
  · have hnew : NoNew x.net s' := noNew_of_eq hu.all
    rw [hu.socketStream] at hk
    have hfits : FitsSegment x seg ack i := by
      unfold FitsSegment
      rw [hk]
      exact fun _ => hsyn
    refine ⟨fun _ => h.quiet (quiets_of_eq hu.all hu.stream) fun j => ?_, fun _ => hfits⟩
    rw [next_frame (not_opens hnew j), hseg]
    refine segment_of_ne fun q hq => ?_
    obtain rfl := Option.some.inj hq
    rw [hi]
    show x.net.socketStream i seg ≠ some j
    rw [hk]
    nofun
  · -- The stream of a connection that another host opens has its Syn counted already.
    rw [hu.socketStream] at hk
    rw [hu.tcp] at hnet
    rw [hu.all] at hpush
    have hst : (u.withStream i k l seg.src seg.sport).stream k =
        { Stream.mk' seg.src seg.sport with initSeqTx := 123, seqTx := 123 } := if_pos rfl
    have hseq : wrongSeq seg ((u.withStream i k l seg.src seg.sport).stream k) = false := by
      rw [hst]
      rfl
    have hmoves := hp.moves hseq
    have hall := hp.all_of_closed (by rw [hst]; rfl)
    rw [hst] at hmoves
    have hopens : x.net.Opens s' k := by
      refine ⟨?_, NodeList.fresh_insertWhere h.wf hpush⟩
      rw [hall]
      exact (NodeList.nodes_insertWhere hpush).mem_iff.mpr List.mem_cons_self
    have hnot : ¬Right (s'.stream k) (x.book.next x.net (.frame bytes) s' k) := by
      have hempty : x.book.next x.net (.frame bytes) s' k = .empty := if_pos hopens
      rw [hempty]
      intro hright
      have hgain : 1 ≤ gain .closed seg := by
        unfold gain switchGain
        rw [hsyn]
        split
        · exact Nat.le_add_right _ _
        · exact le_rfl
      have hinit : (s'.stream k).initSeqTx = 123 := hmoves.init
      unfold Right at hright
      rw [hinit] at hright
      have hmod : 123 + gain .closed seg ≡ 123 + 0 [MOD 2 ^ 32] := hmoves.seq.symm.trans hright
      have heq := (add_modEq_iff (by decide) (gain_lt _ _)).mp hmod
      omega
    unfold FitsSegment
    rw [hk]
    refine ⟨fun hfits => absurd (hfits hnet) (by rw [hsyn]; decide), fun hright => absurd (hright k) hnot⟩

/-! ### Requests -/

variable {r : Request}

/-- A request that counts nothing leaves the book as it is. -/
theorem request_of_not (h : x.net.Takes r → x.net.Asks r 7 9 2 → x.net.sendStream r = some k →
    s'.refused r.cli = true) : x.book.request x.net r s' k = x.book k := by
  refine if_neg ?_
  rintro ⟨h1, h2, h3, h4⟩
  rw [h h1 h2 h3] at h4
  cases h4

theorem Inv.quietRequest (h : Inv x) (hq : Quiets x.net s')
    (hbook : ∀ k, x.net.Takes r → x.net.Asks r 7 9 2 → x.net.sendStream r = some k →
      s'.refused r.cli = true) : Inv ⟨s', x.book.next x.net (.request r) s'⟩ :=
  h.quiet hq fun k => (next_request (not_opens hq.noNew k)).trans (request_of_not (hbook k))

/-- A new connection. -/
theorem Inv.connects (h : Inv x) {l : NodeList Unit} {addr port : Nat}
    (hpush : x.net.allstreams.pushBack () = some (l, k)) (hall : s'.allstreams = l)
    (hstream : s'.stream = fun j =>
      if j = k then { Stream.mk' addr port with state := .synSent } else x.net.stream j)
    (hasks : ¬x.net.Asks r 7 9 2) : Inv ⟨s', x.book.next x.net (.request r) s'⟩ := by
  have hopens : x.net.Opens s' k := by
    refine ⟨?_, NodeList.fresh_insertWhere h.wf hpush⟩
    rw [hall]
    exact (NodeList.nodes_insertWhere hpush).mem_iff.mpr List.mem_cons_self
  have hself : s'.stream k = { Stream.mk' addr port with state := .synSent } := by
    rw [hstream]
    exact if_pos rfl
  have hbook : x.book.next x.net (.request r) s' k = .empty := if_pos hopens
  have hother : ∀ j, j ≠ k → s'.stream j = x.net.stream j ∧
      x.book.next x.net (.request r) s' j = x.book j := fun j hj => by
    refine ⟨?_, ?_⟩
    · rw [hstream]
      exact if_neg hj
    · have hold : ¬x.net.Opens s' j := by
        rintro ⟨hmem, hnot⟩
        rw [hall, (NodeList.nodes_insertWhere hpush).mem_iff] at hmem
        exact hnot ((List.mem_cons.mp hmem).resolve_left hj)
      exact (next_request hold).trans (request_of_not fun _ ha => absurd ha hasks)
  refine ⟨?_, fun j => ?_, fun j => ?_⟩
  · show s'.allstreams.Wf
    rw [hall]
    exact NodeList.wf_insertWhere h.wf hpush
  · show Right (s'.stream j) (x.book.next x.net (.request r) s' j)
    by_cases hj : j = k
    · rw [hj, hself, hbook]
      exact Nat.ModEq.refl _
    · rw [(hother j hj).1, (hother j hj).2]
      exact h.right j
  · show Ready (s'.stream j).state (x.book.next x.net (.request r) s' j)
    by_cases hj : j = k
    · rw [hj, hself, hbook]
      show Ready .synSent .empty
      exact ⟨by decide, fun _ => rfl, fun _ => rfl⟩
    · rw [(hother j hj).1, (hother j hj).2]
      exact h.ready j

/-- A request that is not one to send. -/
theorem Inv.otherRequest (h : Inv x) (hstep : Tcpip.step x.net (.request r) = .ok s')
    (hasks : ¬x.net.Asks r 7 9 2) : Inv ⟨s', x.book.next x.net (.request r) s'⟩ := by
  have hreq : ∀ {frame kept t}, Requested (x.net.receiveRequest r frame) r frame kept t →
      t.stream = s'.stream → t.allstreams = s'.allstreams →
        Inv ⟨s', x.book.next x.net (.request r) s'⟩ := by
    intro frame kept t hr hstream hall
    have hkeys : ¬(x.net.receiveRequest r frame).Asks r 7 9 2 := fun ⟨h1, h2, h3, h4, h5⟩ =>
      hasks ⟨h1, h2, h3, h4, h5⟩
    rcases hr.quiets hkeys with hq | ⟨k, l, addr, port, hpush, hl, hst⟩
    · have hq' : Quiets x.net s' :=
        ⟨⟨fun k hk => hq.noNew.old k (hall ▸ hk), fun hw => hall ▸ hq.noNew.wf hw⟩,
          fun j => hstream ▸ hq.stream j⟩
      exact h.quietRequest hq' fun _ _ ha => absurd ha hasks
    · exact h.connects hpush (hall ▸ hl) (hstream ▸ hst) hasks
  cases step_cases hstep with
  | idle => exact h.quietRequest (quiets_of_eq rfl rfl) fun _ _ ha => absurd ha hasks
  | requested _ _ hr => exact hreq hr rfl rfl
  | kept _ _ hr => exact hreq hr rfl rfl

/-- A refused request to send has left the numbers as they were. -/
def Kept (x : State) (e : Event) (s' : Net) : Prop :=
  ∀ r, e = .request r → x.net.Takes r → x.net.Asks r 7 9 2 → s'.refused r.cli = true →
    ∀ k, (s'.stream k).seqTx ≡ (x.net.stream k).seqTx [MOD 2 ^ 32]

theorem kept_of_eq (h : s'.stream = x.net.stream) : Kept x e s' := fun _ _ _ _ _ _ => h ▸ Nat.ModEq.refl _

/-- A request stalls when it sends payload on a socket that waits for an address. -/
theorem stalls_iff {s : Net} (htakes : s.Takes r) (hasks : s.Asks r 7 9 2) : Stalls s r ↔
    r.data ≠ [] ∧ ∃ i k, Sends s r i k ∧ (s.arpFind (s.stream k).remAddr).1 = macNil ∧
      (s.tcp i).waitArp = true := by
  constructor
  · rintro ⟨-, -, hudp, hdata, i, hi, howner, hcli, hnet, hw, k, hk, hst, hif, hnil⟩
    exact ⟨hdata, i, k, ⟨hudp, hi, howner, hcli, hnet, hk, hst, hif⟩, hnil, hw⟩
  · rintro ⟨hdata, i, k, hs, hnil, hw⟩
    exact ⟨htakes, hasks, hs.notUdp, hdata, i, hs.found, hs.owner, hs.cli, hs.net, hw, k, hs.stream, hs.state,
      hs.iface, hnil⟩

/-- What was sent, in terms of the state before the request was received. -/
theorem step_send {s : Net} (hstep : Tcpip.step s (.request r) = .ok s') (htakes : s.Takes r)
    (hasks : s.Asks r 7 9 2) :
    Unsent s r s' ∧ (∀ i k, ¬Sends s r i k) ∨ ∃ i k, Sends s r i k ∧ s'.allstreams = s.allstreams ∧
      (s'.stream = fun j => if j = k then
        { s.stream k with seqTx := seqAdd (s.stream k).seqTx r.data.length } else s.stream j) ∧
      s'.refused r.cli = (decide ((s.arpFind (s.stream k).remAddr).1 = macNil) && (s.tcp i).waitArp) := by
  obtain ⟨frame, kept, t, hreq, hstream, hall, hout⟩ := step_request htakes hstep
  have hrefused : s'.refused r.cli = t.refused r.cli := by
    unfold Net.refused
    rw [hout]
  have hsend : (s.receiveRequest r frame).processCliSendto r frame = .ok (kept, t) := by
    have hkeys : ¬(r.mr 1 ≠ (s.receiveRequest r frame).key0 ∨ r.mr 2 ≠ (s.receiveRequest r frame).key1) :=
      not_or.mpr ⟨not_not.mpr hasks.key0, not_not.mpr hasks.key1⟩
    unfold clientRequest processClientRequest at hreq
    rw [if_neg (by rw [hasks.untyped]; decide), if_neg hkeys, hasks.op] at hreq
    exact hreq
  rw [hstream, hall, hrefused]
  rcases processCliSendto_sent ⟨hasks.untyped, hasks.typed⟩ hsend with
    ⟨⟨hall', hstream', htold⟩, hno⟩ | ⟨i, k, hs, hsent⟩
  · refine .inl ⟨⟨hall.trans hall', hstream.trans hstream', fun hudp => hrefused.trans (htold hudp)⟩, ?_⟩
    exact fun i k hs => hno i k ⟨hs.notUdp, hs.found, hs.owner, hs.cli, hs.net, hs.stream, hs.state, hs.iface⟩
  · have harp : ((s.receiveRequest r frame).arpFind (s.stream k).remAddr).1 =
        (s.arpFind (s.stream k).remAddr).1 :=
      arpFind_congr (s := s) (t := s.receiveRequest r frame) rfl rfl _
    obtain ⟨hall', hstream', href⟩ := hsent
    refine .inr ⟨i, k, ⟨hs.notUdp, hs.found, hs.owner, hs.cli, hs.net, hs.stream, hs.state, hs.iface⟩, hall',
      hstream', ?_⟩
    rw [← harp]
    exact href

theorem modEq_add_iff {m n : Nat} (hn : n < 2 ^ 32) : m + n ≡ m [MOD 2 ^ 32] ↔ n = 0 := by
  constructor
  · intro h
    exact (Nat.ModEq.add_left_cancel' m (h : m + n ≡ m + 0 [MOD 2 ^ 32])).eq_of_lt_of_lt hn (by decide)
  · rintro rfl
    exact Nat.ModEq.refl _

/-- A request to send. -/
theorem Inv.sendRequest (h : Inv x) (hstep : Tcpip.step x.net (.request r) = .ok s') (htakes : x.net.Takes r)
    (hasks : x.net.Asks r 7 9 2) :
    (¬Stalls x.net r → Inv ⟨s', x.book.next x.net (.request r) s'⟩ ∧ Kept x (.request r) s') ∧
      (Kept x (.request r) s' → ¬Stalls x.net r) := by
  have hlen : r.data.length < 2 ^ 32 := by
    have hroom := htakes.2.2.2
    unfold hdrsSpace frameSz at hroom
    omega
  rcases step_send hstep htakes hasks with ⟨⟨hall, hstream, htold⟩, hno⟩ | ⟨i, k, hs, hall, hstream, href⟩
  · have hquiet : Quiets x.net s' := quiets_of_eq hall hstream
    refine ⟨fun _ => ⟨h.quietRequest hquiet fun k _ _ hk => htold ?_, kept_of_eq hstream⟩,
      fun _ hstalls => ?_⟩
    · cases hudp : x.net.findUdp r.sock with
      | none => rfl
      | some i =>
        unfold Net.sendStream at hk
        rw [hudp] at hk
        cases hk
    · obtain ⟨-, i, k, hs, -⟩ := (stalls_iff htakes hasks).mp hstalls
      exact hno i k hs
  have hself : s'.stream k =
      { x.net.stream k with seqTx := seqAdd (x.net.stream k).seqTx r.data.length } := by
    rw [hstream]
    exact if_pos rfl
  have hother : ∀ j, j ≠ k → s'.stream j = x.net.stream j := fun j hj => by
    rw [hstream]
    exact if_neg hj
  have hkept : Kept x (.request r) s' ↔ (s'.refused r.cli = true → r.data.length = 0) := by
    constructor
    · intro hk hr
      have hseq := hk r rfl htakes hasks hr k
      rw [hself] at hseq
      exact (modEq_add_iff hlen).mp ((seqAdd_modEq _ _).symm.trans hseq)
    · rintro hk r' hr' - - hr j
      obtain rfl := Event.request.inj hr'
      by_cases hj : j = k
      · rw [hj, hself]
        exact (seqAdd_modEq _ _).trans ((modEq_add_iff hlen).mpr (hk hr))
      · rw [hother j hj]
  have hstalls : Stalls x.net r ↔ r.data ≠ [] ∧ s'.refused r.cli = true := by
    rw [stalls_iff htakes hasks, href, Bool.and_eq_true, decide_eq_true_iff]
    constructor
    · rintro ⟨hdata, j, l, hs', hrest⟩
      obtain ⟨rfl, rfl⟩ := hs.unique hs'
      exact ⟨hdata, hrest⟩
    · exact fun ⟨hdata, hrest⟩ => ⟨hdata, i, k, hs, hrest⟩
  rw [hkept, hstalls]
  refine ⟨fun hno => ⟨?_, ?_⟩, ?_⟩
  · have hnew : NoNew x.net s' := noNew_of_eq hall
    have hbook : x.book.next x.net (.request r) s' k = if s'.refused r.cli = false then
        { x.book k with bytes := (x.book k).bytes + r.data.length } else x.book k := by
      rw [next_request (not_opens hnew k)]
      unfold Book.request
      by_cases hr : s'.refused r.cli = false
      · rw [if_pos hr]
        exact if_pos ⟨htakes, hasks, hs.sendStream, hr⟩
      · rw [if_neg hr]
        exact if_neg fun hc => hr hc.2.2.2
    have hbookOther : ∀ j, j ≠ k → x.book.next x.net (.request r) s' j = x.book j := fun j hj => by
      rw [next_request (not_opens hnew j)]
      exact request_of_not fun _ _ hsend => absurd (Option.some.inj (hsend.symm.trans hs.sendStream)) hj
    refine ⟨hnew.wf h.wf, fun j => ?_, fun j => ?_⟩
    · show Right (s'.stream j) (x.book.next x.net (.request r) s' j)
      by_cases hj : j = k
      · rw [hj, hself, hbook]
        unfold Right
        cases hr : s'.refused r.cli with
        | false =>
          have htotal : Account.total { x.book k with bytes := (x.book k).bytes + r.data.length } =
              (x.book k).total + r.data.length := (Nat.add_assoc _ _ _).symm
          rw [if_pos rfl, htotal, ← Nat.add_assoc]
          exact (seqAdd_modEq _ _).trans ((h.right k).add_right _)
        | true =>
          have hnil : r.data = [] := by
            by_contra hdata
            exact hno ⟨hdata, hr⟩
          rw [hnil]
          exact (seqAdd_modEq _ _).trans (h.right k)
      · rw [hother j hj, hbookOther j hj]
        exact h.right j
    · show Ready (s'.stream j).state (x.book.next x.net (.request r) s' j)
      by_cases hj : j = k
      · rw [hj, hself, hbook]
        obtain ⟨hactive, hsyn, hfin⟩ := h.ready k
        split
        · exact ⟨hactive, hsyn, hfin⟩
        · exact ⟨hactive, hsyn, hfin⟩
      · rw [hother j hj, hbookOther j hj]
        exact h.ready j
  · intro hr
    by_contra hdata
    exact hno ⟨fun hnil => hdata (by rw [hnil]; rfl), hr⟩
  · rintro hk ⟨hdata, hr⟩
    exact hdata (List.eq_nil_of_length_eq_zero (hk hr))

/-! ### Rounds -/

/-- A round with a frame. -/
theorem step_frame {s : Net} (hstep : Tcpip.step s (.frame bytes) = .ok s') : s.ethBuf = none ∧ s' = s ∨
    ∃ eth p arp, s.ethBuf = some eth ∧
      (parseEthFrame (s.mem.load eth bytes) eth bytes.length).result = .ok p ∧
      Packed (s.received eth bytes arp) eth p.packet s' := by
  dsimp only [Tcpip.step] at hstep
  split at hstep
  · rename_i hnone
    exact .inl ⟨hnone, (Except.ok.inj hstep).symm⟩
  rename_i eth heth
  split at hstep
  · cases hstep
  obtain ⟨p, hp, hstep⟩ := bind_eq_ok.mp hstep
  obtain ⟨arp, harp⟩ := learn_eq ((s.setMem eth (s.mem.load eth bytes)).touch eth) p
  rw [harp] at hstep
  exact .inr ⟨eth, p, arp, heth, hp, processPacket_cases hstep⟩

/-- A frame with no segment for a socket. -/
theorem Inv.quietFrame (h : Inv x) (hall : s'.allstreams = x.net.allstreams)
    (hstream : s'.stream = x.net.stream)
    (hno : ∀ p ∈ x.net.frameSegment bytes, x.net.segSocket p.1 = none) :
    (Fits x (.frame bytes) → Inv ⟨s', x.book.next x.net (.frame bytes) s'⟩) ∧
      ((∀ j, Right (s'.stream j) (x.book.next x.net (.frame bytes) s' j)) → Fits x (.frame bytes)) := by
  have hquiet : Quiets x.net s' := quiets_of_eq hall hstream
  refine ⟨fun _ => h.quiet hquiet fun j => ?_, fun _ p hp i hi => ?_⟩
  · rw [next_frame (not_opens hquiet.noNew j)]
    refine segment_of_ne fun p hp => ?_
    rw [hno p hp]
    nofun
  · rw [hno p hp] at hi
    cases hi

theorem Inv.frame (h : Inv x) (hstep : Tcpip.step x.net (.frame bytes) = .ok s') :
    (Fits x (.frame bytes) → Inv ⟨s', x.book.next x.net (.frame bytes) s'⟩) ∧
      ((∀ j, Right (s'.stream j) (x.book.next x.net (.frame bytes) s' j)) → Fits x (.frame bytes)) := by
  rcases step_frame hstep with ⟨hnone, rfl⟩ | ⟨eth, p, arp, heth, hp, hpacked⟩
  · refine h.quietFrame rfl rfl fun p hp => ?_
    unfold Net.frameSegment at hp
    rw [hnone] at hp
    cases hp
  have hu : SameSockets x.net (x.net.received eth bytes arp) := ⟨rfl, rfl, rfl, rfl⟩
  by_cases htcp : ∃ seg, p.packet = .tcp seg
  · obtain ⟨seg, hseg⟩ := htcp
    have hframe : ∃ ack, x.net.frameSegment bytes = some (seg, ack) := by
      obtain ⟨frame, packet⟩ := p
      subst hseg
      unfold Net.frameSegment
      rw [heth]
      dsimp only
      rw [hp]
      exact ⟨_, rfl⟩
    obtain ⟨ack, hframe⟩ := hframe
    rw [hseg] at hpacked
    rcases hpacked.segment with ⟨hno, hstream, hall⟩ | ⟨i, hi, hs⟩
    · refine h.quietFrame hall hstream fun q hq => ?_
      obtain rfl := Option.some.inj (hframe.symm.trans hq)
      exact hu.segSocket ▸ hno
    · have hi' : x.net.segSocket seg = some i := hu.segSocket ▸ hi
      obtain ⟨hfits, hright⟩ := h.segmented hu hframe hi' hs
      refine ⟨fun hf => hfits (hf _ hframe i hi'), fun hr q hq j hj => ?_⟩
      obtain rfl := Option.some.inj (hframe.symm.trans hq)
      obtain rfl := Option.some.inj (hi'.symm.trans hj)
      exact hright hr
  · obtain ⟨hstream, hall⟩ := hpacked.streams fun seg hseg => htcp ⟨seg, hseg⟩
    refine h.quietFrame hall hstream fun q hq => ?_
    unfold Net.frameSegment at hq
    rw [heth] at hq
    dsimp only at hq
    rw [hp] at hq
    obtain ⟨frame, packet⟩ := p
    cases packet with
    | tcp seg => exact absurd ⟨seg, rfl⟩ htcp
    | _ => cases hq

/-- A round that is neither a frame nor a request. -/
theorem Inv.other (h : Inv x) (hq : Quiets x.net s') (hbook : ∀ k, ¬x.net.Opens s' k →
    x.book.next x.net e s' k = x.book k) : Inv ⟨s', x.book.next x.net e s'⟩ :=
  h.quiet hq fun k => hbook k (not_opens hq.noNew k)

/-- **One round**: it is sound when it fits, and leaves the invariant. -/
theorem Inv.step_iff (h : Inv x) (hstep : step x e = .ok x') :
    (Sound x e ↔ Fits x e) ∧ (Fits x e → Inv x') := by
  obtain ⟨s', hnet, rfl⟩ : ∃ s', Tcpip.step x.net e = .ok s' ∧
      (⟨s', x.book.next x.net e s'⟩ : State) = x' := map_eq_ok hstep
  have hsound : Sound x e ↔
      (∀ k, Right (s'.stream k) (x.book.next x.net e s' k)) ∧ Kept x e s' := by
    constructor
    · exact fun hs => hs _ hstep
    · intro hs x'' hx''
      obtain rfl := Except.ok.inj (hstep.symm.trans hx'')
      exact hs
  have hof : Fits x e → Inv ⟨s', x.book.next x.net e s'⟩ → Kept x e s' →
      (Sound x e ↔ Fits x e) ∧ (Fits x e → Inv ⟨s', x.book.next x.net e s'⟩) := fun hfits hinv hkept =>
    ⟨hsound.trans ⟨fun _ => hfits, fun _ => ⟨hinv.right, hkept⟩⟩, fun _ => hinv⟩
  rw [hsound] at hof ⊢
  cases e with
  | ethGet =>
    refine hof trivial (h.other ?_ fun k hk => if_neg hk) nofun
    cases step_cases hnet with
    | idle => exact quiets_of_eq rfl rfl
    | ethGot => exact quiets_of_eq rfl rfl
  | frame bytes =>
    obtain ⟨hinv, hright⟩ := h.frame hnet
    exact ⟨⟨fun hs => hright hs.1, fun hf => ⟨(hinv hf).right, nofun⟩⟩, hinv⟩
  | clientGet =>
    refine hof trivial (h.other ?_ fun k hk => if_neg hk) nofun
    cases step_cases hnet with
    | idle => exact quiets_of_eq rfl rfl
    | cliGot => exact quiets_of_eq rfl rfl
  | request r =>
    by_cases hasks : x.net.Asks r 7 9 2
    · by_cases htakes : x.net.Takes r
      · obtain ⟨hinv, hstalls⟩ := h.sendRequest hnet htakes hasks
        exact ⟨⟨fun hs => hstalls hs.2, fun hf => ⟨(hinv hf).1.right, (hinv hf).2⟩⟩, fun hf => (hinv hf).1⟩
      · have hidle : s' = x.net := by
          cases step_cases hnet with
          | idle => rfl
          | requested _ ht => exact absurd ht htakes
          | kept _ ht => exact absurd ht htakes
        subst hidle
        exact hof (fun hs => htakes hs.1)
          (h.quietRequest (quiets_of_eq rfl rfl) fun _ ht => absurd ht htakes) (kept_of_eq rfl)
    · refine hof (fun hs => hasks hs.2.1) (h.otherRequest hnet hasks) fun r' hr' _ ha => ?_
      obtain rfl := Event.request.inj hr'
      exact absurd ha hasks
  | wait usec =>
    refine hof trivial (h.other ?_ fun k hk => if_neg hk) nofun
    cases step_cases hnet with
    | idle => exact quiets_of_eq rfl rfl
    | waited => exact quiets_of_eq rfl rfl

theorem Inv.run_iff {es : List Event} (h : Inv x) (hrun : runAll step x es = .ok x') :
    Meets step Sound x es ↔ Meets step Fits x es := by
  induction es generalizing x with
  | nil => exact Iff.rfl
  | cons e es ih =>
    obtain ⟨y, hy, hrun⟩ := bind_eq_ok.mp hrun
    obtain ⟨hiff, hinv⟩ := h.step_iff hy
    have hrest : Fits x e → (Meets step Sound y es ↔ Meets step Fits y es) := fun hf => ih (hinv hf) hrun
    constructor
    · rintro ⟨hs, hall⟩
      refine ⟨hiff.mp hs, fun y' hy' => ?_⟩
      obtain rfl := Except.ok.inj (hy.symm.trans hy')
      exact (hrest (hiff.mp hs)).mp (hall y hy)
    · rintro ⟨hf, hall⟩
      refine ⟨hiff.mpr hf, fun y' hy' => ?_⟩
      obtain rfl := Except.ok.inj (hy.symm.trans hy')
      exact (hrest hf).mpr (hall y hy)

/-- **What the sequence numbers count**: in a run, every stream is right after each round, and a request to
send that is refused changes no number, exactly when every round fits. -/
theorem right_iff_fits {key0 key1 : Nat} {es : List Event}
    (hrun : runAll step (.start key0 key1) es = .ok x') :
    Meets step Sound (.start key0 key1) es ↔ Meets step Fits (.start key0 key1) es :=
  (inv_start key0 key1).run_iff hrun

/-! ### Two runs -/

/-- A segment of the host from the port 80 to the port 2000, the first one that the server chooses. -/
def hostSegment (seq ack flags : Nat) : Event :=
  let m := buildEth (fun _ => 0) 0 hostMac ethAddr etypeIp
  let m := buildIp m 14 40 protoTcp hostAddr 0xc0a80064
  let m := (((m.put16 34 80).put16 36 2000).put32 38 seq).put32 42 ack
  let m := (((m.put8 46 0x50).put8 47 flags).put16 48 100).put16 50 0
  let m := m.put16 50 (inetChecksum m 34 20 (pseudoSum hostAddr 0xc0a80064 protoTcp 20))
  .frame (m.slice 0 54)

def sendRequest (cli sock : Nat) (data : List UInt8) : Event := .request (.from cli 7 9 2 [sock] data)

def closeRequest (cli sock : Nat) : Event := .request (.from cli 2 4 0 [sock] [])

/-- A connection to a host whose address is known: three bytes are sent, and it is closed. -/
def sendRun : List Event :=
  [.clientGet, .ethGet, segmentFrame 5000 7 flagAck [], tcpSocketRequest alice,
    connectRequest alice 1 hostAddr 80, hostSegment 500 1 (flagSyn + flagAck), sendRequest alice 1 [1, 2, 3],
    closeRequest alice 1, hostSegment 501 5 (flagFin + flagAck)]

theorem sendRun_right : ∃ x, runAll step (.start 0 0) sendRun = .ok x ∧ (x.net.stream 0).seqTx = 5 ∧
    Meets step Sound (.start 0 0) sendRun := by
  have hok : okAnd (runAll step (.start 0 0) sendRun) (fun x => (x.net.stream 0).seqTx == 5) = true := by
    decide +kernel
  obtain ⟨x, hrun, hseq⟩ := okAnd_iff.mp hok
  have hfits : Meets step Fits (.start 0 0) sendRun := by decide +kernel
  exact ⟨x, hrun, beq_iff_eq.mp hseq, (right_iff_fits hrun).mpr hfits⟩

/-- The host answers before its address is asked for; the record of the cache expires, and the socket still
waits for the address. -/
def stallRun : List Event :=
  [.clientGet, .ethGet, tcpSocketRequest alice, connectRequest alice 1 hostAddr 80,
    hostSegment 500 1 (flagSyn + flagAck), .wait 31000000, sendRequest alice 1 [1, 2, 3]]

/-- The last request is refused, and three bytes are counted. -/
theorem stallRun_wrong : ∃ x, runAll step (.start 0 0) stallRun = .ok x ∧
    (x.net.refused alice = true ∧ (x.net.stream 0).seqTx = 4) ∧ ¬Meets step Sound (.start 0 0) stallRun := by
  have hok : okAnd (runAll step (.start 0 0) stallRun)
      (fun x => x.net.refused alice && (x.net.stream 0).seqTx == 4) = true := by
    decide +kernel
  obtain ⟨x, hrun, hlast⟩ := okAnd_iff.mp hok
  obtain ⟨href, hseq⟩ := Bool.and_eq_true_iff.mp hlast
  refine ⟨x, hrun, ⟨href, beq_iff_eq.mp hseq⟩, fun hsound => ?_⟩
  have hfits : ¬Meets step Fits (.start 0 0) stallRun := by decide +kernel
  exact hfits (((inv_start 0 0).run_iff hrun).mp hsound)

end Tx

end Tcpip
end Wrmos
