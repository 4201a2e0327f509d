import Wrmos.TcpipStreams

/-!
# The TCP/IP server: which stream a segment changes

A segment is for the stream whose remote end is the one the segment comes from.  The search for a
connection compares both ends.  Where it finds none, a second search takes the first socket that is
bound to the local end; it is meant to find a listening socket, which then looks for the remote end
among its own streams, but it does not ask whether the socket listens.  A connection that it finds
takes the segment as its own, whoever sent it (`Hijacks`).

`Affects` says when a segment that is given to a connection changes its stream at all: a sequence
number that is not expected does not, nor does an acknowledgement without payload.
-/

namespace Wrmos
namespace Tcpip

open Lib

namespace Net

variable {s s' t : Net} {i j k : Nat} {seg : Seg}

/-- At most the stream `k` has changed, and its remote end has not. -/
structure Touches (s s' : Net) (k : Nat) : Prop where
  others : ∀ j, j ≠ k → s'.stream j = s.stream j
  addr : (s'.stream k).remAddr = (s.stream k).remAddr
  port : (s'.stream k).remPort = (s.stream k).remPort

theorem touches_of_eq (h : s'.stream = s.stream) : Touches s s' k :=
  ⟨fun _ _ => by rw [h], by rw [h], by rw [h]⟩

theorem Touches.trans {s'' : Net} (h : Touches s s' k) (h' : Touches s' s'' k) : Touches s s'' k :=
  ⟨fun j hj => (h'.others j hj).trans (h.others j hj), h'.addr.trans h.addr, h'.port.trans h.port⟩

theorem touches_setStream {f : Stream → Stream} (ha : (f (s.stream k)).remAddr = (s.stream k).remAddr)
    (hp : (f (s.stream k)).remPort = (s.stream k).remPort) : Touches s (s.setStream k f) k := by
  refine ⟨fun j hj => setStream_of_ne f hj, ?_, ?_⟩
  · rw [setStream_self]
    exact ha
  · rw [setStream_self]
    exact hp

/-! ## Parts that write no stream -/

theorem Sent.stream (h : Sent s i k t) : t.stream = s.stream := by
  cases h <;> rfl

theorem answered_stream {ecode : Nat} {words : List Nat} {bf : Option Buf} :
    (s.answered i ecode words bf).stream = s.stream := rfl

theorem accepted_stream (iaddr : Nat) : (s.accepted i k j iaddr).stream = s.stream := by
  unfold accepted
  dsimp only
  generalize hu : ({ s with
      cnt := j
      tcpIds := s.tcpIds ++ [j]
      tcp := fun l => if l = j then _ else s.tcp l } : Net) = u
  obtain ⟨q, hrem, -⟩ := remFromQueue_eq u i k
  rw [hrem, ← hu]
  rfl

theorem Accepted.stream (h : Accepted s i k t) : t.stream = s.stream := by
  cases h with
  | full => rfl
  | @done iaddr => exact accepted_stream iaddr

/-! ## Parts that write one -/

theorem rxSeq_end (seg : Seg) (st : Stream) :
    (rxSeq seg st).remAddr = st.remAddr ∧ (rxSeq seg st).remPort = st.remPort ∧
      (rxSeq seg st).state = st.state ∧ (rxSeq seg st).buf = st.buf := by
  unfold rxSeq
  split <;> exact ⟨rfl, rfl, rfl, rfl⟩

theorem touches_rxSeq : Touches s (s.setStream k (rxSeq seg)) k :=
  touches_setStream (rxSeq_end seg _).1 (rxSeq_end seg _).2.1

theorem processRst_touches (h : s.processRst i k = .ok t) : Touches s t k := by
  obtain ⟨u, hsent, -, -, rfl⟩ := processRst_cases h
  exact (touches_setStream (by rfl) (by rfl)).trans <| (touches_of_eq hsent.stream).trans <|
    (touches_setStream (by rfl) (by rfl)).trans (touches_of_eq answered_stream)

theorem touches_delivered {cli : Nat} : Touches s (s.delivered k cli) k :=
  ⟨fun _ hj => if_neg hj, by rw [delivered_self], by rw [delivered_self]⟩

theorem touches_tcpIdle : Touches s (s.tcpIdle i) k := touches_of_eq rfl

theorem touches_replied {cli ecode : Nat} {words : List Nat} {bf : Option Buf} :
    Touches s (s.replied cli ecode words bf) k := touches_of_eq rfl

theorem Pushed.touches (h : Pushed s i seg k t) : Touches s t k := by
  cases h with
  | kept => exact touches_of_eq rfl
  | delivered => exact touches_delivered.trans touches_tcpIdle

theorem Finished.touches (h : Finished s i seg k t) : Touches s t k := by
  cases h with
  | no => exact touches_of_eq rfl
  | quiet _ hsent =>
    exact (touches_setStream (by rfl) (by rfl)).trans <| (touches_of_eq hsent.stream).trans <|
      touches_setStream (by rfl) (by rfl)
  | told _ hsent =>
    exact (touches_setStream (by rfl) (by rfl)).trans <| (touches_of_eq hsent.stream).trans <|
      (touches_setStream (by rfl) (by rfl)).trans <| touches_replied.trans <|
      (touches_setStream (by rfl) (by rfl)).trans touches_tcpIdle

theorem FinWaited.touches (h : FinWaited s i seg k t) : Touches s t k := by
  cases h with
  | no => exact touches_of_eq rfl
  | @closed u l _ _ hsent =>
    refine (touches_setStream (by rfl) (by rfl)).trans ((touches_of_eq hsent.stream).trans ?_)
    exact touches_of_eq rfl

theorem Switched.touches (h : Switched s i seg k t) : Touches s t k := by
  cases h with
  | listen => exact touches_of_eq rfl
  | closed => exact touches_of_eq rfl
  | opened _ _ hsent =>
    exact (touches_of_eq hsent.stream).trans (touches_setStream (by rfl) (by rfl))
  | connected _ _ hsent =>
    exact (touches_setStream (by rfl) (by rfl)).trans <| (touches_of_eq hsent.stream).trans <|
      touches_of_eq answered_stream
  | accepted _ _ _ _ _ _ _ hacc =>
    have hq : Touches s (s.queued i k) k :=
      (touches_setStream (f := fun st => { st with state := .established }) rfl rfl).trans
        (touches_of_eq rfl)
    exact hq.trans (touches_of_eq hacc.stream)
  | received _ _ hpush hfin =>
    exact (touches_setStream (by rfl) (by rfl)).trans (hpush.touches.trans hfin.touches)
  | finWait1 _ hw => exact hw.touches
  | lastAck => exact touches_setStream (by rfl) (by rfl)

theorem Processed.touches (h : Processed s i seg k t) : Touches s t k := by
  cases h with
  | wrongSeq => exact touches_of_eq rfl
  | plain _ _ hsw => exact touches_rxSeq.trans hsw.touches
  | reset _ _ ht hsw => exact touches_rxSeq.trans ((processRst_touches ht).trans hsw.touches)

/-! ## The search for the stream -/

/-- The remote end of a stream is where the segment comes from. -/
def FromEnd (st : Stream) (seg : Seg) : Prop := st.remAddr = seg.src ∧ st.remPort = seg.sport

/-- The stream that a listening socket finds or adds has the right remote end, and no other stream
has changed. -/
theorem Selected.fromEnd (h : Selected s i seg (some k) t) (hlisten : (s.tcp i).netState = .listen) :
    FromEnd (t.stream k) seg ∧ ∀ j, j ≠ k → t.stream j = s.stream j := by
  cases h with
  | connecting _ _ hfind =>
    have hk := List.find?_some hfind
    rw [Bool.and_eq_true, beq_iff_eq, beq_iff_eq] at hk
    exact ⟨hk, fun _ _ => rfl⟩
  | added =>
    refine ⟨?_, fun j hj => if_neg hj⟩
    unfold FromEnd withStream
    exact ⟨congrArg Stream.remAddr (if_pos rfl), congrArg Stream.remPort (if_pos rfl)⟩
  | connection hnet => rw [hlisten] at hnet; cases hnet

/-- The streams that change have the remote end of the segment. -/
def OnlyFrom (s s' : Net) (seg : Seg) : Prop := ∀ k, s'.stream k ≠ s.stream k → FromEnd (s'.stream k) seg

theorem onlyFrom_of_eq (h : s'.stream = s.stream) : OnlyFrom s s' seg :=
  fun k hk => absurd (congrFun h k) hk

theorem Touches.onlyFrom (h : Touches s s' k) (hk : FromEnd (s.stream k) seg) : OnlyFrom s s' seg := by
  intro j hj
  by_cases hjk : j = k
  · subst hjk
    exact ⟨h.addr.trans hk.1, h.port.trans hk.2⟩
  · exact absurd (h.others j hjk) hj

/-- A segment for a listening socket. -/
theorem Segmented.onlyFrom_listener (h : Segmented s i seg s') (hnet : (s.tcp i).netState = .listen) :
    OnlyFrom s s' seg := by
  cases h with
  | none => exact onlyFrom_of_eq rfl
  | @some k t _ hsel hp =>
    obtain ⟨hend, hothers⟩ := hsel.fromEnd hnet
    intro j hj
    by_cases hjk : j = k
    · subst hjk
      exact ⟨hp.touches.addr.trans hend.1, hp.touches.port.trans hend.2⟩
    · exact absurd ((hp.touches.others j hjk).trans (hothers j hjk)) hj

/-- A segment for a connection is processed on its stream. -/
theorem Segmented.of_connection (h : Segmented s i seg s') (hnet : (s.tcp i).netState = .connection) :
    ∃ k, (s.tcp i).stream = Option.some k ∧ Processed s i seg k s' := by
  cases h with
  | none hsel =>
    cases hsel with
    | unknown hl => rw [hnet] at hl; cases hl
  | @some k t _ hsel hp =>
    cases hsel with
    | connecting hl => rw [hnet] at hl; cases hl
    | added hl => rw [hnet] at hl; cases hl
    | connection _ hk => exact ⟨k, hk, hp⟩

theorem Segmented.netState (h : Segmented s i seg s') :
    (s.tcp i).netState = .listen ∨ (s.tcp i).netState = .connection := by
  cases h with
  | none hsel =>
    cases hsel with
    | unknown hl => exact .inl hl
  | some hsel =>
    cases hsel with
    | connecting hl => exact .inl hl
    | added hl => exact .inl hl
    | connection hc => exact .inr hc

/-- A segment for the connection that the search by both ends found. -/
theorem Segmented.onlyFrom_connected (h : Segmented s i seg s')
    (hfind : s.findConnectedSocket seg.dst seg.dport seg.src seg.sport = Option.some i) :
    OnlyFrom s s' seg := by
  rcases h.netState with hnet | hnet
  · exact h.onlyFrom_listener hnet
  · obtain ⟨k, hk, hp⟩ := h.of_connection hnet
    have hb := List.find?_some hfind
    rw [hk] at hb
    simp only [Bool.and_eq_true, beq_iff_eq] at hb
    exact hp.touches.onlyFrom hb.2

/-- A connection that only the second search finds has another remote end. -/
theorem not_fromEnd_of_fallback (hconn : s.findConnectedSocket seg.dst seg.dport seg.src seg.sport = none)
    (hfind : s.findListeningSocket seg.dst seg.dport = some i) (hk : (s.tcp i).stream = some k) :
    ¬ FromEnd (s.stream k) seg := by
  intro hend
  have hb := List.find?_some hfind
  have hno := List.find?_eq_none.mp hconn i (List.mem_of_find?_eq_some hfind)
  rw [hk] at hno
  exact hno (by simp only [Bool.and_eq_true, beq_iff_eq]; exact ⟨hb, hend⟩)

/-! ## What changes a stream -/

/-- The segment changes the stream `k` of the connection `i`. -/
def Affects (s : Net) (i k : Nat) (seg : Seg) : Prop :=
  wrongSeq seg (s.stream k) = false ∧
    (rxSeq seg (s.stream k) ≠ s.stream k ∨ seg.has flagRst = true ∨
      match (s.stream k).state with
      | .closed => seg.has flagSyn = true
      | .listen => False
      | .established => seg.has flagFin = true ∨ (seg.has flagPsh = true ∧
          (s.tcp i).cliState = .recv ∧ (s.stream k).buf ≠ [] ∧ s.room (s.tcp i).client ≠ 0)
      | .finWait1 => seg.has flagFin = true ∧ seg.has flagAck = true
      | _ => True)

theorem seqAdd_ne {a n : Nat} (h0 : 0 < n) (hn : n < 2 ^ 32) : seqAdd a n ≠ a := by
  unfold seqAdd
  omega

/-- Without a change of the counters an expected segment of an established connection carries
nothing. -/
theorem payload_eq_nil {st : Stream} (hseq : wrongSeq seg st = false) (hst : st.state = .established)
    (hlen : seg.payload.length ≤ streamBufSz) (h : rxSeq seg st = st) : seg.payload = [] := by
  unfold rxSeq at h
  split at h
  · have hrx : seqAdd seg.seq 1 = st.seqRx := congrArg Stream.seqRx h
    have heq : seg.seq = st.seqRx := by
      unfold wrongSeq at hseq
      rw [hst] at hseq
      simpa using hseq
    rw [← heq] at hrx
    exact absurd hrx (seqAdd_ne (by decide) (by decide))
  · have hrx : seqAdd st.seqRx seg.payload.length = st.seqRx := congrArg Stream.seqRx h
    by_contra hne
    have hpos := List.length_pos_iff.mpr hne
    exact seqAdd_ne hpos (hlen.trans_lt (by decide)) hrx

theorem setStream_eq_self {f : Stream → Stream} (h : f (s.stream k) = s.stream k) :
    s.setStream k f = s := by
  have hfun : (fun j => if j = k then f (s.stream j) else s.stream j) = s.stream := by
    funext j
    by_cases hj : j = k
    · rw [if_pos hj, hj, h]
    · rw [if_neg hj]
  unfold setStream
  rw [hfun]

theorem stream_eq_of_self (h : Touches s s' k) (hk : s'.stream k = s.stream k) : s'.stream = s.stream := by
  funext j
  by_cases hj : j = k
  · rw [hj, hk]
  · exact h.others j hj

/-- What `Psh` does to the stream. -/
theorem Pushed.stream_self (h : Pushed s i seg k t) :
    ¬ (seg.has flagPsh = true ∧ (s.tcp i).cliState = .recv) ∧ t.stream k = s.stream k ∨
    (seg.has flagPsh = true ∧ (s.tcp i).cliState = .recv) ∧ t.stream k = { s.stream k with
      buf := (s.stream k).buf.drop (min (s.room (s.tcp i).client) (s.stream k).buf.length) } := by
  cases h with
  | kept hno => exact .inl ⟨hno, rfl⟩
  | delivered hpsh hcli =>
    refine .inr ⟨⟨hpsh, hcli⟩, ?_⟩
    change (s.delivered k (s.tcp i).client).stream k = _
    rw [delivered_self, List.length_take]

/-- The counters of the received sequence numbers are all that a segment's numbers change. -/
theorem rxSeq_eq_self {st : Stream} (h1 : (rxSeq seg st).seqRx = st.seqRx)
    (h2 : (rxSeq seg st).initSeqRx = st.initSeqRx) : rxSeq seg st = st := by
  obtain ⟨state, remAddr, remPort, seqRx, seqTx, initSeqRx, initSeqTx, buf⟩ := st
  unfold rxSeq at h1 h2 ⊢
  cases hsyn : seg.has flagSyn with
  | true =>
    simp only [hsyn, if_true] at h1 h2 ⊢
    rw [h1, h1.symm.trans h2]
  | false =>
    simp only [hsyn, Bool.false_eq_true, if_false] at h1 ⊢
    rw [h1]

/-- A segment that affects nothing changes nothing. -/
theorem Processed.stream_of_not_affects (h : Processed s i seg k s') (hna : ¬ s.Affects i k seg) :
    s'.stream = s.stream := by
  cases h with
  | wrongSeq => rfl
  | reset hseq hrst => exact absurd ⟨hseq, .inr (.inl hrst)⟩ hna
  | plain hseq hrst hsw =>
    have hrx : rxSeq seg (s.stream k) = s.stream k := by
      by_contra hne
      exact hna ⟨hseq, .inl hne⟩
    rw [setStream_eq_self hrx] at hsw
    cases hsw with
    | listen => rfl
    | closed => rfl
    | opened hs hsyn => exact absurd ⟨hseq, .inr (.inr (by rw [hs]; exact hsyn))⟩ hna
    | connected hs => exact absurd ⟨hseq, .inr (.inr (by rw [hs]; trivial))⟩ hna
    | accepted hs => exact absurd ⟨hseq, .inr (.inr (by rw [hs]; trivial))⟩ hna
    | lastAck hs => exact absurd ⟨hseq, .inr (.inr (by rw [hs]; trivial))⟩ hna
    | finWait1 hs hw =>
      cases hw with
      | no => rfl
      | closed hfin hack => exact absurd ⟨hseq, .inr (.inr (by rw [hs]; exact ⟨hfin, hack⟩))⟩ hna
    | @received u _ hs hlen hpush hfin =>
      have hnil := payload_eq_nil hseq hs (hlen.trans (Nat.sub_le _ _)) hrx
      have happ : s.appended seg k = s := by
        unfold appended
        exact setStream_eq_self (by rw [hnil, List.append_nil])
      rw [happ] at hpush
      have hu : u.stream k = s.stream k := by
        rcases hpush.stream_self with ⟨-, hk⟩ | ⟨⟨hpsh, hcli⟩, hk⟩
        · exact hk
        · rw [hk]
          by_cases hbuf : (s.stream k).buf = []
          · rw [hbuf, List.drop_nil, ← hbuf]
          · by_cases hroom : s.room (s.tcp i).client = 0
            · rw [hroom, Nat.zero_min, List.drop_zero]
            · refine absurd ⟨hseq, .inr (.inr ?_)⟩ hna
              rw [hs]
              exact .inr ⟨hpsh, hcli, hbuf, hroom⟩
      have hus := stream_eq_of_self hpush.touches hu
      have hno : seg.has flagFin ≠ true := fun hf =>
        hna ⟨hseq, .inr (.inr (by rw [hs]; exact .inl hf))⟩
      cases hfin with
      | no => exact hus
      | quiet hf => exact absurd hf hno
      | told hf => exact absurd hf hno

/-- `Rst` counts the sequence number up. -/
theorem Processed.seqTx_of_reset (hrst : (s.setStream k (rxSeq seg)).processRst i k = .ok t)
    (h : Switched t i seg k s') : (s'.stream k).seqTx ≠ (s.stream k).seqTx := by
  obtain ⟨u, hsent, -, -, rfl⟩ := processRst_cases hrst
  have hrx : (rxSeq seg (s.stream k)).seqTx = (s.stream k).seqTx := by
    unfold rxSeq
    split <;> rfl
  have hu : u.stream k = { rxSeq seg (s.stream k) with
      seqTx := seqAdd (s.stream k).seqTx 1
      seqRx := seqAdd (rxSeq seg (s.stream k)).seqRx 1 } := by
    rw [hsent.stream, setStream_self, setStream_self, hrx]
  have hclosed : (((u.setStream k fun st => { st with state := .closed }).answered i 11 [] none).stream k) =
      { u.stream k with state := .closed } := by
    rw [answered_stream, setStream_self]
  have htwo : ∀ a, seqAdd (seqAdd a 1) 1 ≠ a := fun a => by
    unfold seqAdd
    omega
  cases h with
  | closed => rw [hclosed, hu]; exact seqAdd_ne (by decide) (by decide)
  | opened _ _ hsent' =>
    rw [setStream_self, hsent'.stream, hclosed, hu]
    exact htwo _
  | listen hs => rw [hclosed] at hs; cases hs
  | connected hs => rw [hclosed] at hs; cases hs
  | accepted hs => rw [hclosed] at hs; cases hs
  | received hs => rw [hclosed] at hs; cases hs
  | finWait1 hs => rw [hclosed] at hs; cases hs
  | lastAck hs => rw [hclosed] at hs; cases hs

/-- What `Fin` leaves of the stream. -/
theorem Finished.stream_self (h : Finished s i seg k t) :
    seg.has flagFin = false ∧ t.stream k = s.stream k ∨
      seg.has flagFin = true ∧ (t.stream k).state = .lastAck := by
  cases h with
  | no hfin => exact .inl ⟨hfin, rfl⟩
  | quiet hfin =>
    refine .inr ⟨hfin, ?_⟩
    rw [setStream_self]
  | @told u hfin =>
    refine .inr ⟨hfin, ?_⟩
    refine (congrArg Stream.state (setStream_self fun st => { st with buf := [] })).trans ?_
    exact congrArg Stream.state (setStream_self fun st => { st with state := .lastAck })

/-- A segment that affects a stream changes it. -/
theorem Processed.stream_of_affects (h : Processed s i seg k s') (ha : s.Affects i k seg) :
    s'.stream k ≠ s.stream k := by
  obtain ⟨hexp, ha⟩ := ha
  obtain ⟨-, -, hstate, hbufrx⟩ := rxSeq_end seg (s.stream k)
  have hself : (s.setStream k (rxSeq seg)).stream k = rxSeq seg (s.stream k) := setStream_self _
  cases h with
  | wrongSeq hseq => rw [hexp] at hseq; cases hseq
  | reset _ _ ht hsw => exact fun heq => seqTx_of_reset ht hsw (congrArg Stream.seqTx heq)
  | plain hseq hrst hsw =>
    have hne : ∀ st, st ≠ (s.stream k).state → (s'.stream k).state = st →
        s'.stream k ≠ s.stream k := fun st h1 h2 heq => h1 (h2.symm.trans (congrArg Stream.state heq))
    cases hsw with
    | listen hs =>
      rw [hself, hstate] at hs
      rw [hs] at ha
      rw [hself]
      rcases ha with ha | ha | ha
      · exact ha
      · rw [hrst] at ha
        cases ha
      · exact ha.elim
    | closed hs hsyn =>
      rw [hself, hstate] at hs
      rw [hs] at ha
      rw [hself]
      rcases ha with ha | ha | ha
      · exact ha
      · rw [hrst] at ha
        cases ha
      · rw [hsyn] at ha
        cases ha
    | opened hs =>
      rw [hself, hstate] at hs
      refine hne .synReceived (by rw [hs]; nofun) ?_
      rw [setStream_self]
    | @connected t hs _ hsent =>
      rw [hself, hstate] at hs
      refine hne .established (by rw [hs]; nofun) ?_
      rw [answered_stream, hsent.stream, setStream_self]
    | accepted hs _ _ _ _ _ _ hacc =>
      rw [hself, hstate] at hs
      refine hne .established (by rw [hs]; nofun) ?_
      rw [hacc.stream]
      unfold queued
      exact congrArg Stream.state (if_pos rfl)
    | lastAck hs =>
      rw [hself, hstate] at hs
      refine hne .closed (by rw [hs]; nofun) ?_
      rw [setStream_self]
    | finWait1 hs hw =>
      rw [hself, hstate] at hs
      rw [hs] at ha
      cases hw with
      | no hno =>
        rw [hself]
        rcases ha with ha | ha | ha
        · exact ha
        · rw [hrst] at ha
          cases ha
        · exact absurd ha hno
      | @closed u l _ _ hsent =>
        refine hne .timeWait (by rw [hs]; nofun) ?_
        change (u.stream k).state = _
        rw [hsent.stream, setStream_self]
    | @received u _ hs hlen hpush hfin =>
      rw [hself, hstate] at hs
      rcases hfin.stream_self with ⟨hno, hk⟩ | ⟨-, hlast⟩
      · rw [hk]
        have happ : ((s.setStream k (rxSeq seg)).appended seg k).stream k =
            { rxSeq seg (s.stream k) with buf := (s.stream k).buf ++ seg.payload } := by
          unfold appended
          rw [setStream_self, setStream_self, hbufrx]
        intro heq
        -- the counters are the ones that the segment left, so it left them alone
        have hrx : rxSeq seg (s.stream k) = s.stream k := by
          rcases hpush.stream_self with ⟨-, hu⟩ | ⟨-, hu⟩
          · rw [hu, happ] at heq
            have h1 := congrArg Stream.seqRx heq
            have h2 := congrArg Stream.initSeqRx heq
            exact rxSeq_eq_self h1 h2
          · rw [hu, happ] at heq
            have h1 := congrArg Stream.seqRx heq
            have h2 := congrArg Stream.initSeqRx heq
            exact rxSeq_eq_self h1 h2
        rw [hs] at ha
        rcases ha with ha | ha | ha | ⟨hpsh, hcli, hbuf, hroom⟩
        · exact ha hrx
        · rw [hrst] at ha
          cases ha
        · rw [hno] at ha
          cases ha
        · -- a client that waits has got a part of the buffer
          have hle : seg.payload.length ≤ streamBufSz := hlen.trans (Nat.sub_le _ _)
          have hnil := payload_eq_nil hexp hs hle hrx
          rcases hpush.stream_self with ⟨hn, -⟩ | ⟨-, hu⟩
          · exact hn ⟨hpsh, hcli⟩
          · rw [hu, happ, hnil, List.append_nil] at heq
            have hlen := congrArg (fun st : Stream => st.buf.length) heq
            have hpos := List.length_pos_iff.mpr hbuf
            have hroom' : 0 < s.room (s.tcp i).client := Nat.pos_of_ne_zero hroom
            have hdrop : (s.stream k).buf.length - min (s.room (s.tcp i).client)
                (s.stream k).buf.length = (s.stream k).buf.length := by
              rw [← List.length_drop]
              exact hlen
            omega
      · refine hne .lastAck (by rw [hs]; nofun) hlast

/-! ## The demultiplexing of segments -/

/-- A segment changes the stream whose remote end it comes from, if any; where no connection has both
of its ends and no socket listens at its local end, it changes none. -/
structure Demuxes (s s' : Net) (seg : Seg) : Prop where
  onlyFrom : OnlyFrom s s' seg
  unmatched : s.findConnectedSocket seg.dst seg.dport seg.src seg.sport = none →
    (∀ i ∈ s.tcpIds, boundTo (s.tcp i).toSocket seg.dst seg.dport = true →
      (s.tcp i).netState ≠ .listen) → s'.stream = s.stream

/-- No connection has both ends of the segment, and the first socket that is bound to its local end is
a connection whose stream the segment affects. -/
def Hijacks (s : Net) (seg : Seg) : Prop :=
  s.findConnectedSocket seg.dst seg.dport seg.src seg.sport = none ∧
    ∃ i k, s.findListeningSocket seg.dst seg.dport = some i ∧ (s.tcp i).netState = .connection ∧
      (s.tcp i).stream = some k ∧ s.Affects i k seg

/-- The segment changes a stream of another remote end, so it must not go there. -/
theorem not_demuxes_of_hijacks (h : Segmented s i seg s')
    (hfind : s.findListeningSocket seg.dst seg.dport = some i) (hj : s.Hijacks seg) :
    ¬ Demuxes s s' seg := by
  obtain ⟨hconn, i', k, hfind', hnet, hk, ha⟩ := hj
  obtain rfl := Option.some.inj (hfind.symm.trans hfind')
  obtain ⟨k', hk', hp⟩ := h.of_connection hnet
  obtain rfl := Option.some.inj (hk'.symm.trans hk)
  intro hd
  have hend := hd.onlyFrom k' (hp.stream_of_affects ha)
  refine not_fromEnd_of_fallback hconn hfind hk' ⟨?_, ?_⟩
  · exact hp.touches.addr.symm.trans hend.1
  · exact hp.touches.port.symm.trans hend.2

/-- **A segment changes streams of its own remote end only, exactly when the search for a listening
socket does not find a connection that the segment affects.** -/
theorem demuxes_iff {ipif : IpIface} {eth : Nat} (h : s.processTcpPacket ipif eth seg = .ok s') :
    Demuxes s s' seg ↔ ¬ s.Hijacks seg := by
  unfold processTcpPacket at h
  split at h
  · rename_i i hfind
    have hseg := processTcpToSocket_cases h
    refine iff_of_true ⟨hseg.onlyFrom_connected hfind, fun hnone => ?_⟩ fun hj => ?_
    · rw [hfind] at hnone
      cases hnone
    · rw [hj.1] at hfind
      cases hfind
  · rename_i hconn
    split at h
    · rename_i i hfind
      have hseg := processTcpToSocket_cases h
      refine ⟨fun hd hj => not_demuxes_of_hijacks hseg hfind hj hd, fun hno => ?_⟩
      rcases hseg.netState with hnet | hnet
      · have hbound := List.find?_some hfind
        refine ⟨hseg.onlyFrom_listener hnet, fun _ hnone => ?_⟩
        exact absurd hnet (hnone i (List.mem_of_find?_eq_some hfind) hbound)
      · obtain ⟨k, hk, hp⟩ := hseg.of_connection hnet
        have hsame : s'.stream = s.stream :=
          hp.stream_of_not_affects fun ha => hno ⟨hconn, i, k, hfind, hnet, hk, ha⟩
        exact ⟨onlyFrom_of_eq hsame, fun _ _ => hsame⟩
    · rename_i hnone
      have hsame : s'.stream = s.stream := by
        rcases sendIcmpDestUnreach_eq_ok h with rfl | ⟨mem, f, rfl⟩ <;> rfl
      refine iff_of_true ⟨onlyFrom_of_eq hsame, fun _ _ => hsame⟩ fun hj => ?_
      obtain ⟨-, i, k, hfind, -⟩ := hj
      rw [hnone] at hfind
      cases hfind

end Net

/-! ## Two segments -/

/-- A connection of the port 80 with the port 5000 of the host. -/
def connectRun : List Event :=
  [.clientGet, .ethGet, tcpSocketRequest alice, bindRequest alice 1 80,
    connectRequest alice 1 hostAddr 5000, segmentFrame 5000 7 (flagSyn + flagAck) []]

/-- Three bytes for the port 80 from some port of the host. -/
def dataSegment (port : Nat) : Seg where
  src := hostAddr
  sport := port
  dst := 0xc0a80064
  dport := 80
  seq := 8
  flags := flagPsh + flagAck
  payload := [1, 2, 3]
  reqLen := 43

/-- The segment of the host's end goes to the connection. -/
theorem dataSegment_demuxes : ∃ s s', run (Net.init 0 0) connectRun = .ok s ∧
    s.processTcpPacket ⟨0, 0, 0⟩ 0 (dataSegment 5000) = .ok s' ∧ (s'.stream 0).buf = [1, 2, 3] ∧
    Net.Demuxes s s' (dataSegment 5000) := by
  have hok : okAnd (run (Net.init 0 0) connectRun) (fun s =>
      okAnd (s.processTcpPacket ⟨0, 0, 0⟩ 0 (dataSegment 5000)) fun s' =>
        (s'.stream 0).buf == [1, 2, 3] &&
          s.findConnectedSocket 0xc0a80064 80 hostAddr 5000 == some 1) = true := by
    decide +kernel
  obtain ⟨s, hrun, hs⟩ := okAnd_iff.mp hok
  obtain ⟨s', hseg, hb⟩ := okAnd_iff.mp hs
  obtain ⟨hbuf, hfind⟩ := Bool.and_eq_true_iff.mp hb
  refine ⟨s, s', hrun, hseg, beq_iff_eq.mp hbuf, (Net.demuxes_iff hseg).mpr fun hj => ?_⟩
  exact nomatch hj.1.symm.trans (beq_iff_eq.mp hfind)

/-- The connection takes the bytes of another port. -/
theorem dataSegment_hijacks : ∃ s s', run (Net.init 0 0) connectRun = .ok s ∧
    s.processTcpPacket ⟨0, 0, 0⟩ 0 (dataSegment 6000) = .ok s' ∧
    ¬ Net.Demuxes s s' (dataSegment 6000) := by
  have hok : okAnd (run (Net.init 0 0) connectRun) (fun s =>
      okAnd (s.processTcpPacket ⟨0, 0, 0⟩ 0 (dataSegment 6000)) fun s' =>
        decide (s'.stream 0 ≠ s.stream 0) && (s'.stream 0).remPort == 5000) = true := by
    decide +kernel
  obtain ⟨s, hrun, hs⟩ := okAnd_iff.mp hok
  obtain ⟨s', hseg, hb⟩ := okAnd_iff.mp hs
  obtain ⟨hne, hport⟩ := Bool.and_eq_true_iff.mp hb
  refine ⟨s, s', hrun, hseg, fun hd => ?_⟩
  have hend := hd.onlyFrom 0 (of_decide_eq_true hne)
  rw [Net.FromEnd, beq_iff_eq.mp hport] at hend
  exact absurd hend.2 (by decide)

end Tcpip
end Wrmos
