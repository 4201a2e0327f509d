import Wrmos.TcpipSteps
import Wrmos.Lib.Holders

/-!
# The TCP/IP server: who holds a stream

A stream is allocated when a connection begins, in one of the eight nodes of `allstreams`.  A
listening socket has it in its list of connecting streams, then in its connected queue; a connection
has it for itself.  `StreamsOwned` says that every allocated stream is held by one holder, and that
nothing else is held.

`StreamInv` is the invariant that carries it.  Most of what the server does leaves the holders alone
(`SameHolders`); what is left is a stream that is added, moved or removed.

One request breaks it.  An accept request takes a stream out of the connected queue before the server
knows whether there is room for its socket, and without room nobody holds the stream.
-/

namespace Wrmos
namespace Tcpip

open Lib

/-- The streams a socket refers to. -/
def TcpSocket.holds (t : TcpSocket) : List Nat := t.streams ++ t.connectedQueue ++ t.stream.toList

/-- The references of all sockets to streams. -/
def Net.references (s : Net) : List Nat := heldBy s.tcpIds fun i => (s.tcp i).holds

/-- Every allocated stream is held by one of: the connecting streams of a listening socket, its
connected queue, a connection; and no socket holds a stream that is not allocated. -/
structure Net.StreamsOwned (s : Net) : Prop where
  once : ∀ k ∈ s.allstreams.nodes, s.references.count k = 1
  live : ∀ k ∈ s.references, k ∈ s.allstreams.nodes
  listener : ∀ i ∈ s.tcpIds, (s.tcp i).streams ++ (s.tcp i).connectedQueue ≠ [] →
    (s.tcp i).netState = .listen
  connection : ∀ i ∈ s.tcpIds, (s.tcp i).stream ≠ none → (s.tcp i).netState = .connection

/-- What a socket may hold.  The connected queue has at most one stream: a stream gets there from a
client that waits in `accept`, and the next `accept` takes it out. -/
structure TcpSocket.HolderOk (t : TcpSocket) : Prop where
  idle : t.netState = .idle → t.holds = []
  listen : t.netState = .listen → t.stream = none
  connection : t.netState = .connection → t.streams = [] ∧ t.connectedQueue = []
  short : t.connectedQueue.length ≤ 1
  accepting : t.cliState = .accept → t.connectedQueue = []

namespace Net

/-- The invariant. -/
structure StreamInv (s : Net) : Prop where
  wf : s.allstreams.Wf
  ids : s.tcpIds.Nodup
  fresh : ∀ i ∈ s.tcpIds, i ≤ s.cnt
  perm : s.references.Perm s.allstreams.nodes
  holder : ∀ i ∈ s.tcpIds, (s.tcp i).HolderOk

theorem StreamInv.owned {s : Net} (h : StreamInv s) : s.StreamsOwned where
  once := fun k hk => by
    rw [h.perm.count_eq]
    exact List.count_eq_one_of_mem (List.nodup_append.mp h.wf).1 hk
  live := fun k hk => h.perm.mem_iff.mp hk
  listener := fun i hi hne => by
    have ho := h.holder i hi
    cases hn : (s.tcp i).netState with
    | idle =>
      have := ho.idle hn
      unfold TcpSocket.holds at this
      exact absurd (List.append_eq_nil_iff.mp this).1 hne
    | listen => rfl
    | connection =>
      obtain ⟨h1, h2⟩ := ho.connection hn
      rw [h1, h2] at hne
      exact absurd rfl hne
  connection := fun i hi hne => by
    have ho := h.holder i hi
    cases hn : (s.tcp i).netState with
    | idle =>
      have := ho.idle hn
      unfold TcpSocket.holds at this
      have := (List.append_eq_nil_iff.mp this).2
      cases hs : (s.tcp i).stream with
      | none => exact absurd hs hne
      | some k => rw [hs] at this; cases this
    | listen => exact absurd (ho.listen hn) hne
    | connection => rfl

/-! ## What leaves the holders alone -/

/-- A socket holds what it held. -/
structure SameHolder (t t' : TcpSocket) : Prop where
  net : t'.netState = t.netState
  streams : t'.streams = t.streams
  queue : t'.connectedQueue = t.connectedQueue
  stream : t'.stream = t.stream
  accepting : t'.cliState = .accept → t.cliState = .accept ∨ t.connectedQueue = []

/-- The holders are the same. -/
structure SameHolders (s s' : Net) : Prop where
  ids : s'.tcpIds = s.tcpIds
  all : s'.allstreams = s.allstreams
  cnt : s.cnt ≤ s'.cnt
  tcp : ∀ i, SameHolder (s.tcp i) (s'.tcp i)

variable {s s' s'' t : Net} {i j k frame : Nat} {seg : Seg} {r : Request}

theorem SameHolder.refl (t : TcpSocket) : SameHolder t t := ⟨rfl, rfl, rfl, rfl, .inl⟩

theorem SameHolder.of_eq {t t' : TcpSocket} (h : t' = t) : SameHolder t t' := h ▸ .refl t

theorem SameHolder.trans {t t' t'' : TcpSocket} (h : SameHolder t t') (h' : SameHolder t' t'') :
    SameHolder t t'' where
  net := h'.net.trans h.net
  streams := h'.streams.trans h.streams
  queue := h'.queue.trans h.queue
  stream := h'.stream.trans h.stream
  accepting := fun hc => by
    rcases h'.accepting hc with hc | hc
    · exact h.accepting hc
    · exact .inr (h.queue ▸ hc)

theorem SameHolder.holds {t t' : TcpSocket} (h : SameHolder t t') : t'.holds = t.holds := by
  unfold TcpSocket.holds
  rw [h.streams, h.queue, h.stream]

theorem SameHolder.ok {t t' : TcpSocket} (h : SameHolder t t') (ht : t.HolderOk) : t'.HolderOk where
  idle := fun hn => h.holds.trans (ht.idle (h.net ▸ hn))
  listen := fun hn => h.stream.trans (ht.listen (h.net ▸ hn))
  connection := fun hn => by
    rw [h.streams, h.queue]
    exact ht.connection (h.net ▸ hn)
  short := h.queue ▸ ht.short
  accepting := fun hc => by
    rw [h.queue]
    rcases h.accepting hc with hc | hc
    · exact ht.accepting hc
    · exact hc

/-- The rule for a change of what is not about TCP sockets. -/
theorem sameHolders_of_eq (htcp : s'.tcp = s.tcp) (hids : s'.tcpIds = s.tcpIds)
    (hall : s'.allstreams = s.allstreams) (hcnt : s.cnt ≤ s'.cnt) : SameHolders s s' :=
  ⟨hids, hall, hcnt, fun _ => htcp ▸ .refl _⟩

theorem SameHolders.refl (s : Net) : SameHolders s s := sameHolders_of_eq rfl rfl rfl le_rfl

theorem SameHolders.trans (h : SameHolders s s') (h' : SameHolders s' s'') : SameHolders s s'' :=
  ⟨h'.ids.trans h.ids, h'.all.trans h.all, h.cnt.trans h'.cnt, fun i => (h.tcp i).trans (h'.tcp i)⟩

/-- The rule for a change of one TCP socket. -/
theorem sameHolders_setTcp {f : TcpSocket → TcpSocket} (h : SameHolder (s.tcp i) (f (s.tcp i))) :
    SameHolders s (s.setTcp i f) := by
  refine ⟨rfl, rfl, le_rfl, fun j => ?_⟩
  by_cases hj : j = i
  · subst hj
    rw [setTcp_self]
    exact h
  · rw [setTcp_of_ne f hj]
    exact .refl _

theorem StreamInv.same (h : StreamInv s) (hs : SameHolders s s') : StreamInv s' where
  wf := hs.all ▸ h.wf
  ids := hs.ids ▸ h.ids
  fresh := fun i hi => (h.fresh i (hs.ids ▸ hi)).trans hs.cnt
  perm := by
    unfold references
    rw [hs.ids, hs.all, heldBy_congr fun j _ => (hs.tcp j).holds]
    exact h.perm
  holder := fun i hi => (hs.tcp i).ok (h.holder i (hs.ids ▸ hi))

theorem sameHolders_tcpIdle : SameHolders s (s.tcpIdle i) :=
  sameHolders_setTcp ⟨rfl, rfl, rfl, rfl, nofun⟩

theorem sameHolders_replied {cli ecode : Nat} {words : List Nat} {bf : Option Buf} :
    SameHolders s (s.replied cli ecode words bf) := sameHolders_of_eq rfl rfl rfl le_rfl

theorem sameHolders_answered {ecode : Nat} {words : List Nat} {bf : Option Buf} :
    SameHolders s (s.answered i ecode words bf) := sameHolders_replied.trans sameHolders_tcpIdle

theorem sameHolders_setStream {f : Stream → Stream} : SameHolders s (s.setStream k f) :=
  sameHolders_of_eq rfl rfl rfl le_rfl

theorem sameHolders_setUdp {f : UdpSocket → UdpSocket} : SameHolders s (s.setUdp i f) :=
  sameHolders_of_eq rfl rfl rfl le_rfl

theorem sameHolders_sendToEthDrv {a len : Nat} : SameHolders s (s.sendToEthDrv a len) :=
  sameHolders_of_eq rfl rfl rfl le_rfl

theorem sameHolders_emitted {mem : Lib.Mem} {f : TxFrame} : SameHolders s (s.emitted mem f) :=
  sameHolders_of_eq rfl rfl rfl le_rfl

theorem Sent.sameHolders (h : Sent s i k t) : SameHolders s t := by
  cases h with
  | now => exact sameHolders_of_eq rfl rfl rfl le_rfl
  | @stored arp =>
    have h1 : SameHolders s (s.withArp arp) := sameHolders_of_eq rfl rfl rfl le_rfl
    refine h1.trans (.trans (sameHolders_setTcp ?_) (sameHolders_of_eq rfl rfl rfl le_rfl))
    exact ⟨rfl, rfl, rfl, rfl, .inl⟩

theorem processRst_sameHolders (h : s.processRst i k = .ok t) : SameHolders s t := by
  obtain ⟨u, hsent, -, -, rfl⟩ := processRst_cases h
  exact sameHolders_setStream.trans (hsent.sameHolders.trans
    (sameHolders_setStream.trans sameHolders_answered))

theorem sameHolders_delivered {cli : Nat} : SameHolders s (s.delivered k cli) :=
  sameHolders_of_eq rfl rfl rfl le_rfl

theorem Pushed.sameHolders (h : Pushed s i seg k t) : SameHolders s t := by
  cases h with
  | kept => exact .refl s
  | delivered => exact sameHolders_delivered.trans sameHolders_tcpIdle

theorem Finished.sameHolders (h : Finished s i seg k t) : SameHolders s t := by
  cases h with
  | no => exact .refl s
  | quiet _ hsent => exact sameHolders_setStream.trans (hsent.sameHolders.trans sameHolders_setStream)
  | told _ hsent =>
    exact sameHolders_setStream.trans <| hsent.sameHolders.trans <| sameHolders_setStream.trans <|
      sameHolders_replied.trans <| sameHolders_setStream.trans sameHolders_tcpIdle

theorem Datagram.sameHolders {d : Dgram} (h : Datagram s i d t) : SameHolders s t := by
  cases h <;> exact sameHolders_of_eq rfl rfl rfl le_rfl

theorem CheckedUdp.sameHolders {spa sha : Nat} (h : CheckedUdp s spa sha i t) : SameHolders s t := by
  cases h with
  | other => exact .refl s
  | sent => exact sameHolders_of_eq rfl rfl rfl le_rfl
  | answered => exact sameHolders_of_eq rfl rfl rfl le_rfl

theorem CheckedTcp.sameHolders {spa sha : Nat} (h : CheckedTcp s spa sha i t) : SameHolders s t := by
  have hset : SameHolders s (s.setTcp i fun t => { t with waitArp := false }) :=
    sameHolders_setTcp ⟨rfl, rfl, rfl, rfl, .inl⟩
  cases h with
  | other => exact .refl s
  | sent => exact hset.trans (sameHolders_of_eq rfl rfl rfl le_rfl)
  | answered =>
    refine hset.trans (.trans ?_ sameHolders_tcpIdle)
    exact sameHolders_of_eq rfl rfl rfl le_rfl

/-- An ARP reply leaves the holders alone. -/
theorem arpChecked_sameHolders {spa sha : Nat} {u : Net}
    (hudp : runAll (fun s i => s.checkArpUdp spa sha i) s s.udpIds = .ok t)
    (htcp : runAll (fun s i => s.checkArpTcp spa sha i) t t.tcpIds = .ok u) : SameHolders s u := by
  have h1 : SameHolders s t := runAll_invariant_of_step (I := SameHolders s)
    (fun _ _ _ hs h => hs.trans (checkArpUdp_cases h).sameHolders) (.refl s) hudp
  exact runAll_invariant_of_step (I := SameHolders s)
    (fun _ _ _ hs h => hs.trans (checkArpTcp_cases h).sameHolders) h1 htcp

theorem sendIcmpDestUnreach_sameHolders {ipif : IpIface} {ethReq reqLen code : Nat}
    (h : s.sendIcmpDestUnreach ipif ethReq reqLen code = .ok t) : SameHolders s t := by
  rcases sendIcmpDestUnreach_eq_ok h with rfl | ⟨mem, f, rfl⟩
  · exact .refl _
  · exact sameHolders_of_eq rfl rfl rfl le_rfl

/-! ## What changes the holders -/

/-- One socket has changed: what it holds now and what the others hold. -/
theorem references_set (h : StreamInv s) (hi : i ∈ s.tcpIds) (hids : s'.tcpIds = s.tcpIds)
    (hne : ∀ j ∈ s.tcpIds, j ≠ i → SameHolder (s.tcp j) (s'.tcp j)) :
    s'.references.Perm ((s'.tcp i).holds ++ heldBy (s.tcpIds.erase i) fun j => (s.tcp j).holds) := by
  unfold references
  rw [hids]
  exact heldBy_update h.ids hi fun j hj hji => (hne j hj hji).holds

/-- The allocated streams, split into what one socket holds and what the others hold. -/
theorem StreamInv.split (h : StreamInv s) (hi : i ∈ s.tcpIds) :
    ((s.tcp i).holds ++ heldBy (s.tcpIds.erase i) fun j => (s.tcp j).holds).Perm
      s.allstreams.nodes := (heldBy_perm hi).symm.trans h.perm

/-- The rule for a change of one socket that keeps the streams: what it holds is the same up to
order. -/
theorem StreamInv.set (h : StreamInv s) (hi : i ∈ s.tcpIds) (hids : s'.tcpIds = s.tcpIds)
    (hall : s'.allstreams = s.allstreams) (hcnt : s.cnt ≤ s'.cnt)
    (hne : ∀ j ∈ s.tcpIds, j ≠ i → SameHolder (s.tcp j) (s'.tcp j))
    (hperm : (s'.tcp i).holds.Perm (s.tcp i).holds) (hok : (s'.tcp i).HolderOk) : StreamInv s' where
  wf := hall ▸ h.wf
  ids := hids ▸ h.ids
  fresh := fun j hj => (h.fresh j (hids ▸ hj)).trans hcnt
  perm := by
    rw [hall]
    exact (references_set h hi hids hne).trans ((hperm.append_right _).trans (h.split hi))
  holder := fun j hj => by
    rw [hids] at hj
    by_cases hji : j = i
    · rw [hji]
      exact hok
    · exact (hne j hj hji).ok (h.holder j hj)

/-- The rule for a new stream. -/
theorem StreamInv.alloc (h : StreamInv s) (hi : i ∈ s.tcpIds) (hids : s'.tcpIds = s.tcpIds)
    {l : NodeList Unit} (hpush : s.allstreams.pushBack () = some (l, k)) (hall : s'.allstreams = l)
    (hcnt : s.cnt ≤ s'.cnt) (hne : ∀ j ∈ s.tcpIds, j ≠ i → SameHolder (s.tcp j) (s'.tcp j))
    (hperm : (s'.tcp i).holds.Perm (k :: (s.tcp i).holds)) (hok : (s'.tcp i).HolderOk) :
    StreamInv s' where
  wf := hall ▸ NodeList.wf_insertWhere h.wf hpush
  ids := hids ▸ h.ids
  fresh := fun j hj => (h.fresh j (hids ▸ hj)).trans hcnt
  perm := by
    rw [hall]
    refine (references_set h hi hids hne).trans ?_
    refine ((hperm.append_right _).trans ?_).trans (NodeList.nodes_insertWhere hpush).symm
    exact (h.split hi).cons k
  holder := fun j hj => by
    rw [hids] at hj
    by_cases hji : j = i
    · rw [hji]
      exact hok
    · exact (hne j hj hji).ok (h.holder j hj)

/-- The rule for a socket that goes with its stream. -/
theorem StreamInv.remove (h : StreamInv s) (hi : i ∈ s.tcpIds) (hids : s'.tcpIds = s.tcpIds.erase i)
    (hk : (s.tcp i).holds = [k]) (hall : s'.allstreams = s.allstreams.erase k) (hcnt : s.cnt ≤ s'.cnt)
    (hne : ∀ j ∈ s.tcpIds, j ≠ i → SameHolder (s.tcp j) (s'.tcp j)) : StreamInv s' := by
  have hsplit := h.split hi
  rw [hk] at hsplit
  have hmem : k ∈ s.allstreams.nodes := hsplit.mem_iff.mp List.mem_cons_self
  exact
    { wf := hall ▸ NodeList.wf_erase h.wf hmem
      ids := hids ▸ h.ids.erase i
      fresh := fun j hj => (h.fresh j (List.mem_of_mem_erase (hids ▸ hj))).trans hcnt
      perm := by
        have hp := (hsplit.trans (NodeList.nodes_perm_erase h.wf hmem)).cons_inv
        unfold references
        rw [hids, hall, heldBy_erase h.ids fun j hj hji => (hne j hj hji).holds]
        exact hp
      holder := fun j hj => by
        rw [hids] at hj
        obtain ⟨hji, hj⟩ := h.ids.mem_erase_iff.mp hj
        exact (hne j hj hji).ok (h.holder j hj) }

/-- The rule for a socket that goes and holds nothing. -/
theorem StreamInv.close (h : StreamInv s) (hi : i ∈ s.tcpIds) (hids : s'.tcpIds = s.tcpIds.erase i)
    (hk : (s.tcp i).holds = []) (hall : s'.allstreams = s.allstreams) (hcnt : s.cnt ≤ s'.cnt)
    (hne : ∀ j ∈ s.tcpIds, j ≠ i → SameHolder (s.tcp j) (s'.tcp j)) : StreamInv s' where
  wf := hall ▸ h.wf
  ids := hids ▸ h.ids.erase i
  fresh := fun j hj => (h.fresh j (List.mem_of_mem_erase (hids ▸ hj))).trans hcnt
  perm := by
    have hsplit := h.split hi
    rw [hk, List.nil_append] at hsplit
    unfold references
    rw [hids, hall, heldBy_erase h.ids fun j hj hji => (hne j hj hji).holds]
    exact hsplit
  holder := fun j hj => by
    rw [hids] at hj
    obtain ⟨hji, hj⟩ := h.ids.mem_erase_iff.mp hj
    exact (hne j hj hji).ok (h.holder j hj)

/-- The rule for a new socket `j` that takes what the socket `i` gives up. -/
theorem StreamInv.create (h : StreamInv s) (hj : j = s.cnt + 1) (hids : s'.tcpIds = s.tcpIds ++ [j])
    (hall : s'.allstreams = s.allstreams) (hcnt : s'.cnt = j)
    (hne : ∀ l ∈ s.tcpIds, l ≠ i → SameHolder (s.tcp l) (s'.tcp l))
    (hi : i ∈ s.tcpIds → ((s'.tcp i).holds ++ (s'.tcp j).holds).Perm (s.tcp i).holds ∧
      (s'.tcp i).HolderOk)
    (hnone : i ∉ s.tcpIds → (s'.tcp j).holds = []) (hok : (s'.tcp j).HolderOk) : StreamInv s' where
  wf := hall ▸ h.wf
  ids := by
    rw [hids]
    refine List.nodup_append.mpr ⟨h.ids, List.nodup_singleton j, fun a ha b hb hab => ?_⟩
    have := h.fresh a ha
    rw [List.mem_singleton] at hb
    omega
  fresh := fun l hl => by
    rw [hids] at hl
    rcases List.mem_append.mp hl with hl | hl
    · have := h.fresh l hl
      omega
    · rw [List.mem_singleton] at hl
      omega
  perm := by
    rw [hall]
    refine List.Perm.trans ?_ h.perm
    unfold references
    rw [hids, heldBy_concat]
    by_cases hmem : i ∈ s.tcpIds
    · refine ((heldBy_update h.ids hmem fun l hl hli => (hne l hl hli).holds).append_right _).trans ?_
      refine List.Perm.trans ?_ (heldBy_perm hmem).symm
      rw [List.append_assoc]
      refine (List.perm_append_comm.append_left _).trans ?_
      rw [← List.append_assoc]
      exact (hi hmem).1.append_right _
    · rw [hnone hmem, List.append_nil]
      exact .of_eq (heldBy_congr fun l hl => (hne l hl fun hli => hmem (hli ▸ hl)).holds)
  holder := fun l hl => by
    rw [hids] at hl
    rcases List.mem_append.mp hl with hl | hl
    · by_cases hli : l = i
      · rw [hli]
        exact (hi (hli ▸ hl)).2
      · exact (hne l hl hli).ok (h.holder l hl)
    · rw [List.mem_singleton.mp hl]
      exact hok

/-- A listening socket whose connected queue is short holds what it should. -/
theorem holderOk_listener {u : TcpSocket} (hnet : u.netState = .listen) (hstream : u.stream = none)
    (hshort : u.connectedQueue.length ≤ 1) (hacc : u.cliState = .accept → u.connectedQueue = []) :
    u.HolderOk where
  idle := fun h => by rw [hnet] at h; cases h
  listen := fun _ => hstream
  connection := fun h => by rw [hnet] at h; cases h
  short := hshort
  accepting := hacc

theorem holderOk_connection {u : TcpSocket} (hnet : u.netState = .connection) (hs : u.streams = [])
    (hq : u.connectedQueue = []) : u.HolderOk where
  idle := fun h => by rw [hnet] at h; cases h
  listen := fun h => by rw [hnet] at h; cases h
  connection := fun _ => ⟨hs, hq⟩
  short := by
    rw [hq]
    exact Nat.zero_le 1
  accepting := fun _ => hq

/-- A connection holds its stream. -/
theorem holds_of_connection {u : TcpSocket} (h : u.HolderOk) (hnet : u.netState = .connection)
    (hk : u.stream = some k) : u.holds = [k] := by
  obtain ⟨hs, hq⟩ := h.connection hnet
  unfold TcpSocket.holds
  rw [hs, hq, hk]
  rfl

theorem Selected.streamInv {o : Option Nat} (h : StreamInv s) (hi : i ∈ s.tcpIds)
    (hsel : Selected s i seg o t) : StreamInv t := by
  cases hsel with
  | connecting => exact h
  | unknown => exact h
  | connection => exact h
  | @added k l hnet hbound hfind hsyn hroom hpush =>
    have ho := h.holder i hi
    have hself : (s.withStream i k l seg.src seg.sport).tcp i =
        { s.tcp i with streams := (s.tcp i).streams ++ [k] } := setTcp_self _
    refine h.alloc hi rfl hpush rfl le_rfl (fun j _ hji => .of_eq (setTcp_of_ne _ hji)) ?_ ?_
    · rw [hself]
      unfold TcpSocket.holds
      dsimp only
      rw [List.append_assoc, List.append_assoc, List.append_assoc]
      exact List.perm_middle
    · rw [hself]
      exact holderOk_listener hnet (ho.listen hnet) ho.short ho.accepting

/-- `rem_stream(stream)` writes the connected queue of one socket; a queue that holds the stream
alone becomes empty. -/
theorem remFromQueue_eq (s : Net) (i k : Nat) : ∃ q,
    s.remFromQueue i k = s.setTcp i (fun t => { t with connectedQueue := q }) ∧
      ((s.tcp i).connectedQueue = [] ∨ (s.tcp i).connectedQueue = [k] → q = []) := by
  unfold remFromQueue
  cases hf : s.findStream (s.tcp i).connectedQueue (s.stream k).remAddr (s.stream k).remPort with
  | none =>
    refine ⟨(s.tcp i).connectedQueue, ?_, fun hq => ?_⟩
    · exact (setTcp_eq_self rfl).symm
    · rcases hq with hq | hq
      · exact hq
      · rw [hq] at hf
        unfold findStream at hf
        simp at hf
  | some l =>
    refine ⟨(s.tcp i).connectedQueue.erase l, ?_, fun hq => ?_⟩
    · exact setTcp_congr rfl
    · rcases hq with hq | hq
      · rw [hq] at hf
        cases hf
      · have hl : l = k := by
          have := List.mem_of_find?_eq_some hf
          rw [hq] at this
          exact List.mem_singleton.mp this
        rw [hq, hl]
        simp

/-- What `accept_connected_stream` leaves: the socket that listens without the stream, and a new
socket with it. -/
theorem accepted_spec (s : Net) (hij : i ≠ j) (iaddr : Nat)
    (hq : (s.tcp i).connectedQueue = [] ∨ (s.tcp i).connectedQueue = [k]) :
    (s.accepted i k j iaddr).tcpIds = s.tcpIds ++ [j] ∧
      (s.accepted i k j iaddr).allstreams = s.allstreams ∧ (s.accepted i k j iaddr).cnt = j ∧
      (s.accepted i k j iaddr).tcp i = { s.tcp i with connectedQueue := [] } ∧
      ((s.accepted i k j iaddr).tcp j).holds = [k] ∧
      ((s.accepted i k j iaddr).tcp j).HolderOk ∧
      ∀ l, l ≠ i → l ≠ j → (s.accepted i k j iaddr).tcp l = s.tcp l := by
  unfold accepted
  dsimp only
  generalize hu : ({ s with
      cnt := j
      tcpIds := s.tcpIds ++ [j]
      tcp := fun l => if l = j then _ else s.tcp l } : Net) = u
  have htcp : ∀ l, l ≠ j → u.tcp l = s.tcp l := fun l hl => by
    rw [← hu]
    exact if_neg hl
  have hnew : u.tcp j = ⟨Socket.mk' (s.tcp i).owner (s.tcp i).ownerThrnoBegin (s.tcp i).ownerThrnoEnd
      j, .connection, .idle, [], [], 0, some k⟩ := by
    rw [← hu]
    exact if_pos rfl
  obtain ⟨q, hrem, hempty⟩ := remFromQueue_eq u i k
  rw [htcp i hij] at hempty
  rw [hrem, hempty hq]
  have hat : (((u.setTcp i fun t => { t with connectedQueue := [] }).setTcp j fun w =>
      { w with bound := true, saddrAddr := iaddr, saddrPort := (s.tcp i).saddrPort }).tcp j) =
      { u.tcp j with bound := true, saddrAddr := iaddr, saddrPort := (s.tcp i).saddrPort } := by
    rw [setTcp_self, setTcp_of_ne _ (Ne.symm hij)]
  refine ⟨by rw [← hu]; rfl, by rw [← hu]; rfl, by rw [← hu]; rfl, ?_, ?_, ?_, fun l hli hlj => ?_⟩
  · rw [setTcp_of_ne _ hij, setTcp_self, htcp i hij]
  · rw [hat, hnew]
    rfl
  · rw [hat, hnew]
    exact holderOk_connection rfl rfl rfl
  · rw [setTcp_of_ne _ hlj, setTcp_of_ne _ hli, htcp l hlj]

/-- `accept_connected_stream` from a state `u` in which the listening socket has given the stream
up, in part or whole: without room for the new socket it has to have it still. -/
theorem Accepted.streamInv {u : Net} (h : StreamInv s) (hi : i ∈ s.tcpIds)
    (hids : u.tcpIds = s.tcpIds) (hall : u.allstreams = s.allstreams) (hcnt : u.cnt = s.cnt)
    (hne : ∀ l, l ≠ i → u.tcp l = s.tcp l) (hstream : (u.tcp i).stream = none)
    (hq : (u.tcp i).connectedQueue = [] ∨ (u.tcp i).connectedQueue = [k])
    (hfull : s.tcpIds.length = listCap → (u.tcp i).holds.Perm (s.tcp i).holds)
    (hdone : (k :: { u.tcp i with connectedQueue := [] }.holds).Perm (s.tcp i).holds)
    (hacc : Accepted u i k s') : StreamInv s' := by
  have hshort : (u.tcp i).connectedQueue.length ≤ 1 := by
    rcases hq with hq | hq <;> simp [hq]
  cases hacc with
  | full hcli hnet _ _ hcap =>
    refine h.set hi hids hall hcnt.ge (fun j _ hji => .of_eq ?_) ?_ ?_
    · exact (answered_of_ne hji).trans (hne j hji)
    · rw [answered_self]
      exact hfull (hids ▸ hcap)
    · rw [answered_self]
      exact holderOk_listener hnet hstream hshort nofun
  | @done iaddr hcli hnet =>
    have hj : i ≠ u.cnt + 1 := by
      have := h.fresh i hi
      omega
    obtain ⟨h1, h2, h3, h4, h5, h6, h7⟩ := accepted_spec u hj iaddr hq
    refine StreamInv.same ?_ sameHolders_answered
    refine h.create (i := i) (j := u.cnt + 1) (by rw [hcnt]) (by rw [h1, hids]) (h2.trans hall) h3
      (fun l hl hli => .of_eq ?_) (fun _ => ⟨?_, ?_⟩) (fun hn => absurd hi hn) h6
    · have := h.fresh l hl
      exact (h7 l hli (by omega)).trans (hne l hli)
    · rw [h4, h5]
      exact List.perm_append_comm.trans hdone
    · rw [h4]
      exact holderOk_listener hnet hstream (Nat.zero_le 1) fun _ => rfl

theorem FinWaited.streamInv (h : StreamInv s) (hi : i ∈ s.tcpIds) (hw : FinWaited s i seg k t) :
    StreamInv t := by
  cases hw with
  | no => exact h
  | @closed u l hfin hack hsent hcli hwait hnet hstream =>
    have hu : StreamInv u := h.same (sameHolders_setStream.trans hsent.sameHolders)
    have hiu : i ∈ u.tcpIds := by
      rw [(sameHolders_setStream.trans hsent.sameHolders).ids]
      exact hi
    exact hu.remove hiu rfl (holds_of_connection (hu.holder i hiu) hnet hstream) rfl le_rfl
      fun j _ hji => .of_eq (if_neg hji)

/-- A stream that goes to the connected queue of the socket that listens. -/
theorem queued_streamInv (h : StreamInv s) (hi : i ∈ s.tcpIds) (hnet : (s.tcp i).netState = .listen)
    (hcli : (s.tcp i).cliState = .accept) (hk : k ∈ (s.tcp i).streams)
    (hacc : Accepted (s.queued i k) i k t) : StreamInv t := by
  have ho := h.holder i hi
  have hqueue := ho.accepting hcli
  have hstream := ho.listen hnet
  have hself : (s.queued i k).tcp i = { s.tcp i with
      connectedQueue := (s.tcp i).connectedQueue ++ [k], streams := (s.tcp i).streams.erase k } :=
    setTcp_self _
  have hperm : (k :: (s.tcp i).streams.erase k).Perm (s.tcp i).streams :=
    (List.perm_cons_erase hk).symm
  refine Accepted.streamInv (u := s.queued i k) h hi rfl rfl rfl (fun l hl => if_neg hl) ?_ ?_
    (fun _ => ?_) ?_ hacc
  · rw [hself]
    exact hstream
  · rw [hself]
    exact .inr (by rw [hqueue]; rfl)
  · rw [hself]
    unfold TcpSocket.holds
    simp only [hqueue, hstream, List.nil_append, Option.toList_none, List.append_nil]
    exact List.perm_append_comm.trans hperm
  · rw [hself]
    unfold TcpSocket.holds
    simp only [hqueue, hstream, Option.toList_none, List.append_nil]
    exact hperm

theorem Switched.streamInv (h : StreamInv s) (hi : i ∈ s.tcpIds) (hsw : Switched s i seg k t) :
    StreamInv t := by
  cases hsw with
  | listen => exact h
  | closed => exact h
  | opened _ _ hsent => exact h.same (hsent.sameHolders.trans sameHolders_setStream)
  | connected _ _ hsent =>
    exact h.same (sameHolders_setStream.trans (hsent.sameHolders.trans sameHolders_answered))
  | accepted _ _ hnet hcli _ hk _ hacc => exact queued_streamInv h hi hnet hcli hk hacc
  | received _ _ hpush hfin =>
    exact h.same (sameHolders_setStream.trans (hpush.sameHolders.trans hfin.sameHolders))
  | finWait1 _ hw => exact hw.streamInv h hi
  | lastAck => exact h.same sameHolders_setStream

theorem Processed.streamInv (h : StreamInv s) (hi : i ∈ s.tcpIds) (hp : Processed s i seg k t) :
    StreamInv t := by
  cases hp with
  | wrongSeq => exact h
  | plain _ _ hsw => exact hsw.streamInv (h.same sameHolders_setStream) hi
  | reset _ _ ht hsw =>
    have hsame := sameHolders_setStream.trans (processRst_sameHolders ht)
    exact hsw.streamInv (h.same hsame) (hsame.ids ▸ hi)

theorem Segmented.streamInv (h : StreamInv s) (hi : i ∈ s.tcpIds) (hseg : Segmented s i seg t) :
    StreamInv t := by
  cases hseg with
  | none => exact h
  | some hsel hp =>
    refine hp.streamInv (hsel.streamInv h hi) ?_
    cases hsel <;> exact hi

theorem Packed.streamInv {eth : Nat} {p : Packet} (h : StreamInv s) (hp : Packed s eth p t) :
    StreamInv t := by
  cases hp with
  | drop => exact h
  | marked => exact h.same (sameHolders_of_eq rfl rfl rfl le_rfl)
  | arpReplied => exact h.same (sameHolders_of_eq rfl rfl rfl le_rfl)
  | arpChecked hudp htcp => exact h.same (arpChecked_sameHolders hudp htcp)
  | echoed => exact h.same (sameHolders_of_eq rfl rfl rfl le_rfl)
  | unreach hu => exact h.same (sendIcmpDestUnreach_sameHolders hu)
  | noTcp _ _ hu => exact h.same (sendIcmpDestUnreach_sameHolders hu)
  | noUdp _ hu => exact h.same (sendIcmpDestUnreach_sameHolders hu)
  | connected hfind hseg => exact hseg.streamInv h (List.mem_of_find?_eq_some hfind)
  | fallback _ hfind hseg => exact hseg.streamInv h (List.mem_of_find?_eq_some hfind)
  | datagram _ hd => exact h.same hd.sameHolders

theorem sameHolders_autoBindTcp {ifaddr : Nat} : SameHolders s (s.autoBindTcp i ifaddr) := by
  obtain ⟨f, p, hbind, -⟩ := autoBindTcp_eq s i ifaddr
  rw [hbind]
  have hset : SameHolders s (s.setTcp i fun t => { t with toSocket := f t.toSocket }) :=
    sameHolders_setTcp ⟨rfl, rfl, rfl, rfl, .inl⟩
  exact hset.trans (sameHolders_of_eq rfl rfl rfl le_rfl)

theorem sameHolders_autoBindUdp {ifaddr : Nat} : SameHolders s (s.autoBindUdp i ifaddr) := by
  obtain ⟨f, p, hbind, -⟩ := autoBindUdp_eq s i ifaddr
  rw [hbind]
  exact sameHolders_of_eq rfl rfl rfl le_rfl

theorem sameHolders_tcpBuilt {ifaddr len : Nat} {arp : List ArpRecord} {mem : Lib.Mem} :
    SameHolders s (s.tcpBuilt i k frame ifaddr arp mem len) :=
  sameHolders_autoBindTcp.trans (sameHolders_of_eq rfl rfl rfl le_rfl)

theorem sameHolders_udpBuilt {ifaddr : Nat} {arp : List ArpRecord} {mem : Lib.Mem} :
    SameHolders s (s.udpBuilt i frame ifaddr arp mem) :=
  sameHolders_autoBindUdp.trans (sameHolders_of_eq rfl rfl rfl le_rfl)

/-- An accept request that finds a stream in the connected queue of a listening socket, and no room
in the list of the sockets. -/
def AcceptsInVain (s : Net) (r : Request) : Prop :=
  s.Asks r 5 4 0 ∧ r.sock ∈ s.tcpIds ∧ (s.tcp r.sock).isOwner r.cli = true ∧
    (s.tcp r.sock).cliState = .idle ∧ (s.tcp r.sock).netState = .listen ∧
    (s.tcp r.sock).connectedQueue ≠ [] ∧ s.tcpIds.length = listCap

instance (s : Net) (r : Request) : Decidable (s.AcceptsInVain r) := by
  unfold AcceptsInVain
  infer_instance

theorem Requested.streamInv {kept : Bool} (h : StreamInv s) (hc : ¬ s.AcceptsInVain r)
    (hreq : Requested s r frame kept t) : StreamInv t := by
  cases hreq with
  | refused => exact h.same sameHolders_replied
  | newUdp => exact h.same (sameHolders_of_eq rfl rfl rfl (Nat.le_succ _))
  | @newTcp b e =>
    refine StreamInv.same (s := s.withTcp r.cli b e) ?_ sameHolders_replied
    have hnew : (s.withTcp r.cli b e).tcp (s.cnt + 1) =
        ⟨Socket.mk' r.cli b e (s.cnt + 1), .idle, .idle, [], [], 0, none⟩ := if_pos rfl
    have hfresh : s.cnt + 1 ∉ s.tcpIds := fun hm => absurd (h.fresh _ hm) (by omega)
    refine h.create (i := s.cnt + 1) (j := s.cnt + 1) rfl rfl rfl rfl
      (fun l hl hli => .of_eq (if_neg hli)) (fun hm => absurd hm hfresh) (fun _ => ?_) ?_
    · rw [hnew]
      rfl
    · rw [hnew]
      exact ⟨fun _ => rfl, nofun, nofun, Nat.zero_le 1, nofun⟩
  | closeUdp => exact h.same (sameHolders_of_eq rfl rfl rfl le_rfl)
  | @closeListener i _ hi _ _ _ hnet hempty =>
    have hholds : (s.tcp i).holds = [] := by
      unfold TcpSocket.holds
      rw [hempty.1, hempty.2, (h.holder i hi).listen hnet]
      rfl
    exact h.close hi rfl hholds rfl le_rfl fun j _ hji => .of_eq (if_neg hji)
  | @closeClosed i k _ hi _ _ _ hnet hk =>
    exact h.remove hi rfl (holds_of_connection (h.holder i hi) hnet hk) rfl le_rfl
      fun j _ hji => .of_eq (if_neg hji)
  | @closing i _ _ _ _ _ _ _ _ _ _ hsent =>
    have hset : SameHolders s (s.pending i r.cli .close) :=
      sameHolders_setTcp ⟨rfl, rfl, rfl, rfl, nofun⟩
    exact h.same (hset.trans (sameHolders_setStream.trans hsent.sameHolders))
  | bindUdp => exact h.same (sameHolders_of_eq rfl rfl rfl le_rfl)
  | bindTcp =>
    exact h.same (.trans (sameHolders_setTcp ⟨rfl, rfl, rfl, rfl, .inl⟩) sameHolders_replied)
  | @listening i _ hi hcli hnet =>
    have ho := h.holder i hi
    refine StreamInv.same ?_ sameHolders_replied
    have hholds := ho.idle hnet
    unfold TcpSocket.holds at hholds
    obtain ⟨h1, h2⟩ := List.append_eq_nil_iff.mp hholds
    have hstream : (s.tcp i).stream = none := by
      cases hs : (s.tcp i).stream with
      | none => rfl
      | some k => rw [hs] at h2; cases h2
    refine h.set hi rfl rfl le_rfl (fun j _ hji => .of_eq (if_neg hji)) ?_ ?_
    · rw [setTcp_self]
      rfl
    · rw [setTcp_self]
      exact holderOk_listener rfl hstream ho.short ho.accepting
  | accepting _ _ _ _ _ _ hqueue =>
    exact h.same (sameHolders_setTcp ⟨rfl, rfl, rfl, rfl, fun _ => .inr hqueue⟩)
  | @acceptedQueued i k q _ hop hi hsock hmay hcli hnet hbound hqueue hacc =>
    have ho := h.holder i hi
    have hroom : s.tcpIds.length ≠ listCap := fun hfull =>
      hc ⟨hop, hsock ▸ hi, hsock ▸ hmay, hsock ▸ hcli, hsock ▸ hnet,
        hsock ▸ by rw [hqueue]; exact List.cons_ne_nil _ _, hfull⟩
    have hq : q = [] := by
      have := ho.short
      rw [hqueue, List.length_cons] at this
      exact List.length_eq_zero_iff.mp (by omega)
    have hself : ((s.pending i r.cli .accept).setTcp i fun t =>
        { t with connectedQueue := t.connectedQueue.tail }).tcp i =
        { s.tcp i with cliState := .accept, client := r.cli, connectedQueue := [] } := by
      rw [setTcp_self]
      unfold pending
      rw [setTcp_self]
      dsimp only
      rw [hqueue, hq]
      rfl
    refine Accepted.streamInv (u := (s.pending i r.cli .accept).setTcp i fun t =>
      { t with connectedQueue := t.connectedQueue.tail }) h hi rfl rfl rfl (fun l hl => ?_) ?_ ?_
      (fun hfull => absurd hfull hroom) ?_ hacc
    · exact (setTcp_of_ne _ hl).trans (setTcp_of_ne _ hl)
    · rw [hself]
      exact ho.listen hnet
    · rw [hself]
      exact .inl rfl
    · rw [hself]
      unfold TcpSocket.holds
      rw [hqueue, hq]
      simp only [List.append_nil, List.append_assoc, List.singleton_append]
      exact List.perm_middle.symm
  | @connecting i k l f _ _ hi _ hcli hnet hstream hiface hpush hsent =>
    have ho := h.holder i hi
    have hb : SameHolders s (s.autoBindTcp i f.addr) := sameHolders_autoBindTcp
    have hholds := ho.idle hnet
    have hself : ((s.connecting i k l r.cli f.addr (r.sinAddr 5) (r.sinPort 5)).tcp i) =
        { (s.autoBindTcp i f.addr).tcp i with
          netState := .connection, cliState := .connect, client := r.cli, stream := some k } := by
      unfold Net.connecting
      rw [setTcp_self]
      dsimp only
      rw [setTcp_self]
    refine StreamInv.same (s := s.connecting i k l r.cli f.addr (r.sinAddr 5) (r.sinPort 5)) ?_
      hsent.sameHolders
    have hs := (hb.tcp i).streams
    have hq := (hb.tcp i).queue
    unfold TcpSocket.holds at hholds
    obtain ⟨h1, h2⟩ := List.append_eq_nil_iff.mp hholds
    obtain ⟨h1, h3⟩ := List.append_eq_nil_iff.mp h1
    refine h.alloc hi hb.ids hpush rfl hb.cnt (fun j _ hji => ?_) ?_ ?_
    · have hj : (s.connecting i k l r.cli f.addr (r.sinAddr 5) (r.sinPort 5)).tcp j =
          (s.autoBindTcp i f.addr).tcp j := by
        unfold Net.connecting
        rw [setTcp_of_ne _ hji]
        exact if_neg hji
      exact hj ▸ hb.tcp j
    · rw [hself]
      unfold TcpSocket.holds
      dsimp only
      rw [hs, hq, h1, h3, h2]
      rfl
    · rw [hself]
      exact holderOk_connection rfl (hs.trans h1) (hq.trans h3)
  | sendTcpBusy => exact h.same (sameHolders_tcpBuilt.trans sameHolders_replied)
  | sendTcpWait =>
    refine h.same (sameHolders_tcpBuilt.trans (.trans (sameHolders_setTcp ?_) sameHolders_emitted))
    exact ⟨rfl, rfl, rfl, rfl, nofun⟩
  | sendTcpNow =>
    exact h.same (sameHolders_tcpBuilt.trans (sameHolders_sendToEthDrv.trans sameHolders_replied))
  | sendUdpBusy => exact h.same (sameHolders_udpBuilt.trans sameHolders_replied)
  | sendUdpWait =>
    exact h.same (sameHolders_udpBuilt.trans (sameHolders_setUdp.trans sameHolders_emitted))
  | sendUdpNow =>
    exact h.same (sameHolders_udpBuilt.trans (sameHolders_sendToEthDrv.trans sameHolders_replied))
  | recvTcpData => exact h.same sameHolders_delivered
  | recvTcpWait => exact h.same (sameHolders_setTcp ⟨rfl, rfl, rfl, rfl, nofun⟩)
  | recvTcpEnd => exact h.same sameHolders_replied
  | recvUdpData => exact h.same (sameHolders_of_eq rfl rfl rfl le_rfl)
  | recvUdpWait => exact h.same (sameHolders_of_eq rfl rfl rfl le_rfl)

/-! ## Runs -/

theorem streamInv_init {key0 key1 : Nat} : StreamInv (Net.init key0 key1) where
  wf := NodeList.wf_init
  ids := List.nodup_nil
  fresh := fun _ hi => (List.not_mem_nil hi).elim
  perm := .refl _
  holder := fun _ hi => (List.not_mem_nil hi).elim

end Net

/-- The event is an accept request that takes a stream out of a connected queue in vain. -/
def Net.LosesStream (s : Net) : Event → Prop
  | .request r => s.Takes r ∧ s.AcceptsInVain r
  | _ => False

instance (s : Net) : DecidablePred s.LosesStream
  | .request r => inferInstanceAs (Decidable (s.Takes r ∧ s.AcceptsInVain r))
  | .ethGet | .frame _ | .clientGet | .wait _ => isFalse id

/-- One round keeps the invariant, if it loses no stream. -/
theorem Stepped.streamInv {s s' : Net} {e : Event} (h : s.StreamInv) (hc : ¬ s.LosesStream e)
    (hstep : Stepped s e s') : s'.StreamInv := by
  have hrecv : ∀ {r : Request} {frame : Nat}, Net.SameHolders s (s.receiveRequest r frame) :=
    Net.sameHolders_of_eq rfl rfl rfl le_rfl
  have hvain : ∀ {r : Request} {frame : Nat}, e = .request r → s.Takes r →
      ¬ (s.receiveRequest r frame).AcceptsInVain r := by
    rintro r frame rfl htakes ⟨⟨h1, h2, h3, h4, h5⟩, h6⟩
    exact hc ⟨htakes, ⟨h1, h2, h3, h4, h5⟩, h6⟩
  cases hstep with
  | idle => exact h
  | ethGot => exact h.same (Net.sameHolders_of_eq rfl rfl rfl le_rfl)
  | cliGot => exact h.same (Net.sameHolders_of_eq rfl rfl rfl le_rfl)
  | @framed bytes eth p arp _ heth hlen hp hpacked =>
    have hr : Net.SameHolders s (s.received eth bytes arp) :=
      Net.sameHolders_of_eq rfl rfl rfl le_rfl
    exact hpacked.streamInv (h.same hr)
  | requested _ htakes hreq => exact hreq.streamInv (h.same hrecv) (hvain rfl htakes)
  | kept _ htakes hreq =>
    exact (hreq.streamInv (h.same hrecv) (hvain rfl htakes)).same
      (Net.sameHolders_of_eq rfl rfl rfl le_rfl)
  | waited => exact h.same (Net.sameHolders_of_eq rfl rfl rfl le_rfl)

/-- **Every allocated stream is held by one holder, in every run in which no accept request takes a
stream out of a connected queue while the list of the sockets is full.** -/
theorem run_streamsOwned {key0 key1 : Nat} {es : List Event} {s : Net}
    (hrun : run (Net.init key0 key1) es = .ok s)
    (hmeets : Meets step (fun s e => ¬ s.LosesStream e) (Net.init key0 key1) es) :
    s.StreamsOwned :=
  (runAll_invariant (I := Net.StreamInv) (fun _ _ _ hi hc hs => (step_cases hs).streamInv hi hc)
    Net.streamInv_init hmeets hrun).owned

/-! ## Two runs -/

/-- A connection that is accepted: its stream goes through all three kinds of holders. -/
def acceptRun : List Event :=
  [.clientGet, .ethGet, tcpSocketRequest alice, bindRequest alice 1 80, listenRequest alice 1,
    acceptRequest alice 1, segmentFrame 5000 7 flagSyn [], segmentFrame 5000 8 flagAck []]

theorem acceptRun_streamsOwned :
    ∃ s, run (Net.init 0 0) acceptRun = .ok s ∧ s.references = [0] ∧ s.StreamsOwned := by
  have hok : okAnd (run (Net.init 0 0) acceptRun) (fun s => s.references == [0]) = true := by
    decide +kernel
  obtain ⟨s, hrun, hrefs⟩ := okAnd_iff.mp hok
  have hmeets : Meets step (fun s e => ¬ s.LosesStream e) (Net.init 0 0) acceptRun := by
    decide +kernel
  exact ⟨s, hrun, by simpa using hrefs, run_streamsOwned hrun hmeets⟩

/-- The list of the sockets is full when the connection comes, so the stream stays in the connected
queue; the second accept request takes it out, and there is still no room. -/
def lostStreamRun : List Event :=
  [.clientGet, .ethGet, tcpSocketRequest alice, bindRequest alice 1 80, listenRequest alice 1] ++
    List.replicate 7 (tcpSocketRequest alice) ++
    [acceptRequest alice 1, segmentFrame 5000 7 flagSyn [], segmentFrame 5000 8 flagAck [],
      acceptRequest alice 1]

/-- A stream that is allocated and that no socket holds. -/
theorem lostStreamRun_unowned :
    ∃ s, run (Net.init 0 0) lostStreamRun = .ok s ∧ ¬ s.StreamsOwned := by
  have hok : okAnd (run (Net.init 0 0) lostStreamRun)
      (fun s => s.allstreams.nodes == [0] && s.references == []) = true := by
    decide +kernel
  obtain ⟨s, hrun, hs⟩ := okAnd_iff.mp hok
  obtain ⟨hnodes, hrefs⟩ := Bool.and_eq_true_iff.mp hs
  refine ⟨s, hrun, fun h => ?_⟩
  have hone := h.once 0 (by rw [beq_iff_eq.mp hnodes]; exact List.mem_singleton_self 0)
  rw [beq_iff_eq.mp hrefs] at hone
  cases hone

end Tcpip
end Wrmos
