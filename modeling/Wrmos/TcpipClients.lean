import Wrmos.TcpipSteps
import Wrmos.Lib.Holders

/-!
# The TCP/IP server: who waits for a reply

A client that cannot be answered at once is recorded in its socket: a TCP socket has one place, which
counts while the client state is neither idle nor closed, a UDP socket has two, one for a send that
waits for an ARP reply and one for a receive.  `Net.records` has all of them.

`ClientInv` says that the threads that wait for a reply are the recorded ones, each recorded once and
in the socket that its request names, and the ones of a list `p`.  While a request is processed its
sender is in `p`; what is there between two rounds nobody will answer.  There is one rule for each kind of
write to the sockets: a reply, a change of one socket, a socket that goes and a new one.

The invariant counts as well: of every thread, the requests that were taken are the replies it got, and
one more while it waits.
-/

namespace Wrmos
namespace Tcpip

open Lib

/-- The client that a TCP socket has to answer. -/
def TcpSocket.records (t : TcpSocket) : List Nat :=
  if t.cliState = .idle ∨ t.cliState = .closed then [] else [t.client]

/-- The clients that a UDP socket has to answer. -/
def UdpSocket.records (u : UdpSocket) : List Nat :=
  (if u.cliState = .send then [u.client] else []) ++ if u.recvClient = 0 then [] else [u.recvClient]

/-- Whether something that left the server is a reply to a thread. -/
def Out.answers (c : Nat) : Out → Bool
  | .frame _ => false
  | .reply cli _ _ _ => cli == c

/-- How many replies a thread has got. -/
def repliesTo (c : Nat) (out : List Out) : Nat := out.countP (·.answers c)

/-- What the clients have asked for: of every thread, how many of its requests were taken, and the
last of them. -/
structure Asked where
  count : Nat → Nat
  last : Nat → Option Request

/-- A request was taken. -/
def Asked.take (g : Asked) (r : Request) : Asked where
  count := fun c => if c = r.cli then g.count c + 1 else g.count c
  last := fun c => if c = r.cli then some r else g.last c

/-- The last request of a thread names the socket `i` and asks for the operation `op`. -/
def Asked.For (g : Asked) (c i op : Nat) : Prop := ∃ r, g.last c = some r ∧ r.sock = i ∧ r.mr 3 = op

/-- The request that a client state belongs to. -/
def TcpCli.op : TcpCli → Nat
  | .idle | .closed => 0
  | .close => 2
  | .accept => 5
  | .connect => 6
  | .send => 7
  | .recv => 8

/-- The client a TCP socket has recorded asked this socket for the operation it is in. -/
structure TcpSocket.ClientOk (t : TcpSocket) (g : Asked) (i : Nat) : Prop where
  idle : t.cliState = .idle → t.client = 0
  asked : ∀ c ∈ t.records, g.For c i t.cliState.op

/-- The clients a UDP socket has recorded asked this socket for what they wait for. -/
structure UdpSocket.ClientOk (u : UdpSocket) (g : Asked) (i : Nat) : Prop where
  recv : u.cliState = .recv → u.recvClient ≠ 0
  sending : u.cliState = .send → g.For u.client i 7
  receiving : u.recvClient ≠ 0 → g.For u.recvClient i 8

namespace Net

/-- The clients that are recorded in the sockets. -/
def records (s : Net) : List Nat :=
  heldBy s.tcpIds (fun i => (s.tcp i).records) ++ heldBy s.udpIds fun i => (s.udp i).records

/-- The identifiers of the sockets: no two are the same, and the next one is new. -/
structure IdsOk (s : Net) : Prop where
  tcp : s.tcpIds.Nodup
  udp : s.udpIds.Nodup
  tcpFresh : ∀ i ∈ s.tcpIds, i ≤ s.cnt
  udpFresh : ∀ i ∈ s.udpIds, i ≤ s.cnt
  apart : ∀ i ∈ s.tcpIds, i ∉ s.udpIds

/-- The invariant; `p` has the waiting threads that are not recorded. -/
structure ClientInv (s : Net) (g : Asked) (p : List Nat) : Prop where
  ids : IdsOk s
  nodup : (p ++ s.records).Nodup
  waits : ∀ c, s.blocked c = true ↔ c ∈ p ++ s.records
  nonNil : 0 ∉ p ++ s.records
  tcp : ∀ i ∈ s.tcpIds, (s.tcp i).ClientOk g i
  udp : ∀ i ∈ s.udpIds, (s.udp i).ClientOk g i
  count : ∀ c, g.count c = repliesTo c s.out + if s.blocked c then 1 else 0

section Ids

variable {s s' : Net} {i : Nat}

theorem IdsOk.same (h : IdsOk s) (htcp : s'.tcpIds = s.tcpIds) (hudp : s'.udpIds = s.udpIds)
    (hcnt : s.cnt ≤ s'.cnt) : IdsOk s' where
  tcp := htcp ▸ h.tcp
  udp := hudp ▸ h.udp
  tcpFresh := fun i hi => (h.tcpFresh i (htcp ▸ hi)).trans hcnt
  udpFresh := fun i hi => (h.udpFresh i (hudp ▸ hi)).trans hcnt
  apart := fun i hi => hudp ▸ h.apart i (htcp ▸ hi)

theorem IdsOk.eraseTcp (h : IdsOk s) (htcp : s'.tcpIds = s.tcpIds.erase i)
    (hudp : s'.udpIds = s.udpIds) (hcnt : s.cnt ≤ s'.cnt) : IdsOk s' where
  tcp := htcp ▸ h.tcp.erase i
  udp := hudp ▸ h.udp
  tcpFresh := fun j hj => (h.tcpFresh j (List.mem_of_mem_erase (htcp ▸ hj))).trans hcnt
  udpFresh := fun j hj => (h.udpFresh j (hudp ▸ hj)).trans hcnt
  apart := fun j hj => hudp ▸ h.apart j (List.mem_of_mem_erase (htcp ▸ hj))

theorem IdsOk.eraseUdp (h : IdsOk s) (htcp : s'.tcpIds = s.tcpIds)
    (hudp : s'.udpIds = s.udpIds.erase i) (hcnt : s.cnt ≤ s'.cnt) : IdsOk s' where
  tcp := htcp ▸ h.tcp
  udp := hudp ▸ h.udp.erase i
  tcpFresh := fun j hj => (h.tcpFresh j (htcp ▸ hj)).trans hcnt
  udpFresh := fun j hj => (h.udpFresh j (List.mem_of_mem_erase (hudp ▸ hj))).trans hcnt
  apart := fun j hj hu => h.apart j (htcp ▸ hj) (List.mem_of_mem_erase (hudp ▸ hu))

theorem nodup_concat {ids : List Nat} {n : Nat} (h : ids.Nodup) (hle : ∀ i ∈ ids, i ≤ n) :
    (ids ++ [n + 1]).Nodup :=
  List.nodup_append.mpr ⟨h, List.nodup_singleton _, fun a ha b hb hab => by
    have := hle a ha
    have := List.mem_singleton.mp hb
    omega⟩

theorem le_of_concat {ids : List Nat} {n : Nat} (hle : ∀ i ∈ ids, i ≤ n) :
    ∀ i ∈ ids ++ [n + 1], i ≤ n + 1 := fun i hi => by
  rcases List.mem_append.mp hi with hi | hi
  · exact (hle i hi).trans (Nat.le_succ n)
  · exact (List.mem_singleton.mp hi).le

theorem IdsOk.newTcp (h : IdsOk s) (htcp : s'.tcpIds = s.tcpIds ++ [s.cnt + 1])
    (hudp : s'.udpIds = s.udpIds) (hcnt : s'.cnt = s.cnt + 1) : IdsOk s' where
  tcp := htcp ▸ nodup_concat h.tcp h.tcpFresh
  udp := hudp ▸ h.udp
  tcpFresh := by
    rw [htcp, hcnt]
    exact le_of_concat h.tcpFresh
  udpFresh := by
    rw [hudp, hcnt]
    exact fun i hi => (h.udpFresh i hi).trans (Nat.le_succ _)
  apart := by
    rw [htcp, hudp]
    intro i hi hu
    rcases List.mem_append.mp hi with hi | hi
    · exact h.apart i hi hu
    · have := h.udpFresh i hu
      have := List.mem_singleton.mp hi
      omega

theorem IdsOk.newUdp (h : IdsOk s) (htcp : s'.tcpIds = s.tcpIds)
    (hudp : s'.udpIds = s.udpIds ++ [s.cnt + 1]) (hcnt : s'.cnt = s.cnt + 1) : IdsOk s' where
  tcp := htcp ▸ h.tcp
  udp := hudp ▸ nodup_concat h.udp h.udpFresh
  tcpFresh := by
    rw [htcp, hcnt]
    exact fun i hi => (h.tcpFresh i hi).trans (Nat.le_succ _)
  udpFresh := by
    rw [hudp, hcnt]
    exact le_of_concat h.udpFresh
  apart := by
    rw [htcp, hudp]
    intro i hi hu
    rcases List.mem_append.mp hu with hu | hu
    · exact h.apart i hi hu
    · have := h.tcpFresh i hi
      have := List.mem_singleton.mp hu
      omega

end Ids

/-! ## Changes of the records -/

section Rules

variable {s s' t : Net} {g : Asked} {p p' done : List Nat} {i j k c : Nat}

theorem repliesTo_concat {out : List Out} {o : Out} :
    repliesTo c (out ++ [o]) = repliesTo c out + if o.answers c then 1 else 0 := by
  unfold repliesTo
  rw [List.countP_append, List.countP_singleton]

theorem repliesTo_reply {out : List Out} {cli ecode : Nat} {words : List Nat} {bf : Option Buf} :
    repliesTo c (out ++ [.reply cli ecode words bf]) = repliesTo c out + [cli].count c := by
  rw [repliesTo_concat, List.count_singleton]
  rfl

theorem repliesTo_frame {out : List Out} {f : TxFrame} :
    repliesTo c (out ++ [.frame f]) = repliesTo c out := repliesTo_concat

/-- The rule for a reply to a thread that waits and is not recorded. -/
theorem ClientInv.replied {ecode : Nat} {words : List Nat} {bf : Option Buf}
    (h : ClientInv s g (c :: p)) : ClientInv (s.replied c ecode words bf) g p := by
  obtain ⟨hc, hnodup⟩ := List.nodup_cons.mp h.nodup
  have hwait : s.blocked c = true := (h.waits c).mpr List.mem_cons_self
  refine ⟨h.ids.same rfl rfl le_rfl, hnodup, fun d => ?_,
    fun h0 => h.nonNil (List.mem_cons_of_mem c h0), h.tcp, h.udp, fun d => ?_⟩
  · by_cases hd : d = c
    · subst hd
      have hb : (s.replied d ecode words bf).blocked d = false := if_pos rfl
      rw [hb]
      exact ⟨nofun, fun hr => absurd hr hc⟩
    · have hb : (s.replied c ecode words bf).blocked d = s.blocked d := if_neg hd
      rw [hb, h.waits d]
      exact List.mem_cons.trans (or_iff_right hd)
  · have hout : repliesTo d (s.replied c ecode words bf).out = _ := repliesTo_reply
    rw [hout, h.count d]
    by_cases hd : d = c
    · subst hd
      have hb : (s.replied d ecode words bf).blocked d = false := if_pos rfl
      rw [hb, hwait, List.count_singleton_self]
      rfl
    · have hb : (s.replied c ecode words bf).blocked d = s.blocked d := if_neg hd
      rw [hb, List.count_eq_zero_of_not_mem fun hm => hd (List.mem_singleton.mp hm), Nat.add_zero]

/-- The rule for a change without a reply: who was recorded, or elsewhere among the waiting threads,
still is. -/
theorem ClientInv.moved (h : ClientInv s g p) (hperm : (p ++ s.records).Perm (p' ++ s'.records))
    (hblocked : s'.blocked = s.blocked) (hout : s'.out = s.out) (hids : IdsOk s')
    (htcp : ∀ i ∈ s'.tcpIds, (s'.tcp i).ClientOk g i) (hudp : ∀ i ∈ s'.udpIds, (s'.udp i).ClientOk g i) :
    ClientInv s' g p' where
  ids := hids
  nodup := hperm.nodup_iff.mp h.nodup
  waits := fun c => by
    rw [hblocked, h.waits c]
    exact hperm.mem_iff
  nonNil := fun h0 => h.nonNil (hperm.mem_iff.mpr h0)
  tcp := htcp
  udp := hudp
  count := fun c => by
    rw [hout, hblocked]
    exact h.count c

/-- The fields of the sockets that say who waits. -/
structure SameTcp (t t' : TcpSocket) : Prop where
  cliState : t'.cliState = t.cliState
  client : t'.client = t.client

structure SameUdp (u u' : UdpSocket) : Prop where
  cliState : u'.cliState = u.cliState
  client : u'.client = u.client
  recvClient : u'.recvClient = u.recvClient

theorem SameTcp.records {t t' : TcpSocket} (h : SameTcp t t') : t'.records = t.records := by
  unfold TcpSocket.records
  rw [h.cliState, h.client]

theorem SameUdp.records {u u' : UdpSocket} (h : SameUdp u u') : u'.records = u.records := by
  unfold UdpSocket.records
  rw [h.cliState, h.client, h.recvClient]

/-- Nothing about the clients has changed. -/
structure SameClients (s s' : Net) : Prop where
  tcpIds : s'.tcpIds = s.tcpIds
  udpIds : s'.udpIds = s.udpIds
  cnt : s.cnt ≤ s'.cnt
  blocked : s'.blocked = s.blocked
  out : ∀ c, repliesTo c s'.out = repliesTo c s.out
  tcp : ∀ i, SameTcp (s.tcp i) (s'.tcp i)
  udp : ∀ i, SameUdp (s.udp i) (s'.udp i)

theorem SameClients.refl (s : Net) : SameClients s s :=
  ⟨rfl, rfl, le_rfl, rfl, fun _ => rfl, fun _ => ⟨rfl, rfl⟩, fun _ => ⟨rfl, rfl, rfl⟩⟩

theorem SameClients.trans (h : SameClients s s') (h' : SameClients s' t) : SameClients s t where
  tcpIds := h'.tcpIds.trans h.tcpIds
  udpIds := h'.udpIds.trans h.udpIds
  cnt := h.cnt.trans h'.cnt
  blocked := h'.blocked.trans h.blocked
  out := fun c => (h'.out c).trans (h.out c)
  tcp := fun i => ⟨(h'.tcp i).cliState.trans (h.tcp i).cliState, (h'.tcp i).client.trans (h.tcp i).client⟩
  udp := fun i => ⟨(h'.udp i).cliState.trans (h.udp i).cliState,
    (h'.udp i).client.trans (h.udp i).client, (h'.udp i).recvClient.trans (h.udp i).recvClient⟩

theorem SameClients.records (h : SameClients s s') : s'.records = s.records := by
  unfold Net.records
  rw [h.tcpIds, h.udpIds, heldBy_congr fun i _ => (h.tcp i).records,
    heldBy_congr fun i _ => (h.udp i).records]

theorem SameTcp.ok {t t' : TcpSocket} (h : SameTcp t t') (ht : t.ClientOk g i) : t'.ClientOk g i where
  idle := fun hc => h.client.trans (ht.idle (h.cliState ▸ hc))
  asked := by
    rw [h.records, h.cliState]
    exact ht.asked

theorem SameUdp.ok {u u' : UdpSocket} (h : SameUdp u u') (hu : u.ClientOk g i) : u'.ClientOk g i where
  recv := by
    rw [h.cliState, h.recvClient]
    exact hu.recv
  sending := by
    rw [h.cliState, h.client]
    exact hu.sending
  receiving := by
    rw [h.recvClient]
    exact hu.receiving

theorem ClientInv.same (h : ClientInv s g p) (hs : SameClients s s') : ClientInv s' g p where
  ids := h.ids.same hs.tcpIds hs.udpIds hs.cnt
  nodup := hs.records ▸ h.nodup
  waits := fun c => by
    rw [hs.blocked, hs.records]
    exact h.waits c
  nonNil := hs.records ▸ h.nonNil
  tcp := fun i hi => (hs.tcp i).ok (h.tcp i (hs.tcpIds ▸ hi))
  udp := fun i hi => (hs.udp i).ok (h.udp i (hs.udpIds ▸ hi))
  count := fun c => by
    rw [hs.out c, hs.blocked]
    exact h.count c

/-- The rule for a change of what is not about the clients. -/
theorem sameClients_of_eq (htcp : s'.tcp = s.tcp) (hudp : s'.udp = s.udp)
    (htids : s'.tcpIds = s.tcpIds) (huids : s'.udpIds = s.udpIds) (hcnt : s.cnt ≤ s'.cnt)
    (hblocked : s'.blocked = s.blocked) (hout : ∀ c, repliesTo c s'.out = repliesTo c s.out) :
    SameClients s s' :=
  ⟨htids, huids, hcnt, hblocked, hout, fun _ => htcp ▸ ⟨rfl, rfl⟩, fun _ => hudp ▸ ⟨rfl, rfl, rfl⟩⟩

theorem sameClients_setTcp {f : TcpSocket → TcpSocket} (h : SameTcp (s.tcp i) (f (s.tcp i))) :
    SameClients s (s.setTcp i f) := by
  refine ⟨rfl, rfl, le_rfl, rfl, fun _ => rfl, fun j => ?_, fun _ => ⟨rfl, rfl, rfl⟩⟩
  by_cases hj : j = i
  · subst hj
    rw [setTcp_self]
    exact h
  · rw [setTcp_of_ne f hj]
    exact ⟨rfl, rfl⟩

theorem sameClients_setUdp {f : UdpSocket → UdpSocket} (h : SameUdp (s.udp i) (f (s.udp i))) :
    SameClients s (s.setUdp i f) := by
  refine ⟨rfl, rfl, le_rfl, rfl, fun _ => rfl, fun _ => ⟨rfl, rfl⟩, fun j => ?_⟩
  by_cases hj : j = i
  · subst hj
    rw [setUdp_self]
    exact h
  · rw [setUdp_of_ne f hj]
    exact ⟨rfl, rfl, rfl⟩

/-- The rule for a change of one TCP socket. -/
theorem ClientInv.setTcp {f : TcpSocket → TcpSocket} (h : ClientInv s g p) (hi : i ∈ s.tcpIds)
    (hperm : (p ++ (s.tcp i).records).Perm (p' ++ (f (s.tcp i)).records))
    (hok : (f (s.tcp i)).ClientOk g i) : ClientInv (s.setTcp i f) g p' := by
  refine h.moved ?_ rfl rfl (h.ids.same rfl rfl le_rfl) (fun j hj => ?_) h.udp
  · have hold := heldBy_perm (f := fun j => (s.tcp j).records) hi
    have hnew : (heldBy s.tcpIds fun j => ((s.setTcp i f).tcp j).records).Perm
        (((s.setTcp i f).tcp i).records ++ heldBy (s.tcpIds.erase i) fun j => (s.tcp j).records) :=
      heldBy_update h.ids.tcp hi fun j _ hj => by rw [setTcp_of_ne f hj]
    rw [setTcp_self] at hnew
    unfold Net.records
    rw [← List.append_assoc, ← List.append_assoc]
    refine List.Perm.append_right _ ((hold.append_left p).trans (.trans ?_ (hnew.append_left p').symm))
    rw [← List.append_assoc, ← List.append_assoc]
    exact hperm.append_right _
  · by_cases hji : j = i
    · rw [hji, setTcp_self]
      exact hok
    · rw [setTcp_of_ne f hji]
      exact h.tcp j hj

/-- The rule for a change of one UDP socket. -/
theorem ClientInv.setUdp {f : UdpSocket → UdpSocket} (h : ClientInv s g p) (hi : i ∈ s.udpIds)
    (hperm : (p ++ (s.udp i).records).Perm (p' ++ (f (s.udp i)).records))
    (hok : (f (s.udp i)).ClientOk g i) : ClientInv (s.setUdp i f) g p' := by
  refine h.moved ?_ rfl rfl (h.ids.same rfl rfl le_rfl) h.tcp fun j hj => ?_
  · have hold := heldBy_perm (f := fun j => (s.udp j).records) hi
    have hnew : (heldBy s.udpIds fun j => ((s.setUdp i f).udp j).records).Perm
        (((s.setUdp i f).udp i).records ++ heldBy (s.udpIds.erase i) fun j => (s.udp j).records) :=
      heldBy_update h.ids.udp hi fun j _ hj => by rw [setUdp_of_ne f hj]
    rw [setUdp_self] at hnew
    unfold Net.records
    have hsplit : ∀ q a b c : List Nat, (q ++ (a ++ (b ++ c))).Perm ((q ++ b) ++ (a ++ c)) :=
      fun q a b c => by
        rw [List.append_assoc]
        refine List.Perm.append_left q ?_
        rw [← List.append_assoc, ← List.append_assoc]
        exact List.perm_append_comm.append_right c
    refine ((hold.append_left _).append_left p).trans (.trans ?_ ((hnew.append_left _).append_left p').symm)
    exact (hsplit _ _ _ _).trans ((hperm.append_right _).trans (hsplit _ _ _ _).symm)
  · by_cases hji : j = i
    · rw [hji, setUdp_self]
      exact hok
    · rw [setUdp_of_ne f hji]
      exact h.udp j hj

/-- The rule for a TCP socket that goes; no client is recorded there. -/
theorem ClientInv.eraseTcp (h : ClientInv s g p) (hi : i ∈ s.tcpIds) (hnone : (s.tcp i).records = [])
    {l : NodeList Unit} : ClientInv { s with allstreams := l, tcpIds := s.tcpIds.erase i } g p := by
  refine h.moved ?_ rfl rfl (h.ids.eraseTcp rfl rfl le_rfl)
    (fun j hj => h.tcp j (List.mem_of_mem_erase hj)) h.udp
  have hold := heldBy_perm (f := fun j => (s.tcp j).records) hi
  rw [hnone, List.nil_append] at hold
  exact (hold.append_right _).append_left p

/-- The rule for a UDP socket that goes; nobody will answer its clients. -/
theorem ClientInv.eraseUdp (h : ClientInv s g p) (hi : i ∈ s.udpIds) :
    ClientInv { s with udpIds := s.udpIds.erase i } g ((s.udp i).records ++ p) := by
  refine h.moved ?_ rfl rfl (h.ids.eraseUdp rfl rfl le_rfl) h.tcp
    fun j hj => h.udp j (List.mem_of_mem_erase hj)
  have hold := heldBy_perm (f := fun j => (s.udp j).records) hi
  unfold Net.records
  refine ((hold.append_left _).append_left p).trans ?_
  refine (List.perm_append_comm_assoc _ _ _).append_left p |>.trans ?_
  rw [List.append_assoc]
  exact List.perm_append_comm_assoc _ _ _

/-- The rule for a new TCP socket; no client is recorded there. -/
theorem ClientInv.newTcp (h : ClientInv s g p) (hids : s'.tcpIds = s.tcpIds ++ [s.cnt + 1])
    (hudpIds : s'.udpIds = s.udpIds) (hcnt : s'.cnt = s.cnt + 1) (hblocked : s'.blocked = s.blocked)
    (hout : s'.out = s.out) (hudp : s'.udp = s.udp) (hold : ∀ j ∈ s.tcpIds, s'.tcp j = s.tcp j)
    (hidle : (s'.tcp (s.cnt + 1)).cliState = .idle) (hnil : (s'.tcp (s.cnt + 1)).client = 0) :
    ClientInv s' g p := by
  have hnone : (s'.tcp (s.cnt + 1)).records = [] := if_pos (.inl hidle)
  have hsame : heldBy s.tcpIds (fun j => (s'.tcp j).records) = heldBy s.tcpIds fun j => (s.tcp j).records :=
    heldBy_congr fun j hj => congrArg TcpSocket.records (hold j hj)
  refine h.moved ?_ hblocked hout (h.ids.newTcp hids hudpIds hcnt) (fun j hj => ?_) fun j hj => ?_
  · unfold Net.records
    rw [hids, hudpIds, hudp, heldBy_concat, hnone, List.append_nil, hsame]
  · rw [hids] at hj
    rcases List.mem_append.mp hj with hj | hj
    · rw [hold j hj]
      exact h.tcp j hj
    · rw [List.mem_singleton.mp hj]
      refine ⟨fun _ => hnil, fun c hc => ?_⟩
      rw [hnone] at hc
      exact absurd hc List.not_mem_nil
  · rw [hudp]
    exact h.udp j (hudpIds ▸ hj)

/-- The rule for a new UDP socket. -/
theorem ClientInv.newUdp (h : ClientInv s g p) (hids : s'.udpIds = s.udpIds ++ [s.cnt + 1])
    (htcpIds : s'.tcpIds = s.tcpIds) (hcnt : s'.cnt = s.cnt + 1) (hblocked : s'.blocked = s.blocked)
    (hout : s'.out = s.out) (htcp : s'.tcp = s.tcp) (hold : ∀ j ∈ s.udpIds, s'.udp j = s.udp j)
    (hidle : (s'.udp (s.cnt + 1)).cliState = .idle) (hnil : (s'.udp (s.cnt + 1)).recvClient = 0) :
    ClientInv s' g p := by
  have hnone : (s'.udp (s.cnt + 1)).records = [] := by
    unfold UdpSocket.records
    rw [hidle, hnil]
    rfl
  have hsame : heldBy s.udpIds (fun j => (s'.udp j).records) = heldBy s.udpIds fun j => (s.udp j).records :=
    heldBy_congr fun j hj => congrArg UdpSocket.records (hold j hj)
  refine h.moved ?_ hblocked hout (h.ids.newUdp htcpIds hids hcnt) (fun j hj => ?_) fun j hj => ?_
  · unfold Net.records
    rw [hids, htcpIds, htcp, heldBy_concat, hnone, List.append_nil, hsame]
  · rw [htcp]
    exact h.tcp j (htcpIds ▸ hj)
  · rw [hids] at hj
    rcases List.mem_append.mp hj with hj | hj
    · rw [hold j hj]
      exact h.udp j hj
    · rw [List.mem_singleton.mp hj]
      exact ⟨by rw [hidle]; nofun, by rw [hidle]; nofun, fun hne => absurd hnil hne⟩

end Rules

end Net

end Tcpip
end Wrmos
