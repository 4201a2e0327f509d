import Wrmos.TcpipClients

/-!
# The TCP/IP server: one reply for each request

A client that sent a request waits, and the server remembers it in the socket until the reply.  This module
follows `ClientInv` through everything the server does: a segment, a datagram, an ARP reply and every request.
What leaves the clients alone is `SameClients`; a reply to the client of a socket is `ClientInv.answered`; the
requests that wait are a change of one socket.

Four requests lose a client or ask for a reply to nobody.  A UDP socket has a second place for a client
that receives, which `process_cli_close` and `process_cli_recvfrom` do not look at.  A TCP socket has one
place, and `process_cli_sendto` lets a client send while another one receives: when the frame has to wait for
an ARP reply, the sender takes the place.  And `process_cli_recvfrom` on a connection that is not established
replies to the client of the socket, which is `Nil`.
-/

namespace Wrmos
namespace Tcpip

open Lib

namespace Net

variable {s s' t : Net} {g : Asked} {p : List Nat} {r : Request} {seg : Seg} {i j k frame c : Nat}

/-! ## What leaves the clients alone -/

theorem sameClients_setStream {f : Stream → Stream} : SameClients s (s.setStream k f) :=
  sameClients_of_eq rfl rfl rfl rfl le_rfl rfl fun _ => rfl

theorem sameClients_streams {l : NodeList Unit} {f : Nat → Stream} :
    SameClients s { s with allstreams := l, stream := f } :=
  sameClients_of_eq rfl rfl rfl rfl le_rfl rfl fun _ => rfl

theorem sameClients_emitted {mem : Lib.Mem} {f : TxFrame} : SameClients s (s.emitted mem f) :=
  sameClients_of_eq rfl rfl rfl rfl le_rfl rfl fun _ => repliesTo_frame

theorem sameClients_sendToEthDrv {a len : Nat} : SameClients s (s.sendToEthDrv a len) :=
  sameClients_of_eq rfl rfl rfl rfl le_rfl rfl fun _ => repliesTo_frame

theorem Sent.sameClients (h : Sent s i k t) : SameClients s t := by
  cases h with
  | now => exact sameClients_of_eq rfl rfl rfl rfl le_rfl rfl fun _ => repliesTo_frame
  | @stored arp mem f n =>
    refine (sameClients_setTcp (i := i) (f := waiting (n * frameStride) 74) ⟨rfl, rfl⟩).trans ?_
    exact sameClients_of_eq rfl rfl rfl rfl le_rfl rfl fun _ => repliesTo_frame

theorem sendIcmpDestUnreach_sameClients {ipif : IpIface} {ethReq reqLen code : Nat}
    (h : s.sendIcmpDestUnreach ipif ethReq reqLen code = .ok t) : SameClients s t := by
  rcases sendIcmpDestUnreach_eq_ok h with rfl | ⟨mem, f, rfl⟩
  · exact .refl _
  · exact sameClients_emitted

theorem Selected.sameClients {o : Option Nat} (h : Selected s i seg o t) : SameClients s t := by
  cases h with
  | connecting => exact .refl s
  | @added k l =>
    exact .trans (sameClients_streams (l := l) (f := fun j => if j = k then
      { Stream.mk' seg.src seg.sport with initSeqTx := 123, seqTx := 123 } else s.stream j))
      (sameClients_setTcp (i := i) (f := fun t => { t with streams := t.streams ++ [k] }) ⟨rfl, rfl⟩)
  | unknown => exact .refl s
  | connection => exact .refl s

theorem sameClients_autoBindTcp {ifaddr : Nat} : SameClients s (s.autoBindTcp i ifaddr) := by
  obtain ⟨f, p, hbind, hf⟩ := autoBindTcp_eq s i ifaddr
  rw [hbind]
  have hclient : (f (s.tcp i).toSocket).client = (s.tcp i).client := by
    obtain ⟨b, addr, port, hft⟩ := hf (s.tcp i).toSocket
    rw [hft]
  have hset : SameClients s (s.setTcp i fun t => { t with toSocket := f t.toSocket }) :=
    sameClients_setTcp ⟨rfl, hclient⟩
  exact hset.trans (sameClients_of_eq rfl rfl rfl rfl le_rfl rfl fun _ => rfl)

theorem sameClients_autoBindUdp {ifaddr : Nat} : SameClients s (s.autoBindUdp i ifaddr) := by
  obtain ⟨f, p, hbind, hf⟩ := autoBindUdp_eq s i ifaddr
  rw [hbind]
  have hclients : (f (s.udp i).toSocket).client = (s.udp i).client ∧
      (f (s.udp i).toSocket).recvClient = (s.udp i).recvClient := by
    obtain ⟨b, addr, port, hft⟩ := hf (s.udp i).toSocket
    rw [hft]
    exact ⟨rfl, rfl⟩
  have hset : SameClients s (s.setUdp i fun u => { u with toSocket := f u.toSocket }) :=
    sameClients_setUdp ⟨rfl, hclients.1, hclients.2⟩
  exact hset.trans (sameClients_of_eq rfl rfl rfl rfl le_rfl rfl fun _ => rfl)

theorem sameClients_tcpBuilt {ifaddr len : Nat} {arp : List ArpRecord} {mem : Lib.Mem} :
    SameClients s (s.tcpBuilt i k frame ifaddr arp mem len) :=
  sameClients_autoBindTcp.trans (sameClients_of_eq rfl rfl rfl rfl le_rfl rfl fun _ => rfl)

theorem sameClients_udpBuilt {ifaddr : Nat} {arp : List ArpRecord} {mem : Lib.Mem} :
    SameClients s (s.udpBuilt i frame ifaddr arp mem) :=
  sameClients_autoBindUdp.trans (sameClients_of_eq rfl rfl rfl rfl le_rfl rfl fun _ => rfl)

/-! ## Replies -/

/-- A client that a TCP socket has recorded waits. -/
theorem ClientInv.tcpWaits (h : ClientInv s g p) (hi : i ∈ s.tcpIds)
    (hidle : (s.tcp i).cliState ≠ .idle) (hclosed : (s.tcp i).cliState ≠ .closed) :
    s.Waits (s.tcp i).client := by
  have hrec : (s.tcp i).records = [(s.tcp i).client] := if_neg (not_or.mpr ⟨hidle, hclosed⟩)
  have hmem : (s.tcp i).client ∈ p ++ s.records := by
    refine List.mem_append_right p (List.mem_append_left _ (List.mem_flatMap.mpr ⟨i, hi, ?_⟩))
    rw [hrec]
    exact List.mem_singleton_self _
  exact ⟨fun h0 => h.nonNil (h0 ▸ hmem), (h.waits _).mpr hmem⟩

theorem client_mem {u : UdpSocket} (h : u.cliState = .send) : u.client ∈ u.records := by
  unfold UdpSocket.records
  rw [if_pos h]
  exact List.mem_cons_self

theorem recvClient_mem {u : UdpSocket} (h : u.recvClient ≠ 0) : u.recvClient ∈ u.records := by
  unfold UdpSocket.records
  rw [if_neg h]
  exact List.mem_append_right _ List.mem_cons_self

/-- A client that a UDP socket has recorded waits. -/
theorem ClientInv.udpWaits (h : ClientInv s g p) (hi : i ∈ s.udpIds) (hc : c ∈ (s.udp i).records) :
    s.Waits c := by
  have hmem : c ∈ p ++ s.records :=
    List.mem_append_right p (List.mem_append_right _ (List.mem_flatMap.mpr ⟨i, hi, hc⟩))
  exact ⟨fun h0 => h.nonNil (h0 ▸ hmem), (h.waits _).mpr hmem⟩

/-- A TCP socket whose operation is over, while its client has yet to be told. -/
theorem ClientInv.tcpIdle (h : ClientInv s g p) (hi : i ∈ s.tcpIds)
    (hidle : (s.tcp i).cliState ≠ .idle) (hclosed : (s.tcp i).cliState ≠ .closed) :
    ClientInv (s.tcpIdle i) g ((s.tcp i).client :: p) := by
  have hrec : (s.tcp i).records = [(s.tcp i).client] := if_neg (not_or.mpr ⟨hidle, hclosed⟩)
  refine h.setTcp hi ?_ ⟨fun _ => rfl, fun c hc => absurd hc List.not_mem_nil⟩
  rw [hrec]
  show (p ++ [(s.tcp i).client]).Perm ((s.tcp i).client :: p ++ [])
  rw [List.append_nil]
  exact List.perm_append_comm

/-- The client of a socket is answered. -/
theorem ClientInv.answered (h : ClientInv s g p) (hi : i ∈ s.tcpIds) (hidle : (s.tcp i).cliState ≠ .idle)
    (hclosed : (s.tcp i).cliState ≠ .closed) (ecode : Nat) (words : List Nat) (bf : Option Buf) :
    ClientInv (s.answered i ecode words bf) g p := (h.tcpIdle hi hidle hclosed).replied

/-! ## A segment -/

theorem processRst_clientInv (h : ClientInv s g p) (hi : i ∈ s.tcpIds) (hrst : s.processRst i k = .ok t) :
    ClientInv t g p ∧ t.tcpIds = s.tcpIds := by
  obtain ⟨u, hsent, hcli, -, rfl⟩ := processRst_cases hrst
  have hsame := (sameClients_setStream.trans hsent.sameClients).trans
    (sameClients_setStream (k := k) (f := fun st => { st with state := .closed }))
  refine ⟨(h.same hsame).answered (hsame.tcpIds ▸ hi) ?_ ?_ _ _ _, hsame.tcpIds⟩
  · exact fun hc => absurd (hcli.symm.trans hc) (by decide)
  · exact fun hc => absurd (hcli.symm.trans hc) (by decide)

/-- The socket for the stream that is accepted. -/
theorem ClientInv.accepted (h : ClientInv s g p) (hi : i ∈ s.tcpIds) (k iaddr : Nat) :
    ClientInv (s.accepted i k (s.cnt + 1) iaddr) g p ∧
      SameTcp (s.tcp i) ((s.accepted i k (s.cnt + 1) iaddr).tcp i) ∧
      i ∈ (s.accepted i k (s.cnt + 1) iaddr).tcpIds := by
  have hij : i ≠ s.cnt + 1 := fun hc => absurd (h.ids.tcpFresh i hi) (by omega)
  unfold Net.accepted
  dsimp only
  generalize hu : ({ s with
      cnt := s.cnt + 1
      tcpIds := s.tcpIds ++ [s.cnt + 1]
      tcp := fun l => if l = s.cnt + 1 then _ else s.tcp l } : Net) = u
  have hnew : ClientInv u g p := by
    rw [← hu]
    refine h.newTcp rfl rfl rfl rfl rfl rfl (fun l hl => if_neg ?_) ?_ ?_
    · exact fun hc => absurd (h.ids.tcpFresh l hl) (by omega)
    · exact congrArg TcpSocket.cliState (if_pos rfl)
    · exact congrArg (fun t : TcpSocket => t.client) (if_pos rfl)
  have hold : u.tcp i = s.tcp i := by
    rw [← hu]
    exact if_neg hij
  have hmem : i ∈ u.tcpIds := by
    rw [← hu]
    exact List.mem_append_left _ hi
  have hrem : SameClients u (u.remFromQueue i k) := by
    unfold remFromQueue
    split
    · exact .refl u
    · exact sameClients_setTcp ⟨rfl, rfl⟩
  have hsame := hrem.trans (sameClients_setTcp (i := s.cnt + 1)
    (f := fun v => { v with bound := true, saddrAddr := iaddr, saddrPort := (s.tcp i).saddrPort }) ⟨rfl, rfl⟩)
  refine ⟨hnew.same hsame, ?_, hsame.tcpIds ▸ hmem⟩
  have hone := hsame.tcp i
  rw [hold] at hone
  exact hone

theorem Accepted.clientInv (h : ClientInv s g p) (hi : i ∈ s.tcpIds) (hacc : Accepted s i k t) :
    ClientInv t g p := by
  cases hacc with
  | full hcli =>
    refine h.answered hi ?_ ?_ _ _ _
    · exact fun hc => absurd (hcli.symm.trans hc) (by decide)
    · exact fun hc => absurd (hcli.symm.trans hc) (by decide)
  | @done iaddr hcli =>
    obtain ⟨hinv, hsame, hmem⟩ := h.accepted hi k iaddr
    have hcli' := hsame.cliState.trans hcli
    refine hinv.answered hmem ?_ ?_ _ _ _
    · exact fun hc => absurd (hcli'.symm.trans hc) (by decide)
    · exact fun hc => absurd (hcli'.symm.trans hc) (by decide)

theorem Pushed.clientInv (h : ClientInv s g p) (hi : i ∈ s.tcpIds) (hpush : Pushed s i seg k t) :
    ClientInv t g p ∧ t.tcpIds = s.tcpIds := by
  cases hpush with
  | kept => exact ⟨h, rfl⟩
  | delivered _ hcli =>
    have hinv := h.answered hi (fun hc => absurd (hcli.symm.trans hc) (by decide))
      (fun hc => absurd (hcli.symm.trans hc) (by decide)) 0
      (sockaddrIn (s.stream k).remAddr (s.stream k).remPort) (some (.whole (s.stream k).buf))
    have hset := hinv.same (sameClients_setStream (k := k) (f := fun st =>
      { st with buf := st.buf.drop (st.buf.take (s.room (s.tcp i).client)).length }))
    exact ⟨hset, rfl⟩

theorem Finished.clientInv (h : ClientInv s g p) (hi : i ∈ s.tcpIds) (hfin : Finished s i seg k t) :
    ClientInv t g p := by
  cases hfin with
  | no => exact h
  | quiet _ hsent =>
    exact h.same ((sameClients_setStream.trans hsent.sameClients).trans sameClients_setStream)
  | @told u _ hsent hcli =>
    have hsame := (sameClients_setStream.trans hsent.sameClients).trans
      (sameClients_setStream (k := k) (f := fun st => { st with state := .lastAck }))
    have hinv := (h.same hsame).answered (hsame.tcpIds ▸ hi)
      (fun hc => absurd (hcli.symm.trans hc) (by decide))
      (fun hc => absurd (hcli.symm.trans hc) (by decide)) 0
      (sockaddrIn ((u.setStream k fun st => { st with state := .lastAck }).stream k).remAddr
        ((u.setStream k fun st => { st with state := .lastAck }).stream k).remPort) (some (.whole []))
    exact hinv.same (sameClients_setStream (k := k) (f := fun st => { st with buf := [] }))

/-- A socket that is closed and has no client recorded goes. -/
theorem ClientInv.closed (h : ClientInv s g p) (hi : i ∈ s.tcpIds) {l : NodeList Unit} {p' : List Nat}
    (hperm : (p ++ (s.tcp i).records).Perm p') :
    ClientInv { (s.setTcp i fun t => { t with cliState := .closed }) with
      allstreams := l, tcpIds := s.tcpIds.erase i } g p' := by
  have hrec : ∀ t : TcpSocket, { t with cliState := .closed }.records = [] := fun _ => if_pos (.inr rfl)
  have hinv : ClientInv (s.setTcp i fun t => { t with cliState := .closed }) g p' := by
    refine h.setTcp hi ?_ ⟨nofun, fun c hc => ?_⟩
    · rw [hrec, List.append_nil]
      exact hperm
    · rw [hrec] at hc
      exact absurd hc List.not_mem_nil
  refine hinv.eraseTcp hi ?_
  rw [setTcp_self]
  exact hrec _

theorem FinWaited.clientInv (h : ClientInv s g p) (hi : i ∈ s.tcpIds) (hw : FinWaited s i seg k t) :
    ClientInv t g p := by
  cases hw with
  | no => exact h
  | @closed u l _ _ hsent hcli _ hnet hstream =>
    have hsame := sameClients_setStream.trans hsent.sameClients
    have hrec : (u.tcp i).records = [(u.tcp i).client] := if_neg (by rw [hcli]; decide)
    have hperm : (p ++ (u.tcp i).records).Perm ((u.tcp i).client :: p) := by
      rw [hrec]
      exact List.perm_append_comm
    exact ((h.same hsame).closed (hsame.tcpIds ▸ hi) (l := u.allstreams.erase l) hperm).replied

theorem Switched.clientInv (h : ClientInv s g p) (hi : i ∈ s.tcpIds) (hsw : Switched s i seg k t) :
    ClientInv t g p := by
  cases hsw with
  | listen => exact h
  | closed => exact h
  | opened _ _ hsent => exact h.same (hsent.sameClients.trans sameClients_setStream)
  | connected _ _ hsent hcli =>
    have hsame := sameClients_setStream.trans hsent.sameClients
    refine (h.same hsame).answered (hsame.tcpIds ▸ hi) ?_ ?_ _ _ _
    · exact fun hc => absurd (hcli.symm.trans hc) (by decide)
    · exact fun hc => absurd (hcli.symm.trans hc) (by decide)
  | accepted _ _ _ _ _ _ _ hacc =>
    have hsame : SameClients s (s.queued i k) := sameClients_setStream.trans (sameClients_setTcp ⟨rfl, rfl⟩)
    exact hacc.clientInv (h.same hsame) hi
  | received _ _ hpush hfin =>
    have hsame : SameClients s (s.appended seg k) := sameClients_setStream
    obtain ⟨hinv, hids⟩ := hpush.clientInv (h.same hsame) hi
    exact hfin.clientInv hinv (hids ▸ hi)
  | finWait1 _ hw => exact hw.clientInv h hi
  | lastAck => exact h.same sameClients_setStream

theorem Processed.clientInv (h : ClientInv s g p) (hi : i ∈ s.tcpIds) (hp : Processed s i seg k t) :
    ClientInv t g p := by
  cases hp with
  | wrongSeq => exact h
  | plain _ _ hsw => exact hsw.clientInv (h.same sameClients_setStream) hi
  | reset _ _ ht hsw =>
    obtain ⟨hinv, hids⟩ := processRst_clientInv (h.same sameClients_setStream) hi ht
    exact hsw.clientInv hinv (hids ▸ hi)

theorem Segmented.clientInv (h : ClientInv s g p) (hi : i ∈ s.tcpIds) (hseg : Segmented s i seg t) :
    ClientInv t g p := by
  cases hseg with
  | none => exact h
  | some hsel hp => exact hp.clientInv (h.same hsel.sameClients) (hsel.sameClients.tcpIds ▸ hi)

/-! ## The other packets -/

/-- A UDP socket without the client that receives, which has yet to be told. -/
theorem ClientInv.udpReceived (h : ClientInv s g p) (hi : i ∈ s.udpIds)
    (hwaits : Net.udpWaits (s.udp i) = true) :
    (s.udp i).recvClient ≠ 0 ∧ ClientInv (s.setUdp i fun u =>
      { u with cliState := if u.cliState = .recv then .idle else u.cliState, recvClient := 0 }) g
        ((s.udp i).recvClient :: p) := by
  have hok := h.udp i hi
  have hne : (s.udp i).recvClient ≠ 0 := by
    rcases (Bool.or_eq_true _ _).mp hwaits with hrecv | hrecv
    · exact hok.recv (beq_iff_eq.mp hrecv)
    · simpa using hrecv
  refine ⟨hne, h.setUdp hi ?_ ⟨?_, ?_, fun h0 => absurd rfl h0⟩⟩
  · unfold UdpSocket.records
    dsimp only
    rw [if_neg hne, if_pos rfl, List.append_nil]
    have hsend : (if (s.udp i).cliState = .recv then UdpCli.idle else (s.udp i).cliState) = .send ↔
        (s.udp i).cliState = .send := by
      cases (s.udp i).cliState <;> decide
    simp only [hsend]
    rw [← List.append_assoc]
    exact List.perm_append_comm
  · cases (s.udp i).cliState <;> simp
  · intro hc
    refine hok.sending ?_
    cases hcli : (s.udp i).cliState with
    | send => rfl
    | idle =>
      rw [hcli] at hc
      cases hc
    | recv =>
      rw [hcli] at hc
      cases hc

theorem Datagram.clientInv {d : Dgram} (h : ClientInv s g p) (hi : i ∈ s.udpIds) (hd : Datagram s i d t) :
    ClientInv t g p := by
  cases hd with
  | received hwaits => exact (h.udpReceived hi hwaits).2.replied
  | @saved data =>
    refine h.same (sameClients_setUdp (f := fun u => saveReceivedPacket u d data) ?_)
    show SameUdp (s.udp i) (saveReceivedPacket (s.udp i) d data)
    unfold saveReceivedPacket
    split
    · exact ⟨rfl, rfl, rfl⟩
    split
    · exact ⟨rfl, rfl, rfl⟩
    · exact ⟨rfl, rfl, rfl⟩

theorem sameClients_released {u : Socket} {sha : Nat} : SameClients s (s.released u sha) :=
  sameClients_of_eq rfl rfl rfl rfl le_rfl rfl fun _ => repliesTo_frame

/-- A UDP socket whose datagram has left, while its client has yet to be told. -/
theorem ClientInv.udpIdle (h : ClientInv s g p) (hi : i ∈ s.udpIds) (hcli : (s.udp i).cliState = .send) :
    ClientInv (s.udpIdle i) g ((s.udp i).client :: p) := by
  refine h.setUdp hi ?_ ⟨nofun, nofun, (h.udp i hi).receiving⟩
  unfold UdpSocket.records
  rw [if_pos hcli]
  exact List.perm_middle

theorem CheckedUdp.clientInv {spa sha : Nat} (h : ClientInv s g p) (hi : i ∈ s.udpIds)
    (hc : CheckedUdp s spa sha i t) : ClientInv t g p ∧ t.udpIds = s.udpIds ∧ t.tcpIds = s.tcpIds := by
  have hset : SameClients s (s.setUdp i fun u => { u with waitArp := false }) :=
    sameClients_setUdp ⟨rfl, rfl, rfl⟩
  cases hc with
  | other => exact ⟨h, rfl, rfl⟩
  | sent => exact ⟨h.same (hset.trans sameClients_released), rfl, rfl⟩
  | @answered n _ _ _ hcli =>
    have htouch : SameClients s (((s.setUdp i fun u => { u with waitArp := false }).released
        (s.udp i).toSocket sha).touch (s.udp i).txEthFrame) :=
      (hset.trans sameClients_released).trans (sameClients_of_eq rfl rfl rfl rfl le_rfl rfl fun _ => rfl)
    have hone := htouch.udp i
    have hinv := (h.same htouch).udpIdle hi (hone.cliState.trans hcli)
    rw [hone.client] at hinv
    exact ⟨hinv.replied, rfl, rfl⟩

theorem CheckedTcp.clientInv {spa sha : Nat} (h : ClientInv s g p) (hi : i ∈ s.tcpIds)
    (hc : CheckedTcp s spa sha i t) : ClientInv t g p ∧ t.tcpIds = s.tcpIds := by
  have hset : SameClients s (s.setTcp i fun t => { t with waitArp := false }) :=
    sameClients_setTcp ⟨rfl, rfl⟩
  cases hc with
  | other => exact ⟨h, rfl⟩
  | sent => exact ⟨h.same (hset.trans sameClients_released), rfl⟩
  | @answered n _ _ _ hcli =>
    have htouch : SameClients s (((s.setTcp i fun t => { t with waitArp := false }).released
        (s.tcp i).toSocket sha).touch (s.tcp i).txEthFrame) :=
      (hset.trans sameClients_released).trans (sameClients_of_eq rfl rfl rfl rfl le_rfl rfl fun _ => rfl)
    have hone := htouch.tcp i
    have hinv := (h.same htouch).tcpIdle hi
      (fun hc => absurd ((hone.cliState.trans hcli).symm.trans hc) (by decide))
      (fun hc => absurd ((hone.cliState.trans hcli).symm.trans hc) (by decide))
    rw [hone.client] at hinv
    exact ⟨hinv.replied, rfl⟩

/-- An ARP reply goes over all sockets. -/
theorem arpChecked_clientInv {spa sha : Nat} {u : Net} (h : ClientInv s g p)
    (hudp : runAll (fun s i => s.checkArpUdp spa sha i) s s.udpIds = .ok t)
    (htcp : runAll (fun s i => s.checkArpTcp spa sha i) t t.tcpIds = .ok u) : ClientInv u g p := by
  have h1 : ClientInv t g p ∧ t.udpIds = s.udpIds ∧ t.tcpIds = s.tcpIds := by
    refine runAll_invariant (I := fun v => ClientInv v g p ∧ v.udpIds = s.udpIds ∧ v.tcpIds = s.tcpIds)
      (C := fun _ i => i ∈ s.udpIds) (fun v i w hv hi hw => ?_) ⟨h, rfl, rfl⟩
      (meets_of_forall fun _ hi _ => hi) hudp
    obtain ⟨hinv, hu, ht⟩ := (checkArpUdp_cases hw).clientInv hv.1 (hv.2.1 ▸ hi)
    exact ⟨hinv, hu.trans hv.2.1, ht.trans hv.2.2⟩
  refine (runAll_invariant (I := fun v => ClientInv v g p ∧ v.tcpIds = t.tcpIds)
    (C := fun _ i => i ∈ t.tcpIds) (fun v i w hv hi hw => ?_) ⟨h1.1, rfl⟩ (meets_of_forall fun _ hi _ => hi)
    htcp).1
  obtain ⟨hinv, ht⟩ := (checkArpTcp_cases hw).clientInv hv.1 (hv.2 ▸ hi)
  exact ⟨hinv, ht.trans hv.2⟩

theorem Packed.clientInv {eth : Nat} {q : Packet} (h : ClientInv s g p) (hp : Packed s eth q t) :
    ClientInv t g p := by
  cases hp with
  | drop => exact h
  | marked => exact h.same (sameClients_of_eq rfl rfl rfl rfl le_rfl rfl fun _ => rfl)
  | arpReplied =>
    refine h.same (.trans ?_ sameClients_sendToEthDrv)
    exact sameClients_of_eq rfl rfl rfl rfl le_rfl rfl fun _ => rfl
  | arpChecked hudp htcp => exact arpChecked_clientInv h hudp htcp
  | echoed =>
    refine h.same (.trans ?_ sameClients_sendToEthDrv)
    exact sameClients_of_eq rfl rfl rfl rfl le_rfl rfl fun _ => rfl
  | unreach hu => exact h.same (sendIcmpDestUnreach_sameClients hu)
  | noTcp _ _ hu => exact h.same (sendIcmpDestUnreach_sameClients hu)
  | noUdp _ hu => exact h.same (sendIcmpDestUnreach_sameClients hu)
  | connected hfind hseg => exact hseg.clientInv h (List.mem_of_find?_eq_some hfind)
  | fallback _ hfind hseg => exact hseg.clientInv h (List.mem_of_find?_eq_some hfind)
  | datagram hfind hd => exact hd.clientInv h (List.mem_of_find?_eq_some hfind)

/-! ## The requests -/

/-- A request to a UDP socket that remembers a client in its second place, which the request does not look at:
it closes the socket, or it has to wait itself. -/
def LosesReceiver (s : Net) (r : Request) : Prop :=
  r.sock ∈ s.udpIds ∧ (s.udp r.sock).isOwner r.cli = true ∧ (s.udp r.sock).cliState = .idle ∧
    (s.udp r.sock).recvClient ≠ 0 ∧
    (s.Asks r 2 4 0 ∧ (s.udp r.sock).owner = r.cli ∨ s.Asks r 8 5 0 ∧ (s.udp r.sock).pkts = [])

instance (s : Net) (r : Request) : Decidable (s.LosesReceiver r) := by
  unfold LosesReceiver
  infer_instance

/-- A request to send on an established connection on which another client receives, where the segment has to
wait for an ARP reply and the ARP request can leave. -/
def TakesPlace (s : Net) (r : Request) : Prop :=
  s.Asks r 7 9 2 ∧ r.sock ∈ s.tcpIds ∧ (s.tcp r.sock).isOwner r.cli = true ∧
    (s.tcp r.sock).cliState = .recv ∧ (s.tcp r.sock).netState = .connection ∧
    (s.tcp r.sock).waitArp = false ∧ (∃ n < framesCount, s.busy n = false) ∧
    ∃ k ∈ (s.tcp r.sock).stream, (s.stream k).state = .established ∧
      (txIface (s.tcp r.sock).toSocket (s.stream k).remAddr).isSome = true ∧
      (s.arpFind (s.stream k).remAddr).1 = macNil

instance (s : Net) (r : Request) : Decidable (s.TakesPlace r) := by
  unfold TakesPlace
  infer_instance

/-- A request to receive from a connection that is not established. -/
def ReceivesNoMore (s : Net) (r : Request) : Prop :=
  s.Asks r 8 5 0 ∧ r.sock ∈ s.tcpIds ∧ (s.tcp r.sock).isOwner r.cli = true ∧
    (s.tcp r.sock).cliState = .idle ∧ (s.tcp r.sock).netState = .connection ∧
    ∃ k ∈ (s.tcp r.sock).stream, (s.stream k).state ≠ .established

instance (s : Net) (r : Request) : Decidable (s.ReceivesNoMore r) := by
  unfold ReceivesNoMore
  infer_instance

/-- A request after which a client is not answered as it should be. -/
def LosesClient (s : Net) (r : Request) : Prop := s.LosesReceiver r ∨ s.TakesPlace r ∨ s.ReceivesNoMore r

instance (s : Net) (r : Request) : Decidable (s.LosesClient r) := by
  unfold LosesClient
  infer_instance

/-- The sender of a request is recorded in a TCP socket that is idle. -/
theorem ClientInv.recordTcp {f : TcpSocket → TcpSocket} (h : ClientInv s g [c]) (op : TcpCli)
    (hi : i ∈ s.tcpIds) (hidle : (s.tcp i).cliState = .idle) (hop : op ≠ .idle ∧ op ≠ .closed)
    (hstate : (f (s.tcp i)).cliState = op) (hclient : (f (s.tcp i)).client = c) (hfor : g.For c i op.op) :
    ClientInv (s.setTcp i f) g [] := by
  have hrec : (f (s.tcp i)).records = [c] := by
    unfold TcpSocket.records
    rw [hstate, hclient, if_neg (not_or.mpr hop)]
  refine h.setTcp hi ?_ ⟨fun hc => absurd (hstate.symm.trans hc) hop.1, fun d hd => ?_⟩
  · unfold TcpSocket.records at hrec ⊢
    rw [hrec, if_pos (.inl hidle)]
    exact .refl _
  · rw [hrec] at hd
    rw [List.mem_singleton.mp hd, hstate]
    exact hfor

/-- The sender of a datagram is recorded in a UDP socket in which no other client sends. -/
theorem ClientInv.recordSend (h : ClientInv s g [c]) (hi : i ∈ s.udpIds)
    (hcli : (s.udp i).cliState = .idle ∨ (s.udp i).cliState = .recv) (hfor : g.For c i 7) (a len : Nat) :
    ClientInv (s.setUdp i (udpWaiting a len c)) g [] := by
  refine h.setUdp hi ?_ ⟨nofun, fun _ => hfor, (h.udp i hi).receiving⟩
  have hsend : (s.udp i).cliState ≠ .send := by
    rcases hcli with hc | hc
    · rw [hc]
      decide
    · rw [hc]
      decide
  unfold UdpSocket.records
  rw [if_neg hsend]
  exact .refl _

/-- The sender of a request is recorded in the second place of a UDP socket, where nobody is. -/
theorem ClientInv.recordRecv (h : ClientInv s g [c]) (hi : i ∈ s.udpIds)
    (hidle : (s.udp i).cliState = .idle) (hfree : (s.udp i).recvClient = 0) (hfor : g.For c i 8) :
    ClientInv (s.setUdp i fun u => { u with cliState := .recv, recvClient := c }) g [] := by
  have hnil : c ≠ 0 := fun h0 => h.nonNil (List.mem_append_left _ (List.mem_singleton.mpr h0.symm))
  refine h.setUdp hi ?_ ⟨fun _ => hnil, nofun, fun _ => hfor⟩
  unfold UdpSocket.records
  dsimp only
  rw [hidle, hfree, if_neg hnil]
  exact .refl _

/-- **A request that loses no client keeps the invariant.** -/
theorem Requested.clientInv {kept : Bool} (h : ClientInv s g [r.cli]) (hlast : g.last r.cli = some r)
    (hlose : ¬ s.LosesClient r) (hreq : Requested s r frame kept t) : ClientInv t g [] := by
  cases hreq with
  | refused => exact h.replied
  | newUdp =>
    refine ClientInv.replied (h.newUdp rfl rfl rfl rfl rfl rfl (fun j hj => if_neg ?_) ?_ ?_)
    · exact fun hc => absurd (h.ids.udpFresh j hj) (by omega)
    · exact congrArg UdpSocket.cliState (if_pos rfl)
    · exact congrArg (fun u : UdpSocket => u.recvClient) (if_pos rfl)
  | newTcp =>
    refine ClientInv.replied (h.newTcp rfl rfl rfl rfl rfl rfl (fun j hj => if_neg ?_) ?_ ?_)
    · exact fun hc => absurd (h.ids.tcpFresh j hj) (by omega)
    · exact congrArg TcpSocket.cliState (if_pos rfl)
    · exact congrArg (fun t : TcpSocket => t.client) (if_pos rfl)
  | @closeUdp i hop hi hsock hmay hcli hown =>
    have hrecv : (s.udp i).recvClient = 0 := by
      by_contra hne
      subst hsock
      exact hlose (.inl ⟨hi, hmay, hcli, hne, .inl ⟨hop, hown⟩⟩)
    have hnone : (s.udp i).records = [] := by
      unfold UdpSocket.records
      rw [hcli, hrecv]
      rfl
    have hinv := h.eraseUdp hi
    rw [hnone] at hinv
    exact hinv.replied
  | @closeListener i _ hi _ _ hcli =>
    have hnone : (s.tcp i).records = [] := if_pos (.inl hcli)
    have hperm : ([r.cli] ++ (s.tcp i).records).Perm [r.cli] := by rw [hnone, List.append_nil]
    exact (h.closed hi (l := s.allstreams) hperm).replied
  | @closeClosed i k _ hi _ _ hcli =>
    have hnone : (s.tcp i).records = [] := if_pos (.inl hcli)
    have hperm : ([r.cli] ++ (s.tcp i).records).Perm [r.cli] := by rw [hnone, List.append_nil]
    exact (h.closed hi (l := s.allstreams.erase k) hperm).replied
  | @closing i k _ hop hi hsock _ hcli _ _ _ hsent =>
    have hinv : ClientInv (s.pending i r.cli .close) g [] :=
      h.recordTcp .close hi hcli (by decide) rfl rfl ⟨r, hlast, hsock, hop.op⟩
    exact hinv.same (sameClients_setStream.trans hsent.sameClients)
  | bindUdp => exact (h.same (sameClients_setUdp ⟨rfl, rfl, rfl⟩)).replied
  | bindTcp => exact (h.same (sameClients_setTcp ⟨rfl, rfl⟩)).replied
  | listening => exact (h.same (sameClients_setTcp ⟨rfl, rfl⟩)).replied
  | accepting hop hi hsock hcli =>
    exact h.recordTcp .accept hi hcli (by decide) rfl rfl ⟨r, hlast, hsock, hop.op⟩
  | acceptedQueued hop hi hsock _ hcli _ _ _ hacc =>
    have hinv : ClientInv (s.pending _ r.cli .accept) g [] :=
      h.recordTcp .accept hi hcli (by decide) rfl rfl ⟨r, hlast, hsock, hop.op⟩
    exact hacc.clientInv (hinv.same (sameClients_setTcp ⟨rfl, rfl⟩)) hi
  | @connecting i k l f _ hop hi hsock hcli _ _ _ _ hsent =>
    have hbind : SameClients s (s.autoBindTcp i f.addr) := sameClients_autoBindTcp
    have hinv : ClientInv ((s.autoBindTcp i f.addr).setTcp i fun t =>
        { t with netState := .connection, cliState := .connect, client := r.cli }) g [] :=
      (h.same hbind).recordTcp .connect (hbind.tcpIds ▸ hi) ((hbind.tcp i).cliState.trans hcli)
        (by decide) rfl rfl ⟨r, hlast, hsock, hop⟩
    have hset := (hinv.same (sameClients_streams (l := l) (f := fun j => if j = k then
      { Stream.mk' (r.sinAddr 5) (r.sinPort 5) with state := .synSent }
        else (s.autoBindTcp i f.addr).stream j))).same
        (sameClients_setTcp (i := i) (f := fun t => { t with stream := some k }) ⟨rfl, rfl⟩)
    exact hset.same hsent.sameClients
  | sendTcpBusy => exact (h.same sameClients_tcpBuilt).replied
  | @sendTcpWait i k n f arp mem _ _ hop hi hsock hmay hcli hnet hk hst hif harp _ _ hwait hn hfree =>
    have hidle : (s.tcp i).cliState = .idle := by
      refine hcli.resolve_right fun hrecv => ?_
      subst hsock
      exact hlose (.inr (.inl ⟨hop, hi, hmay, hrecv, hnet, hwait, ⟨n, hn, hfree⟩, k, hk, hst,
        Option.isSome_iff_exists.mpr ⟨f, hif⟩, harp⟩))
    have hbuilt : SameClients s (s.tcpBuilt i k frame f.addr arp mem r.data.length) := sameClients_tcpBuilt
    have hinv := (h.same hbuilt).recordTcp .send (f := tcpWaiting frame (74 + r.data.length) r.cli)
      (hbuilt.tcpIds ▸ hi) ((hbuilt.tcp i).cliState.trans hidle) (by decide) rfl rfl ⟨r, hlast, hsock, hop.op⟩
    exact hinv.same sameClients_emitted
  | sendTcpNow => exact (h.same (sameClients_tcpBuilt.trans sameClients_sendToEthDrv)).replied
  | sendUdpBusy => exact (h.same sameClients_udpBuilt).replied
  | @sendUdpWait i n f arp mem _ _ hop hi hsock _ hcli =>
    have hbuilt : SameClients s (s.udpBuilt i (frame + 32) f.addr arp mem) := sameClients_udpBuilt
    have hinv := (h.same hbuilt).recordSend (hbuilt.udpIds ▸ hi) ((hbuilt.udp i).cliState ▸ hcli)
      ⟨r, hlast, hsock, hop.op⟩ (frame + 32) (42 + r.data.length)
    exact hinv.same sameClients_emitted
  | sendUdpNow => exact (h.same (sameClients_udpBuilt.trans sameClients_sendToEthDrv)).replied
  | @recvTcpData i k =>
    have hinv : ClientInv (s.replied r.cli 0 (sockaddrIn (s.stream k).remAddr (s.stream k).remPort)
      (some (.whole (s.stream k).buf))) g [] := h.replied
    have hset := hinv.same (sameClients_setStream (k := k) (f := fun st =>
      { st with buf := st.buf.drop (st.buf.take (s.room r.cli)).length }))
    exact hset
  | recvTcpWait hop hi hsock _ hcli =>
    exact h.recordTcp .recv hi hcli (by decide) rfl rfl ⟨r, hlast, hsock, hop.op⟩
  | @recvTcpEnd i k hop hi hsock hmay hcli hnet hk hst =>
    subst hsock
    exact absurd (.inr (.inr ⟨hop, hi, hmay, hcli, hnet, k, hk, hst⟩)) hlose
  | recvUdpData => exact h.replied.same (sameClients_setUdp ⟨rfl, rfl, rfl⟩)
  | @recvUdpWait i hop hi hsock hmay hcli hpkts =>
    have hfree : (s.udp i).recvClient = 0 := by
      by_contra hne
      subst hsock
      exact hlose (.inl ⟨hi, hmay, hcli, hne, .inr ⟨hop, hpkts⟩⟩)
    exact h.recordRecv hi hcli hfree ⟨r, hlast, hsock, hop.op⟩

/-! ## Who is answered -/

theorem Accepted.others (h : ClientInv s g p) (hi : i ∈ s.tcpIds) (hacc : Accepted s i k t)
    (hc : c ≠ (s.tcp i).client) : t.blocked c = s.blocked c := by
  cases hacc with
  | full => exact if_neg hc
  | @done iaddr =>
    obtain ⟨-, hsame, -⟩ := h.accepted hi k iaddr
    have hblocked : (s.accepted i k (s.cnt + 1) iaddr).blocked = s.blocked := by
      unfold Net.accepted remFromQueue
      dsimp only
      split <;> rfl
    have hc' : c ≠ ((s.accepted i k (s.cnt + 1) iaddr).tcp i).client := by
      rw [hsame.client]
      exact hc
    exact (if_neg hc').trans (congrFun hblocked c)

/-- **A request is answered to its sender only.** -/
theorem Requested.others {kept : Bool} (h : ClientInv s g [r.cli]) (hlast : g.last r.cli = some r)
    (hreq : Requested s r frame kept t) (hc : c ≠ r.cli) : t.blocked c = s.blocked c := by
  cases hreq with
  | refused => exact if_neg hc
  | newUdp => exact if_neg hc
  | newTcp => exact if_neg hc
  | closeUdp => exact if_neg hc
  | closeListener => exact if_neg hc
  | closeClosed => exact if_neg hc
  | closing _ _ _ _ _ _ _ _ hsent => exact congrFun hsent.sameClients.blocked c
  | bindUdp => exact if_neg hc
  | bindTcp => exact if_neg hc
  | listening => exact if_neg hc
  | accepting => rfl
  | @acceptedQueued i k _ _ hop hi hsock _ hcli _ _ _ hacc =>
    have hinv : ClientInv (s.pending i r.cli .accept) g [] :=
      h.recordTcp .accept hi hcli (by decide) rfl rfl ⟨r, hlast, hsock, hop.op⟩
    have hclient : (((s.pending i r.cli .accept).setTcp i fun t =>
        { t with connectedQueue := t.connectedQueue.tail }).tcp i).client = r.cli := by
      rw [setTcp_self]
      exact congrArg (fun t : TcpSocket => t.client) (setTcp_self _)
    have hothers := hacc.others (hinv.same (sameClients_setTcp (f := fun t =>
      { t with connectedQueue := t.connectedQueue.tail }) ⟨rfl, rfl⟩)) hi (c := c) (by rw [hclient]; exact hc)
    exact hothers
  | @connecting i _ _ f _ _ _ _ _ _ _ _ _ hsent =>
    have hbind : SameClients s (s.autoBindTcp i f.addr) := sameClients_autoBindTcp
    exact (congrFun hsent.sameClients.blocked c).trans (congrFun hbind.blocked c)
  | @sendTcpBusy i k f arp mem =>
    have hbuilt : SameClients s (s.tcpBuilt i k frame f.addr arp mem r.data.length) := sameClients_tcpBuilt
    exact (if_neg hc).trans (congrFun hbuilt.blocked c)
  | @sendTcpWait i k _ f arp mem =>
    have hbuilt : SameClients s (s.tcpBuilt i k frame f.addr arp mem r.data.length) := sameClients_tcpBuilt
    exact congrFun hbuilt.blocked c
  | @sendTcpNow i k f arp mem =>
    have hbuilt : SameClients s (s.tcpBuilt i k frame f.addr arp mem r.data.length) := sameClients_tcpBuilt
    exact (if_neg hc).trans (congrFun hbuilt.blocked c)
  | @sendUdpBusy i f arp mem =>
    have hbuilt : SameClients s (s.udpBuilt i (frame + 32) f.addr arp mem) := sameClients_udpBuilt
    exact (if_neg hc).trans (congrFun hbuilt.blocked c)
  | @sendUdpWait i _ f arp mem =>
    have hbuilt : SameClients s (s.udpBuilt i (frame + 32) f.addr arp mem) := sameClients_udpBuilt
    exact congrFun hbuilt.blocked c
  | @sendUdpNow i f arp mem =>
    have hbuilt : SameClients s (s.udpBuilt i (frame + 32) f.addr arp mem) := sameClients_udpBuilt
    exact (if_neg hc).trans (congrFun hbuilt.blocked c)
  | recvTcpData => exact if_neg hc
  | recvTcpWait => rfl
  | @recvTcpEnd i k _ hi _ _ hcli _ _ _ hw => exact absurd ((h.tcp i hi).idle hcli) hw.1
  | recvUdpData => exact if_neg hc
  | recvUdpWait => rfl

/-! ## A round -/

theorem for_take {op : Nat} (h : g.For c i op) (hc : c ≠ r.cli) : (g.take r).For c i op := by
  obtain ⟨q, hq, hsock, hop⟩ := h
  exact ⟨q, (if_neg hc).trans hq, hsock, hop⟩

/-- A request is taken: its sender waits, and is not recorded yet. -/
theorem ClientInv.received (h : ClientInv s g []) (htakes : s.Takes r) :
    ClientInv (s.receiveRequest r frame) (g.take r) [r.cli] := by
  obtain ⟨-, hnil, hfree, -⟩ := htakes
  have hblocked : ∀ c, (s.receiveRequest r frame).blocked c = if c = r.cli then true else s.blocked c :=
    fun _ => rfl
  have hnew : r.cli ∉ s.records := fun hm => by
    have hb := (h.waits r.cli).mpr hm
    rw [hfree] at hb
    cases hb
  have hne : ∀ {d}, d ∈ s.records → d ≠ r.cli := fun hd hc => hnew (hc ▸ hd)
  have htcp : ∀ i ∈ s.tcpIds, ∀ d ∈ (s.tcp i).records, d ∈ s.records := fun i hi d hd =>
    List.mem_append_left _ (List.mem_flatMap.mpr ⟨i, hi, hd⟩)
  have hudp : ∀ i ∈ s.udpIds, ∀ d ∈ (s.udp i).records, d ∈ s.records := fun i hi d hd =>
    List.mem_append_right _ (List.mem_flatMap.mpr ⟨i, hi, hd⟩)
  refine ⟨h.ids.same rfl rfl le_rfl, List.nodup_cons.mpr ⟨hnew, h.nodup⟩, fun c => ?_, ?_, fun i hi => ?_,
    fun i hi => ?_, fun c => ?_⟩
  · rw [hblocked]
    by_cases hc : c = r.cli
    · rw [if_pos hc]
      exact iff_of_true rfl (hc ▸ List.mem_cons_self)
    · rw [if_neg hc, h.waits c]
      exact (List.mem_cons.trans (or_iff_right hc)).symm
  · intro h0
    rcases List.mem_cons.mp h0 with h0 | h0
    · exact hnil h0.symm
    · exact h.nonNil h0
  · have hok := h.tcp i hi
    exact ⟨hok.idle, fun d hd => for_take (hok.asked d hd) (hne (htcp i hi d hd))⟩
  · have hok := h.udp i hi
    exact ⟨hok.recv, fun hs => for_take (hok.sending hs) (hne (hudp i hi _ (client_mem hs))),
      fun hr => for_take (hok.receiving hr) (hne (hudp i hi _ (recvClient_mem hr)))⟩
  · have hcount : (g.take r).count c = if c = r.cli then g.count c + 1 else g.count c := rfl
    have hout : (s.receiveRequest r frame).out = s.out := rfl
    rw [hcount, hblocked, hout, h.count c]
    by_cases hc : c = r.cli
    · subst hc
      rw [if_pos rfl, if_pos rfl, hfree]
      rfl
    · rw [if_neg hc, if_neg hc]

theorem clientInv_init {key0 key1 : Nat} : ClientInv (Net.init key0 key1) ⟨fun _ => 0, fun _ => none⟩ [] where
  ids := ⟨.nil, .nil, nofun, nofun, nofun⟩
  nodup := .nil
  waits := fun _ => iff_of_false nofun List.not_mem_nil
  nonNil := List.not_mem_nil
  tcp := nofun
  udp := nofun
  count := fun _ => rfl

end Net

end Tcpip
end Wrmos
