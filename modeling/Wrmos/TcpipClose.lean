import Wrmos.TcpipArp
import Wrmos.TcpipTx

/-!
# The TCP/IP server: closing a socket

A thread may close a socket when its number lies in the range of the application, but a socket is taken out of
its list only for the thread that created it.  For another thread of the application a request is refused when
the socket is a UDP one; otherwise an assertion fails, at once, or when the last segment of the other end
arrives.

For the thread that created it a UDP socket is closed.  A TCP socket is not when it neither listens nor has a
connection, when it listens and has streams, and when its connection is neither closed nor established; and the
segment with our Fin needs a buffer, or two where the address of the other end is asked for, and the last
acknowledgement another one (`closes_iff`).  Between the request and the last segment anything may happen that
leaves the connection alone.
-/

namespace Wrmos
namespace Tcpip

open Lib

namespace Net

variable (s : Net)

/-! ## Requests and segments -/

/-- The request asks to close a socket that is idle, and comes from a thread of the application. -/
def MayClose (r : Request) : Prop :=
  s.Takes r ∧ s.Asks r 2 4 0 ∧
    match s.findUdp r.sock with
    | some i => (s.udp i).isOwner r.cli = true ∧ (s.udp i).cliState = .idle
    | none => ∃ i ∈ s.findTcp r.sock, (s.tcp i).isOwner r.cli = true ∧ (s.tcp i).cliState = .idle

/-- The last that left the server is a reply to a client without an error. -/
def told (cli : Nat) : Bool :=
  match s.out.getLast? with
  | some (.reply c ecode _ _) => c == cli && ecode == 0
  | _ => false

/-- The connection of a socket is being closed for a client. -/
structure Disconnecting (i k cli : Nat) : Prop where
  net : (s.tcp i).netState = .connection
  stream : (s.tcp i).stream = some k
  state : (s.stream k).state = .finWait1
  cliState : (s.tcp i).cliState = .close
  client : (s.tcp i).client = cli

/-- The buffers of the pool that are free. -/
def free : Nat := (List.range framesCount).countP fun n => !s.busy n

/-- A segment can be sent on the connection of a socket: there is an interface and a buffer, and two buffers
when the address of the other end is asked for, while the socket waits for no other. -/
def CanSend (i k : Nat) : Prop :=
  0 < s.free ∧ (txIface (s.tcp i).toSocket (s.stream k).remAddr).isSome = true ∧
    ((s.arpFind (s.stream k).remAddr).1 = macNil → 1 < s.free ∧ (s.tcp i).waitArp = false)

/-- What the cache learns from a frame. -/
def frameLearn (bytes : List UInt8) : Option (Nat × Nat) :=
  match s.ethBuf with
  | none => none
  | some eth =>
    match (parseEthFrame (s.mem.load eth bytes) eth bytes.length).result with
    | .ok p => p.learn
    | .error _ => none

/-- A frame with a segment of the other end of a connection, which acknowledges and is neither a reset nor
opens a connection. -/
def FromPeer (k : Nat) (bytes : List UInt8) (seg : Seg) : Prop :=
  bytes.length ≤ frameSz ∧ (∃ l ∈ s.frameLearn bytes, l.1 = seg.src ∧ l.2 ≠ macNil) ∧
    seg.src = (s.stream k).remAddr ∧ seg.sport = (s.stream k).remPort ∧ seg.has flagAck = true ∧
    seg.has flagRst = false ∧ seg.has flagSyn = false

/-- A closing segment for the socket, in its turn; `fin` says whether it is the one with Fin. -/
def Closing (i k : Nat) (fin : Bool) : Event → Prop
  | .frame bytes => ∃ p ∈ s.frameSegment bytes, s.FromPeer k bytes p.1 ∧ s.segSocket p.1 = some i ∧
      wrongSeq p.1 (s.stream k) = false ∧ p.1.has flagFin = fin
  | _ => False

/-- A segment of the other end that comes after the last one: it is for no socket, or for one that listens and
has no stream to the other end. -/
def Late (k : Nat) : Event → Prop
  | .frame bytes => ∃ p ∈ s.frameSegment bytes, s.FromPeer k bytes p.1 ∧
      ∀ i ∈ s.segSocket p.1, (s.tcp i).netState = .listen ∧ (s.tcp i).bound = true ∧
        s.findStream (s.tcp i).streams p.1.src p.1.sport = none
  | _ => False

/-- The connection of a socket is as it was, but for what was received. -/
structure SameConnection (s s' : Net) (i k cli : Nat) : Prop where
  listed : i ∈ s'.tcpIds ↔ i ∈ s.tcpIds
  node : k ∈ s'.allstreams.nodes ↔ k ∈ s.allstreams.nodes
  net : (s'.tcp i).netState = (s.tcp i).netState
  cliState : (s'.tcp i).cliState = (s.tcp i).cliState
  client : (s'.tcp i).client = (s.tcp i).client
  owner : (s'.tcp i).owner = (s.tcp i).owner
  bound : (s'.tcp i).bound = (s.tcp i).bound
  saddr : (s'.tcp i).saddrAddr = (s.tcp i).saddrAddr
  stream : (s'.tcp i).stream = (s.tcp i).stream
  state : (s'.stream k).state = (s.stream k).state
  remAddr : (s'.stream k).remAddr = (s.stream k).remAddr
  blocked : s'.blocked cli = s.blocked cli

instance (s s' : Net) (i k cli : Nat) : Decidable (SameConnection s s' i k cli) :=
  decidable_of_iff ((i ∈ s'.tcpIds ↔ i ∈ s.tcpIds) ∧ (k ∈ s'.allstreams.nodes ↔ k ∈ s.allstreams.nodes) ∧
      (s'.tcp i).netState = (s.tcp i).netState ∧ (s'.tcp i).cliState = (s.tcp i).cliState ∧
      (s'.tcp i).client = (s.tcp i).client ∧ (s'.tcp i).owner = (s.tcp i).owner ∧
      (s'.tcp i).bound = (s.tcp i).bound ∧ (s'.tcp i).saddrAddr = (s.tcp i).saddrAddr ∧
      (s'.tcp i).stream = (s.tcp i).stream ∧ (s'.stream k).state = (s.stream k).state ∧
      (s'.stream k).remAddr = (s.stream k).remAddr ∧ s'.blocked cli = s.blocked cli)
    ⟨fun ⟨h1, h2, h3, h4, h5, h6, h7, h8, h9, h10, h11, h12⟩ =>
        ⟨h1, h2, h3, h4, h5, h6, h7, h8, h9, h10, h11, h12⟩,
      fun ⟨h1, h2, h3, h4, h5, h6, h7, h8, h9, h10, h11, h12⟩ =>
        ⟨h1, h2, h3, h4, h5, h6, h7, h8, h9, h10, h11, h12⟩⟩

/-- The event leaves the connection alone. -/
def Apart (i k cli : Nat) (e : Event) : Prop :=
  match step s e with
  | .ok s' => SameConnection s s' i k cli
  | .error _ => False

/-- An event before the last segment: a closing segment without Fin, or one that leaves the connection
alone. -/
def Before (i k cli : Nat) (e : Event) : Prop := s.Closing i k false e ∨ s.Apart i k cli e

/-- The other end closes the connection: with the segment `fin`, after some events and before some late
segments. -/
def PeerCloses (i k cli : Nat) (before : List Event) (fin : Event) (late : List Event) : Prop :=
  Meets step (fun t e => t.Before i k cli e) s before ∧
    Post (runAll step s before) fun t => t.Closing i k true fin ∧
      Post (step t fin) fun u => Meets step (fun v e => v.Late k e) u late

/-! ## Closing a socket -/

/-- The socket was taken out of its list. -/
def Gone (s' : Net) (i : Nat) : Prop :=
  if (s.findUdp i).isSome then s'.udpIds = s.udpIds.erase i else s'.tcpIds = s.tcpIds.erase i

/-- No assertion fails up to the last of the late segments, and the socket is taken out of its list with the
segment `fin`. -/
def Finishes (i : Nat) (before : List Event) (fin : Event) (late : List Event) : Prop :=
  ∃ t t' u, runAll step s before = .ok t ∧ step t fin = .ok t' ∧ t'.tcpIds = t.tcpIds.erase i ∧
    runAll step t' late = .ok u ∧ u.tcpIds = t'.tcpIds

/-- The request closes the socket, or it starts the disconnect of a TCP socket and the segments of the other
end close it. -/
def Closes (r : Request) (before : List Event) (fin : Event) (late : List Event) : Prop :=
  ∃ s₁, step s (.request r) = .ok s₁ ∧ (s.Gone s₁ r.sock ∧ s₁.told r.cli = true ∨
    s.findUdp r.sock = none ∧ (∃ k, s₁.Disconnecting r.sock k r.cli) ∧
      s₁.Finishes r.sock before fin late)

/-- A buffer is free when the segment with Fin comes. -/
def FreeAtFin (r : Request) (before : List Event) : Prop :=
  Post (step s (.request r)) fun s₁ => Post (runAll step s₁ before) fun t => 0 < t.free

/-- A TCP socket can be closed for the thread that has created it: one that listens has no stream, and a
connection is closed, or it is established and the segments with our Fin and with the last acknowledgement can
be sent. -/
def CanCloseTcp (i : Nat) (r : Request) (before : List Event) : Prop :=
  (s.tcp i).owner = r.cli ∧
    match (s.tcp i).netState with
    | .idle => False
    | .listen => (s.tcp i).streams = [] ∧ (s.tcp i).connectedQueue = []
    | .connection => (s.tcp i).bound = true ∧ ∃ k ∈ (s.tcp i).stream, k ∈ s.allstreams.nodes ∧
      ((s.stream k).state = .closed ∨
        (s.stream k).state = .established ∧ s.CanSend i k ∧ s.FreeAtFin r before)

/-- The server can close the socket for the thread: it has created the socket. -/
def CanClose (r : Request) (before : List Event) : Prop :=
  match s.findUdp r.sock with
  | some i => (s.udp i).owner = r.cli
  | none => ∃ i ∈ s.findTcp r.sock, s.CanCloseTcp i r before

end Net

namespace Net

variable {s t u : Net} {i k n cli flags mac : Nat} {ipif : IpIface}

/-! ## Buffers -/

theorem free_pos : 0 < s.free ↔ ∃ n, n < framesCount ∧ s.busy n = false := by
  unfold free
  rw [List.countP_pos_iff]
  constructor
  · rintro ⟨n, hn, hb⟩
    exact ⟨n, List.mem_range.mp hn, by simpa using hb⟩
  · rintro ⟨n, hn, hb⟩
    exact ⟨n, List.mem_range.mpr hn, by simpa using hb⟩

theorem framesGet_of_free (h : 0 < s.free) : ∃ n, n < framesCount ∧ s.busy n = false ∧
    s.framesGet = some (n * frameStride, s.setBusy n true) := by
  obtain ⟨m, hm, hb⟩ := free_pos.mp h
  cases hget : s.framesGet with
  | none =>
    have hbusy := List.find?_eq_none.mp (Option.map_eq_none_iff.mp hget) m (List.mem_range.mpr hm)
    rw [hb] at hbusy
    exact absurd rfl hbusy
  | some p =>
    obtain ⟨a, v⟩ := p
    obtain ⟨n, hn, hfree, rfl, rfl⟩ := framesGet_eq_some hget
    exact ⟨n, hn, hfree, rfl⟩

theorem framesGet_of_not_free (h : ¬0 < s.free) : s.framesGet = none := by
  cases hget : s.framesGet with
  | none => rfl
  | some p =>
    obtain ⟨a, v⟩ := p
    obtain ⟨n, hn, hfree, -, -⟩ := framesGet_eq_some hget
    exact absurd (free_pos.mpr ⟨n, hn, hfree⟩) h

/-- A buffer that is taken is not free any more. -/
theorem free_setBusy (hn : n < framesCount) (hfree : s.busy n = false) :
    (s.setBusy n true).free + 1 = s.free := by
  have hperm := List.perm_cons_erase (List.mem_range.mpr hn)
  have hother : ∀ m ∈ (List.range framesCount).erase n, (s.setBusy n true).busy m = s.busy m := by
    intro m hm
    refine if_neg ?_
    rintro rfl
    exact List.nodup_range.not_mem_erase hm
  have hcount : (List.range framesCount).countP (fun m => !s.busy m) =
      ((List.range framesCount).erase n).countP (fun m => !s.busy m) + 1 :=
    (hperm.countP_eq _).trans (List.countP_cons_of_pos (by rw [hfree]; rfl))
  have hcount' : (List.range framesCount).countP (fun m => !(s.setBusy n true).busy m) =
      ((List.range framesCount).erase n).countP (fun m => !(s.setBusy n true).busy m) :=
    (hperm.countP_eq _).trans (List.countP_cons_of_neg (by simp [setBusy]))
  unfold free
  rw [hcount, hcount']
  congr 1
  refine List.countP_congr fun m hm => ?_
  rw [hother m hm]

/-! ## Calls that return -/

theorem sendArpRequest_ok_iff {iaddr : Nat} : (∃ t, s.sendArpRequest ipif iaddr = .ok t) ↔ 0 < s.free := by
  constructor
  · rintro ⟨t, ht⟩
    obtain ⟨n, -, -, hn, hfree, -⟩ := sendArpRequest_eq_ok ht
    exact free_pos.mpr ⟨n, hn, hfree⟩
  · intro h
    obtain ⟨n, hn, hfree, hget⟩ := framesGet_of_free h
    unfold sendArpRequest
    rw [hget]
    exact ⟨_, send_fresh hn hfree⟩

theorem sendTcpFrame_ok_iff (hn : n < framesCount) (hfree : s.busy n = false) :
    (∃ t, (s.setBusy n true).sendTcpFrame i k flags (n * frameStride) mac ipif = .ok t) ↔
      (mac = macNil → 1 < s.free ∧ (s.tcp i).waitArp = false) := by
  unfold sendTcpFrame
  dsimp only
  by_cases hmac : mac = macNil
  · rw [if_pos hmac]
    by_cases hwait : (s.tcp i).waitArp = false
    · rw [ensure_bind_of (by exact hwait), sendArpRequest_ok_iff]
      have hcount : (s.setBusy n true).free + 1 = s.free := free_setBusy hn hfree
      constructor
      · intro h _
        have h' : 0 < (s.setBusy n true).free := h
        exact ⟨by omega, hwait⟩
      · intro h
        show 0 < (s.setBusy n true).free
        have := (h hmac).1
        omega
    · rw [ensure_bind_of_not (by exact hwait)]
      exact iff_of_false nofun fun h => hwait (h hmac).2
  · rw [if_neg hmac]
    exact iff_of_true ⟨_, send_fresh hn hfree⟩ fun h => absurd h hmac

/-- **`send_tcp_msg` returns.** -/
theorem sendTcpMsg_ok_iff : (∃ t, s.sendTcpMsg i k flags = .ok t) ↔ s.CanSend i k := by
  obtain ⟨arp, harp⟩ := arpFind_eq (s := s) (s.stream k).remAddr
  unfold sendTcpMsg CanSend
  dsimp only
  rw [harp]
  by_cases hfree : 0 < s.free
  · obtain ⟨n, hn, hb, hget⟩ := framesGet_of_free (s := s.withArp arp) hfree
    rw [hget]
    dsimp only
    have htcp : (((s.withArp arp).setBusy n true).tcp i) = s.tcp i := rfl
    rw [htcp]
    cases hif : txIface (s.tcp i).toSocket (s.stream k).remAddr with
    | none => exact iff_of_false nofun fun h => by cases h.2.1
    | some f =>
      have hiff : (∃ t, ((s.withArp arp).setBusy n true).sendTcpFrame i k flags (n * frameStride)
          (s.arpFind (s.stream k).remAddr).1 f = .ok t) ↔ _ := sendTcpFrame_ok_iff hn hb
      exact hiff.trans ⟨fun h => ⟨hfree, rfl, h⟩, fun h => h.2.2⟩
  · rw [framesGet_of_not_free (s := s.withArp arp) hfree]
    exact iff_of_false nofun fun h => hfree h.1

/-- `send_icmp_dest_unreach` does not fail. -/
theorem sendIcmpDestUnreach_ok (s : Net) (ipif : IpIface) (ethReq reqLen code : Nat) :
    ∃ t, s.sendIcmpDestUnreach ipif ethReq reqLen code = .ok t := by
  unfold sendIcmpDestUnreach
  by_cases hfree : 0 < s.free
  · obtain ⟨n, hn, hb, hget⟩ := framesGet_of_free hfree
    rw [hget]
    exact ⟨_, send_fresh hn hb⟩
  · rw [framesGet_of_not_free hfree]
    exact ⟨s, rfl⟩

theorem replyToClient_of_waits {ecode : Nat} {words : List Nat} {bf : Option Buf} (h : s.Waits cli) :
    s.replyToClient cli ecode words bf = .ok (sentLen (s.fitted cli bf), s.replied cli ecode words bf) := by
  unfold replyToClient
  rw [ensure_bind_of h.1, ensure_bind_of h.2]
  rfl

/-- The end of a request. -/
theorem reply_of_waits {ecode : Nat} {words : List Nat} {bf : Option Buf} (h : s.Waits cli) :
    (s.replyToClient cli ecode words bf >>= fun p => .ok p.2) = .ok (s.replied cli ecode words bf) := by
  rw [replyToClient_of_waits h]
  rfl

theorem remStream_of (hnet : (s.tcp i).netState = .connection) (hcli : (s.tcp i).cliState = .closed)
    (hbound : (s.tcp i).bound = true) (hk : (s.tcp i).stream = some k) (hmem : k ∈ s.allstreams.nodes) :
    s.remStream i = .ok { s with allstreams := s.allstreams.erase k } := by
  unfold remStream streamsRemove
  rw [ensure_bind_of hnet, ensure_bind_of hcli, ensure_bind_of hbound, hk]
  dsimp only
  rw [if_pos hmem]
  rfl

theorem removeTcp_of {owner : Nat} (hi : i ∈ s.tcpIds) (howner : (s.tcp i).owner = owner) :
    s.removeTcp i owner = .ok { s with tcpIds := s.tcpIds.erase i } := by
  unfold removeTcp tcpSocketsRemove
  rw [if_pos ⟨hi, howner⟩]
  rfl

/-! ## What stays of a connection -/

theorem SameConnection.refl (s : Net) (i k cli : Nat) : SameConnection s s i k cli :=
  ⟨Iff.rfl, Iff.rfl, rfl, rfl, rfl, rfl, rfl, rfl, rfl, rfl, rfl, rfl⟩

theorem SameConnection.trans (h : SameConnection s t i k cli) (h' : SameConnection t u i k cli) :
    SameConnection s u i k cli where
  listed := h'.listed.trans h.listed
  node := h'.node.trans h.node
  net := h'.net.trans h.net
  cliState := h'.cliState.trans h.cliState
  client := h'.client.trans h.client
  owner := h'.owner.trans h.owner
  bound := h'.bound.trans h.bound
  saddr := h'.saddr.trans h.saddr
  stream := h'.stream.trans h.stream
  state := h'.state.trans h.state
  remAddr := h'.remAddr.trans h.remAddr
  blocked := h'.blocked.trans h.blocked

theorem SameConnection.disconnecting (h : SameConnection s t i k cli) (hd : s.Disconnecting i k cli) :
    t.Disconnecting i k cli where
  net := h.net.trans hd.net
  stream := h.stream.trans hd.stream
  state := h.state.trans hd.state
  cliState := h.cliState.trans hd.cliState
  client := h.client.trans hd.client

/-- A segment that is sent leaves the connection alone. -/
theorem Sent.sameConnection (h : Sent s i k t) : SameConnection s t i k cli := by
  cases h with
  | now => exact ⟨Iff.rfl, Iff.rfl, rfl, rfl, rfl, rfl, rfl, rfl, rfl, rfl, rfl, rfl⟩
  | stored =>
    refine ⟨Iff.rfl, Iff.rfl, ?_, ?_, ?_, ?_, ?_, ?_, ?_, rfl, rfl, rfl⟩ <;>
      simp [emitted, setBusy, setTcp, withArp, waiting]

theorem canSend_congr (hbusy : t.busy = s.busy) (haddr : (t.tcp i).saddrAddr = (s.tcp i).saddrAddr)
    (hwait : (t.tcp i).waitArp = (s.tcp i).waitArp) (hrem : (t.stream k).remAddr = (s.stream k).remAddr)
    (harp : t.arp = s.arp) (hnow : t.now = s.now) : t.CanSend i k ↔ s.CanSend i k := by
  unfold CanSend free txIface
  rw [hbusy, haddr, hwait, hrem, arpFind_congr harp hnow]

/-! ## A segment of the other end -/

/-- An address that was added is found. -/
theorem arpFind_arpAdd (s : Net) (ip mac : Nat) : ((s.arpAdd ip mac).arpFind ip).1 = mac := by
  have hnow : (s.arpAdd ip mac).now = s.now := by
    obtain ⟨arp, h⟩ := arpAdd_eq (s := s) ip mac
    rw [h]
    rfl
  have hnew : ArpCache.newRecord s ip mac ∈ (s.arpAdd ip mac).arp ∧
      ∀ r ∈ (s.arpAdd ip mac).arp, r.ip = ip → r = ArpCache.newRecord s ip mac := by
    have hnone : ArpCache.cached s ip = false → ∀ r ∈ s.arp, r.ip ≠ ip := fun hc r hr hip =>
      absurd (ArpCache.cached_iff.mpr ⟨r, hr, hip⟩) (by rw [hc]; decide)
    rcases ArpCache.arpAdd_cases s ip mac with ⟨hc, h⟩ | ⟨hc, -, h⟩ | ⟨v, rest, hc, -, harp, h⟩
    · obtain ⟨q, hq, hip⟩ := ArpCache.cached_iff.mp hc
      rw [h]
      refine ⟨List.mem_map.mpr ⟨q, hq, if_pos hip⟩, fun r hr hr' => ?_⟩
      obtain ⟨o, -, rfl⟩ := List.mem_map.mp hr
      by_cases ho : o.ip = ip
      · exact if_pos ho
      · rw [if_neg ho] at hr'
        exact absurd hr' ho
    · rw [h]
      refine ⟨List.mem_append_right _ (List.mem_singleton_self _), fun r hr hr' => ?_⟩
      rcases List.mem_append.mp hr with hold | hnew
      · exact absurd hr' (hnone hc r hold)
      · exact List.mem_singleton.mp hnew
    · rw [h]
      refine ⟨List.mem_append_right _ (List.mem_singleton_self _), fun r hr hr' => ?_⟩
      rcases List.mem_append.mp hr with hold | hnew
      · exact absurd hr' (hnone hc r (harp ▸ List.mem_cons_of_mem v hold))
      · exact List.mem_singleton.mp hnew
  rcases ArpCache.arpFind_cases (s.arpAdd ip mac) ip with ⟨hnot, -⟩ | ⟨r, hr, hip, hfind⟩
  · have hcached : ArpCache.cached (s.arpAdd ip mac) ip = true := ArpCache.cached_iff.mpr ⟨_, hnew.1, rfl⟩
    rw [hnot] at hcached
    cases hcached
  · obtain rfl := hnew.2 r hr hip
    rcases hfind with ⟨hlate, -⟩ | ⟨-, hfind⟩
    · rw [hnow] at hlate
      exact absurd hlate (Nat.not_lt.mpr (Nat.le_add_right _ _))
    · rw [hfind]
      rfl

variable {bytes : List UInt8} {p : Seg × Nat} {seg : Seg}

/-- A round with a segment of the other end: its address is known, and the segment goes to its socket. -/
theorem step_segment (hp : p ∈ s.frameSegment bytes) (hpeer : s.FromPeer k bytes p.1) :
    ∃ eth arp ipif, step s (.frame bytes) = (s.received eth bytes arp).processTcpPacket ipif eth p.1 ∧
      ((s.received eth bytes arp).arpFind (s.stream k).remAddr).1 ≠ macNil := by
  obtain ⟨hlen, ⟨l, hl, hip, hmac⟩, hrem, -⟩ := hpeer
  unfold frameSegment at hp
  unfold frameLearn at hl
  cases heth : s.ethBuf with
  | none =>
    rw [heth] at hp
    cases hp
  | some eth =>
    rw [heth] at hp hl
    dsimp only at hp hl
    cases hparse : (parseEthFrame (s.mem.load eth bytes) eth bytes.length).result with
    | error e =>
      rw [hparse] at hp
      cases hp
    | ok q =>
      rw [hparse] at hp hl
      obtain ⟨learnt, packet⟩ := q
      cases packet with
      | tcp seg =>
        obtain rfl := Option.some.inj hp
        have hlearnt : learnt = some l := hl
        have hadd := arpFind_arpAdd ((s.setMem eth (s.mem.load eth bytes)).touch eth) l.1 l.2
        obtain ⟨arp, harp⟩ := arpAdd_eq (s := (s.setMem eth (s.mem.load eth bytes)).touch eth) l.1 l.2
        rw [harp] at hadd
        refine ⟨eth, arp, (findIface ((s.received eth bytes arp).mem.be32 (eth + 30))).getD ⟨0, 0, 0⟩, ?_, ?_⟩
        · dsimp only [step]
          rw [heth]
          dsimp only
          rw [if_neg (Nat.not_lt.mpr hlen)]
          unfold processEthFrame
          have hmem : (s.setMem eth (s.mem.load eth bytes)).mem = s.mem.load eth bytes := rfl
          rw [hmem, hparse, ok_bind]
          unfold learn
          rw [hlearnt]
          dsimp only
          rw [harp]
          rfl
        · rw [← hrem, ← hip]
          exact hadd ▸ hmac
      | _ => cases hp

/-- The socket that a segment is for gets it. -/
theorem processTcpPacket_of (h : s.segSocket seg = some i) {eth : Nat} :
    s.processTcpPacket ipif eth seg = s.processTcpToSocket i seg := by
  unfold segSocket at h
  unfold processTcpPacket
  cases hconn : s.findConnectedSocket seg.dst seg.dport seg.src seg.sport with
  | some j =>
    rw [hconn] at h
    obtain rfl := Option.some.inj h
    rfl
  | none =>
    rw [hconn] at h
    have hlisten : s.findListeningSocket seg.dst seg.dport = some i := h
    dsimp only
    rw [hlisten]

theorem processTcpToSocket_of (hnet : (s.tcp i).netState = .connection) (hk : (s.tcp i).stream = some k) :
    s.processTcpToSocket i seg = s.processTcpToStream i seg k := by
  unfold processTcpToSocket selectStream
  rw [hnet]
  dsimp only
  rw [hk]
  rfl

/-- A segment for a connection that is being closed. -/
theorem processTcpToStream_of (hstate : (s.stream k).state = .finWait1)
    (hseq : wrongSeq seg (s.stream k) = false) (hrst : seg.has flagRst = false) :
    s.processTcpToStream i seg k = (s.setStream k (rxSeq seg)).tcpFinWait1 i seg k := by
  have hstate' : ((s.setStream k (rxSeq seg)).stream k).state = .finWait1 := by
    rw [setStream_self, (sameTx_rxSeq seg _).state]
    exact hstate
  unfold processTcpToStream
  rw [hseq, hrst]
  dsimp only [Bool.false_eq_true, if_false]
  rw [if_neg Bool.false_ne_true, if_neg Bool.false_ne_true, ok_bind]
  unfold tcpSwitch
  rw [hstate']

variable {e : Event} {es : List Event} {fin : Bool}

/-- A round with a closing segment: it reaches the stream, and the address of the other end is known. -/
theorem step_closing (hd : s.Disconnecting i k cli) (h : s.Closing i k fin e) :
    ∃ u seg, step s e = u.tcpFinWait1 i seg k ∧ (seg.has flagAck = true ∧ seg.has flagFin = fin) ∧
      SameConnection s u i k cli ∧ (u.busy = s.busy ∧ u.tcpIds = s.tcpIds) ∧
        (u.arpFind (u.stream k).remAddr).1 ≠ macNil := by
  cases e with
  | frame bytes =>
    obtain ⟨p, hp, hpeer, hseg, hseq, hfin⟩ := h
    obtain ⟨eth, arp, ipif, hstep, hmac⟩ := step_segment hp hpeer
    obtain ⟨-, -, -, -, hack, hrst, -⟩ := hpeer
    have hu : Tx.SameSockets s (s.received eth bytes arp) := ⟨rfl, rfl, rfl, rfl⟩
    have hmac' : ∀ ip, (((s.received eth bytes arp).setStream k (rxSeq p.1)).arpFind ip).1 =
        ((s.received eth bytes arp).arpFind ip).1 := arpFind_congr rfl rfl
    have hrem : (((s.received eth bytes arp).setStream k (rxSeq p.1)).stream k).remAddr =
        (s.stream k).remAddr := by
      rw [setStream_self, (rxSeq_end p.1 _).1]
      rfl
    refine ⟨(s.received eth bytes arp).setStream k (rxSeq p.1), p.1, ?_, ⟨hack, hfin⟩, ?_, ⟨rfl, rfl⟩, ?_⟩
    · rw [hstep, processTcpPacket_of (hu.segSocket.trans hseg),
        processTcpToSocket_of (s := s.received eth bytes arp) hd.net hd.stream,
        processTcpToStream_of (s := s.received eth bytes arp) hd.state hseq hrst]
    · refine ⟨Iff.rfl, Iff.rfl, rfl, rfl, rfl, rfl, rfl, rfl, rfl, ?_, hrem, rfl⟩
      rw [setStream_self, (sameTx_rxSeq p.1 _).state]
      rfl
    · rw [hrem, hmac']
      exact hmac
  | _ => cases h

/-! ## Up to the last segment -/

theorem Before.step_ok (h : s.Before i k cli e) (hd : s.Disconnecting i k cli) :
    ∃ t, step s e = .ok t ∧ SameConnection s t i k cli := by
  rcases h with hclosing | hapart
  · obtain ⟨u, seg, hstep, ⟨-, hfin⟩, hsame, -⟩ := step_closing hd hclosing
    refine ⟨u, ?_, hsame⟩
    rw [hstep]
    unfold tcpFinWait1
    rw [hfin]
    rfl
  · unfold Apart at hapart
    cases hstep : step s e with
    | error err =>
      rw [hstep] at hapart
      cases hapart
    | ok t =>
      rw [hstep] at hapart
      exact ⟨t, rfl, hapart⟩

/-- No assertion fails before the last segment, and the connection waits for it. -/
theorem before_run (hd : s.Disconnecting i k cli) (h : Meets step (fun t e => t.Before i k cli e) s es) :
    ∃ t, runAll step s es = .ok t ∧ SameConnection s t i k cli := by
  induction es generalizing s with
  | nil => exact ⟨s, rfl, .refl s i k cli⟩
  | cons e es ih =>
    obtain ⟨t, ht, hsame⟩ := h.1.step_ok hd
    obtain ⟨u, hu, hsame'⟩ := ih (hsame.disconnecting hd) (h.2 t ht)
    exact ⟨u, bind_eq_ok.mpr ⟨t, ht, hu⟩, hsame.trans hsame'⟩

/-! ## The last segment -/

/-- What the last segment asks of the connection. -/
structure CanFinish (s : Net) (i k cli : Nat) : Prop where
  free : 0 < s.free
  bound : (s.tcp i).bound = true
  node : k ∈ s.allstreams.nodes
  listed : i ∈ s.tcpIds
  owner : (s.tcp i).owner = cli

/-- The connection after the last segment, before it is acknowledged. -/
def lastSeen (s : Net) (k : Nat) : Net :=
  s.setStream k fun st =>
    { st with state := .timeWait, seqRx := seqAdd st.seqRx 1, seqTx := seqAdd st.seqTx 1 }

/-- **The segment with Fin** takes the socket out of the list exactly for the thread that created it. -/
theorem tcpFinWait1_ok_iff (hd : s.Disconnecting i k cli) (hack : seg.has flagAck = true)
    (hfin : seg.has flagFin = true) (hw : s.Waits cli)
    (hif : (txIface (s.tcp i).toSocket (s.stream k).remAddr).isSome = true)
    (hmac : (s.arpFind (s.stream k).remAddr).1 ≠ macNil) :
    (∃ t, s.tcpFinWait1 i seg k = .ok t) ↔ s.CanFinish i k cli := by
  have hrem : ((s.lastSeen k).stream k).remAddr = (s.stream k).remAddr := by
    unfold lastSeen
    rw [setStream_self]
  have hsend : (∃ v, (s.lastSeen k).sendTcpMsg i k flagAck = .ok v) ↔ 0 < s.free := by
    rw [sendTcpMsg_ok_iff, canSend_congr (s := s) (t := s.lastSeen k) rfl rfl rfl hrem rfl rfl]
    exact ⟨fun h => h.1, fun h => ⟨h, hif, fun hm => absurd hm hmac⟩⟩
  have hsame : ∀ {v}, (s.lastSeen k).sendTcpMsg i k flagAck = .ok v →
      SameConnection (s.lastSeen k) v i k cli := fun hv => (sendTcpMsg_sent hv).sameConnection
  have hflags : (seg.has flagFin && seg.has flagAck) = true := by
    rw [hfin, hack]
    rfl
  unfold tcpFinWait1
  rw [if_pos hflags]
  constructor
  · rintro ⟨t, ht⟩
    obtain ⟨v, hv, ht⟩ := bind_eq_ok.mp ht
    obtain ⟨-, ht⟩ := ensure_bind_eq_ok.mp ht
    obtain ⟨⟨n, w⟩, hr, ht⟩ := bind_eq_ok.mp ht
    obtain ⟨-, -, rfl⟩ := replyToClient_cases hr
    obtain ⟨x, hrs, ht⟩ := bind_eq_ok.mp ht
    obtain ⟨-, -, hbound, l, hl, hmem, rfl⟩ := remStream_eq_ok hrs
    obtain ⟨hi, howner, -⟩ := removeTcp_eq_ok ht
    have hv' := hsame hv
    rw [setTcp_self] at hbound hl howner
    have hlk : l = k := Option.some.inj (hl.symm.trans (hv'.stream.trans hd.stream))
    subst hlk
    exact ⟨hsend.mp ⟨v, hv⟩, hv'.bound.symm.trans hbound, hv'.node.mp hmem, hv'.listed.mp hi,
      (hv'.owner.symm.trans howner).trans (hv'.client.trans hd.client)⟩
  · rintro ⟨hfree, hbound, hmem, hi, howner⟩
    obtain ⟨v, hv⟩ := hsend.mpr hfree
    have hv' := hsame hv
    have hclient : (v.tcp i).client = cli := hv'.client.trans hd.client
    have hwaits : v.Waits cli := ⟨hw.1, hv'.blocked.trans hw.2⟩
    refine ⟨((v.replied cli 0 [] none).setTcp i fun t => { t with cliState := .closed }).removed i k, ?_⟩
    refine bind_eq_ok.mpr ⟨v, hv, ?_⟩
    rw [ensure_bind_of (hv'.cliState.trans hd.cliState), hclient, replyToClient_of_waits hwaits, ok_bind]
    dsimp only
    rw [remStream_of (k := k) ?_ ?_ ?_ ?_ ?_, ok_bind]
    · refine removeTcp_of (hv'.listed.mpr hi) ?_
      show ((((v.replied cli 0 [] none).setTcp i fun t => { t with cliState := .closed }).tcp i).owner =
        (((v.replied cli 0 [] none).setTcp i fun t => { t with cliState := .closed }).tcp i).client)
      rw [setTcp_self]
      exact (hv'.owner.trans howner).trans hclient.symm
    · rw [setTcp_self]
      exact hv'.net.trans hd.net
    · rw [setTcp_self]
    · rw [setTcp_self]
      exact hv'.bound.trans hbound
    · rw [setTcp_self]
      exact hv'.stream.trans hd.stream
    · exact hv'.node.mpr hmem

theorem tcpFinWait1_tcpIds (hack : seg.has flagAck = true) (hfin : seg.has flagFin = true)
    (h : s.tcpFinWait1 i seg k = .ok t) : t.tcpIds = s.tcpIds.erase i := by
  cases tcpFinWait1_cases h with
  | no hno => exact absurd ⟨hfin, hack⟩ hno
  | @closed v l _ _ hsent =>
    have hids : v.tcpIds = s.tcpIds := by cases hsent <;> rfl
    show v.tcpIds.erase i = s.tcpIds.erase i
    rw [hids]

/-! ## After the last segment -/

theorem Late.step_ok (h : s.Late k e) : ∃ t, step s e = .ok t ∧ t.tcpIds = s.tcpIds := by
  cases e with
  | frame bytes =>
    obtain ⟨p, hp, hpeer, hno⟩ := h
    obtain ⟨eth, arp, ipif, hstep, -⟩ := step_segment hp hpeer
    obtain ⟨-, -, -, -, -, -, hsyn⟩ := hpeer
    have hu : Tx.SameSockets s (s.received eth bytes arp) := ⟨rfl, rfl, rfl, rfl⟩
    rw [hstep]
    cases hseg : s.segSocket p.1 with
    | none =>
      have hnone : (s.received eth bytes arp).segSocket p.1 = none := hu.segSocket.trans hseg
      obtain ⟨hconn, hlisten⟩ := Option.or_eq_none_iff.mp hnone
      obtain ⟨t, ht⟩ := sendIcmpDestUnreach_ok (s.received eth bytes arp) ipif eth p.1.reqLen
        codeDstPortUnreach
      refine ⟨t, ?_, ?_⟩
      · unfold processTcpPacket
        rw [hconn, hlisten]
        exact ht
      · rcases sendIcmpDestUnreach_eq_ok ht with rfl | ⟨m, f, rfl⟩
        · rfl
        · rfl
    | some i =>
      obtain ⟨hnet, hbound, hfind⟩ := hno i hseg
      refine ⟨s.received eth bytes arp, ?_, rfl⟩
      rw [processTcpPacket_of (hu.segSocket.trans hseg)]
      unfold processTcpToSocket selectStream
      have hnet' : ((s.received eth bytes arp).tcp i).netState = .listen := hnet
      have hfind' : (s.received eth bytes arp).findStream ((s.received eth bytes arp).tcp i).streams p.1.src
          p.1.sport = none := hfind
      rw [hnet']
      dsimp only
      rw [ensure_bind_of (by exact hbound), hfind', hsyn]
      rfl
  | _ => cases h

theorem late_run (h : Meets step (fun t e => t.Late k e) s es) :
    ∃ t, runAll step s es = .ok t ∧ t.tcpIds = s.tcpIds := by
  induction es generalizing s with
  | nil => exact ⟨s, rfl, rfl⟩
  | cons e es ih =>
    obtain ⟨t, ht, hids⟩ := h.1.step_ok
    obtain ⟨u, hu, hids'⟩ := ih (h.2 t ht)
    exact ⟨u, bind_eq_ok.mpr ⟨t, ht, hu⟩, hids'.trans hids⟩

variable {before late : List Event} {fin : Event}

/-- **The end of a disconnect**: the segments of the other end take the socket out of its list exactly for the
thread that created it, while a buffer is free for the last acknowledgement. -/
theorem finishes_iff (hd : s.Disconnecting i k cli) (hpeer : s.PeerCloses i k cli before fin late)
    (hw : s.Waits cli) (hif : (txIface (s.tcp i).toSocket (s.stream k).remAddr).isSome = true) :
    s.Finishes i before fin late ↔ (Post (runAll step s before) fun t => 0 < t.free) ∧
      (s.tcp i).bound = true ∧ k ∈ s.allstreams.nodes ∧ i ∈ s.tcpIds ∧ (s.tcp i).owner = cli := by
  obtain ⟨t, ht, hsame⟩ := before_run hd hpeer.1
  obtain ⟨hclosing, hlate⟩ := hpeer.2 t ht
  obtain ⟨u, seg, hstep, ⟨hack, hfin⟩, hsame', ⟨hbusy, hids⟩, hmac⟩ :=
    step_closing (hsame.disconnecting hd) hclosing
  have hall : SameConnection s u i k cli := hsame.trans hsame'
  have hwaits : u.Waits cli := ⟨hw.1, hall.blocked.trans hw.2⟩
  have hif' : (txIface (u.tcp i).toSocket (u.stream k).remAddr).isSome = true := by
    unfold txIface at hif ⊢
    rw [hall.saddr, hall.remAddr]
    exact hif
  have hfree : u.free = t.free := by
    unfold free
    rw [hbusy]
  have hiff := tcpFinWait1_ok_iff (hall.disconnecting hd) hack hfin hwaits hif' hmac
  rw [Post.iff_of_ok ht, ← hfree, ← hall.bound, ← hall.node, ← hall.listed, ← hall.owner]
  constructor
  · rintro ⟨t', v, w, ht', hv, -⟩
    obtain rfl := Except.ok.inj (ht.symm.trans ht')
    obtain ⟨h1, h2, h3, h4, h5⟩ := hiff.mp ⟨v, hstep.symm.trans hv⟩
    exact ⟨h1, h2, h3, h4, h5⟩
  · rintro ⟨h1, h2, h3, h4, h5⟩
    obtain ⟨v, hv⟩ := hiff.mpr ⟨h1, h2, h3, h4, h5⟩
    have hv' : step t fin = .ok v := hstep.trans hv
    obtain ⟨w, hw, hids'⟩ := late_run (hlate v hv')
    exact ⟨t, v, w, ht, hv', (tcpFinWait1_tcpIds hack hfin hv).trans (by rw [hids]), hw, hids'⟩

/-! ## The request -/

variable {r : Request} {frame : Nat}

theorem told_replied {words : List Nat} {bf : Option Buf} : (s.replied cli 0 words bf).told cli = true := by
  simp [told, replied]

theorem not_told_replied {ecode : Nat} {words : List Nat} {bf : Option Buf} (h : ecode ≠ 0) :
    (s.replied cli ecode words bf).told cli = false := by
  simp [told, replied, h]

/-- A round with a request to close. -/
theorem step_close (hbuf : s.cliBuf = some frame) (htakes : s.Takes r) (hasks : s.Asks r 2 4 0) :
    step s (.request r) = ((s.receiveRequest r frame).processCliClose r >>= fun p =>
      .ok (if p.1 then { p.2 with cliBuf := none } else p.2)) := by
  obtain ⟨-, hcli, hfree, hlen⟩ := htakes
  have hno : ¬(r.cli = 0 ∨ s.blocked r.cli = true ∨ frameSz - hdrsSpace < r.data.length) := by
    rintro (h0 | hb | hl)
    · exact hcli h0
    · rw [hfree] at hb
      cases hb
    · omega
  have hform : ¬r.untyped < 3 := by
    rw [hasks.untyped]
    decide
  have hkeys : ¬(r.mr 1 ≠ (s.receiveRequest r frame).key0 ∨ r.mr 2 ≠ (s.receiveRequest r frame).key1) :=
    not_or.mpr ⟨not_not.mpr hasks.key0, not_not.mpr hasks.key1⟩
  dsimp only [step]
  rw [hbuf]
  dsimp only
  rw [if_neg hno]
  unfold clientRequest processClientRequest
  rw [if_neg hform, if_neg hkeys, hasks.op]
  rfl

/-- A request to close a UDP socket. -/
theorem step_close_udp (hbuf : s.cliBuf = some frame) (htakes : s.Takes r) (hasks : s.Asks r 2 4 0)
    (hfind : s.findUdp r.sock = some i) (hmay : (s.udp i).isOwner r.cli = true)
    (hidle : (s.udp i).cliState = .idle) : step s (.request r) =
      .ok (if (s.udp i).owner = r.cli then
        ({ (s.receiveRequest r frame) with udpIds := s.udpIds.erase i }).replied r.cli 0 [] none
      else (s.receiveRequest r frame).replied r.cli 6 [] none) := by
  have hw : (s.receiveRequest r frame).Waits r.cli := ⟨htakes.2.1, if_pos rfl⟩
  have hform : ¬(r.untyped ≠ 4 ∨ r.typed ≠ 0) :=
    not_or.mpr ⟨not_not.mpr hasks.untyped, not_not.mpr hasks.typed⟩
  have hmay' : ¬((s.receiveRequest r frame).udp i).isOwner r.cli = false := by
    rw [Bool.not_eq_false]
    exact hmay
  have hidle' : ¬((s.receiveRequest r frame).udp i).cliState ≠ .idle := not_not.mpr hidle
  have hfind' : (s.receiveRequest r frame).findUdp r.sock = some i := hfind
  rw [step_close hbuf htakes hasks]
  unfold processCliClose
  rw [if_neg hform, hfind']
  dsimp only
  rw [if_neg hmay', if_neg hidle']
  by_cases howner : (s.udp i).owner = r.cli
  · have hremove : (s.receiveRequest r frame).udpSocketsRemove i r.cli =
        (false, { (s.receiveRequest r frame) with udpIds := s.udpIds.erase i }) :=
      if_pos ⟨(findUdp_eq_some hfind).1, howner⟩
    rw [hremove, if_pos howner]
    unfold answer
    rw [replyToClient_of_waits (s := { (s.receiveRequest r frame) with udpIds := s.udpIds.erase i }) hw]
    rfl
  · have hremove : (s.receiveRequest r frame).udpSocketsRemove i r.cli = (true, s.receiveRequest r frame) :=
      if_neg fun h => howner h.2
    rw [hremove, if_neg howner]
    unfold refuse answer
    rw [replyToClient_of_waits hw]
    rfl

/-- A request to close a TCP socket. -/
theorem step_close_tcp (hbuf : s.cliBuf = some frame) (htakes : s.Takes r) (hasks : s.Asks r 2 4 0)
    (hudp : s.findUdp r.sock = none) (hfind : s.findTcp r.sock = some i)
    (hmay : (s.tcp i).isOwner r.cli = true) (hidle : (s.tcp i).cliState = .idle) :
    step s (.request r) = (s.receiveRequest r frame).processCliCloseTcp i r.cli := by
  have hform : ¬(r.untyped ≠ 4 ∨ r.typed ≠ 0) :=
    not_or.mpr ⟨not_not.mpr hasks.untyped, not_not.mpr hasks.typed⟩
  have hmay' : ¬((s.receiveRequest r frame).tcp i).isOwner r.cli = false := by
    rw [Bool.not_eq_false]
    exact hmay
  have hidle' : ¬((s.receiveRequest r frame).tcp i).cliState ≠ .idle := not_not.mpr hidle
  have hudp' : (s.receiveRequest r frame).findUdp r.sock = none := hudp
  have hfind' : (s.receiveRequest r frame).findTcp r.sock = some i := hfind
  rw [step_close hbuf htakes hasks]
  unfold processCliClose
  rw [if_neg hform, hudp']
  dsimp only
  rw [hfind']
  dsimp only
  rw [if_neg hmay', if_neg hidle']
  cases (s.receiveRequest r frame).processCliCloseTcp i r.cli with
  | ok t => rfl
  | error e => rfl

/-- A socket that is closed at once. -/
def closedTcp (s : Net) (i : Nat) : Net := s.setTcp i fun t => { t with cliState := .closed }

theorem closeListener_iff (hnet : (s.tcp i).netState = .listen) (hi : i ∈ s.tcpIds) (hw : s.Waits cli) :
    s.processCliCloseTcp i cli = .ok t ↔
      ((s.tcp i).owner = cli ∧ (s.tcp i).streams = [] ∧ (s.tcp i).connectedQueue = []) ∧
        t = ({ (s.closedTcp i) with tcpIds := s.tcpIds.erase i }).replied cli 0 [] none := by
  have howner : ((s.closedTcp i).tcp i).owner = (s.tcp i).owner := by
    unfold closedTcp
    rw [setTcp_self]
  have hempty : (s.tcp i).streams.length + (s.tcp i).connectedQueue.length = 0 ↔
      (s.tcp i).streams = [] ∧ (s.tcp i).connectedQueue = [] := by
    rw [Nat.add_eq_zero_iff, List.length_eq_zero_iff, List.length_eq_zero_iff]
  unfold processCliCloseTcp
  rw [hnet]
  dsimp only
  rw [ensure_bind_eq_ok, hempty]
  constructor
  · rintro ⟨hnil, h⟩
    obtain ⟨u, hrem, h⟩ := bind_eq_ok.mp h
    obtain ⟨-, ho, rfl⟩ := removeTcp_eq_ok hrem
    obtain ⟨⟨n, v⟩, hr, h⟩ := bind_eq_ok.mp h
    obtain ⟨-, -, rfl⟩ := replyToClient_cases hr
    exact ⟨⟨howner.symm.trans ho, hnil⟩, (Except.ok.inj h).symm⟩
  · rintro ⟨⟨ho, hnil⟩, rfl⟩
    refine ⟨hnil, ?_⟩
    have hrem : (s.closedTcp i).removeTcp i cli = _ := removeTcp_of hi (howner.trans ho)
    exact bind_eq_ok.mpr ⟨_, hrem, reply_of_waits hw⟩

theorem closeClosed_iff (hnet : (s.tcp i).netState = .connection) (hk : (s.tcp i).stream = some k)
    (hst : (s.stream k).state = .closed) (hi : i ∈ s.tcpIds) (hw : s.Waits cli) :
    s.processCliCloseTcp i cli = .ok t ↔
      ((s.tcp i).owner = cli ∧ (s.tcp i).bound = true ∧ k ∈ s.allstreams.nodes) ∧
        t = ((s.closedTcp i).removed i k).replied cli 0 [] none := by
  have hself : (s.closedTcp i).tcp i = { s.tcp i with cliState := .closed } := setTcp_self _
  unfold processCliCloseTcp
  rw [hnet]
  dsimp only
  rw [hk]
  dsimp only
  rw [hst]
  dsimp only
  constructor
  · intro h
    obtain ⟨u, hrs, h⟩ := bind_eq_ok.mp h
    obtain ⟨-, -, hbound, l, hl, hmem, rfl⟩ := remStream_eq_ok hrs
    obtain ⟨v, hrem, h⟩ := bind_eq_ok.mp h
    obtain ⟨-, ho, rfl⟩ := removeTcp_eq_ok hrem
    obtain ⟨⟨n, w⟩, hr, h⟩ := bind_eq_ok.mp h
    obtain ⟨-, -, rfl⟩ := replyToClient_cases hr
    rw [setTcp_self] at hbound hl
    obtain rfl := Option.some.inj (hl.symm.trans hk)
    have ho' : ((s.closedTcp i).tcp i).owner = cli := ho
    rw [hself] at ho'
    exact ⟨⟨ho', hbound, hmem⟩, (Except.ok.inj h).symm⟩
  · rintro ⟨⟨ho, hbound, hmem⟩, rfl⟩
    have hrs : (s.closedTcp i).remStream i = _ :=
      remStream_of (k := k) (by rw [hself]; exact hnet) (by rw [hself]) (by rw [hself]; exact hbound)
        (by rw [hself]; exact hk) hmem
    refine bind_eq_ok.mpr ⟨_, hrs, ?_⟩
    have hrem : ({ (s.closedTcp i) with allstreams := s.allstreams.erase k } : Net).removeTcp i cli = _ :=
      removeTcp_of hi (by show ((s.closedTcp i).tcp i).owner = cli; rw [hself]; exact ho)
    exact bind_eq_ok.mpr ⟨_, hrem, reply_of_waits hw⟩

/-- The state in which the segment with our Fin is sent. -/
def closing (s : Net) (i k cli : Nat) : Net :=
  (s.pending i cli .close).setStream k fun st => { st with state := .finWait1 }

theorem closing_self (s : Net) (i k cli : Nat) :
    (s.closing i k cli).tcp i = { s.tcp i with cliState := .close, client := cli } := if_pos rfl

theorem closeEstablished_eq (hnet : (s.tcp i).netState = .connection) (hk : (s.tcp i).stream = some k)
    (hst : (s.stream k).state = .established) :
    s.processCliCloseTcp i cli = (s.closing i k cli).sendTcpMsg i k (flagFin + flagAck) := by
  unfold processCliCloseTcp
  rw [hnet]
  dsimp only
  rw [hk]
  dsimp only
  rw [hst]
  rfl

/-- The other states of a connection. -/
theorem closeOther_error (hnet : (s.tcp i).netState = .connection) (hk : (s.tcp i).stream = some k)
    (hclosed : (s.stream k).state ≠ .closed) (hest : (s.stream k).state ≠ .established) :
    s.processCliCloseTcp i cli ≠ .ok t := by
  unfold processCliCloseTcp
  rw [hnet]
  dsimp only
  rw [hk]
  dsimp only
  cases hst : (s.stream k).state with
  | closed => exact absurd hst hclosed
  | established => exact absurd hst hest
  | _ => nofun

theorem closing_disconnecting (hnet : (s.tcp i).netState = .connection) (hk : (s.tcp i).stream = some k) :
    (s.closing i k cli).Disconnecting i k cli := by
  have hself := closing_self s i k cli
  refine ⟨?_, ?_, ?_, ?_, ?_⟩
  · rw [hself]
    exact hnet
  · rw [hself]
    exact hk
  · unfold closing
    rw [setStream_self]
  · rw [hself]
  · rw [hself]

theorem closing_canSend : (s.closing i k cli).CanSend i k ↔ s.CanSend i k := by
  have hself := closing_self s i k cli
  refine canSend_congr rfl ?_ ?_ ?_ rfl rfl
  · rw [hself]
  · rw [hself]
  · unfold closing
    rw [setStream_self]
    rfl

/-! ## What a socket can be closed for -/

theorem erase_ne {l : List Nat} (h : i ∈ l) : l ≠ l.erase i := fun heq => by
  have hlen := List.length_erase_add_one h
  rw [← heq] at hlen
  omega

section Tcp

variable (hbuf : s.cliBuf = some frame) (htakes : s.Takes r) (hasks : s.Asks r 2 4 0)
  (hudp : s.findUdp r.sock = none) (hfind : s.findTcp r.sock = some i)
  (hmay : (s.tcp i).isOwner r.cli = true) (hidle : (s.tcp i).cliState = .idle)

include hbuf htakes hasks hudp hfind hmay hidle

theorem closes_listener (hnet : (s.tcp i).netState = .listen) : s.Closes r before fin late ↔
    (s.tcp i).owner = r.cli ∧ (s.tcp i).streams = [] ∧ (s.tcp i).connectedQueue = [] := by
  have hw : (s.receiveRequest r frame).Waits r.cli := ⟨htakes.2.1, if_pos rfl⟩
  obtain ⟨hi, hid⟩ := findTcp_eq_some hfind
  have hclose := fun t => closeListener_iff (s := s.receiveRequest r frame) (t := t) hnet hi hw
  unfold Closes Gone
  rw [step_close_tcp hbuf htakes hasks hudp hfind hmay hidle, hudp, ← hid]
  constructor
  · rintro ⟨s₁, hstep, -⟩
    exact ((hclose s₁).mp hstep).1
  · intro h
    exact ⟨_, (hclose _).mpr ⟨h, rfl⟩, .inl ⟨rfl, told_replied⟩⟩

theorem closes_closed (hnet : (s.tcp i).netState = .connection) (hk : (s.tcp i).stream = some k)
    (hst : (s.stream k).state = .closed) : s.Closes r before fin late ↔
      (s.tcp i).owner = r.cli ∧ (s.tcp i).bound = true ∧ k ∈ s.allstreams.nodes := by
  have hw : (s.receiveRequest r frame).Waits r.cli := ⟨htakes.2.1, if_pos rfl⟩
  obtain ⟨hi, hid⟩ := findTcp_eq_some hfind
  have hclose := fun t => closeClosed_iff (s := s.receiveRequest r frame) (t := t) hnet hk hst hi hw
  unfold Closes Gone
  rw [step_close_tcp hbuf htakes hasks hudp hfind hmay hidle, hudp, ← hid]
  constructor
  · rintro ⟨s₁, hstep, -⟩
    exact ((hclose s₁).mp hstep).1
  · intro h
    exact ⟨_, (hclose _).mpr ⟨h, rfl⟩, .inl ⟨rfl, told_replied⟩⟩

theorem closes_established (hnet : (s.tcp i).netState = .connection) (hk : (s.tcp i).stream = some k)
    (hst : (s.stream k).state = .established)
    (hpeer : ∀ s₁ l, step s (.request r) = .ok s₁ → s₁.Disconnecting r.sock l r.cli →
      s₁.PeerCloses r.sock l r.cli before fin late) : s.Closes r before fin late ↔
        (s.tcp i).owner = r.cli ∧ (s.tcp i).bound = true ∧ k ∈ s.allstreams.nodes ∧ s.CanSend i k ∧
          s.FreeAtFin r before := by
  obtain ⟨hi, hid⟩ := findTcp_eq_some hfind
  have hstep : step s (.request r) =
      ((s.receiveRequest r frame).closing i k r.cli).sendTcpMsg i k (flagFin + flagAck) :=
    (step_close_tcp hbuf htakes hasks hudp hfind hmay hidle).trans (closeEstablished_eq hnet hk hst)
  have hsend : (∃ s₁, step s (.request r) = .ok s₁) ↔ s.CanSend i k := by
    rw [hstep, sendTcpMsg_ok_iff, closing_canSend]
    exact canSend_congr rfl rfl rfl rfl rfl rfl
  have hself : ((s.receiveRequest r frame).closing i k r.cli).tcp i =
      { s.tcp i with cliState := .close, client := r.cli } := closing_self _ i k r.cli
  have hrem : (((s.receiveRequest r frame).closing i k r.cli).stream k).remAddr = (s.stream k).remAddr := by
    unfold closing
    rw [setStream_self]
    rfl
  have hfinishes : ∀ s₁, step s (.request r) = .ok s₁ → s₁.Disconnecting i k r.cli ∧ s₁.tcpIds = s.tcpIds ∧
      (s₁.Finishes i before fin late ↔ (s.tcp i).owner = r.cli ∧ (s.tcp i).bound = true ∧
        k ∈ s.allstreams.nodes ∧ s.FreeAtFin r before) := by
    intro s₁ h₁
    have hsent := sendTcpMsg_sent (hstep.symm.trans h₁)
    have hsame : SameConnection ((s.receiveRequest r frame).closing i k r.cli) s₁ i k r.cli :=
      hsent.sameConnection
    have hd := hsame.disconnecting (closing_disconnecting (s := s.receiveRequest r frame) hnet hk)
    have hids : s₁.tcpIds = s.tcpIds := by
      obtain ⟨-, hif, -⟩ := hsend.mp ⟨s₁, h₁⟩
      cases hsent <;> rfl
    refine ⟨hd, hids, ?_⟩
    have hwaits : s₁.Waits r.cli := ⟨htakes.2.1, hsame.blocked.trans (if_pos rfl)⟩
    have hif : (txIface (s₁.tcp i).toSocket (s₁.stream k).remAddr).isSome = true := by
      have h := (hsend.mp ⟨s₁, h₁⟩).2.1
      unfold txIface at h ⊢
      rw [hsame.saddr, hsame.remAddr, hrem, hself]
      exact h
    have howner : (s₁.tcp i).owner = (s.tcp i).owner := hsame.owner.trans (by rw [hself])
    have hbound : (s₁.tcp i).bound = (s.tcp i).bound := hsame.bound.trans (by rw [hself])
    have hnode : k ∈ s₁.allstreams.nodes ↔ k ∈ s.allstreams.nodes := hsame.node
    rw [finishes_iff hd (hid ▸ hpeer s₁ k h₁ (hid ▸ hd)) hwaits hif, howner, hbound, hnode, hids]
    unfold FreeAtFin
    rw [Post.iff_of_ok h₁]
    exact ⟨fun ⟨h1, h2, h3, _, h5⟩ => ⟨h5, h2, h3, h1⟩, fun ⟨h1, h2, h3, h4⟩ => ⟨h4, h2, h3, hi, h1⟩⟩
  constructor
  · rintro ⟨s₁, h₁, hor⟩
    obtain ⟨-, hids, hiff⟩ := hfinishes s₁ h₁
    rcases hor with ⟨hgone, -⟩ | ⟨-, -, hfin⟩
    · unfold Gone at hgone
      rw [hudp, ← hid] at hgone
      exact absurd (hids.symm.trans hgone) (erase_ne hi)
    · obtain ⟨h1, h2, h3, h4⟩ := hiff.mp (hid ▸ hfin)
      exact ⟨h1, h2, h3, hsend.mp ⟨s₁, h₁⟩, h4⟩
  · rintro ⟨h1, h2, h3, hcan, h4⟩
    obtain ⟨s₁, h₁⟩ := hsend.mpr hcan
    obtain ⟨hd, -, hiff⟩ := hfinishes s₁ h₁
    exact ⟨s₁, h₁, .inr ⟨hudp, ⟨k, hid ▸ hd⟩, hid ▸ hiff.mpr ⟨h1, h2, h3, h4⟩⟩⟩

end Tcp

/-- A connection that is neither closed nor established, or a socket without one, fails an assertion. -/
theorem not_closes_of_error (hbuf : s.cliBuf = some frame) (htakes : s.Takes r) (hasks : s.Asks r 2 4 0)
    (hudp : s.findUdp r.sock = none) (hfind : s.findTcp r.sock = some i)
    (hmay : (s.tcp i).isOwner r.cli = true) (hidle : (s.tcp i).cliState = .idle)
    (hno : ∀ t, (s.receiveRequest r frame).processCliCloseTcp i r.cli ≠ .ok t) :
    ¬s.Closes r before fin late := by
  rintro ⟨s₁, hstep, -⟩
  exact hno s₁ ((step_close_tcp hbuf htakes hasks hudp hfind hmay hidle).symm.trans hstep)

theorem closes_udp (hbuf : s.cliBuf = some frame) (htakes : s.Takes r) (hasks : s.Asks r 2 4 0)
    (hfind : s.findUdp r.sock = some i) (hmay : (s.udp i).isOwner r.cli = true)
    (hidle : (s.udp i).cliState = .idle) : s.Closes r before fin late ↔ (s.udp i).owner = r.cli := by
  obtain ⟨-, hid⟩ := findUdp_eq_some hfind
  unfold Closes Gone
  rw [step_close_udp hbuf htakes hasks hfind hmay hidle, hfind, ← hid]
  by_cases howner : (s.udp i).owner = r.cli
  · rw [if_pos howner]
    exact iff_of_true ⟨_, rfl, .inl ⟨rfl, told_replied⟩⟩ howner
  · rw [if_neg howner]
    refine iff_of_false ?_ howner
    rintro ⟨s₁, hstep, ⟨-, htold⟩ | ⟨hno, -⟩⟩
    · obtain rfl := Except.ok.inj hstep
      rw [not_told_replied (by decide)] at htold
      cases htold
    · cases hno

/-- **Closing a socket**: for a thread of the application, the request closes the socket, or it starts the
disconnect and the segments of the other end close it, exactly when the thread has created the socket and the
server can close it. -/
theorem closes_iff (hmay : s.MayClose r)
    (hpeer : ∀ s₁ k, step s (.request r) = .ok s₁ → s₁.Disconnecting r.sock k r.cli →
      s₁.PeerCloses r.sock k r.cli before fin late) :
    s.Closes r before fin late ↔ s.CanClose r before := by
  obtain ⟨htakes, hasks, hsock⟩ := hmay
  obtain ⟨frame, hbuf⟩ := Option.ne_none_iff_exists'.mp htakes.1
  unfold CanClose
  cases hudp : s.findUdp r.sock with
  | some i =>
    rw [hudp] at hsock
    exact closes_udp hbuf htakes hasks hudp hsock.1 hsock.2
  | none =>
    rw [hudp] at hsock
    obtain ⟨i, hfind, howner, hidle⟩ := hsock
    have hfind' : s.findTcp r.sock = some i := hfind
    have hexists : ∀ P : Nat → Prop, (∃ j ∈ s.findTcp r.sock, P j) ↔ P i := fun P =>
      ⟨fun ⟨j, hj, h⟩ => Option.some.inj (hfind'.symm.trans hj) ▸ h, fun h => ⟨i, hfind, h⟩⟩
    dsimp only
    rw [hexists]
    unfold CanCloseTcp
    cases hnet : (s.tcp i).netState with
    | idle =>
      refine iff_of_false (not_closes_of_error hbuf htakes hasks hudp hfind' howner hidle fun t ht => ?_)
        fun h => h.2
      unfold processCliCloseTcp at ht
      rw [show ((s.receiveRequest r frame).tcp i).netState = .idle from hnet] at ht
      cases ht
    | listen => exact closes_listener hbuf htakes hasks hudp hfind' howner hidle hnet
    | connection =>
      dsimp only
      cases hk : (s.tcp i).stream with
      | none =>
        refine iff_of_false (not_closes_of_error hbuf htakes hasks hudp hfind' howner hidle fun t ht => ?_) ?_
        · unfold processCliCloseTcp at ht
          rw [show ((s.receiveRequest r frame).tcp i).netState = .connection from hnet] at ht
          dsimp only at ht
          rw [show ((s.receiveRequest r frame).tcp i).stream = none from hk] at ht
          cases ht
        · rintro ⟨-, -, k, hk', -⟩
          cases hk'
      | some k =>
        have hstream : ∀ P : Nat → Prop, (∃ j ∈ some k, P j) ↔ P k := fun P =>
          ⟨fun ⟨j, hj, h⟩ => Option.some.inj hj ▸ h, fun h => ⟨k, rfl, h⟩⟩
        rw [hstream]
        by_cases hclosed : (s.stream k).state = .closed
        · rw [closes_closed hbuf htakes hasks hudp hfind' howner hidle hnet hk hclosed]
          exact ⟨fun ⟨h1, h2, h3⟩ => ⟨h1, h2, h3, .inl hclosed⟩, fun ⟨h1, h2, h3, _⟩ => ⟨h1, h2, h3⟩⟩
        by_cases hest : (s.stream k).state = .established
        · rw [closes_established hbuf htakes hasks hudp hfind' howner hidle hnet hk hest hpeer]
          exact ⟨fun ⟨h1, h2, h3, h4⟩ => ⟨h1, h2, h3, .inr ⟨hest, h4⟩⟩, fun ⟨h1, h2, h3, h4⟩ =>
            ⟨h1, h2, h3, (h4.resolve_left hclosed).2⟩⟩
        · refine iff_of_false (not_closes_of_error hbuf htakes hasks hudp hfind' howner hidle fun t =>
            closeOther_error (s := s.receiveRequest r frame) hnet hk hclosed hest) ?_
          rintro ⟨-, -, -, h | h⟩
          · exact hclosed h
          · exact hest h.1

/-! ## Two threads -/

/-- The segments of the other end, by the socket's own stream. -/
theorem peerCloses_of (h : Post (step s (.request r)) fun s₁ => ∀ k ∈ (s₁.tcp r.sock).stream,
    s₁.PeerCloses r.sock k r.cli before fin late) (s₁ : Net) (l : Nat) (h₁ : step s (.request r) = .ok s₁)
    (hd : s₁.Disconnecting r.sock l r.cli) : s₁.PeerCloses r.sock l r.cli before fin late :=
  h s₁ h₁ l hd.stream

instance (s : Net) (r : Request) : Decidable (s.MayClose r) := by
  unfold MayClose
  split <;> infer_instance

instance (s : Net) (i k : Nat) : Decidable (s.CanSend i k) := by
  unfold CanSend
  infer_instance

instance (s : Net) (k : Nat) (bytes : List UInt8) (seg : Seg) : Decidable (s.FromPeer k bytes seg) := by
  unfold FromPeer
  infer_instance

instance (s : Net) (i k : Nat) (fin : Bool) : ∀ e, Decidable (s.Closing i k fin e)
  | .frame bytes => inferInstanceAs (Decidable (∃ p ∈ s.frameSegment bytes, s.FromPeer k bytes p.1 ∧
      s.segSocket p.1 = some i ∧ wrongSeq p.1 (s.stream k) = false ∧ p.1.has flagFin = fin))
  | .ethGet | .clientGet | .request _ | .wait _ => isFalse id

instance (s : Net) (k : Nat) : ∀ e, Decidable (s.Late k e)
  | .frame bytes => inferInstanceAs (Decidable (∃ p ∈ s.frameSegment bytes, s.FromPeer k bytes p.1 ∧
      ∀ i ∈ s.segSocket p.1, (s.tcp i).netState = .listen ∧ (s.tcp i).bound = true ∧
        s.findStream (s.tcp i).streams p.1.src p.1.sport = none))
  | .ethGet | .clientGet | .request _ | .wait _ => isFalse id

instance (s : Net) (i k cli : Nat) (e : Event) : Decidable (s.Apart i k cli e) := by
  unfold Apart
  split <;> infer_instance

instance (s : Net) (i k cli : Nat) (e : Event) : Decidable (s.Before i k cli e) :=
  inferInstanceAs (Decidable (_ ∨ _))

instance (s : Net) (i k cli : Nat) (before : List Event) (fin : Event) (late : List Event) :
    Decidable (s.PeerCloses i k cli before fin late) := by
  unfold PeerCloses
  infer_instance

instance (s : Net) (r : Request) (before : List Event) : Decidable (s.FreeAtFin r before) := by
  unfold FreeAtFin
  infer_instance

instance (s : Net) (i : Nat) (r : Request) (before : List Event) : Decidable (s.CanCloseTcp i r before) := by
  unfold CanCloseTcp
  split <;> infer_instance

instance (s : Net) (r : Request) (before : List Event) : Decidable (s.CanClose r before) := by
  unfold CanClose
  split <;> infer_instance

end Net

namespace Close

open Net
open Tx (hostSegment)

/-- A connection of `alice` to a host whose address is known. -/
def aliceRun : List Event :=
  [.clientGet, .ethGet, segmentFrame 5000 7 flagAck [], tcpSocketRequest alice,
    connectRequest alice 1 hostAddr 80, hostSegment 500 1 (flagSyn + flagAck)]

/-- The host acknowledges our Fin, sends its own, and repeats an acknowledgement. -/
def hostAck : Event := hostSegment 501 2 flagAck

def hostFin : Event := hostSegment 501 2 (flagFin + flagAck)

def hostLate : Event := hostSegment 502 2 flagAck

/-- A request to close the socket. -/
def closing (cli : Nat) : Request := .from cli 2 4 0 [1] []

/-- What a thread and the host may do after a run. -/
def Ready (s : Net) (cli : Nat) : Prop :=
  s.MayClose (closing cli) ∧ Post (step s (.request (closing cli))) fun s₁ =>
    ∀ k ∈ (s₁.tcp 1).stream, s₁.PeerCloses 1 k cli [hostAck] hostFin [hostLate]

instance (s : Net) (cli : Nat) : Decidable (Ready s cli) := by
  unfold Ready
  infer_instance

/-- The thread that created the socket closes it. -/
theorem aliceRun_closes : ∃ s, run (.init 0 0) aliceRun = .ok s ∧
    s.Closes (closing alice) [hostAck] hostFin [hostLate] := by
  have hok : okAnd (run (.init 0 0) aliceRun)
      (fun s => decide (Ready s alice ∧ s.CanClose (closing alice) [hostAck])) = true := by
    decide +kernel
  obtain ⟨s, hrun, hs⟩ := okAnd_iff.mp hok
  obtain ⟨hready, hcan⟩ := of_decide_eq_true hs
  exact ⟨s, hrun, (closes_iff hready.1 (peerCloses_of hready.2)).mpr hcan⟩

/-- Another thread of the application starts the disconnect, and the host's Fin fails an assertion. -/
theorem aliceRun_not_closed_by_bob : ∃ s, run (.init 0 0) aliceRun = .ok s ∧ Ready s bob ∧
    ¬s.Closes (closing bob) [hostAck] hostFin [hostLate] := by
  have hok : okAnd (run (.init 0 0) aliceRun) (fun s => decide (Ready s bob ∧
      s.findUdp 1 = none ∧ s.findTcp 1 = some 1 ∧ (s.tcp 1).isOwner bob = true ∧ (s.tcp 1).cliState = .idle ∧
      (s.tcp 1).netState = .connection ∧ (s.tcp 1).stream = some 0 ∧ (s.stream 0).state = .established ∧
      (s.tcp 1).owner = alice)) = true := by
    decide +kernel
  obtain ⟨s, hrun, hs⟩ := okAnd_iff.mp hok
  obtain ⟨hready, hudp, hfind, hmay, hidle, hnet, hk, hst, howner⟩ := of_decide_eq_true hs
  refine ⟨s, hrun, hready, fun hcloses => ?_⟩
  obtain ⟨htakes, hasks, -⟩ := hready.1
  obtain ⟨frame, hbuf⟩ := Option.ne_none_iff_exists'.mp htakes.1
  have hbob := (closes_established hbuf htakes hasks hudp hfind hmay hidle hnet hk hst
    (peerCloses_of hready.2)).mp hcloses
  exact absurd (howner.symm.trans hbob.1) (by decide)

end Close

end Tcpip
end Wrmos
