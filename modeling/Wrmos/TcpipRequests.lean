import Wrmos.TcpipCases

/-!
# The TCP/IP server: what a request does, in cases

`Requested` has one constructor for each thing a request can do when it returns; the many refusals
are one case, since they all reply with an error and change nothing else.  The state is the one
after the message has arrived, so the sender waits for its reply.
-/

namespace Wrmos
namespace Tcpip

open Lib

namespace Net

variable {s s' : Net} {r : Request} {i k frame : Nat} {kept : Bool}

theorem findTcp_eq_some {id : Nat} (h : s.findTcp id = some i) : i ∈ s.tcpIds ∧ i = id :=
  ⟨List.mem_of_find?_eq_some h, by simpa using List.find?_some h⟩

theorem findUdp_eq_some {id : Nat} (h : s.findUdp id = some i) : i ∈ s.udpIds ∧ i = id :=
  ⟨List.mem_of_find?_eq_some h, by simpa using List.find?_some h⟩

/-- The state with a new UDP socket. -/
def withUdp (s : Net) (owner thrnoBegin thrnoEnd : Nat) : Net :=
  { s with
    cnt := s.cnt + 1
    udpIds := s.udpIds ++ [s.cnt + 1]
    udp := fun j => if j = s.cnt + 1 then
      ⟨Socket.mk' owner thrnoBegin thrnoEnd (s.cnt + 1), .idle, []⟩ else s.udp j }

/-- The state with a new TCP socket. -/
def withTcp (s : Net) (owner thrnoBegin thrnoEnd : Nat) : Net :=
  { s with
    cnt := s.cnt + 1
    tcpIds := s.tcpIds ++ [s.cnt + 1]
    tcp := fun j => if j = s.cnt + 1 then
      ⟨Socket.mk' owner thrnoBegin thrnoEnd (s.cnt + 1), .idle, .idle, [], [], 0, none⟩ else s.tcp j }

/-- A client operation of a TCP socket begins. -/
def pending (s : Net) (i cli : Nat) (c : TcpCli) : Net :=
  s.setTcp i fun t => { t with cliState := c, client := cli }

/-- The state of a socket that starts to connect, with its stream in node `k`. -/
def connecting (s : Net) (i k : Nat) (l : NodeList Unit) (cli ifaddr addr port : Nat) : Net :=
  let s := (s.autoBindTcp i ifaddr).setTcp i fun t =>
    { t with netState := .connection, cliState := .connect, client := cli }
  ({ s with
      allstreams := l
      stream := fun j => if j = k then { Stream.mk' addr port with state := .synSent }
        else s.stream j }).setTcp i fun t => { t with stream := some k }

/-- The state in which `process_cli_sendto_tcp` has built its frame in the buffer. -/
def tcpBuilt (s : Net) (i k frame ifaddr : Nat) (arp : List ArpRecord) (mem : Lib.Mem) (len : Nat) : Net :=
  (((s.autoBindTcp i ifaddr).withArp arp).setMem frame mem).setStream k fun st =>
    { st with seqTx := seqAdd st.seqTx len }

/-- The state in which `process_cli_sendto_udp` has built its frame in the buffer. -/
def udpBuilt (s : Net) (i frame ifaddr : Nat) (arp : List ArpRecord) (mem : Lib.Mem) : Net :=
  ((s.autoBindUdp i ifaddr).withArp arp).setMem frame mem

/-- The socket waits with a frame and a client for an ARP reply. -/
def udpWaiting (frame len cli : Nat) (u : UdpSocket) : UdpSocket :=
  { u with txEthFrame := frame, txEthFrameLen := len, waitArp := true, cliState := .send, client := cli }

def tcpWaiting (frame len cli : Nat) (t : TcpSocket) : TcpSocket :=
  { t with txEthFrame := frame, txEthFrameLen := len, waitArp := true, cliState := .send, client := cli }

/-- The request has the keys of the server, an operation and the size of its message. -/
structure Asks (s : Net) (r : Request) (op untyped typed : Nat) : Prop where
  key0 : r.mr 1 = s.key0
  key1 : r.mr 2 = s.key1
  op : r.mr 3 = op
  untyped : r.untyped = untyped
  typed : r.typed = typed

instance (s : Net) (r : Request) (op untyped typed : Nat) : Decidable (s.Asks r op untyped typed) :=
  decidable_of_iff (r.mr 1 = s.key0 ∧ r.mr 2 = s.key1 ∧ r.mr 3 = op ∧ r.untyped = untyped ∧
    r.typed = typed) ⟨fun ⟨h1, h2, h3, h4, h5⟩ => ⟨h1, h2, h3, h4, h5⟩, fun ⟨h1, h2, h3, h4, h5⟩ =>
      ⟨h1, h2, h3, h4, h5⟩⟩

/-- What a request does. -/
inductive Requested (s : Net) (r : Request) (frame : Nat) : Bool → Net → Prop where
  | refused {ecode : Nat} (hcode : ecode ≠ 0) (hw : s.Waits r.cli) :
      Requested s r frame false (s.replied r.cli ecode [] none)
  | newUdp {b e : Nat} (hop : r.mr 3 = 1) (hroom : s.udpIds.length ≠ listCap)
      (hw : (s.withUdp r.cli b e).Waits r.cli) :
      Requested s r frame false ((s.withUdp r.cli b e).replied r.cli 0 [s.cnt + 1] none)
  | newTcp {b e : Nat} (hop : r.mr 3 = 1) (hroom : s.tcpIds.length ≠ listCap)
      (hw : (s.withTcp r.cli b e).Waits r.cli) :
      Requested s r frame false ((s.withTcp r.cli b e).replied r.cli 0 [s.cnt + 1] none)
  | closeUdp {i : Nat} (hop : s.Asks r 2 4 0) (hi : i ∈ s.udpIds) (hsock : r.sock = i)
      (hmay : (s.udp i).isOwner r.cli = true)
      (hcli : (s.udp i).cliState = .idle) (hown : (s.udp i).owner = r.cli) (hw : s.Waits r.cli) :
      Requested s r frame false (({ s with udpIds := s.udpIds.erase i }).replied r.cli 0 [] none)
  | closeListener {i : Nat} (hop : s.Asks r 2 4 0) (hi : i ∈ s.tcpIds) (hsock : r.sock = i)
      (hmay : (s.tcp i).isOwner r.cli = true)
      (hcli : (s.tcp i).cliState = .idle) (hnet : (s.tcp i).netState = .listen)
      (hempty : (s.tcp i).streams = [] ∧ (s.tcp i).connectedQueue = []) (hw : s.Waits r.cli) :
      Requested s r frame false (({ (s.setTcp i fun t => { t with cliState := .closed }) with
        tcpIds := s.tcpIds.erase i }).replied r.cli 0 [] none)
  | closeClosed {i k : Nat} (hop : s.Asks r 2 4 0) (hi : i ∈ s.tcpIds) (hsock : r.sock = i)
      (hmay : (s.tcp i).isOwner r.cli = true)
      (hcli : (s.tcp i).cliState = .idle) (hnet : (s.tcp i).netState = .connection)
      (hk : (s.tcp i).stream = some k) (hst : (s.stream k).state = .closed)
      (hmem : k ∈ s.allstreams.nodes) (hw : s.Waits r.cli) :
      Requested s r frame false (((s.setTcp i fun t => { t with cliState := .closed }).removed i
        k).replied r.cli 0 [] none)
  | closing {i k : Nat} {t : Net} (hop : s.Asks r 2 4 0) (hi : i ∈ s.tcpIds) (hsock : r.sock = i)
      (hmay : (s.tcp i).isOwner r.cli = true)
      (hcli : (s.tcp i).cliState = .idle) (hnet : (s.tcp i).netState = .connection)
      (hk : (s.tcp i).stream = some k) (hst : (s.stream k).state = .established)
      (hsent : Sent ((s.pending i r.cli .close).setStream k fun st => { st with state := .finWait1 })
        i k t) : Requested s r frame false t
  | bindUdp {i : Nat} (hop : r.mr 3 = 3) (hi : i ∈ s.udpIds) (hcli : (s.udp i).cliState = .idle)
      (hbound : (s.udp i).bound = false) (hw : s.Waits r.cli) :
      Requested s r frame false ((s.setUdp i fun u =>
        { u with toSocket := bindSocket u.toSocket (r.sinAddr 5) (r.sinPort 5) }).replied r.cli 0 [] none)
  | bindTcp {i : Nat} (hop : r.mr 3 = 3) (hi : i ∈ s.tcpIds) (hcli : (s.tcp i).cliState = .idle)
      (hnet : (s.tcp i).netState = .idle) (hbound : (s.tcp i).bound = false)
      (hiface : r.sinAddr 5 = inaddrAny ∨ findIface (r.sinAddr 5) ≠ none) (hw : s.Waits r.cli) :
      Requested s r frame false ((s.setTcp i fun t =>
        { t with toSocket := bindSocket t.toSocket (r.sinAddr 5) (r.sinPort 5) }).replied r.cli 0 [] none)
  | listening {i : Nat} (hop : r.mr 3 = 4) (hi : i ∈ s.tcpIds) (hcli : (s.tcp i).cliState = .idle)
      (hnet : (s.tcp i).netState = .idle) (hbound : (s.tcp i).bound = true) (hw : s.Waits r.cli) :
      Requested s r frame false ((s.setTcp i fun t =>
        { t with connectedQueueSz := backlogSz (r.mr 5 % 2 ^ 32), netState := .listen }).replied
          r.cli 0 [] none)
  | accepting {i : Nat} (hop : s.Asks r 5 4 0) (hi : i ∈ s.tcpIds) (hsock : r.sock = i)
      (hcli : (s.tcp i).cliState = .idle)
      (hnet : (s.tcp i).netState = .listen) (hbound : (s.tcp i).bound = true)
      (hqueue : (s.tcp i).connectedQueue = []) :
      Requested s r frame false (s.pending i r.cli .accept)
  | acceptedQueued {i k : Nat} {q : List Nat} {t : Net} (hop : s.Asks r 5 4 0) (hi : i ∈ s.tcpIds)
      (hsock : r.sock = i)
      (hmay : (s.tcp i).isOwner r.cli = true)
      (hcli : (s.tcp i).cliState = .idle) (hnet : (s.tcp i).netState = .listen)
      (hbound : (s.tcp i).bound = true) (hqueue : (s.tcp i).connectedQueue = k :: q)
      (hacc : Accepted ((s.pending i r.cli .accept).setTcp i fun t =>
        { t with connectedQueue := t.connectedQueue.tail }) i k t) : Requested s r frame false t
  | connecting {i k : Nat} {l : NodeList Unit} {f : IpIface} {t : Net} (hop : r.mr 3 = 6)
      (hi : i ∈ s.tcpIds) (hsock : r.sock = i)
      (hcli : (s.tcp i).cliState = .idle) (hnet : (s.tcp i).netState = .idle)
      (hstream : (s.tcp i).stream = none) (hiface : findMasked (r.sinAddr 5) = some f)
      (hpush : s.allstreams.pushBack () = some (l, k))
      (hsent : Sent (s.connecting i k l r.cli f.addr (r.sinAddr 5) (r.sinPort 5)) i k t) :
      Requested s r frame false t
  | sendTcpBusy {i k : Nat} {f : IpIface} {arp : List ArpRecord} {mem : Lib.Mem}
      (hop : s.Asks r 7 9 2) (hi : i ∈ s.tcpIds)
      (hcli : (s.tcp i).cliState = .idle ∨ (s.tcp i).cliState = .recv)
      (hnet : (s.tcp i).netState = .connection) (hk : (s.tcp i).stream = some k)
      (hst : (s.stream k).state = .established)
      (hmem : ∀ n, frame = n * frameStride → AgreeOutside s.mem mem [n])
      (hwait : (s.tcp i).waitArp = true) (hw : s.Waits r.cli) :
      Requested s r frame false ((s.tcpBuilt i k frame f.addr arp mem r.data.length).replied
        r.cli 11 [] none)
  | sendTcpWait {i k n : Nat} {f : IpIface} {arp : List ArpRecord} {mem mem' : Lib.Mem} {g : TxFrame}
      (hop : s.Asks r 7 9 2) (hi : i ∈ s.tcpIds) (hsock : r.sock = i)
      (hmay : (s.tcp i).isOwner r.cli = true)
      (hcli : (s.tcp i).cliState = .idle ∨ (s.tcp i).cliState = .recv)
      (hnet : (s.tcp i).netState = .connection) (hk : (s.tcp i).stream = some k)
      (hst : (s.stream k).state = .established)
      (hif : txIface (s.tcp i).toSocket (s.stream k).remAddr = some f)
      (harp : (s.arpFind (s.stream k).remAddr).1 = macNil)
      (hmem : ∀ n, frame = n * frameStride → AgreeOutside s.mem mem [n])
      (hwf : (s.stream k).remAddr < 2 ^ 32 → 74 + r.data.length ≤ frameSz →
        WellFormed mem frame (74 + r.data.length))
      (hwait : (s.tcp i).waitArp = false) (hn : n < framesCount) (hfree : s.busy n = false)
      (hmem' : AgreeOutside mem mem' [n]) (hg : g.Ok) :
      Requested s r frame true (((s.tcpBuilt i k frame f.addr arp mem r.data.length).setTcp i
        (tcpWaiting frame (74 + r.data.length) r.cli)).emitted mem' g)
  | sendTcpNow {i k : Nat} {f : IpIface} {arp : List ArpRecord} {mem : Lib.Mem}
      (hop : s.Asks r 7 9 2) (hi : i ∈ s.tcpIds)
      (hcli : (s.tcp i).cliState = .idle ∨ (s.tcp i).cliState = .recv)
      (hnet : (s.tcp i).netState = .connection) (hk : (s.tcp i).stream = some k)
      (hst : (s.stream k).state = .established)
      (hmem : ∀ n, frame = n * frameStride → AgreeOutside s.mem mem [n])
      (hwf : (s.stream k).remAddr < 2 ^ 32 → 74 + r.data.length ≤ frameSz →
        WellFormed mem frame (74 + r.data.length)) (hw : s.Waits r.cli) :
      Requested s r frame false (((s.tcpBuilt i k frame f.addr arp mem r.data.length).sendToEthDrv frame
        (74 + r.data.length)).replied r.cli 0 [r.data.length] none)
  | sendUdpBusy {i : Nat} {f : IpIface} {arp : List ArpRecord} {mem : Lib.Mem}
      (hop : s.Asks r 7 9 2) (hi : i ∈ s.udpIds)
      (hcli : (s.udp i).cliState = .idle ∨ (s.udp i).cliState = .recv)
      (hmem : ∀ n, frame = n * frameStride → AgreeOutside s.mem mem [n])
      (hwait : (s.udp i).waitArp = true) (hw : s.Waits r.cli) :
      Requested s r frame false ((s.udpBuilt i (frame + 32) f.addr arp mem).replied r.cli 11 [] none)
  | sendUdpWait {i n : Nat} {f : IpIface} {arp : List ArpRecord} {mem mem' : Lib.Mem} {g : TxFrame}
      (hop : s.Asks r 7 9 2) (hi : i ∈ s.udpIds) (hsock : r.sock = i)
      (hmay : (s.udp i).isOwner r.cli = true)
      (hcli : (s.udp i).cliState = .idle ∨ (s.udp i).cliState = .recv)
      (harp : (s.arpFind (r.sinAddr 6)).1 = macNil)
      (hmem : ∀ n, frame = n * frameStride → AgreeOutside s.mem mem [n])
      (hwf : 42 + r.data.length ≤ frameSz → WellFormed mem (frame + 32) (42 + r.data.length))
      (hwait : (s.udp i).waitArp = false) (hn : n < framesCount) (hfree : s.busy n = false)
      (hmem' : AgreeOutside mem mem' [n]) (hg : g.Ok) :
      Requested s r frame true (((s.udpBuilt i (frame + 32) f.addr arp mem).setUdp i
        (udpWaiting (frame + 32) (42 + r.data.length) r.cli)).emitted mem' g)
  | sendUdpNow {i : Nat} {f : IpIface} {arp : List ArpRecord} {mem : Lib.Mem}
      (hop : s.Asks r 7 9 2) (hi : i ∈ s.udpIds)
      (hcli : (s.udp i).cliState = .idle ∨ (s.udp i).cliState = .recv)
      (hmem : ∀ n, frame = n * frameStride → AgreeOutside s.mem mem [n])
      (hwf : 42 + r.data.length ≤ frameSz → WellFormed mem (frame + 32) (42 + r.data.length))
      (hw : s.Waits r.cli) :
      Requested s r frame false (((s.udpBuilt i (frame + 32) f.addr arp mem).sendToEthDrv (frame + 32)
        (42 + r.data.length)).replied r.cli 0 [r.data.length] none)
  | recvTcpData {i k : Nat} (hop : s.Asks r 8 5 0) (hi : i ∈ s.tcpIds)
      (hsock : r.sock = i) (hmay : (s.tcp i).isOwner r.cli = true) (hcli : (s.tcp i).cliState = .idle)
      (hnet : (s.tcp i).netState = .connection) (hk : (s.tcp i).stream = some k)
      (hst : (s.stream k).state = .established) (hbuf : (s.stream k).buf ≠ []) (hw : s.Waits r.cli) :
      Requested s r frame false (s.delivered k r.cli)
  | recvTcpWait {i k : Nat} (hop : s.Asks r 8 5 0) (hi : i ∈ s.tcpIds)
      (hsock : r.sock = i) (hmay : (s.tcp i).isOwner r.cli = true) (hcli : (s.tcp i).cliState = .idle)
      (hnet : (s.tcp i).netState = .connection) (hk : (s.tcp i).stream = some k)
      (hst : (s.stream k).state = .established) (hbuf : (s.stream k).buf = []) :
      Requested s r frame false (s.pending i r.cli .recv)
  | recvTcpEnd {i k : Nat} (hop : s.Asks r 8 5 0) (hi : i ∈ s.tcpIds) (hsock : r.sock = i)
      (hmay : (s.tcp i).isOwner r.cli = true)
      (hcli : (s.tcp i).cliState = .idle)
      (hnet : (s.tcp i).netState = .connection) (hk : (s.tcp i).stream = some k)
      (hst : (s.stream k).state ≠ .established) (hw : s.Waits (s.tcp i).client) :
      Requested s r frame false (s.replied (s.tcp i).client 0
        (sockaddrIn (s.stream k).remAddr (s.stream k).remPort) (some (.whole [])))
  | recvUdpData {i : Nat} {p : Pkt} {ps : List Pkt} (hop : s.Asks r 8 5 0)
      (hi : i ∈ s.udpIds)
      (hcli : (s.udp i).cliState = .idle) (hpkts : (s.udp i).pkts = p :: ps) (hw : s.Waits r.cli) :
      Requested s r frame false ((s.replied r.cli 0 (sockaddrIn p.addr p.port) (some (.whole p.buf))).setUdp i fun u =>
        { u with pkts := u.pkts.tail })
  | recvUdpWait {i : Nat} (hop : s.Asks r 8 5 0) (hi : i ∈ s.udpIds) (hsock : r.sock = i)
      (hmay : (s.udp i).isOwner r.cli = true)
      (hcli : (s.udp i).cliState = .idle) (hpkts : (s.udp i).pkts = []) :
      Requested s r frame false (s.setUdp i fun u => { u with cliState := .recv, recvClient := r.cli })

theorem answer_requested {ecode : Nat} {words : List Nat} {t : Net}
    (h : t.answer r.cli ecode words = .ok (kept, s')) :
    kept = false ∧ t.Waits r.cli ∧ s' = t.replied r.cli ecode words none := by
  unfold answer at h
  obtain ⟨⟨m, u⟩, hr, h⟩ := bind_eq_ok.mp h
  obtain ⟨hw, -, rfl⟩ := replyToClient_cases hr
  obtain ⟨rfl, rfl⟩ := Prod.mk.inj (Except.ok.inj h)
  exact ⟨rfl, hw, rfl⟩

/-- An error reply changes nothing else. -/
theorem refuse_requested {ecode : Nat} (hcode : ecode ≠ 0) (h : s.refuse r.cli ecode = .ok (kept, s')) :
    Requested s r frame kept s' := by
  obtain ⟨rfl, hw, rfl⟩ := answer_requested h
  exact .refused hcode hw

/-- The reply to a request that has changed nothing for its client. -/
theorem reply_requested {t : Net}
    (h : (s.replyToClient r.cli 0 [] none >>= fun p => .ok p.2) = .ok t) :
    s.Waits r.cli ∧ t = s.replied r.cli 0 [] none := by
  obtain ⟨⟨n, u⟩, hr, h⟩ := bind_eq_ok.mp h
  obtain ⟨hw, -, rfl⟩ := replyToClient_cases hr
  exact ⟨hw, (Except.ok.inj h).symm⟩

/-- The checks of a message, taken together. -/
theorem asks_of {n u t : Nat} (hkeys : r.mr 1 = s.key0 ∧ r.mr 2 = s.key1) (hop : r.mr 3 = n)
    (hform : ¬ (r.untyped ≠ u ∨ r.typed ≠ t)) : s.Asks r n u t := by
  obtain ⟨hu, ht⟩ := not_or.mp hform
  exact ⟨hkeys.1, hkeys.2, hop, not_not.mp hu, not_not.mp ht⟩

theorem processCliSocket_requested (hop : r.mr 3 = 1) (h : s.processCliSocket r = .ok (kept, s')) :
    Requested s r frame kept s' := by
  unfold processCliSocket at h
  split at h
  · exact refuse_requested (by decide) h
  split at h
  · exact refuse_requested (by decide) h
  split at h
  · exact refuse_requested (by decide) h
  rename_i b e _
  split at h
  · split at h
    · exact refuse_requested (by decide) h
    split at h
    · exact refuse_requested (by decide) h
    · rename_i id t hadd
      unfold udpSocketsAdd at hadd
      split at hadd
      · cases hadd
      · rename_i hroom
        obtain ⟨rfl, rfl⟩ := Prod.mk.inj (Option.some.inj hadd)
        obtain ⟨rfl, hw, rfl⟩ := answer_requested h
        exact .newUdp (b := b) (e := e) hop hroom hw
  split at h
  · split at h
    · exact refuse_requested (by decide) h
    split at h
    · exact refuse_requested (by decide) h
    · rename_i id t hadd
      unfold tcpSocketsAdd at hadd
      split at hadd
      · cases hadd
      · rename_i hroom
        obtain ⟨rfl, rfl⟩ := Prod.mk.inj (Option.some.inj hadd)
        obtain ⟨rfl, hw, rfl⟩ := answer_requested h
        exact .newTcp (b := b) (e := e) hop hroom hw
  · exact refuse_requested (by decide) h

theorem processCliCloseTcp_requested {t : Net} (hop : s.Asks r 2 4 0) (hi : i ∈ s.tcpIds)
    (hsock : r.sock = i)
    (hmay : (s.tcp i).isOwner r.cli = true) (hcli : (s.tcp i).cliState = .idle)
    (h : s.processCliCloseTcp i r.cli = .ok t) : Requested s r frame false t := by
  unfold processCliCloseTcp at h
  split at h
  · rename_i hnet
    obtain ⟨hlen, h⟩ := ensure_bind_eq_ok.mp h
    obtain ⟨u, hrem, h⟩ := bind_eq_ok.mp h
    obtain ⟨-, -, rfl⟩ := removeTcp_eq_ok hrem
    obtain ⟨hw, rfl⟩ := reply_requested h
    have hempty : (s.tcp i).streams = [] ∧ (s.tcp i).connectedQueue = [] := by
      rw [← List.length_eq_zero_iff, ← List.length_eq_zero_iff]
      omega
    exact .closeListener hop hi hsock hmay hcli hnet hempty hw
  · rename_i hnet
    split at h
    · cases h
    · rename_i k hk
      split at h
      · rename_i hst
        obtain ⟨u, hstr, h⟩ := bind_eq_ok.mp h
        obtain ⟨-, -, -, l, hl, hmem, rfl⟩ := remStream_eq_ok hstr
        obtain ⟨v, hrem, h⟩ := bind_eq_ok.mp h
        obtain ⟨-, -, rfl⟩ := removeTcp_eq_ok hrem
        obtain ⟨hw, rfl⟩ := reply_requested h
        have hlk : l = k := by
          have hs : ((s.setTcp i fun t => { t with cliState := .closed }).tcp i).stream = some k := by
            rw [setTcp_self]
            exact hk
          exact Option.some.inj (hl.symm.trans hs)
        subst hlk
        exact .closeClosed hop hi hsock hmay hcli hnet hk hst hmem hw
      · rename_i hst
        exact .closing hop hi hsock hmay hcli hnet hk hst (sendTcpMsg_sent h)
      · cases h
  · cases h

theorem processCliClose_requested (hkeys : r.mr 1 = s.key0 ∧ r.mr 2 = s.key1) (hop : r.mr 3 = 2)
    (h : s.processCliClose r = .ok (kept, s')) : Requested s r frame kept s' := by
  unfold processCliClose at h
  split at h
  · exact refuse_requested (by decide) h
  rename_i hform
  have hasks := asks_of hkeys hop hform
  split at h
  · rename_i i hfind
    obtain ⟨hi, hid⟩ := findUdp_eq_some hfind
    split at h
    · exact refuse_requested (by decide) h
    rename_i hmay
    replace hmay := Bool.eq_true_of_not_eq_false hmay
    split at h
    · exact refuse_requested (by decide) h
    · rename_i hcli
      unfold udpSocketsRemove at h
      by_cases hc : i ∈ s.udpIds ∧ (s.udp i).owner = r.cli
      · simp only [if_pos hc] at h
        obtain ⟨rfl, hw, rfl⟩ := answer_requested h
        exact .closeUdp hasks hi hid.symm hmay (not_not.mp hcli) hc.2 hw
      · simp only [if_neg hc] at h
        exact refuse_requested (by decide) h
  · split at h
    · exact refuse_requested (by decide) h
    rename_i i hfind
    obtain ⟨hi, hid⟩ := findTcp_eq_some hfind
    split at h
    · exact refuse_requested (by decide) h
    rename_i hmay
    replace hmay := Bool.eq_true_of_not_eq_false hmay
    split at h
    · exact refuse_requested (by decide) h
    · rename_i hcli
      obtain ⟨t, hclose, h⟩ := bind_eq_ok.mp h
      obtain ⟨rfl, rfl⟩ := Prod.mk.inj (Except.ok.inj h)
      exact processCliCloseTcp_requested hasks hi hid.symm hmay (not_not.mp hcli) hclose

/-- What a request that may bind a socket has checked. -/
theorem bindError_eq_none {t : Socket} {c n : Bool} (h : bindError r t c n = none) :
    c = true ∧ n = true ∧ t.bound = false ∧
      (r.sinAddr 5 = inaddrAny ∨ findIface (r.sinAddr 5) ≠ none) := by
  unfold bindError at h
  split at h
  · cases h
  split at h
  · cases h
  split at h
  · cases h
  split at h
  · cases h
  split at h
  · cases h
  split at h
  · cases h
  · rename_i hc hn hif hb
    refine ⟨by simpa using hc, by simpa using hn, by simpa using hb, ?_⟩
    by_cases ha : r.sinAddr 5 = inaddrAny
    · exact .inl ha
    · exact .inr fun hf => hif ⟨ha, hf⟩

/-- The codes of the errors of a request that may bind a socket. -/
theorem bindError_ne_zero {t : Socket} {c n : Bool} {e : Nat} (h : bindError r t c n = some e) :
    e ≠ 0 := by
  unfold bindError at h
  repeat' split at h
  all_goals cases h
  all_goals decide

theorem processCliBind_requested (hop : r.mr 3 = 3) (h : s.processCliBind r = .ok (kept, s')) :
    Requested s r frame kept s' := by
  unfold processCliBind at h
  split at h
  · exact refuse_requested (by decide) h
  split at h
  · rename_i i hfind
    split at h
    · rename_i e he
      exact refuse_requested (bindError_ne_zero he) h
    · rename_i hnone
      obtain ⟨hcli, -, hb, -⟩ := bindError_eq_none hnone
      obtain ⟨rfl, hw, rfl⟩ := answer_requested h
      exact .bindUdp hop (findUdp_eq_some hfind).1 (beq_iff_eq.mp hcli) hb hw
  · split at h
    · exact refuse_requested (by decide) h
    rename_i i hfind
    split at h
    · rename_i e he
      exact refuse_requested (bindError_ne_zero he) h
    · rename_i hnone
      obtain ⟨hcli, hnet, hb, hif⟩ := bindError_eq_none hnone
      obtain ⟨rfl, hw, rfl⟩ := answer_requested h
      exact .bindTcp hop (findTcp_eq_some hfind).1 (beq_iff_eq.mp hcli) (beq_iff_eq.mp hnet) hb hif hw

theorem processCliListen_requested (hop : r.mr 3 = 4) (h : s.processCliListen r = .ok (kept, s')) :
    Requested s r frame kept s' := by
  unfold processCliListen at h
  split at h
  · exact refuse_requested (by decide) h
  split at h
  · exact refuse_requested (by decide) h
  rename_i i hfind
  split at h
  · exact refuse_requested (by decide) h
  split at h
  · exact refuse_requested (by decide) h
  rename_i hcli
  split at h
  · exact refuse_requested (by decide) h
  rename_i hnet
  obtain ⟨hb, h⟩ := ensure_bind_eq_ok.mp h
  obtain ⟨rfl, hw, rfl⟩ := answer_requested h
  exact .listening hop (findTcp_eq_some hfind).1 (not_not.mp hcli) (not_not.mp hnet) hb hw

theorem processCliAccept_requested (hkeys : r.mr 1 = s.key0 ∧ r.mr 2 = s.key1) (hop : r.mr 3 = 5)
    (h : s.processCliAccept r = .ok (kept, s')) : Requested s r frame kept s' := by
  unfold processCliAccept at h
  split at h
  · exact refuse_requested (by decide) h
  rename_i hform
  have hasks := asks_of hkeys hop hform
  split at h
  · exact refuse_requested (by decide) h
  rename_i i hfind
  obtain ⟨hi, hid⟩ := findTcp_eq_some hfind
  split at h
  · exact refuse_requested (by decide) h
  rename_i hmay
  replace hmay := Bool.eq_true_of_not_eq_false hmay
  split at h
  · exact refuse_requested (by decide) h
  rename_i hcli
  split at h
  · exact refuse_requested (by decide) h
  rename_i hnet
  dsimp only at h
  obtain ⟨hb, h⟩ := ensure_bind_eq_ok.mp h
  rw [setTcp_self] at hb
  unfold getConnectedStream at h
  rw [setTcp_self] at h
  cases hq : (s.tcp i).connectedQueue with
  | nil =>
    simp only [hq] at h
    obtain ⟨rfl, rfl⟩ := Prod.mk.inj (Except.ok.inj h)
    exact .accepting hasks hi hid.symm (not_not.mp hcli) (not_not.mp hnet) hb hq
  | cons k q =>
    simp only [hq] at h
    obtain ⟨t, hacc, h⟩ := bind_eq_ok.mp h
    obtain ⟨rfl, rfl⟩ := Prod.mk.inj (Except.ok.inj h)
    exact .acceptedQueued hasks hi hid.symm hmay (not_not.mp hcli) (not_not.mp hnet) hb hq
      (acceptConnectedStream_cases hacc)

/-- Binding a socket to a free port writes the socket's own end and the counter of the ports. -/
theorem autoBindTcp_eq (s : Net) (i ifaddr : Nat) : ∃ f : Socket → Socket, ∃ p,
    s.autoBindTcp i ifaddr =
      { s.setTcp i (fun t => { t with toSocket := f t.toSocket }) with tcpPort := p } ∧
      ∀ t, ∃ b addr port, f t = { t with bound := b, saddrAddr := addr, saddrPort := port } := by
  unfold autoBindTcp
  split
  · exact ⟨id, s.tcpPort, by rw [setTcp_eq_self rfl], fun t => ⟨_, _, _, rfl⟩⟩
  · exact ⟨_, _, rfl, fun t => ⟨_, _, _, rfl⟩⟩

theorem autoBindUdp_eq (s : Net) (i ifaddr : Nat) : ∃ f : Socket → Socket, ∃ p,
    s.autoBindUdp i ifaddr =
      { s.setUdp i (fun u => { u with toSocket := f u.toSocket }) with udpPort := p } ∧
      ∀ t, ∃ b addr port, f t = { t with bound := b, saddrAddr := addr, saddrPort := port } := by
  unfold autoBindUdp
  split
  · exact ⟨id, s.udpPort, by rw [setUdp_eq_self rfl], fun t => ⟨_, _, _, rfl⟩⟩
  · exact ⟨_, _, rfl, fun t => ⟨_, _, _, rfl⟩⟩

theorem processCliConnect_requested (hop : r.mr 3 = 6) (h : s.processCliConnect r = .ok (kept, s')) :
    Requested s r frame kept s' := by
  unfold processCliConnect at h
  split at h
  · exact refuse_requested (by decide) h
  split at h
  · exact refuse_requested (by decide) h
  rename_i i hfind
  split at h
  · exact refuse_requested (by decide) h
  split at h
  · exact refuse_requested (by decide) h
  rename_i hcli
  split at h
  · exact refuse_requested (by decide) h
  rename_i hnet
  obtain ⟨hstream, h⟩ := ensure_bind_eq_ok.mp h
  split at h
  · exact refuse_requested (by decide) h
  rename_i f hif
  obtain ⟨⟨k, t⟩, hconn, h⟩ := bind_eq_ok.mp h
  obtain ⟨u, hsend, h⟩ := bind_eq_ok.mp h
  obtain ⟨rfl, rfl⟩ := Prod.mk.inj (Except.ok.inj h)
  unfold connectStream streamsAdd at hconn
  split at hconn
  · cases hconn
  split at hconn
  · cases hconn
  · rename_i k' t' hadd
    split at hadd
    · cases hadd
    · rename_i l n hpush
      obtain ⟨rfl, rfl⟩ := Prod.mk.inj (Option.some.inj hadd)
      obtain ⟨rfl, rfl⟩ := Prod.mk.inj (Except.ok.inj hconn)
      obtain ⟨g, p, hbind, -⟩ := autoBindTcp_eq s i f.addr
      have hpush' : s.allstreams.pushBack () = some (l, n) := by
        rw [hbind] at hpush
        exact hpush
      obtain ⟨hi, hid⟩ := findTcp_eq_some hfind
      refine .connecting hop hi hid.symm (not_not.mp hcli) (not_not.mp hnet) hstream hif
        hpush' ?_
      rw [setStream_added] at hsend
      exact sendTcpMsg_sent hsend

/-- The headers in front of a string change the client thread's buffer only. -/
theorem agreeOutside_tcpDataMsg {m : Lib.Mem} {mac len : Nat} {ipif : IpIface} {t : Socket} {st : Stream}
    {n : Nat} (h : frame = n * frameStride) :
    AgreeOutside m (tcpDataMsg m frame ipif mac t st len) [n] := by
  subst h
  exact agreeOutside_of_agreeOn 0 74 (by decide) fun _ _ _ =>
    (agreeOn_buildEth (by omega)).trans <| (agreeOn_buildIp (by omega)).trans
      (agreeOn_buildTcp (by omega))

theorem agreeOutside_udpDataMsg {m : Lib.Mem} {mac port dst dport len : Nat} {ipif : IpIface}
    {n : Nat} (h : frame = n * frameStride) :
    AgreeOutside m (udpDataMsg m (frame + 32) ipif mac port dst dport len) [n] := by
  subst h
  exact agreeOutside_of_agreeOn 32 42 (by decide) fun _ _ _ =>
    (agreeOn_buildEth (by omega)).trans <| (agreeOn_buildIp (by omega)).trans
      (agreeOn_buildUdp (by omega))

/-- A string is received behind as many bytes as the headers of a segment take. -/
theorem hdrsSpace_sub_tcp (frame : Nat) : frame + hdrsSpace - 74 = frame :=
  Nat.add_sub_cancel frame 74

theorem hdrsSpace_sub_udp (frame : Nat) : frame + hdrsSpace - 42 = frame + 32 :=
  Nat.add_sub_cancel (frame + 32) 42

theorem sinAddr_lt (w : Nat) : r.sinAddr w < 2 ^ 32 := Nat.mod_lt _ (by decide)

/-- `process_cli_sendto_tcp` once the socket is bound. -/
theorem sendtoTcp_requested {f : IpIface} (hop : s.Asks r 7 9 2) (hi : i ∈ s.tcpIds) (hsock : r.sock = i)
    (hmay : (s.tcp i).isOwner r.cli = true)
    (hcli : (s.tcp i).cliState = .idle ∨ (s.tcp i).cliState = .recv)
    (hnet : (s.tcp i).netState = .connection) (hk : (s.tcp i).stream = some k)
    (hst : (s.stream k).state = .established) (htx : txIface (s.tcp i).toSocket (s.stream k).remAddr = some f) {t : Socket} {mac ip : Nat}
    (hmac : mac = (s.arpFind (s.stream k).remAddr).1) {arp : List ArpRecord} {m : Lib.Mem} {v : Net}
    (hm : m = tcpDataMsg s.mem frame f mac t (s.stream k) r.data.length)
    (hv : v = s.tcpBuilt i k frame f.addr arp m r.data.length)
    (h : (if mac = macNil then
        if (v.tcp i).waitArp then v.refuse r.cli 11
        else (v.setTcp i (tcpWaiting frame (74 + r.data.length) r.cli)).sendArpRequest f
          ip >>= fun w => .ok (true, w)
      else (v.sendToEthDrv frame (74 + r.data.length)).answer r.cli 0 [r.data.length]) =
        .ok (kept, s')) : Requested s r frame kept s' := by
  obtain ⟨g, p, hbind, hg⟩ := autoBindTcp_eq s i f.addr
  have hmem : ∀ n, frame = n * frameStride → AgreeOutside s.mem m [n] := by
    intro n hn
    rw [hm]
    exact agreeOutside_tcpDataMsg hn
  have hwf : (s.stream k).remAddr < 2 ^ 32 → 74 + r.data.length ≤ frameSz →
      WellFormed m frame (74 + r.data.length) := by
    intro hrem hlen
    rw [hm]
    exact wellFormed_tcpDataMsg (txIface_addr htx) hrem hlen
  have hblocked : v.blocked = s.blocked := by
    rw [hv]
    unfold tcpBuilt
    rw [hbind]
    rfl
  have hbusy : v.busy = s.busy := by
    rw [hv]
    unfold tcpBuilt
    rw [hbind]
    rfl
  have hvmem : v.mem = m := by
    rw [hv]
    rfl
  have hwait : (v.tcp i).waitArp = (s.tcp i).waitArp := by
    rw [hv]
    unfold tcpBuilt
    rw [hbind]
    refine (congrArg (fun t : TcpSocket => t.waitArp)
      (setTcp_self fun t => { t with toSocket := g t.toSocket })).trans ?_
    obtain ⟨b, addr, port, hgt⟩ := hg (s.tcp i).toSocket
    change (g (s.tcp i).toSocket).waitArp = _
    rw [hgt]
  split at h
  · rename_i hnil
    split at h
    · rename_i hw
      obtain ⟨rfl, hcl, rfl⟩ := answer_requested h
      rw [hv]
      refine .sendTcpBusy hop hi hcli hnet hk hst hmem (hwait.symm.trans hw) ⟨hcl.1, ?_⟩
      rw [← hblocked]
      exact hcl.2
    · rename_i hw
      obtain ⟨w, hsend, h⟩ := bind_eq_ok.mp h
      obtain ⟨rfl, rfl⟩ := Prod.mk.inj (Except.ok.inj h)
      obtain ⟨n, mem', e, hn, hfree, hag, he, rfl⟩ := sendArpRequest_eq_ok hsend
      have hfree' : s.busy n = false := by
        rw [← hbusy]
        exact hfree
      have hag' : AgreeOutside m mem' [n] := by
        rw [← hvmem]
        exact hag
      have hwait' : (s.tcp i).waitArp = false := by
        rw [← hwait]
        simpa using hw
      rw [hv]
      exact .sendTcpWait hop hi hsock hmay hcli hnet hk hst htx (hmac.symm.trans hnil) hmem hwf hwait' hn hfree'
        hag' he
  · obtain ⟨rfl, hcl, rfl⟩ := answer_requested h
    rw [hv]
    refine .sendTcpNow hop hi hcli hnet hk hst hmem hwf ⟨hcl.1, ?_⟩
    rw [← hblocked]
    exact hcl.2

theorem processCliSendtoTcp_requested (hop : s.Asks r 7 9 2) (hi : i ∈ s.tcpIds) (hsock : r.sock = i)
    (hmay : (s.tcp i).isOwner r.cli = true)
    (hcli : (s.tcp i).cliState = .idle ∨ (s.tcp i).cliState = .recv)
    (h : s.processCliSendtoTcp r i frame = .ok (kept, s')) : Requested s r frame kept s' := by
  unfold processCliSendtoTcp at h
  split at h
  · exact refuse_requested (by decide) h
  rename_i hnet
  split at h
  · cases h
  rename_i k hk
  split at h
  · exact refuse_requested (by decide) h
  rename_i hst
  split at h
  · exact refuse_requested (by decide) h
  rename_i f hif
  obtain ⟨g, p, hbind, -⟩ := autoBindTcp_eq s i f.addr
  have hstr : (s.autoBindTcp i f.addr).stream = s.stream := by rw [hbind]; rfl
  have hmem : (s.autoBindTcp i f.addr).mem = s.mem := by rw [hbind]; rfl
  have hmac : ((s.autoBindTcp i f.addr).arpFind (s.stream k).remAddr).1 =
      (s.arpFind (s.stream k).remAddr).1 :=
    arpFind_congr (by rw [hbind]; rfl) (by rw [hbind]; rfl) _
  obtain ⟨arp, harp⟩ := arpFind_eq (s := s.autoBindTcp i f.addr) (s.stream k).remAddr
  have hstr' : ((s.autoBindTcp i f.addr).withArp arp).stream k = s.stream k := congrFun hstr k
  have hmem' : ((s.autoBindTcp i f.addr).withArp arp).mem = s.mem := hmem
  dsimp only at h
  rw [hstr, harp, hdrsSpace_sub_tcp, hmac, hstr', hmem'] at h
  exact sendtoTcp_requested hop hi hsock hmay hcli (not_not.mp hnet) hk (not_not.mp hst) hif
    rfl rfl rfl h

/-- `process_cli_sendto_udp` once the socket is bound. -/
theorem sendtoUdp_requested {f : IpIface} (hop : s.Asks r 7 9 2) (hi : i ∈ s.udpIds) (hsock : r.sock = i)
    (hmay : (s.udp i).isOwner r.cli = true)
    (hcli : (s.udp i).cliState = .idle ∨ (s.udp i).cliState = .recv) (hif : f.addr < 2 ^ 32)
    {mac ip port dport : Nat} (hmac : mac = (s.arpFind (r.sinAddr 6)).1) {arp : List ArpRecord}
    {m : Lib.Mem} {v : Net}
    (hm : m = udpDataMsg s.mem (frame + 32) f mac port (r.sinAddr 6) dport r.data.length)
    (hv : v = s.udpBuilt i (frame + 32) f.addr arp m)
    (h : (if mac = macNil then
        if (v.udp i).waitArp then v.refuse r.cli 11
        else (v.setUdp i (udpWaiting (frame + 32) (42 + r.data.length) r.cli)).sendArpRequest f
          ip >>= fun w => .ok (true, w)
      else (v.sendToEthDrv (frame + 32) (42 + r.data.length)).answer r.cli 0 [r.data.length]) =
        .ok (kept, s')) : Requested s r frame kept s' := by
  obtain ⟨g, p, hbind, hg⟩ := autoBindUdp_eq s i f.addr
  have hmem : ∀ n, frame = n * frameStride → AgreeOutside s.mem m [n] := by
    intro n hn
    rw [hm]
    exact agreeOutside_udpDataMsg hn
  have hwf : 42 + r.data.length ≤ frameSz → WellFormed m (frame + 32) (42 + r.data.length) := by
    intro hlen
    rw [hm]
    exact wellFormed_udpDataMsg hif (sinAddr_lt 6) hlen
  have hblocked : v.blocked = s.blocked := by
    rw [hv]
    unfold udpBuilt
    rw [hbind]
    rfl
  have hbusy : v.busy = s.busy := by
    rw [hv]
    unfold udpBuilt
    rw [hbind]
    rfl
  have hvmem : v.mem = m := by
    rw [hv]
    rfl
  have hwait : (v.udp i).waitArp = (s.udp i).waitArp := by
    rw [hv]
    unfold udpBuilt
    rw [hbind]
    refine (congrArg (fun u : UdpSocket => u.waitArp)
      (setUdp_self fun u => { u with toSocket := g u.toSocket })).trans ?_
    obtain ⟨b, addr, port, hgt⟩ := hg (s.udp i).toSocket
    change (g (s.udp i).toSocket).waitArp = _
    rw [hgt]
  split at h
  · rename_i hnil
    split at h
    · rename_i hw
      obtain ⟨rfl, hcl, rfl⟩ := answer_requested h
      rw [hv]
      refine .sendUdpBusy hop hi hcli hmem (hwait.symm.trans hw) ⟨hcl.1, ?_⟩
      rw [← hblocked]
      exact hcl.2
    · rename_i hw
      obtain ⟨w, hsend, h⟩ := bind_eq_ok.mp h
      obtain ⟨rfl, rfl⟩ := Prod.mk.inj (Except.ok.inj h)
      obtain ⟨n, mem', e, hn, hfree, hag, he, rfl⟩ := sendArpRequest_eq_ok hsend
      have hfree' : s.busy n = false := by
        rw [← hbusy]
        exact hfree
      have hag' : AgreeOutside m mem' [n] := by
        rw [← hvmem]
        exact hag
      have hwait' : (s.udp i).waitArp = false := by
        rw [← hwait]
        simpa using hw
      rw [hv]
      exact .sendUdpWait hop hi hsock hmay hcli (hmac.symm.trans hnil) hmem hwf hwait' hn hfree' hag' he
  · obtain ⟨rfl, hcl, rfl⟩ := answer_requested h
    rw [hv]
    refine .sendUdpNow hop hi hcli hmem hwf ⟨hcl.1, ?_⟩
    rw [← hblocked]
    exact hcl.2

theorem processCliSendtoUdp_requested (hop : s.Asks r 7 9 2) (hi : i ∈ s.udpIds) (hsock : r.sock = i)
    (hmay : (s.udp i).isOwner r.cli = true)
    (hcli : (s.udp i).cliState = .idle ∨ (s.udp i).cliState = .recv)
    (h : s.processCliSendtoUdp r i frame = .ok (kept, s')) : Requested s r frame kept s' := by
  unfold processCliSendtoUdp at h
  split at h
  · exact refuse_requested (by decide) h
  split at h
  · exact refuse_requested (by decide) h
  rename_i f hif
  obtain ⟨g, p, hbind, -⟩ := autoBindUdp_eq s i f.addr
  have hmem : (s.autoBindUdp i f.addr).mem = s.mem := by rw [hbind]; rfl
  have hmac : ((s.autoBindUdp i f.addr).arpFind (r.sinAddr 6)).1 = (s.arpFind (r.sinAddr 6)).1 :=
    arpFind_congr (by rw [hbind]; rfl) (by rw [hbind]; rfl) _
  obtain ⟨arp, harp⟩ := arpFind_eq (s := s.autoBindUdp i f.addr) (r.sinAddr 6)
  have hmem' : ((s.autoBindUdp i f.addr).withArp arp).mem = s.mem := hmem
  dsimp only at h
  rw [harp, hdrsSpace_sub_udp, hmac, hmem'] at h
  exact sendtoUdp_requested hop hi hsock hmay hcli (findMasked_addr hif) rfl rfl rfl h

theorem processCliSendto_requested (hkeys : r.mr 1 = s.key0 ∧ r.mr 2 = s.key1) (hop : r.mr 3 = 7)
    (h : s.processCliSendto r frame = .ok (kept, s')) : Requested s r frame kept s' := by
  unfold processCliSendto at h
  split at h
  · exact refuse_requested (by decide) h
  rename_i hform
  have hasks := asks_of hkeys hop hform
  split at h
  · rename_i i hfind
    obtain ⟨hi, hid⟩ := findUdp_eq_some hfind
    split at h
    · exact refuse_requested (by decide) h
    rename_i hmay
    replace hmay := Bool.eq_true_of_not_eq_false hmay
    split at h
    · exact refuse_requested (by decide) h
    rename_i hcli
    exact processCliSendtoUdp_requested hasks hi hid.symm hmay (by tauto) h
  · split at h
    · exact refuse_requested (by decide) h
    rename_i i hfind
    obtain ⟨hi, hid⟩ := findTcp_eq_some hfind
    split at h
    · exact refuse_requested (by decide) h
    rename_i hmay
    replace hmay := Bool.eq_true_of_not_eq_false hmay
    split at h
    · exact refuse_requested (by decide) h
    rename_i hcli
    exact processCliSendtoTcp_requested hasks hi hid.symm hmay (by tauto) h

theorem processCliRecvfromTcp_requested {t : Net} (hop : s.Asks r 8 5 0) (hi : i ∈ s.tcpIds)
    (hsock : r.sock = i)
    (hmay : (s.tcp i).isOwner r.cli = true)
    (hcli : (s.tcp i).cliState = .idle) (hnet : (s.tcp i).netState = .connection)
    (h : s.processCliRecvfromTcp i r.cli = .ok t) : Requested s r frame false t := by
  unfold processCliRecvfromTcp at h
  split at h
  · cases h
  rename_i k hk
  split at h
  · rename_i hst
    split at h
    · rename_i hbuf
      obtain ⟨hw, rfl⟩ := deliver_cases h
      exact .recvTcpData hop hi hsock hmay hcli hnet hk hst hbuf hw
    · rename_i hbuf
      obtain rfl := Except.ok.inj h
      exact .recvTcpWait hop hi hsock hmay hcli hnet hk hst (not_not.mp hbuf)
  · rename_i hst
    obtain ⟨⟨n, u⟩, hr, h⟩ := bind_eq_ok.mp h
    obtain ⟨hw, -, rfl⟩ := replyToClient_cases hr
    obtain rfl := Except.ok.inj h
    exact .recvTcpEnd hop hi hsock hmay hcli hnet hk hst hw

theorem processCliRecvfromUdp_requested {t : Net} (hop : s.Asks r 8 5 0) (hi : i ∈ s.udpIds)
    (hsock : r.sock = i)
    (hmay : (s.udp i).isOwner r.cli = true) (hcli : (s.udp i).cliState = .idle)
    (h : s.processCliRecvfromUdp i r.cli = .ok t) : Requested s r frame false t := by
  unfold processCliRecvfromUdp at h
  split at h
  · rename_i p ps hpkts
    obtain ⟨⟨n, u⟩, hr, h⟩ := bind_eq_ok.mp h
    obtain ⟨hw, -, rfl⟩ := replyToClient_cases hr
    obtain rfl := Except.ok.inj h
    exact .recvUdpData hop hi hcli hpkts hw
  · rename_i hpkts
    obtain rfl := Except.ok.inj h
    exact .recvUdpWait hop hi hsock hmay hcli hpkts

theorem processCliRecvfrom_requested (hkeys : r.mr 1 = s.key0 ∧ r.mr 2 = s.key1) (hop : r.mr 3 = 8)
    (h : s.processCliRecvfrom r = .ok (kept, s')) : Requested s r frame kept s' := by
  unfold processCliRecvfrom at h
  split at h
  · exact refuse_requested (by decide) h
  rename_i hform
  have hasks := asks_of hkeys hop hform
  split at h
  · rename_i i hfind
    obtain ⟨hi, hid⟩ := findUdp_eq_some hfind
    split at h
    · exact refuse_requested (by decide) h
    rename_i hmay
    replace hmay := Bool.eq_true_of_not_eq_false hmay
    split at h
    · exact refuse_requested (by decide) h
    rename_i hcli
    obtain ⟨t, hrecv, h⟩ := bind_eq_ok.mp h
    obtain ⟨rfl, rfl⟩ := Prod.mk.inj (Except.ok.inj h)
    exact processCliRecvfromUdp_requested hasks hi hid.symm hmay (not_not.mp hcli) hrecv
  · split at h
    · exact refuse_requested (by decide) h
    rename_i i hfind
    obtain ⟨hi, hid⟩ := findTcp_eq_some hfind
    split at h
    · exact refuse_requested (by decide) h
    rename_i hmay
    replace hmay := Bool.eq_true_of_not_eq_false hmay
    split at h
    · exact refuse_requested (by decide) h
    rename_i hcli
    split at h
    · exact refuse_requested (by decide) h
    rename_i hnet
    obtain ⟨t, hrecv, h⟩ := bind_eq_ok.mp h
    obtain ⟨rfl, rfl⟩ := Prod.mk.inj (Except.ok.inj h)
    exact processCliRecvfromTcp_requested hasks hi hid.symm hmay (not_not.mp hcli)
      (not_not.mp hnet) hrecv

/-- **What a request does.** -/
theorem clientRequest_cases (h : s.clientRequest r frame = .ok (kept, s')) :
    Requested s r frame kept s' := by
  unfold clientRequest processClientRequest at h
  split at h
  · exact refuse_requested (by decide) h
  split at h
  · exact refuse_requested (by decide) h
  rename_i hkeys
  have hkeys : r.mr 1 = s.key0 ∧ r.mr 2 = s.key1 := by tauto
  split at h
  · rename_i hop
    exact processCliSocket_requested hop h
  · rename_i hop
    exact processCliClose_requested hkeys hop h
  · rename_i hop
    exact processCliBind_requested hop h
  · rename_i hop
    exact processCliListen_requested hop h
  · rename_i hop
    exact processCliAccept_requested hkeys hop h
  · rename_i hop
    exact processCliConnect_requested hop h
  · rename_i hop
    exact processCliSendto_requested hkeys hop h
  · rename_i hop
    exact processCliRecvfrom_requested hkeys hop h
  · exact refuse_requested (by decide) h

end Net

end Tcpip
end Wrmos
