import Wrmos.L4Types
import Wrmos.Lib.NodeList
import Mathlib.Logic.Function.Basic

/-!
# Threads and their lists

`Thread_t` of `thread.h` and the lists of `Threads_t` in `threads.h`.  A thread is linked in at most one
list: the ready list of its priority, the list of senders without a timeout, or one of the two lists
that are ordered by timeout.  Which one is computed from the fields `state` and `timeout` (`Thread.que`)
whenever the thread is unlinked or linked, and the place in the list is the stored iterator.

A thread is a number, its index in `_threads`.  An iterator is a list and a node of it.  `_ready_bits`
has one bit for each ready list, in words of 32 bits.
-/

namespace Wrmos

open Lib (ensure NodeList)

/-- `Thread_t::state_t`. -/
inductive TState where
  | idle
  | inactive
  | active
  | ready
  | sendIpc
  | sendPfault
  | sendException
  | receiveIpc
  | receivePfault
  | receiveException
  deriving DecidableEq, Repr

/-- The lists of `Threads_t`: `_ready_threads[p]`, `_send_threads`, `_timeout_waiting_snd_threads` and
`_timeout_waiting_rcv_threads`. -/
inductive Que where
  | ready (p : Nat)
  | send
  | sndTimeout
  | rcvTimeout
  deriving DecidableEq, Repr

/-- The part of `L4_utcb_t` that the kernel reads or writes. -/
structure Utcb where
  mr : Nat → Nat
  br : Nat → Nat
  error : Nat
  sender : Nat
  excHandler : Nat

/-- `Thread_t`: the identity, the state with the data of the active operation, what the scheduler
keeps, and what belongs to the user: its UTCB, the register in which an IPC returns the sender and the
entry frame. -/
structure Thread where
  task : Nat
  uutcb : Nat
  globid : Nat
  schedid : Nat
  pagerid : Nat
  sched : Option Nat
  pager : Option Nat
  state : TState
  timeout : Nat
  ipcTo : Nat
  fromSpec : Nat
  pfAddr : Nat
  pfAccess : Nat
  pfInst : Nat
  excType : Nat
  excPf : Nat
  prio : Nat
  inherited : List (Nat × Nat)
  prioHeir : Nat
  signalPending : Bool
  iter : Option (Que × Nat)
  timeslice : Nat
  updatePoint : Nat
  utcb : Utcb
  ipcFrom : Nat
  frame : Nat → Nat

/-- A timeout that never comes: `-1` as a `uint64_t`. -/
def noTimeout : Nat := 2 ^ 64 - 1

/-- `Kcfg::Timeslice_usec`. -/
def timesliceUsec : Nat := 50 * 1000

/-- `Kcfg::Threads_max`, which is also the room of a list of threads. -/
def threadsMax : Nat := 128

/-- `Thread_number_min`. -/
def threadNumberMin : Nat := 128

namespace Thread

/-- The constructor. -/
def fresh (A : Arch) : Thread where
  task := 0
  uutcb := 2 ^ A.wordBits - 1
  globid := Thrid.nil
  schedid := Thrid.nil
  pagerid := Thrid.nil
  sched := none
  pager := none
  state := .idle
  timeout := 0
  ipcTo := Thrid.nil
  fromSpec := Thrid.nil
  pfAddr := 0
  pfAccess := 0
  pfInst := 0
  excType := 0
  excPf := 0
  prio := 0
  inherited := []
  prioHeir := Thrid.nil
  signalPending := false
  iter := none
  timeslice := 0
  updatePoint := 0
  utcb := ⟨fun _ => 0, fun _ => 0, 0, 0, 0⟩
  ipcFrom := 0
  frame := fun _ => 0

/-- The list that `state()` unlinks the thread from, or links it to. -/
def que (t : Thread) : Option Que :=
  if t.state = .ready then some (.ready t.prio)
  else if t.state = .sendIpc ∧ t.timeout ≠ noTimeout then some .sndTimeout
  else if t.state = .sendIpc ∨ t.state = .sendPfault ∨ t.state = .sendException then some .send
  else if t.state = .receiveIpc ∧ t.timeout ≠ noTimeout then some .rcvTimeout
  else none

/-- `prio_max`. -/
def prioMax (t : Thread) : Nat :=
  match t.inherited.getLast? with
  | none => t.prio
  | some i => max t.prio i.2

/-- `is_active`. -/
def isActive (t : Thread) : Bool := t.state != .inactive

/-- `is_snd_state`. -/
def isSndState (t : Thread) : Bool :=
  t.state = .sendIpc || t.state = .sendPfault || t.state = .sendException

/-- The timeout that `save_snd_phase` and `save_rcv_phase` store. -/
def deadline (A : Arch) (timeout now : Nat) : Nat :=
  if Time.isNever timeout then noTimeout else (now + Time.relUsec A timeout) % 2 ^ 64

/-- `timeslice_update`, and `timeslice_stop` with `0` as the next point. -/
def timesliceUpdate (t : Thread) (now next : Nat) : Thread :=
  { t with
    timeslice := t.timeslice - min ((now + (2 ^ 64 - t.updatePoint)) % 2 ^ 64) t.timeslice
    updatePoint := next }

end Thread

/-- The static members of `Threads_t`. -/
structure Threads where
  thr : Nat → Thread
  list : Que → NodeList Nat
  readyBits : Nat → Nat

namespace Threads

/-- The static constructors. -/
def init (A : Arch) : Threads :=
  ⟨fun _ => Thread.fresh A, fun _ => NodeList.init threadsMax, fun _ => 0⟩

/-- Change one thread. -/
def upd (ts : Threads) (t : Nat) (f : Thread → Thread) : Threads :=
  { ts with thr := Function.update ts.thr t (f (ts.thr t)) }

/-- Change one list. -/
def putList (ts : Threads) (q : Que) (l : NodeList Nat) : Threads :=
  { ts with list := Function.update ts.list q l }

/-- `find(thrid_num)`. -/
def findNumber (ts : Threads) (n : Nat) : Option Nat :=
  if threadNumberMin ≤ n ∧ n < threadNumberMin + threadsMax then
    let t := n - threadNumberMin
    if (ts.thr t).state = .idle then none else some t
  else none

/-- `find_by_utcb`, by the task of the running thread. -/
def findByUtcb (ts : Threads) (curTask utcb : Nat) : Except Stop (Option Nat) :=
  match (List.range threadsMax).find? fun t =>
      (ts.thr t).task = curTask ∧ (ts.thr t).uutcb = utcb with
  | some t => .ok (if (ts.thr t).state = .idle then none else some t)
  | none => .error (.panic "no thread with such utcb")

/-- `find(id)`. -/
def find (A : Arch) (ts : Threads) (curTask id : Nat) : Except Stop (Option Nat) :=
  if Thrid.isGlobal A id then .ok (ts.findNumber (Thrid.number A id))
  else if Thrid.isLocal A id then ts.findByUtcb curTask id
  else .ok none

/-! ## Linking and unlinking -/

/-- `*it`, when the node is busy. -/
def deref (ts : Threads) : Option (Que × Nat) → Option Nat
  | none => none
  | some (q, n) => (ts.list q).get? n

/-- `is_exist(list, iter)`. -/
def isExist (ts : Threads) (q : Que) : Option (Que × Nat) → Bool
  | none => false
  | some (q', n) => q' = q && n ∈ (ts.list q).nodes

/-- Set the bit of a priority in `_ready_bits`. -/
def setBit (ts : Threads) (p : Nat) : Threads :=
  { ts with
    readyBits := Function.update ts.readyBits (p / 32) (ts.readyBits (p / 32) ||| 2 ^ (p % 32)) }

/-- Clear the bit of a priority in `_ready_bits`. -/
def clearBit (ts : Threads) (p : Nat) : Threads :=
  { ts with
    readyBits := Function.update ts.readyBits (p / 32)
      (ts.readyBits (p / 32) &&& (2 ^ 32 - 1 - 2 ^ (p % 32))) }

/-- Put a thread into a list, before the first thread that satisfies `p`, and store the iterator. -/
def insertInto (ts : Threads) (q : Que) (p : Nat → Bool) (t : Nat) : Except Stop Threads := do
  ensure (∀ e ∈ (ts.list q).busy, e.2 ≠ t) (.assertion "!is_exist(list, thr)")
  match (ts.list q).insertWhere p t with
  | none => .error (.panic "list is full")
  | some (l, n) => .ok ((ts.putList q l).upd t fun th => { th with iter := some (q, n) })

/-- The order of the lists of waiting threads: by timeout, and by priority under one timeout. -/
def waitsAfter (ts : Threads) (t u : Nat) : Bool :=
  (ts.thr t).timeout < (ts.thr u).timeout ||
    ((ts.thr u).timeout == (ts.thr t).timeout && decide ((ts.thr u).prio < (ts.thr t).prio))

/-- `add_ready`, `add_snd_timeout_waiting`, `add_send` and `add_rcv_timeout_waiting`. -/
def addTo (ts : Threads) (t : Nat) : Que → Except Stop Threads
  | .ready p => do
    let ts ← ts.insertInto (.ready p) (fun _ => false) t
    pure (ts.setBit p)
  | .send => ts.insertInto .send (fun _ => false) t
  | q => ts.insertInto q (ts.waitsAfter t) t

/-- Take the node of the thread's iterator out of a list; the iterator becomes `end()`. -/
def eraseFrom (ts : Threads) (q : Que) (t : Nat) : Except Stop Threads := do
  ensure (ts.isExist q (ts.thr t).iter = true) (.assertion "is_exist(list, it)")
  match (ts.thr t).iter with
  | none => .error (.assertion "is_exist(list, it)")
  | some (_, n) => .ok ((ts.putList q ((ts.list q).erase n)).upd t fun th => { th with iter := none })

/-- `del_ready`: the list is that of the priority of the thread in the node. -/
def delReady (ts : Threads) (t : Nat) : Except Stop Threads :=
  match ts.deref (ts.thr t).iter with
  | none => .error (.assertion "is_exist(que, it)")
  | some u => do
    let p := (ts.thr u).prio
    let ts ← ts.eraseFrom (.ready p) t
    pure (if (ts.list (.ready p)).busy = [] then ts.clearBit p else ts)

/-- `del_rcv_timeout_waiting` and `del_snd_timeout_waiting`: the thread in the node is in `s`. -/
def delWaiting (ts : Threads) (q : Que) (s : TState) (t : Nat) : Except Stop Threads :=
  match ts.deref (ts.thr t).iter with
  | none => .error (.assertion "is_exist(list, it)")
  | some u => do
    ensure ((ts.thr u).state = s) (.assertion "(*it)->state()")
    ts.eraseFrom q t

/-- The deletion that `state()` makes for the list of the thread. -/
def delFrom (ts : Threads) (t : Nat) : Que → Except Stop Threads
  | .ready _ => ts.delReady t
  | .send => ts.eraseFrom .send t
  | .sndTimeout => ts.delWaiting .sndTimeout .sendIpc t
  | .rcvTimeout => ts.delWaiting .rcvTimeout .receiveIpc t

/-- Unlink the thread from the list its fields dictate. -/
def unlink (ts : Threads) (t : Nat) : Except Stop Threads :=
  match (ts.thr t).que with
  | none => .ok ts
  | some q => ts.delFrom t q

/-- Link the thread to the list its fields dictate. -/
def link (ts : Threads) (t : Nat) : Except Stop Threads :=
  match (ts.thr t).que with
  | none => .ok ts
  | some q => ts.addTo t q

/-! ## Inherited priorities -/

/-- `inherit_prio_add`; the list has room for two. -/
def inheritPrioAdd (ts : Threads) (t owner prio : Nat) : Except Stop Threads := do
  let inh := (ts.thr t).inherited
  ensure (owner ≠ (ts.thr t).globid) (.assertion "owner != globid()")
  ensure (∀ i ∈ inh, i.1 ≠ owner) (.assertion "inherit_prio_find(owner) == _inherited_prios.end()")
  ensure (inh.length < 2) (.panic "list is full")
  pure (ts.upd t fun th =>
    { th with
      inherited := inh.takeWhile (fun i => i.2 < prio) ++ (owner, prio) ::
        inh.dropWhile (fun i => i.2 < prio) })

/-- `inherit_prio_del`. -/
def inheritPrioDel (ts : Threads) (t owner prio : Nat) : Except Stop Threads := do
  let inh := (ts.thr t).inherited
  ensure (owner ≠ (ts.thr t).globid) (.assertion "owner != globid()")
  match inh.find? fun i => i.1 = owner with
  | none => .error (.assertion "it != _inherited_prios.end()")
  | some i => do
    ensure (i.2 = prio) (.assertion "it->prio == priority")
    pure (ts.upd t fun th => { th with inherited := inh.eraseP fun i => i.1 = owner })

/-- The end of `state()`: the thread takes the priority back that it passed on. -/
def dropHeir (A : Arch) (ts : Threads) (curTask t : Nat) : Except Stop Threads :=
  if (ts.thr t).prioHeir = Thrid.nil then .ok ts
  else do
    match ← ts.find A curTask (ts.thr t).prioHeir with
    | none => .error (.assertion "thr")
    | some u => do
      let ts ← ts.inheritPrioDel u (ts.thr t).globid (ts.thr t).prioMax
      pure (ts.upd t fun th => { th with prioHeir := Thrid.nil })

/-! ## The operations on a thread -/

/-- What `state(Ready)` clears. -/
def cleared (th : Thread) : Thread :=
  { th with
    timeout := 0
    ipcTo := Thrid.nil
    fromSpec := Thrid.nil
    pfAddr := 0
    pfAccess := 0
    pfInst := 0
    timeslice := timesliceUsec }

/-- The fields that `state(s)` sets before it links the thread. -/
def entered (s : TState) (th : Thread) : Thread :=
  if s = .ready then cleared { th with state := s } else { th with state := s }

/-- `state(s)`. -/
def setState (A : Arch) (ts : Threads) (curTask t : Nat) (s : TState) : Except Stop Threads := do
  ensure ((ts.thr t).state ≠ s) (.assertion "_state != s")
  let ts ← ts.unlink t
  let ts := ts.upd t (entered s)
  let ts ← ts.link t
  ts.dropHeir A curTask t

/-- `prio(v)`. -/
def setPrio (ts : Threads) (t v : Nat) : Except Stop Threads :=
  if (ts.thr t).state = .ready then do
    let ts ← ts.delReady t
    let ts := ts.upd t fun th => { th with prio := v % 256 }
    ts.addTo t (.ready (v % 256))
  else .ok (ts.upd t fun th => { th with prio := v % 256 })

/-- `save_snd_phase(timeout, to)`. -/
def saveSndPhase (A : Arch) (ts : Threads) (curTask t timeout toId now : Nat) :
    Except Stop Threads := do
  ensure (Time.isRel A timeout = true) (.assertion "timeout.is_rel()")
  let ts := ts.upd t fun th => { th with timeout := Thread.deadline A timeout now, ipcTo := toId }
  ts.setState A curTask t .sendIpc

/-- `save_rcv_phase(timeout, from_spec)`. -/
def saveRcvPhase (A : Arch) (ts : Threads) (curTask t timeout fromSpec now : Nat) :
    Except Stop Threads := do
  ensure (Time.isRel A timeout = true) (.assertion "timeout.is_rel()")
  let ts := ts.upd t fun th =>
    { th with timeout := Thread.deadline A timeout now, fromSpec := fromSpec }
  ts.setState A curTask t .receiveIpc

/-- What `do_ipc` does before a thread waits for one partner: the partner inherits its priority. -/
def inheritPrio (ts : Threads) (t partner : Nat) : Except Stop Threads :=
  if (ts.thr partner).prio < (ts.thr t).prioMax then do
    let ts ← ts.inheritPrioAdd partner (ts.thr t).globid (ts.thr t).prioMax
    pure (ts.upd t fun th => { th with prioHeir := (ts.thr partner).globid })
  else .ok ts

/-- `create`. -/
def create (A : Arch) (ts : Threads) (curTask globid schedid pagerid task prio : Nat) :
    Except Stop (Threads × Nat) := do
  let n := Thrid.number A globid
  ensure (threadNumberMin ≤ n ∧ n < threadNumberMin + threadsMax)
    (.assertion "globid.number() >= Thread_number_min  &&  globid.number() <= Thread_number_max")
  let t := n - threadNumberMin
  ensure ((ts.thr t).state = .idle) (.assertion "thr->state() == Thread_t::Idle")
  let ts := ts.upd t fun th =>
    { th with task := task, globid := globid, schedid := schedid, pagerid := pagerid }
  let ts ← ts.setPrio t prio
  let ts ← ts.setState A curTask t .inactive
  pure (ts, t)

/-- `remove`. -/
def remove (A : Arch) (ts : Threads) (curTask globid : Nat) : Except Stop Threads := do
  let n := Thrid.number A globid
  ensure (threadNumberMin ≤ n ∧ n < threadNumberMin + threadsMax)
    (.assertion "globid.number() >= Thread_number_min  &&  globid.number() <= Thread_number_max")
  ts.setState A curTask (n - threadNumberMin) .idle

/-! ## Timeouts and time slices -/

/-- The loop of `check_ipc_timeouts(now, list)` over the threads of the list; `next` is the first one
that expired. -/
def expire (A : Arch) (curTask now : Nat) :
    List Nat → Option Nat → Threads → Except Stop (Option Nat × Threads)
  | [], next, ts => .ok (next, ts)
  | t :: rest, next, ts => do
    ensure ((ts.thr t).state = .sendIpc ∨ (ts.thr t).state = .receiveIpc)
      (.assertion "t->state() == Thread_t::Send_ipc  ||  t->state() == Thread_t::Receive_ipc")
    if now < (ts.thr t).timeout then pure (next, ts)
    else do
      let phase := if (ts.thr t).state = .sendIpc then 0 else 1
      let ts := ts.upd t fun th =>
        { th with
          utcb := { th.utcb with
            error := ipcErr A phase 1 0
            mr := Function.update th.utcb.mr 0 (Tag.setError A (th.utcb.mr 0) 1) } }
      let ts ← ts.setState A curTask t .ready
      let ts ← ts.dropHeir A curTask t
      expire A curTask now rest (next.or (some t)) ts

/-- The threads of a list. -/
def members (ts : Threads) (q : Que) : List Nat := (ts.list q).busy.map Prod.snd

/-- `check_ipc_timeouts(now)`. -/
def checkIpcTimeouts (A : Arch) (ts : Threads) (curTask now : Nat) :
    Except Stop (Option Nat × Threads) := do
  let r1 ← expire A curTask now (ts.members .sndTimeout) none ts
  let r2 ← expire A curTask now (r1.2.members .rcvTimeout) none r1.2
  match r1.1, r2.1 with
  | some t1, some t2 =>
    pure (some (if (r2.2.thr t2).prioMax < (r2.2.thr t1).prioMax then t1 else t2), r2.2)
  | some t1, none => pure (some t1, r2.2)
  | none, next => pure (next, r2.2)

/-- `timeslice_expired(thr, que)`: the thread gets a new time slice and goes to the end of its list;
the result is the first thread of the list. -/
def timesliceExpired (ts : Threads) (t : Nat) (que : Option Nat) :
    Except Stop (Option Nat × Threads) := do
  ensure ((ts.thr t).timeslice = 0) (.assertion "!thr->timeslice()")
  ensure ((ts.thr t).state = .ready) (.assertion "thr->state() == Thread_t::Ready")
  let q := Que.ready (que.getD (ts.thr t).prio)
  let ts := ts.upd t fun th => { th with timeslice := timesliceUsec }
  if 1 < (ts.list q).busy.length then
    match (ts.thr t).iter, ts.deref (ts.thr t).iter with
    | some (_, n), some u =>
      match (ts.list q).pushBack u with
      | none => .error (.panic "list is full")
      | some (l, n') =>
        let ts := (ts.putList q (l.erase n)).upd t fun th => { th with iter := some (q, n') }
        pure ((ts.members q).head?, ts)
    | _, _ => .error (.assertion "is_exist(que, it)")
  else pure ((ts.members q).head?, ts)

/-- The highest set bit of a word below bit `n`. -/
def topBit (w : Nat) : Nat → Option Nat
  | 0 => none
  | j + 1 => if w.testBit j then some j else topBit w j

/-- The two loops of `get_highest_prio_ready_thread` over `_ready_bits`. -/
def topPrio (bits : Nat → Nat) : Nat → Option Nat
  | 0 => none
  | i + 1 =>
    if bits i ≠ 0 then
      match topBit (bits i) 32 with
      | some j => some (32 * i + j)
      | none => topPrio bits i
    else topPrio bits i

/-- `get_highest_prio_ready_thread`. -/
def getHighestPrioReadyThread (ts : Threads) : Except Stop (Nat × Threads) :=
  match topPrio ts.readyBits 8 with
  | none => .error (.panic "no ready threads")
  | some p =>
    match (ts.members (.ready p)).head? with
    | none => .error (.assertion "que->size()")
    | some t =>
      if (ts.thr t).timeslice = 0 then do
        let r ← ts.timesliceExpired t (some p)
        match r.1 with
        | none => .error (.assertion "que->size()")
        | some u => pure (u, r.2)
      else .ok (t, ts)

end Threads

end Wrmos
