import Wrmos.Arch
import Wrmos.Lib.Ring

/-!
# Semaphores

`wrm_sem_wait` and `wrm_sem_post` of `sem.cpp`.  A thread that has to wait puts itself into the queue of
the semaphore and suspends itself by a receive from itself, for the software signal of the kernel; a post
takes the first thread out of the queue and signals it.  A signal for a thread that does not wait on
itself is kept (`signal_pending`) and ends its next suspension, whatever that is for.  So a thread that
wakes up looks whether it is still in the queue, and one whose timeout came looks whether it is no longer
there.

The sections under the spinlock are atomic, and so are the two system calls.  `Pc` says where a thread is
between them; any interleaving of the steps of any number of threads on any number of semaphores is a
list of `Act`.  An act that its thread is not ready for changes nothing.

`Notes` is not part of the program: it counts calls, notes the threads that were taken out of a queue by
a post and have not returned yet, and numbers the threads in the order in which they came to a queue.
-/

namespace Wrmos

open Lib (ensure)

/-- `Wrm_sem_queue_length` and `Wrm_sem_value_max`. -/
def semQueueLength : Nat := 8
def semValueMax : Nat := 256

/-- `Wrm_sem_timeout_infinite` and `Wrm_sem_err_timeout`. -/
def semTimeoutInfinite : Int := -1
def semErrTimeout : Int := 99

/-- `Wrm_sem_t` without its lock; the mode is its two bits. -/
structure Sem where
  value : Nat
  owner : Option Nat
  ring : Lib.Ring Nat
  binary : Bool
  recursive : Bool

namespace Sem

/-- `wrm_sem_init`: the error, or the semaphore. -/
def init (binary recursive : Bool) (value : Nat) : Except Int Sem :=
  if recursive && !binary then .error 1
  else if semValueMax < value then .error 2
  else
    .ok ⟨if binary && value ≠ 0 then 1 else value, none, ⟨fun _ => 0, 0, 0⟩, binary, recursive⟩

/-- The threads in the queue. -/
def queue (sem : Sem) : List Nat := sem.ring.toList semQueueLength

/-- The first section of `wrm_sem_wait`: its result, or `none` when the thread is in the queue now. -/
def enter (sem : Sem) (self : Nat) (timeout : Int) : Option Int × Sem :=
  if sem.recursive && sem.owner == some self then (some 0, sem)
  else if sem.value ≠ 0 then
    (some 0, { sem with owner := if sem.binary then some self else sem.owner, value := sem.value - 1 })
  else if timeout = 0 then (some semErrTimeout, sem)
  else
    match sem.ring.push semQueueLength self with
    | none => (some 2, sem)
    | some ring => (none, { sem with ring := ring })

/-- `exist_in_queue`. -/
def existInQueue (sem : Sem) (thr : Nat) : Bool := sem.ring.contains semQueueLength thr

/-- `dequeue`. -/
def dequeue (sem : Sem) (thr : Nat) : Bool × Sem :=
  let r := sem.ring.remove semQueueLength thr
  (r.1, { sem with ring := r.2 })

/-- The section of `wrm_sem_post`: its result and the thread to resume. -/
def post (sem : Sem) (self : Nat) : Except Stop (Int × Option Nat × Sem) :=
  if sem.value = semValueMax then .ok (1, none, sem)
  else
    match sem.ring.pop semQueueLength with
    | some (thr, ring) => do
      ensure (sem.value = 0) (.assertion "!sem->value")
      ensure (thr ≠ self) (.assertion "thr != l4_utcb()->global_id()")
      pure (0, some thr, { sem with ring := ring, owner := if sem.binary then some thr else sem.owner })
    | none =>
      .ok (0, none, { sem with
        value := if sem.binary then 1 else sem.value + 1
        owner := if sem.binary then none else sem.owner })

end Sem

/-- Where a thread is. -/
inductive Pc where
  /-- In no call. -/
  | out
  /-- In the queue, before the receive of `suspend`. -/
  | queued (s : Nat) (timeout : Int)
  /-- In the receive. -/
  | blocked (s : Nat) (timeout : Int)
  /-- `suspend` returned 0. -/
  | woken (s : Nat) (timeout : Int)
  /-- `suspend` returned `L4_ipc_timeout`. -/
  | expired (s : Nat)
  /-- In `wrm_sem_post`, before the send of `resume`. -/
  | signalling (thr : Nat)
  deriving DecidableEq, Repr

/-- The successful calls by semaphore, the waits of a thread that it has not yet undone by posts, the
threads taken out of a queue by a post, and the order of arrival. -/
structure Notes where
  waits : Nat → Nat
  posts : Nat → Nat
  depth : Nat → Nat → Nat
  handed : Nat → List Nat
  clock : Nat
  ticket : Nat → Nat

structure SemSys where
  sem : Nat → Sem
  pc : Nat → Pc
  pending : Nat → Bool
  ret : Nat → Int
  notes : Notes

namespace SemSys

/-- The start: nobody is in a call. -/
def start (sems : Nat → Sem) : SemSys where
  sem := sems
  pc := fun _ => .out
  pending := fun _ => false
  ret := fun _ => 0
  notes := ⟨fun _ => 0, fun _ => 0, fun _ _ => 0, fun _ => [], 0, fun _ => 0⟩

/-- What can happen. -/
inductive Act where
  | wait (t s : Nat) (timeout : Int)
  | suspend (t : Nat)
  | expire (t : Nat)
  | check (t : Nat)
  | giveUp (t : Nat)
  | post (t s : Nat)
  | signal (t : Nat)
  deriving DecidableEq, Repr

def setSem (σ : SemSys) (s : Nat) (sem : Sem) : SemSys := { σ with sem := Function.update σ.sem s sem }

def goto (σ : SemSys) (t : Nat) (pc : Pc) : SemSys := { σ with pc := Function.update σ.pc t pc }

/-- A call returns. -/
def finish (σ : SemSys) (t : Nat) (rc : Int) : SemSys :=
  { σ.goto t .out with ret := Function.update σ.ret t rc }

/-- A wait was successful. -/
def noteWait (σ : SemSys) (t s : Nat) : SemSys :=
  { σ with notes := { σ.notes with
      waits := Function.update σ.notes.waits s (σ.notes.waits s + 1)
      depth := Function.update σ.notes.depth t
        (Function.update (σ.notes.depth t) s (σ.notes.depth t s + 1))
      handed := Function.update σ.notes.handed s ((σ.notes.handed s).erase t) } }

/-- A thread comes to a queue. -/
def noteArrival (σ : SemSys) (t : Nat) : SemSys :=
  { σ with notes := { σ.notes with
      clock := σ.notes.clock + 1
      ticket := Function.update σ.notes.ticket t σ.notes.clock } }

/-- A post was successful. -/
def notePost (σ : SemSys) (t s : Nat) (thr : Option Nat) : SemSys :=
  { σ with notes := { σ.notes with
      posts := Function.update σ.notes.posts s (σ.notes.posts s + 1)
      depth := Function.update σ.notes.depth t
        (Function.update (σ.notes.depth t) s (σ.notes.depth t s - 1))
      handed := Function.update σ.notes.handed s (thr.toList ++ σ.notes.handed s) } }

/-- `wrm_sem_wait` returns. -/
def endWait (σ : SemSys) (t s : Nat) (rc : Int) : SemSys :=
  if rc = 0 then (σ.noteWait t s).finish t rc else σ.finish t rc

/-- `wrm_sem_wait` up to the end of its first section. -/
def wait (σ : SemSys) (t s : Nat) (timeout : Int) : SemSys :=
  if timeout < 0 ∧ timeout ≠ semTimeoutInfinite then σ.finish t 1
  else
    match (σ.sem s).enter t timeout with
    | (some rc, sem) => (σ.setSem s sem).endWait t s rc
    | (none, sem) => ((σ.setSem s sem).noteArrival t).goto t (.queued s timeout)

/-- The receive of `suspend`, up to the point where the thread waits. -/
def suspend (σ : SemSys) (t s : Nat) (timeout : Int) : SemSys :=
  if σ.pending t then { σ.goto t (.woken s timeout) with pending := Function.update σ.pending t false }
  else σ.goto t (.blocked s timeout)

/-- The section behind a suspension that was ended by a signal. -/
def check (σ : SemSys) (t s : Nat) (timeout : Int) : SemSys :=
  if (σ.sem s).existInQueue t then σ.goto t (.queued s timeout) else σ.endWait t s 0

/-- The section behind a suspension that was ended by the timeout. -/
def giveUp (σ : SemSys) (t s : Nat) : SemSys :=
  let r := (σ.sem s).dequeue t
  (σ.setSem s r.2).endWait t s (if r.1 then semErrTimeout else 0)

/-- `wrm_sem_post` up to the end of its section. -/
def post (σ : SemSys) (t s : Nat) : Except Stop SemSys := do
  let r ← (σ.sem s).post t
  if r.1 ≠ 0 then pure (σ.finish t r.1)
  else
    match r.2.1 with
    | none => pure (((σ.setSem s r.2.2).notePost t s none).finish t 0)
    | some thr => pure (((σ.setSem s r.2.2).notePost t s (some thr)).goto t (.signalling thr))

/-- The send of `resume`: `do_ipc` with the label of a software signal. -/
def signal (σ : SemSys) (t thr : Nat) : Except Stop SemSys := do
  ensure (t ≠ thr) (.assertion "&cur != dst")
  match σ.pc thr with
  | .blocked s timeout => pure ((σ.goto thr (.woken s timeout)).finish t 0)
  | _ => pure ({ σ with pending := Function.update σ.pending thr true }.finish t 0)

/-- One step. -/
def step (σ : SemSys) : Act → Except Stop SemSys
  | .wait t s timeout => if σ.pc t = .out then .ok (σ.wait t s timeout) else .ok σ
  | .suspend t =>
    match σ.pc t with
    | .queued s timeout => .ok (σ.suspend t s timeout)
    | _ => .ok σ
  | .expire t =>
    match σ.pc t with
    | .blocked s timeout => if timeout = semTimeoutInfinite then .ok σ else .ok (σ.goto t (.expired s))
    | _ => .ok σ
  | .check t =>
    match σ.pc t with
    | .woken s timeout => .ok (σ.check t s timeout)
    | _ => .ok σ
  | .giveUp t =>
    match σ.pc t with
    | .expired s => .ok (σ.giveUp t s)
    | _ => .ok σ
  | .post t s => if σ.pc t = .out then σ.post t s else .ok σ
  | .signal t =>
    match σ.pc t with
    | .signalling thr => σ.signal t thr
    | _ => .ok σ

end SemSys

end Wrmos
