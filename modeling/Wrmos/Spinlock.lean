import Wrmos.Semaphore
import Wrmos.Lib.Code

/-!
# Spinlocks

`slock.cpp`, and the sections of `sem.cpp` between `wrm_spinlock_lock` and `wrm_spinlock_unlock`.  A lock is
a word that is null when it is free.  `test_and_set` is one instruction on SPARC, which reads the first byte
of the word and sets it; on the other processors nothing is tested and nothing is set.

Here a section is not one step.  Its accesses to the semaphore are steps of their own, in the order of the
source, and the steps of all threads interleave: an attempt to lock, one access, the unlock, and the steps
between the sections, which are those of `SemSys`.  An act that its thread is not ready for changes nothing.

* `Spot` says where a thread is: at a place of `SemSys`, before the next attempt to lock, or in a section
  with the accesses that it has still to do.
* After fifty attempts in vain a thread sleeps once (`cnt`).  Neither `l4_thread_switch` nor `usleep`
  touches anything else that is modelled here.
-/

namespace Wrmos

open Lib (ensure Code)

/-- `Wrm_spinlock_t`. -/
abbrev WrmSpinlock := BitVec 32

/-- `ldstub`: the byte at the address of the word, and the word with that byte set. -/
def ldstub (w : WrmSpinlock) : Nat × WrmSpinlock := ((w >>> 24).toNat, w ||| 0xff000000)

/-- `test_and_set`: what was there, and what is there now. -/
def testAndSet : Arch → WrmSpinlock → Nat × WrmSpinlock
  | .sparc, w => ldstub w
  | .arm, w => (0, w)
  | .x86, w => (0, w)
  | .x86_64, w => (0, w)

/-- `wrm_spinlock_init` and `wrm_spinlock_unlock`. -/
def wrmSpinlockInit : WrmSpinlock := 0
def wrmSpinlockUnlock : WrmSpinlock := 0

/-- The count of `wrm_spinlock_lock` after an attempt in vain. -/
def spinCount (cnt : Nat) : Nat := if cnt < 50 then cnt + 1 else 0

/-- The sections of `wrm_sem_wait` and `wrm_sem_post`. -/
inductive Section where
  | enter (timeout : Int)
  | check (timeout : Int)
  | giveUp
  | post
  deriving DecidableEq, Repr

/-- What a thread does behind a section: the call returns, it suspends itself, or it resumes a thread. -/
inductive After where
  | returns (rc : Int)
  | suspends
  | resumes (thr : Nat)
  deriving DecidableEq, Repr

namespace Sem

/-- Write the fields of the queue. -/
def setSlot (sem : Sem) (p thr : Nat) : Sem :=
  { sem with ring := { sem.ring with slot := Function.update sem.ring.slot p thr } }

def setRp (sem : Sem) (p : Nat) : Sem := { sem with ring := { sem.ring with rp := p } }

def setWp (sem : Sem) (p : Nat) : Sem := { sem with ring := { sem.ring with wp := p } }

/-- `sem->mode & Wrm_sem_recursive  &&  sem->owner == self`. -/
def ownedCode (self : Nat) : Code Sem Bool := do
  let recursive ← Code.read Sem.recursive
  if recursive then
    let owner ← Code.read Sem.owner
    pure (owner == some self)
  else pure false

/-- The end of the first section of `wrm_sem_wait`: the thread is written to the queue. -/
def enqueueCode (self : Nat) : Code Sem After := do
  let wp ← Code.read fun sem => sem.ring.wp
  let rp ← Code.read fun sem => sem.ring.rp
  if Lib.Ring.next semQueueLength wp = rp then pure (.returns 2)
  else
    Code.write fun sem => sem.setSlot wp self
    Code.write fun sem => sem.setWp (Lib.Ring.next semQueueLength wp)
    pure .suspends

/-- The first section of `wrm_sem_wait`. -/
def enterCode (self : Nat) (timeout : Int) : Code Sem After := do
  let owned ← ownedCode self
  if owned then pure (.returns 0)
  else
    let value ← Code.read Sem.value
    if value ≠ 0 then
      let binary ← Code.read Sem.binary
      if binary then Code.write fun sem => { sem with owner := some self }
      let value ← Code.read Sem.value
      Code.write fun sem => { sem with value := value - 1 }
      pure (.returns 0)
    else if timeout = 0 then pure (.returns semErrTimeout)
    else enqueueCode self

/-- The loop of `exist_in_queue`. -/
def existLoop (thr : Nat) : Nat → Nat → Code Sem Bool
  | 0, _ => pure false
  | k + 1, p => do
    let wp ← Code.read fun sem => sem.ring.wp
    if p = wp then pure false
    else
      let x ← Code.read fun sem => sem.ring.slot p
      if x = thr then pure true else existLoop thr k (Lib.Ring.next semQueueLength p)

/-- `exist_in_queue`, and what `wrm_sem_wait` does with it. -/
def checkCode (self : Nat) : Code Sem After := do
  let rp ← Code.read fun sem => sem.ring.rp
  let exist ← existLoop self semQueueLength rp
  pure (if exist then .suspends else .returns 0)

/-- The loop of `dequeue`. -/
def dequeueLoop (thr : Nat) : Nat → Nat → Bool → Code Sem Bool
  | 0, _, found => pure found
  | k + 1, p, found => do
    let wp ← Code.read fun sem => sem.ring.wp
    if p = wp then pure found
    else
      let x ← Code.read fun sem => sem.ring.slot p
      let next := Lib.Ring.next semQueueLength p
      let found := found || x = thr
      if found then
        let y ← Code.read fun sem => sem.ring.slot next
        Code.write fun sem => sem.setSlot p y
      dequeueLoop thr k next found

/-- `dequeue`, and what `wrm_sem_wait` does with it. -/
def giveUpCode (self : Nat) : Code Sem After := do
  let rp ← Code.read fun sem => sem.ring.rp
  let found ← dequeueLoop self semQueueLength rp false
  if found then
    let wp ← Code.read fun sem => sem.ring.wp
    Code.write fun sem => sem.setWp (if wp = 0 then semQueueLength - 1 else wp - 1)
  pure (.returns (if found then semErrTimeout else 0))

/-- The section of `wrm_sem_post` from the write of `sem->value++` on. -/
def putCode (value : Nat) : Code Sem (Except Stop After) := do
  Code.write fun sem => { sem with value := value + 1 }
  let binary ← Code.read Sem.binary
  if binary then
    Code.write fun sem => { sem with value := 1 }
    Code.write fun sem => { sem with owner := none }
  pure (.ok (.returns 0))

/-- The section of `wrm_sem_post`. -/
def postCode (self : Nat) : Code Sem (Except Stop After) := do
  let value ← Code.read Sem.value
  if value = semValueMax then pure (.ok (.returns 1))
  else
    let wp ← Code.read fun sem => sem.ring.wp
    let rp ← Code.read fun sem => sem.ring.rp
    if wp = rp then
      let value ← Code.read Sem.value
      putCode value
    else
      let value ← Code.read Sem.value
      if value ≠ 0 then pure (.error (.assertion "!sem->value"))
      else
        let thr ← Code.read fun sem => sem.ring.slot rp
        if thr = self then pure (.error (.assertion "thr != l4_utcb()->global_id()"))
        else
          Code.write fun sem => sem.setRp (Lib.Ring.next semQueueLength rp)
          let binary ← Code.read Sem.binary
          if binary then Code.write fun sem => { sem with owner := some thr }
          pure (.ok (.resumes thr))

end Sem

namespace Section

/-- The accesses of a section. -/
def code (self : Nat) : Section → Code Sem (Except Stop After)
  | enter timeout => Except.ok <$> Sem.enterCode self timeout
  | check _ => Except.ok <$> Sem.checkCode self
  | giveUp => Except.ok <$> Sem.giveUpCode self
  | post => Sem.postCode self

/-- The place before a section. -/
def pc (s : Nat) : Section → Pc
  | enter _ => .out
  | check timeout => .woken s timeout
  | giveUp => .expired s
  | post => .out

/-- The timeout with which the thread suspends itself behind a section. -/
def timeout : Section → Int
  | enter timeout => timeout
  | check timeout => timeout
  | giveUp => 0
  | post => 0

end Section

/-- Where a thread is. -/
inductive Spot where
  | at (pc : Pc)
  /-- In `wrm_spinlock_lock`. -/
  | locking (s : Nat) (c : Section) (cnt : Nat)
  /-- Behind it. -/
  | inside (s : Nat) (c : Section) (rest : Code Sem (Except Stop After))

structure SpinSys where
  lock : Nat → WrmSpinlock
  sem : Nat → Sem
  spot : Nat → Spot
  pending : Nat → Bool
  ret : Nat → Int

namespace SpinSys

/-- The start: nobody is in a call, and the locks are free. -/
def start (sems : Nat → Sem) : SpinSys where
  lock := fun _ => wrmSpinlockInit
  sem := sems
  spot := fun _ => .at .out
  pending := fun _ => false
  ret := fun _ => 0

/-- What can happen. -/
inductive Act where
  | wait (t s : Nat) (timeout : Int)
  | post (t s : Nat)
  | check (t : Nat)
  | giveUp (t : Nat)
  | attempt (t : Nat)
  | access (t : Nat)
  | unlock (t : Nat)
  | suspend (t : Nat)
  | expire (t : Nat)
  | signal (t : Nat)
  deriving DecidableEq, Repr

def goto (φ : SpinSys) (t : Nat) (spot : Spot) : SpinSys :=
  { φ with spot := Function.update φ.spot t spot }

/-- A call returns. -/
def finish (φ : SpinSys) (t : Nat) (rc : Int) : SpinSys :=
  { φ.goto t (.at .out) with ret := Function.update φ.ret t rc }

/-- One round of the loop of `wrm_spinlock_lock`. -/
def attempt (A : Arch) (φ : SpinSys) (t s : Nat) (c : Section) (cnt : Nat) : SpinSys :=
  let r := testAndSet A (φ.lock s)
  let φ := { φ with lock := Function.update φ.lock s r.2 }
  if r.1 = 0 then φ.goto t (.inside s c (c.code t)) else φ.goto t (.locking s c (spinCount cnt))

/-- One access. -/
def access (φ : SpinSys) (t s : Nat) (c : Section) (f : Sem → Sem)
    (k : Sem → Code Sem (Except Stop After)) : SpinSys :=
  { φ with sem := Function.update φ.sem s (f (φ.sem s)) }.goto t (.inside s c (k (φ.sem s)))

/-- What a thread does behind a section. -/
def proceed (φ : SpinSys) (t s : Nat) (c : Section) : After → SpinSys
  | .returns rc => φ.finish t rc
  | .suspends => φ.goto t (.at (.queued s c.timeout))
  | .resumes thr => φ.goto t (.at (.signalling thr))

/-- The end of a section. -/
def unlock (φ : SpinSys) (t s : Nat) (c : Section) (a : After) : SpinSys :=
  { φ with lock := Function.update φ.lock s wrmSpinlockUnlock }.proceed t s c a

/-- The receive of `suspend`, up to the point where the thread waits. -/
def suspend (φ : SpinSys) (t s : Nat) (timeout : Int) : SpinSys :=
  if φ.pending t then
    { φ.goto t (.at (.woken s timeout)) with pending := Function.update φ.pending t false }
  else φ.goto t (.at (.blocked s timeout))

/-- The send of `resume`. -/
def signal (φ : SpinSys) (t thr : Nat) : Except Stop SpinSys := do
  ensure (t ≠ thr) (.assertion "&cur != dst")
  match φ.spot thr with
  | .at (.blocked s timeout) => pure ((φ.goto thr (.at (.woken s timeout))).finish t 0)
  | _ => pure ({ φ with pending := Function.update φ.pending thr true }.finish t 0)

/-- One step. -/
def step (A : Arch) (φ : SpinSys) : Act → Except Stop SpinSys
  | .wait t s timeout =>
    match φ.spot t with
    | .at .out =>
      if timeout < 0 ∧ timeout ≠ semTimeoutInfinite then .ok (φ.finish t 1)
      else .ok (φ.goto t (.locking s (.enter timeout) 0))
    | _ => .ok φ
  | .post t s =>
    match φ.spot t with
    | .at .out => .ok (φ.goto t (.locking s .post 0))
    | _ => .ok φ
  | .check t =>
    match φ.spot t with
    | .at (.woken s timeout) => .ok (φ.goto t (.locking s (.check timeout) 0))
    | _ => .ok φ
  | .giveUp t =>
    match φ.spot t with
    | .at (.expired s) => .ok (φ.goto t (.locking s .giveUp 0))
    | _ => .ok φ
  | .attempt t =>
    match φ.spot t with
    | .locking s c cnt => .ok (φ.attempt A t s c cnt)
    | _ => .ok φ
  | .access t =>
    match φ.spot t with
    | .inside s c (.step f k) => .ok (φ.access t s c f k)
    | _ => .ok φ
  | .unlock t =>
    match φ.spot t with
    | .inside s c (.ret a) => a.map fun a => φ.unlock t s c a
    | _ => .ok φ
  | .suspend t =>
    match φ.spot t with
    | .at (.queued s timeout) => .ok (φ.suspend t s timeout)
    | _ => .ok φ
  | .expire t =>
    match φ.spot t with
    | .at (.blocked s timeout) =>
      if timeout = semTimeoutInfinite then .ok φ else .ok (φ.goto t (.at (.expired s)))
    | _ => .ok φ
  | .signal t =>
    match φ.spot t with
    | .at (.signalling thr) => φ.signal t thr
    | _ => .ok φ

end SpinSys

end Wrmos
