import Wrmos.Semaphore

/-!
# Mutexes of the pthread library

`pthread_mutex_lock` and `pthread_mutex_unlock` of `wpthread/src/mutex.c`.  A mutex of a program is two
words: a magic number, and a pointer to a `Wrm_mtx_t`, which is a binary semaphore.  The first lock of a
mutex allocates the semaphore; it looks at the magic number without a lock, locks one mutex that all
threads share, looks again, and writes the magic number last.

Each access to the two words is a step of its own, and so is each step of `SemSys` in a call of `sem.cpp`.
`Place` says where a thread is between them.  Any interleaving of any number of threads on any number of
mutexes is a list of `Act`; an act that its thread is not ready for changes nothing.

* Semaphore 0 is `_mtx` of `pthread_mutex_lock`, the blocks of `malloc` have the numbers behind it.
* `malloc` may fail: each act says whether it finds memory.
* `ready` says which blocks `wrm_mtx_init` has seen.  A call on another block is an error of the program
  that C gives no meaning to, so it stops the model.
* The functions of `mutex.c` that only say "implement me" are left out.
* `held` is not part of the program: a lock of the thread returned 0, and it has not called unlock since.
-/

namespace Wrmos

open Lib (ensure)

/-- `Pthread_as_wrm_magic`. -/
def pthreadAsWrmMagic : Nat := 0x117733aa

/-- `Mutex_t`. -/
structure PthreadMutex where
  magic : Nat
  wmtx : Option Nat
  deriving DecidableEq, Repr

/-- `Wrm_mtx_initializer`. -/
def wrmMtxInitializer : Sem := ⟨1, none, ⟨fun _ => 0, 0, 0⟩, true, false⟩

/-- Where a thread is in the two functions. -/
inductive Place where
  /-- In neither. -/
  | out
  /-- Before the first look at the magic number. -/
  | testing (m : Nat)
  /-- Before the lock of `_mtx`, and in it. -/
  | entering (m : Nat)
  | entered (m : Nat)
  /-- Before the second look at the magic number. -/
  | retesting (m : Nat)
  /-- Before `malloc`, before the look at what it returned, before `wrm_mtx_init`, and before the magic
  number is written. -/
  | allocating (m : Nat)
  | allocated (m : Nat)
  | initing (m : Nat)
  | marking (m : Nat)
  /-- Before the unlock of `_mtx`, and in it. -/
  | leaving (m : Nat)
  | left (m : Nat)
  /-- Before the pointer is read to lock, before that lock, and in it. -/
  | fetching (m : Nat)
  | locking (m s : Nat)
  | locked (m s : Nat)
  /-- In `pthread_mutex_unlock`: before the look at the magic number, before the pointer is read, before
  the unlock, and in it. -/
  | checking (m : Nat)
  | reading (m : Nat)
  | unlocking (m s : Nat)
  | unlocked (m s : Nat)
  deriving DecidableEq, Repr

structure PthreadSys where
  sys : SemSys
  mtx : Nat → PthreadMutex
  ready : Nat → Bool
  blocks : Nat
  place : Nat → Place
  ret : Nat → Int
  held : Nat → Nat → Bool

namespace PthreadSys

/-- The start: nobody is in a call, and nothing is allocated. -/
def start (mtx : Nat → PthreadMutex) : PthreadSys where
  sys := .start fun _ => wrmMtxInitializer
  mtx := mtx
  ready := fun s => s == 0
  blocks := 0
  place := fun _ => .out
  ret := fun _ => 0
  held := fun _ _ => false

/-- What can happen: a thread calls one of the functions, or goes on with what it is in; if it is before
`malloc`, memory is found or not. -/
inductive Act where
  | lock (t m : Nat)
  | unlock (t m : Nat)
  | go (t : Nat) (found : Bool)
  deriving DecidableEq, Repr

def goto (σ : PthreadSys) (t : Nat) (p : Place) : PthreadSys :=
  { σ with place := Function.update σ.place t p }

/-- A call returns. -/
def finish (σ : PthreadSys) (t : Nat) (rc : Int) : PthreadSys :=
  { σ.goto t .out with ret := Function.update σ.ret t rc }

def setMtx (σ : PthreadSys) (m : Nat) (mtx : PthreadMutex) : PthreadSys :=
  { σ with mtx := Function.update σ.mtx m mtx }

def setHeld (σ : PthreadSys) (t m : Nat) (b : Bool) : PthreadSys :=
  { σ with held := Function.update σ.held t (Function.update (σ.held t) m b) }

/-- A call of `sem.cpp` begins. -/
def call (σ : PthreadSys) (t : Nat) (a : SemSys.Act) (p : Place) : Except Stop PthreadSys := do
  let sys ← σ.sys.step a
  pure ({ σ with sys := sys }.goto t p)

/-- `m->wmtx = malloc(sizeof(Wrm_mtx_t))`. -/
def malloc (σ : PthreadSys) (m : Nat) (found : Bool) : PthreadSys :=
  if found then
    { σ.setMtx m { σ.mtx m with wmtx := some (σ.blocks + 1) } with blocks := σ.blocks + 1 }
  else σ.setMtx m { σ.mtx m with wmtx := none }

/-- `wrm_mtx_init(m->wmtx)`. -/
def mtxInit (σ : PthreadSys) (s : Nat) : PthreadSys :=
  match Sem.init true false 1 with
  | .ok sem => { σ with sys := σ.sys.setSem s sem, ready := Function.update σ.ready s true }
  | .error _ => σ

/-- The next step of a thread that is in no call of `sem.cpp`. -/
def advance (σ : PthreadSys) (t : Nat) (found : Bool) : Except Stop PthreadSys :=
  let rc := σ.sys.ret t
  match σ.place t with
  | .out => .ok σ
  | .testing m =>
    .ok (σ.goto t (if (σ.mtx m).magic ≠ pthreadAsWrmMagic then .entering m else .fetching m))
  | .entering m => σ.call t (.wait t 0 semTimeoutInfinite) (.entered m)
  | .entered m => .ok (if rc ≠ 0 then σ.finish t rc else σ.goto t (.retesting m))
  | .retesting m =>
    .ok (σ.goto t (if (σ.mtx m).magic ≠ pthreadAsWrmMagic then .allocating m else .leaving m))
  | .allocating m => .ok ((σ.malloc m found).goto t (.allocated m))
  | .allocated m => .ok (σ.goto t (if (σ.mtx m).wmtx.isSome then .initing m else .leaving m))
  | .initing m => do
    let s ← (σ.mtx m).wmtx.elim (.error (.assertion "wrm_mtx_init(0)")) .ok
    pure ((σ.mtxInit s).goto t (.marking m))
  | .marking m => .ok ((σ.setMtx m { σ.mtx m with magic := pthreadAsWrmMagic }).goto t (.leaving m))
  | .leaving m => σ.call t (.post t 0) (.left m)
  | .left m =>
    .ok (if rc ≠ 0 ∨ (σ.mtx m).wmtx = none then σ.finish t (rc.toNat ||| 100 : Nat)
      else σ.goto t (.fetching m))
  | .fetching m => do
    let s ← (σ.mtx m).wmtx.elim (.error (.assertion "wrm_mtx_lock(0)")) .ok
    pure (σ.goto t (.locking m s))
  | .locking m s => do
    ensure (σ.ready s = true) (.assertion "wrm_mtx_lock of no mutex")
    σ.call t (.wait t s semTimeoutInfinite) (.locked m s)
  | .locked m _ => .ok (if rc = 0 then (σ.setHeld t m true).finish t rc else σ.finish t rc)
  | .checking m =>
    .ok (if (σ.mtx m).magic = pthreadAsWrmMagic then σ.goto t (.reading m) else σ.finish t 0)
  | .reading m => do
    let s ← (σ.mtx m).wmtx.elim (.error (.assertion "wrm_mtx_unlock(0)")) .ok
    pure (σ.goto t (.unlocking m s))
  | .unlocking m s => do
    ensure (σ.ready s = true) (.assertion "wrm_mtx_unlock of no mutex")
    σ.call t (.post t s) (.unlocked m s)
  | .unlocked _ _ => .ok (σ.finish t rc)

/-- The next step of a thread in a call of `sem.cpp`, unless it waits in the kernel. -/
def semAct (t : Nat) : Pc → Option SemSys.Act
  | .queued _ _ => some (.suspend t)
  | .woken _ _ => some (.check t)
  | .expired _ => some (.giveUp t)
  | .signalling _ => some (.signal t)
  | _ => none

/-- One step. -/
def step (σ : PthreadSys) : Act → Except Stop PthreadSys
  | .lock t m => .ok (if σ.place t = .out then σ.goto t (.testing m) else σ)
  | .unlock t m =>
    .ok (if σ.place t = .out then (σ.setHeld t m false).goto t (.checking m) else σ)
  | .go t found =>
    if σ.sys.pc t = .out then σ.advance t found
    else
      match semAct t (σ.sys.pc t) with
      | some a => do
        let sys ← σ.sys.step a
        pure { σ with sys := sys }
      | none => .ok σ

end PthreadSys

end Wrmos
