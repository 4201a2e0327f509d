import Wrmos.Syscalls

/-!
# From the start of the kernel on

`startup.cpp` up to the switch to sigma0, and what can happen from there on: the events of the kernel and
the system calls of this development.  A system call is made by the running thread outside the kernel.

`Platform` has what the configuration, the boot loader and the page allocator decide.
-/

namespace Wrmos

open Lib

structure Platform where
  /-- `Kio_sz`. -/
  kioSz : Nat
  /-- `Cfg_krn_timer_irq`. -/
  timerIrq : Nat
  /-- The address of the kernel interface page. -/
  kipPa : Nat

/-- What the kernel finds when it starts: its own mappings, the pages of the two tasks and of the UTCB
of sigma0, and the memory that sigma0 gets, with its rights. -/
structure BootInfo where
  kern : Cells
  kspace : List (Desc AccType)
  kupage : Nat
  sigma0Kupage : Nat
  utcbPa : Nat
  memory : List (Nat × Nat × Nat)

/-- `Acc_r` and `Acc_rw` in a flexpage. -/
def Fpage.accR : Nat := 4
def Fpage.accRw : Nat := 6

namespace Sys

/-- The static constructors. -/
def init (A : Arch) (b : BootInfo) : Sys where
  k := { Kern.start A (Threads.init A) 0 with mem := Mem.fresh A b.kern b.kspace }
  slot := fun _ => Slot.fresh A
  task := fun _ => Task.fresh
  tasks := NodeList.init tasksMax

/-- `create_kthread_and_go`. -/
def createKthread (A : Arch) (σ : Sys) (tsk : Nat) : Except Stop Sys := do
  let id := Thrid.createGlobal A threadNumberMin 2
  let r ← σ.createThread A id id id tsk 0
  let k ← r.1.k.setState A r.2 .ready
  pure { r.1 with k := { k with current := r.2 } }

/-- The mappings of sigma0. -/
def mapAll (A : Arch) (tsk : Nat) : List (Nat × Nat × Nat) → Mem → Except Stop Mem
  | [], m => .ok m
  | (addr, sz, acc) :: rest, m => do
    let m ← m.map A tsk addr addr sz acc 1
    mapAll A tsk rest m

/-- `set_ioperm_all(1)` of a task. -/
def allPorts (σ : Sys) (tsk : Nat) : Sys :=
  { σ with k := { σ.k with io := Function.update σ.k.io tsk IoBitmap.all } }

/-- `kthread`. -/
def startSigma0 (A : Arch) (P : Platform) (b : BootInfo) (σ : Sys) : Except Stop Sys := do
  let r ← σ.createTask A b.sigma0Kupage
  let m ← mapAll A r.2 b.memory r.1.k.mem
  let σ ← (r.1.putMem m).setAreas A P.kipPa r.2 (Fpage.create A P.kipPa pageSz Fpage.accR)
    (Fpage.create A b.utcbPa pageSz Fpage.accRw)
  let t ← (σ.allPorts r.2).createThread A (Thrid.sigma0 A) Thrid.nil Thrid.nil r.2 255
  let σ ← t.1.utcbLocation A P.kioSz t.2 b.utcbPa
  let σ ← σ.activate A t.2
  let k ← σ.k.startThread A t.2
  pure { σ with k := k.switchTo t.2 0 }

/-- `startup.cpp`. -/
def boot (A : Arch) (P : Platform) (b : BootInfo) : Except Stop Sys := do
  let r ← (init A b).createTask A b.kupage
  let σ ← r.1.createKthread A r.2
  σ.startSigma0 A P b

/-! ## Steps -/

/-- The system calls that return a result word. -/
inductive Call where
  | exchangeRegisters (r : Exreg)
  | threadControl (kupage dst space sched pager utcb : Nat)
  | schedule (dst timeCtl procCtl prio preemptCtl : Nat)
  | spaceControl (space kip utcb redirector : Nat)
  | memoryControl (control : Nat) (attr : Nat → Nat)

/-- A system call: its result word and the state behind it.  The registers in which `ExchangeRegisters`
delivers what it was asked for are results of the caller, too. -/
def doCall (A : Arch) (P : Platform) (σ : Sys) : Call → Except Stop (Nat × Sys)
  | .exchangeRegisters r => do
    let x ← σ.exchangeRegisters A r
    pure (x.1, x.2.2)
  | .threadControl kupage dst space sched pager utcb =>
    σ.threadControl A P.kioSz P.timerIrq kupage dst space sched pager utcb
  | .schedule dst timeCtl procCtl prio preemptCtl => σ.schedule A dst timeCtl procCtl prio preemptCtl
  | .spaceControl space kip utcb redirector => σ.spaceControl A P.kipPa space kip utcb redirector
  | .memoryControl control attr => σ.memoryControl A control attr

/-- What can happen.  The management and the unmapping of `Event` are the calls. -/
inductive Input where
  | event (e : Event)
  | call (c : Call)
  | unmap (control : Nat)

/-- An event of the kernel. -/
def doEvent (A : Arch) (P : Platform) (σ : Sys) (now : Nat) : Event → Except Stop Sys
  | .manage _ => .ok σ
  | .unmap _ _ => .ok σ
  | e => do
    let k ← σ.k.step A P.kioSz P.timerIrq (now, e)
    pure { σ with k := k }

/-- One step; an input comes with the time. -/
def step (A : Arch) (P : Platform) (σ : Sys) (i : Nat × Input) : Except Stop Sys :=
  match i.2 with
  | .event e => σ.doEvent A P i.1 e
  | .call c =>
    if σ.k.stack σ.k.current = [] then do
      let r ← σ.doCall A P c
      pure r.2
    else .ok σ
  | .unmap control => if σ.k.stack σ.k.current = [] then σ.unmap A control else .ok σ

end Sys

end Wrmos
