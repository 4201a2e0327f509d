import Wrmos.Bitmap
import Wrmos.Ipc
import Wrmos.KernTables

/-!
# Tasks and the UTCBs of threads

`Task_t` and `Tasks_t` of `task.h`, and the members of `Thread_t` that give a thread its UTCB.  The UTCB
is one page: `utcb_location` maps it at a free page of the kernel window, `activate` maps it in the
task, at a position of the task's UTCB area that its bitmap keeps.

A task is a number: its node in the pool plus one, so that `0` is the null pointer, which stops the kernel
when it is followed.  A pointer to a task that was released reads what is left in the node.  The address
space of a task is that of its number in `Mem`.  `Slot` has the fields of `Thread_t` that `Thread` does not
have.
-/

namespace Wrmos

open Lib (ensure NodeList)

/-! ## Tasks -/

/-- `Task_t`. -/
structure Task where
  kipArea : Nat
  utcbArea : Nat
  utcbs : Bitmap
  redirector : Nat

namespace Task

/-- The constructor. -/
def fresh : Task := ⟨Fpage.nil, Fpage.nil, Bitmap.empty, Thrid.nil⟩

/-- `is_configured`. -/
def isConfigured (A : Arch) (tsk : Task) : Bool :=
  Fpage.addr A tsk.kipArea != 0 && Fpage.size A tsk.kipArea != 0 &&
    (Fpage.addr A tsk.utcbArea != 0 && Fpage.size A tsk.utcbArea != 0)

/-- `is_empty`. -/
def isEmpty (tsk : Task) : Bool := tsk.utcbs.count == 0

/-- `is_full`. -/
def isFull (tsk : Task) : Bool := tsk.utcbs.count == tsk.utcbs.capacity

/-- `active_threads`. -/
def activeThreads (tsk : Task) : Bool := tsk.utcbs.count != 0

/-- `alloc_utcb_uspace`: an address, or `0`. -/
def allocUtcbUspace (A : Arch) (tsk : Task) : Except Stop (Nat × Task) := do
  ensure (Fpage.addr A tsk.utcbArea ≠ 0 ∧ Fpage.size A tsk.utcbArea ≠ 0)
    (.assertion "_utcb_area.addr() && _utcb_area.size()")
  match tsk.utcbs.getfree A with
  | none => pure (0, tsk)
  | some (pos, utcbs) =>
    pure (A.add (Fpage.addr A tsk.utcbArea) (pos * pageSz), { tsk with utcbs := utcbs })

/-- `free_utcb_uspace`. -/
def freeUtcbUspace (A : Arch) (tsk : Task) (utcb : Nat) : Except Stop Task := do
  ensure (Fpage.addr A tsk.utcbArea ≠ 0 ∧ Fpage.size A tsk.utcbArea ≠ 0)
    (.assertion "_utcb_area.addr() && _utcb_area.size()")
  ensure (Fpage.addr A tsk.utcbArea ≤ utcb) (.assertion "utcb >= _utcb_area.addr()")
  match tsk.utcbs.clear A ((utcb - Fpage.addr A tsk.utcbArea) / pageSz % 2 ^ 32) with
  | none => .error (.assertion "!rc")
  | some utcbs => pure { tsk with utcbs := utcbs }

end Task

/-- The room of `tasks_t`. -/
def tasksMax : Nat := 16

/-! ## The kernel window -/

/-- `Kutcbs_va` and `Kutcbs_sz`. -/
def kutcbsVa (A : Arch) (kioSz : Nat) : Nat := A.krnVaddr + 0x400000 + pageSz + kioSz + pageSz
def kutcbsSz : Nat := threadsMax * pageSz

namespace Mem

/-- `Aspace::kmap_utcb`; the page lies in one table. -/
def kmapUtcb (A : Arch) (kioSz : Nat) (m : Mem) (pa : Nat) : Except Stop (Mem × Nat) := do
  ensure (pa % pageSz = 0) (.assertion "is_aligned(pa, Cfg_page_sz)")
  ensure (pa ≠ 0) (.assertion "pa")
  let r ← Region.alloc A aspaceRoom m.kspace pageSz pageSz ⟨Acc.kutcb, true⟩ .notCombine
    (kutcbsVa A kioSz) kutcbsSz
  ensure (r.2 ≠ 0) (.assertion "kva && no kernel memory")
  let code ← acc2mmuacc A Acc.kutcb
  checkKern A r.2 pageSz
  let c ← A.mapTb code 1 false A.ktabLevels m.kern r.2 pa pageSz
  pure ({ m with kspace := r.1, kern := c }, r.2)

/-- `Aspace::kunmap_utcb`. -/
def kunmapUtcb (A : Arch) (m : Mem) (va : Nat) : Except Stop Mem := do
  ensure (va % pageSz = 0) (.assertion "is_aligned(va, Cfg_page_sz)")
  ensure (va ≠ 0) (.assertion "va")
  let l ← Region.free A aspaceRoom m.kspace va pageSz
  checkKern A va pageSz
  let c ← A.unmapTb A.ktabLevels m.kern va pageSz
  pure { m with kspace := l, kern := c }

end Mem

/-! ## Threads -/

/-- The other fields of `Thread_t`; `psr`, `pc` and `npc` are in the entry frame of sparc, and
`userHandle` in the UTCB. -/
structure Slot where
  flags : Nat
  fpuInUse : Nat
  kutcb : Nat
  utcbPa : Nat
  entryType : Nat
  psr : Nat
  pc : Nat
  npc : Nat
  userHandle : Nat
  deriving DecidableEq, Repr

/-- The constructor. -/
def Slot.fresh (A : Arch) : Slot := ⟨0, 0, 2 ^ A.wordBits - 1, 2 ^ A.wordBits - 1, 0, 0, 0, 0, 0⟩

/-- The kernel with its tasks. -/
structure Sys where
  k : Kern
  slot : Nat → Slot
  task : Nat → Task
  tasks : NodeList Unit

namespace Sys

/-- The thread in the kernel. -/
def thr (σ : Sys) (t : Nat) : Thread := σ.k.ts.thr t

/-- The running thread. -/
def cur (σ : Sys) : Thread := σ.thr σ.k.current

def updThr (σ : Sys) (t : Nat) (f : Thread → Thread) : Sys := { σ with k := σ.k.upd t f }

def updSlot (σ : Sys) (t : Nat) (f : Slot → Slot) : Sys :=
  { σ with slot := Function.update σ.slot t (f (σ.slot t)) }

def putTask (σ : Sys) (tsk : Nat) (x : Task) : Sys := { σ with task := Function.update σ.task tsk x }

def putMem (σ : Sys) (m : Mem) : Sys := { σ with k := { σ.k with mem := m } }

/-- The task is allocated. -/
def Allocated (σ : Sys) (tsk : Nat) : Prop := tsk ≠ 0 ∧ tsk - 1 ∈ σ.tasks.nodes

instance (σ : Sys) (tsk : Nat) : Decidable (σ.Allocated tsk) := by
  unfold Allocated
  infer_instance

/-- Follow a pointer to a task. -/
def deref (σ : Sys) (tsk : Nat) : Except Stop Task := do
  ensure (tsk ≠ 0) (.panic "page fault in the kernel")
  pure (σ.task tsk)

/-- `Tasks_t::create`, where `kupage` is the page that the constructor gets from `kmem_alloc`. -/
def createTask (A : Arch) (σ : Sys) (kupage : Nat) : Except Stop (Sys × Nat) :=
  match σ.tasks.pushBack () with
  | none => .error (.panic "list is full")
  | some (tasks, n) => do
    let m := { σ.k.mem with space := Function.update σ.k.mem.space (n + 1) ⟨A.freshRoot, []⟩ }
    let m ← m.map A (n + 1) 0xff000000 kupage pageSz Acc.kwUr 1
    pure (({ σ with tasks := tasks } : Sys).putMem m |>.putTask (n + 1) Task.fresh, n + 1)

/-- `Tasks_t::remove`. -/
def removeTask (σ : Sys) (tsk : Nat) : Except Stop Sys := do
  ensure (σ.Allocated tsk) (.panic "Attempt to remove alien task")
  pure { σ with tasks := σ.tasks.erase (tsk - 1) }

/-- `utcb_location(pa)`. -/
def utcbLocation (A : Arch) (kioSz : Nat) (σ : Sys) (t pa : Nat) : Except Stop Sys := do
  ensure ((σ.thr t).isActive = false) (.assertion "Attemt to set utcb_pa for already activate thread.")
  let r ← σ.k.mem.kmapUtcb A kioSz pa
  pure ((σ.putMem r.1).updSlot t fun s => { s with utcbPa := pa, kutcb := r.2 })

/-- `free_utcb_kspace`. -/
def freeUtcbKspace (A : Arch) (σ : Sys) (t : Nat) : Except Stop Sys :=
  if (σ.slot t).kutcb = 0 then .ok σ
  else do
    let m ← σ.k.mem.kunmapUtcb A (σ.slot t).kutcb
    pure ((σ.putMem m).updSlot t fun s =>
      { s with utcbPa := 2 ^ A.wordBits - 1, kutcb := 2 ^ A.wordBits - 1 })

/-- `setup_kstack`: the stack, and in it the entry frame, is filled. -/
def setupKstack (σ : Sys) (t : Nat) : Sys :=
  (σ.updThr t fun th => { th with frame := fun _ => 0xa5a5a5a5, ipcFrom := 0xa5a5a5a5 }).updSlot t
    fun s => { s with psr := 0xa5a5a5a5, pc := 0xa5a5a5a5, npc := 0xa5a5a5a5 }

/-- `Threads_t::create`. -/
def createThread (A : Arch) (σ : Sys) (globid schedid pagerid tsk prio : Nat) :
    Except Stop (Sys × Nat) := do
  let r ← σ.k.ts.create A σ.k.curTask globid schedid pagerid tsk prio
  pure (({ σ with k := { σ.k with ts := r.1 } } : Sys).setupKstack r.2, r.2)

/-- `activate`. -/
def activate (A : Arch) (σ : Sys) (t : Nat) : Except Stop Sys := do
  ensure ((σ.thr t).isActive = false) (.assertion "activate:  already active.")
  ensure ((σ.slot t).utcbPa ≠ 0) (.assertion "activate:  no utcb location.")
  let tsk ← σ.deref (σ.thr t).task
  ensure (tsk.isConfigured A = true) (.assertion "activate:  aspace has not been configured.")
  let r ← tsk.allocUtcbUspace A
  ensure (r.1 ≠ 0) (.assertion "utcb_uva")
  let m ← σ.k.mem.map A (σ.thr t).task r.1 (σ.slot t).utcbPa pageSz Acc.utcb 1
  let σ' := ((σ.putTask (σ.thr t).task r.2).putMem m).updThr t fun th => { th with uutcb := r.1 }
  let k ← σ'.k.setState A t .active
  pure { σ' with k := k }

end Sys

end Wrmos
