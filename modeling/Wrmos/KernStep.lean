import Wrmos.Ipc

/-!
# The steps of the kernel

Everything that can happen, one event at a time: the running thread goes on inside the kernel, enters it
by a system call, a page fault or an exception, writes to a UTCB of its task, or a line of the interrupt
controller is raised.  While the running thread has a frame it is inside the kernel, with interrupts
off: only `resume` does anything then, and a masked line is noted by the controller.  An event that
cannot happen changes nothing.

`Manage` is what `syscall_thread_control`, `syscall_exchange_registers` and `syscall_schedule` do to the
threads once their checks have passed.  Which thread is allowed to call them is left open.
-/

namespace Wrmos

open Lib (ensure)

/-- The management of threads and interrupt handlers. -/
inductive Manage where
  /-- `Threads_t::create`, for a new task or an old one. -/
  | create (globid schedid pagerid task : Nat) (newTask : Bool)
  /-- `activate`: the UTCB is mapped at `uutcb`. -/
  | activate (t uutcb pa : Nat)
  /-- Modification by `syscall_thread_control`. -/
  | modify (globid schedid pagerid task : Nat)
  /-- Deletion by `syscall_thread_control`. -/
  | delete (globid : Nat)
  /-- `syscall_exchange_registers` with a new pager. -/
  | pager (t pagerid : Nat)
  /-- `syscall_schedule` with a new priority. -/
  | prio (t v : Nat)
  /-- `Int_thread_t::handler`. -/
  | handler (irq id : Nat)
  deriving DecidableEq, Repr

/-- What can happen. -/
inductive Event where
  | resume
  | irq (n : Nat)
  | ipc (toId fromSpec timeouts : Nat)
  | pagefault (addr access inst : Nat)
  | exception (type pf : Nat)
  | threadSwitch (id : Nat)
  | unmap (fp : Nat) (utcbs : List (Nat × Nat))
  | write (t : Nat) (utcb : Utcb)
  | manage (m : Manage)

namespace Kern

/-- `Threads_t::create`, and `Tasks_t::create` before it for a new task. -/
def createThread (A : Arch) (k : Kern) (globid schedid pagerid task : Nat) (newTask : Bool) :
    Except Stop Kern := do
  let mem := if newTask then
      { k.mem with space := Function.update k.mem.space task ⟨A.freshRoot, []⟩ }
    else k.mem
  let r ← k.ts.create A k.curTask globid schedid pagerid task (k.ts.thr k.current).prio
  pure { k with ts := r.1, mem := mem }

/-- `activate`. -/
def activate (A : Arch) (k : Kern) (t uutcb pa : Nat) : Except Stop Kern := do
  let th := k.ts.thr t
  ensure (th.isActive = false) (.assertion "activate:  already active.")
  let m ← k.mem.map A th.task uutcb pa pageSz Acc.utcb 1
  (({ k with mem := m } : Kern).upd t fun th => { th with uutcb := uutcb }).setState A t .active

/-- The fields that the modification of a thread sets. -/
def modified (globid schedid pagerid task : Nat) (th : Thread) : Thread :=
  { th with
    globid := globid
    schedid := if schedid = Thrid.nil then th.schedid else schedid
    pagerid := if pagerid = Thrid.nil then th.pagerid else pagerid
    task := task }

/-- `Int_thread_t::handler(id)`. -/
def setHandler (A : Arch) (k : Kern) (irq id : Nat) : Except Stop Kern := do
  ensure (id = Thrid.nil ∨ Thrid.isGlobal A id = true ∧ threadNumberMin < Thrid.number A id ∧
    Thrid.number A id < threadNumberMin + threadsMax)
    (.assertion "h.is_nil() || thrid_is_global_user(h)")
  let k := { k with ints := Function.update k.ints irq ⟨id, false⟩ }
  if id = Thrid.nil then do
    let c ← k.intc.mask irq
    pure { k with intc := c }
  else pure k

/-- One call of the management. -/
def manage (A : Arch) (k : Kern) : Manage → Except Stop Kern
  | .create globid schedid pagerid task newTask =>
    k.createThread A globid schedid pagerid task newTask
  | .activate t uutcb pa => k.activate A t uutcb pa
  | .modify globid schedid pagerid task =>
    match k.ts.findNumber (Thrid.number A globid) with
    | none => .ok k
    | some t => .ok (k.upd t (modified globid schedid pagerid task))
  | .delete globid => do
    let ts ← k.ts.remove A k.curTask globid
    pure { k with ts := ts }
  | .pager t pagerid => do
    match ← k.ts.find A k.curTask pagerid with
    | none => pure k
    | some p => pure (k.upd t fun th => { th with pagerid := pagerid, pager := some p })
  | .prio t v => do
    let ts ← k.ts.setPrio t v
    pure { k with ts := ts }
  | .handler irq id => k.setHandler A irq id

/-- `syscall_thread_switch`. -/
def threadSwitch (A : Arch) (k : Kern) (id now : Nat) : Except Stop Kern := do
  match ← k.ts.find A k.curTask id with
  | none => k.switchToNext now
  | some _ => .error (.panic "TODO:   donates remaining timeslice to dest.")

/-- What the running thread does outside the kernel. -/
def userStep (A : Arch) (kioSz : Nat) (k : Kern) (now : Nat) : Event → Except Stop Kern
  | .ipc toId fromSpec timeouts => k.ipcEntry A kioSz toId fromSpec timeouts now
  | .pagefault addr access inst => .ok (k.push [.pfault k.current addr access inst])
  | .exception type pf => .ok (k.push [.exception k.current type pf])
  | .threadSwitch id => k.threadSwitch A id now
  | .unmap fp utcbs => do
    let m ← k.mem.unmapFpage A k.curTask fp utcbs
    pure { k with mem := m }
  | .write t utcb =>
    if (k.ts.thr t).task = k.curTask then .ok (k.upd t fun th => { th with utcb := utcb }) else .ok k
  | .manage m => k.manage A m
  | _ => .ok k

/-- A masked line is raised: the controller keeps one interrupt. -/
def latch (k : Kern) (n : Nat) : Kern :=
  if k.intc.pending n then k
  else
    ({ k with intc := { k.intc with pending := Function.update k.intc.pending n true } } :
      Kern).noteRaised n

/-- A line is raised. -/
def raise (A : Arch) (timerIrq : Nat) (k : Kern) (n now : Nat) : Except Stop Kern :=
  if k.intc.masked n then .ok (k.latch n)
  else if k.stack k.current = [] then k.kentryIrq A timerIrq n now
  else .ok k

/-- One step; an event comes with the time. -/
def step (A : Arch) (kioSz timerIrq : Nat) (k : Kern) (e : Nat × Event) : Except Stop Kern :=
  match e.2 with
  | .resume => k.resume A kioSz e.1
  | .irq n => k.raise A timerIrq n e.1
  | ev => if k.stack k.current = [] then k.userStep A kioSz e.1 ev else .ok k

end Kern

end Wrmos
