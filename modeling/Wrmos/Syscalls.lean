import Wrmos.Task
import Wrmos.KernStep

/-!
# The system calls that manage threads, tasks and memory

`syscall_exchange_registers`, `syscall_thread_control`, `syscall_schedule`, `syscall_space_control`,
`syscall_unmap` and `syscall_memory_control` of `syscalls.cpp`.  A call returns its result word; a failed one returns `0` and
leaves an error code in the UTCB of the caller.  What `Sched_t` and the drivers do is not in these calls.

`timerIrq` is `Cfg_krn_timer_irq`, `kioSz` is `Kio_sz`, `kipPa` the address of the kernel interface page,
and `kupage` the page that `kmem_alloc` has for a new task.
-/

namespace Wrmos

open Lib (ensure)

/-! ## Identifiers -/

namespace Thrid

variable (A : Arch) (id : Nat)

/-- `thrid_sigma0`. -/
def sigma0 : Nat := createGlobal A (threadNumberMin + 1) 2

/-- `thrid_is_global_user`. -/
def isGlobalUser : Bool :=
  isGlobal A id && decide (threadNumberMin + 1 ≤ number A id) &&
    decide (number A id < threadNumberMin + threadsMax)

end Thrid

/-- `-1` as a word. -/
def Arch.minusOne (A : Arch) : Nat := 2 ^ A.wordBits - 1

/-- `L4_fpage_t::is_cross`. -/
def Fpage.isCross (A : Arch) (fp p : Nat) : Bool :=
  !(decide (A.add (addr A fp) (size A fp) ≤ addr A p) || decide (A.add (addr A p) (size A p) ≤ addr A fp))

namespace Sys

/-- `cur.uutcb()->error(e)`, with the result of a failed call. -/
def fail (σ : Sys) (e : Nat) : Nat × Sys :=
  (0, σ.updThr σ.k.current fun th => { th with utcb := { th.utcb with error := e } })

/-- The caller is sigma0 or the root task. -/
def privileged (A : Arch) (σ : Sys) : Bool :=
  σ.cur.globid == Thrid.sigma0 A || σ.cur.globid == Thrid.roottask A

/-- `Threads_t::find(id)`. -/
def find (A : Arch) (σ : Sys) (id : Nat) : Except Stop (Option Nat) := σ.k.ts.find A σ.k.curTask id

/-! ## ExchangeRegisters -/

/-- The registers of the call. -/
structure Exreg where
  dest : Nat
  control : Nat
  ip : Nat
  ip2 : Nat
  pager : Nat
  uhandle : Nat
  flags : Nat
  deriving DecidableEq, Repr

/-- `exit_pc(entry_type)` and `exit_pc2(entry_type)`; only sparc has them. -/
def exitPc (A : Arch) (s : Slot) : Nat × Nat :=
  if A ≠ .sparc then (0, 0)
  else if s.entryType = 1 then (s.npc, A.add s.npc 4)
  else if s.entryType = 2 ∨ s.entryType = 4 then (s.pc, s.npc)
  else (0, 0)

/-- `exit_pc(entry_type, v1, v2)`. -/
def setExitPc (A : Arch) (v1 v2 : Nat) (s : Slot) : Slot :=
  if A ≠ .sparc then s
  else if s.entryType = 1 then
    { s with pc := if A.add v1 4 ≠ v2 then 0 else s.pc, npc := A.sub v2 4 }
  else if s.entryType = 2 ∨ s.entryType = 4 ∨ s.entryType = 5 then { s with pc := v1, npc := v2 }
  else { s with pc := 0 }

/-- `flags(f)`: without the right to it the unit is switched off. -/
def setFlags (A : Arch) (f : Nat) (s : Slot) : Slot :=
  if s.flags % 2 = 1 ∧ f % 2 = 0 then
    { s with
      flags := f % 2 ^ 32
      fpuInUse := 0
      psr := if A = .sparc then s.psr &&& (2 ^ 32 - 1 - 2 ^ 12) else s.psr }
  else { s with flags := f % 2 ^ 32 }

/-- What the call delivers in the registers of the caller. -/
def delivered (A : Arch) (σ : Sys) (t : Nat) (r : Exreg) : Exreg :=
  if r.control.testBit 9 then
    { r with
      ip := (exitPc A (σ.slot t)).1
      ip2 := (exitPc A (σ.slot t)).2
      flags := (σ.slot t).flags
      uhandle := (σ.slot t).userHandle }
  else r

/-- The part of the call behind the pager. -/
def exchange (A : Arch) (σ : Sys) (t : Nat) (r : Exreg) : Except Stop Sys := do
  let σ := if r.control.testBit 6 then σ.updSlot t fun s => { s with userHandle := r.uhandle } else σ
  let σ := if r.control.testBit 5 then σ.updSlot t (setFlags A r.flags) else σ
  let σ := if r.control.testBit 4 then σ.updSlot t (setExitPc A r.ip r.ip2) else σ
  ensure (r.control.testBit 4 = true → (σ.slot t).entryType ∈ [1, 2, 4, 5])
    (.assertion "etype == Entry_type_syscall  ||  etype == Entry_type_pfault")
  ensure (r.control.testBit 3 = false ∧ r.control.testBit 2 = false ∧ r.control.testBit 1 = false ∧
    r.control.testBit 0 = false) (.panic "exreg:  unimplemented control, implme!")
  pure σ

/-- `syscall_exchange_registers`: the result, the registers and the state. -/
def exchangeRegisters (A : Arch) (σ : Sys) (r : Exreg) : Except Stop (Nat × Exreg × Sys) := do
  let some t ← σ.find A r.dest | pure ((σ.fail 2).1, r, (σ.fail 2).2)
  if (σ.thr t).task ≠ σ.cur.task then pure ((σ.fail 2).1, r, (σ.fail 2).2)
  else do
    let out := σ.delivered A t r
    ensure (r.control.testBit 8 = false) (.panic "exreg:  unimplemented control, implme!")
    let result := if Thrid.isLocal A r.dest then (σ.thr t).globid else (σ.thr t).uutcb
    if r.control.testBit 7 then do
      let some p ← σ.find A r.pager | pure ((σ.fail 2).1, out, (σ.fail 2).2)
      let σ' ← (σ.updThr t fun th => { th with pagerid := r.pager, pager := some p }).exchange A t r
      pure (result, out, σ')
    else do
      let σ' ← σ.exchange A t r
      pure (result, out, σ')

/-! ## ThreadControl -/

/-- The task of the thread that the space specifier names; `0` when there is no such thread. -/
def spaceTask (A : Arch) (σ : Sys) (space : Nat) : Except Stop Nat := do
  match ← σ.find A space with
  | none => pure 0
  | some t => pure (σ.thr t).task

/-- `utcb_location`, when a location was given; it is an address of the caller. -/
def setUtcb (A : Arch) (kioSz : Nat) (σ : Sys) (t utcb : Nat) : Except Stop Sys :=
  if utcb = A.minusOne then .ok σ
  else do
    let pa ← σ.k.mem.walk A σ.cur.task utcb pageSz
    ensure (pa ≠ 0) (.assertion "pa")
    σ.utcbLocation A kioSz t pa

/-- `Int_thread_t::handler`. -/
def setHandler (A : Arch) (σ : Sys) (irq id : Nat) : Except Stop Sys := do
  let k ← σ.k.setHandler A irq id
  pure { σ with k := k }

/-- The creation of a thread in the task `tsk`. -/
def newThread (A : Arch) (kioSz : Nat) (σ : Sys) (tsk dst sched pager utcb : Nat) : Except Stop Sys := do
  let r ← σ.createThread A dst sched pager tsk σ.cur.prio
  let σ ← r.1.setUtcb A kioSz r.2 utcb
  if pager = Thrid.nil then pure σ else σ.activate A r.2

/-- The creation of a thread. -/
def create (A : Arch) (kioSz : Nat) (σ : Sys) (kupage dst space sched pager utcb : Nat) :
    Except Stop (Nat × Sys) :=
  if sched = Thrid.nil then .ok (σ.fail 4)
  else if dst = space ∧ pager ≠ Thrid.nil then .ok (σ.fail 3)
  else if dst = space then do
    let r ← σ.createTask A kupage
    let σ' ← r.1.newThread A kioSz r.2 dst sched pager utcb
    pure (1, σ')
  else do
    let tsk ← σ.spaceTask A space
    if pager ≠ Thrid.nil ∧ (tsk = 0 ∨ (σ.task tsk).isConfigured A = false ∨ (σ.task tsk).isFull = true) then
      pure (σ.fail 3)
    else do
      let σ' ← σ.newThread A kioSz tsk dst sched pager utcb
      pure (1, σ')

/-- The fields that the modification of a thread sets before its UTCB. -/
def renamed (dst sched : Nat) (th : Thread) : Thread :=
  { th with globid := dst, schedid := if sched = Thrid.nil then th.schedid else sched }

/-- The modification of a thread. -/
def modify (A : Arch) (kioSz : Nat) (σ : Sys) (t dst space sched pager utcb : Nat) :
    Except Stop (Nat × Sys) := do
  let tsk ← σ.spaceTask A space
  if (pager ≠ Thrid.nil ∧ (σ.thr t).isActive = false) ∧
      (tsk = 0 ∨ (σ.task tsk).isConfigured A = false) then pure (σ.fail 3)
  else if utcb ≠ A.minusOne ∧ (σ.thr t).isActive = true then pure (σ.fail 6)
  else do
    let σ ← (σ.updThr t (renamed dst sched)).setUtcb A kioSz t utcb
    let σ := σ.updThr t fun th => { th with task := tsk }
    if pager = Thrid.nil then pure (1, σ)
    else do
      let σ := σ.updThr t fun th => { th with pagerid := pager }
      if (σ.thr t).isActive then pure (1, σ)
      else do
        let σ ← σ.activate A t
        pure (1, σ)

/-- The deletion of a thread. -/
def delete (A : Arch) (σ : Sys) (t dst : Nat) : Except Stop (Nat × Sys) := do
  let tsk := (σ.thr t).task
  let σ ← σ.freeUtcbKspace A t
  let x ← σ.deref tsk
  let x ← x.freeUtcbUspace A (σ.thr t).uutcb
  let ts ← σ.k.ts.remove A σ.k.curTask dst
  let σ := { σ with k := { σ.k with ts := ts } }.putTask tsk x
  if x.isEmpty then do
    let σ ← σ.removeTask tsk
    pure (1, σ)
  else pure (1, σ)

/-- `syscall_thread_control`. -/
def threadControl (A : Arch) (kioSz timerIrq : Nat) (σ : Sys) (kupage dst space sched pager utcb : Nat) :
    Except Stop (Nat × Sys) :=
  if σ.privileged A = false then .ok (σ.fail 1)
  else if Thrid.isInt A dst = true ∧ Thrid.number A dst ≠ timerIrq then do
    let σ ← σ.setHandler A (Thrid.number A dst) pager
    pure (1, σ)
  else if Thrid.isGlobalUser A dst = false then .ok (σ.fail 2)
  else
    match σ.k.ts.findNumber (Thrid.number A dst) with
    | none =>
      if space = Thrid.nil then .ok (σ.fail 2) else σ.create A kioSz kupage dst space sched pager utcb
    | some t =>
      if space = Thrid.nil then σ.delete A t dst else σ.modify A kioSz t dst space sched pager utcb

/-! ## Schedule -/

/-- The result of the call for a thread in this state. -/
def schedResult : TState → Except Stop Nat
  | .idle => .error (.panic "ImpMe")
  | .inactive => .ok 2
  | .active | .ready => .ok 3
  | .sendIpc | .sendPfault | .sendException => .ok 4
  | .receiveIpc | .receivePfault | .receiveException => .ok 6

/-- `syscall_schedule`; the time, processor and preemption controls are not implemented. -/
def schedule (A : Arch) (σ : Sys) (dst timeCtl procCtl prio preemptCtl : Nat) :
    Except Stop (Nat × Sys) := do
  let some t ← σ.find A dst | pure (σ.fail 2)
  if (σ.thr t).schedid ≠ σ.cur.globid then pure (σ.fail 1)
  else if σ.cur.prio < prio then pure (σ.fail 5)
  else do
    ensure (timeCtl = A.minusOne) (.panic "IMPLEMENT ME:  set time_control.")
    ensure (procCtl = A.minusOne) (.panic "IMPLEMENT ME:  set processor_control.")
    let ts ← (if prio = A.minusOne then .ok σ.k.ts else σ.k.ts.setPrio t prio)
    ensure (preemptCtl = A.minusOne) (.panic "IMPLEMENT ME:  set preemption_control.")
    let rc ← schedResult (ts.thr t).state
    pure (rc, { σ with k := { σ.k with ts := ts } })

/-! ## SpaceControl -/

/-- `kip_area(fpage)` and `utcb_area(fpage)`. -/
def setAreas (A : Arch) (kipPa : Nat) (σ : Sys) (tsk kip utcb : Nat) : Except Stop Sys := do
  let x ← σ.deref tsk
  ensure (x.utcbs.count = 0) (.assertion "!_utcbs_bitmap.count()")
  ensure (Fpage.isNil kip = false) (.assertion "!fpage.is_nil()")
  let m ← σ.k.mem.map A tsk (Fpage.addr A kip) kipPa pageSz Acc.ur 1
  pure ((σ.putTask tsk { x with
    kipArea := kip
    utcbArea := utcb
    utcbs := x.utcbs.init (Fpage.size A utcb / pageSz % 2 ^ 32) }).putMem m)

/-- `syscall_space_control`. -/
def spaceControl (A : Arch) (kipPa : Nat) (σ : Sys) (space kip utcb redirector : Nat) :
    Except Stop (Nat × Sys) :=
  if σ.privileged A = false then .ok (σ.fail 1)
  else do
    let thr ← (if Thrid.isGlobalUser A space then σ.find A space
      else .ok (if Thrid.isLocal A space then some σ.k.current else none))
    match thr with
    | none => pure (σ.fail 3)
    | some t =>
      let x := σ.task (σ.thr t).task
      if (σ.thr t).task = 0 then pure (σ.fail 3)
      else if x.activeThreads = false ∧
          (Fpage.addr A utcb % pageSz ≠ 0 ∨ Fpage.size A utcb % pageSz ≠ 0 ∨ Fpage.access utcb &&& 6 ≠ 6) then
        pure (σ.fail 6)
      else if x.activeThreads = false ∧
          (Fpage.addr A kip % pageSz ≠ 0 ∨ Fpage.size A kip ≠ pageSz ∨ Fpage.access kip ≠ 5 ∨
            Fpage.isCross A kip utcb = true) then
        pure (σ.fail 7)
      else do
        let σ' ← (if x.activeThreads then .ok σ else σ.setAreas A kipPa (σ.thr t).task kip utcb)
        pure (1, if redirector = Thrid.nil then σ'
          else σ'.putTask (σ.thr t).task { σ'.task (σ.thr t).task with redirector := redirector })

/-! ## Unmap -/

/-- `kutcb()` and `uutcb()` of the slots that `remap_user_utcb` finds for a task. -/
def utcbsOf (σ : Sys) (tsk : Nat) : List (Nat × Nat) :=
  ((List.range threadsMax).filter fun t => (σ.thr t).task = tsk).map fun t =>
    ((σ.slot t).kutcb, (σ.thr t).uutcb)

/-- The loop of `syscall_unmap` over the flexpages, which are in the message registers of the caller. -/
def unmapFpages (A : Arch) : Nat → Nat → Sys → Except Stop Sys
  | 0, _, σ => .ok σ
  | n + 1, i, σ => do
    let m ← σ.k.mem.unmapFpage A σ.cur.task (σ.cur.utcb.mr i) (σ.utcbsOf σ.cur.task)
    unmapFpages A n (i + 1) (σ.putMem m)

/-- `syscall_unmap`. -/
def unmap (A : Arch) (σ : Sys) (control : Nat) : Except Stop Sys :=
  unmapFpages A (control % 256 + 1) 0 σ

/-! ## MemoryControl -/

/-- One flexpage; the second component says whether the call goes on. -/
def setAttr (A : Arch) (attr : Nat → Nat) (fp : Nat) (σ : Sys) : Except Stop (Sys × Bool) := do
  ensure (Fpage.isIo fp = false) (.assertion "!fp.is_io()")
  ensure (Fpage.isComplete A fp = false ∧ Fpage.isNil fp = false)
    (.panic "mctl:  fpage is complete or nil.")
  match Region.find A (σ.k.mem.space σ.cur.task).uspace (Fpage.addr A fp) (Fpage.size A fp) with
  | none => pure ((σ.fail 5).2, false)
  | some _ => do
    let m ← σ.k.mem.map A σ.cur.task (Fpage.addr A fp) (Fpage.addr A fp) (Fpage.size A fp) 0
      (if attr (fp % 4) = 1 then 0 else 1)
    pure (σ.putMem m, true)

/-- The loop over the flexpages, which are in the message registers of the caller. -/
def setAttrs (A : Arch) (attr : Nat → Nat) : Nat → Nat → Sys → Except Stop (Nat × Sys)
  | 0, _, σ => .ok (1, σ)
  | n + 1, i, σ => do
    let r ← σ.setAttr A attr (σ.cur.utcb.mr i)
    if r.2 then setAttrs A attr n (i + 1) r.1 else pure (0, r.1)

/-- The number of flexpages: `(control & ~0x3f) + 1` as an `unsigned`. -/
def memFpages (A : Arch) (control : Nat) : Nat := A.add (control / 64 * 64) 1 % 2 ^ 32

/-- `syscall_memory_control`. -/
def memoryControl (A : Arch) (σ : Sys) (control : Nat) (attr : Nat → Nat) : Except Stop (Nat × Sys) :=
  if σ.privileged A = false then .ok (σ.fail 1)
  else if 64 < memFpages A control ∨ 1 < attr 0 ∨ 1 < attr 1 ∨ 1 < attr 2 ∨ 1 < attr 3 then .ok (σ.fail 5)
  else setAttrs A attr (memFpages A control) 0 σ

end Sys

end Wrmos
