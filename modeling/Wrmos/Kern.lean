import Wrmos.Threads
import Wrmos.MapItem
import Wrmos.IoBitmap

/-!
# The kernel: its state, the scheduler, the timer and interrupts

`Kern` puts the threads, the memory, the interrupt threads and the interrupt controller together.  The
kernel is not preemptible: an entry runs until it returns to the user or calls `Sched_t::switch_to`.
A thread that leaves the processor inside the kernel goes on, when it comes back, behind that call:
what it has still to do is its `stack`, a list of frames.  The frames are those of `ipc.cpp`, the only
file with code behind a switch.

`History` is not part of the kernel.  It notes what the statements about whole runs are about: which
blocked thread was woken by whom, to which thread the fault message of a thread went, and which
interrupts came in and were passed on.

`SystemClock_t::sys_clock` is read once for each step, its value is `now`.
-/

namespace Wrmos

open Lib (ensure)

/-! ## Interrupts -/

/-- `Kcfg::Ints_max`. -/
def intsMax : Nat := 128

/-- `Int_thread_t`; its number is its index. -/
structure IntThread where
  handler : Nat
  pending : Bool
  deriving DecidableEq, Repr

/-- What `Intc` reads and writes of the interrupt controller.  The drivers refuse a line the
controller does not have. -/
structure Intc where
  lines : Nat
  masked : Nat → Bool
  pending : Nat → Bool

namespace Intc

def clear (c : Intc) (irq : Nat) : Except Stop Intc := do
  ensure (irq < c.lines) (.assertion "intc_clear() failed")
  pure { c with pending := Function.update c.pending irq false }

def mask (c : Intc) (irq : Nat) : Except Stop Intc := do
  ensure (irq < c.lines) (.assertion "intc_mask() failed")
  pure { c with masked := Function.update c.masked irq true }

def unmask (c : Intc) (irq : Nat) : Except Stop Intc := do
  ensure (irq < c.lines) (.assertion "intc_unmask() failed")
  pure { c with masked := Function.update c.masked irq false }

/-- `eoi` writes a register that nothing here reads. -/
def eoi (c : Intc) (irq : Nat) : Except Stop Intc := do
  ensure (irq < c.lines) (.assertion "intc_eoi() failed")
  pure c

end Intc

/-! ## Frames -/

/-- The local variables of `do_ipc`. -/
structure IpcCall where
  toId : Nat
  fromSpec : Nat
  timeouts : Nat
  tag : Nat
  deriving DecidableEq, Repr

/-- The local variables of the loop of `do_normal_ipc` over the typed items: the tag, the register of
the item, `next_buf` (`none` is `-1`), `bytes_copied`, and the words of the item. -/
structure ItemLoop where
  tag : Nat
  i : Nat
  nextBuf : Option Nat
  copied : Nat
  w0 : Nat
  fp : Nat
  deriving DecidableEq, Repr

/-- What a thread has still to do in the kernel. -/
inductive Frame where
  /-- `process_pfault(f, addr, access, inst)`. -/
  | pfault (f addr access inst : Nat)
  /-- `process_exception(f, type, pf)`. -/
  | exception (f type pf : Nat)
  /-- `do_normal_ipc(&cur, dst)` behind its `process_pfault`, in the name of `sender`. -/
  | sendItems (call : IpcCall) (dst sender : Nat) (l : ItemLoop)
  /-- `do_normal_ipc(snd, &cur)` behind its `process_pfault`. -/
  | recvItems (call : IpcCall) (sndPartner : Option Nat) (snd : Nat) (l : ItemLoop)
  /-- The page-fault reply behind its `process_pfault`. -/
  | reply (call : IpcCall) (dst fp : Nat)
  /-- The receive phase. -/
  | receive (call : IpcCall) (sndPartner : Option Nat)
  /-- The end of `do_ipc`. -/
  | finish (sndPartner rcvPartner : Option Nat)
  deriving DecidableEq, Repr

/-! ## History -/

/-- How a thread is known to others. -/
structure Ident where
  task : Nat
  localid : Nat
  globid : Nat
  deriving DecidableEq, Repr

/-- `task()`, `localid()` and `globid()`. -/
def Thread.ident (th : Thread) : Ident := ⟨th.task, th.uutcb, th.globid⟩

/-- `entry_frame()->scall_ipc_from(id)`. -/
def Thread.setFrom (id : Nat) (th : Thread) : Thread := { th with ipcFrom := id }

/-- What wakes a blocked thread: a message of a thread, a fault message in the name of a thread, an
interrupt, a software signal, a reply to its own fault, or the end of an interrupted transfer. -/
inductive Source where
  | message (snd : Ident)
  | fault (snd : Ident)
  | irq (n : Nat)
  | signal
  | reply (by_ : Nat)
  | transfer
  deriving DecidableEq, Repr

/-- One wake-up: the thread, the state it was blocked in, its `from_spec`, the thread its last fault
message was delivered to, and the source. -/
structure Wake where
  thr : Nat
  ident : Ident
  was : TState
  fromSpec : Nat
  faultTo : Option Nat
  source : Source
  deriving DecidableEq, Repr

/-- An interrupt as its handler gets it: the sender and the tag it finds. -/
structure IrqMsg where
  irq : Nat
  thr : Nat
  fromId : Nat
  tag : Nat
  deriving DecidableEq, Repr

structure History where
  wakes : List Wake
  faultTo : Nat → Option Nat
  raised : Nat → Nat
  irqMsgs : List IrqMsg

/-! ## The state -/

structure Kern where
  ts : Threads
  mem : Mem
  io : Nat → IoBitmap
  current : Nat
  stack : Nat → List Frame
  ints : Nat → IntThread
  intc : Intc
  hist : History

namespace Kern

/-- A kernel with the given threads: no thread has anything left to do in the kernel, no interrupt has
a handler, and nothing has happened. -/
def start (A : Arch) (ts : Threads) (current : Nat) : Kern where
  ts := ts
  mem := Mem.fresh A Cells.empty []
  io := fun _ => IoBitmap.init
  current := current
  stack := fun _ => []
  ints := fun _ => ⟨Thrid.nil, false⟩
  intc := ⟨32, fun _ => true, fun _ => false⟩
  hist := ⟨[], fun _ => none, fun _ => 0, []⟩

/-- The task of the running thread. -/
def curTask (k : Kern) : Nat := (k.ts.thr k.current).task

/-- Change one thread. -/
def upd (k : Kern) (t : Nat) (f : Thread → Thread) : Kern := { k with ts := k.ts.upd t f }

/-- Put frames on the stack of the running thread. -/
def push (k : Kern) (fs : List Frame) : Kern :=
  { k with stack := Function.update k.stack k.current (fs ++ k.stack k.current) }

/-- Set the pending flag of an interrupt thread. -/
def setPending (k : Kern) (irq : Nat) (p : Bool) : Kern :=
  { k with ints := Function.update k.ints irq { k.ints irq with pending := p } }

/-- An interrupt came in. -/
def noteRaised (k : Kern) (irq : Nat) : Kern :=
  { k with hist := { k.hist with raised := Function.update k.hist.raised irq (k.hist.raised irq + 1) } }

/-- An interrupt was passed on to its handler, with the sender and the tag that it finds. -/
def noteIrqMsg (k : Kern) (irq t fromId tag : Nat) : Kern :=
  { k with hist := { k.hist with irqMsgs := ⟨irq, t, fromId, tag⟩ :: k.hist.irqMsgs } }

/-- The fault message of `f` was delivered to `t`. -/
def noteFaultTo (k : Kern) (f t : Nat) : Kern :=
  { k with hist := { k.hist with faultTo := Function.update k.hist.faultTo f (some t) } }

/-- `t->state(s)`. -/
def setState (A : Arch) (k : Kern) (t : Nat) (s : TState) : Except Stop Kern := do
  let ts ← k.ts.setState A k.curTask t s
  pure { k with ts := ts }

/-- `t->state(Ready)` for a thread that waits for a message or a reply. -/
def wake (A : Arch) (k : Kern) (t : Nat) (source : Source) : Except Stop Kern := do
  let th := k.ts.thr t
  let w : Wake := ⟨t, th.ident, th.state, th.fromSpec, k.hist.faultTo t, source⟩
  let k ← k.setState A t .ready
  pure { k with hist := { k.hist with wakes := w :: k.hist.wakes } }

/-! ## The scheduler -/

/-- `Sched_t::switch_to`, with the time slices of `context_switch`. -/
def switchTo (k : Kern) (nxt now : Nat) : Kern :=
  if k.current = nxt then k
  else
    { k with
      ts := (k.ts.upd k.current fun th => th.timesliceUpdate now 0).upd nxt fun th =>
        { th with updatePoint := now }
      current := nxt }

/-- `Sched_t::switch_to_next`. -/
def switchToNext (k : Kern) (now : Nat) : Except Stop Kern := do
  let r ← k.ts.getHighestPrioReadyThread
  pure (({ k with ts := r.2 } : Kern).switchTo r.1 now)

/-! ## The timer and the interrupts -/

/-- The last lines of `kern_timer_tick`: which thread runs, when `next1` is the thread
`check_ipc_timeouts` returned and `next2` the one `timeslice_expired` did. -/
def preempt (k : Kern) (next1 next2 : Option Nat) (now : Nat) : Kern :=
  let cur := k.ts.thr k.current
  match next1.filter fun t => decide (cur.prioMax < (k.ts.thr t).prioMax), next2 with
  | some t, _ => k.switchTo t now
  | none, some t => k.switchTo t now
  | none, none => k

/-- `next2` of `kern_timer_tick`: the next thread of the same priority, when the time slice of the
running thread has run out. -/
def checkTimeslice (ts : Threads) (cur : Nat) : Except Stop (Option Nat × Threads) :=
  if (ts.thr cur).timeslice = 0 then ts.timesliceExpired cur none else .ok (none, ts)

/-- `kern_timer_tick`. -/
def kernTimerTick (A : Arch) (k : Kern) (now : Nat) : Except Stop Kern := do
  let ts := k.ts.upd k.current fun th => th.timesliceUpdate now now
  let r1 ← ts.checkIpcTimeouts A k.curTask now
  let r2 ← checkTimeslice r1.2 k.current
  pure (({ k with ts := r2.2 } : Kern).preempt r1.1 r2.1 now)

/-- `is_irq_acceptable`. -/
def irqAcceptable (A : Arch) (th : Thread) (irq : Nat) : Bool :=
  th.fromSpec == Thrid.any A || th.fromSpec == Thrid.createIrq A irq

/-- `kentry_irq`, when the handler `dst` waits for the interrupt.  The four calls that should make its
tag an interrupt tag change copies: `msgtag()` returns a value. -/
def deliverIrq (A : Arch) (k : Kern) (irq dst now : Nat) : Except Stop Kern := do
  let tag := (k.ts.thr dst).utcb.mr 0
  let k := k.upd dst (Thread.setFrom (Thrid.createIrq A irq))
  let k ← (k.noteIrqMsg irq dst (Thrid.createIrq A irq) tag).wake A dst (.irq irq)
  pure (if (k.ts.thr k.current).prioMax < (k.ts.thr dst).prioMax then k.switchTo dst now else k)

/-- `kentry_irq`, when the handler is `dst`. -/
def passIrq (A : Arch) (k : Kern) (irq dst now : Nat) : Except Stop Kern :=
  if (k.ts.thr dst).state = .receiveIpc then do
    ensure ((k.ts.thr dst).fromSpec ≠ Thrid.nil) (.assertion "_ipc.from_spec != L4_thrid_t::Nil")
    if irqAcceptable A (k.ts.thr dst) irq then k.deliverIrq A irq dst now
    else pure (k.setPending irq true)
  else .ok (k.setPending irq true)

/-- `kentry_irq` for an interrupt that is not the timer's. -/
def routeIrq (A : Arch) (k : Kern) (irq now : Nat) : Except Stop Kern := do
  let intc ← k.intc.mask irq
  ensure (irq < intsMax) (.assertion "ithr")
  ensure ((k.ints irq).handler ≠ Thrid.nil) (.assertion "!h.is_nil()")
  match ← k.ts.find A k.curTask (k.ints irq).handler with
  | none => .error (.assertion "dst")
  | some dst => (({ k with intc := intc } : Kern).noteRaised irq).passIrq A irq dst now

/-- `kentry_irq`; `timerIrq` is `Cfg_krn_timer_irq`. -/
def kentryIrq (A : Arch) (timerIrq : Nat) (k : Kern) (irq now : Nat) : Except Stop Kern := do
  let intc ← k.intc.clear irq
  let k := { k with intc := intc }
  if irq = timerIrq then do
    let intc ← k.intc.eoi irq
    ({ k with intc := intc } : Kern).kernTimerTick A now
  else k.routeIrq A irq now

end Kern

end Wrmos
