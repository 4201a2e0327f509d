import Wrmos.SysClockSpec
import Wrmos.Lib.TimeSheet

/-!
# Accounts of processor time

`Time_account_t` of `krn/tmaccount.h` and the places that call it: the entry from user code and the exit to
it (`x86_entry_trap`, the entries of `krn/arm/entry.cpp`), `Thread_t::context_switch` and
`create_kthread_and_go`.  Each of them reads the clock, adds the time since the last such point to the
spans of the running thread, and notes the new point; the assertions say in which order the points come.

* The clock is that of `SysClock`: its events go on between the calls.
* `mode` says where the processor is.  The kernel thread starts in `startup`, and when it is switched to
  again it falls into `idle_loop`, which can be interrupted like user code.  A thread that was never
  switched to starts in user code.  Traps from the kernel itself do not return: interrupts are off there
  and exceptions end in a panic.
* `cur_kexit_end` and `cur_kentry_start` stay -1 on the processors whose entries call the accounting, so
  the spans of the code in assembler stay 0.
* `since` and `spans` are no data of the kernel: the last point, and who ran between the points in which
  mode.
-/

namespace Wrmos

open Lib (ensure TimeSpan)

/-- The timepoints of the live cycle of a thread. -/
inductive TimePoint where
  | resume
  | kexitStart
  | kexitEnd
  | kentryStart
  | kentryEnd
  | suspend
  deriving DecidableEq, Repr

/-- `Time_account_t`: its timepoints, its timespans and the last point. -/
structure TimeAccount where
  points : TimePoint → Nat
  execution : Nat
  kentry : Nat
  kwork : Nat
  kexit : Nat
  prevPoint : TimePoint

namespace TimeAccount

/-- The constructor. -/
def new : TimeAccount := ⟨fun _ => 0, 0, 0, 0, 0, .suspend⟩

/-- The end of each event: `prev_point` and its time. -/
def mark (a : TimeAccount) (p : TimePoint) (now : Nat) : TimeAccount :=
  { a with prevPoint := p, points := Function.update a.points p now }

/-- The time since the last point. -/
def elapsed (a : TimeAccount) (now : Nat) : Nat := now - a.points a.prevPoint

def tmeventResume (a : TimeAccount) (now : Nat) : Except Stop TimeAccount := do
  ensure (a.prevPoint = .suspend) (.assertion "prev_point == Tp_suspend")
  pure (a.mark .resume now)

def tmeventKexitStart (a : TimeAccount) (now : Nat) : Except Stop TimeAccount := do
  ensure (a.prevPoint = .kentryEnd ∨ a.prevPoint = .resume ∨ a.prevPoint = .kexitStart)
    (.assertion "prev_point == Tp_kentry_end  ||  prev_point == Tp_resume  ||  prev_point == Tp_kexit_start")
  pure ({ a with
    execution := a.execution + a.elapsed now
    kwork := a.kwork + a.elapsed now }.mark .kexitStart now)

/-- `tmevent_kentry_end`, while `cur_kexit_end` and `cur_kentry_start` are -1. -/
def tmeventKentryEnd (a : TimeAccount) (now : Nat) : Except Stop TimeAccount := do
  ensure (a.prevPoint = .kexitStart ∨ a.prevPoint = .resume ∨ a.prevPoint = .kentryEnd)
    (.assertion "prev_point == Tp_kexit_start  ||  prev_point == Tp_resume  ||  prev_point == Tp_kentry_end")
  pure ({ a with execution := a.execution + a.elapsed now }.mark .kentryEnd now)

def tmeventSuspend (a : TimeAccount) (now : Nat) : Except Stop TimeAccount := do
  ensure (a.prevPoint = .kentryEnd ∨ a.prevPoint = .resume)
    (.assertion "prev_point == Tp_kentry_end  ||  prev_point == Tp_resume")
  pure ({ a with
    execution := a.execution + a.elapsed now
    kwork := a.kwork + a.elapsed now }.mark .suspend now)

end TimeAccount

/-- Where the processor is. -/
inductive CpuMode where
  /-- In the code that starts the kernel. -/
  | startup
  /-- In a trap. -/
  | trap
  /-- In user code, or in `idle_loop`. -/
  | user
  deriving DecidableEq, Repr

/-- Where a thread that is suspended there goes on. -/
def CpuMode.resumed : CpuMode → CpuMode
  | .startup => .user
  | .trap => .trap
  | .user => .user

/-- The clock, the running thread, the accounts, and where each suspended thread goes on. -/
structure CpuTime (n : Nat) where
  clock : SysClock.State
  current : Fin n
  mode : CpuMode
  resumes : Fin n → CpuMode
  account : Fin n → TimeAccount
  since : Nat
  spans : List (TimeSpan (Fin n × Bool))

namespace CpuTime

variable (T : SysClock.HwTimer) (lagUsec : Nat) {n : Nat}

/-- `SystemClock_t::sys_clock`, as it is called from here. -/
def sysClock (c : SysClock.State) (p : SysClock.Pace) : Except Stop (SysClock.State × Nat) := do
  let c ← c.step T lagUsec (.read p)
  pure (c, (c.calls.getLast?.map SysClock.Reading.value).getD 0)

/-- The point `now` is reached. -/
def book (s : CpuTime n) (c : SysClock.State) (kernel : Bool) (now : Nat) : CpuTime n :=
  { s with clock := c, since := now, spans := s.spans ++ [⟨(s.current, kernel), s.since, now⟩] }

/-- The first line of the entry from user code. -/
def entry (s : CpuTime n) (p : SysClock.Pace) : Except Stop (CpuTime n) := do
  let (c, now) ← sysClock T lagUsec s.clock p
  let a ← (s.account s.current).tmeventKentryEnd now
  pure { s.book c false now with mode := .trap, account := Function.update s.account s.current a }

/-- The last line before the exit to user code. -/
def exit (s : CpuTime n) (p : SysClock.Pace) : Except Stop (CpuTime n) := do
  let (c, now) ← sysClock T lagUsec s.clock p
  let a ← (s.account s.current).tmeventKexitStart now
  pure { s.book c true now with mode := .user, account := Function.update s.account s.current a }

/-- `Thread_t::context_switch`, with `Sched_t::current`. -/
def contextSwitch (s : CpuTime n) (next : Fin n) (p : SysClock.Pace) : Except Stop (CpuTime n) := do
  let (c, now) ← sysClock T lagUsec s.clock p
  let a ← (s.account s.current).tmeventSuspend now
  let account := Function.update s.account s.current a
  let b ← (account next).tmeventResume now
  pure { s.book c true now with
    current := next
    mode := s.resumes next
    resumes := Function.update s.resumes s.current s.mode.resumed
    account := Function.update account next b }

/-- What happens. -/
inductive Event (n : Nat) where
  /-- An event of the clock or its hardware. -/
  | clock (e : SysClock.State.Event)
  | entry (p : SysClock.Pace)
  | exit (p : SysClock.Pace)
  /-- `Sched_t::switch_to`. -/
  | switchTo (next : Fin n) (p : SysClock.Pace)
  /-- `Threads_t::create`: the thread will start in user code. -/
  | create (thr : Fin n)

/-- One event.  Only user code is left by an entry, only a trap by an exit, and only the kernel switches. -/
def step (s : CpuTime n) : Event n → Except Stop (CpuTime n)
  | .clock e => do
    let c ← s.clock.step T lagUsec e
    pure { s with clock := c }
  | .entry p => if s.mode = .user then s.entry T lagUsec p else pure s
  | .exit p => if s.mode = .trap then s.exit T lagUsec p else pure s
  | .switchTo next p =>
    if s.mode = .user ∨ next = s.current then pure s else s.contextSwitch T lagUsec next p
  | .create thr => pure { s with resumes := Function.update s.resumes thr .user }

end CpuTime

end Wrmos
