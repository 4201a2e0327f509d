import Wrmos.Arch

/-!
# The system clock

`SystemClock_t` of `krn/sysclock.h` and the timer drivers it reads (`lib/timer`).  The clock adds
three things: `_sys_clock`, which `tick()` moves on by `Cfg_krn_tick_usec` when the timer interrupt
is processed, the value of the timer within its period, and one more tick while the interrupt
controller says that the timer interrupt is pending.

The hardware is a counter of timer counts that only grows.  A period ends at every multiple of
`period`, and the interrupt of each period is pending until the processor takes it; from there until
`tick()` the interrupt is in service, the pending bit is clear, and the callers of `sys_clock` pass
`is_tick_irq_pending`.

* The counter may move on between any two accesses to a device: `Pace` says how far it has come at
  each of them, and how far when the call returns.
* `sysClockBase` is `_sys_clock`, as the kernel's own message calls it.
* `DEBUG` is on, so the reads that are made for the messages of `panic` only are there as well.
* `served` and `calls` are no data of the kernel: the ticks processed, and the calls made so far.
* Microseconds are natural numbers; 64 bits hold half a million years of them.
-/

namespace Wrmos
namespace SysClock

/-! ## The timer drivers -/

/-- `Usec_per_sec`. -/
def usecPerSec : Nat := 1000000

/-- `timer_usec_from_raw_value` of `sparc_gptimer`, from the reload and scaler registers. -/
def gptimerUsec (hz reloadReg scalerReload valueReg : Nat) : Nat :=
  (reloadReg + 1 - (valueReg + 1)) * (scalerReload + 1) * usecPerSec / hz

/-- `timer_usec_from_raw_value` of `arm_sp804`, from the load register and the prescaler. -/
def sp804Usec (hz load scaler valueReg : Nat) : Nat := (load - valueReg) * scaler * usecPerSec / hz

/-- `timer_usec_from_raw_value` of `arm_a9gtimer`, from the auto-increment register. -/
def a9gtimerUsec (hz autoInc valueReg : Nat) : Nat := valueReg % autoInc * usecPerSec / (hz / 2)

/-- `timer_usec_from_raw_value` of `x86_8253`. -/
def pit8253Usec (hz reloadUsec valueReg : Nat) : Nat :=
  (reloadUsec * hz / usecPerSec - valueReg) * usecPerSec / hz

/-- A timer after `Timer::set(tickUsec)` and `Timer::start()`: the counts from one interrupt to the
next, and `Timer::value_usec()` so many counts after an interrupt.  The value does not go back
within a period and is at most a tick. -/
structure HwTimer where
  period : Nat
  tickUsec : Nat
  usec : Nat → Nat
  pos : 0 < period
  mono : ∀ {x y}, x ≤ y → y < period → usec x ≤ usec y
  le_tick : ∀ {x}, x < period → usec x ≤ tickUsec

namespace HwTimer

variable {hz tickUsec pre : Nat}

/-- What the drivers compute from a phase is monotone. -/
theorem scaled_mono {x y : Nat} (k hz : Nat) (h : x ≤ y) :
    x * k * usecPerSec / hz ≤ y * k * usecPerSec / hz :=
  Nat.div_le_div_right (Nat.mul_le_mul_right _ (Nat.mul_le_mul_right _ h))

/-- What is computed from a phase that was itself computed from the tick is at most the tick. -/
theorem scaled_le {x k : Nat} (h : x * k * usecPerSec ≤ tickUsec * hz) :
    x * k * usecPerSec / hz ≤ tickUsec := by
  rcases Nat.eq_zero_or_pos hz with rfl | hpos
  · rw [Nat.div_zero]
    exact Nat.zero_le _
  · calc x * k * usecPerSec / hz ≤ tickUsec * hz / hz := Nat.div_le_div_right h
      _ = tickUsec := Nat.mul_div_cancel _ hpos

/-- `sparc_gptimer` counts microseconds down from `tickUsec - 1` to zero. -/
def gptimer (hz tickUsec : Nat) (hhz : usecPerSec ≤ hz) (ht : 0 < tickUsec) : HwTimer where
  period := tickUsec
  tickUsec := tickUsec
  usec x := gptimerUsec hz (tickUsec - 1) (hz / usecPerSec - 1) (tickUsec - 1 - x)
  pos := ht
  mono {x y} hxy hy := scaled_mono _ _ (by omega)
  le_tick {x} hx := by
    have hk : hz / usecPerSec - 1 + 1 = hz / usecPerSec :=
      Nat.sub_add_cancel (Nat.div_pos hhz (by decide))
    unfold gptimerUsec
    rw [hk, show tickUsec - 1 + 1 - (tickUsec - 1 - x + 1) = x by omega]
    refine scaled_le ?_
    rw [Nat.mul_assoc]
    exact Nat.mul_le_mul (Nat.le_of_lt hx) (Nat.div_mul_le_self hz usecPerSec)

/-- The load value of `timer_set` of `arm_sp804` for a prescaler. -/
def sp804Load (hz tickUsec pre : Nat) : Nat := hz * tickUsec / pre / usecPerSec

/-- `arm_sp804` counts down from the load value to zero. -/
def sp804 (hz tickUsec pre : Nat) : HwTimer where
  period := sp804Load hz tickUsec pre + 1
  tickUsec := tickUsec
  usec x := sp804Usec hz (sp804Load hz tickUsec pre) pre (sp804Load hz tickUsec pre - x)
  pos := Nat.succ_pos _
  mono {x y} hxy hy := scaled_mono _ _ (by omega)
  le_tick {x} hx := by
    unfold sp804Usec
    rw [show sp804Load hz tickUsec pre - (sp804Load hz tickUsec pre - x) = x by omega]
    refine scaled_le ?_
    calc x * pre * usecPerSec ≤ sp804Load hz tickUsec pre * pre * usecPerSec :=
          Nat.mul_le_mul_right _ (Nat.mul_le_mul_right _ (Nat.le_of_lt_succ hx))
      _ = sp804Load hz tickUsec pre * usecPerSec * pre := Nat.mul_right_comm _ _ _
      _ ≤ hz * tickUsec / pre * pre := Nat.mul_le_mul_right _ (Nat.div_mul_le_self _ _)
      _ ≤ hz * tickUsec := Nat.div_mul_le_self _ _
      _ = tickUsec * hz := Nat.mul_comm _ _

/-- `arm_a9gtimer` counts up; its interrupt comes every `auto_inc` counts of half the clock. -/
def a9gtimer (hz tickUsec : Nat) (h : 0 < hz / 2 * tickUsec / usecPerSec) : HwTimer where
  period := hz / 2 * tickUsec / usecPerSec
  tickUsec := tickUsec
  usec x := a9gtimerUsec hz (hz / 2 * tickUsec / usecPerSec) x
  pos := h
  mono {x y} hxy hy := by
    unfold a9gtimerUsec
    rw [Nat.mod_eq_of_lt hy, Nat.mod_eq_of_lt (Nat.lt_of_le_of_lt hxy hy)]
    exact Nat.div_le_div_right (Nat.mul_le_mul_right _ hxy)
  le_tick {x} hx := by
    unfold a9gtimerUsec
    rw [Nat.mod_eq_of_lt hx, ← Nat.mul_one x]
    refine scaled_le ?_
    calc x * 1 * usecPerSec ≤ hz / 2 * tickUsec / usecPerSec * usecPerSec :=
          Nat.mul_le_mul_right _ (by omega)
      _ ≤ hz / 2 * tickUsec := Nat.div_mul_le_self _ _
      _ = tickUsec * (hz / 2) := Nat.mul_comm _ _

/-- `x86_8253` counts down from the reload value to one. -/
def pit8253 (hz tickUsec : Nat) (h : 0 < tickUsec * hz / usecPerSec) : HwTimer where
  period := tickUsec * hz / usecPerSec
  tickUsec := tickUsec
  usec x := pit8253Usec hz tickUsec (tickUsec * hz / usecPerSec - x)
  pos := h
  mono {x y} hxy hy := by
    unfold pit8253Usec
    exact Nat.div_le_div_right (Nat.mul_le_mul_right _ (by omega))
  le_tick {x} hx := by
    unfold pit8253Usec
    rw [show tickUsec * hz / usecPerSec - (tickUsec * hz / usecPerSec - x) = x by omega,
      ← Nat.mul_one x]
    refine scaled_le ?_
    calc x * 1 * usecPerSec ≤ tickUsec * hz / usecPerSec * usecPerSec :=
          Nat.mul_le_mul_right _ (by omega)
      _ ≤ tickUsec * hz := Nat.div_mul_le_self _ _

/-- The time since the timer was started: a tick for each period that has ended, and the value of
the timer. -/
def elapsed (T : HwTimer) (count : Nat) : Nat :=
  count / T.period * T.tickUsec + T.usec (count % T.period)

/-- Time does not go back. -/
theorem elapsed_mono (T : HwTimer) {x y : Nat} (h : x ≤ y) : T.elapsed x ≤ T.elapsed y := by
  have hx := Nat.mod_lt x T.pos
  have hy := Nat.mod_lt y T.pos
  rcases Nat.lt_or_eq_of_le (Nat.div_le_div_right (c := T.period) h) with hlt | heq
  · -- a period has ended in between: its tick covers what the timer showed before
    calc T.elapsed x ≤ x / T.period * T.tickUsec + T.tickUsec := Nat.add_le_add_left (T.le_tick hx) _
      _ = (x / T.period + 1) * T.tickUsec := (Nat.succ_mul _ _).symm
      _ ≤ y / T.period * T.tickUsec := Nat.mul_le_mul_right _ hlt
      _ ≤ T.elapsed y := Nat.le_add_right _ _
  · have hmod : x % T.period ≤ y % T.period := by
      have hdx := Nat.div_add_mod x T.period
      have hdy := Nat.div_add_mod y T.period
      rw [heq] at hdx
      omega
    unfold elapsed
    rw [heq]
    exact Nat.add_le_add_left (T.mono hmod hy) _

end HwTimer

/-! ## The clock -/

/-- A call of `sys_clock`: the counter when it was called and when it returned, whether it was made
inside the kernel debugger, whether both devices were initialised, and what it returned. -/
structure Reading where
  call : Nat
  ret : Nat
  kdb : Bool
  ready : Bool
  value : Nat
  deriving DecidableEq, Repr

/-- The static members of `SystemClock_t`, with `prev` of `sys_clock`, what `inited()` says of both
devices, and the hardware: its counter and the interrupts that the processor has taken. -/
structure State where
  sysClockBase : Nat
  prev : Nat
  insideKdb : Bool
  notCheck : Bool
  kipUptime : Option Nat
  timerInited : Bool
  intcInited : Bool
  count : Nat
  taken : Nat
  served : Nat
  calls : List Reading
  deriving DecidableEq, Repr

/-- The state in which the kernel starts. -/
def State.boot : State where
  sysClockBase := 0
  prev := 0
  insideKdb := false
  notCheck := false
  kipUptime := none
  timerInited := false
  intcInited := false
  count := 0
  taken := 0
  served := 0
  calls := []

/-- How far the counter moves on during a call: up to its accesses to the devices, in order, and up
to its return. -/
structure Pace where
  upto : Nat → Nat
  total : Nat
  mono : ∀ {i j}, i ≤ j → upto i ≤ upto j
  le_total : ∀ i, upto i ≤ total

namespace State

variable (T : HwTimer)

/-- `Intc::is_pending(Cfg_krn_timer_irq)` when the counter is at `c`. -/
def isPending (s : State) (c : Nat) : Bool := decide (s.taken < c / T.period)

/-- `Timer::value_usec()` when the counter is at `c`. -/
def valueUsec (c : Nat) : Nat := T.usec (c % T.period)

/-- What `sys_clock` computes from the devices, and the number of accesses it has made then.  The
counter is at `r i` at the access `i`. -/
def readClock (s : State) (isTickIrqPending : Bool) (r : Nat → Nat) : Nat × Nat :=
  if isTickIrqPending then (s.sysClockBase + T.tickUsec + valueUsec T (r 0), 1)
  -- `pnd[0]` and `val[0]` are the accesses 0 and 1
  else if s.isPending T (r 2) then (s.sysClockBase + (T.tickUsec + valueUsec T (r 3)), 4)
  -- `pnd[1]` and `val[1]` are the accesses 4 and 5
  else if s.isPending T (r 6) then (s.sysClockBase + (T.tickUsec + valueUsec T (r 7)), 8)
  else (s.sysClockBase + valueUsec T (r 3), 7)

/-- The correction for a timer whose interrupt comes late, `Cfg_krn_timer_lag_usec > 0`. -/
def allowLag (lagUsec : Nat) (s : State) (r : Nat → Nat) (res k : Nat) : Nat :=
  if 0 < lagUsec ∧ res < s.prev ∧ valueUsec T (r k) < lagUsec then
    s.sysClockBase + T.tickUsec + valueUsec T (r (k + 1))
  else res

/-- `sys_clock` when both devices are initialised. -/
def checkClock (lagUsec : Nat) (s : State) (isTickIrqPending : Bool) (r : Nat → Nat) :
    Except Stop (State × Nat) :=
  let (res, k) := s.readClock T isTickIrqPending r
  if s.notCheck then pure ({ s with prev := res }, res)
  else
    let res := s.allowLag T lagUsec r res k
    if res < s.prev then throw (.panic "too long in kernel mode")
    else pure ({ s with prev := res }, res)

/-- The end of `sys_clock`: `l4_kip_set_uptime_usec`. -/
def setUptime (s : State) : State :=
  { s with kipUptime := s.kipUptime.map fun _ => s.sysClockBase }

/-- `sys_clock`. -/
def sysClock (lagUsec : Nat) (s : State) (isTickIrqPending : Bool) (r : Nat → Nat) :
    Except Stop (State × Nat) :=
  if s.insideKdb then pure (s, s.prev)
  else if s.timerInited && s.intcInited then do
    let (s, res) ← s.checkClock T lagUsec isTickIrqPending r
    pure (s.setUptime, res)
  else pure (s.setUptime, 0)

/-- The processor has taken the timer interrupt and `tick()` was not called yet: where the callers
pass `is_tick_irq_pending`. -/
def inService (s : State) : Bool := decide (s.served < s.taken)

/-! ## Runs -/

/-- What happens to the clock and its hardware. -/
inductive Event where
  /-- The timer runs on. -/
  | advance (n : Nat)
  /-- The processor takes the timer interrupt. -/
  | takeIrq
  /-- `tick()`, in the handler of the timer interrupt. -/
  | tick
  /-- `sys_clock()`, while the timer runs on as told. -/
  | read (p : Pace)
  | insideKdb (v : Bool)
  | setCheck (v : Bool)
  /-- `SystemClock_t::init()`. -/
  | init
  /-- `Timer::init`, `set` and `start`. -/
  | startTimer
  /-- `Intc::init`. -/
  | initIntc

/-- The counter when the timer may have run on by `n`: it stands still until it is started. -/
def countAt (s : State) (n : Nat) : Nat := if s.timerInited then s.count + n else s.count

/-- One event.  An interrupt that is not pending is not taken, and `tick()` is called for an
interrupt that was taken. -/
def step (lagUsec : Nat) (s : State) : Event → Except Stop State
  | .advance n => pure { s with count := s.countAt n }
  | .takeIrq => pure (if s.isPending T s.count then { s with taken := s.taken + 1 } else s)
  | .tick =>
    pure (if s.inService then
      { s with sysClockBase := s.sysClockBase + T.tickUsec, served := s.served + 1 } else s)
  | .read p => do
    let (t, v) ← s.sysClock T lagUsec s.inService fun i => s.countAt (p.upto i)
    pure { t with
      count := s.countAt p.total
      calls := s.calls ++
        [⟨s.count, s.countAt p.total, s.insideKdb, s.timerInited && s.intcInited, v⟩] }
  | .insideKdb v => pure { s with insideKdb := v }
  | .setCheck v => pure { s with notCheck := !v }
  | .init => pure { s with kipUptime := some (s.kipUptime.getD 0), notCheck := true }
  | .startTimer => pure { s with timerInited := true }
  | .initIntc => pure { s with intcInited := true }

end State

end SysClock
end Wrmos
