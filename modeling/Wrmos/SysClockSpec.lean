import Wrmos.SysClock
import Mathlib.Data.List.Chain

/-!
# Reads of the system clock linearize

Outside the kernel debugger, and once the timer and the interrupt controller are initialised, what
`sys_clock` returns is the time at some instant between its call and its return, as long as at most
one tick is outstanding.  The argument is about the interrupt-pending bit.  Where it is read as set,
the period that has ended cannot be followed by the end of another, so the value read after it
belongs to the new period.  Where it is read as clear *after* the value, no period had ended when
the value was read either.  That second look is what makes a wrap between two reads harmless.

Every read is then at least as late as the one before it.  So neither the correction for a late
interrupt nor the panic is ever reached, and the values that are returned do not decrease.
-/

namespace Wrmos
namespace SysClock

open Lib

variable {T : HwTimer} {lagUsec : Nat} {s s' : State}

/-- The value is the time at some instant of the call. -/
def Reading.Linear (T : HwTimer) (r : Reading) : Prop :=
  ∃ c, r.call ≤ c ∧ c ≤ r.ret ∧ r.value = T.elapsed c

/-- What is promised of a single call. -/
def Reading.Faithful (T : HwTimer) (r : Reading) : Prop :=
  r.kdb = false → if r.ready then r.Linear T else r.value = 0

/-- What is promised of a call and the next one: the value does not decrease, and inside the kernel
debugger it is the same. -/
def Follows (r r' : Reading) : Prop :=
  r.value ≤ r'.value ∧ (r'.kdb = true → r'.value = r.value)

/-- At most one tick is outstanding after the event. -/
def OneTick (T : HwTimer) (s : State) : State.Event → Prop
  | .advance n => (s.count + n) / T.period ≤ s.served + 1
  | .read p => (s.count + p.total) / T.period ≤ s.served + 1
  | _ => True

instance (T : HwTimer) (s : State) : DecidablePred (OneTick T s)
  | .advance _ => inferInstanceAs (Decidable (_ ≤ _))
  | .read _ => inferInstanceAs (Decidable (_ ≤ _))
  | .takeIrq | .tick | .insideKdb _ | .setCheck _ | .init | .startTimer | .initIntc => isTrue trivial

/-- The clock and its hardware agree: as many ticks were added as processed, at most one period has
ended that is not processed, and no call has returned a time that is still to come. -/
structure State.Inv (T : HwTimer) (s : State) : Prop where
  base : s.sysClockBase = s.served * T.tickUsec
  served_le : s.served ≤ s.taken
  taken_le : s.taken ≤ s.count / T.period
  one : s.count / T.period ≤ s.served + 1
  prev_le : s.prev ≤ T.elapsed s.count
  idle : (s.timerInited && s.intcInited) = false → s.prev = 0

/-- The calls so far are as promised, and `prev` is what the last one returned. -/
structure State.Called (T : HwTimer) (s : State) : Prop where
  faithful : ∀ r ∈ s.calls, r.Faithful T
  follows : s.calls.IsChain Follows
  last : ∀ r ∈ s.calls.getLast?, r.value = s.prev

namespace State

/-! ## One call -/

/-- The time, from the ticks processed and the value of the timer, while no period has ended that is
not processed. -/
theorem elapsed_of_served (h : s.Inv T) {c : Nat} (hc : c / T.period = s.served) :
    T.elapsed c = s.sysClockBase + valueUsec T c := by
  unfold HwTimer.elapsed valueUsec
  rw [hc, h.base]

/-- The same while one period has ended that is not processed. -/
theorem elapsed_of_pending (h : s.Inv T) {c : Nat} (hc : c / T.period = s.served + 1) :
    T.elapsed c = s.sysClockBase + (T.tickUsec + valueUsec T c) := by
  unfold HwTimer.elapsed valueUsec
  rw [hc, h.base, Nat.succ_mul, Nat.add_assoc]

/-- **What `sys_clock` computes is the time at one of its accesses.** -/
theorem readClock_spec (h : s.Inv T) {r : Nat → Nat} {ret : Nat}
    (hr : ∀ {i j}, i ≤ j → r i ≤ r j) (hcall : s.count ≤ r 0) (hret : ∀ i, r i ≤ ret)
    (hone : ret / T.period ≤ s.served + 1) :
    ∃ i, (s.readClock T s.inService r).1 = T.elapsed (r i) := by
  have hdiv : ∀ {x y : Nat}, x ≤ y → x / T.period ≤ y / T.period := fun hxy =>
    Nat.div_le_div_right hxy
  have hmax : ∀ i, r i / T.period ≤ s.served + 1 := fun i => (hdiv (hret i)).trans hone
  have htaken : ∀ i, s.taken ≤ r i / T.period := fun i =>
    h.taken_le.trans (hdiv (hcall.trans (hr (Nat.zero_le i))))
  have hserved := h.served_le
  unfold readClock inService isPending
  by_cases hin : s.served < s.taken
  · -- the interrupt was taken, so the period it is for has ended
    have hm := hmax 0
    have ht := htaken 0
    refine ⟨0, ?_⟩
    rw [if_pos (decide_eq_true hin), elapsed_of_pending h (by omega), Nat.add_assoc]
  · rw [if_neg (by simpa using hin)]
    by_cases h2 : s.taken < r 2 / T.period
    · have hm := hmax 3
      have h23 := hdiv (hr (show 2 ≤ 3 by omega))
      refine ⟨3, ?_⟩
      rw [if_pos (decide_eq_true h2), elapsed_of_pending h (by omega)]
    · rw [if_neg (by simpa using h2)]
      by_cases h6 : s.taken < r 6 / T.period
      · have hm := hmax 7
        have h67 := hdiv (hr (show 6 ≤ 7 by omega))
        refine ⟨7, ?_⟩
        rw [if_pos (decide_eq_true h6), elapsed_of_pending h (by omega)]
      · -- still clear after the value was read: no period had ended by then
        have h36 := hdiv (hr (show 3 ≤ 6 by omega))
        have ht := htaken 3
        refine ⟨3, ?_⟩
        rw [if_neg (by simpa using h6), elapsed_of_served h (by omega)]

/-- A value that is not behind `prev` is returned as it is. -/
theorem checkClock_eq {flag : Bool} {r : Nat → Nat}
    (h : s.prev ≤ (s.readClock T flag r).1) :
    s.checkClock T lagUsec flag r =
      .ok ({ s with prev := (s.readClock T flag r).1 }, (s.readClock T flag r).1) := by
  have hlag : s.allowLag T lagUsec r (s.readClock T flag r).1 (s.readClock T flag r).2 =
      (s.readClock T flag r).1 := if_neg fun hc => absurd hc.2.1 (Nat.not_lt.mpr h)
  unfold checkClock
  simp only [hlag, if_neg (Nat.not_lt.mpr h)]
  split <;> rfl

/-- A call of `sys_clock` returns, changes `prev` to what it returns and nothing else but the uptime,
and what it returns is as promised. -/
theorem sysClock_spec (lagUsec : Nat) (h : s.Inv T) {r : Nat → Nat} {ret : Nat}
    (hr : ∀ {i j}, i ≤ j → r i ≤ r j) (hcall : s.count ≤ r 0) (hret : ∀ i, r i ≤ ret)
    (hone : ret / T.period ≤ s.served + 1) :
    ∃ v up, s.sysClock T lagUsec s.inService r = .ok ({ s with prev := v, kipUptime := up }, v) ∧
      s.prev ≤ v ∧ v ≤ T.elapsed ret ∧ (s.insideKdb = true → v = s.prev) ∧
      ((s.timerInited && s.intcInited) = false → v = 0) ∧
      (⟨s.count, ret, s.insideKdb, s.timerInited && s.intcInited, v⟩ : Reading).Faithful T := by
  have hend : T.elapsed s.count ≤ T.elapsed ret := T.elapsed_mono (hcall.trans (hret 0))
  unfold sysClock
  by_cases hk : s.insideKdb = true
  · rw [if_pos hk]
    exact ⟨s.prev, s.kipUptime, rfl, le_rfl, h.prev_le.trans hend, fun _ => rfl, h.idle,
      fun hno => absurd (hk.symm.trans hno) nofun⟩
  rw [if_neg hk]
  by_cases hready : (s.timerInited && s.intcInited) = true
  · obtain ⟨i, hi⟩ := readClock_spec h hr hcall hret hone
    have hfrom : s.count ≤ r i := hcall.trans (hr (Nat.zero_le i))
    have hle : s.prev ≤ (s.readClock T s.inService r).1 := by
      rw [hi]
      exact h.prev_le.trans (T.elapsed_mono hfrom)
    rw [if_pos hready, checkClock_eq hle]
    refine ⟨_, _, rfl, hle, ?_, fun hyes => absurd hyes hk, fun hno => absurd hready (by simp [hno]),
      fun _ => ?_⟩
    · rw [hi]
      exact T.elapsed_mono (hret i)
    · rw [if_pos hready]
      exact ⟨r i, hfrom, hret i, hi⟩
  · have hno : (s.timerInited && s.intcInited) = false := by simpa using hready
    have hprev : s.prev = 0 := h.idle hno
    have hsame : s.setUptime = { s with prev := 0, kipUptime := s.setUptime.kipUptime } := by
      rw [← hprev]
      rfl
    rw [if_neg hready]
    refine ⟨0, s.setUptime.kipUptime, ?_, Nat.le_of_eq hprev, Nat.zero_le _,
      fun hyes => absurd hyes hk, fun _ => rfl, fun _ => ?_⟩
    · rw [← hsame]
      rfl
    · rw [if_neg hready]

/-! ## One event -/

/-- Adding a call to those so far. -/
theorem Called.concat (h : s.Called T) {r : Reading} (hr : r.Faithful T) (hle : s.prev ≤ r.value)
    (hkdb : r.kdb = true → r.value = s.prev) {t : State} (hcalls : t.calls = s.calls ++ [r])
    (hprev : t.prev = r.value) : t.Called T := by
  refine ⟨?_, ?_, ?_⟩
  · intro r' hr'
    rw [hcalls] at hr'
    rcases List.mem_append.mp hr' with hr' | hr'
    · exact h.faithful r' hr'
    · exact (List.mem_singleton.mp hr') ▸ hr
  · rw [hcalls, List.isChain_append]
    refine ⟨h.follows, .singleton r, ?_⟩
    intro x hx y hy
    have hxv := h.last x hx
    obtain rfl : r = y := by simpa using hy
    exact ⟨hxv ▸ hle, fun hk => (hkdb hk).trans hxv.symm⟩
  · intro r' hr'
    rw [hcalls, List.getLast?_concat] at hr'
    rw [hprev, ← Option.mem_some.mp hr']

/-- What is not about the calls leaves them as promised. -/
theorem Called.same (h : s.Called T) {t : State} (hcalls : t.calls = s.calls)
    (hprev : t.prev = s.prev) : t.Called T :=
  ⟨hcalls ▸ h.faithful, hcalls ▸ h.follows, hcalls ▸ hprev ▸ h.last⟩

/-- The timer runs on, and as a period ends another is outstanding. -/
theorem Inv.count (h : s.Inv T) {c : Nat} (hle : s.count ≤ c) (hone : c / T.period ≤ s.served + 1) :
    ({ s with count := c } : State).Inv T :=
  ⟨h.base, h.served_le, h.taken_le.trans (Nat.div_le_div_right hle), hone,
    h.prev_le.trans (T.elapsed_mono hle), h.idle⟩

theorem le_countAt (s : State) (n : Nat) : s.count ≤ s.countAt n := by
  unfold countAt
  split
  · exact Nat.le_add_right _ _
  · exact le_rfl

theorem countAt_le (s : State) (n : Nat) : s.countAt n ≤ s.count + n := by
  unfold countAt
  split
  · exact le_rfl
  · exact Nat.le_add_right _ _

theorem countAt_mono (s : State) {m n : Nat} (h : m ≤ n) : s.countAt m ≤ s.countAt n := by
  unfold countAt
  split
  · exact Nat.add_le_add_left h _
  · exact le_rfl

/-- A call moves the counter on and keeps the clock right. -/
theorem read_spec (h : s.Inv T) (hc : s.Called T) {p : Pace} (hone : OneTick T s (.read p)) :
    ∃ t, s.step T lagUsec (.read p) = .ok t ∧ t.Inv T ∧ t.Called T := by
  have hlast : s.countAt p.total / T.period ≤ s.served + 1 :=
    (Nat.div_le_div_right (s.countAt_le _)).trans hone
  obtain ⟨v, up, hrun, hle, hend, hkdb, hidle, hfaith⟩ :=
    sysClock_spec lagUsec h (fun hij => s.countAt_mono (p.mono hij)) (s.le_countAt _)
      (fun i => s.countAt_mono (p.le_total i)) hlast
  have htaken := h.taken_le.trans (Nat.div_le_div_right (c := T.period) (s.le_countAt p.total))
  refine ⟨_, bind_eq_ok.mpr ⟨_, hrun, rfl⟩, ?_, ?_⟩
  · exact ⟨h.base, h.served_le, htaken, hlast, hend, hidle⟩
  · exact hc.concat hfaith hle hkdb rfl rfl

/-- **One event keeps the clock right, and does not stop the kernel.** -/
theorem step_spec (lagUsec : Nat) (h : s.Inv T) (hc : s.Called T) {e : Event} (hone : OneTick T s e) :
    ∃ t, s.step T lagUsec e = .ok t ∧ t.Inv T ∧ t.Called T := by
  cases e with
  | advance n =>
    have hlast : s.countAt n / T.period ≤ s.served + 1 :=
      (Nat.div_le_div_right (s.countAt_le n)).trans hone
    exact ⟨_, rfl, h.count (s.le_countAt n) hlast, hc.same rfl rfl⟩
  | takeIrq =>
    refine ⟨_, rfl, ?_⟩
    split
    · rename_i hp
      have hlt : s.taken < s.count / T.period := of_decide_eq_true hp
      exact ⟨⟨h.base, h.served_le.trans (Nat.le_succ _), hlt, h.one, h.prev_le, h.idle⟩,
        hc.same rfl rfl⟩
    · exact ⟨h, hc⟩
  | tick =>
    refine ⟨_, rfl, ?_⟩
    split
    · rename_i hs
      have hlt : s.served < s.taken := of_decide_eq_true hs
      have hbase : s.sysClockBase + T.tickUsec = (s.served + 1) * T.tickUsec := by
        rw [h.base, Nat.succ_mul]
      exact ⟨⟨hbase, hlt, h.taken_le, h.one.trans (Nat.le_succ _), h.prev_le, h.idle⟩,
        hc.same rfl rfl⟩
    · exact ⟨h, hc⟩
  | read p => exact read_spec h hc hone
  | insideKdb v =>
    exact ⟨_, rfl, ⟨h.base, h.served_le, h.taken_le, h.one, h.prev_le, h.idle⟩, hc.same rfl rfl⟩
  | setCheck v =>
    exact ⟨_, rfl, ⟨h.base, h.served_le, h.taken_le, h.one, h.prev_le, h.idle⟩, hc.same rfl rfl⟩
  | init =>
    exact ⟨_, rfl, ⟨h.base, h.served_le, h.taken_le, h.one, h.prev_le, h.idle⟩, hc.same rfl rfl⟩
  | startTimer =>
    refine ⟨_, rfl, ⟨h.base, h.served_le, h.taken_le, h.one, h.prev_le, fun hno => h.idle ?_⟩,
      hc.same rfl rfl⟩
    have hintc : s.intcInited = false := by simpa using hno
    rw [hintc, Bool.and_false]
  | initIntc =>
    refine ⟨_, rfl, ⟨h.base, h.served_le, h.taken_le, h.one, h.prev_le, fun hno => h.idle ?_⟩,
      hc.same rfl rfl⟩
    have htimer : s.timerInited = false := by simpa using hno
    rw [htimer, Bool.false_and]

/-! ## Runs -/

/-- A run whose events leave at most one tick outstanding does not stop, and all its calls are as
promised. -/
theorem run_called {es : List Event} :
    ∀ {s : State}, s.Inv T → s.Called T → Meets (State.step T lagUsec) (OneTick T) s es →
      ∃ s', runAll (State.step T lagUsec) s es = .ok s' ∧ s'.Inv T ∧ s'.Called T := by
  induction es with
  | nil => exact fun h hc _ => ⟨_, rfl, h, hc⟩
  | cons e es ih =>
    intro s h hc hone
    obtain ⟨t, ht, hinv, hcalled⟩ := step_spec lagUsec h hc hone.1
    obtain ⟨s', hs', hrest⟩ := ih hinv hcalled (hone.2 t ht)
    exact ⟨s', bind_eq_ok.mpr ⟨t, ht, hs'⟩, hrest⟩

/-- The values of calls that follow each other do not decrease. -/
theorem pairwise_of_follows {l : List Reading} (h : l.IsChain Follows) :
    (l.map Reading.value).Pairwise (· ≤ ·) := by
  rw [List.pairwise_map]
  exact List.isChain_iff_pairwise.mp (h.imp fun _ _ hf => hf.1)

/-- **Clock reads linearize.**  From any state in which the clock and its hardware agree, and in
every run that leaves at most one tick outstanding, no call of `sys_clock` stops the kernel.  Each
call outside the kernel debugger returns the time at some instant between its call and its return
(zero before both devices are initialised), a call inside it what the call before returned, and the
values do not decrease. -/
theorem run_linearizes {es : List Event} (h : s.Inv T) (hnew : s.calls = [])
    (hone : Meets (State.step T lagUsec) (OneTick T) s es) :
    ∃ s', runAll (State.step T lagUsec) s es = .ok s' ∧
      (∀ r ∈ s'.calls, r.kdb = false → if r.ready then r.Linear T else r.value = 0) ∧
      (∀ l r r' l', s'.calls = l ++ r :: r' :: l' → r'.kdb = true → r'.value = r.value) ∧
      (s'.calls.map Reading.value).Pairwise (· ≤ ·) := by
  have hstart : s.Called T := ⟨by simp [hnew], by simp [hnew], by simp [hnew]⟩
  obtain ⟨s', hrun, -, hc⟩ := run_called h hstart hone
  refine ⟨s', hrun, hc.faithful, ?_, pairwise_of_follows hc.follows⟩
  intro l r r' l' hl
  have hchain : (r :: r' :: l').IsChain Follows := (List.isChain_append.mp (hl ▸ hc.follows)).2.1
  exact (List.isChain_cons_cons.mp hchain).1.2

theorem inv_boot : boot.Inv T where
  base := (Nat.zero_mul _).symm
  served_le := le_rfl
  taken_le := Nat.zero_le _
  one := (Nat.zero_div _).le.trans (Nat.zero_le _)
  prev_le := Nat.zero_le _
  idle _ := rfl

/-- The timer moves on by `n` counts from one access to the next. -/
def evenPace (n : Nat) : Pace where
  upto i := min (n * i) (n * 8)
  total := n * 8
  mono h := by
    have := Nat.mul_le_mul_left n h
    omega
  le_total _ := Nat.min_le_right _ _

/-- The timer of a SPARC board at 40 MHz. -/
def sparcTimer : HwTimer := .gptimer 40000000 10000 (by decide) (by decide)

/-- The events that start the clock. -/
def startUp : List Event := [.init, .startTimer, .initIntc, .setCheck true]

/-- A period ends between the accesses of the first read; the second is made before `tick()`. -/
theorem wrapWhileRead_linearizes :
    ∃ s', runAll (State.step sparcTimer 0) boot
        (startUp ++ [.advance 9990, .read (evenPace 3), .takeIrq, .read (evenPace 3), .tick,
          .read (evenPace 3)]) = .ok s' ∧
      (∀ r ∈ s'.calls, r.kdb = false → if r.ready then r.Linear sparcTimer else r.value = 0) ∧
      (∀ l r r' l', s'.calls = l ++ r :: r' :: l' → r'.kdb = true → r'.value = r.value) ∧
      (s'.calls.map Reading.value).Pairwise (· ≤ ·) :=
  run_linearizes inv_boot rfl (by decide)

/-- Inside the kernel debugger the clock does not read the timer: half a tick after the start it
still returns zero. -/
theorem kdbRead_not_linear :
    ∃ es, Meets (State.step sparcTimer 0) (OneTick sparcTimer) boot es ∧
      ∃ s', runAll (State.step sparcTimer 0) boot es = .ok s' ∧
        ∃ r ∈ s'.calls, ¬ r.Linear sparcTimer := by
  refine ⟨startUp ++ [.advance 5000, .insideKdb true, .read (evenPace 3)], by decide, _, rfl,
    ⟨5000, 5024, true, true, 0⟩, by decide, ?_⟩
  rintro ⟨c, hc, -, hv⟩
  have h : 5000 ≤ sparcTimer.elapsed c := sparcTimer.elapsed_mono hc
  exact absurd (hv ▸ h) (by decide)

end State

end SysClock
end Wrmos
