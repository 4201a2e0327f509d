import Wrmos.TimeAccount

/-!
# Processor time is accounted for

The points of a thread come in the order that the assertions ask for, since the mode of the processor says
which was the last (`CpuMode.Last`).  What is added to the spans at a point is the time since the last one,
in which the running thread had the processor.  So the accounts are what can be read off the list of who
ran when (`Booked`): no time is lost, none is counted twice, and the time in user code, which the kernel
computes as a difference, is just that.
-/

namespace Wrmos

open Lib

namespace SysClock

variable {T : HwTimer} {lagUsec : Nat} {c c' : State}

/-- A call is noted. -/
theorem State.step_read_calls {p : Pace} (h : c.step T lagUsec (.read p) = .ok c') :
    ∃ r, c'.calls = c.calls ++ [r] := by
  obtain ⟨x, -, hx⟩ := bind_eq_ok.mp h
  exact ⟨_, (congrArg State.calls (Except.ok.inj hx)).symm⟩

/-- No event takes back what the last call returned. -/
theorem State.step_prev_le {e : State.Event} (h : c.Inv T) (hone : OneTick T c e)
    (hstep : c.step T lagUsec e = .ok c') : c.prev ≤ c'.prev := by
  cases e with
  | read p =>
    have hlast : c.countAt p.total / T.period ≤ c.served + 1 :=
      (Nat.div_le_div_right (c.countAt_le _)).trans hone
    obtain ⟨v, up, hrun, hle, -⟩ :=
      State.sysClock_spec lagUsec h (fun hij => c.countAt_mono (p.mono hij)) (c.le_countAt _)
        (fun i => c.countAt_mono (p.le_total i)) hlast
    obtain ⟨x, hx, hx'⟩ := bind_eq_ok.mp hstep
    rw [hrun] at hx
    have hc' := Except.ok.inj hx'
    rw [← hc', ← Except.ok.inj hx]
    exact hle
  | advance n => exact (congrArg State.prev (Except.ok.inj hstep)).le
  | takeIrq =>
    rw [← Except.ok.inj hstep]
    split <;> exact le_rfl
  | tick =>
    rw [← Except.ok.inj hstep]
    split <;> exact le_rfl
  | insideKdb v => exact (congrArg State.prev (Except.ok.inj hstep)).le
  | setCheck v => exact (congrArg State.prev (Except.ok.inj hstep)).le
  | init => exact (congrArg State.prev (Except.ok.inj hstep)).le
  | startTimer => exact (congrArg State.prev (Except.ok.inj hstep)).le
  | initIntc => exact (congrArg State.prev (Except.ok.inj hstep)).le

end SysClock

/-- The last point is at its time. -/
theorem TimeAccount.mark_point (a : TimeAccount) (p : TimePoint) (now : Nat) :
    (a.mark p now).points (a.mark p now).prevPoint = now := Function.update_self ..

namespace CpuMode

/-- The last point of a thread that runs in a mode. -/
def Last : CpuMode → TimePoint → Prop
  | .startup, p => p = .resume
  | .trap, p => p = .kentryEnd ∨ p = .resume
  | .user, p => p = .kexitStart ∨ p = .resume

/-- In the kernel the last point is one after which a thread may be suspended. -/
theorem Last.suspends {mode : CpuMode} {p : TimePoint} (h : mode.Last p) (hmode : mode ≠ .user) :
    p = .kentryEnd ∨ p = .resume := by
  cases mode with
  | startup => exact .inr h
  | trap => exact h
  | user => exact absurd rfl hmode

/-- A thread that is resumed is not in the code that starts the kernel. -/
theorem last_resume {mode : CpuMode} : mode.Last .resume := by
  cases mode with
  | startup => rfl
  | trap => exact .inr rfl
  | user => exact .inr rfl

end CpuMode

namespace CpuTime

variable {T : SysClock.HwTimer} {lagUsec n : Nat} {s s' : CpuTime n}

/-- The clock and its hardware agree, and the calls were as promised. -/
structure ClockOk (T : SysClock.HwTimer) (c : SysClock.State) : Prop where
  inv : c.Inv T
  called : c.Called T

/-- A call of `sys_clock` returns a time that is not before what the last call returned. -/
theorem sysClock_spec (lagUsec : Nat) {c : SysClock.State} {p : SysClock.Pace} (h : ClockOk T c)
    (hone : SysClock.OneTick T c (.read p)) :
    ∃ c', sysClock T lagUsec c p = .ok (c', c'.prev) ∧ ClockOk T c' ∧ c.prev ≤ c'.prev := by
  obtain ⟨c', hstep, hinv, hcalled⟩ := SysClock.State.step_spec lagUsec h.inv h.called hone
  obtain ⟨r, hr⟩ := SysClock.State.step_read_calls hstep
  have hlast : c'.calls.getLast? = some r := by rw [hr, List.getLast?_concat]
  have hval : (c'.calls.getLast?.map SysClock.Reading.value).getD 0 = c'.prev := by
    rw [hlast]
    exact hcalled.last r hlast
  refine ⟨c', ?_, ⟨hinv, hcalled⟩, SysClock.State.step_prev_le h.inv hone hstep⟩
  unfold sysClock
  rw [hstep, ok_bind, hval]
  rfl

/-! ## The accounts -/

/-- The account of a thread is what the list of who ran when says. -/
structure Booked (account : Fin n → TimeAccount) (spans : List (TimeSpan (Fin n × Bool))) : Prop where
  execution : ∀ i, (account i).execution = TimeSpan.spent (fun o => o.1 = i) spans
  kwork : ∀ i, (account i).kwork = TimeSpan.spent (fun o => o.1 = i ∧ o.2 = true) spans
  kentry : ∀ i, (account i).kentry = 0
  kexit : ∀ i, (account i).kexit = 0

/-- The running thread has had the processor since the last point. -/
theorem Booked.concat {account : Fin n → TimeAccount} {spans : List (TimeSpan (Fin n × Bool))}
    {i : Fin n} {kernel : Bool} {since now : Nat} {a : TimeAccount} (h : Booked account spans)
    (hexec : a.execution = (account i).execution + (now - since))
    (hkwork : a.kwork = (account i).kwork + if kernel then now - since else 0)
    (hkentry : a.kentry = (account i).kentry) (hkexit : a.kexit = (account i).kexit) :
    Booked (Function.update account i a) (spans ++ [⟨(i, kernel), since, now⟩]) where
  execution j := by
    rw [TimeSpan.spent_concat]
    by_cases hj : j = i
    · subst hj
      rw [Function.update_self, hexec, h.execution]
      simp [TimeSpan.len]
    · rw [Function.update_of_ne hj, h.execution, if_neg (Ne.symm hj)]
      rfl
  kwork j := by
    rw [TimeSpan.spent_concat]
    by_cases hj : j = i
    · subst hj
      rw [Function.update_self, hkwork, h.kwork]
      cases kernel <;> simp [TimeSpan.len]
    · rw [Function.update_of_ne hj, h.kwork, if_neg fun hij => hj hij.1.symm]
      rfl
  kentry j := by
    by_cases hj : j = i
    · rw [hj, Function.update_self, hkentry, h.kentry]
    · rw [Function.update_of_ne hj, h.kentry]
  kexit j := by
    by_cases hj : j = i
    · rw [hj, Function.update_self, hkexit, h.kexit]
    · rw [Function.update_of_ne hj, h.kexit]

/-- A new point of a thread that had not the processor adds nothing. -/
theorem Booked.mark {account : Fin n → TimeAccount} {spans : List (TimeSpan (Fin n × Bool))}
    (h : Booked account spans) (i : Fin n) (p : TimePoint) (now : Nat) :
    Booked (Function.update account i ((account i).mark p now)) spans where
  execution j := by
    by_cases hj : j = i
    · rw [hj, Function.update_self]
      exact h.execution i
    · rw [Function.update_of_ne hj, h.execution]
  kwork j := by
    by_cases hj : j = i
    · rw [hj, Function.update_self]
      exact h.kwork i
    · rw [Function.update_of_ne hj, h.kwork]
  kentry j := by
    by_cases hj : j = i
    · rw [hj, Function.update_self]
      exact h.kentry i
    · rw [Function.update_of_ne hj, h.kentry]
  kexit j := by
    by_cases hj : j = i
    · rw [hj, Function.update_self]
      exact h.kexit i
    · rw [Function.update_of_ne hj, h.kexit]

/-- The clock is right, the list covers the time from `start` to the last point, the accounts say what the
list does, the running thread is at the last point and the others are suspended. -/
structure Inv (T : SysClock.HwTimer) (start : Nat) (s : CpuTime n) : Prop where
  clock : ClockOk T s.clock
  since_le : s.since ≤ s.clock.prev
  covers : TimeSpan.Covers start s.spans s.since
  booked : Booked s.account s.spans
  last : CpuMode.Last s.mode (s.account s.current).prevPoint
  point : (s.account s.current).points (s.account s.current).prevPoint = s.since
  suspended : ∀ i, i ≠ s.current → (s.account i).prevPoint = .suspend

variable {start : Nat}

/-- The time since the last point of the running thread. -/
theorem Inv.elapsed (h : Inv T start s) (now : Nat) :
    (s.account s.current).elapsed now = now - s.since := by
  unfold TimeAccount.elapsed
  rw [h.point]

/-- The running thread reaches a point and goes on. -/
theorem Inv.reach (h : Inv T start s) {c : SysClock.State} (hclock : ClockOk T c)
    (hle : s.clock.prev ≤ c.prev) (kernel : Bool) (mode : CpuMode) (p : TimePoint) {a : TimeAccount}
    (hexec : a.execution = (s.account s.current).execution + (c.prev - s.since))
    (hkwork : a.kwork = (s.account s.current).kwork + if kernel then c.prev - s.since else 0)
    (hkentry : a.kentry = (s.account s.current).kentry) (hkexit : a.kexit = (s.account s.current).kexit)
    (hlast : mode.Last p) :
    Inv T start { s.book c kernel c.prev with
      mode := mode
      account := Function.update s.account s.current (a.mark p c.prev) } where
  clock := hclock
  since_le := le_rfl
  covers := h.covers.concat (x := ⟨(s.current, kernel), s.since, c.prev⟩) (h.since_le.trans hle)
  booked := h.booked.concat (a := a.mark p c.prev) hexec hkwork hkentry hkexit
  last := by
    dsimp only [book]
    rw [Function.update_self]
    exact hlast
  point := by
    dsimp only [book]
    rw [Function.update_self]
    exact TimeAccount.mark_point ..
  suspended i hi := by
    dsimp only [book] at hi ⊢
    rw [Function.update_of_ne hi]
    exact h.suspended i hi

/-- An entry from user code. -/
theorem entry_spec (lagUsec : Nat) {p : SysClock.Pace} (h : Inv T start s) (hmode : s.mode = .user)
    (hone : SysClock.OneTick T s.clock (.read p)) :
    ∃ s', s.entry T lagUsec p = .ok s' ∧ Inv T start s' := by
  obtain ⟨c, hcall, hclock, hle⟩ := sysClock_spec lagUsec h.clock hone
  have hlast := h.last
  rw [hmode] at hlast
  refine ⟨_, ?_, h.reach hclock hle false .trap .kentryEnd
    (a := { s.account s.current with
      execution := (s.account s.current).execution + (s.account s.current).elapsed c.prev })
    (congrArg _ (h.elapsed _)) rfl rfl rfl (.inl rfl)⟩
  unfold entry TimeAccount.tmeventKentryEnd
  rw [hcall, ok_bind]
  dsimp only
  rw [ensure_bind_of (hlast.imp_right .inl)]
  rfl

/-- An exit to user code. -/
theorem exit_spec (lagUsec : Nat) {p : SysClock.Pace} (h : Inv T start s) (hmode : s.mode = .trap)
    (hone : SysClock.OneTick T s.clock (.read p)) :
    ∃ s', s.exit T lagUsec p = .ok s' ∧ Inv T start s' := by
  obtain ⟨c, hcall, hclock, hle⟩ := sysClock_spec lagUsec h.clock hone
  have hlast := h.last
  rw [hmode] at hlast
  refine ⟨_, ?_, h.reach hclock hle true .user .kexitStart
    (a := { s.account s.current with
      execution := (s.account s.current).execution + (s.account s.current).elapsed c.prev
      kwork := (s.account s.current).kwork + (s.account s.current).elapsed c.prev })
    (congrArg _ (h.elapsed _)) (congrArg _ (h.elapsed _)) rfl rfl (.inl rfl)⟩
  unfold exit TimeAccount.tmeventKexitStart
  rw [hcall, ok_bind]
  dsimp only
  rw [ensure_bind_of (hlast.imp_right .inl)]
  rfl

theorem contextSwitch_spec (lagUsec : Nat) {next : Fin n} {p : SysClock.Pace} (h : Inv T start s)
    (hmode : s.mode ≠ .user) (hne : next ≠ s.current)
    (hone : SysClock.OneTick T s.clock (.read p)) :
    ∃ s', s.contextSwitch T lagUsec next p = .ok s' ∧ Inv T start s' := by
  obtain ⟨c, hcall, hclock, hle⟩ := sysClock_spec lagUsec h.clock hone
  have hlast := h.last.suspends hmode
  -- the account of the thread that is suspended
  let a : TimeAccount := { s.account s.current with
    execution := (s.account s.current).execution + (s.account s.current).elapsed c.prev
    kwork := (s.account s.current).kwork + (s.account s.current).elapsed c.prev }
  let account := Function.update s.account s.current (a.mark .suspend c.prev)
  have hnext : account next = s.account next := Function.update_of_ne hne ..
  have hcurrent : account s.current = a.mark .suspend c.prev := Function.update_self ..
  have hbooked : Booked account (s.spans ++ [⟨(s.current, true), s.since, c.prev⟩]) :=
    h.booked.concat (a := a.mark .suspend c.prev) (congrArg _ (h.elapsed _)) (congrArg _ (h.elapsed _))
      rfl rfl
  refine ⟨{ s.book c true c.prev with
    current := next
    mode := s.resumes next
    resumes := Function.update s.resumes s.current s.mode.resumed
    account := Function.update account next ((account next).mark .resume c.prev) }, ?_, ?_⟩
  · unfold contextSwitch TimeAccount.tmeventSuspend TimeAccount.tmeventResume
    rw [hcall, ok_bind]
    dsimp only
    rw [ensure_bind_of hlast]
    change (ensure ((account next).prevPoint = .suspend) _ >>= _) >>= _ = _
    rw [ensure_bind_of (by rw [hnext]; exact h.suspended next hne)]
    rfl
  · exact {
      clock := hclock
      since_le := le_rfl
      covers := h.covers.concat (x := ⟨(s.current, true), s.since, c.prev⟩) (h.since_le.trans hle)
      booked := hbooked.mark next .resume c.prev
      last := by
        dsimp only [book]
        rw [Function.update_self]
        exact CpuMode.last_resume
      point := by
        dsimp only [book]
        rw [Function.update_self]
        exact TimeAccount.mark_point ..
      suspended := by
        intro i hi
        dsimp only [book] at hi ⊢
        rw [Function.update_of_ne hi]
        by_cases hcur : i = s.current
        · rw [hcur, hcurrent]
          rfl
        · rw [show account i = s.account i from Function.update_of_ne hcur ..]
          exact h.suspended i hcur }

/-- An event of the clock. -/
theorem Inv.tick (lagUsec : Nat) (h : Inv T start s) {e : SysClock.State.Event}
    (hone : SysClock.OneTick T s.clock e) :
    ∃ c, s.clock.step T lagUsec e = .ok c ∧ Inv T start { s with clock := c } := by
  obtain ⟨c, hstep, hinv, hcalled⟩ := SysClock.State.step_spec lagUsec h.clock.inv h.clock.called hone
  have hle := SysClock.State.step_prev_le h.clock.inv hone hstep
  exact ⟨c, hstep, { h with clock := ⟨hinv, hcalled⟩, since_le := h.since_le.trans hle }⟩

/-! ## Runs -/

/-- At most one tick is outstanding after the event. -/
def OneTick (T : SysClock.HwTimer) (s : CpuTime n) : Event n → Prop
  | .clock e => SysClock.OneTick T s.clock e
  | .entry p | .exit p | .switchTo _ p => SysClock.OneTick T s.clock (.read p)
  | .create _ => True

/-- **One event keeps the accounts right, and fails no assertion.** -/
theorem step_spec (lagUsec : Nat) (h : Inv T start s) {e : Event n} (hone : OneTick T s e) :
    ∃ s', s.step T lagUsec e = .ok s' ∧ Inv T start s' := by
  cases e with
  | clock e =>
    obtain ⟨c, hstep, hinv⟩ := h.tick lagUsec hone
    exact ⟨_, bind_eq_ok.mpr ⟨c, hstep, rfl⟩, hinv⟩
  | entry p =>
    by_cases hmode : s.mode = .user
    · obtain ⟨s', hs', hinv⟩ := entry_spec lagUsec h hmode hone
      exact ⟨s', (if_pos hmode).trans hs', hinv⟩
    · exact ⟨s, if_neg hmode, h⟩
  | exit p =>
    by_cases hmode : s.mode = .trap
    · obtain ⟨s', hs', hinv⟩ := exit_spec lagUsec h hmode hone
      exact ⟨s', (if_pos hmode).trans hs', hinv⟩
    · exact ⟨s, if_neg hmode, h⟩
  | switchTo next p =>
    by_cases hno : s.mode = .user ∨ next = s.current
    · exact ⟨s, if_pos hno, h⟩
    · obtain ⟨hmode, hne⟩ := not_or.mp hno
      obtain ⟨s', hs', hinv⟩ := contextSwitch_spec lagUsec h hmode hne hone
      exact ⟨s', (if_neg hno).trans hs', hinv⟩
  | create thr => exact ⟨_, rfl, { h with }⟩

theorem run_inv (lagUsec : Nat) {es : List (Event n)} :
    ∀ {s : CpuTime n}, Inv T start s → Meets (step T lagUsec) (OneTick T) s es →
      ∃ s', runAll (step T lagUsec) s es = .ok s' ∧ Inv T start s' := by
  induction es with
  | nil => exact fun h _ => ⟨_, rfl, h⟩
  | cons e es ih =>
    intro s h hone
    obtain ⟨t, ht, hinv⟩ := step_spec lagUsec h hone.1
    obtain ⟨s', hs', hinv'⟩ := ih hinv (hone.2 t ht)
    exact ⟨s', bind_eq_ok.mpr ⟨t, ht, hs'⟩, hinv'⟩

instance (T : SysClock.HwTimer) (s : CpuTime n) : DecidablePred (OneTick T s)
  | .clock e => inferInstanceAs (Decidable (SysClock.OneTick T s.clock e))
  | .entry p => inferInstanceAs (Decidable (SysClock.OneTick T s.clock (.read p)))
  | .exit p => inferInstanceAs (Decidable (SysClock.OneTick T s.clock (.read p)))
  | .switchTo _ p => inferInstanceAs (Decidable (SysClock.OneTick T s.clock (.read p)))
  | .create _ => isTrue trivial

end CpuTime

end Wrmos
