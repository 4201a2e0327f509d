import Wrmos.IpcSpec

/-!
# Closed receive

A thread that waits names whom it waits for: in `Receive_ipc` by its `from_spec`, in `Receive_pfault`
and `Receive_exception` by the thread that its fault message went to.  `Wake.Respects` says of a wake-up
that it came from there.

A normal message, an interrupt and a software signal are compared with `from_spec` before they wake
anybody.  Three paths are not: `process_pfault` and `process_exception` deliver to a pager or handler
that waits for somebody else, a reply to a fault is taken from any thread (`TODO:  check that msg from
pager`), and a transfer that was interrupted by a page fault wakes its partner without looking again at
what it waits for.  `Orderly` says of a step that these do no harm, and `run_closedReceive` that nothing
else does: in a run of orderly steps every wake-up is as it should be.
-/

namespace Wrmos

open Lib
open Threads (init doOp ThreadOp)

/-- The `from_spec` of a receiver of the task admits the sender. -/
def Admits (A : Arch) (spec task : Nat) (snd : Ident) : Prop :=
  spec = Thrid.any A ∨ task = snd.task ∧ (spec = Thrid.anyLocal A ∨ spec = snd.localid) ∨
    spec = snd.globid

instance (A : Arch) (spec task : Nat) (snd : Ident) : Decidable (Admits A spec task snd) := by
  unfold Admits; infer_instance

/-- A thread in `Receive_ipc` may be handed a message of the source. -/
def Source.Matches (A : Arch) (spec : Nat) (rcv : Ident) : Source → Prop
  | .message snd => Admits A spec rcv.task snd
  | .fault snd => Admits A spec rcv.task snd
  | .irq n => spec = Thrid.any A ∨ spec = Thrid.createIrq A n
  | .signal => spec = rcv.globid
  | .reply _ => False
  | .transfer => False

instance (A : Arch) (spec : Nat) (rcv : Ident) (s : Source) : Decidable (s.Matches A spec rcv) := by
  cases s <;> unfold Source.Matches <;> infer_instance

/-- The wake-up came from where the thread waited for it. -/
structure Wake.Respects (A : Arch) (w : Wake) : Prop where
  ipc : w.was = .receiveIpc → w.source.Matches A w.fromSpec w.ident
  fault : w.was = .receivePfault ∨ w.was = .receiveException →
    ∃ t, w.source = .reply t ∧ w.faultTo = some t

theorem Thread.isGoodSender_iff {A : Arch} {th snd : Thread} :
    (th.isGoodSender A snd).1 = true ↔ Admits A th.fromSpec th.task snd.ident := by
  unfold isGoodSender Admits ident
  dsimp only
  split_ifs with h
  · refine iff_of_true rfl ?_
    simp only [Bool.or_eq_true, Bool.and_eq_true, beq_iff_eq] at h
    tauto
  · refine iff_of_false nofun ?_
    simp only [Bool.or_eq_true, Bool.and_eq_true, beq_iff_eq] at h
    tauto

namespace Kern

variable {A : Arch} {kioSz timerIrq : Nat} {k k' : Kern} {t now : Nat}

/-! ## Orderly steps -/

/-- If the thread waits in `Receive_ipc`, it waits for the sender. -/
def Awaits (A : Arch) (th : Thread) (snd : Ident) : Prop :=
  th.state = .receiveIpc → Admits A th.fromSpec th.task snd

/-- The thread waits for a reply to its fault. -/
def InFault (th : Thread) : Prop := th.state = .receivePfault ∨ th.state = .receiveException

/-- Going on with the frame wakes nobody who waits for somebody else. -/
def FrameOrderly (A : Arch) (k : Kern) : Frame → Prop
  | .pfault f _ _ _ => ∀ pgr, (k.ts.thr f).pager = some pgr →
    Awaits A (k.ts.thr pgr) (k.ts.thr f).ident
  | .exception f _ _ => ∀ exh, k.excHandler A f = .ok exh →
    Awaits A (k.ts.thr exh) (k.ts.thr f).ident
  | .sendItems _ dst sender _ =>
    Awaits A (k.ts.thr dst) (k.ts.thr sender).ident ∧ ¬ InFault (k.ts.thr dst)
  | .recvItems _ _ snd _ => (k.ts.thr snd).state ≠ .receiveIpc ∧ ¬ InFault (k.ts.thr snd)
  | .reply _ dst _ => (k.ts.thr dst).state ≠ .receiveIpc ∧
    (InFault (k.ts.thr dst) → k.hist.faultTo dst = some k.current)
  | .receive _ _ => True
  | .finish _ _ => True

/-- The event wakes nobody who waits for somebody else: a fault message meets a pager or handler that
waits for the faulting thread or does not wait, a fault is replied to by the thread that got the fault
message, and when an interrupted transfer goes on its partner still waits for it or is ready. -/
def Orderly (A : Arch) (k : Kern) (e : Nat × Event) : Prop :=
  match e.2 with
  | .resume => ∀ f, (k.stack k.current).head? = some f → k.FrameOrderly A f
  | .ipc toId fromSpec timeouts => ∀ dst, k.ts.find A k.curTask toId = .ok (some dst) →
    ((k.ts.thr dst).state = .receivePfault ∧
        Tag.isPfReply A (k.callOf A toId fromSpec timeouts).tag = true ∨
      (k.ts.thr dst).state = .receiveException ∧
        Tag.isExcReply A (k.callOf A toId fromSpec timeouts).tag = true) →
    k.hist.faultTo dst = some k.current
  | _ => True

/-! ## Which wake-ups are as they should be -/

theorem not_inFault (h : (k.ts.thr t).state = .receiveIpc) : ¬ InFault (k.ts.thr t) := by
  rintro (hf | hf) <;> rw [h] at hf <;> cases hf

theorem respects_of_awaits {snd : Ident} {source : Source} (hs : source = .message snd ∨ source = .fault snd)
    (hw : Awaits A (k.ts.thr t) snd) (hf : ¬ InFault (k.ts.thr t)) :
    (k.wakeOf t source).Respects A := by
  refine ⟨fun h => ?_, fun h => absurd h hf⟩
  rcases hs with rfl | rfl <;> exact hw h

theorem respects_of_takesNow {sender : Nat} (h : k.takesNow A t sender = true) :
    (k.wakeOf t (.message (k.ts.thr sender).ident)).Respects A := by
  unfold takesNow at h
  rw [Bool.and_eq_true, decide_eq_true_eq] at h
  exact respects_of_awaits (.inl rfl) (fun _ => Thread.isGoodSender_iff.mp h.2) (not_inFault h.1)

theorem respects_of_reply (hne : (k.ts.thr t).state ≠ .receiveIpc)
    (h : InFault (k.ts.thr t) → k.hist.faultTo t = some k.current) :
    (k.wakeOf t (.reply k.current)).Respects A :=
  ⟨fun hr => absurd hr hne, fun hf => ⟨k.current, rfl, h hf⟩⟩

theorem respects_of_idle {source : Source} (hne : (k.ts.thr t).state ≠ .receiveIpc)
    (hf : ¬ InFault (k.ts.thr t)) : (k.wakeOf t source).Respects A :=
  ⟨fun hr => absurd hr hne, fun h => absurd h hf⟩

/-! ## Steps -/

/-- Every new wake-up is as it should be. -/
def WakesWell (A : Arch) (k k' : Kern) : Prop :=
  ∀ w ∈ k'.hist.wakes, w ∈ k.hist.wakes ∨ w.Respects A

theorem Calm.wakesWell {P : Wake → Prop} {x : Option Nat} (h : Calm P x k k')
    (hP : ∀ w, P w → w.Respects A) : WakesWell A k k' :=
  fun w hw => (h.wakes w hw).imp_right (hP w)

theorem runFrame_wakesWell {f : Frame} (ho : k.FrameOrderly A f)
    (hok : k.runFrame A kioSz now f = .ok k') : WakesWell A k k' := by
  cases f with
  | pfault f addr access inst =>
    refine (processPfault_calm f addr access inst k' hok).wakesWell ?_
    rintro w ⟨pgr, hpgr, hstate, rfl⟩
    exact respects_of_awaits (.inr rfl) (ho pgr hpgr) (not_inFault hstate)
  | exception f type pf =>
    refine (processException_calm f type pf k' hok).wakesWell ?_
    rintro w ⟨exh, hexh, hstate, rfl⟩
    exact respects_of_awaits (.inr rfl) (ho exh hexh) (not_inFault hstate)
  | sendItems call dst sender l =>
    obtain ⟨r, hr, hok⟩ := bind_eq_ok.mp hok
    refine (afterSend_calm call dst sender (resumeItems_still _ _ _ r hr) k' hok).wakesWell ?_
    rintro w ⟨rfl, -⟩
    exact respects_of_awaits (.inl rfl) ho.1 ho.2
  | recvItems call sp snd l =>
    obtain ⟨r, hr, hok⟩ := bind_eq_ok.mp hok
    refine (afterRecv_calm call sp snd (resumeItems_still _ _ _ r hr) k' hok).wakesWell ?_
    rintro w ⟨rfl, -⟩
    exact respects_of_idle ho.1 ho.2
  | reply call dst fp =>
    refine (resumeReply_calm call dst fp k' hok).wakesWell ?_
    rintro w rfl
    exact respects_of_reply ho.1 ho.2
  | receive call sp =>
    have htake : ∀ w, k.TakeWake w → w.Respects A := by
      rintro w ⟨snd, hs, rfl⟩
      refine respects_of_idle (by rw [hs]; decide) ?_
      rintro (h | h) <;> rw [hs] at h <;> cases h
    rcases recvPhase_cases hok with ⟨-, -, h⟩ | h | ⟨h, -⟩
    · exact h.wakesWell (k := irqTaken A k call _) fun _ => False.elim
    · exact h.wakesWell htake
    · exact h.calm.wakesWell htake
  | finish sp rp => exact (endIpc_calm (P := fun _ => False) (x := none) sp rp k' hok).wakesWell nofun

theorem find_congr {ts ts' : Threads} (h : ∀ u, (ts'.thr u).core = (ts.thr u).core) (c id : Nat) :
    ts'.find A c id = ts.find A c id := by
  have hstate : ∀ u, (ts'.thr u).state = (ts.thr u).state := fun u => Thread.state_of_core (h u)
  have htask : ∀ u, (ts'.thr u).task = (ts.thr u).task :=
    fun u => congrArg Ident.task (Thread.ident_of_core (h u))
  have hutcb : ∀ u, (ts'.thr u).uutcb = (ts.thr u).uutcb :=
    fun u => congrArg Ident.localid (Thread.ident_of_core (h u))
  unfold Threads.find Threads.findNumber Threads.findByUtcb
  simp only [hstate, htask, hutcb]

theorem ipcEntry_wakesWell {toId fromSpec timeouts : Nat}
    (ho : k.Orderly A (now, .ipc toId fromSpec timeouts))
    (hok : k.ipcEntry A kioSz toId fromSpec timeouts now = .ok k') : WakesWell A k k' := by
  rcases ipcEntry_cases hok with ⟨-, hre⟩ | h
  · rcases reenable_cases hre with ⟨-, rfl⟩ | ⟨-, c, k₁, -, hrearm, rfl⟩
    · exact fun w => .inl
    · rcases rearm_cases hrearm with ⟨-, rfl⟩ | ⟨-, rfl⟩ <;> exact fun w => .inl
  · refine h.wakesWell ?_
    rintro w ⟨dst, hfind, hw⟩
    have hstill : Still k (k.tagged A) := tagged_still
    have hstate := Thread.state_of_core (hstill.core dst)
    rw [find_congr hstill.core] at hfind
    rcases hw with ⟨hfault, rfl⟩ | ⟨hsig, rfl⟩ | ⟨sender, htakes, rfl⟩
    · rw [hstate] at hfault
      have hto := ho dst hfind hfault
      have hcur : (k.tagged A).current = k.current := hstill.current
      refine respects_of_reply ?_ fun _ => by rw [hstill.hist, hto, hcur]
      rw [hstate]
      rcases hfault with ⟨hs, -⟩ | ⟨hs, -⟩ <;> rw [hs] <;> decide
    · exact ⟨fun _ => hsig.2, fun hf => absurd hf (not_inFault hsig.1)⟩
    · exact respects_of_takesNow htakes

theorem deliverIrq_wakesWell {irq dst : Nat} (hstate : (k.ts.thr dst).state = .receiveIpc)
    (hacc : irqAcceptable A (k.ts.thr dst) irq = true)
    (hok : k.deliverIrq A irq dst now = .ok k') : WakesWell A k k' := by
  unfold deliverIrq at hok
  obtain ⟨k₁, hwake, hok⟩ := bind_eq_ok.mp hok
  have hfrom : Still k (k.upd dst (Thread.setFrom (Thrid.createIrq A irq))) := still_upd fun _ => rfl
  -- the note of the interrupt message changes neither the wake-ups nor the threads
  have hwakes : WakesWell A k k₁ := by
    have hnew := (wake_calm dst _ k₁ hwake).wakesWell (A := A) ?_
    · exact hnew
    rintro w rfl
    have hst := Thread.state_of_core (hfrom.core dst)
    have hsp := Thread.fromSpec_of_core (hfrom.core dst)
    unfold irqAcceptable at hacc
    rw [Bool.or_eq_true, beq_iff_eq, beq_iff_eq, ← hsp] at hacc
    refine ⟨fun _ => hacc, fun hf => ?_⟩
    have hf' : InFault (k.ts.thr dst) := by
      rw [InFault, ← hst]
      exact hf
    exact absurd hf' (not_inFault hstate)
  have hlast := Except.ok.inj hok
  split_ifs at hlast
  · subst hlast
    exact fun w hw => ((switchTo_calm (P := fun _ => False) (x := none) dst).wakes w hw).elim
      (hwakes w) False.elim
  · exact hlast ▸ hwakes

theorem routeIrq_wakesWell {irq : Nat} (hok : k.routeIrq A irq now = .ok k') :
    WakesWell A k k' := by
  obtain ⟨intc, dst, -, -, -, -, hpass⟩ := routeIrq_eq_ok hok
  rcases passIrq_cases hpass with ⟨hstate, -, hacc, hdeliver⟩ | ⟨-, rfl⟩
  · exact deliverIrq_wakesWell (k := (({ k with intc := intc } : Kern).noteRaised irq)) hstate hacc
      hdeliver
  · exact fun w => .inl

theorem raise_wakesWell {n : Nat} (hok : k.raise A timerIrq n now = .ok k') : WakesWell A k k' := by
  unfold raise at hok
  split_ifs at hok with hmask hstack
  · obtain rfl := Except.ok.inj hok
    unfold latch
    split_ifs <;> exact fun w => .inl
  · obtain ⟨c, -, hok⟩ := bind_eq_ok.mp hok
    dsimp only at hok
    split_ifs at hok
    · obtain ⟨c', -, hok⟩ := bind_eq_ok.mp hok
      exact (kernTimerTick_calm (P := fun _ => False) (x := none) k' hok).wakesWell nofun
    · exact routeIrq_wakesWell (k := { k with intc := c }) hok
  · exact Except.ok.inj hok ▸ fun w => .inl

theorem manage_hist {m : Manage} (hok : k.manage A m = .ok k') : k'.hist = k.hist := by
  cases m with
  | create globid schedid pagerid task newTask =>
    obtain ⟨r, -, hok⟩ := bind_eq_ok.mp hok
    obtain rfl := Except.ok.inj hok
    rfl
  | activate t uutcb pa =>
    obtain ⟨-, hok⟩ := ensure_bind_eq_ok.mp hok
    obtain ⟨m, -, hok⟩ := bind_eq_ok.mp hok
    obtain ⟨ts, -, hok⟩ := bind_eq_ok.mp hok
    obtain rfl := Except.ok.inj hok
    rfl
  | modify globid schedid pagerid task =>
    simp only [manage] at hok
    split at hok <;> obtain rfl := Except.ok.inj hok <;> rfl
  | delete globid =>
    obtain ⟨ts, -, hok⟩ := bind_eq_ok.mp hok
    obtain rfl := Except.ok.inj hok
    rfl
  | pager t pagerid =>
    obtain ⟨r, -, hok⟩ := bind_eq_ok.mp hok
    cases r <;> obtain rfl := Except.ok.inj hok <;> rfl
  | prio t v =>
    obtain ⟨ts, -, hok⟩ := bind_eq_ok.mp hok
    obtain rfl := Except.ok.inj hok
    rfl
  | handler irq id =>
    obtain ⟨-, hok⟩ := ensure_bind_eq_ok.mp hok
    split_ifs at hok
    · obtain ⟨c, -, hok⟩ := bind_eq_ok.mp hok
      obtain rfl := Except.ok.inj hok
      rfl
    · obtain rfl := Except.ok.inj hok
      rfl

theorem userStep_wakesWell {ev : Event} (ho : k.Orderly A (now, ev))
    (hok : k.userStep A kioSz now ev = .ok k') : WakesWell A k k' := by
  cases ev with
  | resume => exact Except.ok.inj hok ▸ fun w => .inl
  | irq n => exact Except.ok.inj hok ▸ fun w => .inl
  | ipc toId fromSpec timeouts => exact ipcEntry_wakesWell ho hok
  | pagefault addr access inst =>
    obtain rfl := Except.ok.inj hok
    exact fun w => .inl
  | exception type pf =>
    obtain rfl := Except.ok.inj hok
    exact fun w => .inl
  | threadSwitch id =>
    obtain ⟨r, -, hok⟩ := bind_eq_ok.mp hok
    cases r with
    | none =>
      exact (switchToNext_calm (Calm.refl (fun _ => False) none k) k' hok).wakesWell nofun
    | some t => cases hok
  | unmap fp utcbs =>
    obtain ⟨m, -, hok⟩ := bind_eq_ok.mp hok
    obtain rfl := Except.ok.inj hok
    exact fun w => .inl
  | write t utcb =>
    simp only [userStep] at hok
    split_ifs at hok <;> obtain rfl := Except.ok.inj hok <;> exact fun w => .inl
  | manage m => exact fun w hw => .inl (manage_hist hok ▸ hw)

/-- **A step** that is orderly wakes nobody who waits for somebody else. -/
theorem step_wakesWell {e : Nat × Event} (ho : k.Orderly A e)
    (hok : k.step A kioSz timerIrq e = .ok k') : WakesWell A k k' := by
  obtain ⟨now, ev⟩ := e
  have huser : (if k.stack k.current = [] then k.userStep A kioSz now ev else .ok k) = .ok k' →
      WakesWell A k k' := by
    intro h
    split_ifs at h
    · exact userStep_wakesWell ho h
    · exact Except.ok.inj h ▸ fun w => .inl
  cases ev with
  | resume =>
    change k.resume A kioSz now = .ok k' at hok
    unfold resume at hok
    split at hok
    · exact Except.ok.inj hok ▸ fun w => .inl
    · rename_i f fs hf
      have hframe : k.FrameOrderly A f := ho f (by rw [hf]; rfl)
      refine runFrame_wakesWell (k := { k with stack := Function.update k.stack k.current fs }) ?_
        hok
      cases f <;> exact hframe
  | irq n => exact raise_wakesWell hok
  | ipc toId fromSpec timeouts => exact huser hok
  | pagefault addr access inst => exact huser hok
  | exception type pf => exact huser hok
  | threadSwitch id => exact huser hok
  | unmap fp utcbs => exact huser hok
  | write t utcb => exact huser hok
  | manage m => exact huser hok

/-- **Closed receive.**  In a run of orderly steps every thread that was woken in `Receive_ipc` was
handed a message from a sender that its `from_spec` admits, and every thread that was woken in
`Receive_pfault` or `Receive_exception` was replied to by the thread its fault message went to. -/
theorem run_closedReceive {es : List (Nat × Event)} {k₀ : Kern}
    (h₀ : ∀ w ∈ k₀.hist.wakes, w.Respects A)
    (hC : Meets (step A kioSz timerIrq) (Orderly A) k₀ es)
    (h : runAll (step A kioSz timerIrq) k₀ es = .ok k) : ∀ w ∈ k.hist.wakes, w.Respects A :=
  runAll_invariant (I := fun k => ∀ w ∈ k.hist.wakes, w.Respects A)
    (fun _ _ _ hk ho hstep w hw => (step_wakesWell ho hstep w hw).elim (hk w) id) h₀ hC h

/-- Thread 1 waits for `spec` without a timeout; thread 2, whose pager it is, runs. -/
def pagerWaits (spec : Nat) : List (Nat × ThreadOp) :=
  [(0, .create (Thrid.createGlobal .sparc 129 1) 1 1 1 10), (0, .state 1 .active),
    (0, .state 1 .ready), (0, .saveRcv 1 0 spec 0 none),
    (0, .create (Thrid.createGlobal .sparc 130 1) 1 1 1 5), (0, .state 2 .active),
    (0, .state 2 .ready), (0, .write 2 fun th => { th with pager := some 1 })]

/-- The running thread has a page fault. -/
def faults : List (Nat × Event) := [(0, .pagefault 0x1000 1 0), (0, .resume)]

/-- The pager waits for the faulting thread. -/
theorem pagerWaits_faults_respects : ∃ ts k,
    runAll (doOp .sparc) (init .sparc) (pagerWaits (Thrid.createGlobal .sparc 130 1)) = .ok ts ∧
      runAll (step .sparc 0 31) (start .sparc ts 2) faults = .ok k ∧
      k.hist.wakes ≠ [] ∧ ∀ w ∈ k.hist.wakes, w.Respects .sparc := by
  have hrun : (match runAll (doOp .sparc) (init .sparc)
      (pagerWaits (Thrid.createGlobal .sparc 130 1)) with
      | .ok ts =>
        match runAll (step .sparc 0 31) (start .sparc ts 2) faults with
        | .ok k => decide (k.hist.wakes ≠ [] ∧ (ts.thr 2).pager = some 1 ∧
            Admits .sparc (ts.thr 1).fromSpec (ts.thr 1).task (ts.thr 2).ident)
        | .error _ => false
      | .error _ => false) = true := by decide +kernel
  split at hrun
  · rename_i ts hts
    split at hrun
    · rename_i k hk
      obtain ⟨hne, hpgr, hadm⟩ := of_decide_eq_true hrun
      have hnil : ∀ w ∈ (start .sparc ts 2).hist.wakes, w.Respects .sparc := nofun
      refine ⟨ts, k, hts, hk, hne, run_closedReceive hnil ?_ hk⟩
      refine ⟨trivial, fun k₁ hk₁ => ⟨?_, fun _ _ => trivial⟩⟩
      obtain rfl := Except.ok.inj hk₁
      intro f hf
      obtain rfl := Option.some.inj hf
      intro pgr h
      have hp : (ts.thr 2).pager = some pgr := h
      obtain rfl := Option.some.inj (hpgr.symm.trans hp)
      exact fun _ => hadm
    · cases hrun
  · cases hrun

/-- The pager waits for another thread, and the fault message ends its receive. -/
theorem pagerWaits_faults_woken : ∃ ts k,
    runAll (doOp .sparc) (init .sparc) (pagerWaits (Thrid.createGlobal .sparc 131 1)) = .ok ts ∧
      runAll (step .sparc 0 31) (start .sparc ts 2) faults = .ok k ∧
      ¬ ∀ w ∈ k.hist.wakes, w.Respects .sparc := by
  have hrun : (match runAll (doOp .sparc) (init .sparc)
      (pagerWaits (Thrid.createGlobal .sparc 131 1)) with
      | .ok ts =>
        match runAll (step .sparc 0 31) (start .sparc ts 2) faults with
        | .ok k => decide (∃ w ∈ k.hist.wakes, w.was = .receiveIpc ∧
            ¬ w.source.Matches .sparc w.fromSpec w.ident)
        | .error _ => false
      | .error _ => false) = true := by decide +kernel
  split at hrun
  · rename_i ts hts
    split at hrun
    · rename_i k hk
      obtain ⟨w, hw, hwas, hno⟩ := of_decide_eq_true hrun
      exact ⟨ts, k, hts, hk, fun h => hno ((h w hw).ipc hwas)⟩
    · cases hrun
  · cases hrun

end Kern

end Wrmos
