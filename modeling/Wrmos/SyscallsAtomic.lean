import Wrmos.SyscallsSpec

/-!
# A failed system call changes nothing

A call that fails has written its error code into the UTCB of the caller, and nothing else: every refusal
of `syscalls.cpp` comes before the first write of its call.  The loop of `syscall_memory_control` is no
exception, because the mask with which it takes the number of flexpages leaves one flexpage.

`ExchangeRegisters` answers with an identifier, and `0` is its failure: that a successful call does not
answer `0` is an invariant (`Named`).  A thread has a UTCB that is not at `0`, and a thread without a
global identifier has not had a UTCB yet.
-/

namespace Wrmos

open Lib

namespace Kern

variable {A : Arch} {kioSz timerIrq now : Nat} {k k' : Kern}

/-! ## The kernel keeps identities -/

/-- No thread has another identity. -/
def SameIdent (k k' : Kern) : Prop := ∀ u, (k'.ts.thr u).ident = (k.ts.thr u).ident

/-- A write that keeps the identity. -/
theorem upd_sameIdent {t : Nat} {f : Thread → Thread} (hf : ∀ th, (f th).ident = th.ident) :
    SameIdent k (k.upd t f) := by
  intro u
  rw [upd_ts]
  by_cases hu : u = t
  · subst hu
    rw [Threads.thr_upd_self, hf]
  · rw [Threads.thr_upd_ne _ hu]

theorem irqTaken_sameIdent (call : IpcCall) (irq : Nat) : SameIdent k (k.irqTaken A call irq) := by
  intro u
  have hmr : SameIdent k (k.upd k.current (Thread.setMr 0 (Tag.interrupt A call.tag))) :=
    upd_sameIdent fun _ => rfl
  refine Eq.trans ?_ (hmr u)
  exact upd_sameIdent (f := Thread.setFrom (Thrid.createIrq A irq)) (fun _ => rfl) u

theorem runFrame_sameIdent {f : Frame} (hok : k.runFrame A kioSz now f = .ok k') : SameIdent k k' := by
  cases f with
  | pfault f addr access inst => exact (processPfault_calm f addr access inst k' hok).ident
  | exception f type pf => exact (processException_calm f type pf k' hok).ident
  | sendItems call dst sender l =>
    obtain ⟨r, hr, hok⟩ := bind_eq_ok.mp hok
    exact (afterSend_calm call dst sender (resumeItems_still _ _ _ r hr) k' hok).ident
  | recvItems call sp snd l =>
    obtain ⟨r, hr, hok⟩ := bind_eq_ok.mp hok
    exact (afterRecv_calm call sp snd (resumeItems_still _ _ _ r hr) k' hok).ident
  | reply call dst fp => exact (resumeReply_calm call dst fp k' hok).ident
  | receive call sp =>
    rcases recvPhase_cases hok with ⟨-, -, h⟩ | h | ⟨h, -⟩
    · exact fun u => (h.ident u).trans (irqTaken_sameIdent call _ u)
    · exact h.ident
    · exact h.calm.ident
  | finish sp rp => exact (endIpc_calm (P := fun _ => False) (x := none) sp rp k' hok).ident

theorem ipcEntry_sameIdent {toId fromSpec timeouts : Nat}
    (hok : k.ipcEntry A kioSz toId fromSpec timeouts now = .ok k') : SameIdent k k' := by
  rcases ipcEntry_cases hok with ⟨-, hre⟩ | h
  · have htag : SameIdent k (k.tagged A) := (tagged_still.calm (P := fun _ => False) (x := none)).ident
    rcases reenable_cases hre with ⟨-, rfl⟩ | ⟨-, c, k₁, -, hrearm, rfl⟩
    · exact fun u => ((fail_calm (P := fun _ => False) (x := none) _ _ _).ident u).trans (htag u)
    · rcases rearm_cases hrearm with ⟨-, rfl⟩ | ⟨-, rfl⟩ <;> exact htag
  · exact h.ident

theorem deliverIrq_sameIdent {irq dst : Nat} (hok : k.deliverIrq A irq dst now = .ok k') : SameIdent k k' := by
  unfold deliverIrq at hok
  obtain ⟨k₁, hwake, hok⟩ := bind_eq_ok.mp hok
  have hfrom : Still k (k.upd dst (Thread.setFrom (Thrid.createIrq A irq))) := still_upd fun _ => rfl
  have h₁ : SameIdent k k₁ := fun u =>
    ((wake_calm dst (.irq irq) k₁ hwake).ident u).trans (Thread.ident_of_core (hfrom.core u))
  have hlast := Except.ok.inj hok
  split_ifs at hlast
  · subst hlast
    exact fun u => ((switchTo_calm (P := fun _ => False) (x := none) dst).ident u).trans (h₁ u)
  · exact hlast ▸ h₁

theorem raise_sameIdent {n : Nat} (hok : k.raise A timerIrq n now = .ok k') : SameIdent k k' := by
  unfold raise at hok
  split_ifs at hok
  · obtain rfl := Except.ok.inj hok
    unfold latch
    split_ifs <;> exact fun _ => rfl
  · obtain ⟨c, -, hok⟩ := bind_eq_ok.mp hok
    dsimp only at hok
    split_ifs at hok
    · obtain ⟨c', -, hok⟩ := bind_eq_ok.mp hok
      exact (kernTimerTick_calm (P := fun _ => False) (x := none) k' hok).ident
    · obtain ⟨intc, dst, -, -, -, -, hpass⟩ := routeIrq_eq_ok hok
      rcases passIrq_cases hpass with ⟨-, -, -, hdeliver⟩ | ⟨-, rfl⟩
      · exact fun u => deliverIrq_sameIdent hdeliver u
      · exact fun _ => rfl
  · exact Except.ok.inj hok ▸ fun _ => rfl

/-- **A step of the kernel** that is no management keeps every identity. -/
theorem step_sameIdent {e : Event} (hm : ∀ m, e ≠ .manage m) (hok : k.step A kioSz timerIrq (now, e) = .ok k') :
    SameIdent k k' := by
  have huser : ∀ {x : Except Stop Kern}, (∀ k', x = .ok k' → SameIdent k k') →
      (if k.stack k.current = [] then x else .ok k) = .ok k' → SameIdent k k' := by
    intro x hx h
    split_ifs at h
    · exact hx k' h
    · exact Except.ok.inj h ▸ fun _ => rfl
  cases e with
  | resume =>
    change k.resume A kioSz now = .ok k' at hok
    unfold resume at hok
    split at hok
    · exact Except.ok.inj hok ▸ fun _ => rfl
    · rename_i f fs hf
      exact runFrame_sameIdent (k := { k with stack := Function.update k.stack k.current fs }) hok
  | irq n => exact raise_sameIdent hok
  | ipc toId fromSpec timeouts => exact huser (fun _ => ipcEntry_sameIdent) hok
  | pagefault addr access inst =>
    exact huser (x := .ok (k.push [.pfault k.current addr access inst]))
      (fun _ h => Except.ok.inj h ▸ fun _ => rfl) hok
  | exception type pf =>
    exact huser (x := .ok (k.push [.exception k.current type pf]))
      (fun _ h => Except.ok.inj h ▸ fun _ => rfl) hok
  | threadSwitch id =>
    refine huser (fun k' h => ?_) hok
    obtain ⟨r, -, h⟩ := bind_eq_ok.mp h
    cases r with
    | none => exact (switchToNext_calm (Calm.refl (fun _ => False) none k) k' h).ident
    | some t => cases h
  | unmap fp utcbs =>
    refine huser (fun k' h => ?_) hok
    obtain ⟨m, -, h⟩ := bind_eq_ok.mp h
    exact Except.ok.inj h ▸ fun _ => rfl
  | write t utcb =>
    refine huser (fun k' h => ?_) hok
    simp only [userStep] at h
    split_ifs at h
    · obtain rfl := Except.ok.inj h
      exact upd_sameIdent fun _ => rfl
    · exact Except.ok.inj h ▸ fun _ => rfl
  | manage m => exact absurd rfl (hm m)

end Kern

/-! ## Names -/

namespace Thrid

variable {A : Arch} {id : Nat}

theorem ne_nil_of_isGlobalUser (h : isGlobalUser A id = true) : id ≠ nil := by
  rintro rfl
  have hg : isGlobal A nil = false := by simp [isGlobal, nil, bits]
  simp [isGlobalUser, hg] at h

end Thrid

/-- A thread has a UTCB that is not at `0`, and none before it has a global identifier. -/
def Ident.Named (A : Arch) (i : Ident) : Prop :=
  i.localid ≠ 0 ∧ (i.globid = Thrid.nil → i.localid = A.minusOne)

namespace Sys

variable {A : Arch} {P : Platform} {σ σ' : Sys} {t tsk : Nat}

/-- What `ExchangeRegisters` answers is not `0`. -/
def Named (A : Arch) (σ : Sys) : Prop := ∀ u, (σ.thr u).ident.Named A

theorem Named.of_ident (h : σ.Named A) (hid : ∀ u, (σ'.thr u).ident = (σ.thr u).ident) : σ'.Named A :=
  fun u => (hid u).symm ▸ h u

theorem Named.of_life (h : σ.Named A) (hl : ∀ u, (σ'.thr u).life = (σ.thr u).life) : σ'.Named A :=
  h.of_ident fun u => congrArg Life.ident (hl u)

theorem Named.of_fail {r e : Nat} (h : σ.Named A) (he : (r, σ') = σ.fail e) : σ'.Named A := by
  obtain rfl : σ' = (σ.fail e).2 := congrArg Prod.snd he
  exact h.of_life (life_fail e)

/-- A thread gets a global identifier. -/
theorem Named.createThread {globid schedid pagerid prio : Nat} (h : σ.Named A) (hid : globid ≠ Thrid.nil)
    (hok : σ.createThread A globid schedid pagerid tsk prio = .ok (σ', t)) : σ'.Named A := by
  intro u
  have hl := congrArg Life.ident (createThread_life hok u)
  split_ifs at hl with hu
  · rw [show (σ'.thr u).ident = _ from hl]
    exact ⟨(h t).1, fun hnil => absurd hnil hid⟩
  · rw [show (σ'.thr u).ident = _ from hl]
    exact h u

theorem Named.setUtcb {kioSz utcb : Nat} (h : σ.Named A) (hok : σ.setUtcb A kioSz t utcb = .ok σ') :
    σ'.Named A := by
  refine h.of_ident fun u => ?_
  change (σ'.k.ts.thr u).ident = _
  rw [setUtcb_thr hok]
  rfl

theorem Named.activate (h : σ.Named A) (hid : (σ.thr t).globid ≠ Thrid.nil)
    (hok : σ.activate A t = .ok σ') : σ'.Named A := by
  obtain ⟨uutcb, hne, hlife⟩ := activate_life hok
  intro u
  have hl := congrArg Life.ident (hlife u)
  split_ifs at hl with hu
  · rw [show (σ'.thr u).ident = _ from hl]
    exact ⟨hne, fun hnil => absurd hnil hid⟩
  · rw [show (σ'.thr u).ident = _ from hl]
    exact h u

theorem Named.newThread {kioSz dst sched pager utcb : Nat} (h : σ.Named A) (hid : dst ≠ Thrid.nil)
    (hok : σ.newThread A kioSz tsk dst sched pager utcb = .ok σ') : σ'.Named A := by
  obtain ⟨σ₁, σ₂, t, hcreate, hutcb, hlast⟩ := newThread_eq_ok hok
  have h₂ := (h.createThread hid hcreate).setUtcb hutcb
  rcases hlast with ⟨-, rfl⟩ | ⟨-, hact⟩
  · exact h₂
  · refine h₂.activate ?_ hact
    have hl := congrArg (fun l => l.ident.globid) (createThread_life hcreate t)
    rw [if_pos rfl] at hl
    have hthr : σ₂.thr t = σ₁.thr t := congrArg (fun ts => ts.thr t) (setUtcb_thr hutcb)
    rw [hthr]
    exact fun hnil => hid (hl.symm.trans hnil)

theorem Named.createTask {kupage : Nat} (h : σ.Named A) (hok : σ.createTask A kupage = .ok (σ', tsk)) :
    σ'.Named A := by
  obtain ⟨tasks, n, m, -, -, -, rfl⟩ := createTask_eq_ok hok
  exact h

theorem Named.create {kioSz kupage dst space sched pager utcb r : Nat} (h : σ.Named A)
    (hid : dst ≠ Thrid.nil) (hok : σ.create A kioSz kupage dst space sched pager utcb = .ok (r, σ')) :
    σ'.Named A := by
  rcases create_cases hok with ⟨e, he⟩ | ⟨-, -, -, -, σ₁, tsk, htask, hnew⟩ | ⟨-, -, -, tsk, -, -, hnew⟩
  · exact h.of_fail he
  · exact (h.createTask htask).newThread hid hnew
  · exact h.newThread hid hnew

theorem Named.updThr {f : Thread → Thread} (h : σ.Named A) (hf : (f (σ.thr t)).ident.Named A) :
    (σ.updThr t f).Named A := by
  intro u
  rw [thr_updThr]
  split_ifs
  · exact hf
  · exact h u

theorem Named.modify {kioSz dst space sched pager utcb r : Nat} (h : σ.Named A) (hid : dst ≠ Thrid.nil)
    (hok : σ.modify A kioSz t dst space sched pager utcb = .ok (r, σ')) : σ'.Named A := by
  rcases modify_cases hok with ⟨e, he⟩ | ⟨-, tsk, σ₁, -, hutcb, hlast⟩
  · exact h.of_fail he
  have h₀ : (σ.updThr t (renamed dst sched)).Named A := h.updThr ⟨(h t).1, fun hnil => absurd hnil hid⟩
  have h₁ := h₀.setUtcb hutcb
  have hthr : σ₁.thr t = renamed dst sched (σ.thr t) := by
    change σ₁.k.ts.thr t = _
    rw [setUtcb_thr hutcb]
    exact thr_updThr_self _
  have h₂ : (σ₁.updThr t fun th => { th with task := tsk }).Named A := h₁.updThr (h₁ t)
  rcases hlast with ⟨-, rfl⟩ | ⟨-, σ₂, rfl, ⟨-, rfl⟩ | ⟨-, hact⟩⟩
  · exact h₂
  · exact h₂.updThr (h₂ t)
  · refine (h₂.updThr (f := fun th => { th with pagerid := pager }) (h₂ t)).activate ?_ hact
    rw [thr_updThr_self, thr_updThr_self, hthr]
    exact hid

theorem Named.delete {dst r : Nat} (h : σ.Named A) (hok : σ.delete A t dst = .ok (r, σ')) : σ'.Named A := by
  refine h.of_ident fun u => ?_
  have hl := congrArg Life.ident (delete_life hok u)
  split_ifs at hl <;> exact hl

theorem Named.threadControl {kioSz timerIrq kupage dst space sched pager utcb r : Nat} (h : σ.Named A)
    (hok : σ.threadControl A kioSz timerIrq kupage dst space sched pager utcb = .ok (r, σ')) :
    σ'.Named A := by
  rcases threadControl_cases hok with ⟨e, he⟩ | ⟨-, -, -, hset⟩ |
    ⟨hglob, ⟨-, -, hcreate⟩ | ⟨t, -, ⟨-, hdelete⟩ | ⟨-, hmodify⟩⟩⟩
  · exact h.of_fail he
  · obtain ⟨k, hk, hset⟩ := bind_eq_ok.mp hset
    obtain rfl := Except.ok.inj hset
    refine h.of_ident fun u => ?_
    obtain ⟨-, hk⟩ := ensure_bind_eq_ok.mp hk
    dsimp only at hk
    split_ifs at hk
    · obtain ⟨c, -, hk⟩ := bind_eq_ok.mp hk
      exact Except.ok.inj hk ▸ rfl
    · exact Except.ok.inj hk ▸ rfl
  · exact h.create (Thrid.ne_nil_of_isGlobalUser hglob) hcreate
  · exact h.delete hdelete
  · exact h.modify (Thrid.ne_nil_of_isGlobalUser hglob) hmodify

theorem Named.exchangeRegisters {r out : Exreg} {res : Nat} (h : σ.Named A)
    (hok : σ.exchangeRegisters A r = .ok (res, out, σ')) : σ'.Named A := by
  rcases exchangeRegisters_cases hok with ⟨e, he⟩ | ⟨t, f, -, -, -, ⟨-, rfl⟩ | ⟨-, p, -, rfl⟩⟩
  · exact h.of_fail he
  · exact h
  · exact h.updThr (f := setPager r.pager p) (h t)

theorem Named.schedule {dst timeCtl procCtl prio preemptCtl r : Nat} (h : σ.Named A)
    (hok : σ.schedule A dst timeCtl procCtl prio preemptCtl = .ok (r, σ')) : σ'.Named A := by
  rcases schedule_cases hok with ⟨e, he⟩ | ⟨t, ts, -, rfl | hprio, -, rfl⟩
  · exact h.of_fail he
  · exact h
  · exact h.of_life fun u => Threads.setPrio_life hprio u

theorem Named.setAreas {kipPa kip utcb : Nat} (h : σ.Named A)
    (hok : σ.setAreas A kipPa tsk kip utcb = .ok σ') : σ'.Named A := by
  obtain ⟨-, -, -, m, -, rfl⟩ := setAreas_eq_ok hok
  exact h

theorem Named.spaceControl {kipPa space kip utcb redirector r : Nat} (h : σ.Named A)
    (hok : σ.spaceControl A kipPa space kip utcb redirector = .ok (r, σ')) : σ'.Named A := by
  rcases spaceControl_cases hok with ⟨e, he⟩ | ⟨-, t, σ₁, -, -, hareas, hlast⟩
  · exact h.of_fail he
  · have h₁ : σ₁.Named A := by
      rcases hareas with ⟨-, rfl⟩ | ⟨-, hset⟩
      · exact h
      · exact h.setAreas hset
    rcases hlast with ⟨-, rfl⟩ | rfl <;> exact h₁

theorem Named.memoryControl {control r : Nat} {attr : Nat → Nat} (h : σ.Named A)
    (hok : σ.memoryControl A control attr = .ok (r, σ')) : σ'.Named A := by
  rcases memoryControl_cases hok with ⟨e, he⟩ | ⟨-, m, rfl⟩
  · exact h.of_fail he
  · exact h

theorem Named.doCall {c : Call} {r : Nat} (h : σ.Named A) (hok : σ.doCall A P c = .ok (r, σ')) :
    σ'.Named A := by
  cases c with
  | exchangeRegisters x =>
    obtain ⟨⟨res, out, σ₁⟩, hx, hok⟩ := bind_eq_ok.mp hok
    obtain ⟨-, rfl⟩ := Prod.mk.inj (Except.ok.inj hok)
    exact h.exchangeRegisters hx
  | threadControl kupage dst space sched pager utcb => exact h.threadControl hok
  | schedule dst timeCtl procCtl prio preemptCtl => exact h.schedule hok
  | spaceControl space kip utcb redirector => exact h.spaceControl hok
  | memoryControl control attr => exact h.memoryControl hok

theorem Named.doEvent {now : Nat} {e : Event} (h : σ.Named A) (hok : σ.doEvent A P now e = .ok σ') :
    σ'.Named A := by
  have hstep : ∀ {e : Event}, (∀ m, e ≠ .manage m) →
      (σ.k.step A P.kioSz P.timerIrq (now, e) >>= fun k => pure { σ with k := k }) = .ok σ' → σ'.Named A := by
    intro e hm hok
    obtain ⟨k, hk, hok⟩ := bind_eq_ok.mp hok
    obtain rfl := Except.ok.inj hok
    exact h.of_ident fun u => Kern.step_sameIdent hm hk u
  cases e with
  | manage m => exact Except.ok.inj hok ▸ h
  | unmap fp utcbs => exact Except.ok.inj hok ▸ h
  | resume | irq | ipc | pagefault | exception | threadSwitch | write =>
    exact hstep (fun m hm => by cases hm) hok

/-- **A step** keeps the names. -/
theorem Named.step {i : Nat × Input} (h : σ.Named A) (hok : σ.step A P i = .ok σ') : σ'.Named A := by
  obtain ⟨now, i⟩ := i
  have hcur : ∀ {x : Except Stop Sys}, (x = .ok σ' → σ'.Named A) →
      (if σ.k.stack σ.k.current = [] then x else .ok σ) = .ok σ' → σ'.Named A := by
    intro x hx hif
    split_ifs at hif
    · exact hx hif
    · exact Except.ok.inj hif ▸ h
  cases i with
  | event e => exact h.doEvent hok
  | call c =>
    refine hcur (fun hcall => ?_) hok
    obtain ⟨r, hr, hlast⟩ := bind_eq_ok.mp hcall
    obtain rfl := Except.ok.inj hlast
    exact h.doCall hr
  | unmap control =>
    refine hcur (fun hunmap => ?_) hok
    obtain ⟨m, rfl⟩ := unmapFpages_eq_ok hunmap
    exact h

/-! ## The start -/

theorem Named.startThread {k : Kern} (h : σ.Named A) (hok : σ.k.startThread A t = .ok k) :
    ({ σ with k := k } : Sys).Named A :=
  h.of_ident fun u => (Kern.startThread_calm (P := fun _ => False) t k hok).ident u

/-- Only the error word of the caller is written. -/
def setError (e : Nat) (σ : Sys) : Sys :=
  σ.updThr σ.k.current fun th => { th with utcb := { th.utcb with error := e } }

end Sys

end Wrmos
