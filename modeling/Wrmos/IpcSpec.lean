import Wrmos.KernStep
import Wrmos.KernSpec

/-!
# What the steps of IPC leave alone

Two relations between the state before and the state behind a piece of `do_ipc`.

* `Still`: only UTCBs, the register with the sender, memory and ports differ.  The transfer of a message
  is of this kind (`doNormalIpc_still`).
* `Calm P x`: interrupts and the record of interrupt messages are as before, threads keep their
  identity, no thread but `x` has started to wait in `Receive_ipc`, and every wake-up that is new
  satisfies `P`.

What is proved about runs of the kernel rests on these: a claim about wake-ups looks at `P`, one about
interrupts at the rest.
-/

namespace Wrmos

open Lib

/-- The thread without what the transfer of a message writes. -/
def Thread.core (th : Thread) : Thread :=
  { th with utcb := ⟨fun _ => 0, fun _ => 0, 0, 0, 0⟩, ipcFrom := 0 }

namespace Thread

variable {th th' : Thread}

theorem state_of_core (h : th'.core = th.core) : th'.state = th.state := by
  injection h

theorem fromSpec_of_core (h : th'.core = th.core) : th'.fromSpec = th.fromSpec := by
  injection h

theorem ident_of_core (h : th'.core = th.core) : th'.ident = th.ident := by
  unfold ident
  injection h with h1 h2 h3
  rw [h1, h2, h3]

theorem core_setMr (i v : Nat) (th : Thread) : (th.setMr i v).core = th.core := rfl

theorem core_pfaultMsg (A : Arch) (fromId addr access inst : Nat) (th : Thread) :
    (th.pfaultMsg A fromId addr access inst).core = th.core := by
  unfold pfaultMsg
  rw [core_setMr, core_setMr, core_setMr]
  rfl

theorem ident_of_bare (h : th'.bare = th.bare) : th'.ident = th.ident := by
  unfold ident
  injection h with h1 h2 h3
  rw [h1, h2, h3]

end Thread

namespace Kern

variable {A : Arch} {kioSz : Nat} {k k' k₁ k₂ : Kern} {t u now : Nat} {P Q : Wake → Prop}
  {x : Option Nat}

/-! ## Transfers -/

/-- Only UTCBs, the registers with the sender, memory and ports differ. -/
structure Still (k k' : Kern) : Prop where
  hist : k'.hist = k.hist
  ints : k'.ints = k.ints
  intc : k'.intc = k.intc
  current : k'.current = k.current
  stack : k'.stack = k.stack
  core : ∀ u, (k'.ts.thr u).core = (k.ts.thr u).core

theorem Still.refl (k : Kern) : Still k k := ⟨rfl, rfl, rfl, rfl, rfl, fun _ => rfl⟩

theorem Still.trans (h : Still k k₁) (h' : Still k₁ k₂) : Still k k₂ :=
  ⟨h'.hist.trans h.hist, h'.ints.trans h.ints, h'.intc.trans h.intc, h'.current.trans h.current,
    h'.stack.trans h.stack, fun u => (h'.core u).trans (h.core u)⟩

/-- A write to the UTCB or to the register with the sender. -/
theorem still_upd {f : Thread → Thread} (hf : ∀ th, (f th).core = th.core) : Still k (k.upd t f) := by
  refine ⟨rfl, rfl, rfl, rfl, rfl, fun u => ?_⟩
  rw [upd_ts]
  by_cases hu : u = t
  · subst hu
    rw [Threads.thr_upd_self, hf]
  · rw [Threads.thr_upd_ne _ hu]

theorem still_mem (m : Mem) : Still k { k with mem := m } := ⟨rfl, rfl, rfl, rfl, rfl, fun _ => rfl⟩

theorem still_io (io : Nat → IoBitmap) : Still k { k with io := io } :=
  ⟨rfl, rfl, rfl, rfl, rfl, fun _ => rfl⟩

theorem mapMem_still (snd rcv : Nat) (l : ItemLoop) (cached : Nat) :
    Post (k.mapMem A snd rcv l cached) (Still k) := by
  unfold mapMem
  refine Post.bind_any fun res _ => Post.bind_any fun win _ => Post.pure ?_
  exact (still_mem res.1).trans (still_upd fun _ => rfl)

theorem givePorts_still (giver taker fp : Nat) :
    Post (k.givePorts A giver taker fp) (Still k) := by
  unfold givePorts
  refine Post.bind_any fun _ _ => Post.bind_any fun _ _ => Post.ensure fun _ =>
    Post.bind_any fun b _ => Post.pure ?_
  exact still_io _

theorem dropPorts_still (giver fp : Nat) (grant : Bool) :
    Post (k.dropPorts A giver fp grant) (Still k) := by
  unfold dropPorts
  refine Post.ite (fun _ => ?_) fun _ => Post.ok (Still.refl k)
  exact Post.bind_any fun b _ => Post.pure (still_io _)

/-- What a round of the loop over the items leaves behind. -/
def ItemOut.Still (k : Kern) : ItemOut → Prop
  | .next k' _ => Kern.Still k k'
  | .done k' => Kern.Still k k'
  | .fault _ => True

theorem mapRound_still (snd rcv : Nat) (l : ItemLoop) :
    Post (k.mapRound A snd rcv l) (ItemOut.Still k) := by
  unfold mapRound
  refine Post.ite (fun _ => Post.error) fun _ => Post.ite (fun _ => ?_) fun _ =>
    Post.ite (fun _ => Post.ok (still_upd fun _ => rfl)) fun _ => ?_
  · refine Post.bind (givePorts_still _ _ _) fun k₁ h₁ => Post.bind_any fun _ _ =>
      Post.bind (dropPorts_still _ _ _) fun k₂ h₂ => Post.pure ?_
    exact (h₁.trans h₂).trans (still_upd fun _ => rfl)
  · split
    · exact Post.ok trivial
    · exact Post.bind (mapMem_still _ _ _ _) fun k₁ h₁ => Post.pure h₁

theorem overflow_still (snd rcv tag copied : Nat) : Still k (k.overflow A snd rcv tag copied) := by
  refine (still_upd ?_).trans (still_upd ?_)
  · exact fun _ => rfl
  · exact fun _ => rfl

theorem stringRound_still (snd rcv : Nat) (l : ItemLoop) :
    Post (k.stringRound A kioSz snd rcv l) (ItemOut.Still k) := by
  unfold stringRound
  refine Post.ensure fun _ => ?_
  split
  · exact Post.error
  · refine Post.ensure fun _ => Post.ensure fun _ => Post.bind_any fun m _ => ?_
    have hcopy : ∀ i item, Still k (({ k with mem := m } : Kern).upd rcv (Thread.setItem i item)) :=
      fun i item => (still_mem m).trans (still_upd fun _ => rfl)
    refine Post.ite (fun _ => Post.pure ?_) fun _ => ?_
    · exact (hcopy _ _).trans (overflow_still _ _ _ _)
    · exact Post.ensure fun _ => Post.ensure fun _ => Post.pure (hcopy _ _)

theorem itemRound_still (snd rcv : Nat) (l : ItemLoop) :
    Post (k.itemRound A kioSz snd rcv l) (ItemOut.Still k) := by
  unfold itemRound
  refine Post.ensure fun _ => Post.ite (fun _ => mapRound_still _ _ _) fun _ =>
    Post.ite (fun _ => stringRound_still _ _ _) fun _ => Post.error

theorem itemLoop_still (snd rcv : Nat) : ∀ (n : Nat) (k : Kern) (l : ItemLoop),
    Post (itemLoop A kioSz snd rcv n k l) fun r => Still k r.1 := by
  intro n
  induction n with
  | zero =>
    intro k l
    unfold itemLoop
    exact Post.ite (fun _ => Post.ok (Still.refl k)) fun _ => Post.error
  | succ n ih =>
    intro k l
    unfold itemLoop
    refine Post.ite (fun _ => Post.ok (Still.refl k)) fun _ =>
      Post.bind (itemRound_still snd rcv l) fun out hout => ?_
    cases out with
    | next k₁ l₁ => exact (ih k₁ l₁).mono fun r hr => hout.trans hr
    | done k₁ => exact Post.pure hout
    | fault l₁ => exact Post.pure (Still.refl k)

/-- **The transfer of a message** changes UTCBs, memory and ports only. -/
theorem doNormalIpc_still (snd rcv : Nat) (f : Flags) :
    Post (k.doNormalIpc A kioSz snd rcv f) fun r => Still k r.1 := by
  unfold doNormalIpc
  refine Post.ensure fun _ => (itemLoop_still snd rcv _ _ _).mono fun r hr => ?_
  refine (still_upd ?_).trans hr
  exact fun _ => rfl

theorem resumeItems_still (snd rcv : Nat) (l : ItemLoop) :
    Post (k.resumeItems A kioSz snd rcv l) fun r => Still k r.1 := by
  unfold resumeItems
  split
  · exact Post.error
  · refine Post.bind (mapMem_still _ _ _ _) fun k₁ h₁ => ?_
    exact (itemLoop_still snd rcv _ _ _).mono fun r hr => h₁.trans hr

/-! ## Calm pieces -/

/-- Interrupts and their messages are as before, threads keep their identity, none but `x` has started
to wait in `Receive_ipc`, and every new wake-up satisfies `P`. -/
structure Calm (P : Wake → Prop) (x : Option Nat) (k k' : Kern) : Prop where
  wakes : ∀ w ∈ k'.hist.wakes, w ∈ k.hist.wakes ∨ P w
  ints : k'.ints = k.ints
  intc : k'.intc = k.intc
  raised : k'.hist.raised = k.hist.raised
  irqMsgs : k'.hist.irqMsgs = k.hist.irqMsgs
  ident : ∀ u, (k'.ts.thr u).ident = (k.ts.thr u).ident
  recv : ∀ u, x ≠ some u → (k'.ts.thr u).state = .receiveIpc →
    (k.ts.thr u).state = .receiveIpc ∧ (k'.ts.thr u).fromSpec = (k.ts.thr u).fromSpec

theorem Calm.mono (h : Calm P x k k') (hPQ : ∀ w, P w → Q w) : Calm Q x k k' :=
  { h with wakes := fun w hw => (h.wakes w hw).imp_right (hPQ w) }

theorem Calm.but (h : Calm P none k k') : Calm P x k k' :=
  { h with recv := fun u _ => h.recv u nofun }

theorem Calm.refl (P : Wake → Prop) (x : Option Nat) (k : Kern) : Calm P x k k :=
  ⟨fun _ => .inl, rfl, rfl, rfl, rfl, fun _ => rfl, fun _ _ h => ⟨h, rfl⟩⟩

theorem Calm.trans (h : Calm P x k k₁) (h' : Calm P x k₁ k₂) : Calm P x k k₂ where
  wakes := fun w hw => (h'.wakes w hw).elim (h.wakes w) .inr
  ints := h'.ints.trans h.ints
  intc := h'.intc.trans h.intc
  raised := h'.raised.trans h.raised
  irqMsgs := h'.irqMsgs.trans h.irqMsgs
  ident := fun u => (h'.ident u).trans (h.ident u)
  recv := fun u hx hu =>
    have h1 := h'.recv u hx hu
    have h2 := h.recv u hx h1.1
    ⟨h2.1, h1.2.trans h2.2⟩

theorem Still.calm (h : Still k k') : Calm P x k k' where
  wakes := by rw [h.hist]; exact fun _ => .inl
  ints := h.ints
  intc := h.intc
  raised := by rw [h.hist]
  irqMsgs := by rw [h.hist]
  ident := fun u => Thread.ident_of_core (h.core u)
  recv := fun u _ hu =>
    ⟨Thread.state_of_core (h.core u) ▸ hu, Thread.fromSpec_of_core (h.core u)⟩

/-- A change of the threads that is none of their bare threads. -/
theorem calm_bare {ts : Threads} (h : Threads.SameBare k.ts ts) (cur : Nat)
    (stack : Nat → List Frame) :
    Calm P x k { k with ts := ts, current := cur, stack := stack } where
  wakes := fun _ => .inl
  ints := rfl
  intc := rfl
  raised := rfl
  irqMsgs := rfl
  ident := fun u => Thread.ident_of_bare (h u)
  recv := fun u _ hu => ⟨(Thread.state_of_bare (h u)).symm.trans hu, Thread.fromSpec_of_bare (h u)⟩

theorem push_calm (fs : List Frame) : Calm P x k (k.push fs) :=
  calm_bare (Threads.SameBare.refl _) _ _

theorem noteFaultTo_calm (f t : Nat) : Calm P x k (k.noteFaultTo f t) :=
  ⟨fun _ => .inl, rfl, rfl, rfl, rfl, fun _ => rfl, fun _ _ h => ⟨h, rfl⟩⟩

/-- A write that keeps the identity; the thread may be exempt. -/
theorem upd_calm {f : Thread → Thread} (hid : ∀ th, (f th).ident = th.ident)
    (hrecv : x ≠ some t → ∀ th, (f th).state = th.state ∧ (f th).fromSpec = th.fromSpec) :
    Calm P x k (k.upd t f) := by
  refine ⟨fun _ => .inl, rfl, rfl, rfl, rfl, fun u => ?_, fun u hx hu => ?_⟩
  · rw [upd_ts]
    by_cases hu : u = t
    · subst hu
      rw [Threads.thr_upd_self, hid]
    · rw [Threads.thr_upd_ne _ hu]
  · rw [upd_ts] at hu ⊢
    by_cases hut : u = t
    · subst hut
      rw [Threads.thr_upd_self] at hu ⊢
      exact ⟨(hrecv hx _).1.symm.trans hu, (hrecv hx _).2⟩
    · rw [Threads.thr_upd_ne _ hut] at hu ⊢
      exact ⟨hu, rfl⟩

/-- Two writes to the exempt thread. -/
theorem upd_upd_calm {f g : Thread → Thread} (hf : ∀ th, (f th).ident = th.ident)
    (hg : ∀ th, (g th).ident = th.ident) : Calm P (some t) k ((k.upd t f).upd t g) :=
  (upd_calm hf fun h => absurd rfl h).trans (upd_calm hg fun h => absurd rfl h)

theorem ident_entered (s : TState) (th : Thread) : (Threads.entered s th).ident = th.ident := by
  unfold Threads.entered
  split_ifs <;> rfl

theorem state_entered (s : TState) (th : Thread) : (Threads.entered s th).state = s := by
  unfold Threads.entered
  split_ifs <;> rfl

/-- The thread enters a state; only in `Receive_ipc` it is exempt. -/
theorem calm_setState {ts : Threads} {s : TState} (h : Calm P (some t) k k₁)
    (hx : x = some t ∨ x = none ∧ s ≠ .receiveIpc)
    (hts : k₁.ts.setState A (k₁.curTask) t s = .ok ts) :
    Calm P x k { k₁ with ts := ts } := by
  have hbare := Threads.setState_bare hts
  refine ⟨h.wakes, h.ints, h.intc, h.raised, h.irqMsgs, fun u => ?_, fun u hxu hu => ?_⟩
  · rw [← h.ident u]
    have hb := hbare u
    by_cases hut : u = t
    · subst hut
      rw [if_pos rfl] at hb
      exact (Thread.ident_of_bare hb).trans (ident_entered s _)
    · rw [if_neg hut] at hb
      exact Thread.ident_of_bare hb
  · have hb := hbare u
    by_cases hut : u = t
    · subst hut
      rw [if_pos rfl] at hb
      rcases hx with rfl | ⟨-, hs⟩
      · exact absurd rfl hxu
      · have hst := (Thread.state_of_bare hb).symm.trans hu
        exact absurd ((state_entered s _).symm.trans hst) hs
    · rw [if_neg hut] at hb
      have h1 := h.recv u (fun he => hut (Option.some.inj he).symm)
        ((Thread.state_of_bare hb).symm.trans hu)
      exact ⟨h1.1, (Thread.fromSpec_of_bare hb).trans h1.2⟩

theorem setState_calm {s : TState} (h : Calm P (some t) k k₁) (hs : s ≠ .receiveIpc) :
    Post (k₁.setState A t s) (Calm P none k) := by
  unfold setState
  exact Post.bind_any fun ts hts => Post.pure (calm_setState h (.inr ⟨rfl, hs⟩) hts)

/-- The record of a wake-up. -/
def wakeOf (k : Kern) (t : Nat) (source : Source) : Wake :=
  ⟨t, (k.ts.thr t).ident, (k.ts.thr t).state, (k.ts.thr t).fromSpec, k.hist.faultTo t, source⟩

theorem Still.wakeOf (h : Still k k') (t : Nat) (source : Source) :
    k'.wakeOf t source = k.wakeOf t source := by
  unfold Kern.wakeOf
  rw [h.hist, Thread.ident_of_core (h.core t), Thread.state_of_core (h.core t),
    Thread.fromSpec_of_core (h.core t)]

theorem wake_calm (t : Nat) (source : Source) :
    Post (k.wake A t source) (Calm (· = k.wakeOf t source) none k) := by
  intro k' hok
  obtain ⟨ts, hts, rfl⟩ := wake_eq_ok hok
  have h := calm_setState (P := (· = k.wakeOf t source)) (x := none)
    (Calm.refl _ (some t) k) (.inr ⟨rfl, by decide⟩) hts
  refine ⟨fun w hw => ?_, h.ints, h.intc, h.raised, h.irqMsgs, h.ident, h.recv⟩
  rcases List.mem_cons.mp hw with rfl | hw
  · exact .inr rfl
  · exact .inl hw

/-- Waking a thread behind a transfer. -/
theorem wake_calm_of_still (h : Still k k₁) (t : Nat) (source : Source) :
    Post (k₁.wake A t source) (Calm (· = k.wakeOf t source) none k) := by
  rw [← h.wakeOf]
  exact (wake_calm t source).mono fun k' h' => h.calm.trans h'

theorem wakeUnlessReady_calm (h : Still k k₁) (t : Nat) (source : Source) :
    Post (k₁.wakeUnlessReady A t source)
      (Calm (fun w => w = k.wakeOf t source ∧ w.was ≠ .ready) none k) := by
  unfold wakeUnlessReady
  refine Post.ite (fun _ => Post.ok h.calm) fun hne => ?_
  refine (wake_calm_of_still h t source).mono fun k' h' => h'.mono fun w hw => ⟨hw, ?_⟩
  rw [hw, ← h.wakeOf]
  exact hne

theorem switchTo_calm (nxt : Nat) : Calm P x k (k.switchTo nxt now) := by
  have hbare : ∀ u, ((k.switchTo nxt now).ts.thr u).bare = (k.ts.thr u).bare := fun u =>
    (switchTo_thr nxt u).1
  refine ⟨?_, ?_, ?_, ?_, ?_, fun u => Thread.ident_of_bare (hbare u), fun u _ hu =>
    ⟨(Thread.state_of_bare (hbare u)).symm.trans hu, Thread.fromSpec_of_bare (hbare u)⟩⟩
  · unfold switchTo
    split_ifs <;> exact fun _ => .inl
  all_goals
    unfold switchTo
    split_ifs <;> rfl

theorem switchToNext_calm (h : Calm P x k k₁) : Post (k₁.switchToNext now) (Calm P x k) := by
  unfold switchToNext
  refine Post.bind_any fun r hr => Post.pure ?_
  exact (h.trans (calm_bare (Threads.getHighest_bare hr) k₁.current k₁.stack)).trans
    (switchTo_calm _)

theorem endIpc_calm (sp rp : Option Nat) : Post (k.endIpc sp rp now) (Calm P x k) := by
  unfold endIpc
  refine Post.ensure fun _ => Post.ensure fun _ => Post.pure ?_
  split_ifs
  · split
    · exact switchTo_calm _
    · exact Calm.refl P x k
  · split
    · exact switchTo_calm _
    · exact Calm.refl P x k
  · exact Calm.refl P x k

theorem fail_calm (call : IpcCall) (phase error : Nat) : Calm P x k (k.fail A call phase error) :=
  upd_calm (fun _ => rfl) fun _ _ => ⟨rfl, rfl⟩

theorem lendTo_bare {ts ts' : Threads} {dst : Nat} (hok : lendTo ts t dst = .ok ts') :
    Threads.SameBare ts ts' := by
  unfold lendTo at hok
  split_ifs at hok
  · obtain rfl := Except.ok.inj hok
    exact Threads.SameBare.refl ts
  · exact Threads.inheritPrio_bare hok

/-- The bare thread of one thread changes: its identity stays, and in `Receive_ipc` it is exempt. -/
theorem calm_bareBut {ts : Threads} {th : Thread}
    (hb : ∀ u, (ts.thr u).bare = if u = t then th.bare else (k.ts.thr u).bare)
    (hid : th.ident = (k.ts.thr t).ident) (hx : x = some t ∨ th.state ≠ .receiveIpc) :
    Calm P x k { k with ts := ts } := by
  refine ⟨fun _ => .inl, rfl, rfl, rfl, rfl, fun u => ?_, fun u hxu hu => ?_⟩
  · have hbu := hb u
    by_cases hut : u = t
    · subst hut
      rw [if_pos rfl] at hbu
      exact (Thread.ident_of_bare hbu).trans hid
    · rw [if_neg hut] at hbu
      exact Thread.ident_of_bare hbu
  · have hbu := hb u
    by_cases hut : u = t
    · subst hut
      rw [if_pos rfl] at hbu
      rcases hx with rfl | hs
      · exact absurd rfl hxu
      · exact absurd ((Thread.state_of_bare hbu).symm.trans hu) hs
    · rw [if_neg hut] at hbu
      exact ⟨(Thread.state_of_bare hbu).symm.trans hu, Thread.fromSpec_of_bare hbu⟩

theorem waitSend_calm (call : IpcCall) (dst : Nat) :
    Post (k.waitSend A call dst now) (Calm P x k) := by
  unfold waitSend
  refine Post.bind_any fun ts₁ h₁ => Post.bind_any fun ts₂ h₂ => ?_
  have hlend : Calm P x k { k.push [.receive call none] with ts := ts₁ } :=
    (push_calm _).trans (calm_bare (lendTo_bare h₁) _ _)
  refine switchToNext_calm (hlend.trans (calm_bareBut (Threads.saveSndPhase_bare h₂) ?_ ?_))
  · rfl
  · exact .inr nofun

/-- The running thread waits for `spec`, everything else is calm. -/
structure Waits (P : Wake → Prop) (spec : Nat) (k k' : Kern) : Prop where
  calm : Calm P (some k.current) k k'
  spec : (k'.ts.thr k.current).state = .receiveIpc → (k'.ts.thr k.current).fromSpec = spec

theorem waitRecv_waits (call : IpcCall) (fs : List Frame) :
    Post (k.waitRecv A call fs now) (Waits P call.fromSpec k) := by
  unfold waitRecv
  refine Post.bind_any fun ts hts => ?_
  have hbare := Threads.saveRcvPhase_bare hts
  have hcalm : Calm P (some k.current) k { k.push fs with ts := ts } :=
    (push_calm fs).trans (calm_bareBut hbare rfl (.inl rfl))
  intro k' hok
  refine ⟨switchToNext_calm hcalm k' hok, fun _ => ?_⟩
  have hlast : Calm P none { k.push fs with ts := ts } k' :=
    switchToNext_calm (Calm.refl P none _) k' hok
  have hspec := (hlast.recv k.current nofun ‹_›).2
  rw [hspec]
  have hb := hbare k.current
  rw [if_pos (show k.current = (k.push fs).current from rfl)] at hb
  exact (Thread.fromSpec_of_bare hb).trans rfl

theorem startThread_calm (dst : Nat) : Post (k.startThread A dst) (Calm P none k) := by
  unfold startThread
  refine Post.ite (fun _ => setState_calm (Calm.refl P _ k) (by decide)) fun _ => ?_
  refine Post.ensure fun _ => Post.ensure fun _ => Post.bind_any fun pager _ =>
    Post.bind_any fun sched _ => Post.ensure fun _ => ?_
  refine setState_calm (upd_calm (fun _ => rfl) fun h => absurd rfl h) (by decide)

/-! ## Faults -/

/-- **`process_pfault`**: the pager is woken if it waits in `Receive_ipc`, whatever it waits for. -/
theorem processPfault_calm (f addr access inst : Nat) :
    Post (k.processPfault A f addr access inst now) (Calm (fun w => ∃ pgr,
      (k.ts.thr f).pager = some pgr ∧ (k.ts.thr pgr).state = .receiveIpc ∧
      w = k.wakeOf pgr (.fault (k.ts.thr f).ident)) none k) := by
  unfold processPfault
  split
  · exact Post.error
  · rename_i pgr hpgr
    dsimp only
    refine Post.ite (fun hstate => Post.ensure fun _ => ?_) fun _ => ?_
    · have hmsg : Still k (k.upd pgr (Thread.pfaultMsg A (k.ts.thr f).globid addr access inst)) :=
        still_upd (Thread.core_pfaultMsg A _ _ _ _)
      refine Post.bind (wake_calm_of_still hmsg pgr (.fault (k.ts.thr f).ident)) fun k₁ h₁ => ?_
      have h₁ := h₁.mono (Q := fun w => ∃ pgr, (k.ts.thr f).pager = some pgr ∧
        (k.ts.thr pgr).state = .receiveIpc ∧ w = k.wakeOf pgr (.fault (k.ts.thr f).ident))
        fun w hw => ⟨pgr, hpgr, hstate, hw⟩
      refine Post.bind (setState_calm (h₁.but.trans ?_) (by decide)) fun k₂ h₂ => Post.pure ?_
      · exact upd_upd_calm (fun _ => rfl) fun _ => rfl
      · exact (h₂.trans (noteFaultTo_calm f pgr)).trans (switchTo_calm _)
    · refine Post.bind (setState_calm ?_ (by decide)) fun k₁ h₁ => switchToNext_calm h₁
      exact upd_upd_calm (fun _ => rfl) fun _ => rfl

/-- **`process_exception`**: the handler is woken if it waits in `Receive_ipc`, whatever it waits
for. -/
theorem processException_calm (f type pf : Nat) :
    Post (k.processException A f type pf now) (Calm (fun w => ∃ exh,
      k.excHandler A f = .ok exh ∧ (k.ts.thr exh).state = .receiveIpc ∧
      w = k.wakeOf exh (.fault (k.ts.thr f).ident)) none k) := by
  unfold processException
  refine Post.bind_any fun exh hexh => Post.ite (fun hstate => Post.ensure fun _ => ?_) fun _ => ?_
  · have hmsg : Still k (k.upd exh (Thread.excMsg A (k.ts.thr f) type pf)) :=
      still_upd fun _ => rfl
    refine Post.bind (wake_calm_of_still hmsg exh (.fault (k.ts.thr f).ident)) fun k₁ h₁ => ?_
    have h₁ := h₁.mono (Q := fun w => ∃ exh, k.excHandler A f = .ok exh ∧
      (k.ts.thr exh).state = .receiveIpc ∧ w = k.wakeOf exh (.fault (k.ts.thr f).ident))
      fun w hw => ⟨exh, hexh, hstate, hw⟩
    refine Post.bind (setState_calm (h₁.but.trans ?_) (by decide)) fun k₂ h₂ => Post.pure ?_
    · exact upd_calm (fun _ => rfl) fun h => absurd rfl h
    · exact (h₂.trans (noteFaultTo_calm f exh)).trans (switchTo_calm _)
  · refine Post.bind (setState_calm ?_ (by decide)) fun k₁ h₁ => switchToNext_calm h₁
    exact upd_upd_calm (fun _ => rfl) fun _ => rfl

/-! ## The send phase -/

/-- Behind a transfer, the receiver is woken unless it is ready, or memory of the sender is missing. -/
theorem afterSend_calm (call : IpcCall) (dst sender : Nat) {r : Kern × Option ItemLoop}
    (h : Still k r.1) :
    Post (afterSend A call dst sender r) (Calm (fun w =>
      w = k.wakeOf dst (.message (k.ts.thr sender).ident) ∧ w.was ≠ .ready) none k) := by
  obtain ⟨k₁, l⟩ := r
  cases l with
  | some l => exact Post.ok (h.calm.trans (push_calm _))
  | none =>
    rw [← Thread.ident_of_core (h.core sender)]
    refine Post.bind (wakeUnlessReady_calm h dst _) fun k₂ h₂ => Post.pure ?_
    exact h₂.trans (push_calm _)

theorem replyMem_calm (call : IpcCall) (dst fp : Nat) :
    Post (k.replyMem A call dst fp) (Calm (· = k.wakeOf dst (.reply k.current)) none k) := by
  unfold replyMem
  refine Post.bind_any fun m _ => Post.bind (wake_calm_of_still (still_mem m) dst _) fun k₁ h₁ =>
    Post.pure ?_
  exact h₁.trans (push_calm _)

theorem pfReply_calm (call : IpcCall) (dst : Nat) :
    Post (k.pfReply A call dst) (Calm (· = k.wakeOf dst (.reply k.current)) none k) := by
  unfold pfReply
  refine Post.ensure fun _ => Post.ite (fun _ => Post.pure (push_calm _)) fun _ =>
    Post.ite (fun _ => ?_) fun _ => Post.ite (fun _ => ?_) fun _ =>
    Post.ite (fun _ => replyMem_calm call dst _) fun _ => Post.pure (push_calm _)
  · refine Post.bind (givePorts_still _ _ _) fun k₁ h₁ => Post.bind (dropPorts_still _ _ _)
      fun k₂ h₂ => ?_
    have hstill := h₁.trans h₂
    rw [hstill.current]
    refine Post.bind (wake_calm_of_still hstill dst _) fun k₃ h₃ => Post.pure ?_
    exact h₃.trans (push_calm _)
  · refine Post.bind (wake_calm dst _) fun k₁ h₁ => Post.pure ?_
    exact h₁.trans (push_calm _)

theorem resumeReply_calm (call : IpcCall) (dst fp : Nat) :
    Post (k.resumeReply A call dst fp) (Calm (· = k.wakeOf dst (.reply k.current)) none k) := by
  unfold resumeReply
  exact Post.ite (fun _ => replyMem_calm call dst fp) fun _ => Post.error

theorem excReply_calm (call : IpcCall) (dst : Nat) :
    Post (k.excReply A call dst) (Calm (· = k.wakeOf dst (.reply k.current)) none k) := by
  unfold excReply
  refine Post.bind (P := Calm (· = k.wakeOf dst (.reply k.current)) none k) ?_ fun k₁ h₁ =>
    Post.pure (h₁.trans (push_calm _))
  -- the entry frame is written before the thread is woken
  have hframe : (k.upd dst (Thread.setFrame A (k.ts.thr k.current).utcb.mr)).wakeOf dst
      (.reply k.current) = k.wakeOf dst (.reply k.current) := by
    simp [wakeOf, upd, Threads.thr_upd_self, Thread.setFrame, Thread.ident]
  rw [← hframe]
  refine (wake_calm dst _).mono fun k₁ h₁ => Calm.trans ?_ h₁
  exact upd_calm (fun _ => rfl) fun _ _ => ⟨rfl, rfl⟩

theorem signal_calm (call : IpcCall) (dst : Nat) :
    Post (k.signal A call dst) (Calm (fun w => ((k.ts.thr dst).state = .receiveIpc ∧
      (k.ts.thr dst).fromSpec = (k.ts.thr dst).globid) ∧ w = k.wakeOf dst .signal) none k) := by
  unfold signal
  refine Post.ensure fun _ => Post.ite (fun hs => ?_) fun _ => Post.pure ?_
  · have hfrom : Still k (k.upd dst (Thread.setFrom (k.ts.thr dst).globid)) :=
      still_upd fun _ => rfl
    refine Post.bind (wake_calm_of_still hfrom dst _) fun k₁ h₁ => Post.pure ?_
    exact (h₁.mono fun w hw => ⟨hs, hw⟩).trans (push_calm _)
  · refine Calm.trans ?_ (push_calm _)
    exact upd_calm (fun _ => rfl) fun _ _ => ⟨rfl, rfl⟩

/-- **A normal message** wakes a thread that waits in `Receive_ipc` and admits the sender. -/
theorem sendNormal_calm (call : IpcCall) (dst : Nat) :
    Post (k.sendNormal A kioSz call dst now) (Calm (fun w => ∃ sender,
      k.takesNow A dst sender = true ∧
      w = k.wakeOf dst (.message (k.ts.thr sender).ident)) none k) := by
  unfold sendNormal
  refine Post.bind_any fun s _ => Post.ensure fun _ => Post.ite (fun htakes => ?_) fun _ =>
    Post.ite (fun _ => Post.pure (fail_calm _ _ _)) fun _ => waitSend_calm _ _
  refine Post.bind (doNormalIpc_still _ _ _) fun r hr => ?_
  exact (afterSend_calm call dst s.1 hr).mono fun k' h' => h'.mono fun w hw =>
    ⟨s.1, htakes, hw.1⟩

/-- What wakes `dst` in the send phase to it. -/
def SendWake (A : Arch) (k : Kern) (call : IpcCall) (dst : Nat) (w : Wake) : Prop :=
  ((k.ts.thr dst).state = .receivePfault ∧ Tag.isPfReply A call.tag = true ∨
      (k.ts.thr dst).state = .receiveException ∧ Tag.isExcReply A call.tag = true) ∧
    w = k.wakeOf dst (.reply k.current) ∨
  ((k.ts.thr dst).state = .receiveIpc ∧ (k.ts.thr dst).fromSpec = (k.ts.thr dst).globid) ∧
    w = k.wakeOf dst .signal ∨
  ∃ sender, k.takesNow A dst sender = true ∧ w = k.wakeOf dst (.message (k.ts.thr sender).ident)

theorem sendTo_calm (call : IpcCall) (dst : Nat) :
    Post (k.sendTo A kioSz call dst now) (Calm (k.SendWake A call dst) none k) := by
  unfold sendTo
  refine Post.ite (fun _ => ?_) fun _ => Post.ite (fun _ => Post.error) fun _ =>
    Post.ite (fun hpf => ?_) fun _ => Post.ite (fun hexc => ?_) fun _ =>
    Post.ite (fun _ => ?_) fun _ => ?_
  · exact Post.bind (startThread_calm dst) fun k₁ h₁ => Post.pure (h₁.trans (push_calm _))
  · exact (pfReply_calm call dst).mono fun k' h => h.mono fun w hw => .inl ⟨.inl hpf, hw⟩
  · exact (excReply_calm call dst).mono fun k' h => h.mono fun w hw => .inl ⟨.inr hexc, hw⟩
  · exact (signal_calm call dst).mono fun k' h => h.mono fun w hw => .inr (.inl hw)
  · exact (sendNormal_calm call dst).mono fun k' h => h.mono fun w hw => .inr (.inr hw)

/-- The call of `do_ipc` that the running thread makes with these arguments. -/
def callOf (A : Arch) (k : Kern) (toId fromSpec timeouts : Nat) : IpcCall :=
  ⟨toId, fromSpec, timeouts, Tag.setError A ((k.ts.thr k.current).utcb.mr 0) 0⟩

/-- The state behind the first lines of `do_ipc`, which clear the error bit of the tag. -/
def tagged (A : Arch) (k : Kern) : Kern :=
  k.upd k.current (Thread.setMr 0 (Tag.setError A ((k.ts.thr k.current).utcb.mr 0) 0))

theorem tagged_still : Still k (k.tagged A) := still_upd fun _ => rfl

theorem tagged_thr (u : Nat) : ((k.tagged A).ts.thr u).core = (k.ts.thr u).core :=
  tagged_still.core u

/-- **`do_ipc` up to the receive phase** re-enables an interrupt, or it is calm. -/
theorem ipcEntry_cases {toId fromSpec timeouts : Nat}
    (hok : k.ipcEntry A kioSz toId fromSpec timeouts now = .ok k') :
    (Thrid.isInt A toId = true ∧
        (k.tagged A).reenable A (k.callOf A toId fromSpec timeouts) = .ok k') ∨
      Calm (fun w => ∃ dst, (k.tagged A).ts.find A k.curTask toId = .ok (some dst) ∧
        (k.tagged A).SendWake A (k.callOf A toId fromSpec timeouts) dst w) none k k' := by
  have hcur : (k.tagged A).curTask = k.curTask := by
    unfold curTask
    exact congrArg Ident.task (Thread.ident_of_core (tagged_thr (A := A) k.current))
  change (if toId = Thrid.nil then
      pure ((k.tagged A).push [.receive (k.callOf A toId fromSpec timeouts) none])
    else if Thrid.isInt A toId = true ∧ Tag.untyped A (k.callOf A toId fromSpec timeouts).tag = 1 then
      (k.tagged A).reenable A (k.callOf A toId fromSpec timeouts)
    else _) = _ at hok
  split_ifs at hok with hnil hint
  · obtain rfl := Except.ok.inj hok
    exact .inr (tagged_still.calm.trans (push_calm _))
  · exact .inl ⟨hint.1, hok⟩
  · obtain ⟨dst, hfind, hok⟩ := bind_eq_ok.mp hok
    rw [show ((k.upd k.current (Thread.setMr 0 _)).curTask) = k.curTask from hcur] at hfind
    refine .inr ?_
    split at hok
    · obtain rfl := Except.ok.inj hok
      exact tagged_still.calm.trans (fail_calm _ _ _)
    · rename_i dst' hdst
      obtain ⟨rfl, -⟩ := Option.filter_eq_some_iff.mp hdst
      exact tagged_still.calm.trans ((sendTo_calm _ dst' k' hok).mono fun w hw => ⟨dst', hfind, hw⟩)

/-- The interrupt re-enable message, taken apart. -/
theorem reenable_cases {call : IpcCall} (hok : k.reenable A call = .ok k') :
    (k.ts.thr k.current).globid ≠ (k.ints (Thrid.number A call.toId)).handler ∧
        k' = k.fail A call 0 2 ∨
      (k.ts.thr k.current).globid = (k.ints (Thrid.number A call.toId)).handler ∧
        ∃ c k₁, clearIf k.intc (Thrid.number A call.toId)
            ((k.ts.thr k.current).utcb.mr 1 % 2 == 1) = .ok c ∧
          k.rearm c (Thrid.number A call.toId) = .ok k₁ ∧ k' = k₁.push [.receive call none] := by
  unfold reenable at hok
  dsimp only at hok
  split_ifs at hok with hne
  · exact .inl ⟨hne, (Except.ok.inj hok).symm⟩
  · obtain ⟨c₀, heoi, hrest⟩ := bind_eq_ok.mp hok
    obtain ⟨c, hclear, hrest⟩ := bind_eq_ok.mp hrest
    obtain ⟨k₁, hrearm, hlast⟩ := bind_eq_ok.mp hrest
    obtain ⟨-, heoi⟩ := ensure_bind_eq_ok.mp heoi
    rw [← Except.ok.inj heoi] at hclear
    exact .inr ⟨not_not.mp hne, c, k₁, hclear, hrearm, (Except.ok.inj hlast).symm⟩

/-- The end of the re-enable message: the interrupt becomes pending, or its line is unmasked. -/
theorem rearm_cases {c : Intc} {irq : Nat} (hok : k.rearm c irq = .ok k') :
    c.pending irq = true ∧ k' = ({ k with intc := { c with
        pending := Function.update c.pending irq false } } : Kern).setPending irq true ∨
      c.pending irq = false ∧ k' = { k with intc := { c with
        masked := Function.update c.masked irq false } } := by
  unfold rearm at hok
  split_ifs at hok with hp
  · obtain ⟨c', hc, hlast⟩ := bind_eq_ok.mp hok
    obtain ⟨-, hc⟩ := ensure_bind_eq_ok.mp hc
    rw [← Except.ok.inj hc] at hlast
    exact .inl ⟨hp, (Except.ok.inj hlast).symm⟩
  · obtain ⟨c', hc, hlast⟩ := bind_eq_ok.mp hok
    obtain ⟨-, hc⟩ := ensure_bind_eq_ok.mp hc
    rw [← Except.ok.inj hc] at hlast
    exact .inr ⟨by simpa using hp, (Except.ok.inj hlast).symm⟩

/-! ## The receive phase -/

/-- A sender whose message is taken is woken behind the transfer. -/
def TakeWake (k : Kern) (w : Wake) : Prop :=
  ∃ snd, (k.ts.thr snd).state = .sendIpc ∧ w = k.wakeOf snd .transfer

theorem afterRecv_calm (call : IpcCall) (sp : Option Nat) (snd : Nat) {r : Kern × Option ItemLoop}
    (h : Still k r.1) :
    Post (afterRecv A call sp snd now r) (Calm (fun w =>
      w = k.wakeOf snd .transfer ∧ w.was ≠ .ready) none k) := by
  obtain ⟨k₁, l⟩ := r
  cases l with
  | some l => exact Post.ok (h.calm.trans (push_calm _))
  | none =>
    refine Post.bind (wakeUnlessReady_calm h snd _) fun k₂ h₂ => ?_
    exact (endIpc_calm sp (some snd)).mono fun k₃ h₃ => h₂.trans h₃

/-- A fault message that is taken: the sender goes on waiting, for the reply. -/
theorem takeFault_calm {f : Thread → Thread} {s : TState} (sp : Option Nat) (snd : Nat)
    (hf : ∀ th, (f th).core = th.core) (hs : s ≠ .receiveIpc) :
    Post ((k.upd k.current f).setState A snd s >>= fun k₁ =>
      (k₁.noteFaultTo snd k₁.current).endIpc sp (some snd) now) (Calm P none k) := by
  have hmsg : Calm P (some snd) k (k.upd k.current f) := (still_upd hf).calm
  refine Post.bind (setState_calm hmsg hs) fun k₁ h₁ => ?_
  exact (endIpc_calm sp (some snd)).mono fun k₂ h₂ => (h₁.trans (noteFaultTo_calm _ _)).trans h₂

theorem takeFrom_calm (call : IpcCall) (sp : Option Nat) (snd : Nat) (f : Flags) :
    Post (k.takeFrom A kioSz call sp snd f now) (Calm k.TakeWake none k) := by
  unfold takeFrom
  dsimp only
  split
  · exact Post.ensure fun _ => takeFault_calm sp snd (Thread.core_pfaultMsg A _ _ _ _) (by decide)
  · exact Post.ensure fun _ => takeFault_calm sp snd (fun _ => rfl) (by decide)
  · rename_i hstate
    refine Post.bind (doNormalIpc_still _ _ _) fun r hr => ?_
    exact (afterRecv_calm call sp snd hr).mono fun k' h' => h'.mono fun w hw => ⟨snd, hstate, hw.1⟩
  · exact Post.error

theorem waitForThread_waits (call : IpcCall) :
    Post (k.waitForThread A call now) (Waits P call.fromSpec k) := by
  unfold waitForThread
  refine Post.ite (fun _ => Post.bind_any fun r _ => ?_) fun _ => waitRecv_waits _ _
  cases r with
  | none => exact Post.error
  | some u =>
    refine Post.bind_any fun ts hts => ?_
    refine (waitRecv_waits (P := P) call _).mono fun k' h' => ⟨?_, h'.spec⟩
    exact (calm_bare (Threads.inheritPrio_bare hts) k.current k.stack).trans h'.calm

/-- The running thread has taken the interrupt `irq`. -/
def irqTaken (A : Arch) (k : Kern) (call : IpcCall) (irq : Nat) : Kern :=
  let tag := Tag.interrupt A call.tag
  let k := (k.upd k.current (Thread.setMr 0 tag)).upd k.current
    (Thread.setFrom (Thrid.createIrq A irq))
  (k.setPending irq false).noteIrqMsg irq k.current (Thrid.createIrq A irq) tag

/-- **The receive phase** takes a pending interrupt, or it is calm, or the running thread waits, and
then no interrupt that it waits for is pending. -/
theorem recvPhase_cases {call : IpcCall} {sp : Option Nat}
    (hok : k.recvPhase A kioSz call sp now = .ok k') :
    (Thrid.isInt A call.fromSpec = true ∧ k.intPending A call.fromSpec = true ∧
        Calm (fun _ => False) none (k.irqTaken A call (Thrid.number A call.fromSpec)) k') ∨
      Calm k.TakeWake none k k' ∨
      Waits k.TakeWake call.fromSpec k k' ∧
        (Thrid.isInt A call.fromSpec = true → k.intPending A call.fromSpec = false ∨
          call.fromSpec = (k.ts.thr k.current).globid) := by
  unfold recvPhase at hok
  dsimp only at hok
  split_ifs at hok with hnil hsig hint
  · exact .inr (.inl (endIpc_calm sp none k' hok))
  · unfold recvSignal at hok
    dsimp only at hok
    split_ifs at hok
    · refine .inr (.inl (Calm.trans ?_ (endIpc_calm sp none k' hok)))
      refine (upd_calm (f := Thread.setFrom _) ?_ ?_).trans (upd_calm ?_ ?_)
      · exact fun _ => rfl
      · exact fun _ _ => ⟨rfl, rfl⟩
      · exact fun _ => rfl
      · exact fun _ _ => ⟨rfl, rfl⟩
    · exact .inr (.inl ((fail_calm _ _ _).trans (endIpc_calm sp none k' hok)))
    · exact .inr (.inr ⟨waitRecv_waits call _ k' hok, fun _ => .inr hsig.1⟩)
  · unfold recvIrq at hok
    dsimp only at hok
    split_ifs at hok with hpend
    · exact .inl ⟨hint, hpend, endIpc_calm sp none k' hok⟩
    · exact .inr (.inr ⟨waitRecv_waits call _ k' hok, fun _ => .inl (by simpa using hpend)⟩)
  · unfold recvThread at hok
    obtain ⟨r, -, hok⟩ := bind_eq_ok.mp hok
    cases r with
    | some p => exact .inr (.inl (takeFrom_calm call sp p.1 p.2 k' hok))
    | none =>
      dsimp only at hok
      split_ifs at hok
      · exact .inr (.inl ((fail_calm _ _ _).trans (endIpc_calm sp none k' hok)))
      · exact .inr (.inr ⟨waitForThread_waits call k' hok, fun h => absurd h hint⟩)

/-! ## The timer -/

/-- Threads keep their identity, and none has started to wait in `Receive_ipc`. -/
def Quiet (ts ts' : Threads) : Prop :=
  ∀ u, (ts'.thr u).ident = (ts.thr u).ident ∧ ((ts'.thr u).state = .receiveIpc →
    (ts.thr u).state = .receiveIpc ∧ (ts'.thr u).fromSpec = (ts.thr u).fromSpec)

theorem Quiet.trans {ts ts₁ ts₂ : Threads} (h : Quiet ts ts₁) (h' : Quiet ts₁ ts₂) : Quiet ts ts₂ :=
  fun u => ⟨(h' u).1.trans (h u).1, fun hu =>
    have h1 := (h' u).2 hu
    have h2 := (h u).2 h1.1
    ⟨h2.1, h1.2.trans h2.2⟩⟩

theorem Quiet.of_bare {ts ts' : Threads} (h : Threads.SameBare ts ts') : Quiet ts ts' :=
  fun u => ⟨Thread.ident_of_bare (h u), fun hu =>
    ⟨(Thread.state_of_bare (h u)).symm.trans hu, Thread.fromSpec_of_bare (h u)⟩⟩

theorem Quiet.calm {ts : Threads} (h : Quiet k.ts ts) : Calm P x k { k with ts := ts } :=
  ⟨fun _ => .inl, rfl, rfl, rfl, rfl, fun u => (h u).1, fun u _ => (h u).2⟩

/-- A thread that becomes ready, behind a write to its UTCB. -/
theorem quiet_ready {c : Nat} {f : Thread → Thread} {ts ts' : Threads} (hf : ∀ th, (f th).core = th.core)
    (hok : (ts.upd t f).setState A c t .ready = .ok ts') : Quiet ts ts' := by
  intro u
  have hb := Threads.setState_bare hok u
  by_cases hut : u = t
  · subst hut
    rw [if_pos rfl, Threads.thr_upd_self] at hb
    refine ⟨?_, fun hu => ?_⟩
    · rw [Thread.ident_of_bare hb, ident_entered, Thread.ident_of_core (hf _)]
    · have hst := (Thread.state_of_bare hb).symm.trans hu
      rw [state_entered] at hst
      cases hst
  · rw [if_neg hut, Threads.thr_upd_ne _ hut] at hb
    exact ⟨Thread.ident_of_bare hb, fun hu =>
      ⟨(Thread.state_of_bare hb).symm.trans hu, Thread.fromSpec_of_bare hb⟩⟩

theorem expire_quiet {c : Nat} : ∀ {l : List Nat} {next next' : Option Nat} {ts ts' : Threads},
    Threads.expire A c now l next ts = .ok (next', ts') → Quiet ts ts' := by
  intro l
  induction l with
  | nil =>
    intro next next' ts ts' hok
    obtain ⟨-, rfl⟩ := Prod.mk.inj (Except.ok.inj hok)
    exact Quiet.of_bare (Threads.SameBare.refl ts)
  | cons t l ih =>
    intro next next' ts ts' hok
    unfold Threads.expire at hok
    obtain ⟨-, hok⟩ := ensure_bind_eq_ok.mp hok
    by_cases hlt : now < (ts.thr t).timeout
    · rw [if_pos hlt] at hok
      obtain ⟨-, rfl⟩ := Prod.mk.inj (Except.ok.inj hok)
      exact Quiet.of_bare (Threads.SameBare.refl ts)
    · rw [if_neg hlt] at hok
      obtain ⟨ts₁, h₁, hok⟩ := bind_eq_ok.mp hok
      obtain ⟨ts₂, h₂, hok⟩ := bind_eq_ok.mp hok
      have hready : Quiet ts ts₁ := by
        refine quiet_ready ?_ h₁
        exact fun _ => rfl
      exact (hready.trans (Quiet.of_bare (Threads.dropHeir_bare h₂))).trans (ih hok)

theorem checkIpcTimeouts_quiet {c : Nat} {ts ts' : Threads} {next : Option Nat}
    (hok : ts.checkIpcTimeouts A c now = .ok (next, ts')) : Quiet ts ts' := by
  unfold Threads.checkIpcTimeouts at hok
  obtain ⟨⟨n1, ts₁⟩, h₁, hok⟩ := bind_eq_ok.mp hok
  obtain ⟨⟨n2, ts₂⟩, h₂, hok⟩ := bind_eq_ok.mp hok
  have hq := (expire_quiet h₁).trans (expire_quiet h₂)
  dsimp only at hok
  split at hok <;> obtain ⟨-, rfl⟩ := Prod.mk.inj (Except.ok.inj hok) <;> exact hq

theorem checkTimeslice_bare {ts ts' : Threads} {cur : Nat} {next : Option Nat}
    (hok : checkTimeslice ts cur = .ok (next, ts')) : Threads.SameBare ts ts' := by
  unfold checkTimeslice at hok
  split_ifs at hok
  · exact Threads.timesliceExpired_bare hok
  · obtain ⟨-, rfl⟩ := Prod.mk.inj (Except.ok.inj hok)
    exact Threads.SameBare.refl ts

/-- **A tick of the timer** is calm. -/
theorem kernTimerTick_calm : Post (k.kernTimerTick A now) (Calm P x k) := by
  intro k' hok
  obtain ⟨ts₀, next1, ts₁, next2, ts₂, ⟨hbare, -, -⟩, hcheck, hslice, rfl⟩ := tick_eq_ok hok
  have hquiet : Quiet k.ts ts₂ := ((Quiet.of_bare hbare).trans (checkIpcTimeouts_quiet hcheck)).trans
    (Quiet.of_bare (checkTimeslice_bare hslice))
  refine hquiet.calm.trans ?_
  unfold preempt
  dsimp only
  split
  · exact switchTo_calm _
  · exact switchTo_calm _
  · exact Calm.refl P x _

end Kern

end Wrmos
