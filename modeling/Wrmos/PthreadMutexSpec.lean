import Wrmos.PthreadMutex
import Wrmos.SemaphoreSpec

/-!
# Mutexes of the pthread library exclude

A mutex is created by the first thread that locks it, under a look at its magic number that takes no lock.
As long as `malloc` finds memory this is right in every interleaving: each mutex gets one semaphore, no
call reaches a semaphore that is not ready, and at most one thread holds a mutex, if threads unlock what
they hold.

The semaphores exclude by `Excl.step`; what is shown here is that a thread is inside a semaphore exactly
where its place in the two functions says so (`Inv`), so that each post closes the outermost pair of its
thread.
-/

namespace Wrmos

open Lib

namespace SemSys

variable {sems : Nat → Sem} {σ σ' : SemSys} {s t u : Nat} {timeout : Int}

/-! ## What a step does to the threads -/

/-- The thread that acts. -/
def actor : Act → Nat
  | .wait t _ _ | .suspend t | .expire t | .check t | .giveUp t | .post t _ | .signal t => t

/-- Nothing that concerns the thread differs. -/
structure SameAt (σ σ' : SemSys) (u : Nat) : Prop where
  pc : σ'.pc u = σ.pc u
  ret : σ'.ret u = σ.ret u
  depth : σ'.notes.depth u = σ.notes.depth u

/-- The same, or a signal has ended its receive. -/
structure Apart (σ σ' : SemSys) (u : Nat) : Prop where
  pc : σ'.pc u = σ.pc u ∨ ∃ s timeout, σ.pc u = .blocked s timeout ∧ σ'.pc u = .woken s timeout
  ret : σ'.ret u = σ.ret u
  depth : σ'.notes.depth u = σ.notes.depth u

theorem SameAt.apart (h : SameAt σ σ' u) : Apart σ σ' u := ⟨.inl h.pc, h.ret, h.depth⟩

theorem goto_sameAt (hu : u ≠ t) (pc : Pc) : SameAt σ (σ.goto t pc) u :=
  ⟨Function.update_of_ne hu .., rfl, rfl⟩

theorem finish_sameAt (hu : u ≠ t) (rc : Int) : SameAt σ (σ.finish t rc) u :=
  ⟨Function.update_of_ne hu .., Function.update_of_ne hu .., rfl⟩

theorem endWait_sameAt (hu : u ≠ t) (s : Nat) (rc : Int) : SameAt σ (σ.endWait t s rc) u := by
  unfold endWait
  split_ifs
  · exact ⟨Function.update_of_ne hu .., Function.update_of_ne hu .., Function.update_of_ne hu ..⟩
  · exact finish_sameAt hu rc

theorem wait_sameAt (hu : u ≠ t) : SameAt σ (σ.wait t s timeout) u := by
  unfold wait
  split_ifs
  · exact finish_sameAt hu 1
  · split
    · next rc sem _ =>
      have h := endWait_sameAt (σ := σ.setSem s sem) hu s rc
      exact ⟨h.pc, h.ret, h.depth⟩
    · exact ⟨Function.update_of_ne hu .., rfl, rfl⟩

/-- The result of a post, the thread it wakes and what it leaves. -/
theorem post_sameAt (hu : u ≠ t) (hok : σ.post t s = .ok σ') : SameAt σ σ' u := by
  obtain ⟨⟨rc, thr, sem⟩, -, hok⟩ := bind_eq_ok.mp hok
  dsimp only at hok
  split_ifs at hok
  · exact Except.ok.inj hok ▸ finish_sameAt hu rc
  · cases thr with
    | none =>
      rw [← Except.ok.inj hok]
      exact ⟨Function.update_of_ne hu .., Function.update_of_ne hu .., Function.update_of_ne hu ..⟩
    | some thr =>
      rw [← Except.ok.inj hok]
      exact ⟨Function.update_of_ne hu .., rfl, Function.update_of_ne hu ..⟩

theorem signal_apart {thr : Nat} (hu : u ≠ t) (hok : σ.signal t thr = .ok σ') : Apart σ σ' u := by
  obtain ⟨-, hok⟩ := ensure_bind_eq_ok.mp hok
  cases hpc : σ.pc thr with
  | blocked s timeout =>
    rw [hpc] at hok
    rw [← Except.ok.inj hok]
    refine ⟨?_, Function.update_of_ne hu .., rfl⟩
    have hfinish : ((σ.goto thr (.woken s timeout)).finish t 0).pc u =
        (σ.goto thr (.woken s timeout)).pc u := Function.update_of_ne hu ..
    rw [hfinish]
    by_cases hthr : u = thr
    · subst hthr
      exact .inr ⟨s, timeout, hpc, Function.update_self ..⟩
    · exact .inl (Function.update_of_ne hthr ..)
  | _ =>
    rw [hpc] at hok
    rw [← Except.ok.inj hok]
    exact ⟨.inl (Function.update_of_ne hu ..), Function.update_of_ne hu .., rfl⟩

/-- A step leaves the other threads alone, or wakes one of them up. -/
theorem step_apart {a : Act} (hu : u ≠ actor a) (hok : σ.step a = .ok σ') : Apart σ σ' u := by
  have hrefl : Except.ok σ = (Except.ok σ' : Except Stop SemSys) → Apart σ σ' u := fun h =>
    Except.ok.inj h ▸ (⟨rfl, rfl, rfl⟩ : SameAt σ σ u).apart
  cases a with
  | wait t s timeout =>
    dsimp only [step] at hok
    split_ifs at hok
    · exact Except.ok.inj hok ▸ (wait_sameAt hu).apart
    · exact hrefl hok
  | suspend t =>
    dsimp only [step] at hok
    split at hok
    · rw [← Except.ok.inj hok]
      unfold suspend
      split_ifs
      · exact ⟨.inl (Function.update_of_ne hu ..), rfl, rfl⟩
      · exact (goto_sameAt hu _).apart
    · exact hrefl hok
  | expire t =>
    dsimp only [step] at hok
    split at hok
    · split_ifs at hok
      · exact hrefl hok
      · exact Except.ok.inj hok ▸ (goto_sameAt hu _).apart
    · exact hrefl hok
  | check t =>
    dsimp only [step] at hok
    split at hok
    · rw [← Except.ok.inj hok]
      unfold check
      split_ifs
      · exact (goto_sameAt hu _).apart
      · exact (endWait_sameAt hu _ _).apart
    · exact hrefl hok
  | giveUp t =>
    dsimp only [step] at hok
    split at hok
    · next s _ =>
      have h := endWait_sameAt (σ := σ.setSem s ((σ.sem s).dequeue t).2) hu s
        (if ((σ.sem s).dequeue t).1 then semErrTimeout else 0)
      exact Except.ok.inj hok ▸ ⟨.inl h.pc, h.ret, h.depth⟩
    · exact hrefl hok
  | post t s =>
    dsimp only [step] at hok
    split_ifs at hok
    · exact (post_sameAt hu hok).apart
    · exact hrefl hok
  | signal t =>
    dsimp only [step] at hok
    split at hok
    · exact signal_apart hu hok
    · exact hrefl hok

/-! ## The notes of a wait and a post -/

theorem noteWait_depth (u r : Nat) : (σ.noteWait t s).notes.depth u r =
    if u = t ∧ r = s then σ.notes.depth t s + 1 else σ.notes.depth u r := by
  change Function.update σ.notes.depth t (Function.update (σ.notes.depth t) s _) u r = _
  by_cases hu : u = t
  · subst hu
    rw [Function.update_self, Function.update_apply]
    simp
  · rw [Function.update_of_ne hu, if_neg fun h => hu h.1]

theorem notePost_depth (thr : Option Nat) (u r : Nat) : (σ.notePost t s thr).notes.depth u r =
    if u = t ∧ r = s then σ.notes.depth t s - 1 else σ.notes.depth u r := by
  change Function.update σ.notes.depth t (Function.update (σ.notes.depth t) s _) u r = _
  by_cases hu : u = t
  · subst hu
    rw [Function.update_self, Function.update_apply]
    simp
  · rw [Function.update_of_ne hu, if_neg fun h => hu h.1]

theorem mem_handed_noteWait {r : Nat} (h : u ∈ (σ.noteWait t s).notes.handed r) :
    u ∈ σ.notes.handed r := by
  change u ∈ Function.update σ.notes.handed s ((σ.notes.handed s).erase t) r at h
  rw [Function.update_apply] at h
  split_ifs at h with hr
  · exact hr ▸ List.mem_of_mem_erase h
  · exact h

theorem mem_handed_notePost {r : Nat} {thr : Option Nat} (h : u ∈ (σ.notePost t s thr).notes.handed r) :
    u ∈ σ.notes.handed r ∨ r = s ∧ thr = some u := by
  change u ∈ Function.update σ.notes.handed s (thr.toList ++ σ.notes.handed s) r at h
  rw [Function.update_apply] at h
  split_ifs at h with hr
  · rcases List.mem_append.mp h with h | h
    · exact .inr ⟨hr, Option.mem_toList.mp h⟩
    · exact .inl (hr ▸ h)
  · exact .inl h

/-! ## A thread that was handed a semaphore is not inside it -/

def Lone (σ : SemSys) (s : Nat) : Prop := ∀ t ∈ σ.notes.handed s, σ.notes.depth t s = 0

theorem Lone.step (hfresh : ∀ s, (sems s).Fresh) (hinv : Inv sems σ) {a : Act} (hexcl : Excl σ s)
    (hout : Outermost s σ a) (h : Lone σ s) (hok : σ.step a = .ok σ') : Lone σ' s := by
  obtain ⟨-, he⟩ := step_inv hfresh hinv hok
  intro u hu
  cases he with
  | quiet _ _ hdepth hhanded =>
    rw [hhanded] at hu
    rw [hdepth]
    exact h u hu
  | success t r sem _ _ hnotes _ _ =>
    rw [hnotes] at hu ⊢
    rw [noteWait_depth]
    split_ifs with heq
    · obtain ⟨rfl, rfl⟩ := heq
      -- the thread is no longer among those who were handed the semaphore
      change u ∈ Function.update σ.notes.handed s ((σ.notes.handed s).erase u) s at hu
      rw [Function.update_self] at hu
      exact absurd hu (List.Nodup.not_mem_erase (List.nodup_append.mp (hinv.good s).nodup).2.1)
    · exact h u (mem_handed_noteWait hu)
  | full _ _ _ hnotes =>
    rw [hnotes] at hu ⊢
    exact h u hu
  | @put t r hpc _ _ hnotes =>
    rw [hnotes] at hu ⊢
    have hin : u ∈ σ.notes.handed s := (mem_handed_notePost hu).resolve_right fun h =>
      Option.some_ne_none u h.2.symm
    rw [notePost_depth]
    split_ifs with heq
    · obtain ⟨rfl, rfl⟩ := heq
      rw [h u hin]
    · exact h u hin
  | @hand t r thr rest ring hpc hqueue _ _ hnotes =>
    rw [hnotes] at hu ⊢
    rw [notePost_depth]
    rcases mem_handed_notePost hu with hin | ⟨rfl, hthr⟩
    · split_ifs with heq
      · obtain ⟨rfl, rfl⟩ := heq
        rw [h u hin]
      · exact h u hin
    · -- the thread that the post takes out of the queue, while the one that posts is inside
      obtain rfl := Option.some.inj hthr
      have hdepth := hout rfl hpc
      split_ifs with heq
      · obtain ⟨rfl, -⟩ := heq
        rw [hdepth]
      · have hne : thr ≠ t := fun h => heq ⟨h, rfl⟩
        exact Nat.eq_zero_of_not_pos fun hpos => hne (hexcl.owner_of_depth hdepth thr (.inl hpos))

/-! ## What a step does to the thread that acts -/

/-- The thread waits for the semaphore, without a timeout. -/
def Waits (s : Nat) (pc : Pc) : Prop :=
  pc = .queued s semTimeoutInfinite ∨ pc = .blocked s semTimeoutInfinite ∨ pc = .woken s semTimeoutInfinite

/-- What has come of a wait so far: it goes on, it has failed, or the thread is inside and was not before. -/
def Waited (σ σ' : SemSys) (t s : Nat) : Prop :=
  (Waits s (σ'.pc t) ∧ σ'.notes.depth t = σ.notes.depth t) ∨
  (σ'.pc t = .out ∧ σ'.ret t ≠ 0 ∧ σ'.notes.depth t = σ.notes.depth t) ∨
  (σ'.pc t = .out ∧ σ'.ret t = 0 ∧ σ.notes.depth t s = 0 ∧
    ∀ r, σ'.notes.depth t r = if r = s then 1 else σ.notes.depth t r)

/-- The other semaphores. -/
theorem Waited.other {r : Nat} (h : Waited σ σ' t s) (hr : r ≠ s) :
    σ'.notes.depth t r = σ.notes.depth t r := by
  rcases h with ⟨-, hd⟩ | ⟨-, -, hd⟩ | ⟨-, -, -, hd⟩
  · rw [hd]
  · rw [hd]
  · rw [hd, if_neg hr]

theorem Waited.pc (h : Waited σ σ' t s) : σ'.pc t = .out ∨ Waits s (σ'.pc t) := by
  rcases h with ⟨hw, -⟩ | ⟨hpc, -⟩ | ⟨hpc, -⟩
  · exact .inr hw
  · exact .inl hpc
  · exact .inl hpc

theorem Excl.depth_eq_zero (h : Excl σ s) (hvalue : (σ.sem s).value ≠ 0) (t : Nat) :
    σ.notes.depth t s = 0 := by
  rcases h with ⟨-, -, -, hzero⟩ | ⟨hzero, -⟩
  · exact hzero t
  · exact absurd hzero hvalue

theorem endWait_waited (sem : Sem) (hdepth : σ.notes.depth t s = 0) :
    Waited σ ((σ.setSem s sem).endWait t s 0) t s := by
  refine .inr (.inr ⟨Function.update_self .., Function.update_self .., hdepth, fun r => ?_⟩)
  refine (noteWait_depth (σ := σ.setSem s sem) t r).trans ?_
  simp only [true_and]
  split_ifs
  · exact congrArg (· + 1) hdepth
  · rfl

theorem wait_waited (hexcl : Excl σ s) (hrec : (σ.sem s).recursive = false) :
    Waited σ (σ.wait t s semTimeoutInfinite) t s := by
  unfold wait
  rw [if_neg fun h => h.2 rfl]
  rcases (σ.sem s).enter_cases t semTimeoutInfinite with ⟨-, hrec', -⟩ | ⟨sem', he, hv, -⟩ |
    ⟨rc, he, hrc⟩ | ⟨sem', ring, he, -⟩
  · rw [hrec] at hrec'
    cases hrec'
  · rw [he]
    exact endWait_waited sem' (hexcl.depth_eq_zero hv t)
  · rw [he]
    refine .inr (.inl ?_)
    dsimp only
    unfold endWait
    rw [if_neg hrc]
    exact ⟨Function.update_self .., (Function.update_self (β := fun _ => Int) ..).trans_ne hrc, rfl⟩
  · rw [he]
    exact .inl ⟨.inl (Function.update_self ..), rfl⟩

theorem suspend_waited (hwaits : σ.pc t = .queued s semTimeoutInfinite) (hok : σ.step (.suspend t) = .ok σ') :
    Waited σ σ' t s := by
  dsimp only [step] at hok
  rw [hwaits] at hok
  rw [← Except.ok.inj hok]
  unfold suspend
  split_ifs
  · exact .inl ⟨.inr (.inr (Function.update_self ..)), rfl⟩
  · exact .inl ⟨.inr (.inl (Function.update_self ..)), rfl⟩

theorem check_waited (hinv : Inv sems σ) (hlone : Lone σ s) (hwaits : σ.pc t = .woken s semTimeoutInfinite)
    (hok : σ.step (.check t) = .ok σ') : Waited σ σ' t s := by
  dsimp only [step] at hok
  rw [hwaits] at hok
  rw [← Except.ok.inj hok]
  have hon : (σ.pc t).on = some s := by
    rw [hwaits]
    rfl
  unfold check Sem.existInQueue
  rw [Lib.Ring.contains_eq (hinv.good s).wf]
  split_ifs with hin
  · exact .inl ⟨.inl (Function.update_self ..), rfl⟩
  · have hhand := hinv.handed_of_not_mem hon fun h => hin (decide_eq_true h)
    have hsame : σ.setSem s (σ.sem s) = σ := by
      unfold setSem
      rw [Function.update_eq_self]
    have h := endWait_waited (σ.sem s) (hlone t hhand)
    rwa [hsame] at h

/-- A post by the thread that is inside. -/
theorem post_self (hinv : Inv sems σ) (hexcl : Excl σ s) (hpc : σ.pc t = .out)
    (hdepth : σ.notes.depth t s = 1) (hok : σ.step (.post t s) = .ok σ') :
    (σ'.pc t = .out ∨ ∃ u, σ'.pc t = .signalling u) ∧
      ∀ r, σ'.notes.depth t r = if r = s then 0 else σ.notes.depth t r := by
  have hnotes : ∀ {thr : Option Nat}, σ'.notes = (σ.notePost t s thr).notes →
      ∀ r, σ'.notes.depth t r = if r = s then 0 else σ.notes.depth t r := by
    intro thr h r
    rw [h, notePost_depth, hdepth]
    simp
  obtain ⟨σ'', hstep, -, he⟩ := post_effect (s := s) hinv hpc
  dsimp only [step] at hok
  rw [if_pos hpc, hstep] at hok
  obtain rfl := Except.ok.inj hok
  cases he with
  | quiet hpost => exact absurd hpc (hpost t s rfl)
  | success _ _ _ hpost => exact absurd rfl (hpost t s)
  | full _ hmax =>
    rcases hexcl with ⟨-, -, -, hzero⟩ | ⟨hzero, -⟩
    · rw [hzero t] at hdepth
      cases hdepth
    · rw [hzero] at hmax
      cases hmax
  | put _ _ _ hn hret => exact ⟨.inl hret.1, hnotes hn⟩
  | hand thr _ _ _ _ _ _ hn hpc' => exact ⟨.inr ⟨thr, hpc'⟩, hnotes hn⟩

theorem signal_self (hpc : σ.pc t = .signalling u) (hok : σ.step (.signal t) = .ok σ') :
    σ'.pc t = .out ∧ σ'.notes.depth t = σ.notes.depth t := by
  dsimp only [step] at hok
  rw [hpc] at hok
  obtain ⟨-, hok⟩ := ensure_bind_eq_ok.mp hok
  cases hpcu : σ.pc u with
  | blocked s timeout =>
    rw [hpcu] at hok
    rw [← Except.ok.inj hok]
    exact ⟨Function.update_self .., rfl⟩
  | _ =>
    rw [hpcu] at hok
    rw [← Except.ok.inj hok]
    exact ⟨Function.update_self .., rfl⟩

/-- The semaphores that a step may change. -/
def touches (r : Nat) : Act → Prop
  | .wait _ s _ | .post _ s => s = r
  | .suspend _ | .check _ | .signal _ => False
  | .expire _ | .giveUp _ => True

theorem step_sem {a : Act} {r : Nat} (hr : ¬ touches r a) (hok : σ.step a = .ok σ') :
    σ'.sem r = σ.sem r := by
  cases a with
  | wait t s timeout =>
    have hne : r ≠ s := fun h => hr h.symm
    dsimp only [step] at hok
    split_ifs at hok
    · rw [← Except.ok.inj hok]
      unfold wait
      split_ifs
      · rfl
      · split
        · unfold endWait
          split_ifs <;> exact Function.update_of_ne hne ..
        · exact Function.update_of_ne hne ..
    · rw [← Except.ok.inj hok]
  | suspend t =>
    dsimp only [step] at hok
    split at hok
    · rw [← Except.ok.inj hok]
      unfold suspend
      split_ifs <;> rfl
    · rw [← Except.ok.inj hok]
  | expire t => exact absurd trivial hr
  | check t =>
    dsimp only [step] at hok
    split at hok
    · rw [← Except.ok.inj hok]
      unfold check
      split_ifs <;> rfl
    · rw [← Except.ok.inj hok]
  | giveUp t => exact absurd trivial hr
  | post t s =>
    have hne : r ≠ s := fun h => hr h.symm
    dsimp only [step] at hok
    split_ifs at hok
    · obtain ⟨⟨rc, thr, sem⟩, -, hok⟩ := bind_eq_ok.mp hok
      dsimp only at hok
      split_ifs at hok
      · rw [← Except.ok.inj hok]
        rfl
      · cases thr <;> rw [← Except.ok.inj hok] <;> exact Function.update_of_ne hne ..
    · rw [← Except.ok.inj hok]
  | signal t =>
    dsimp only [step] at hok
    split at hok
    · obtain ⟨-, hok⟩ := ensure_bind_eq_ok.mp hok
      split at hok <;> rw [← Except.ok.inj hok] <;> rfl
    · rw [← Except.ok.inj hok]

end SemSys

namespace PthreadSys

variable {σ σ' : PthreadSys} {t u m s : Nat}

/-! ## Where a thread is inside a semaphore -/

/-- The mutex has got its semaphore. -/
def Marked (σ : PthreadSys) (m s : Nat) : Prop :=
  (σ.mtx m).magic = pthreadAsWrmMagic ∧ (σ.mtx m).wmtx = some s

/-- The call of `sem.cpp` has returned, and with success. -/
def Got (σ : PthreadSys) (t : Nat) : Prop := σ.sys.pc t = .out ∧ σ.sys.ret t = 0

instance : Decidable (Got σ t) := inferInstanceAs (Decidable (_ ∧ _))

/-- How often the thread is inside `_mtx`, by its place. -/
def insideFirst (σ : PthreadSys) (t : Nat) : Nat :=
  match σ.place t with
  | .entered _ => if Got σ t then 1 else 0
  | .retesting _ | .allocating _ | .allocated _ | .initing _ | .marking _ | .leaving _ => 1
  | _ => 0

/-- The same for the semaphore of a mutex. -/
def inside (σ : PthreadSys) (t m : Nat) : Nat :=
  if σ.held t m then 1
  else
    match σ.place t with
    | .locked m' _ => if m' = m ∧ Got σ t then 1 else 0
    | .checking m' | .reading m' | .unlocking m' _ => if m' = m then 1 else 0
    | _ => 0

theorem insideFirst_congr (hplace : σ'.place t = σ.place t) (hgot : Got σ' t ↔ Got σ t) :
    insideFirst σ' t = insideFirst σ t := by
  unfold insideFirst
  rw [hplace]
  simp only [hgot]

theorem inside_congr (hplace : σ'.place t = σ.place t) (hheld : σ'.held t = σ.held t)
    (hgot : Got σ' t ↔ Got σ t) (m : Nat) : inside σ' t m = inside σ t m := by
  unfold inside
  rw [hplace, hheld]
  simp only [hgot]

theorem marked_congr (h : σ'.mtx = σ.mtx) (m s : Nat) : Marked σ' m s ↔ Marked σ m s := by
  unfold Marked
  rw [h]

/-- The call of `sem.cpp` that a thread is in. -/
def InCall : Place → Pc → Prop
  | .entered _, pc => pc = .out ∨ SemSys.Waits 0 pc
  | .locked _ s, pc => pc = .out ∨ SemSys.Waits s pc
  | .left _, pc | .unlocked _ _, pc => pc = .out ∨ ∃ u, pc = .signalling u
  | _, pc => pc = .out

/-- The mutex is being created: it has the last block, and no other has. -/
structure Creating (σ : PthreadSys) (m : Nat) : Prop where
  magic : (σ.mtx m).magic ≠ pthreadAsWrmMagic
  wmtx : (σ.mtx m).wmtx = some σ.blocks
  pos : 0 < σ.blocks
  new : ∀ m', ¬ Marked σ m' σ.blocks

/-- What a thread relies on at a place. -/
def At (σ : PthreadSys) (t : Nat) : Place → Prop
  | .allocating m => (σ.mtx m).magic ≠ pthreadAsWrmMagic
  | .allocated m | .initing m => Creating σ m
  | .marking m => Creating σ m ∧ σ.ready σ.blocks = true
  | .leaving m | .left m | .fetching m => ∃ s, Marked σ m s
  | .locking m s | .locked m s => Marked σ m s
  | .checking m | .reading m => σ.held t m = false ∧ ∃ s, Marked σ m s
  | .unlocking m s => σ.held t m = false ∧ Marked σ m s
  | _ => True

/-- The invariant. -/
structure Inv (σ : PthreadSys) : Prop where
  sem : SemSys.Inv (fun _ => wrmMtxInitializer) σ.sys
  excl : ∀ s, SemSys.Excl σ.sys s
  lone : ∀ s, SemSys.Lone σ.sys s
  calls : ∀ t, InCall (σ.place t) (σ.sys.pc t)
  first : ∀ t, σ.sys.notes.depth t 0 = insideFirst σ t
  own : ∀ m s, Marked σ m s → ∀ t, σ.sys.notes.depth t s = inside σ t m
  free : ∀ s, s ≠ 0 → (∀ m, ¬ Marked σ m s) →
    σ.sys.sem s = wrmMtxInitializer ∧ ∀ t, σ.sys.notes.depth t s = 0
  marked : ∀ m, (σ.mtx m).magic = pthreadAsWrmMagic →
    ∃ s, (σ.mtx m).wmtx = some s ∧ 0 < s ∧ s ≤ σ.blocks ∧ σ.ready s = true
  inj : ∀ m m' s, Marked σ m s → Marked σ m' s → m = m'
  inside : ∀ t m, inside σ t m ≠ 0 → ∃ s, Marked σ m s
  places : ∀ t, At σ t (σ.place t)

/-- A signal ends a receive. -/
theorem InCall.wake {p : Place} {timeout : Int} (h : InCall p (.blocked s timeout)) :
    InCall p (.woken s timeout) := by
  have hwaits : ∀ r, .blocked s timeout = Pc.out ∨ SemSys.Waits r (.blocked s timeout) →
      .woken s timeout = Pc.out ∨ SemSys.Waits r (.woken s timeout) := by
    rintro r (h | h | h | h) <;> cases h
    exact .inr (.inr (.inr rfl))
  cases p with
  | entered m => exact hwaits 0 h
  | locked m r => exact hwaits r h
  | left m | unlocked m r => rcases h with h | ⟨u, h⟩ <;> cases h
  | _ => cases h

/-- The thread is creating a mutex. -/
def Creates : Place → Prop
  | .allocating _ | .allocated _ | .initing _ | .marking _ => True
  | _ => False

/-- At this place the thread is inside `_mtx`. -/
def First : Place → Prop
  | .retesting _ | .allocating _ | .allocated _ | .initing _ | .marking _ | .leaving _ => True
  | _ => False

theorem Creates.first {p : Place} (h : Creates p) : First p := by
  cases p <;> trivial

theorem First.insideFirst (h : First (σ.place t)) : insideFirst σ t = 1 := by
  unfold PthreadSys.insideFirst
  cases hp : σ.place t <;> rw [hp] at h <;> first | rfl | cases h

theorem First.inside (h : First (σ.place t)) (m : Nat) :
    PthreadSys.inside σ t m = if σ.held t m then 1 else 0 := by
  unfold PthreadSys.inside
  cases hp : σ.place t <;> rw [hp] at h <;> first | rfl | cases h

theorem First.inCall_iff {p : Place} {pc : Pc} (h : First p) : InCall p pc ↔ pc = .out := by
  cases p <;> first | exact h.elim | exact Iff.rfl

/-- At this place the thread is inside nothing but what it holds. -/
def Outside : Place → Prop
  | .out | .testing _ | .entering _ | .left _ | .fetching _ | .locking _ _ | .unlocked _ _ => True
  | _ => False

theorem Outside.insideFirst (h : Outside (σ.place t)) : insideFirst σ t = 0 := by
  unfold PthreadSys.insideFirst
  cases hp : σ.place t <;> rw [hp] at h <;> first | rfl | cases h

theorem Outside.inside (h : Outside (σ.place t)) (m : Nat) :
    PthreadSys.inside σ t m = if σ.held t m then 1 else 0 := by
  unfold PthreadSys.inside
  cases hp : σ.place t <;> rw [hp] at h <;> first | rfl | cases h

/-- A thread that creates no mutex relies only on mutexes that have got their semaphores. -/
theorem At.mono {p : Place} (h : At σ t p) (hmark : ∀ m s, Marked σ m s → Marked σ' m s)
    (hheld : σ'.held t = σ.held t) (hcreates : Creates p → At σ' t p) : At σ' t p := by
  cases p with
  | allocating m | allocated m | initing m | marking m => exact hcreates trivial
  | leaving m | left m | fetching m => exact h.imp fun s => hmark m s
  | locking m s | locked m s => exact hmark m s h
  | checking m | reading m => exact ⟨hheld ▸ h.1, h.2.imp fun s => hmark m s⟩
  | unlocking m s => exact ⟨hheld ▸ h.1, hmark m s h.2⟩
  | _ => trivial

/-- What a thread relies on concerns the mutexes and what it holds only. -/
theorem At.same {p : Place} (h : At σ t p) (hmtx : σ'.mtx = σ.mtx) (hready : σ'.ready = σ.ready)
    (hblocks : σ'.blocks = σ.blocks) (hheld : σ'.held t = σ.held t) : At σ' t p := by
  have hmark := marked_congr hmtx
  have hcreating : ∀ m, Creating σ m → Creating σ' m := by
    intro m hc
    exact ⟨hmtx ▸ hc.magic, by rw [hmtx, hblocks]; exact hc.wmtx, hblocks ▸ hc.pos, fun m' hm' =>
      hc.new m' (hblocks ▸ (hmark m' _).mp hm')⟩
  refine h.mono (fun m s => (hmark m s).mpr) hheld fun hc => ?_
  cases p with
  | allocating m =>
    change (σ'.mtx m).magic ≠ _
    rw [hmtx]
    exact h
  | allocated m | initing m => exact hcreating m h
  | marking m => exact ⟨hcreating m h.1, hready ▸ hblocks ▸ h.2⟩
  | _ => cases hc

theorem wrmMtxInitializer_fresh : ∀ s : Nat, ((fun _ => wrmMtxInitializer : Nat → Sem) s).Fresh :=
  fun _ => ⟨true, false, 1, rfl⟩

theorem Inv.start {mtx : Nat → PthreadMutex} (hmtx : ∀ m, (mtx m).magic ≠ pthreadAsWrmMagic) :
    Inv (start mtx) where
  sem := SemSys.Inv.start wrmMtxInitializer_fresh
  excl _ := .inl ⟨rfl, rfl, rfl, fun _ => rfl⟩
  lone _ := fun _ ht => absurd ht List.not_mem_nil
  calls _ := rfl
  first _ := rfl
  own m _ h := absurd h.1 (hmtx m)
  free _ _ _ := ⟨rfl, fun _ => rfl⟩
  marked m h := absurd h (hmtx m)
  inj m _ _ h := absurd h.1 (hmtx m)
  inside _ _ h := absurd rfl h
  places _ := trivial

theorem Inv.marked_pos (h : Inv σ) (hm : Marked σ m s) : 0 < s ∧ s ≤ σ.blocks ∧ σ.ready s = true := by
  obtain ⟨s', hs, hspec⟩ := h.marked m hm.1
  obtain rfl := Option.some.inj (hm.2.symm.trans hs)
  exact hspec

theorem Inv.place (h : Inv σ) {p : Place} (hp : σ.place t = p) : At σ t p := hp ▸ h.places t

/-- Only one thread is inside `_mtx`. -/
theorem Inv.first_unique (h : Inv σ) (ht : insideFirst σ t = 1) (hu : insideFirst σ u = 1) : u = t :=
  (h.excl 0).owner_of_depth ((h.first t).trans ht) u (.inl (by rw [h.first u, hu]; exact Nat.one_pos))

/-! ## Steps that change no mutex -/

/-- A thread goes on with its own place and its call of `sem.cpp`; the mutexes are left alone. -/
theorem Inv.move (h : Inv σ) (hmtx : σ'.mtx = σ.mtx) (hready : σ'.ready = σ.ready)
    (hblocks : σ'.blocks = σ.blocks)
    (hplace : ∀ u, u ≠ t → σ'.place u = σ.place u ∧ σ'.held u = σ.held u)
    (hapart : ∀ u, u ≠ t → SemSys.Apart σ.sys σ'.sys u)
    (hsem : SemSys.Inv (fun _ => wrmMtxInitializer) σ'.sys)
    (hexcl : ∀ s, SemSys.Excl σ'.sys s) (hlone : ∀ s, SemSys.Lone σ'.sys s)
    (hfree : ∀ s, s ≠ 0 → (∀ m, ¬ Marked σ m s) →
      σ'.sys.sem s = σ.sys.sem s ∧ σ'.sys.notes.depth t s = σ.sys.notes.depth t s)
    (hcall : InCall (σ'.place t) (σ'.sys.pc t))
    (hfirst : σ'.sys.notes.depth t 0 = insideFirst σ' t)
    (hown : ∀ m s, Marked σ m s → σ'.sys.notes.depth t s = PthreadSys.inside σ' t m)
    (hinside : ∀ m, PthreadSys.inside σ' t m ≠ 0 → ∃ s, Marked σ m s) (hat : At σ' t (σ'.place t)) :
    Inv σ' := by
  have hmark := marked_congr hmtx
  -- the other threads: a signal changes neither what they are inside nor what they rely on
  have hout : ∀ u, u ≠ t → (σ'.sys.pc u = .out ↔ σ.sys.pc u = .out) := by
    intro u hu
    rcases (hapart u hu).pc with hpc | ⟨s, timeout, hpc, hpc'⟩
    · rw [hpc]
    · rw [hpc, hpc']
      exact iff_of_false Pc.noConfusion Pc.noConfusion
  have hgot : ∀ u, u ≠ t → (Got σ' u ↔ Got σ u) := by
    intro u hu
    unfold Got
    rw [hout u hu, (hapart u hu).ret]
  have hfirst' : ∀ u, u ≠ t → insideFirst σ' u = insideFirst σ u := fun u hu =>
    insideFirst_congr (hplace u hu).1 (hgot u hu)
  have hinside' : ∀ u, u ≠ t → ∀ m, PthreadSys.inside σ' u m = PthreadSys.inside σ u m := fun u hu =>
    inside_congr (hplace u hu).1 (hplace u hu).2 (hgot u hu)
  refine ⟨hsem, hexcl, hlone, fun u => ?_, fun u => ?_, fun m s hm u => ?_, fun s hs hm => ?_, fun m hm => ?_,
    fun m m' s hm hm' => h.inj m m' s ((hmark m s).mp hm) ((hmark m' s).mp hm'), fun u m hu => ?_,
    fun u => ?_⟩
  · by_cases hu : u = t
    · exact hu ▸ hcall
    · have hc := h.calls u
      rw [(hplace u hu).1]
      rcases (hapart u hu).pc with hpc | ⟨s, timeout, hpc, hpc'⟩
      · rw [hpc]
        exact hc
      · rw [hpc] at hc
        rw [hpc']
        exact hc.wake
  · by_cases hu : u = t
    · exact hu ▸ hfirst
    · rw [(hapart u hu).depth, hfirst' u hu]
      exact h.first u
  · by_cases hu : u = t
    · exact hu ▸ hown m s ((hmark m s).mp hm)
    · rw [(hapart u hu).depth, hinside' u hu]
      exact h.own m s ((hmark m s).mp hm) u
  · have hm' : ∀ m, ¬ Marked σ m s := fun m h => hm m ((hmark m s).mpr h)
    obtain ⟨hsame, hzero⟩ := h.free s hs hm'
    refine ⟨(hfree s hs hm').1.trans hsame, fun u => ?_⟩
    by_cases hu : u = t
    · rw [hu, (hfree s hs hm').2]
      exact hzero t
    · rw [(hapart u hu).depth]
      exact hzero u
  · rw [hmtx] at hm ⊢
    rw [hblocks, hready]
    exact h.marked m hm
  · simp only [hmark]
    by_cases htu : u = t
    · exact hinside m (htu ▸ hu)
    · exact h.inside u m (hinside' u htu m ▸ hu)
  · by_cases hu : u = t
    · exact hu ▸ hat
    · rw [(hplace u hu).1]
      exact (h.places u).same hmtx hready hblocks (hplace u hu).2

/-- A thread that is in no call of `sem.cpp` goes on. -/
theorem Inv.local (h : Inv σ) (hsys : σ'.sys = σ.sys) (hmtx : σ'.mtx = σ.mtx) (hready : σ'.ready = σ.ready)
    (hblocks : σ'.blocks = σ.blocks)
    (hplace : ∀ u, u ≠ t → σ'.place u = σ.place u ∧ σ'.held u = σ.held u)
    (hcall : InCall (σ'.place t) (σ.sys.pc t)) (hfirst : insideFirst σ' t = insideFirst σ t)
    (hinside : ∀ m, PthreadSys.inside σ' t m = PthreadSys.inside σ t m) (hat : At σ' t (σ'.place t)) :
    Inv σ' := by
  refine h.move hmtx hready hblocks hplace (fun u _ => ?_) (hsys ▸ h.sem) (hsys ▸ h.excl) (hsys ▸ h.lone)
    (fun s _ _ => by rw [hsys]; exact ⟨rfl, rfl⟩) (hsys ▸ hcall) ?_ (fun m s hm => ?_) (fun m hm => ?_) hat
  · rw [hsys]
    exact ⟨.inl rfl, rfl, rfl⟩
  · rw [hsys, hfirst]
    exact h.first t
  · rw [hsys, hinside]
    exact h.own m s hm t
  · exact h.inside t m (hinside m ▸ hm)

theorem Inv.goto (h : Inv σ) {p : Place} (hcall : InCall p (σ.sys.pc t))
    (hfirst : insideFirst (σ.goto t p) t = insideFirst σ t)
    (hinside : ∀ m, PthreadSys.inside (σ.goto t p) t m = PthreadSys.inside σ t m) (hat : At σ t p) :
    Inv (σ.goto t p) := by
  have hself : (σ.goto t p).place t = p := Function.update_self ..
  refine h.local rfl rfl rfl rfl (fun u hu => ⟨Function.update_of_ne hu .., rfl⟩) ?_ hfirst hinside ?_
  · rw [hself]
    exact hcall
  · rw [hself]
    exact hat.same rfl rfl rfl rfl

/-- A call returns. -/
theorem Inv.finish (h : Inv σ) (hpc : σ.sys.pc t = .out) (rc : Int) (hfirst : insideFirst σ t = 0)
    (hinside : ∀ m, PthreadSys.inside σ t m = if σ.held t m then 1 else 0) : Inv (σ.finish t rc) := by
  have hself : (σ.finish t rc).place t = .out := Function.update_self ..
  have hout : Outside ((σ.finish t rc).place t) := by
    rw [hself]
    exact trivial
  refine h.local rfl rfl rfl rfl (fun u hu => ⟨Function.update_of_ne hu .., rfl⟩) ?_
    (hout.insideFirst.trans hfirst.symm) (fun m => (hout.inside m).trans (hinside m).symm) ?_
  · rw [hself]
    exact hpc
  · rw [hself]
    trivial

/-! ## Steps of the semaphores -/

/-- Each post of the step closes the outermost pair of its thread. -/
theorem Inv.step_sys (h : Inv σ) {a : SemSys.Act} {sys : SemSys} (hok : σ.sys.step a = .ok sys)
    (hout : ∀ r, SemSys.Outermost r σ.sys a) :
    SemSys.Inv (fun _ => wrmMtxInitializer) sys ∧ (∀ s, SemSys.Excl sys s) ∧ ∀ s, SemSys.Lone sys s :=
  ⟨(SemSys.step_inv wrmMtxInitializer_fresh h.sem hok).1,
    fun s => (h.excl s).step wrmMtxInitializer_fresh h.sem rfl (hout s) hok,
    fun s => (h.lone s).step wrmMtxInitializer_fresh h.sem (h.excl s) (hout s) hok⟩

theorem Inv.turn (h : Inv σ) {a : SemSys.Act} {sys : SemSys} {p : Place} (hok : σ.sys.step a = .ok sys)
    (hactor : SemSys.actor a = t) (hout : ∀ r, SemSys.Outermost r σ.sys a)
    (hfree : ∀ s, s ≠ 0 → (∀ m, ¬ Marked σ m s) →
      ¬ SemSys.touches s a ∧ sys.notes.depth t s = σ.sys.notes.depth t s)
    (hcall : InCall p (sys.pc t))
    (hfirst : sys.notes.depth t 0 = insideFirst ({ σ with sys := sys }.goto t p) t)
    (hown : ∀ m s, Marked σ m s →
      sys.notes.depth t s = PthreadSys.inside ({ σ with sys := sys }.goto t p) t m)
    (hinside : ∀ m, PthreadSys.inside ({ σ with sys := sys }.goto t p) t m ≠ 0 → ∃ s, Marked σ m s)
    (hat : At σ t p) : Inv ({ σ with sys := sys }.goto t p) := by
  obtain ⟨hsem, hexcl, hlone⟩ := h.step_sys hok hout
  have hself : ({ σ with sys := sys }.goto t p).place t = p := Function.update_self ..
  refine h.move rfl rfl rfl (fun u hu => ⟨Function.update_of_ne hu .., rfl⟩)
    (fun u hu => SemSys.step_apart (hactor ▸ hu) hok) hsem hexcl hlone
    (fun s hs hm => ⟨SemSys.step_sem (hfree s hs hm).1 hok, (hfree s hs hm).2⟩) ?_ hfirst hown hinside ?_
  · rw [hself]
    exact hcall
  · rw [hself]
    exact hat.same rfl rfl rfl rfl

theorem not_got_of_waits {sys : SemSys} {r : Nat} (h : SemSys.Waits r (sys.pc t)) : sys.pc t ≠ .out := by
  intro hpc
  rw [hpc] at h
  rcases h with h | h | h <;> cases h

/-- A wait for `_mtx` begins or goes on. -/
theorem Inv.turnFirst (h : Inv σ) {a : SemSys.Act} {sys : SemSys} (m : Nat) (hok : σ.sys.step a = .ok sys)
    (hactor : SemSys.actor a = t) (hout : ∀ r, SemSys.Outermost r σ.sys a)
    (htouch : ∀ r, r ≠ 0 → ¬ SemSys.touches r a) (hw : SemSys.Waited σ.sys sys t 0)
    (hfirst : insideFirst σ t = 0)
    (hinside : ∀ m, PthreadSys.inside σ t m = if σ.held t m then 1 else 0) :
    Inv ({ σ with sys := sys }.goto t (.entered m)) := by
  have hself : ({ σ with sys := sys }.goto t (.entered m)).place t = .entered m := Function.update_self ..
  have hinside' : ∀ m', PthreadSys.inside ({ σ with sys := sys }.goto t (.entered m)) t m' =
      PthreadSys.inside σ t m' := by
    intro m'
    rw [hinside]
    unfold PthreadSys.inside
    rw [hself]
    rfl
  have hfirst' : insideFirst ({ σ with sys := sys }.goto t (.entered m)) t =
      if sys.pc t = .out ∧ sys.ret t = 0 then 1 else 0 := by
    unfold insideFirst
    rw [hself]
    rfl
  have hzero : σ.sys.notes.depth t 0 = 0 := (h.first t).trans hfirst
  refine h.turn hok hactor hout (fun r hr _ => ⟨htouch r hr, hw.other hr⟩) hw.pc ?_ (fun m' s hm => ?_)
    (fun m' hm => h.inside t m' (hinside' m' ▸ hm)) trivial
  · rw [hfirst']
    rcases hw with ⟨hw, hd⟩ | ⟨-, hret, hd⟩ | ⟨hpc, hret, -, hd⟩
    · rw [if_neg fun hg => not_got_of_waits hw hg.1, hd]
      exact hzero
    · rw [if_neg fun hg => hret hg.2, hd]
      exact hzero
    · rw [if_pos ⟨hpc, hret⟩, hd, if_pos rfl]
  · rw [hinside' m', hw.other (h.marked_pos hm).1.ne']
    exact h.own m' s hm t

/-- A wait for the semaphore of a mutex begins or goes on. -/
theorem Inv.turnOwn (h : Inv σ) {a : SemSys.Act} {sys : SemSys} (hok : σ.sys.step a = .ok sys)
    (hactor : SemSys.actor a = t) (hout : ∀ r, SemSys.Outermost r σ.sys a)
    (htouch : ∀ r, r ≠ s → ¬ SemSys.touches r a) (hw : SemSys.Waited σ.sys sys t s)
    (hfirst : insideFirst σ t = 0)
    (hinside : ∀ m, PthreadSys.inside σ t m = if σ.held t m then 1 else 0) (hm : Marked σ m s) :
    Inv ({ σ with sys := sys }.goto t (.locked m s)) := by
  have hself : ({ σ with sys := sys }.goto t (.locked m s)).place t = .locked m s :=
    Function.update_self ..
  have hs : s ≠ 0 := (h.marked_pos hm).1.ne'
  have hinside' : ∀ m', PthreadSys.inside ({ σ with sys := sys }.goto t (.locked m s)) t m' =
      if σ.held t m' then 1 else if m = m' ∧ sys.pc t = .out ∧ sys.ret t = 0 then 1 else 0 := by
    intro m'
    unfold PthreadSys.inside
    rw [hself]
    rfl
  refine h.turn hok hactor hout (fun r hr hrm => ?_) hw.pc ?_ (fun m' r hm' => ?_) (fun m' hm' => ?_) hm
  · have hrs : r ≠ s := fun heq => hrm m (heq ▸ hm)
    exact ⟨htouch r hrs, hw.other hrs⟩
  · rw [hw.other hs.symm, h.first t, hfirst]
    unfold insideFirst
    rw [hself]
  · rw [hinside' m']
    have hold := (h.own m' r hm' t).trans (hinside m')
    by_cases hmm : m = m'
    · subst hmm
      obtain rfl := Option.some.inj (hm.2.symm.trans hm'.2)
      rcases hw with ⟨hw, hd⟩ | ⟨-, hret, hd⟩ | ⟨hpc, hret, -, hd⟩
      · have hno : ¬ (m = m ∧ sys.pc t = .out ∧ sys.ret t = 0) := fun hg => not_got_of_waits hw hg.2.1
        rw [hd, hold, if_neg hno]
      · have hno : ¬ (m = m ∧ sys.pc t = .out ∧ sys.ret t = 0) := fun hg => hret hg.2.2
        rw [hd, hold, if_neg hno]
      · have hyes : m = m ∧ sys.pc t = .out ∧ sys.ret t = 0 := ⟨rfl, hpc, hret⟩
        rw [hd, if_pos rfl, if_pos hyes, ite_self]
    · have hrs : r ≠ s := fun heq => hmm (h.inj m m' r (heq ▸ hm) hm')
      have hno : ¬ (m = m' ∧ sys.pc t = .out ∧ sys.ret t = 0) := fun hg => hmm hg.1
      rw [hw.other hrs, hold, if_neg hno]
  · rw [hinside' m'] at hm'
    by_cases hmm : m = m'
    · exact hmm ▸ ⟨s, hm⟩
    · have hno : ¬ (m = m' ∧ sys.pc t = .out ∧ sys.ret t = 0) := fun hg => hmm hg.1
      rw [if_neg hno, ← hinside m'] at hm'
      exact h.inside t m' hm'

/-- The thread unlocks `_mtx`. -/
theorem Inv.postFirst (h : Inv σ) {sys : SemSys} (hpc : σ.sys.pc t = .out) (hplace : σ.place t = .leaving m)
    (hok : σ.sys.step (.post t 0) = .ok sys) : Inv ({ σ with sys := sys }.goto t (.left m)) := by
  have hself : ({ σ with sys := sys }.goto t (.left m)).place t = .left m := Function.update_self ..
  have hin : First (σ.place t) := hplace ▸ trivial
  have hout : Outside (({ σ with sys := sys }.goto t (.left m)).place t) := by
    rw [hself]
    exact trivial
  have hone : σ.sys.notes.depth t 0 = 1 := (h.first t).trans hin.insideFirst
  have hinside' : ∀ m', PthreadSys.inside ({ σ with sys := sys }.goto t (.left m)) t m' =
      PthreadSys.inside σ t m' := fun m' => (hout.inside m').trans (hin.inside m').symm
  obtain ⟨hcall, hdepth⟩ := SemSys.post_self h.sem (h.excl 0) hpc hone hok
  refine h.turn hok rfl (fun r hr _ => hr ▸ hone) (fun r hr _ => ⟨hr.symm, ?_⟩) hcall ?_ (fun m' s hm => ?_)
    (fun m' hm => h.inside t m' (hinside' m' ▸ hm)) (h.place hplace :)
  · rw [hdepth, if_neg hr]
  · rw [hdepth, if_pos rfl, hout.insideFirst]
  · rw [hdepth, if_neg (h.marked_pos hm).1.ne', hinside' m']
    exact h.own m' s hm t

/-- The thread unlocks a mutex. -/
theorem Inv.postOwn (h : Inv σ) {sys : SemSys} (hpc : σ.sys.pc t = .out) (hplace : σ.place t = .unlocking m s)
    (hok : σ.sys.step (.post t s) = .ok sys) : Inv ({ σ with sys := sys }.goto t (.unlocked m s)) := by
  have hself : ({ σ with sys := sys }.goto t (.unlocked m s)).place t = .unlocked m s :=
    Function.update_self ..
  obtain ⟨hheld, hm⟩ : σ.held t m = false ∧ Marked σ m s := h.place hplace
  have hout : Outside (({ σ with sys := sys }.goto t (.unlocked m s)).place t) := by
    rw [hself]
    exact trivial
  have hs : s ≠ 0 := (h.marked_pos hm).1.ne'
  have hinside : ∀ m', PthreadSys.inside σ t m' = if σ.held t m' then 1 else if m = m' then 1 else 0 := by
    intro m'
    unfold PthreadSys.inside
    rw [hplace]
  have hinside' : ∀ m', PthreadSys.inside ({ σ with sys := sys }.goto t (.unlocked m s)) t m' =
      if σ.held t m' then 1 else 0 := hout.inside
  have hone : σ.sys.notes.depth t s = 1 := by
    rw [h.own m s hm t, hinside, if_pos rfl, ite_self]
  obtain ⟨hcall, hdepth⟩ := SemSys.post_self h.sem (h.excl s) hpc hone hok
  refine h.turn hok rfl (fun r hr _ => hr ▸ hone) (fun r hr hrm => ?_) hcall ?_ (fun m' r hm' => ?_)
    (fun m' hm' => ?_) trivial
  · have hrs : r ≠ s := fun heq => hrm m (heq ▸ hm)
    refine ⟨hrs.symm, ?_⟩
    rw [hdepth, if_neg hrs]
  · rw [hdepth, if_neg hs.symm, h.first t, hout.insideFirst]
    unfold insideFirst
    rw [hplace]
  · rw [hinside', hdepth]
    by_cases hmm : m = m'
    · subst hmm
      rw [if_pos (Option.some.inj (hm'.2.symm.trans hm.2)), hheld]
      rfl
    · have hrs : r ≠ s := fun heq => hmm (h.inj m m' r (heq ▸ hm) hm')
      rw [if_neg hrs, h.own m' r hm' t, hinside, if_neg hmm]
  · rw [hinside'] at hm'
    refine h.inside t m' ?_
    rw [hinside]
    split_ifs at hm' ⊢
    · exact hm'
    · exact absurd rfl hm'
    · exact absurd rfl hm'

/-- The send of a post. -/
theorem Inv.signal (h : Inv σ) {sys : SemSys} (hpc : σ.sys.pc t = .signalling u)
    (hok : σ.sys.step (.signal t) = .ok sys) : Inv { σ with sys := sys } := by
  obtain ⟨hpc', hdepth⟩ := SemSys.signal_self hpc hok
  have hcall := h.calls t
  rw [hpc] at hcall
  have hnone : insideFirst { σ with sys := sys } t = insideFirst σ t ∧
      (∀ m, PthreadSys.inside { σ with sys := sys } t m = PthreadSys.inside σ t m) ∧
      InCall (σ.place t) .out := by
    unfold insideFirst PthreadSys.inside
    cases hp : σ.place t with
    | left m => exact ⟨rfl, fun _ => rfl, .inl rfl⟩
    | unlocked m s => exact ⟨rfl, fun _ => rfl, .inl rfl⟩
    | entered m =>
      rw [hp] at hcall
      rcases hcall with hc | hc | hc | hc <;> cases hc
    | locked m s =>
      rw [hp] at hcall
      rcases hcall with hc | hc | hc | hc <;> cases hc
    | _ =>
      rw [hp] at hcall
      cases hcall
  obtain ⟨hfirst, hinside, hcall'⟩ := hnone
  have hsame : { σ with sys := sys }.goto t (σ.place t) = { σ with sys := sys } := by
    unfold PthreadSys.goto
    rw [Function.update_eq_self]
  rw [← hsame]
  refine h.turn hok rfl (fun _ => trivial) (fun s _ _ => ⟨id, by rw [hdepth]⟩) (hpc' ▸ hcall') ?_
    (fun m s hm => ?_) (fun m hm => ?_) (h.places t)
  · rw [hsame, hfirst, hdepth]
    exact h.first t
  · rw [hsame, hinside, hdepth]
    exact h.own m s hm t
  · rw [hsame, hinside] at hm
    exact h.inside t m hm

/-! ## The creation of a mutex -/

/-- A step of the thread that creates a mutex.  Nobody else creates one meanwhile. -/
theorem Inv.create (h : Inv σ) {p : Place} (hcreates : Creates (σ.place t)) (hsys : σ'.sys = σ.sys)
    (hheld : σ'.held = σ.held) (hplace : ∀ u, u ≠ t → σ'.place u = σ.place u) (hp : σ'.place t = p)
    (hnext : First p)
    (hmark : ∀ m s, Marked σ m s → Marked σ' m s)
    (hnew : ∀ m' s, Marked σ' m' s → Marked σ m' s ∨ m' = m ∧ s = σ.blocks ∧ Creating σ m)
    (hmarked : ∀ m, (σ'.mtx m).magic = pthreadAsWrmMagic →
      ∃ s, (σ'.mtx m).wmtx = some s ∧ 0 < s ∧ s ≤ σ'.blocks ∧ σ'.ready s = true)
    (hat : At σ' t p) : Inv σ' := by
  subst hp
  have hone := hcreates.first.insideFirst
  have hgot : ∀ u, Got σ' u ↔ Got σ u := by
    intro u
    unfold Got
    rw [hsys]
  have hfirst : ∀ u, insideFirst σ' u = insideFirst σ u := by
    intro u
    by_cases hu : u = t
    · subst hu
      rw [hone, hnext.insideFirst]
    · exact insideFirst_congr (hplace u hu) (hgot u)
  have hinside : ∀ u m, PthreadSys.inside σ' u m = PthreadSys.inside σ u m := by
    intro u m
    by_cases hu : u = t
    · subst hu
      rw [hnext.inside, hcreates.first.inside, hheld]
    · exact inside_congr (hplace u hu) (congrFun hheld u) (hgot u) m
  have hcalls : InCall (σ'.place t) (σ.sys.pc t) :=
    hnext.inCall_iff.mpr (hcreates.first.inCall_iff.mp (h.calls t))
  refine ⟨hsys ▸ h.sem, hsys ▸ h.excl, hsys ▸ h.lone, fun u => ?_, fun u => ?_, fun m' s hm u => ?_,
    fun s hs hm => ?_, hmarked, fun m₁ m₂ s h₁ h₂ => ?_, fun u m' hu => ?_, fun u => ?_⟩
  · by_cases hu : u = t
    · rw [hu, hsys]
      exact hcalls
    · rw [hplace u hu, hsys]
      exact h.calls u
  · rw [hsys, hfirst]
    exact h.first u
  · rw [hsys, hinside]
    rcases hnew m' s hm with hold | ⟨rfl, rfl, hc⟩
    · exact h.own m' s hold u
    · -- nobody was inside the new semaphore, or could have been
      rw [(h.free σ.blocks hc.pos.ne' hc.new).2 u]
      by_contra hne
      obtain ⟨s, hs⟩ := h.inside u m' (Ne.symm hne)
      exact hc.magic hs.1
  · rw [hsys]
    exact h.free s hs fun m' hm' => hm m' (hmark m' s hm')
  · rcases hnew m₁ s h₁ with hold₁ | ⟨hm₁, hs₁, hc₁⟩
    · rcases hnew m₂ s h₂ with hold₂ | ⟨-, hs₂, hc₂⟩
      · exact h.inj m₁ m₂ s hold₁ hold₂
      · exact absurd (hs₂ ▸ hold₁) (hc₂.new m₁)
    · rcases hnew m₂ s h₂ with hold₂ | ⟨hm₂, -, -⟩
      · exact absurd (hs₁ ▸ hold₂) (hc₁.new m₂)
      · rw [hm₁, hm₂]
  · obtain ⟨s, hs⟩ := h.inside u m' (hinside u m' ▸ hu)
    exact ⟨s, hmark m' s hs⟩
  · by_cases hu : u = t
    · exact hu ▸ hat
    · rw [hplace u hu]
      refine (h.places u).mono hmark (congrFun hheld u) fun hc => ?_
      exact absurd (h.first_unique hone hc.first.insideFirst) hu

/-- `malloc` finds memory. -/
theorem Inv.malloc (h : Inv σ) (hplace : σ.place t = .allocating m) :
    Inv ((σ.malloc m true).goto t (.allocated m)) := by
  have hmagic : (σ.mtx m).magic ≠ pthreadAsWrmMagic := h.place hplace
  have hmtx : ((σ.malloc m true).goto t (.allocated m)).mtx m = ⟨(σ.mtx m).magic, some (σ.blocks + 1)⟩ :=
    Function.update_self ..
  have hother : ∀ m', m' ≠ m → ((σ.malloc m true).goto t (.allocated m)).mtx m' = σ.mtx m' :=
    fun m' hm' => Function.update_of_ne hm' ..
  have hmark : ∀ m' s, Marked ((σ.malloc m true).goto t (.allocated m)) m' s ↔ Marked σ m' s := by
    intro m' s
    unfold Marked
    by_cases hm' : m' = m
    · rw [hm', hmtx]
      exact iff_of_false (fun hc => hmagic hc.1) fun hc => hmagic hc.1
    · rw [hother m' hm']
  refine h.create (m := m) (hplace ▸ trivial) rfl rfl (fun u hu => Function.update_of_ne hu ..)
    (Function.update_self ..) trivial (fun m' s => (hmark m' s).mpr)
    (fun m' s hm' => .inl ((hmark m' s).mp hm')) (fun m' hm' => ?_)
    ⟨?_, ?_, Nat.succ_pos _, fun m' hm' => ?_⟩
  · by_cases hmm : m' = m
    · rw [hmm, hmtx] at hm'
      exact absurd hm' hmagic
    · rw [hother m' hmm] at hm' ⊢
      obtain ⟨s, hs, hpos, hle, hready⟩ := h.marked m' hm'
      exact ⟨s, hs, hpos, Nat.le_succ_of_le hle, hready⟩
  · rw [hmtx]
    exact hmagic
  · rw [hmtx]
    rfl
  · have hle := (h.marked_pos ((hmark m' _).mp hm')).2.1
    exact absurd hle (Nat.not_succ_le_self σ.blocks)

/-- `wrm_mtx_init`: the semaphore of the block has never been used. -/
theorem Inv.mtxInit (h : Inv σ) (hplace : σ.place t = .initing m) :
    Inv ((σ.mtxInit σ.blocks).goto t (.marking m)) := by
  have hc : Creating σ m := h.place hplace
  have hsys : (σ.mtxInit σ.blocks).sys = σ.sys := by
    have hfree := (h.free σ.blocks hc.pos.ne' hc.new).1
    change σ.sys.setSem σ.blocks wrmMtxInitializer = σ.sys
    unfold SemSys.setSem
    rw [← hfree, Function.update_eq_self]
  refine h.create (m := m) (hplace ▸ trivial) hsys rfl (fun u hu => Function.update_of_ne hu ..)
    (Function.update_self ..) trivial (fun m' s => id) (fun m' s => .inl) (fun m' hm' => ?_)
    ⟨⟨hc.magic, hc.wmtx, hc.pos, hc.new⟩, Function.update_self ..⟩
  obtain ⟨s, hs, hpos, hle, hready⟩ := h.marked m' hm'
  refine ⟨s, hs, hpos, hle, ?_⟩
  change Function.update σ.ready σ.blocks true s = true
  rw [Function.update_apply]
  split_ifs
  · rfl
  · exact hready

/-- The magic number is written. -/
theorem Inv.mark (h : Inv σ) (hplace : σ.place t = .marking m) :
    Inv ((σ.setMtx m { σ.mtx m with magic := pthreadAsWrmMagic }).goto t (.leaving m)) := by
  obtain ⟨hc, hready⟩ : Creating σ m ∧ σ.ready σ.blocks = true := h.place hplace
  have hmtx : ((σ.setMtx m { σ.mtx m with magic := pthreadAsWrmMagic }).goto t (.leaving m)).mtx m =
      ⟨pthreadAsWrmMagic, some σ.blocks⟩ :=
    (Function.update_self (β := fun _ => PthreadMutex) ..).trans (by rw [hc.wmtx])
  have hother : ∀ m', m' ≠ m →
      ((σ.setMtx m { σ.mtx m with magic := pthreadAsWrmMagic }).goto t (.leaving m)).mtx m' = σ.mtx m' :=
    fun m' hm' => Function.update_of_ne hm' ..
  refine h.create (m := m) (hplace ▸ trivial) rfl rfl (fun u hu => Function.update_of_ne hu ..)
    (Function.update_self ..) trivial (fun m' s hm' => ?_) (fun m' s hm' => ?_) (fun m' hm' => ?_)
    ⟨σ.blocks, ?_⟩
  · have hmm : m' ≠ m := fun heq => hc.magic (heq ▸ hm'.1)
    unfold Marked
    rw [hother m' hmm]
    exact hm'
  · unfold Marked at hm'
    by_cases hmm : m' = m
    · rw [hmm, hmtx] at hm'
      exact .inr ⟨hmm, (Option.some.inj hm'.2).symm, hc⟩
    · rw [hother m' hmm] at hm'
      exact .inl hm'
  · by_cases hmm : m' = m
    · rw [hmm, hmtx]
      exact ⟨σ.blocks, rfl, hc.pos, Nat.le_refl _, hready⟩
    · rw [hother m' hmm] at hm' ⊢
      exact h.marked m' hm'
  · unfold Marked
    rw [hmtx]
    exact ⟨rfl, rfl⟩

/-! ## Every step -/

theorem goto_place (p : Place) : (σ.goto t p).place t = p := Function.update_self ..

theorem Inv.gotoOutside (h : Inv σ) {p : Place} (hpc : σ.sys.pc t = .out) (hold : Outside (σ.place t))
    (hnew : Outside p) (hat : At σ t p) : Inv (σ.goto t p) := by
  have hself : Outside ((σ.goto t p).place t) := by
    rw [goto_place]
    exact hnew
  refine h.goto ?_ (hself.insideFirst.trans hold.insideFirst.symm)
    (fun m => (hself.inside m).trans (hold.inside m).symm) hat
  rw [hpc]
  cases p <;> first | rfl | exact .inl rfl

/-- A thread inside `_mtx` goes on there. -/
theorem Inv.gotoFirst (h : Inv σ) {p : Place} (hpc : σ.sys.pc t = .out) (hfirst : insideFirst σ t = 1)
    (hinside : ∀ m, PthreadSys.inside σ t m = if σ.held t m then 1 else 0) (hnew : First p)
    (hat : At σ t p) : Inv (σ.goto t p) := by
  have hself : First ((σ.goto t p).place t) := by
    rw [goto_place]
    exact hnew
  exact h.goto (hnew.inCall_iff.mpr hpc) (hself.insideFirst.trans hfirst.symm)
    (fun m => (hself.inside m).trans (hinside m).symm) hat

/-- The lock of a mutex returns. -/
theorem Inv.lockReturns (h : Inv σ) (hpc : σ.sys.pc t = .out) (hplace : σ.place t = .locked m s)
    (hret : σ.sys.ret t = 0) : Inv ((σ.setHeld t m true).finish t (σ.sys.ret t)) := by
  have hself : ((σ.setHeld t m true).finish t (σ.sys.ret t)).place t = .out := Function.update_self ..
  have hheld : ∀ m', ((σ.setHeld t m true).finish t (σ.sys.ret t)).held t m' =
      if m' = m then true else σ.held t m' := by
    intro m'
    change Function.update σ.held t (Function.update (σ.held t) m true) t m' = _
    rw [Function.update_self, Function.update_apply]
  refine h.local rfl rfl rfl rfl
    (fun u hu => ⟨Function.update_of_ne hu .., Function.update_of_ne hu ..⟩) ?_ ?_ (fun m' => ?_) ?_
  · rw [hself]
    exact hpc
  · unfold insideFirst
    rw [hself, hplace]
  · unfold PthreadSys.inside
    rw [hself, hplace, hheld]
    by_cases hm : m' = m
    · rw [if_pos hm, if_pos rfl]
      have hgot : m = m' ∧ Got σ t := ⟨hm.symm, hpc, hret⟩
      dsimp only
      rw [if_pos hgot, ite_self]
    · have hno : ¬ (m = m' ∧ Got σ t) := fun hg => hm hg.1.symm
      rw [if_neg hm]
      dsimp only
      rw [if_neg hno]
  · rw [hself]
    trivial

/-- A holder calls `pthread_mutex_unlock`. -/
theorem Inv.unlockCalled (h : Inv σ) (hplace : σ.place t = .out) (hheld : σ.held t m = true) :
    Inv ((σ.setHeld t m false).goto t (.checking m)) := by
  have hself : ((σ.setHeld t m false).goto t (.checking m)).place t = .checking m := goto_place _
  have hpc : σ.sys.pc t = .out := by
    have hc := h.calls t
    rw [hplace] at hc
    exact hc
  have hheld' : ∀ m', ((σ.setHeld t m false).goto t (.checking m)).held t m' =
      if m' = m then false else σ.held t m' := by
    intro m'
    change Function.update σ.held t (Function.update (σ.held t) m false) t m' = _
    rw [Function.update_self, Function.update_apply]
  have hin : ∀ m', PthreadSys.inside σ t m' = if σ.held t m' then 1 else 0 :=
    Outside.inside (hplace ▸ trivial)
  refine h.local rfl rfl rfl rfl
    (fun u hu => ⟨Function.update_of_ne hu .., Function.update_of_ne hu ..⟩) ?_ ?_ (fun m' => ?_) ?_
  · rw [hself]
    exact hpc
  · unfold insideFirst
    rw [hself, hplace]
  · rw [hin]
    unfold PthreadSys.inside
    rw [hself, hheld']
    by_cases hm : m' = m
    · rw [hm, if_pos rfl, hheld, if_pos rfl]
      exact if_pos rfl
    · rw [if_neg hm]
      dsimp only
      rw [if_neg (Ne.symm hm)]
  · rw [hself]
    refine ⟨(hheld' m).trans (if_pos rfl), ?_⟩
    refine h.inside t m ?_
    rw [hin, hheld]
    exact Nat.one_ne_zero

theorem call_eq {a : SemSys.Act} {sys : SemSys} {p : Place} (hok : σ.sys.step a = .ok sys) :
    σ.call t a p = .ok ({ σ with sys := sys }.goto t p) := by
  unfold call
  rw [hok]
  rfl

/-- A thread that is in no call of `sem.cpp`, while `malloc` finds memory. -/
theorem Inv.advance (h : Inv σ) (hpc : σ.sys.pc t = .out) :
    ∃ σ', σ.advance t true = .ok σ' ∧ Inv σ' := by
  have hat := h.places t
  have hrec : ∀ s, (σ.sys.sem s).recursive = false := fun s => (h.sem.good s).recursive
  have hwait : ∀ s, σ.sys.step (.wait t s semTimeoutInfinite) = .ok (σ.sys.wait t s semTimeoutInfinite) :=
    fun s => if_pos hpc
  have hpost : ∀ s, ∃ sys, σ.sys.step (.post t s) = .ok sys := fun s => by
    obtain ⟨sys, hsys, -⟩ := SemSys.step_effect wrmMtxInitializer_fresh h.sem (.post t s)
    exact ⟨sys, hsys⟩
  unfold PthreadSys.advance
  cases hp : σ.place t with
  | out => exact ⟨σ, rfl, h⟩
  | testing m =>
    refine ⟨_, rfl, ?_⟩
    split_ifs with hmagic
    · exact h.gotoOutside hpc (hp ▸ trivial) trivial trivial
    · obtain ⟨s, hs, -⟩ := h.marked m (not_not.mp hmagic)
      exact h.gotoOutside hpc (hp ▸ trivial) trivial ⟨s, not_not.mp hmagic, hs⟩
  | entering m =>
    have hout : Outside (σ.place t) := hp ▸ trivial
    exact ⟨_, call_eq (hwait 0), h.turnFirst m (hwait 0) rfl (fun _ => trivial) (fun r hr => hr.symm)
      (SemSys.wait_waited (h.excl 0) (hrec 0)) hout.insideFirst hout.inside⟩
  | entered m =>
    refine ⟨_, rfl, ?_⟩
    have hinside : ∀ m', PthreadSys.inside σ t m' = if σ.held t m' then 1 else 0 := by
      intro m'
      unfold PthreadSys.inside
      rw [hp]
    split_ifs with hret
    · refine h.finish hpc _ ?_ hinside
      unfold insideFirst
      rw [hp]
      exact if_neg fun hg => hret hg.2
    · refine h.gotoFirst hpc ?_ hinside trivial trivial
      unfold insideFirst
      rw [hp]
      exact if_pos ⟨hpc, not_not.mp hret⟩
  | retesting m =>
    refine ⟨_, rfl, ?_⟩
    have hin : First (σ.place t) := hp ▸ trivial
    split_ifs with hmagic
    · exact h.gotoFirst hpc hin.insideFirst hin.inside trivial hmagic
    · obtain ⟨s, hs, -⟩ := h.marked m (not_not.mp hmagic)
      exact h.gotoFirst hpc hin.insideFirst hin.inside trivial ⟨s, not_not.mp hmagic, hs⟩
  | allocating m => exact ⟨_, rfl, h.malloc hp⟩
  | allocated m =>
    rw [hp] at hat
    have hc : Creating σ m := hat
    have hin : First (σ.place t) := hp ▸ trivial
    refine ⟨_, rfl, ?_⟩
    rw [hc.wmtx]
    exact h.gotoFirst hpc hin.insideFirst hin.inside trivial hc
  | initing m =>
    rw [hp] at hat
    have hc : Creating σ m := hat
    refine ⟨_, ?_, h.mtxInit hp⟩
    dsimp only
    rw [hc.wmtx]
    rfl
  | marking m => exact ⟨_, rfl, h.mark hp⟩
  | leaving m =>
    obtain ⟨sys, hsys⟩ := hpost 0
    exact ⟨_, call_eq hsys, h.postFirst hpc hp hsys⟩
  | left m =>
    rw [hp] at hat
    have hout : Outside (σ.place t) := hp ▸ trivial
    refine ⟨_, rfl, ?_⟩
    split_ifs
    · exact h.finish hpc _ hout.insideFirst hout.inside
    · exact h.gotoOutside hpc hout trivial hat
  | fetching m =>
    rw [hp] at hat
    obtain ⟨s, hs⟩ := hat
    refine ⟨σ.goto t (.locking m s), ?_, h.gotoOutside hpc (hp ▸ trivial) trivial hs⟩
    dsimp only
    rw [hs.2]
    rfl
  | locking m s =>
    rw [hp] at hat
    have hm : Marked σ m s := hat
    have hout : Outside (σ.place t) := hp ▸ trivial
    refine ⟨_, ?_, h.turnOwn (hwait s) rfl (fun _ => trivial) (fun r hr => hr.symm)
      (SemSys.wait_waited (h.excl s) (hrec s)) hout.insideFirst hout.inside hm⟩
    dsimp only
    rw [ensure_bind_of (h.marked_pos hm).2.2]
    exact call_eq (hwait s)
  | locked m s =>
    refine ⟨_, rfl, ?_⟩
    split_ifs with hret
    · exact h.lockReturns hpc hp hret
    · refine h.finish hpc _ ?_ fun m' => ?_
      · unfold insideFirst
        rw [hp]
      · unfold PthreadSys.inside
        rw [hp]
        have hno : ¬ (m = m' ∧ Got σ t) := fun hg => hret hg.2.2
        dsimp only
        rw [if_neg hno]
  | checking m =>
    rw [hp] at hat
    obtain ⟨hheld, s, hs⟩ := hat
    refine ⟨_, rfl, ?_⟩
    rw [if_pos hs.1]
    refine h.goto (by rw [hpc]; rfl) ?_ (fun m' => ?_) ⟨hheld, s, hs⟩
    · unfold insideFirst
      rw [goto_place, hp]
    · unfold PthreadSys.inside
      rw [goto_place, hp]
      rfl
  | reading m =>
    rw [hp] at hat
    obtain ⟨hheld, s, hs⟩ := hat
    refine ⟨σ.goto t (.unlocking m s), ?_, ?_⟩
    · dsimp only
      rw [hs.2]
      rfl
    refine h.goto (by rw [hpc]; rfl) ?_ (fun m' => ?_) ⟨hheld, hs⟩
    · unfold insideFirst
      rw [goto_place, hp]
    · unfold PthreadSys.inside
      rw [goto_place, hp]
      rfl
  | unlocking m s =>
    rw [hp] at hat
    obtain ⟨sys, hsys⟩ := hpost s
    refine ⟨_, ?_, h.postOwn hpc hp hsys⟩
    dsimp only
    rw [ensure_bind_of (h.marked_pos hat.2).2.2]
    exact call_eq hsys
  | unlocked m s =>
    have hout : Outside (σ.place t) := hp ▸ trivial
    exact ⟨_, rfl, h.finish hpc _ hout.insideFirst hout.inside⟩

theorem goto_self (sys : SemSys) {p : Place} (hp : σ.place t = p) :
    { σ with sys := sys }.goto t p = { σ with sys := sys } := by
  unfold PthreadSys.goto
  rw [← hp, Function.update_eq_self]

/-- The next step of a thread that waits for a semaphore. -/
theorem Inv.waits_step (h : Inv σ) (hw : SemSys.Waits s (σ.sys.pc t)) :
    semAct t (σ.sys.pc t) = none ∨ ∃ a sys, semAct t (σ.sys.pc t) = some a ∧ σ.sys.step a = .ok sys ∧
      SemSys.actor a = t ∧ (∀ r, SemSys.Outermost r σ.sys a) ∧ (∀ r, ¬ SemSys.touches r a) ∧
      SemSys.Waited σ.sys sys t s := by
  rcases hw with hw | hw | hw
  · obtain ⟨sys, hsys, -⟩ := SemSys.step_effect wrmMtxInitializer_fresh h.sem (.suspend t)
    rw [hw]
    exact .inr ⟨_, sys, rfl, hsys, rfl, fun _ => trivial, fun _ => id, SemSys.suspend_waited hw hsys⟩
  · rw [hw]
    exact .inl rfl
  · obtain ⟨sys, hsys, -⟩ := SemSys.step_effect wrmMtxInitializer_fresh h.sem (.check t)
    rw [hw]
    exact .inr ⟨_, sys, rfl, hsys, rfl, fun _ => trivial, fun _ => id,
      SemSys.check_waited h.sem (h.lone s) hw hsys⟩

/-- A thread in a call of `sem.cpp` goes on. -/
theorem Inv.inCall_step (h : Inv σ) (hpc : σ.sys.pc t ≠ .out) :
    semAct t (σ.sys.pc t) = none ∨ ∃ a sys, semAct t (σ.sys.pc t) = some a ∧ σ.sys.step a = .ok sys ∧
      Inv { σ with sys := sys } := by
  have hcall := h.calls t
  have hat := h.places t
  have hno : ¬ Got σ t := fun hg => hpc hg.1
  have hsignal : (∃ u, σ.sys.pc t = .signalling u) → ∃ a sys, semAct t (σ.sys.pc t) = some a ∧
      σ.sys.step a = .ok sys ∧ Inv { σ with sys := sys } := by
    rintro ⟨u, hu⟩
    obtain ⟨sys, hsys, -⟩ := SemSys.step_effect wrmMtxInitializer_fresh h.sem (.signal t)
    exact ⟨.signal t, sys, by rw [hu]; rfl, hsys, h.signal hu hsys⟩
  cases hp : σ.place t with
  | entered m =>
    rw [hp] at hcall
    refine (h.waits_step (hcall.resolve_left hpc)).imp id ?_
    rintro ⟨a, sys, ha, hsys, hactor, hout, htouch, hw⟩
    refine ⟨a, sys, ha, hsys, ?_⟩
    rw [← goto_self sys hp]
    refine h.turnFirst m hsys hactor hout (fun r _ => htouch r) hw ?_ fun m' => ?_
    · unfold insideFirst
      rw [hp]
      exact if_neg hno
    · unfold PthreadSys.inside
      rw [hp]
  | locked m s =>
    rw [hp] at hcall hat
    refine (h.waits_step (hcall.resolve_left hpc)).imp id ?_
    rintro ⟨a, sys, ha, hsys, hactor, hout, htouch, hw⟩
    refine ⟨a, sys, ha, hsys, ?_⟩
    rw [← goto_self sys hp]
    refine h.turnOwn hsys hactor hout (fun r _ => htouch r) hw ?_ (fun m' => ?_) hat
    · unfold insideFirst
      rw [hp]
    · unfold PthreadSys.inside
      rw [hp]
      have hno' : ¬ (m = m' ∧ Got σ t) := fun hg => hno hg.2
      dsimp only
      rw [if_neg hno']
  | left m =>
    rw [hp] at hcall
    exact .inr (hsignal (hcall.resolve_left hpc))
  | unlocked m s =>
    rw [hp] at hcall
    exact .inr (hsignal (hcall.resolve_left hpc))
  | _ =>
    rw [hp] at hcall
    exact absurd hcall hpc

/-! ## Runs -/

/-- `malloc` finds memory, and a thread unlocks only what it holds. -/
def Disciplined (σ : PthreadSys) : Act → Prop
  | .lock _ _ => True
  | .unlock t m => σ.place t = .out → σ.held t m = true
  | .go _ found => found = true

instance (σ : PthreadSys) : ∀ a, Decidable (Disciplined σ a)
  | .lock _ _ => isTrue trivial
  | .unlock t m => inferInstanceAs (Decidable (σ.place t = .out → σ.held t m = true))
  | .go _ found => inferInstanceAs (Decidable (found = true))

/-- **A step** is taken and keeps the invariant. -/
theorem Inv.step (h : Inv σ) {a : Act} (ha : Disciplined σ a) : ∃ σ', σ.step a = .ok σ' ∧ Inv σ' := by
  cases a with
  | lock t m =>
    refine ⟨_, rfl, ?_⟩
    split_ifs with hout
    · have hpc : σ.sys.pc t = .out := by
        have hc := h.calls t
        rw [hout] at hc
        exact hc
      exact h.gotoOutside hpc (hout ▸ trivial) trivial trivial
    · exact h
  | unlock t m =>
    refine ⟨_, rfl, ?_⟩
    split_ifs with hout
    · exact h.unlockCalled hout (ha hout)
    · exact h
  | go t found =>
    obtain rfl : found = true := ha
    dsimp only [PthreadSys.step]
    by_cases hpc : σ.sys.pc t = .out
    · rw [if_pos hpc]
      exact h.advance hpc
    · rw [if_neg hpc]
      rcases h.inCall_step hpc with hnone | ⟨a, sys, ha, hsys, hinv⟩
      · rw [hnone]
        exact ⟨σ, rfl, h⟩
      · rw [ha]
        exact ⟨_, bind_eq_ok.mpr ⟨sys, hsys, rfl⟩, hinv⟩

theorem run_inv {mtx : Nat → PthreadMutex} (hmtx : ∀ m, (mtx m).magic ≠ pthreadAsWrmMagic)
    {acts : List Act} (hmeets : Meets PthreadSys.step Disciplined (PthreadSys.start mtx) acts) :
    ∃ σ, runAll PthreadSys.step (PthreadSys.start mtx) acts = .ok σ ∧ Inv σ := by
  have hmeets' : Meets PthreadSys.step (fun σ a => Inv σ ∧ Disciplined σ a) (PthreadSys.start mtx) acts :=
    Meets.of_invariant (I := Inv)
      (fun σ a σ' h ha hok => by
        obtain ⟨σ'', hstep, hinv⟩ := h.step ha
        exact Except.ok.inj (hstep.symm.trans hok) ▸ hinv)
      (fun _ _ h ha => ⟨h, ha⟩) (Inv.start hmtx) hmeets
  obtain ⟨σ, hrun⟩ := hmeets'.exists_ok fun σ a h => (h.1.step h.2).imp fun _ => And.left
  refine ⟨σ, hrun, runAll_invariant (I := Inv) (fun σ a σ' _ h hok => ?_) (Inv.start hmtx) hmeets' hrun⟩
  obtain ⟨σ'', hstep, hinv⟩ := h.1.step h.2
  exact Except.ok.inj (hstep.symm.trans hok) ▸ hinv

end PthreadSys

end Wrmos
