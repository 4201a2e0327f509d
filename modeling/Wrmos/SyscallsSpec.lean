import Wrmos.Startup
import Wrmos.IpcSpec

/-!
# What the system calls change

Each operation of thread management, taken apart: the checks it passed, and the state it leaves.  The
operations are built from four writes (a thread, a slot, a task, the memory), so most of what they leave
alone is read off the state by `simp`; what `state()` does behind them is in `ThreadsEffect`.

`Life` is the part of a thread that the life cycle of threads and tasks is about.
-/

namespace Wrmos

open Lib

/-- Who a thread is, its state, and its pager. -/
structure Life where
  ident : Ident
  state : TState
  pager : Option Nat

/-- The part of a thread that its life cycle is about. -/
def Thread.life (th : Thread) : Life := ⟨th.ident, th.state, th.pager⟩

theorem Thread.life_of_bare {th th' : Thread} (h : th'.bare = th.bare) : th'.life = th.life := by
  have hp : th'.pager = th.pager := by injection h
  unfold life
  rw [ident_of_bare h, state_of_bare h, hp]

namespace Threads

variable {A : Arch} {ts ts' : Threads} {t c : Nat}

/-! ## Looking for a thread -/

theorem findNumber_eq_some {n : Nat} (h : ts.findNumber n = some t) :
    threadNumberMin ≤ n ∧ n < threadNumberMin + threadsMax ∧ t = n - threadNumberMin ∧
      (ts.thr t).state ≠ .idle := by
  unfold findNumber at h
  split_ifs at h with hrange
  dsimp only at h
  split_ifs at h with hidle
  obtain rfl := Option.some.inj h
  exact ⟨hrange.1, hrange.2, rfl, hidle⟩

/-- A thread that is found is not idle, and a local identifier is its UTCB. -/
theorem find_eq_some {id : Nat} (h : ts.find A c id = .ok (some t)) :
    (ts.thr t).state ≠ .idle ∧ t < threadsMax ∧
      (Thrid.isLocal A id = true → (ts.thr t).task = c ∧ (ts.thr t).uutcb = id) := by
  unfold find at h
  split_ifs at h with hglobal hlocal
  · obtain ⟨hmin, hmax, ht, hidle⟩ := findNumber_eq_some (Except.ok.inj h)
    refine ⟨hidle, by omega, fun hl => ?_⟩
    unfold Thrid.isLocal at hl
    unfold Thrid.isGlobal at hglobal
    simp_all
  · unfold findByUtcb at h
    split at h
    · rename_i u hu
      have hp : (ts.thr u).task = c ∧ (ts.thr u).uutcb = id := by simpa using List.find?_some hu
      have hlt := List.mem_range.mp (List.mem_of_find?_eq_some hu)
      by_cases hidle : (ts.thr u).state = .idle
      · rw [if_pos hidle] at h
        cases Except.ok.inj h
      · rw [if_neg hidle] at h
        obtain rfl := Option.some.inj (Except.ok.inj h)
        exact ⟨hidle, hlt, fun _ => hp⟩
    · cases h
  · cases Except.ok.inj h

/-! ## Creation and deletion -/

/-- The fields that `create` sets. -/
def created (globid schedid pagerid task prio : Nat) (th : Thread) : Thread :=
  { th with
    task := task
    globid := globid
    schedid := schedid
    pagerid := pagerid
    prio := prio % 256
    state := .inactive }

/-- **`create`** fills an idle slot; then the slot gives back the priority its last occupant passed on. -/
theorem create_eq_ok {globid schedid pagerid task prio : Nat}
    (hok : ts.create A c globid schedid pagerid task prio = .ok (ts', t)) :
    (threadNumberMin ≤ Thrid.number A globid ∧ Thrid.number A globid < threadNumberMin + threadsMax) ∧
      t = Thrid.number A globid - threadNumberMin ∧ (ts.thr t).state = .idle ∧
      (ts.upd t (created globid schedid pagerid task prio)).dropHeir A c t = .ok ts' := by
  unfold create at hok
  obtain ⟨hrange, hok⟩ := ensure_bind_eq_ok.mp hok
  obtain ⟨hidle, hok⟩ := ensure_bind_eq_ok.mp hok
  obtain ⟨ts₁, hprio, hok⟩ := bind_eq_ok.mp hok
  obtain ⟨ts₂, hstate, hok⟩ := bind_eq_ok.mp hok
  obtain ⟨rfl, rfl⟩ := Prod.mk.inj (Except.ok.inj hok)
  refine ⟨hrange, rfl, hidle, ?_⟩
  generalize Thrid.number A globid - threadNumberMin = t at hidle hprio hstate ⊢
  -- an idle thread is in no list, so neither `prio()` nor `state()` moves it
  unfold setPrio at hprio
  rw [thr_upd_self, if_neg (by rw [hidle]; decide)] at hprio
  obtain rfl := Except.ok.inj hprio
  unfold setState unlink link Thread.que at hstate
  simpa [upd, entered, hidle, ensure, bind, Except.bind, created] using hstate

theorem life_created (globid schedid pagerid task prio : Nat) (th : Thread) :
    (created globid schedid pagerid task prio th).life =
      ⟨⟨task, th.uutcb, globid⟩, .inactive, th.pager⟩ := rfl

theorem remove_eq_ok {globid : Nat} (hok : ts.remove A c globid = .ok ts') :
    ts.setState A c (Thrid.number A globid - threadNumberMin) .idle = .ok ts' := by
  unfold remove at hok
  exact (ensure_bind_eq_ok.mp hok).2

theorem life_entered (s : TState) (th : Thread) : (entered s th).life = { th.life with state := s } := by
  unfold entered
  split_ifs <;> rfl

/-- `state(s)` changes the life of its thread only. -/
theorem setState_life {s : TState} (hok : ts.setState A c t s = .ok ts') (u : Nat) :
    (ts'.thr u).life = if u = t then { (ts.thr t).life with state := s } else (ts.thr u).life := by
  have hb := setState_bare hok u
  split_ifs at hb ⊢ with hu
  · rw [Thread.life_of_bare hb, life_entered]
  · exact Thread.life_of_bare hb

/-- A change of the priority is none of the life of any thread. -/
theorem setPrio_life {v : Nat} (hok : ts.setPrio t v = .ok ts') (u : Nat) :
    (ts'.thr u).life = (ts.thr u).life := by
  have hiter : ∀ (ts₀ : Threads) (i : Option (Que × Nat)),
      (ts₀.setIter t i u).life = (ts₀.thr u).life := by
    intro ts₀ i
    by_cases hu : u = t
    · subst hu
      rw [setIter_self]
      rfl
    · rw [setIter_ne _ hu]
  have hprio : ∀ ts₀ : Threads,
      ((ts₀.upd t fun th => { th with prio := v % 256 }).thr u).life = (ts₀.thr u).life := by
    intro ts₀
    by_cases hu : u = t
    · subst hu
      rw [thr_upd_self]
      rfl
    · rw [thr_upd_ne _ hu]
  unfold setPrio at hok
  split_ifs at hok
  · obtain ⟨ts₁, hdel, hadd⟩ := bind_eq_ok.mp hok
    obtain ⟨i, hi⟩ := addTo_thr hadd
    rw [hi, hiter, hprio, delReady_thr hdel, hiter]
  · obtain rfl := Except.ok.inj hok
    exact hprio ts

end Threads

namespace Sys

variable {A : Arch} {P : Platform} {σ σ' : Sys} {t u tsk : Nat}

/-! ## The four writes -/

@[simp] theorem thr_updThr_self (f : Thread → Thread) : (σ.updThr t f).thr t = f (σ.thr t) :=
  Threads.thr_upd_self f

theorem thr_updThr_ne (f : Thread → Thread) (h : u ≠ t) : (σ.updThr t f).thr u = σ.thr u :=
  Threads.thr_upd_ne f h

theorem thr_updThr (f : Thread → Thread) :
    (σ.updThr t f).thr u = if u = t then f (σ.thr t) else σ.thr u := by
  split_ifs with h
  · rw [h, thr_updThr_self]
  · rw [thr_updThr_ne f h]

@[simp] theorem task_updThr (f : Thread → Thread) : (σ.updThr t f).task = σ.task := rfl

theorem slot_updSlot (f : Slot → Slot) :
    (σ.updSlot t f).slot u = if u = t then f (σ.slot t) else σ.slot u := by
  change Function.update σ.slot t (f (σ.slot t)) u = _
  rw [Function.update_apply]

theorem task_putTask (x : Task) (y : Nat) :
    (σ.putTask tsk x).task y = if y = tsk then x else σ.task y := by
  change Function.update σ.task tsk x y = _
  rw [Function.update_apply]

@[simp] theorem task_putMem (m : Mem) : (σ.putMem m).task = σ.task := rfl

/-! ## The operations on a thread and its UTCB -/

theorem deref_eq_ok {x : Task} (hok : σ.deref tsk = .ok x) : tsk ≠ 0 ∧ x = σ.task tsk := by
  obtain ⟨hne, hok⟩ := ensure_bind_eq_ok.mp hok
  exact ⟨hne, (Except.ok.inj hok).symm⟩

/-- The creation of a thread, taken apart. -/
theorem createThread_eq_ok {globid schedid pagerid prio : Nat}
    (hok : σ.createThread A globid schedid pagerid tsk prio = .ok (σ', t)) :
    (threadNumberMin ≤ Thrid.number A globid ∧ Thrid.number A globid < threadNumberMin + threadsMax) ∧
      t = Thrid.number A globid - threadNumberMin ∧ (σ.thr t).state = .idle ∧
      ∃ ts, (σ.k.ts.upd t (Threads.created globid schedid pagerid tsk prio)).dropHeir A σ.k.curTask t = .ok ts ∧
        σ' = ({ σ with k := { σ.k with ts := ts } } : Sys).setupKstack t := by
  obtain ⟨⟨ts, t'⟩, hcreate, hok⟩ := bind_eq_ok.mp hok
  obtain ⟨rfl, rfl⟩ := Prod.mk.inj (Except.ok.inj hok)
  obtain ⟨hrange, ht, hidle, hdrop⟩ := Threads.create_eq_ok hcreate
  exact ⟨hrange, ht, hidle, ts, hdrop, rfl⟩

/-- The location of a UTCB, taken apart. -/
theorem utcbLocation_eq_ok {kioSz pa : Nat} (hok : σ.utcbLocation A kioSz t pa = .ok σ') :
    (σ.thr t).isActive = false ∧ ∃ r, σ.k.mem.kmapUtcb A kioSz pa = .ok r ∧
      σ' = (σ.putMem r.1).updSlot t fun s => { s with utcbPa := pa, kutcb := r.2 } := by
  obtain ⟨hact, hok⟩ := ensure_bind_eq_ok.mp hok
  obtain ⟨r, hmap, hok⟩ := bind_eq_ok.mp hok
  exact ⟨hact, r, hmap, (Except.ok.inj hok).symm⟩

/-- The location that the caller gave, taken apart. -/
theorem setUtcb_eq_ok {kioSz utcb : Nat} (hok : σ.setUtcb A kioSz t utcb = .ok σ') :
    utcb = A.minusOne ∧ σ' = σ ∨
      utcb ≠ A.minusOne ∧ (σ.thr t).isActive = false ∧ ∃ pa r, pa ≠ 0 ∧
        σ.k.mem.walk A σ.cur.task utcb pageSz = .ok pa ∧ σ.k.mem.kmapUtcb A kioSz pa = .ok r ∧
        σ' = (σ.putMem r.1).updSlot t fun s => { s with utcbPa := pa, kutcb := r.2 } := by
  unfold setUtcb at hok
  split_ifs at hok with hnone
  · exact .inl ⟨hnone, (Except.ok.inj hok).symm⟩
  · obtain ⟨pa, hwalk, hok⟩ := bind_eq_ok.mp hok
    obtain ⟨hpa, hok⟩ := ensure_bind_eq_ok.mp hok
    obtain ⟨hact, r, hmap, rfl⟩ := utcbLocation_eq_ok hok
    exact .inr ⟨hnone, hact, pa, r, hpa, hwalk, hmap, rfl⟩

/-- The release of the UTCB in the kernel window, taken apart. -/
theorem freeUtcbKspace_eq_ok (hok : σ.freeUtcbKspace A t = .ok σ') :
    (σ.slot t).kutcb = 0 ∧ σ' = σ ∨
      (σ.slot t).kutcb ≠ 0 ∧ ∃ m, σ.k.mem.kunmapUtcb A (σ.slot t).kutcb = .ok m ∧
        σ' = (σ.putMem m).updSlot t fun s =>
          { s with utcbPa := A.minusOne, kutcb := A.minusOne } := by
  unfold freeUtcbKspace at hok
  split_ifs at hok with hzero
  · exact .inl ⟨hzero, (Except.ok.inj hok).symm⟩
  · obtain ⟨m, hunmap, hok⟩ := bind_eq_ok.mp hok
    exact .inr ⟨hzero, m, hunmap, (Except.ok.inj hok).symm⟩

/-- The activation of a thread, taken apart: the task has room for its UTCB, the UTCB is mapped there,
and the thread becomes active. -/
theorem activate_eq_ok (hok : σ.activate A t = .ok σ') :
    (σ.thr t).isActive = false ∧ (σ.slot t).utcbPa ≠ 0 ∧ (σ.thr t).task ≠ 0 ∧
      (σ.task (σ.thr t).task).isConfigured A = true ∧
      ∃ uutcb x m ts, uutcb ≠ 0 ∧ (σ.task (σ.thr t).task).allocUtcbUspace A = .ok (uutcb, x) ∧
        σ.k.mem.map A (σ.thr t).task uutcb (σ.slot t).utcbPa pageSz Acc.utcb 1 = .ok m ∧
        (σ.k.ts.upd t fun th => { th with uutcb := uutcb }).setState A
          (({ σ.k with mem := m } : Kern).upd t fun th => { th with uutcb := uutcb }).curTask t .active =
            .ok ts ∧
        σ' = (({ σ with k := { σ.k with ts := ts } } : Sys).putTask (σ.thr t).task x).putMem m := by
  obtain ⟨hact, hok⟩ := ensure_bind_eq_ok.mp hok
  obtain ⟨hpa, hok⟩ := ensure_bind_eq_ok.mp hok
  obtain ⟨x, hderef, hok⟩ := bind_eq_ok.mp hok
  obtain ⟨hne, rfl⟩ := deref_eq_ok hderef
  obtain ⟨hconf, hok⟩ := ensure_bind_eq_ok.mp hok
  obtain ⟨r, halloc, hok⟩ := bind_eq_ok.mp hok
  obtain ⟨hva, hok⟩ := ensure_bind_eq_ok.mp hok
  obtain ⟨m, hmap, hok⟩ := bind_eq_ok.mp hok
  obtain ⟨k, hstate, hok⟩ := bind_eq_ok.mp hok
  obtain rfl := Except.ok.inj hok
  obtain ⟨ts, hts, hk⟩ := bind_eq_ok.mp hstate
  obtain rfl := Except.ok.inj hk
  exact ⟨hact, hpa, hne, hconf, r.1, r.2, m, ts, hva, halloc, hmap, hts, rfl⟩

/-! ## ThreadControl -/

/-- The creation of a thread in a task, taken apart. -/
theorem newThread_eq_ok {kioSz dst sched pager utcb : Nat}
    (hok : σ.newThread A kioSz tsk dst sched pager utcb = .ok σ') :
    ∃ σ₁ σ₂ t, σ.createThread A dst sched pager tsk σ.cur.prio = .ok (σ₁, t) ∧
      σ₁.setUtcb A kioSz t utcb = .ok σ₂ ∧
      (pager = Thrid.nil ∧ σ' = σ₂ ∨ pager ≠ Thrid.nil ∧ σ₂.activate A t = .ok σ') := by
  obtain ⟨r, hcreate, hok⟩ := bind_eq_ok.mp hok
  obtain ⟨σ₂, hutcb, hok⟩ := bind_eq_ok.mp hok
  refine ⟨r.1, σ₂, r.2, hcreate, hutcb, ?_⟩
  split_ifs at hok with hpager
  · exact .inl ⟨hpager, (Except.ok.inj hok).symm⟩
  · exact .inr ⟨hpager, hok⟩

/-- The creation of a task, taken apart. -/
theorem createTask_eq_ok {kupage : Nat} (hok : σ.createTask A kupage = .ok (σ', tsk)) :
    ∃ tasks n m, σ.tasks.pushBack () = some (tasks, n) ∧ tsk = n + 1 ∧
      ({ σ.k.mem with space := Function.update σ.k.mem.space (n + 1) ⟨A.freshRoot, []⟩ } : Mem).map A
        (n + 1) 0xff000000 kupage pageSz Acc.kwUr 1 = .ok m ∧
      σ' = (({ σ with tasks := tasks } : Sys).putMem m).putTask (n + 1) Task.fresh := by
  unfold createTask at hok
  split at hok
  · cases hok
  · rename_i tasks n hpush
    obtain ⟨m, hmap, hok⟩ := bind_eq_ok.mp hok
    obtain ⟨rfl, rfl⟩ := Prod.mk.inj (Except.ok.inj hok)
    exact ⟨tasks, n, m, hpush, rfl, hmap, rfl⟩

/-- A creation is refused, or it makes a task and a thread in it, or a thread in the task of the space
specifier. -/
theorem create_cases {kioSz kupage dst space sched pager utcb r : Nat}
    (hok : σ.create A kioSz kupage dst space sched pager utcb = .ok (r, σ')) :
    (∃ e, (r, σ') = σ.fail e) ∨
      r = 1 ∧ sched ≠ Thrid.nil ∧ dst = space ∧ pager = Thrid.nil ∧ (∃ σ₁ tsk,
        σ.createTask A kupage = .ok (σ₁, tsk) ∧ σ₁.newThread A kioSz tsk dst sched pager utcb = .ok σ') ∨
      r = 1 ∧ sched ≠ Thrid.nil ∧ dst ≠ space ∧ (∃ tsk, σ.spaceTask A space = .ok tsk ∧
        (pager ≠ Thrid.nil → tsk ≠ 0 ∧ (σ.task tsk).isConfigured A = true ∧ (σ.task tsk).isFull = false) ∧
        σ.newThread A kioSz tsk dst sched pager utcb = .ok σ') := by
  unfold create at hok
  split_ifs at hok with hsched hself hspace
  · exact .inl ⟨4, (Except.ok.inj hok).symm⟩
  · exact .inl ⟨3, (Except.ok.inj hok).symm⟩
  · obtain ⟨x, htask, hok⟩ := bind_eq_ok.mp hok
    obtain ⟨σ₁, hnew, hok⟩ := bind_eq_ok.mp hok
    obtain ⟨rfl, rfl⟩ := Prod.mk.inj (Except.ok.inj hok)
    exact .inr (.inl ⟨rfl, hsched, hspace, by tauto, x.1, x.2, htask, hnew⟩)
  · obtain ⟨tsk, hfind, hok⟩ := bind_eq_ok.mp hok
    split_ifs at hok with hbad
    · exact .inl ⟨3, (Except.ok.inj hok).symm⟩
    · obtain ⟨σ₁, hnew, hok⟩ := bind_eq_ok.mp hok
      obtain ⟨rfl, rfl⟩ := Prod.mk.inj (Except.ok.inj hok)
      refine .inr (.inr ⟨rfl, hsched, hspace, tsk, hfind, fun hp => ?_, hnew⟩)
      simpa [hp] using hbad

/-- The creations that are accepted. -/
theorem create_accepts {kioSz kupage dst space sched pager utcb : Nat} :
    σ.create A kioSz kupage dst space sched pager utcb = .ok (1, σ') ↔
      sched ≠ Thrid.nil ∧ (dst = space ∧ pager = Thrid.nil ∧ (∃ σ₁ tsk,
          σ.createTask A kupage = .ok (σ₁, tsk) ∧ σ₁.newThread A kioSz tsk dst sched pager utcb = .ok σ') ∨
        dst ≠ space ∧ ∃ tsk, σ.spaceTask A space = .ok tsk ∧
          (pager ≠ Thrid.nil → tsk ≠ 0 ∧ (σ.task tsk).isConfigured A = true ∧ (σ.task tsk).isFull = false) ∧
          σ.newThread A kioSz tsk dst sched pager utcb = .ok σ') := by
  constructor
  · intro hok
    rcases create_cases hok with ⟨e, he⟩ | ⟨-, hsched, hdst, hpager, hnew⟩ | ⟨-, hsched, hdst, hnew⟩
    · cases congrArg Prod.fst he
    · exact ⟨hsched, .inl ⟨hdst, hpager, hnew⟩⟩
    · exact ⟨hsched, .inr ⟨hdst, hnew⟩⟩
  · rintro ⟨hsched, ⟨hdst, hpager, σ₁, tsk, htask, hnew⟩ | ⟨hdst, tsk, hfind, hcan, hnew⟩⟩
    · unfold create
      rw [if_neg hsched, if_neg fun h => h.2 hpager, if_pos hdst]
      exact bind_eq_ok.mpr ⟨_, htask, bind_eq_ok.mpr ⟨_, hnew, rfl⟩⟩
    · unfold create
      rw [if_neg hsched, if_neg fun h => hdst h.1, if_neg hdst]
      refine bind_eq_ok.mpr ⟨_, hfind, ?_⟩
      rw [if_neg fun h => ?_]
      · exact bind_eq_ok.mpr ⟨_, hnew, rfl⟩
      · obtain ⟨hzero, hconf, hfull⟩ := hcan h.1
        rw [hconf, hfull] at h
        simp [hzero] at h

/-- A modification is refused, or it renames the thread, locates its UTCB, moves it to the task of the
space specifier and activates it. -/
theorem modify_cases {kioSz dst space sched pager utcb r : Nat}
    (hok : σ.modify A kioSz t dst space sched pager utcb = .ok (r, σ')) :
    (∃ e, (r, σ') = σ.fail e) ∨
      r = 1 ∧ ∃ tsk σ₁, σ.spaceTask A space = .ok tsk ∧
        (σ.updThr t (renamed dst sched)).setUtcb A kioSz t utcb = .ok σ₁ ∧
        (pager = Thrid.nil ∧ σ' = σ₁.updThr t (fun th => { th with task := tsk }) ∨
          pager ≠ Thrid.nil ∧ ∃ σ₂, σ₂ = (σ₁.updThr t (fun th => { th with task := tsk })).updThr t
              (fun th => { th with pagerid := pager }) ∧
            ((σ₂.thr t).isActive = true ∧ σ' = σ₂ ∨
              (σ₂.thr t).isActive = false ∧ σ₂.activate A t = .ok σ')) := by
  obtain ⟨tsk, hfind, hok⟩ := bind_eq_ok.mp hok
  by_cases hbad : (pager ≠ Thrid.nil ∧ (σ.thr t).isActive = false) ∧
      (tsk = 0 ∨ (σ.task tsk).isConfigured A = false)
  · rw [if_pos hbad] at hok
    exact .inl ⟨3, (Except.ok.inj hok).symm⟩
  rw [if_neg hbad] at hok
  by_cases hact : utcb ≠ A.minusOne ∧ (σ.thr t).isActive = true
  · rw [if_pos hact] at hok
    exact .inl ⟨6, (Except.ok.inj hok).symm⟩
  rw [if_neg hact] at hok
  obtain ⟨σ₁, hutcb, hok⟩ := bind_eq_ok.mp hok
  refine .inr ?_
  by_cases hpager : pager = Thrid.nil
  · rw [if_pos hpager] at hok
    obtain ⟨rfl, rfl⟩ := Prod.mk.inj (Except.ok.inj hok)
    exact ⟨rfl, tsk, σ₁, hfind, hutcb, .inl ⟨hpager, rfl⟩⟩
  rw [if_neg hpager] at hok
  dsimp only at hok
  split_ifs at hok with hactive
  · obtain ⟨rfl, rfl⟩ := Prod.mk.inj (Except.ok.inj hok)
    exact ⟨rfl, tsk, σ₁, hfind, hutcb, .inr ⟨hpager, _, rfl, .inl ⟨hactive, rfl⟩⟩⟩
  · obtain ⟨σ₂, hlast, hok⟩ := bind_eq_ok.mp hok
    obtain ⟨rfl, rfl⟩ := Prod.mk.inj (Except.ok.inj hok)
    exact ⟨rfl, tsk, σ₁, hfind, hutcb, .inr ⟨hpager, _, rfl, .inr ⟨by simpa using hactive, hlast⟩⟩⟩

/-- A deletion frees both mappings of the UTCB, removes the thread, and releases its task when the bitmap
is empty. -/
theorem delete_eq_ok {dst r : Nat} (hok : σ.delete A t dst = .ok (r, σ')) :
    r = 1 ∧ (σ.thr t).task ≠ 0 ∧ ∃ σ₁ x ts, σ.freeUtcbKspace A t = .ok σ₁ ∧
      (σ₁.task (σ.thr t).task).freeUtcbUspace A (σ₁.thr t).uutcb = .ok x ∧
      σ₁.k.ts.setState A σ₁.k.curTask (Thrid.number A dst - threadNumberMin) .idle = .ok ts ∧
      (x.isEmpty = true ∧ (({ σ₁ with k := { σ₁.k with ts := ts } } : Sys).putTask (σ.thr t).task
          x).removeTask (σ.thr t).task = .ok σ' ∨
        x.isEmpty = false ∧
          σ' = ({ σ₁ with k := { σ₁.k with ts := ts } } : Sys).putTask (σ.thr t).task x) := by
  obtain ⟨σ₁, hfree, hok⟩ := bind_eq_ok.mp hok
  obtain ⟨y, hderef, hok⟩ := bind_eq_ok.mp hok
  obtain ⟨hne, rfl⟩ := deref_eq_ok hderef
  obtain ⟨x, huspace, hok⟩ := bind_eq_ok.mp hok
  obtain ⟨ts, hremove, hok⟩ := bind_eq_ok.mp hok
  dsimp only at hok
  split_ifs at hok with hempty
  · obtain ⟨σ₂, htask, hok⟩ := bind_eq_ok.mp hok
    obtain ⟨rfl, rfl⟩ := Prod.mk.inj (Except.ok.inj hok)
    exact ⟨rfl, hne, σ₁, x, ts, hfree, huspace, Threads.remove_eq_ok hremove, .inl ⟨hempty, htask⟩⟩
  · obtain ⟨rfl, rfl⟩ := Prod.mk.inj (Except.ok.inj hok)
    exact ⟨rfl, hne, σ₁, x, ts, hfree, huspace, Threads.remove_eq_ok hremove,
      .inr ⟨by simpa using hempty, rfl⟩⟩

/-- `syscall_thread_control` refuses, or it sets a handler, creates, deletes or modifies. -/
theorem threadControl_cases {kioSz timerIrq kupage dst space sched pager utcb r : Nat}
    (hok : σ.threadControl A kioSz timerIrq kupage dst space sched pager utcb = .ok (r, σ')) :
    (∃ e, (r, σ') = σ.fail e) ∨
      (r = 1 ∧ Thrid.isInt A dst = true ∧ Thrid.number A dst ≠ timerIrq ∧
        σ.setHandler A (Thrid.number A dst) pager = .ok σ') ∨
      Thrid.isGlobalUser A dst = true ∧
        (σ.k.ts.findNumber (Thrid.number A dst) = none ∧ space ≠ Thrid.nil ∧
            σ.create A kioSz kupage dst space sched pager utcb = .ok (r, σ') ∨
          ∃ t, σ.k.ts.findNumber (Thrid.number A dst) = some t ∧
            (space = Thrid.nil ∧ σ.delete A t dst = .ok (r, σ') ∨
              space ≠ Thrid.nil ∧ σ.modify A kioSz t dst space sched pager utcb = .ok (r, σ'))) := by
  unfold threadControl at hok
  by_cases hpriv : σ.privileged A = false
  · rw [if_pos hpriv] at hok
    exact .inl ⟨1, (Except.ok.inj hok).symm⟩
  rw [if_neg hpriv] at hok
  by_cases hint : Thrid.isInt A dst = true ∧ Thrid.number A dst ≠ timerIrq
  · rw [if_pos hint] at hok
    obtain ⟨σ₁, hset, hok⟩ := bind_eq_ok.mp hok
    obtain ⟨rfl, rfl⟩ := Prod.mk.inj (Except.ok.inj hok)
    exact .inr (.inl ⟨rfl, hint.1, hint.2, hset⟩)
  rw [if_neg hint] at hok
  by_cases hglob : Thrid.isGlobalUser A dst = false
  · rw [if_pos hglob] at hok
    exact .inl ⟨2, (Except.ok.inj hok).symm⟩
  · rw [if_neg hglob] at hok
    have hglob : Thrid.isGlobalUser A dst = true := by simpa using hglob
    split at hok
    · rename_i hnone
      split_ifs at hok with hspace
      · exact .inl ⟨2, (Except.ok.inj hok).symm⟩
      · exact .inr (.inr ⟨hglob, .inl ⟨hnone, hspace, hok⟩⟩)
    · rename_i t hsome
      split_ifs at hok with hspace
      · exact .inr (.inr ⟨hglob, .inr ⟨t, hsome, .inl ⟨hspace, hok⟩⟩⟩)
      · exact .inr (.inr ⟨hglob, .inr ⟨t, hsome, .inr ⟨hspace, hok⟩⟩⟩)

/-- The calls that create a thread: the destination is no interrupt, and there is no such thread. -/
theorem threadControl_creates {kioSz timerIrq kupage dst space sched pager utcb : Nat}
    (hint : Thrid.isInt A dst = false) (hnone : σ.k.ts.findNumber (Thrid.number A dst) = none)
    (hspace : space ≠ Thrid.nil) :
    σ.threadControl A kioSz timerIrq kupage dst space sched pager utcb = .ok (1, σ') ↔
      σ.privileged A = true ∧ Thrid.isGlobalUser A dst = true ∧
        σ.create A kioSz kupage dst space sched pager utcb = .ok (1, σ') := by
  unfold threadControl
  rw [if_neg (show ¬ (Thrid.isInt A dst = true ∧ Thrid.number A dst ≠ timerIrq) by simp [hint]), hnone]
  dsimp only
  rw [if_neg hspace]
  cases hpriv : σ.privileged A
  · simp only [if_true, Bool.false_eq_true, false_and, iff_false]
    exact fun h => by cases congrArg Prod.fst (Except.ok.inj h)
  · cases hglob : Thrid.isGlobalUser A dst
    · simp only [Bool.true_eq_false, if_false, if_true, Bool.false_eq_true, false_and, and_false, iff_false]
      exact fun h => by cases congrArg Prod.fst (Except.ok.inj h)
    · simp

/-! ## The other calls -/

/-- `ExchangeRegisters` behind the pager writes the slot of its thread only. -/
theorem exchange_eq_ok {r : Exreg} (hok : σ.exchange A t r = .ok σ') :
    ∃ f : Slot → Slot, σ' = σ.updSlot t f := by
  have hif : ∀ {τ : Sys} (c : Bool) (f : Slot → Slot), (∃ g, τ = σ.updSlot t g) →
      ∃ g, (if c then τ.updSlot t f else τ) = σ.updSlot t g := by
    rintro _ c f ⟨g, rfl⟩
    cases c
    · exact ⟨g, rfl⟩
    · exact ⟨f ∘ g, by simp [updSlot]⟩
  have hid : σ = σ.updSlot t id := by simp [updSlot]
  obtain ⟨-, hok⟩ := ensure_bind_eq_ok.mp hok
  obtain ⟨-, hok⟩ := ensure_bind_eq_ok.mp hok
  obtain ⟨g, hg⟩ := hif (r.control.testBit 4) (setExitPc A r.ip r.ip2)
    (hif (r.control.testBit 5) (setFlags A r.flags)
      (hif (r.control.testBit 6) (fun s => { s with userHandle := r.uhandle }) ⟨id, hid⟩))
  exact ⟨g, (Except.ok.inj hok).symm.trans hg⟩

/-- The pager that `ExchangeRegisters` sets. -/
def setPager (pagerid p : Nat) (th : Thread) : Thread := { th with pagerid := pagerid, pager := some p }

/-- `ExchangeRegisters` refuses, or it answers with an identifier of a thread of the caller's task, whose
pager and slot it may have written. -/
theorem exchangeRegisters_cases {r out : Exreg} {res : Nat}
    (hok : σ.exchangeRegisters A r = .ok (res, out, σ')) :
    (∃ e, (res, σ') = σ.fail e) ∨
      ∃ t f, σ.find A r.dest = .ok (some t) ∧ (σ.thr t).task = σ.cur.task ∧
        res = (if Thrid.isLocal A r.dest then (σ.thr t).globid else (σ.thr t).uutcb) ∧
        (r.control.testBit 7 = false ∧ σ' = σ.updSlot t f ∨
          r.control.testBit 7 = true ∧ ∃ p, σ.find A r.pager = .ok (some p) ∧
            σ' = (σ.updThr t (setPager r.pager p)).updSlot t f) := by
  obtain ⟨t, hfind, hok⟩ := bind_eq_ok.mp hok
  cases t with
  | none =>
    obtain ⟨rfl, -, rfl⟩ : _ ∧ _ ∧ _ := by simpa using Except.ok.inj hok
    exact .inl ⟨2, rfl⟩
  | some t =>
    dsimp only at hok
    by_cases htask : (σ.thr t).task = σ.cur.task
    · rw [if_neg (not_not.mpr htask)] at hok
      obtain ⟨-, hok⟩ := ensure_bind_eq_ok.mp hok
      by_cases hbit : r.control.testBit 7 = true
      · rw [if_pos hbit] at hok
        obtain ⟨p, hpager, hok⟩ := bind_eq_ok.mp hok
        cases p with
        | none =>
          obtain ⟨rfl, -, rfl⟩ : _ ∧ _ ∧ _ := by simpa using Except.ok.inj hok
          exact .inl ⟨2, rfl⟩
        | some p =>
          obtain ⟨σ₁, hex, hok⟩ := bind_eq_ok.mp hok
          obtain ⟨f, rfl⟩ := exchange_eq_ok hex
          obtain ⟨rfl, -, rfl⟩ : _ ∧ _ ∧ _ := by simpa using Except.ok.inj hok
          exact .inr ⟨t, f, hfind, htask, rfl, .inr ⟨hbit, p, hpager, rfl⟩⟩
      · rw [if_neg hbit] at hok
        obtain ⟨σ₁, hex, hok⟩ := bind_eq_ok.mp hok
        obtain ⟨f, rfl⟩ := exchange_eq_ok hex
        obtain ⟨rfl, -, rfl⟩ : _ ∧ _ ∧ _ := by simpa using Except.ok.inj hok
        exact .inr ⟨t, f, hfind, htask, rfl, .inl ⟨by simpa using hbit, rfl⟩⟩
    · rw [if_pos htask] at hok
      obtain ⟨rfl, -, rfl⟩ : _ ∧ _ ∧ _ := by simpa using Except.ok.inj hok
      exact .inl ⟨2, rfl⟩

/-- `Schedule` refuses, or it may have set a priority. -/
theorem schedule_cases {dst timeCtl procCtl prio preemptCtl r : Nat}
    (hok : σ.schedule A dst timeCtl procCtl prio preemptCtl = .ok (r, σ')) :
    (∃ e, (r, σ') = σ.fail e) ∨
      ∃ t ts, σ.find A dst = .ok (some t) ∧ (ts = σ.k.ts ∨ σ.k.ts.setPrio t prio = .ok ts) ∧
        schedResult (ts.thr t).state = .ok r ∧ σ' = { σ with k := { σ.k with ts := ts } } := by
  obtain ⟨t, hfind, hok⟩ := bind_eq_ok.mp hok
  cases t with
  | none => exact .inl ⟨2, (Except.ok.inj hok).symm⟩
  | some t =>
    dsimp only at hok
    by_cases hsched : (σ.thr t).schedid ≠ σ.cur.globid
    · rw [if_pos hsched] at hok
      exact .inl ⟨1, (Except.ok.inj hok).symm⟩
    rw [if_neg hsched] at hok
    by_cases hprio : σ.cur.prio < prio
    · rw [if_pos hprio] at hok
      exact .inl ⟨5, (Except.ok.inj hok).symm⟩
    rw [if_neg hprio] at hok
    obtain ⟨-, hok⟩ := ensure_bind_eq_ok.mp hok
    obtain ⟨-, hok⟩ := ensure_bind_eq_ok.mp hok
    obtain ⟨ts, hts, hok⟩ := bind_eq_ok.mp hok
    obtain ⟨-, hok⟩ := ensure_bind_eq_ok.mp hok
    obtain ⟨rc, hrc, hok⟩ := bind_eq_ok.mp hok
    obtain ⟨rfl, rfl⟩ := Prod.mk.inj (Except.ok.inj hok)
    refine .inr ⟨t, ts, hfind, ?_, hrc, rfl⟩
    split_ifs at hts
    · exact .inl (Except.ok.inj hts).symm
    · exact .inr hts

/-- The areas of a task, taken apart. -/
theorem setAreas_eq_ok {kipPa kip utcb : Nat} (hok : σ.setAreas A kipPa tsk kip utcb = .ok σ') :
    tsk ≠ 0 ∧ (σ.task tsk).utcbs.count = 0 ∧ Fpage.isNil kip = false ∧ ∃ m,
      σ.k.mem.map A tsk (Fpage.addr A kip) kipPa pageSz Acc.ur 1 = .ok m ∧
      σ' = (σ.putTask tsk { σ.task tsk with
        kipArea := kip
        utcbArea := utcb
        utcbs := (σ.task tsk).utcbs.init (Fpage.size A utcb / pageSz % 2 ^ 32) }).putMem m := by
  obtain ⟨x, hderef, hok⟩ := bind_eq_ok.mp hok
  obtain ⟨hne, rfl⟩ := deref_eq_ok hderef
  obtain ⟨hcount, hok⟩ := ensure_bind_eq_ok.mp hok
  obtain ⟨hnil, hok⟩ := ensure_bind_eq_ok.mp hok
  obtain ⟨m, hmap, hok⟩ := bind_eq_ok.mp hok
  exact ⟨hne, hcount, hnil, m, hmap, (Except.ok.inj hok).symm⟩

/-- `SpaceControl` refuses, or it sets the areas of a task without active threads, and the redirector. -/
theorem spaceControl_cases {kipPa space kip utcb redirector r : Nat}
    (hok : σ.spaceControl A kipPa space kip utcb redirector = .ok (r, σ')) :
    (∃ e, (r, σ') = σ.fail e) ∨
      r = 1 ∧ ∃ t σ₁, (σ.find A space = .ok (some t) ∨ t = σ.k.current) ∧ (σ.thr t).task ≠ 0 ∧
        ((σ.task (σ.thr t).task).activeThreads = true ∧ σ₁ = σ ∨
          (σ.task (σ.thr t).task).activeThreads = false ∧
            σ.setAreas A kipPa (σ.thr t).task kip utcb = .ok σ₁) ∧
        (redirector = Thrid.nil ∧ σ' = σ₁ ∨
          σ' = σ₁.putTask (σ.thr t).task { σ₁.task (σ.thr t).task with redirector := redirector }) := by
  unfold spaceControl at hok
  by_cases hpriv : σ.privileged A = false
  · rw [if_pos hpriv] at hok
    exact .inl ⟨1, (Except.ok.inj hok).symm⟩
  rw [if_neg hpriv] at hok
  obtain ⟨thr, hthr, hok⟩ := bind_eq_ok.mp hok
  cases thr with
  | none => exact .inl ⟨3, (Except.ok.inj hok).symm⟩
  | some t =>
    have ht : σ.find A space = .ok (some t) ∨ t = σ.k.current := by
      split_ifs at hthr
      · exact .inl hthr
      · simpa using Or.inr (Except.ok.inj hthr).symm
      · cases Except.ok.inj hthr
    dsimp only at hok
    split_ifs at hok with hzero hutcb hkip hact hnil hnil
    · exact .inl ⟨3, (Except.ok.inj hok).symm⟩
    · exact .inl ⟨6, (Except.ok.inj hok).symm⟩
    · exact .inl ⟨7, (Except.ok.inj hok).symm⟩
    all_goals
      obtain ⟨σ₁, hareas, hok⟩ := bind_eq_ok.mp hok
      obtain ⟨rfl, rfl⟩ := Prod.mk.inj (Except.ok.inj hok)
    · exact .inr ⟨rfl, t, σ, ht, hzero, .inl ⟨hact, rfl⟩, .inl ⟨hnil, (Except.ok.inj hareas).symm⟩⟩
    · obtain rfl := Except.ok.inj hareas
      exact .inr ⟨rfl, t, σ, ht, hzero, .inl ⟨hact, rfl⟩, .inr rfl⟩
    · exact .inr ⟨rfl, t, σ₁, ht, hzero, .inr ⟨by simpa using hact, hareas⟩, .inl ⟨hnil, rfl⟩⟩
    · exact .inr ⟨rfl, t, σ₁, ht, hzero, .inr ⟨by simpa using hact, hareas⟩, .inr rfl⟩

/-- The mask of `syscall_memory_control` leaves one flexpage, or more than the call accepts. -/
theorem memFpages_le {control : Nat} (h : memFpages A control ≤ 64) : memFpages A control = 1 := by
  unfold memFpages Arch.add at h ⊢
  cases A <;> simp only [Arch.wordBits] at h ⊢ <;> omega

/-- `MemoryControl` refuses, or it has mapped the first flexpage of the list, which lies in a region of
the caller, to its own address. -/
theorem memoryControl_eq_ok {control r : Nat} {attr : Nat → Nat}
    (hok : σ.memoryControl A control attr = .ok (r, σ')) :
    (∃ e, (r, σ') = σ.fail e) ∨ r = 1 ∧ ∃ reg m,
      Region.find A (σ.k.mem.space σ.cur.task).uspace (Fpage.addr A (σ.cur.utcb.mr 0))
        (Fpage.size A (σ.cur.utcb.mr 0)) = some reg ∧
      σ.k.mem.map A σ.cur.task (Fpage.addr A (σ.cur.utcb.mr 0)) (Fpage.addr A (σ.cur.utcb.mr 0))
        (Fpage.size A (σ.cur.utcb.mr 0)) 0 (if attr (σ.cur.utcb.mr 0 % 4) = 1 then 0 else 1) = .ok m ∧
      σ' = σ.putMem m := by
  unfold memoryControl at hok
  split_ifs at hok with hpriv hbad
  · exact .inl ⟨1, (Except.ok.inj hok).symm⟩
  · exact .inl ⟨5, (Except.ok.inj hok).symm⟩
  · rw [memFpages_le (not_lt.mp fun h => hbad (.inl h))] at hok
    obtain ⟨⟨σ₁, go⟩, hattr, hok⟩ := bind_eq_ok.mp hok
    unfold setAttr at hattr
    obtain ⟨-, hattr⟩ := ensure_bind_eq_ok.mp hattr
    obtain ⟨-, hattr⟩ := ensure_bind_eq_ok.mp hattr
    split at hattr
    · obtain ⟨rfl, rfl⟩ := Prod.mk.inj (Except.ok.inj hattr)
      exact .inl ⟨5, (Except.ok.inj hok).symm⟩
    · rename_i reg hfind
      obtain ⟨m, hmap, hattr⟩ := bind_eq_ok.mp hattr
      obtain ⟨rfl, rfl⟩ := Prod.mk.inj (Except.ok.inj hattr)
      obtain ⟨rfl, rfl⟩ := Prod.mk.inj (Except.ok.inj hok)
      exact .inr ⟨rfl, reg, m, hfind, hmap, rfl⟩

/-- `MemoryControl` refuses, or it changes the memory only. -/
theorem memoryControl_cases {control r : Nat} {attr : Nat → Nat}
    (hok : σ.memoryControl A control attr = .ok (r, σ')) :
    (∃ e, (r, σ') = σ.fail e) ∨ r = 1 ∧ ∃ m, σ' = σ.putMem m := by
  rcases memoryControl_eq_ok hok with h | ⟨hr, reg, m, -, -, hσ⟩
  · exact .inl h
  · exact .inr ⟨hr, m, hσ⟩

/-- `Unmap` changes the memory only. -/
theorem unmapFpages_eq_ok : ∀ {n i : Nat} {σ : Sys}, unmapFpages A n i σ = .ok σ' → ∃ m, σ' = σ.putMem m
  | 0, _, σ, hok => ⟨σ.k.mem, (Except.ok.inj hok).symm⟩
  | n + 1, i, σ, hok => by
    obtain ⟨m, -, hok⟩ := bind_eq_ok.mp hok
    obtain ⟨m', rfl⟩ := unmapFpages_eq_ok hok
    exact ⟨m', rfl⟩

/-! ## The start -/

/-- The kernel thread, taken apart. -/
theorem createKthread_eq_ok (hok : σ.createKthread A tsk = .ok σ') :
    ∃ σ₁ t k, σ.createThread A (Thrid.createGlobal A threadNumberMin 2) (Thrid.createGlobal A threadNumberMin 2)
        (Thrid.createGlobal A threadNumberMin 2) tsk 0 = .ok (σ₁, t) ∧
      σ₁.k.setState A t .ready = .ok k ∧ σ' = { σ₁ with k := { k with current := t } } := by
  obtain ⟨⟨σ₁, t⟩, hcreate, hok⟩ := bind_eq_ok.mp hok
  obtain ⟨k, hready, hok⟩ := bind_eq_ok.mp hok
  exact ⟨σ₁, t, k, hcreate, hready, (Except.ok.inj hok).symm⟩

/-- The start of sigma0, taken apart. -/
theorem startSigma0_eq_ok {b : BootInfo} (hok : σ.startSigma0 A P b = .ok σ') :
    ∃ σ₁ tsk m σ₂ σ₃ t r σ₄ k, σ.createTask A b.sigma0Kupage = .ok (σ₁, tsk) ∧
      mapAll A tsk b.memory σ₁.k.mem = .ok m ∧
      (σ₁.putMem m).setAreas A P.kipPa tsk (Fpage.create A P.kipPa pageSz Fpage.accR)
        (Fpage.create A b.utcbPa pageSz Fpage.accRw) = .ok σ₂ ∧
      (σ₂.allPorts tsk).createThread A (Thrid.sigma0 A) Thrid.nil Thrid.nil tsk 255 = .ok (σ₃, t) ∧
      σ₃.k.mem.kmapUtcb A P.kioSz b.utcbPa = .ok r ∧
      ((σ₃.putMem r.1).updSlot t fun s => { s with utcbPa := b.utcbPa, kutcb := r.2 }).activate A t = .ok σ₄ ∧
      σ₄.k.startThread A t = .ok k ∧ σ' = { σ₄ with k := k.switchTo t 0 } := by
  obtain ⟨⟨σ₁, tsk⟩, htask, hok⟩ := bind_eq_ok.mp hok
  obtain ⟨m, hmap, hok⟩ := bind_eq_ok.mp hok
  obtain ⟨σ₂, hareas, hok⟩ := bind_eq_ok.mp hok
  obtain ⟨⟨σ₃, t⟩, hcreate, hok⟩ := bind_eq_ok.mp hok
  obtain ⟨τ, hutcb, hok⟩ := bind_eq_ok.mp hok
  obtain ⟨σ₄, hact, hok⟩ := bind_eq_ok.mp hok
  obtain ⟨k, hstart, hlast⟩ := bind_eq_ok.mp hok
  obtain ⟨-, r, hkmap, rfl⟩ := utcbLocation_eq_ok hutcb
  exact ⟨σ₁, tsk, m, σ₂, σ₃, t, r, σ₄, k, htask, hmap, hareas, hcreate, hkmap, hact, hstart,
    (Except.ok.inj hlast).symm⟩

/-- The start of the kernel, taken apart. -/
theorem boot_eq_ok {b : BootInfo} (hok : boot A P b = .ok σ) :
    ∃ σ₁ tsk σ₂, (init A b).createTask A b.kupage = .ok (σ₁, tsk) ∧ σ₁.createKthread A tsk = .ok σ₂ ∧
      σ₂.startSigma0 A P b = .ok σ := by
  obtain ⟨⟨σ₁, tsk⟩, htask, hok⟩ := bind_eq_ok.mp hok
  obtain ⟨σ₂, hkthread, hok⟩ := bind_eq_ok.mp hok
  exact ⟨σ₁, tsk, σ₂, htask, hkthread, hok⟩

/-! ## Lives -/

theorem life_updThr {f : Thread → Thread} (hf : ∀ th, (f th).life = th.life) (u : Nat) :
    ((σ.updThr t f).thr u).life = (σ.thr u).life := by
  rw [thr_updThr]
  split_ifs with hu
  · rw [hf, hu]
  · rfl

theorem life_setupKstack (u : Nat) : ((σ.setupKstack t).thr u).life = (σ.thr u).life :=
  life_updThr (f := fun th => { th with frame := fun _ => 0xa5a5a5a5, ipcFrom := 0xa5a5a5a5 }) (fun _ => rfl) u

theorem life_fail (e u : Nat) : ((σ.fail e).2.thr u).life = (σ.thr u).life :=
  life_updThr (f := fun th => { th with utcb := { th.utcb with error := e } }) (fun _ => rfl) u

/-- A new thread is inactive; it keeps the UTCB and the pager of the slot. -/
theorem createThread_life {globid schedid pagerid prio : Nat}
    (hok : σ.createThread A globid schedid pagerid tsk prio = .ok (σ', t)) (u : Nat) :
    (σ'.thr u).life = if u = t then ⟨⟨tsk, (σ.thr t).uutcb, globid⟩, .inactive, (σ.thr t).pager⟩
      else (σ.thr u).life := by
  obtain ⟨-, -, -, ts, hdrop, rfl⟩ := createThread_eq_ok hok
  rw [life_setupKstack]
  refine (Thread.life_of_bare (Threads.dropHeir_bare hdrop u)).trans ?_
  split_ifs with hu
  · rw [hu, Threads.thr_upd_self, Threads.life_created]
    rfl
  · rw [Threads.thr_upd_ne _ hu]
    rfl

theorem setUtcb_thr {kioSz utcb : Nat} (hok : σ.setUtcb A kioSz t utcb = .ok σ') : σ'.k.ts = σ.k.ts := by
  rcases setUtcb_eq_ok hok with ⟨-, rfl⟩ | ⟨-, -, pa, r, -, -, -, rfl⟩ <;> rfl

theorem freeUtcbKspace_thr (hok : σ.freeUtcbKspace A t = .ok σ') : σ'.k.ts = σ.k.ts := by
  rcases freeUtcbKspace_eq_ok hok with ⟨-, rfl⟩ | ⟨-, m, -, rfl⟩ <;> rfl

/-- An activated thread has a UTCB that is not at `0`. -/
theorem activate_life (hok : σ.activate A t = .ok σ') : ∃ uutcb, uutcb ≠ 0 ∧ ∀ u,
    (σ'.thr u).life = if u = t then ⟨⟨(σ.thr t).task, uutcb, (σ.thr t).globid⟩, .active, (σ.thr t).pager⟩
      else (σ.thr u).life := by
  obtain ⟨-, -, -, -, uutcb, x, m, ts, hne, -, -, hstate, rfl⟩ := activate_eq_ok hok
  refine ⟨uutcb, hne, fun u => ?_⟩
  refine (Threads.setState_life hstate u).trans ?_
  split_ifs with hu
  · rw [Threads.thr_upd_self]
    rfl
  · rw [Threads.thr_upd_ne _ hu]
    rfl

/-- A deleted thread keeps everything but its state. -/
theorem delete_life {dst r : Nat} (hok : σ.delete A t dst = .ok (r, σ')) (u : Nat) :
    (σ'.thr u).life = if u = Thrid.number A dst - threadNumberMin then { (σ.thr u).life with state := .idle }
      else (σ.thr u).life := by
  obtain ⟨-, -, σ₁, x, ts, hfree, -, hstate, hlast⟩ := delete_eq_ok hok
  have hthr : ∀ u, (σ'.thr u).life = (ts.thr u).life := by
    intro u
    rcases hlast with ⟨-, hlast⟩ | ⟨-, rfl⟩
    · obtain ⟨-, hlast⟩ := ensure_bind_eq_ok.mp hlast
      obtain rfl := Except.ok.inj hlast
      rfl
    · rfl
  rw [freeUtcbKspace_thr hfree] at hstate
  rw [hthr, Threads.setState_life hstate]
  split_ifs with hu
  · rw [hu]
    rfl
  · rfl

/-! ## A board -/

/-- A platform, and what the kernel finds on it. -/
def board : Platform := ⟨0x10000, 31, 0x40003000⟩
def found : BootInfo :=
  ⟨Cells.empty, [], 0x40000000, 0x40001000, 0x40002000, [(0x40100000, 0x1000, Acc.urw)]⟩

/-- The call of sigma0 that creates, modifies or deletes the thread `n`; `space` is the number of a thread of
the task, or `0`. -/
def control (n space pager utcb : Nat) : Call :=
  .threadControl 0x40004000 (Thrid.createGlobal .sparc n 1)
    (if space = 0 then Thrid.nil else Thrid.createGlobal .sparc space 1) (Thrid.sigma0 .sparc) pager utcb

/-- Sigma0 makes a task with the thread 140, gives it its areas, and activates the thread. -/
def makeTask : List (Nat × Input) :=
  [(0, .call (control 140 140 Thrid.nil 0xffffffff)),
    (0, .call (.spaceControl (Thrid.createGlobal .sparc 140 1) (Fpage.create .sparc 0x30000000 pageSz 5)
      (Fpage.create .sparc 0x31000000 0x4000 6) Thrid.nil)),
    (0, .call (control 140 140 (Thrid.sigma0 .sparc) 0x40100000))]

end Sys

end Wrmos
