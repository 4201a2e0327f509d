import Wrmos.SyscallsSpec

/-!
# What a thread finds in a slot that was used before

`Threads_t::create` fills a slot that an earlier thread may have had.  The two runs to compare differ in
that slot only: `put` writes the thread and the slot of an index, and each operation of a creation is
pushed through it (`newThread_put`).  What comes out is a function of what the slot held (`reborn`), so the
two new threads agree exactly when the fields that this function keeps do.

The deletion resets the locations of the UTCB, and the change of the state resets the heir of the
priority; every other field that neither the deletion nor the creation writes is in `Clean`.
-/

namespace Wrmos

open Lib

namespace Threads

variable {A : Arch} {ts ts' : Threads} {t c : Nat}

/-- `state(s)` for a thread that is in no list and passed no priority on. -/
theorem setState_plain {s : TState} (hne : (ts.thr t).state ≠ s) (hque : (ts.thr t).que = none)
    (hque' : (entered s (ts.thr t)).que = none) (hheir : (ts.thr t).prioHeir = Thrid.nil) :
    ts.setState A c t s = .ok (ts.upd t (entered s)) := by
  have hkeep : (entered s (ts.thr t)).prioHeir = Thrid.nil := by
    unfold entered
    split_ifs <;> exact hheir
  unfold setState
  rw [ensure_bind_of hne]
  simp only [unlink, hque, bind, Except.bind, link, thr_upd_self, hque']
  unfold dropHeir
  rw [thr_upd_self, if_pos hkeep]

/-- `create`, for a slot whose last occupant passed no priority on. -/
theorem create_eq {globid schedid pagerid task prio : Nat}
    (hrange : threadNumberMin ≤ Thrid.number A globid ∧ Thrid.number A globid < threadNumberMin + threadsMax)
    (ht : t = Thrid.number A globid - threadNumberMin) (hidle : (ts.thr t).state = .idle)
    (hheir : (ts.thr t).prioHeir = Thrid.nil) :
    ts.create A c globid schedid pagerid task prio =
      .ok (ts.upd t (created globid schedid pagerid task prio), t) := by
  unfold create
  rw [ensure_bind_of hrange]
  simp only [← ht]
  rw [ensure_bind_of hidle]
  have hprio : ∀ f : Thread → Thread, (f (ts.thr t)).state ≠ .ready →
      (ts.upd t f).setPrio t prio = .ok ((ts.upd t f).upd t fun th => { th with prio := prio % 256 }) := by
    intro f hf
    unfold setPrio
    rw [thr_upd_self, if_neg hf]
  rw [hprio _ (by rw [hidle]; decide)]
  simp only [bind, Except.bind]
  rw [setState_plain]
  · simp [upd, entered, created, pure, Except.pure]
  all_goals simp [Thread.que, entered, hidle, hheir]

/-- The state of a deleted thread: the iterator is reset when the thread was in a list. -/
def deleted (th : Thread) : Thread :=
  { th with
    state := .idle
    iter := if th.que = none then th.iter else none
    prioHeir := Thrid.nil }

/-- `state(Idle)` on its thread. -/
theorem setState_deleted (hok : ts.setState A c t .idle = .ok ts') : ts'.thr t = deleted (ts.thr t) := by
  unfold setState at hok
  obtain ⟨-, hok⟩ := ensure_bind_eq_ok.mp hok
  obtain ⟨ts₁, hunlink, hok⟩ := bind_eq_ok.mp hok
  obtain ⟨ts₂, hlink, hdrop⟩ := bind_eq_ok.mp hok
  have hiter : ts₁.thr t =
      { ts.thr t with iter := if (ts.thr t).que = none then (ts.thr t).iter else none } := by
    unfold unlink at hunlink
    split at hunlink
    · rename_i hque
      rw [← Except.ok.inj hunlink, if_pos hque]
    · rename_i q hque
      rw [delFrom_thr hunlink, setIter_self, if_neg (by rw [hque]; nofun)]
  have hlinked : ts₂ = ts₁.upd t (entered .idle) := by
    unfold link at hlink
    rw [thr_upd_self] at hlink
    exact (Except.ok.inj hlink).symm
  have hthr : ts₂.thr t =
      { ts.thr t with
        state := .idle
        iter := if (ts.thr t).que = none then (ts.thr t).iter else none } := by
    rw [hlinked, thr_upd_self, hiter]
    rfl
  unfold dropHeir at hdrop
  by_cases hheir : (ts₂.thr t).prioHeir = Thrid.nil
  · rw [if_pos hheir] at hdrop
    rw [← Except.ok.inj hdrop, hthr]
    rw [hthr] at hheir
    change (ts.thr t).prioHeir = Thrid.nil at hheir
    simp only [deleted, ← hheir]
  · rw [if_neg hheir] at hdrop
    obtain ⟨r, hfind, hdrop⟩ := bind_eq_ok.mp hdrop
    cases r with
    | none => cases hdrop
    | some u =>
      -- the heir is not idle, so it is another thread
      have hu : t ≠ u := by
        rintro rfl
        exact (find_eq_some hfind).1 (by rw [hthr])
      obtain ⟨ts₃, hdel, hdrop⟩ := bind_eq_ok.mp hdrop
      obtain rfl := Except.ok.inj hdrop
      have hsame : ts₃.thr t = ts₂.thr t := by
        unfold inheritPrioDel at hdel
        obtain ⟨-, hdel⟩ := ensure_bind_eq_ok.mp hdel
        split at hdel
        · cases hdel
        · obtain ⟨-, hdel⟩ := ensure_bind_eq_ok.mp hdel
          rw [← Except.ok.inj hdel, thr_upd_ne _ hu]
      rw [thr_upd_self, hsame, hthr]
      rfl

end Threads

namespace Sys

variable {A : Arch} {P : Platform} {σ σ' σ₁ τ : Sys} {t u tsk kioSz dst sched pager utcb : Nat}
  {th th' : Thread} {s s' : Slot}

/-! ## Writing a slot -/

/-- The state with another thread and another slot at `t`. -/
def put (σ : Sys) (t : Nat) (th : Thread) (s : Slot) : Sys :=
  (σ.updThr t fun _ => th).updSlot t fun _ => s

theorem put_self : σ.put t (σ.thr t) (σ.slot t) = σ := by
  simp [put, updThr, updSlot, Kern.upd, Threads.upd, thr]

@[simp] theorem thr_put : (σ.put t th s).thr t = th := thr_updThr_self _

@[simp] theorem slot_put : (σ.put t th s).slot t = s := by
  unfold put
  rw [slot_updSlot, if_pos rfl]

theorem cur_put (hcur : σ.k.current ≠ t) : (σ.put t th s).cur = σ.cur := thr_updThr_ne _ hcur

/-- The thread and the slot behind `setup_kstack`. -/
def stackedThr (th : Thread) : Thread := { th with frame := fun _ => 0xa5a5a5a5, ipcFrom := 0xa5a5a5a5 }
def stackedSlot (s : Slot) : Slot := { s with psr := 0xa5a5a5a5, pc := 0xa5a5a5a5, npc := 0xa5a5a5a5 }

/-- A thread that was created. -/
def born (dst sched pager tsk prio : Nat) (th : Thread) : Thread :=
  stackedThr (Threads.created dst sched pager tsk prio th)

/-- A slot with the location that was given, if one was. -/
def located : Option (Nat × Nat) → Slot → Slot
  | none, s => s
  | some (pa, kva), s => { s with utcbPa := pa, kutcb := kva }

/-- A thread that was activated. -/
def placed (uutcb : Nat) (th : Thread) : Thread := { th with uutcb := uutcb, state := .active }

/-- `createThread` writes its slot only. -/
theorem createThread_put {prio : Nat}
    (hrange : threadNumberMin ≤ Thrid.number A dst ∧ Thrid.number A dst < threadNumberMin + threadsMax)
    (ht : t = Thrid.number A dst - threadNumberMin) (hidle : th.state = .idle) (hheir : th.prioHeir = Thrid.nil) :
    (σ.put t th s).createThread A dst sched pager tsk prio =
      .ok (σ.put t (born dst sched pager tsk prio th) (stackedSlot s), t) := by
  unfold createThread
  have hthr : (σ.put t th s).k.ts.thr t = th := thr_put
  rw [Threads.create_eq hrange ht (by rw [hthr, hidle]) (by rw [hthr, hheir])]
  simp [bind, Except.bind, pure, Except.pure, put, updThr, updSlot, Kern.upd, Threads.upd, setupKstack, born,
    stackedThr, stackedSlot]

/-- What `setUtcb` does outside the slot: the location, when one was given. -/
def locate (A : Arch) (kioSz : Nat) (σ : Sys) (utcb : Nat) : Except Stop (Option (Nat × Nat) × Sys) :=
  if utcb = A.minusOne then .ok (none, σ)
  else do
    let pa ← σ.k.mem.walk A σ.cur.task utcb pageSz
    ensure (pa ≠ 0) (.assertion "pa")
    let r ← σ.k.mem.kmapUtcb A kioSz pa
    pure (some (pa, r.2), σ.putMem r.1)

theorem setUtcb_put (hcur : σ.k.current ≠ t) (hact : th.isActive = false) :
    (σ.put t th s).setUtcb A kioSz t utcb = .ok σ' ↔
      ∃ l, σ.locate A kioSz utcb = .ok l ∧ σ' = l.2.put t th (located l.1 s) := by
  unfold setUtcb locate
  rw [cur_put hcur]
  split_ifs
  · constructor
    · exact fun h => ⟨_, rfl, (Except.ok.inj h).symm⟩
    · rintro ⟨l, hl, rfl⟩
      obtain rfl := Except.ok.inj hl
      rfl
  · constructor
    · intro h
      obtain ⟨pa, hwalk, h⟩ := bind_eq_ok.mp h
      obtain ⟨hpa, h⟩ := ensure_bind_eq_ok.mp h
      obtain ⟨-, r, hmap, rfl⟩ := utcbLocation_eq_ok h
      refine ⟨(some (pa, r.2), σ.putMem r.1), ?_, ?_⟩
      · exact bind_eq_ok.mpr ⟨pa, hwalk, ensure_bind_eq_ok.mpr ⟨hpa, bind_eq_ok.mpr ⟨r, hmap, rfl⟩⟩⟩
      · simp [put, updThr, updSlot, Kern.upd, Threads.upd, putMem, located]
    · rintro ⟨l, hl, rfl⟩
      obtain ⟨pa, hwalk, hl⟩ := bind_eq_ok.mp hl
      obtain ⟨hpa, hl⟩ := ensure_bind_eq_ok.mp hl
      obtain ⟨r, hmap, hl⟩ := bind_eq_ok.mp hl
      obtain rfl := Except.ok.inj hl
      refine bind_eq_ok.mpr ⟨pa, hwalk, ensure_bind_eq_ok.mpr ⟨hpa, ?_⟩⟩
      refine ensure_bind_eq_ok.mpr ⟨by rw [thr_put, hact], bind_eq_ok.mpr ⟨r, hmap, ?_⟩⟩
      simp [put, updThr, updSlot, Kern.upd, Threads.upd, putMem, located, pure, Except.pure]

/-- What `activate` does outside the slot: the place of the UTCB. -/
def place (A : Arch) (σ : Sys) (tsk pa : Nat) : Except Stop (Nat × Sys) := do
  ensure (pa ≠ 0) (.assertion "activate:  no utcb location.")
  let x ← σ.deref tsk
  ensure (x.isConfigured A = true) (.assertion "activate:  aspace has not been configured.")
  let r ← x.allocUtcbUspace A
  ensure (r.1 ≠ 0) (.assertion "utcb_uva")
  let m ← σ.k.mem.map A tsk r.1 pa pageSz Acc.utcb 1
  pure (r.1, (σ.putTask tsk r.2).putMem m)

theorem activate_put (hstate : th.state = .inactive) (hheir : th.prioHeir = Thrid.nil) :
    (σ.put t th s).activate A t = .ok σ' ↔
      ∃ p, σ.place A th.task s.utcbPa = .ok p ∧ σ' = p.2.put t (placed p.1 th) s := by
  have hact : th.isActive = false := by simp [Thread.isActive, hstate]
  -- the last change of the state is that of a thread in no list
  have hlast : ∀ (uutcb c : Nat), ((σ.put t th s).k.ts.upd t fun th => { th with uutcb := uutcb }).setState A c t
      .active = .ok (((σ.put t th s).k.ts.upd t fun th => { th with uutcb := uutcb }).upd t
        (Threads.entered .active)) := by
    intro uutcb c
    refine Threads.setState_plain ?_ ?_ ?_ ?_ <;> rw [Threads.thr_upd_self] <;>
      simp [show (σ.put t th s).k.ts.thr t = th from thr_put, Thread.que, Threads.entered, hstate, hheir]
  constructor
  · intro h
    obtain ⟨-, hpa, hne, hconf, uutcb, x, m, ts, hva, halloc, hmap, hts, rfl⟩ := activate_eq_ok h
    rw [thr_put] at hne hconf halloc hmap ⊢
    rw [slot_put] at hpa hmap
    refine ⟨(uutcb, (σ.putTask th.task x).putMem m), ?_, ?_⟩
    · refine ensure_bind_eq_ok.mpr ⟨hpa, bind_eq_ok.mpr ⟨σ.task th.task, ?_, ensure_bind_eq_ok.mpr ⟨hconf, ?_⟩⟩⟩
      · exact ensure_bind_eq_ok.mpr ⟨hne, rfl⟩
      · exact bind_eq_ok.mpr ⟨(uutcb, x), halloc, ensure_bind_eq_ok.mpr ⟨hva, bind_eq_ok.mpr ⟨m, hmap, rfl⟩⟩⟩
    · rw [hlast] at hts
      rw [← Except.ok.inj hts]
      simp [put, updThr, updSlot, Kern.upd, Threads.upd, putMem, putTask, placed, Threads.entered]
  · rintro ⟨p, hp, rfl⟩
    obtain ⟨hpa, hp⟩ := ensure_bind_eq_ok.mp hp
    obtain ⟨x, hderef, hp⟩ := bind_eq_ok.mp hp
    obtain ⟨hne, rfl⟩ := deref_eq_ok hderef
    obtain ⟨hconf, hp⟩ := ensure_bind_eq_ok.mp hp
    obtain ⟨r, halloc, hp⟩ := bind_eq_ok.mp hp
    obtain ⟨hva, hp⟩ := ensure_bind_eq_ok.mp hp
    obtain ⟨m, hmap, hp⟩ := bind_eq_ok.mp hp
    obtain rfl := Except.ok.inj hp
    refine ensure_bind_eq_ok.mpr ⟨by rw [thr_put, hact], ensure_bind_eq_ok.mpr ⟨by rwa [slot_put], ?_⟩⟩
    refine bind_eq_ok.mpr ⟨σ.task th.task, ?_, ensure_bind_eq_ok.mpr ⟨hconf, ?_⟩⟩
    · rw [thr_put]
      exact ensure_bind_eq_ok.mpr ⟨hne, rfl⟩
    refine bind_eq_ok.mpr ⟨r, halloc, ensure_bind_eq_ok.mpr ⟨hva, bind_eq_ok.mpr ⟨m, ?_, ?_⟩⟩⟩
    · rw [thr_put, slot_put]
      exact hmap
    · refine bind_eq_ok.mpr ⟨_, bind_eq_ok.mpr ⟨_, hlast r.1 _, rfl⟩, ?_⟩
      simp [put, updThr, updSlot, Kern.upd, Threads.upd, putMem, putTask, placed, Threads.entered, pure,
        Except.pure, thr]

/-! ## Creation -/

/-- The new thread, of what the slot held. -/
def reborn (dst sched pager tsk prio : Nat) (place : Option Nat) (th : Thread) : Thread :=
  match place with
  | none => born dst sched pager tsk prio th
  | some uutcb => placed uutcb (born dst sched pager tsk prio th)

/-- The new slot, of what the slot held. -/
def reslot (location : Option (Nat × Nat)) (s : Slot) : Slot := located location (stackedSlot s)

/-- What `newThread` does outside the slot; the last component is the place of the UTCB, when the thread
is activated. -/
def settle (A : Arch) (kioSz : Nat) (σ : Sys) (tsk pager utcb pa : Nat) :
    Except Stop (Option (Nat × Nat) × Option Nat × Sys) := do
  let l ← σ.locate A kioSz utcb
  if pager = Thrid.nil then pure (l.1, none, l.2)
  else do
    let p ← l.2.place A tsk ((l.1.map Prod.fst).getD pa)
    pure (l.1, some p.1, p.2)

/-- **A creation, pushed through its slot**: the slot gives the creation only the location of the UTCB
that it still has. -/
theorem newThread_put
    (hrange : threadNumberMin ≤ Thrid.number A dst ∧ Thrid.number A dst < threadNumberMin + threadsMax)
    (ht : t = Thrid.number A dst - threadNumberMin) (hidle : th.state = .idle) (hheir : th.prioHeir = Thrid.nil)
    (hcur : σ.k.current ≠ t) :
    (σ.put t th s).newThread A kioSz tsk dst sched pager utcb = .ok σ' ↔
      ∃ x, σ.settle A kioSz tsk pager utcb s.utcbPa = .ok x ∧
        σ' = x.2.2.put t (reborn dst sched pager tsk σ.cur.prio x.2.1 th) (reslot x.1 s) := by
  have hborn : (born dst sched pager tsk σ.cur.prio th).isActive = false := rfl
  have hstate : (born dst sched pager tsk σ.cur.prio th).state = .inactive := rfl
  have hheir' : (born dst sched pager tsk σ.cur.prio th).prioHeir = Thrid.nil := hheir
  have hpa : ∀ l : Option (Nat × Nat), (reslot l s).utcbPa = (l.map Prod.fst).getD s.utcbPa := by
    rintro (- | ⟨pa, kva⟩) <;> rfl
  have hnew : (σ.put t th s).newThread A kioSz tsk dst sched pager utcb = .ok σ' ↔
      ∃ l, σ.locate A kioSz utcb = .ok l ∧
        (if pager = Thrid.nil then
          pure (l.2.put t (born dst sched pager tsk σ.cur.prio th) (reslot l.1 s))
        else (l.2.put t (born dst sched pager tsk σ.cur.prio th) (reslot l.1 s)).activate A t) = .ok σ' := by
    unfold newThread
    rw [cur_put hcur, createThread_put hrange ht hidle hheir]
    constructor
    · intro h
      obtain ⟨r, hr, h⟩ := bind_eq_ok.mp h
      obtain rfl := Except.ok.inj hr
      obtain ⟨σ₁, hutcb, h⟩ := bind_eq_ok.mp h
      obtain ⟨l, hl, rfl⟩ := (setUtcb_put hcur hborn).mp hutcb
      exact ⟨l, hl, h⟩
    · rintro ⟨l, hl, h⟩
      exact bind_eq_ok.mpr ⟨_, rfl, bind_eq_ok.mpr ⟨_, (setUtcb_put hcur hborn).mpr ⟨l, hl, rfl⟩, h⟩⟩
  rw [hnew]
  unfold settle
  by_cases hpager : pager = Thrid.nil
  · simp only [if_pos hpager]
    constructor
    · rintro ⟨l, hl, h⟩
      exact ⟨(l.1, none, l.2), bind_eq_ok.mpr ⟨l, hl, rfl⟩, (Except.ok.inj h).symm⟩
    · rintro ⟨x, hx, rfl⟩
      obtain ⟨l, hl, hx⟩ := bind_eq_ok.mp hx
      obtain rfl := Except.ok.inj hx
      exact ⟨l, hl, rfl⟩
  · simp only [if_neg hpager]
    constructor
    · rintro ⟨l, hl, h⟩
      obtain ⟨p, hp, rfl⟩ := (activate_put hstate hheir').mp h
      rw [hpa] at hp
      exact ⟨(l.1, some p.1, p.2), bind_eq_ok.mpr ⟨l, hl, bind_eq_ok.mpr ⟨p, hp, rfl⟩⟩, rfl⟩
    · rintro ⟨x, hx, rfl⟩
      obtain ⟨l, hl, hx⟩ := bind_eq_ok.mp hx
      obtain ⟨p, hp, hx⟩ := bind_eq_ok.mp hx
      obtain rfl := Except.ok.inj hx
      rw [← hpa] at hp
      exact ⟨l, hl, (activate_put hstate hheir').mpr ⟨p, hp, rfl⟩⟩

theorem createTask_put {kupage : Nat} :
    (σ.put t th s).createTask A kupage = .ok (σ', tsk) ↔
      ∃ σ₁, σ.createTask A kupage = .ok (σ₁, tsk) ∧ σ' = σ₁.put t th s := by
  constructor
  · intro h
    obtain ⟨tasks, n, m, hpush, rfl, hmap, rfl⟩ := createTask_eq_ok h
    refine ⟨(({ σ with tasks := tasks } : Sys).putMem m).putTask (n + 1) Task.fresh, ?_, ?_⟩
    · unfold createTask
      rw [show σ.tasks.pushBack () = some (tasks, n) from hpush]
      exact bind_eq_ok.mpr ⟨m, hmap, rfl⟩
    · simp [put, updThr, updSlot, Kern.upd, Threads.upd, putMem, putTask]
  · rintro ⟨σ₁, h, rfl⟩
    obtain ⟨tasks, n, m, hpush, rfl, hmap, rfl⟩ := createTask_eq_ok h
    unfold createTask
    rw [show (σ.put t th s).tasks.pushBack () = some (tasks, n) from hpush]
    refine bind_eq_ok.mpr ⟨m, hmap, ?_⟩
    simp [put, updThr, updSlot, Kern.upd, Threads.upd, putMem, putTask, pure, Except.pure]

/-- Which parts of a creation were asked for. -/
theorem settle_shape {pa : Nat} {x : Option (Nat × Nat) × Option Nat × Sys}
    (hx : σ.settle A kioSz tsk pager utcb pa = .ok x) :
    (x.1 = none ↔ utcb = A.minusOne) ∧ (x.2.1 = none ↔ pager = Thrid.nil) := by
  obtain ⟨l, hl, hx⟩ := bind_eq_ok.mp hx
  have hloc : l.1 = none ↔ utcb = A.minusOne := by
    unfold locate at hl
    split_ifs at hl with hnone
    · rw [← Except.ok.inj hl]
      exact iff_of_true rfl hnone
    · obtain ⟨pa, -, hl⟩ := bind_eq_ok.mp hl
      obtain ⟨-, hl⟩ := ensure_bind_eq_ok.mp hl
      obtain ⟨r, -, hl⟩ := bind_eq_ok.mp hl
      rw [← Except.ok.inj hl]
      exact iff_of_false (Option.some_ne_none _) hnone
  split_ifs at hx with hpager
  · rw [← Except.ok.inj hx]
    exact ⟨hloc, iff_of_true rfl hpager⟩
  · obtain ⟨p, -, hx⟩ := bind_eq_ok.mp hx
    rw [← Except.ok.inj hx]
    exact ⟨hloc, iff_of_false (Option.some_ne_none _) hpager⟩

/-- A creation that was given a location does not look at the one of the slot. -/
theorem settle_congr {pa pa' : Nat} {x : Option (Nat × Nat) × Option Nat × Sys}
    (h : utcb ≠ A.minusOne ∨ pa = pa') (hx : σ.settle A kioSz tsk pager utcb pa = .ok x) :
    σ.settle A kioSz tsk pager utcb pa' = .ok x := by
  rcases h with hutcb | rfl
  · have hloc := (settle_shape hx).1
    obtain ⟨l, hl, hx⟩ := bind_eq_ok.mp hx
    refine bind_eq_ok.mpr ⟨l, hl, ?_⟩
    split_ifs at hx ⊢ with hpager
    · exact hx
    · obtain ⟨p, hp, hx⟩ := bind_eq_ok.mp hx
      obtain rfl := Except.ok.inj hx
      refine bind_eq_ok.mpr ⟨p, ?_, rfl⟩
      cases h1 : l.1 with
      | none => exact absurd (hloc.mp h1) hutcb
      | some y =>
        rw [h1] at hp
        exact hp
  · exact hx

/-! ## Deletion -/

/-- The slot behind `free_utcb_kspace`. -/
def freed (A : Arch) (s : Slot) : Slot :=
  if s.kutcb = 0 then s else { s with utcbPa := A.minusOne, kutcb := A.minusOne }

/-- What a deletion leaves of its thread. -/
theorem delete_slot {dst r : Nat} (ht : t = Thrid.number A dst - threadNumberMin)
    (hok : σ.delete A t dst = .ok (r, σ')) :
    σ'.thr t = Threads.deleted (σ.thr t) ∧ σ'.slot t = freed A (σ.slot t) := by
  obtain ⟨-, -, σ₁, x, ts, hfree, -, hstate, hlast⟩ := delete_eq_ok hok
  rw [← ht] at hstate
  have hthr : σ'.thr t = ts.thr t ∧ σ'.slot t = σ₁.slot t := by
    rcases hlast with ⟨-, hlast⟩ | ⟨-, rfl⟩
    · obtain ⟨-, hlast⟩ := ensure_bind_eq_ok.mp hlast
      rw [← Except.ok.inj hlast]
      exact ⟨rfl, rfl⟩
    · exact ⟨rfl, rfl⟩
  rw [hthr.1, hthr.2, Threads.setState_deleted hstate]
  unfold freed
  rcases freeUtcbKspace_eq_ok hfree with ⟨hzero, rfl⟩ | ⟨hne, m, -, rfl⟩
  · rw [if_pos hzero]
    exact ⟨rfl, rfl⟩
  · rw [if_neg hne, slot_updSlot, if_pos rfl]
    exact ⟨rfl, rfl⟩

/-! ## Reuse -/

/-- The same state, had the slot never been used. -/
def neverUsed (A : Arch) (σ : Sys) (t : Nat) : Sys := σ.put t (Thread.fresh A) (Slot.fresh A)

/-- What the kernel keeps of a thread: all but its UTCB. -/
def kernelState (σ : Sys) (t : Nat) : Thread × Slot :=
  ({ σ.thr t with utcb := ⟨fun _ => 0, fun _ => 0, 0, 0, 0⟩ }, { σ.slot t with userHandle := 0 })

/-- The fields that neither a deletion nor a creation writes have the values of the constructor: the
thread never ran and was never sent to.  An activation gives the thread another UTCB, and a location
another page of the kernel window. -/
structure Clean (A : Arch) (σ : Sys) (t : Nat) (activated located : Prop) : Prop where
  uutcb : activated ∨ (σ.thr t).uutcb = A.minusOne
  kutcb : located ∨ (σ.slot t).kutcb ≠ 0
  flags : (σ.slot t).flags = 0
  fpu : (σ.slot t).fpuInUse = 0
  entryType : (σ.slot t).entryType = 0
  sched : (σ.thr t).sched = none
  pager : (σ.thr t).pager = none
  timeout : (σ.thr t).timeout = 0
  ipcTo : (σ.thr t).ipcTo = Thrid.nil
  fromSpec : (σ.thr t).fromSpec = Thrid.nil
  pfault : (σ.thr t).pfAddr = 0 ∧ (σ.thr t).pfAccess = 0 ∧ (σ.thr t).pfInst = 0
  exception : (σ.thr t).excType = 0 ∧ (σ.thr t).excPf = 0
  inherited : (σ.thr t).inherited = []
  signal : (σ.thr t).signalPending = false
  iter : (σ.thr t).que = none → (σ.thr t).iter = none
  timeslice : (σ.thr t).timeslice = 0 ∧ (σ.thr t).updatePoint = 0

instance {activated located : Prop} [Decidable activated] [Decidable located] :
    Decidable (σ.Clean A t activated located) :=
  decidable_of_iff (((activated ∨ (σ.thr t).uutcb = A.minusOne) ∧ (located ∨ (σ.slot t).kutcb ≠ 0)) ∧
    ((σ.slot t).flags = 0 ∧ (σ.slot t).fpuInUse = 0 ∧ (σ.slot t).entryType = 0) ∧
    ((σ.thr t).sched = none ∧ (σ.thr t).pager = none) ∧
    ((σ.thr t).timeout = 0 ∧ (σ.thr t).ipcTo = Thrid.nil ∧ (σ.thr t).fromSpec = Thrid.nil) ∧
    ((σ.thr t).pfAddr = 0 ∧ (σ.thr t).pfAccess = 0 ∧ (σ.thr t).pfInst = 0) ∧
    ((σ.thr t).excType = 0 ∧ (σ.thr t).excPf = 0) ∧ (σ.thr t).inherited = [] ∧
    (σ.thr t).signalPending = false ∧ ((σ.thr t).que = none → (σ.thr t).iter = none) ∧
    ((σ.thr t).timeslice = 0 ∧ (σ.thr t).updatePoint = 0))
    ⟨fun ⟨⟨h1, h2⟩, ⟨h3, h4, h5⟩, ⟨h6, h7⟩, ⟨h8, h9, h10⟩, h11, h12, h13, h14, h15, h16⟩ =>
        ⟨h1, h2, h3, h4, h5, h6, h7, h8, h9, h10, h11, h12, h13, h14, h15, h16⟩,
      fun h => ⟨⟨h.uutcb, h.kutcb⟩, ⟨h.flags, h.fpu, h.entryType⟩, ⟨h.sched, h.pager⟩,
        ⟨h.timeout, h.ipcTo, h.fromSpec⟩, h.pfault, h.exception, h.inherited, h.signal, h.iter, h.timeslice⟩⟩

/-- Two new threads agree only when the fields of the slot are clean. -/
theorem clean_of_agree {prio prio' tsk' : Nat} {p p' : Option Nat} {l l' : Option (Nat × Nat)}
    (hp : p = none ↔ pager = Thrid.nil) (hl : l = none ↔ utcb = A.minusOne)
    (hp' : p' = none ↔ pager = Thrid.nil) (hl' : l' = none ↔ utcb = A.minusOne)
    (hσ : σ'.thr t = reborn dst sched pager tsk prio p (Threads.deleted (σ.thr t)) ∧
      σ'.slot t = reslot l (freed A (σ.slot t)))
    (hτ : τ.thr t = reborn dst sched pager tsk' prio' p' (Thread.fresh A) ∧
      τ.slot t = reslot l' (Slot.fresh A))
    (h : σ'.kernelState t = τ.kernelState t) :
    σ.Clean A t (pager ≠ Thrid.nil) (utcb ≠ A.minusOne) ∧ tsk = tsk' := by
  unfold kernelState at h
  rw [hσ.1, hσ.2, hτ.1, hτ.2] at h
  obtain ⟨hthr, hslot⟩ := Prod.mk.inj h
  have hfields : ((σ.thr t).sched = none ∧ (σ.thr t).pager = none ∧ (σ.thr t).timeout = 0 ∧
      (σ.thr t).ipcTo = Thrid.nil ∧ (σ.thr t).fromSpec = Thrid.nil ∧
      ((σ.thr t).pfAddr = 0 ∧ (σ.thr t).pfAccess = 0 ∧ (σ.thr t).pfInst = 0) ∧
      ((σ.thr t).excType = 0 ∧ (σ.thr t).excPf = 0) ∧ (σ.thr t).inherited = [] ∧
      (σ.thr t).signalPending = false ∧ ((σ.thr t).que = none → (σ.thr t).iter = none) ∧
      ((σ.thr t).timeslice = 0 ∧ (σ.thr t).updatePoint = 0)) ∧
      (p = none → p' = none → (σ.thr t).uutcb = A.minusOne) ∧ tsk = tsk' := by
    cases p <;> cases p' <;>
      simp only [reborn, born, placed, stackedThr, Threads.created, Threads.deleted, Thread.fresh,
        Thread.mk.injEq] at hthr <;>
      simp_all [Arch.minusOne]
  have hslots : ((σ.slot t).flags = 0 ∧ (σ.slot t).fpuInUse = 0 ∧ (σ.slot t).entryType = 0) ∧
      (l = none → l' = none → (σ.slot t).kutcb ≠ 0) := by
    have hmax : A.minusOne ≠ 0 := by cases A <;> decide
    unfold freed at hslot
    cases l <;> cases l' <;> split_ifs at hslot <;>
      simp only [reslot, located, stackedSlot, Slot.fresh, Slot.mk.injEq] at hslot <;>
      simp_all [Arch.minusOne]
  obtain ⟨⟨hsched, hpager, htimeout, hto, hspec, hpf, hexc, hinh, hsig, hiter, hslice⟩, huutcb, htask⟩ := hfields
  obtain ⟨⟨hflags, hfpu, hentry⟩, hkutcb⟩ := hslots
  refine ⟨⟨?_, ?_, hflags, hfpu, hentry, hsched, hpager, htimeout, hto, hspec, hpf, hexc, hinh, hsig, hiter,
    hslice⟩, htask⟩
  · by_cases hnil : pager = Thrid.nil
    · exact .inr (huutcb (hp.mpr hnil) (hp'.mpr hnil))
    · exact .inl hnil
  · by_cases hnone : utcb = A.minusOne
    · exact .inr (hkutcb (hl.mpr hnone) (hl'.mpr hnone))
    · exact .inl hnone

/-- Clean fields make two new threads agree. -/
theorem agree_of_clean {prio : Nat} {p : Option Nat} {l : Option (Nat × Nat)}
    (hp : p = none ↔ pager = Thrid.nil) (hl : l = none ↔ utcb = A.minusOne)
    (hσ : σ'.thr t = reborn dst sched pager tsk prio p (Threads.deleted (σ.thr t)) ∧
      σ'.slot t = reslot l (freed A (σ.slot t)))
    (hτ : τ.thr t = reborn dst sched pager tsk prio p (Thread.fresh A) ∧ τ.slot t = reslot l (Slot.fresh A))
    (h : σ.Clean A t (pager ≠ Thrid.nil) (utcb ≠ A.minusOne)) : σ'.kernelState t = τ.kernelState t := by
  unfold kernelState
  rw [hσ.1, hσ.2, hτ.1, hτ.2]
  obtain ⟨huutcb, hkutcb, hflags, hfpu, hentry, hsched, hpager, htimeout, hto, hspec, hpf, hexc, hinh, hsig,
    hiter, hslice⟩ := h
  congr 1
  · cases p with
    | none =>
      have hu := huutcb.resolve_left fun hne => hne (hp.mp rfl)
      simp only [reborn, born, stackedThr, Threads.created, Threads.deleted, Thread.fresh, Thread.mk.injEq]
      simp_all [Arch.minusOne]
    | some uutcb =>
      simp only [reborn, born, placed, stackedThr, Threads.created, Threads.deleted, Thread.fresh,
        Thread.mk.injEq]
      simp_all
  · unfold freed
    cases l with
    | none =>
      have hk := hkutcb.resolve_left fun hne => hne (hl.mp rfl)
      rw [if_neg hk]
      simp_all [reslot, located, stackedSlot, Slot.fresh, Arch.minusOne]
    | some y =>
      split_ifs <;> simp_all [reslot, located, stackedSlot, Slot.fresh]

/-- A creation in a slot that `put` wrote, when it is accepted. -/
theorem threadControl_put {timerIrq kupage space : Nat} (hcur : σ.k.current ≠ t) (htmax : t < threadsMax)
    (hnum : Thrid.number A dst = t + threadNumberMin) (hspace : space ≠ Thrid.nil)
    (hidle : th.state = .idle) (hheir : th.prioHeir = Thrid.nil) :
    (σ.put t th s).threadControl A kioSz timerIrq kupage dst space sched pager utcb = .ok (1, σ') ↔
      (σ.privileged A = true ∧ Thrid.isGlobalUser A dst = true ∧ sched ≠ Thrid.nil) ∧
        ∃ τ tsk x, (dst = space ∧ pager = Thrid.nil ∧ σ.createTask A kupage = .ok (τ, tsk) ∨
            dst ≠ space ∧ τ = σ ∧ (σ.put t th s).spaceTask A space = .ok tsk ∧
              (pager ≠ Thrid.nil → tsk ≠ 0 ∧ (σ.task tsk).isConfigured A = true ∧
                (σ.task tsk).isFull = false)) ∧
          τ.settle A kioSz tsk pager utcb s.utcbPa = .ok x ∧
          σ' = x.2.2.put t (reborn dst sched pager tsk σ.cur.prio x.2.1 th) (reslot x.1 s) := by
  have hint : Thrid.isInt A dst = false := by
    have hlt : ¬ Thrid.number A dst < intsMax := by
      rw [hnum]
      unfold intsMax threadNumberMin
      omega
    simp [Thrid.isInt, hlt]
  have hnone : (σ.put t th s).k.ts.findNumber (Thrid.number A dst) = none := by
    unfold Threads.findNumber
    rw [hnum, if_pos ⟨by omega, by omega⟩, Nat.add_sub_cancel]
    exact if_pos (by rw [show (σ.put t th s).k.ts.thr t = th from thr_put, hidle])
  have hrange : threadNumberMin ≤ Thrid.number A dst ∧
      Thrid.number A dst < threadNumberMin + threadsMax := by omega
  have ht : t = Thrid.number A dst - threadNumberMin := by omega
  have hpriv : (σ.put t th s).privileged A = σ.privileged A := by
    unfold privileged
    rw [cur_put hcur]
  rw [threadControl_creates hint hnone hspace, hpriv, create_accepts]
  constructor
  · rintro ⟨hp, hglob, hsched, ⟨hdst, hpager, σ₁, tsk, hput, hnew⟩ | ⟨hdst, tsk, hfind, hcan, hnew⟩⟩
    · obtain ⟨τ, htask, rfl⟩ := createTask_put.mp hput
      have hτ : τ.k.current = σ.k.current ∧ τ.cur = σ.cur := by
        obtain ⟨tasks, n, m, -, -, -, rfl⟩ := createTask_eq_ok htask
        exact ⟨rfl, rfl⟩
      obtain ⟨x, hx, rfl⟩ := (newThread_put hrange ht hidle hheir (hτ.1 ▸ hcur)).mp hnew
      rw [hτ.2]
      exact ⟨⟨hp, hglob, hsched⟩, τ, tsk, x, .inl ⟨hdst, hpager, htask⟩, hx, rfl⟩
    · obtain ⟨x, hx, rfl⟩ := (newThread_put hrange ht hidle hheir hcur).mp hnew
      exact ⟨⟨hp, hglob, hsched⟩, σ, tsk, x, .inr ⟨hdst, rfl, hfind, hcan⟩, hx, rfl⟩
  · rintro ⟨⟨hp, hglob, hsched⟩, τ, tsk, x, hcase, hx, rfl⟩
    refine ⟨hp, hglob, hsched, ?_⟩
    rcases hcase with ⟨hdst, hpager, htask⟩ | ⟨hdst, rfl, hfind, hcan⟩
    · have hτ : τ.k.current = σ.k.current ∧ τ.cur = σ.cur := by
        obtain ⟨tasks, n, m, -, -, -, rfl⟩ := createTask_eq_ok htask
        exact ⟨rfl, rfl⟩
      refine .inl ⟨hdst, hpager, τ.put t th s, tsk, createTask_put.mpr ⟨τ, htask, rfl⟩, ?_⟩
      rw [← hτ.2]
      exact (newThread_put hrange ht hidle hheir (hτ.1 ▸ hcur)).mpr ⟨x, hx, rfl⟩
    · exact .inr ⟨hdst, tsk, hfind, hcan, (newThread_put hrange ht hidle hheir hcur).mpr ⟨x, hx, rfl⟩⟩

/-- A global space specifier finds the same task whatever an idle slot holds. -/
theorem spaceTask_neverUsed {space : Nat} (hglobal : Thrid.isGlobal A space = true)
    (hidle : (σ.thr t).state = .idle) : σ.spaceTask A space = (σ.neverUsed A t).spaceTask A space := by
  have hthr : ∀ u, (σ.neverUsed A t).k.ts.thr u = if u = t then Thread.fresh A else σ.thr u :=
    fun u => thr_updThr (fun _ => Thread.fresh A)
  unfold spaceTask find Threads.find
  rw [if_pos hglobal, if_pos hglobal]
  unfold Threads.findNumber
  split_ifs with hrange
  · simp only [hthr]
    by_cases hu : Thrid.number A space - threadNumberMin = t
    · rw [if_pos hu, hu, if_pos (show (σ.k.ts.thr t).state = .idle from hidle),
        if_pos (show (Thread.fresh A).state = .idle from rfl)]
      rfl
    · rw [if_neg hu]
      change (Except.ok (if (σ.thr _).state = .idle then none else some _) >>= _) = _
      split_ifs
      · rfl
      · change Except.ok (σ.thr _).task = Except.ok ((σ.neverUsed A t).thr _).task
        rw [show (σ.neverUsed A t).thr _ = _ from hthr _, if_neg hu]
  · rfl

/-- **Reuse of a slot.**  A thread is deleted, its slot stays as the deletion left it, and another thread
creates one there.  What the kernel keeps of it is what it would keep had the slot never been used, exactly
when the fields that nobody resets were clean, and the space specifier finds the same task in both cases. -/
theorem reuse_unobservable {timerIrq kupage kupage' old space sched' pager' utcb' : Nat} {τ' : Sys}
    (hold : Thrid.number A old = t + threadNumberMin) (htmax : t < threadsMax)
    (hdelete : σ.threadControl A kioSz timerIrq kupage' old Thrid.nil sched' pager' utcb' = .ok (1, σ'))
    (hthr : τ.thr t = σ'.thr t) (hslot : τ.slot t = σ'.slot t) (hcur : τ.k.current ≠ t)
    (hnum : Thrid.number A dst = t + threadNumberMin) (hspace : space ≠ Thrid.nil)
    (hcreate : τ.threadControl A kioSz timerIrq kupage dst space sched pager utcb = .ok (1, τ')) :
    (∃ τ₀, (τ.neverUsed A t).threadControl A kioSz timerIrq kupage dst space sched pager utcb = .ok (1, τ₀) ∧
        τ'.kernelState t = τ₀.kernelState t) ↔
      σ.Clean A t (pager ≠ Thrid.nil) (utcb ≠ A.minusOne) ∧
        (dst = space ∨ τ.spaceTask A space = (τ.neverUsed A t).spaceTask A space) := by
  have hdel : σ.delete A t old = .ok (1, σ') := by
    rcases threadControl_cases hdelete with ⟨e, he⟩ | ⟨-, hint, -⟩ |
      ⟨-, ⟨-, hne, -⟩ | ⟨u, hu, ⟨-, hdel⟩ | ⟨hne, -⟩⟩⟩
    · cases congrArg Prod.fst he
    · have hlt : ¬ Thrid.number A old < intsMax := by
        rw [hold]
        unfold intsMax threadNumberMin
        omega
      simp [Thrid.isInt, hlt] at hint
    · exact absurd rfl hne
    · obtain ⟨-, -, hut, -⟩ := Threads.findNumber_eq_some hu
      obtain rfl : u = t := by omega
      exact hdel
    · exact absurd rfl hne
  obtain ⟨hthr', hslot'⟩ := delete_slot (by omega) hdel
  have hself : τ.put t (Threads.deleted (σ.thr t)) (freed A (σ.slot t)) = τ := by
    rw [← hthr', ← hslot', ← hthr, ← hslot, put_self]
  rw [← hself] at hcreate
  obtain ⟨hok, τ₁, tsk, x, hcase, hx, rfl⟩ :=
    (threadControl_put hcur htmax hnum hspace rfl rfl).mp hcreate
  have hput : ∀ {ρ : Sys} {th : Thread} {s : Slot}, (ρ.put t th s).thr t = th ∧ (ρ.put t th s).slot t = s :=
    ⟨thr_put, slot_put⟩
  obtain ⟨hl, hp⟩ := settle_shape hx
  constructor
  · rintro ⟨τ₀, hτ₀, hsame⟩
    obtain ⟨-, τ₂, tsk', y, hcase', hy, rfl⟩ := (threadControl_put hcur htmax hnum hspace rfl rfl).mp hτ₀
    obtain ⟨hl', hp'⟩ := settle_shape hy
    obtain ⟨hclean, rfl⟩ := clean_of_agree hp hl hp' hl' hput hput hsame
    refine ⟨hclean, ?_⟩
    rcases hcase with ⟨hdst, -⟩ | ⟨-, -, hfind, -⟩
    · exact .inl hdst
    · rcases hcase' with ⟨hdst, -⟩ | ⟨-, -, hfind', -⟩
      · exact .inl hdst
      · rw [hself] at hfind
        exact .inr (hfind.trans hfind'.symm)
  · rintro ⟨hclean, hfind⟩
    have hpa : utcb ≠ A.minusOne ∨ (freed A (σ.slot t)).utcbPa = (Slot.fresh A).utcbPa := by
      rcases hclean.kutcb with h | h
      · exact .inl h
      · unfold freed
        rw [if_neg h]
        exact .inr rfl
    refine ⟨_, (threadControl_put hcur htmax hnum hspace rfl rfl).mpr
      ⟨hok, τ₁, tsk, x, ?_, settle_congr hpa hx, rfl⟩, agree_of_clean hp hl hput hput hclean⟩
    rcases hcase with ⟨hdst, hpager, htask⟩ | ⟨hdst, rfl, hspec, hcan⟩
    · exact .inl ⟨hdst, hpager, htask⟩
    · rw [hself] at hspec
      exact .inr ⟨hdst, rfl, (hfind.resolve_left hdst).symm.trans hspec, hcan⟩

/-- The thread 141 is active in the task of 140, is deleted, and is created again. -/
theorem activeAgain_same : ∃ σ₀ σ σ' τ', boot .sparc board found = .ok σ₀ ∧
    runAll (step .sparc board) σ₀ (makeTask ++ [(0, .call (control 141 140 (Thrid.sigma0 .sparc) 0x40100000))]) =
      .ok σ ∧
    σ.doCall .sparc board (control 141 0 Thrid.nil 0) = .ok (1, σ') ∧
    σ'.doCall .sparc board (control 141 140 (Thrid.sigma0 .sparc) 0x40100000) = .ok (1, τ') ∧
    ∃ τ₀, (σ'.neverUsed .sparc 13).doCall .sparc board
        (control 141 140 (Thrid.sigma0 .sparc) 0x40100000) = .ok (1, τ₀) ∧
      τ'.kernelState 13 = τ₀.kernelState 13 := by
  have hrun : (match boot .sparc board found with
      | .ok σ₀ => match runAll (step .sparc board) σ₀
          (makeTask ++ [(0, .call (control 141 140 (Thrid.sigma0 .sparc) 0x40100000))]) with
        | .ok σ => match σ.doCall .sparc board (control 141 0 Thrid.nil 0) with
          | .ok (r, σ') => match σ'.doCall .sparc board (control 141 140 (Thrid.sigma0 .sparc) 0x40100000) with
            | .ok (r', _) => decide (r = 1 ∧ r' = 1 ∧ σ.Clean .sparc 13 True True ∧
                (σ'.thr 13).state = .idle ∧ σ'.k.current ≠ 13)
            | .error _ => false
          | .error _ => false
        | .error _ => false
      | .error _ => false) = true := by decide +kernel
  split at hrun
  · rename_i σ₀ hboot
    split at hrun
    · rename_i σ hsteps
      split at hrun
      · rename_i r σ' hdelete
        split at hrun
        · rename_i r' τ' hcreate
          obtain ⟨rfl, rfl, hclean, hidle, hcur⟩ := of_decide_eq_true hrun
          refine ⟨σ₀, σ, σ', τ', hboot, hsteps, hdelete, hcreate, ?_⟩
          refine (reuse_unobservable (by decide) (by decide) hdelete rfl rfl hcur (by decide) (by decide)
            hcreate).mpr ⟨?_, .inr (spaceTask_neverUsed (by decide) hidle)⟩
          exact { hclean with uutcb := .inl (by decide), kutcb := .inl (by decide) }
        · cases hrun
      · cases hrun
    · cases hrun
  · cases hrun

/-- The thread 141 was active, and is created again without a pager: it has the UTCB of its predecessor. -/
theorem inactiveAgain_leaks : ∃ σ₀ σ τ' τ₀, boot .sparc board found = .ok σ₀ ∧
    runAll (step .sparc board) σ₀ (makeTask ++ [(0, .call (control 141 140 (Thrid.sigma0 .sparc) 0x40100000)),
      (0, .call (control 141 0 Thrid.nil 0))]) = .ok σ ∧
    σ.doCall .sparc board (control 141 140 Thrid.nil 0xffffffff) = .ok (1, τ') ∧
    (σ.neverUsed .sparc 13).doCall .sparc board (control 141 140 Thrid.nil 0xffffffff) = .ok (1, τ₀) ∧
    τ'.kernelState 13 ≠ τ₀.kernelState 13 := by
  have hrun : (match boot .sparc board found with
      | .ok σ₀ => match runAll (step .sparc board) σ₀
          (makeTask ++ [(0, .call (control 141 140 (Thrid.sigma0 .sparc) 0x40100000)),
            (0, .call (control 141 0 Thrid.nil 0))]) with
        | .ok σ => match σ.doCall .sparc board (control 141 140 Thrid.nil 0xffffffff) with
          | .ok (r, τ') => match (σ.neverUsed .sparc 13).doCall .sparc board
              (control 141 140 Thrid.nil 0xffffffff) with
            | .ok (r', τ₀) => decide (r = 1 ∧ r' = 1 ∧ (τ'.thr 13).uutcb ≠ (τ₀.thr 13).uutcb)
            | .error _ => false
          | .error _ => false
        | .error _ => false
      | .error _ => false) = true := by decide +kernel
  split at hrun
  · rename_i σ₀ hboot
    split at hrun
    · rename_i σ hsteps
      split at hrun
      · rename_i r τ' hcreate
        split at hrun
        · rename_i r' τ₀ hfresh
          obtain ⟨rfl, rfl, hne⟩ := of_decide_eq_true hrun
          exact ⟨σ₀, σ, τ', τ₀, hboot, hsteps, hcreate, hfresh, fun h => hne (congrArg (fun x => x.1.uutcb) h)⟩
        · cases hrun
      · cases hrun
    · cases hrun
  · cases hrun

end Sys

end Wrmos
