import Wrmos.Semaphore
import Mathlib.Data.List.Nodup

/-!
# Semaphores keep every post

`Good` is the invariant of one semaphore with what was noted about it; `Inv` ties it to where the threads
are.  A thread inside `wrm_sem_wait` is either in the queue or was taken out by a post (`handed`); in the
second case the signal of that post is kept by the kernel or still on its way, unless the thread has
noticed already (`awake`).  From this two results follow: nothing is lost in a counting semaphore, and a
binary one excludes as long as no post comes from inside a nested pair: the semaphore does not count how
often its owner waited, and the first post gives it away.
-/

namespace Wrmos

open Lib

namespace Sem

variable {sem sem' : Sem} {t : Nat} {timeout : Int}

/-- A semaphore as `wrm_sem_init` makes it. -/
def Fresh (sem : Sem) : Prop := ∃ binary recursive value, Sem.init binary recursive value = .ok sem

theorem Fresh.spec (h : Fresh sem) : sem.ring.Wf semQueueLength ∧ sem.queue = [] ∧ sem.owner = none ∧
    sem.value ≤ semValueMax ∧ (sem.recursive = true → sem.binary = true) ∧
    (sem.binary = true → sem.value ≤ 1) := by
  obtain ⟨binary, recursive, value, h⟩ := h
  unfold init at h
  split_ifs at h with hmode hmax
  all_goals
    obtain rfl := Except.ok.inj h
    refine ⟨⟨Nat.zero_lt_succ 7, Nat.zero_lt_succ 7⟩, rfl, rfl, ?_, ?_, ?_⟩
  · exact Nat.le_of_ble_eq_true rfl
  · cases recursive <;> cases binary <;> simp_all
  · exact fun _ => Nat.le_refl 1
  · exact Nat.not_lt.mp hmax
  · cases recursive <;> cases binary <;> simp_all
  · intro hb
    have hb : binary = true := hb
    simp_all

/-- The ways through the first section of `wrm_sem_wait`. -/
theorem enter_cases (sem : Sem) (t : Nat) (timeout : Int) :
    (sem.enter t timeout = (some 0, sem) ∧ sem.recursive = true ∧ sem.owner = some t) ∨
    (∃ sem', sem.enter t timeout = (some 0, sem') ∧ sem.value ≠ 0 ∧ sem'.value + 1 = sem.value ∧
      sem'.ring = sem.ring ∧ sem'.binary = sem.binary ∧ sem'.recursive = sem.recursive ∧
      (sem.binary = true → sem'.owner = some t)) ∨
    (∃ rc, sem.enter t timeout = (some rc, sem) ∧ rc ≠ 0) ∨
    ∃ sem' ring, sem.enter t timeout = (none, sem') ∧ sem.value = 0 ∧
      sem.ring.push semQueueLength t = some ring ∧ sem' = { sem with ring := ring } := by
  unfold enter
  by_cases hown : (sem.recursive && sem.owner == some t) = true
  · rw [if_pos hown]
    rw [Bool.and_eq_true, beq_iff_eq] at hown
    exact .inl ⟨rfl, hown⟩
  · rw [if_neg hown]
    by_cases hv : sem.value ≠ 0
    · rw [if_pos hv]
      refine .inr (.inl ⟨_, rfl, hv, ?_, rfl, rfl, rfl, fun hb => if_pos hb⟩)
      exact Nat.sub_add_cancel (Nat.pos_of_ne_zero hv)
    · rw [if_neg hv]
      by_cases ht : timeout = 0
      · rw [if_pos ht]
        exact .inr (.inr (.inl ⟨_, rfl, by decide⟩))
      · rw [if_neg ht]
        cases hp : sem.ring.push semQueueLength t with
        | none => exact .inr (.inr (.inl ⟨2, rfl, by decide⟩))
        | some ring => exact .inr (.inr (.inr ⟨_, ring, rfl, not_not.mp hv, rfl, rfl⟩))

/-- The ways through the section of `wrm_sem_post`. -/
theorem post_cases {r : Int × Option Nat × Sem} (hwf : sem.ring.Wf semQueueLength)
    (hok : sem.post t = .ok r) :
    (sem.value = semValueMax ∧ r = (1, none, sem)) ∨
    (∃ thr rest ring, sem.queue = thr :: rest ∧ sem.value = 0 ∧ ring.Wf semQueueLength ∧
      ring.toList semQueueLength = rest ∧ thr ≠ t ∧
      r = (0, some thr, { sem with ring := ring, owner := if sem.binary then some thr else sem.owner })) ∨
    (sem.queue = [] ∧ sem.value ≠ semValueMax ∧
      r = (0, none, { sem with
        value := if sem.binary then 1 else sem.value + 1
        owner := if sem.binary then none else sem.owner })) := by
  unfold post at hok
  by_cases hmax : sem.value = semValueMax
  · rw [if_pos hmax] at hok
    exact .inl ⟨hmax, (Except.ok.inj hok).symm⟩
  · rw [if_neg hmax] at hok
    cases hpop : sem.ring.pop semQueueLength with
    | none =>
      rw [hpop] at hok
      refine .inr (.inr ⟨?_, hmax, (Except.ok.inj hok).symm⟩)
      unfold Lib.Ring.pop at hpop
      split_ifs at hpop with hempty
      exact (Lib.Ring.toList_eq_nil hwf).mpr hempty
    | some p =>
      obtain ⟨thr, ring⟩ := p
      rw [hpop] at hok
      obtain ⟨hzero, hok⟩ := ensure_bind_eq_ok.mp hok
      obtain ⟨hne, hok⟩ := ensure_bind_eq_ok.mp hok
      obtain ⟨hwf', hlist⟩ := Lib.Ring.toList_pop hwf hpop
      exact .inr (.inl ⟨thr, _, ring, hlist, hzero, hwf', rfl, hne, (Except.ok.inj hok).symm⟩)

end Sem

/-- The semaphore a thread waits for. -/
def Pc.on : Pc → Option Nat
  | .queued s _ => some s
  | .blocked s _ => some s
  | .woken s _ => some s
  | .expired s => some s
  | _ => none

namespace SemSys

variable {sems : Nat → Sem} {σ σ' : SemSys} {s t u : Nat} {timeout : Int}

/-! ## The invariant -/

/-- One semaphore, with what was noted about it since it was `sem₀`. -/
structure Good (sem₀ sem : Sem) (notes : Notes) (s : Nat) : Prop where
  wf : sem.ring.Wf semQueueLength
  binary : sem.binary = sem₀.binary
  recursive : sem.recursive = sem₀.recursive
  nodup : (sem.queue ++ notes.handed s).Nodup
  zero : sem.queue ≠ [] → sem.value = 0
  max : sem.value ≤ semValueMax
  count : sem₀.binary = false →
    notes.waits s + sem.value + (notes.handed s).length = sem₀.value + notes.posts s
  order : sem.queue.Pairwise fun t u => notes.ticket t < notes.ticket u
  early : ∀ t ∈ sem.queue, notes.ticket t < notes.clock

/-- The threads and the semaphores. -/
structure Inv (sems : Nat → Sem) (σ : SemSys) : Prop where
  good : ∀ s, Good (sems s) (σ.sem s) σ.notes s
  waits : ∀ s t, t ∈ (σ.sem s).queue ++ σ.notes.handed s ↔ (σ.pc t).on = some s
  awake : ∀ s t timeout, t ∈ σ.notes.handed s →
    σ.pc t = .queued s timeout ∨ σ.pc t = .blocked s timeout →
    σ.pending t = true ∨ ∃ u, σ.pc u = .signalling t
  still : ∀ s t timeout, σ.pc t = .blocked s timeout → σ.pending t = false
  other : ∀ t u, σ.pc t = .signalling u → t ≠ u

/-- Nothing that concerns the semaphore has changed. -/
theorem Good.congr {sem₀ sem : Sem} {n n' : Notes} (h : Good sem₀ sem n s)
    (hh : n'.handed s = n.handed s) (hw : n'.waits s = n.waits s) (hp : n'.posts s = n.posts s)
    (ht : ∀ t ∈ sem.queue, n'.ticket t = n.ticket t) (hc : n.clock ≤ n'.clock) : Good sem₀ sem n' s where
  wf := h.wf
  binary := h.binary
  recursive := h.recursive
  nodup := hh ▸ h.nodup
  zero := h.zero
  max := h.max
  count := by
    rw [hh, hw, hp]
    exact h.count
  order := by
    refine List.Pairwise.imp_of_mem (fun {a b} ha hb hlt => ?_) h.order
    rw [ht a ha, ht b hb]
    exact hlt
  early t hm := by
    rw [ht t hm]
    exact Nat.lt_of_lt_of_le (h.early t hm) hc

theorem Inv.not_mem_of_out (h : Inv sems σ) (hout : (σ.pc t).on = none) (s : Nat) :
    t ∉ (σ.sem s).queue ∧ t ∉ σ.notes.handed s := by
  have hno : t ∉ (σ.sem s).queue ++ σ.notes.handed s := by
    rw [h.waits, hout]
    exact nofun
  rwa [List.mem_append, not_or] at hno

/-- A thread moves on without touching a semaphore. -/
theorem Inv.local (h : Inv sems σ) (hsem : σ'.sem = σ.sem) (hnotes : σ'.notes = σ.notes)
    (hon : ∀ u, (σ'.pc u).on = (σ.pc u).on)
    (hsig : ∀ u v, σ'.pc u = .signalling v → σ.pc u = .signalling v)
    (hawake : ∀ s t timeout, t ∈ σ.notes.handed s →
      σ'.pc t = .queued s timeout ∨ σ'.pc t = .blocked s timeout →
      σ'.pending t = true ∨ ∃ u, σ'.pc u = .signalling t)
    (hstill : ∀ s t timeout, σ'.pc t = .blocked s timeout → σ'.pending t = false) : Inv sems σ' where
  good s := by
    rw [hsem, hnotes]
    exact h.good s
  waits s t := by
    rw [hsem, hnotes, hon]
    exact h.waits s t
  awake := by
    rw [hnotes]
    exact hawake
  still := hstill
  other t u htu := h.other t u (hsig t u htu)

/-- A thread that does not wait elsewhere works on one semaphore. -/
theorem Inv.change (h : Inv sems σ) (hsem : ∀ r, r ≠ s → σ'.sem r = σ.sem r)
    (hhanded : ∀ r, r ≠ s → σ'.notes.handed r = σ.notes.handed r)
    (hcalls : ∀ r, r ≠ s → σ'.notes.waits r = σ.notes.waits r ∧ σ'.notes.posts r = σ.notes.posts r)
    (hticket : ∀ u, u ≠ t → σ'.notes.ticket u = σ.notes.ticket u) (hclock : σ.notes.clock ≤ σ'.notes.clock)
    (hpc : ∀ u, u ≠ t → σ'.pc u = σ.pc u) (hpend : σ'.pending = σ.pending)
    (hon : ∀ r, r ≠ s → (σ.pc t).on ≠ some r) (hon' : ∀ r, r ≠ s → (σ'.pc t).on ≠ some r)
    (hsig : ∀ v, σ.pc t ≠ .signalling v) (hother : ∀ v, σ'.pc t = .signalling v → t ≠ v)
    (hnot : ∀ r timeout, σ'.pc t ≠ .blocked r timeout)
    (hstay : ∀ timeout, σ'.pc t = .queued s timeout → t ∉ σ'.notes.handed s)
    (hnew : ∀ u ∈ σ'.notes.handed s, u ∈ σ.notes.handed s ∨ σ'.pc t = .signalling u)
    (hgood : Good (sems s) (σ'.sem s) σ'.notes s)
    (hwaits : ∀ u, u ∈ (σ'.sem s).queue ++ σ'.notes.handed s ↔ (σ'.pc u).on = some s) :
    Inv sems σ' where
  good r := by
    by_cases hr : r = s
    · exact hr ▸ hgood
    · rw [hsem r hr]
      refine (h.good r).congr (hhanded r hr) (hcalls r hr).1 (hcalls r hr).2 (fun u hu => ?_) hclock
      -- the thread is not in this queue, so its number does not matter
      refine hticket u ?_
      rintro rfl
      exact hon r hr ((h.waits r u).mp (List.mem_append_left _ hu))
  waits r u := by
    by_cases hr : r = s
    · exact hr ▸ hwaits u
    · rw [hsem r hr, hhanded r hr, h.waits]
      by_cases hu : u = t
      · subst hu
        exact ⟨fun he => absurd he (hon r hr), fun he => absurd he (hon' r hr)⟩
      · rw [hpc u hu]
  awake r u timeout hu hq := by
    have hut : u ≠ t := by
      rintro rfl
      rcases hq with hq | hq
      · by_cases hr : r = s
        · exact hstay timeout (hr ▸ hq) (hr ▸ hu)
        · exact hon' r hr (by rw [hq]; rfl)
      · exact hnot r timeout hq
    rw [hpc u hut] at hq
    have hold : u ∈ σ.notes.handed r ∨ σ'.pc t = .signalling u := by
      by_cases hr : r = s
      · exact hr ▸ hnew u (hr ▸ hu)
      · exact .inl (hhanded r hr ▸ hu)
    rcases hold with hold | hnow
    · rcases h.awake r u timeout hold hq with hp | ⟨v, hv⟩
      · exact .inl (hpend ▸ hp)
      · refine .inr ⟨v, ?_⟩
        rw [hpc v fun hvt => hsig u (hvt ▸ hv)]
        exact hv
    · exact .inr ⟨t, hnow⟩
  still r u timeout hb := by
    rw [hpend]
    by_cases hu : u = t
    · exact absurd (hu ▸ hb) (hnot r timeout)
    · exact h.still r u timeout (hpc u hu ▸ hb)
  other u v huv := by
    by_cases hu : u = t
    · exact hu ▸ hother v (hu ▸ huv)
    · exact h.other u v (hpc u hu ▸ huv)

/-! ## The steps -/

theorem Inv.start (hfresh : ∀ s, (sems s).Fresh) : Inv sems (start sems) where
  good s := by
    obtain ⟨hwf, hq, -, hmax, -, -⟩ := (hfresh s).spec
    refine ⟨hwf, rfl, rfl, ?_, fun hne => absurd hq hne, hmax, fun _ => ?_, ?_, ?_⟩
    · change ((sems s).queue ++ []).Nodup
      rw [hq]
      exact List.nodup_nil
    · change 0 + (sems s).value + 0 = (sems s).value + 0
      rw [Nat.zero_add]
    · change List.Pairwise _ (sems s).queue
      rw [hq]
      exact List.Pairwise.nil
    · change ∀ t ∈ (sems s).queue, _
      rw [hq]
      exact fun _ ht => absurd ht List.not_mem_nil
  waits s t := by
    change t ∈ (sems s).queue ++ [] ↔ none = some s
    rw [(hfresh s).spec.2.1]
    exact ⟨fun ht => absurd ht List.not_mem_nil, nofun⟩
  awake _ _ _ ht _ := absurd ht List.not_mem_nil
  still _ _ _ h := nomatch h
  other _ _ h := nomatch h

/-- A call that returns at once. -/
theorem Inv.finish (h : Inv sems σ) (hpc : σ.pc t = .out) (rc : Int) : Inv sems (σ.finish t rc) := by
  have hsame : (σ.finish t rc).pc = σ.pc := by
    change Function.update σ.pc t .out = σ.pc
    rw [← hpc, Function.update_eq_self]
  refine h.local rfl rfl (fun u => by rw [hsame]) (fun u v => by rw [hsame]; exact id) ?_ ?_
  · rw [hsame]
    exact h.awake
  · rw [hsame]
    exact h.still

/-- A wait of a thread that is not in the queue is successful.  What is taken from the value comes from a
thread that was handed the semaphore, or was in the value. -/
theorem Inv.endWait (h : Inv sems σ) {sem : Sem} (hon : (σ.pc t).on = none ∨ (σ.pc t).on = some s)
    (hsig : ∀ v, σ.pc t ≠ .signalling v) (hwf : sem.ring.Wf semQueueLength)
    (hbin : sem.binary = (σ.sem s).binary) (hrec : sem.recursive = (σ.sem s).recursive)
    (hqueue : sem.queue = (σ.sem s).queue) (hle : sem.value ≤ (σ.sem s).value)
    (hnot : t ∉ (σ.sem s).queue)
    (hcount : (sems s).binary = false → sem.value + 1 + ((σ.notes.handed s).erase t).length =
      (σ.sem s).value + (σ.notes.handed s).length) :
    Inv sems ((σ.setSem s sem).endWait t s 0) := by
  have hne : ∀ r, r ≠ s → (σ.pc t).on ≠ some r := by
    intro r hr he
    rcases hon with hon | hon <;> rw [hon] at he <;> cases he
    exact hr rfl
  have hpc' : ∀ u, u ≠ t → ((σ.setSem s sem).endWait t s 0).pc u = σ.pc u := fun u hu =>
    Function.update_of_ne hu _ _
  have hout : ((σ.setSem s sem).endWait t s 0).pc t = .out := Function.update_self ..
  have hsem : ((σ.setSem s sem).endWait t s 0).sem s = sem := Function.update_self ..
  have hhanded : ((σ.setSem s sem).endWait t s 0).notes.handed s = (σ.notes.handed s).erase t :=
    Function.update_self ..
  have hg := h.good s
  have hnodup := List.nodup_append.mp hg.nodup
  have hmem : ∀ u, u ∈ (σ.notes.handed s).erase t ↔ u ≠ t ∧ u ∈ σ.notes.handed s :=
    fun u => hnodup.2.1.mem_erase_iff
  refine h.change (s := s) (t := t) (fun r hr => Function.update_of_ne hr _ _)
    (fun r hr => Function.update_of_ne hr _ _)
    (fun r hr => ⟨Function.update_of_ne hr _ _, rfl⟩) (fun _ _ => rfl) (Nat.le_refl _) hpc' rfl hne
    ?_ hsig ?_ ?_ ?_ ?_ ?_ ?_
  · intro r _
    rw [hout]
    exact nofun
  · intro v hv
    rw [hout] at hv
    cases hv
  · intro r timeout hb
    rw [hout] at hb
    cases hb
  · intro timeout hb
    rw [hout] at hb
    cases hb
  · intro u hu
    rw [hhanded] at hu
    exact .inl ((hmem u).mp hu).2
  · rw [hsem]
    refine ⟨hwf, hbin.trans hg.binary, hrec.trans hg.recursive, ?_, ?_, ?_, ?_, ?_, ?_⟩
    · rw [hhanded, hqueue]
      exact hg.nodup.sublist (List.Sublist.append_left List.erase_sublist _)
    · intro hne
      have h0 := hg.zero (hqueue ▸ hne)
      omega
    · exact Nat.le_trans hle hg.max
    · intro hb
      have h1 := hg.count hb
      have h2 := hcount hb
      have hw : ((σ.setSem s sem).endWait t s 0).notes.waits s = σ.notes.waits s + 1 :=
        Function.update_self ..
      have hp : ((σ.setSem s sem).endWait t s 0).notes.posts s = σ.notes.posts s := rfl
      rw [hhanded, hw, hp]
      omega
    · rw [hqueue]
      exact hg.order
    · rw [hqueue]
      exact hg.early
  · intro u
    rw [hsem, hhanded, hqueue, List.mem_append, hmem]
    by_cases hu : u = t
    · subst hu
      rw [hout]
      exact ⟨fun hin => hin.elim (fun hq => absurd hq hnot) fun hh => absurd rfl hh.1, nofun⟩
    · rw [hpc' u hu, ← h.waits, List.mem_append, and_iff_right hu]

/-- A thread comes to the queue. -/
theorem Inv.enqueue (h : Inv sems σ) {ring : Lib.Ring Nat} (hpc : σ.pc t = .out) (hzero : (σ.sem s).value = 0)
    (hpush : (σ.sem s).ring.push semQueueLength t = some ring) :
    Inv sems (((σ.setSem s { σ.sem s with ring := ring }).noteArrival t).goto t (.queued s timeout)) := by
  have hg := h.good s
  have hout : (σ.pc t).on = none := by
    rw [hpc]
    rfl
  have hnot := h.not_mem_of_out hout s
  obtain ⟨hwf, hlist⟩ := Lib.Ring.toList_push hg.wf hpush
  have hsem : (((σ.setSem s { σ.sem s with ring := ring }).noteArrival t).goto t
      (.queued s timeout)).sem s = { σ.sem s with ring := ring } := Function.update_self ..
  have hqueue : (Sem.queue { σ.sem s with ring := ring }) = (σ.sem s).queue ++ [t] := hlist
  have hpc' : (((σ.setSem s { σ.sem s with ring := ring }).noteArrival t).goto t
      (.queued s timeout)).pc t = .queued s timeout := Function.update_self ..
  have hold : ∀ u, u ≠ t → (((σ.setSem s { σ.sem s with ring := ring }).noteArrival t).goto t
      (.queued s timeout)).pc u = σ.pc u := fun u hu => Function.update_of_ne hu _ _
  have hticket : ∀ u ∈ (σ.sem s).queue, (((σ.setSem s { σ.sem s with ring := ring }).noteArrival t).goto t
      (.queued s timeout)).notes.ticket u = σ.notes.ticket u := by
    refine fun u hu => Function.update_of_ne ?_ _ _
    rintro rfl
    exact hnot.1 hu
  have hown : (((σ.setSem s { σ.sem s with ring := ring }).noteArrival t).goto t
      (.queued s timeout)).notes.ticket t = σ.notes.clock := Function.update_self ..
  refine h.change (s := s) (t := t) (fun r hr => Function.update_of_ne hr _ _) (fun _ _ => rfl)
    (fun _ _ => ⟨rfl, rfl⟩) (fun u hu => Function.update_of_ne hu _ _) (Nat.le_succ _) hold rfl ?_ ?_
    ?_ ?_ ?_ (fun _ _ => hnot.2) (fun u hu => .inl hu) ?_ ?_
  · intro r _
    rw [hout]
    exact nofun
  · intro r hr he
    rw [hpc'] at he
    exact hr (Option.some.inj he).symm
  · intro v hv
    rw [hpc] at hv
    cases hv
  · intro v hv
    rw [hpc'] at hv
    cases hv
  · intro r timeout' hb
    rw [hpc'] at hb
    cases hb
  · rw [hsem]
    refine ⟨hwf, hg.binary, hg.recursive, ?_, fun _ => hzero, hg.max, hg.count, ?_, ?_⟩
    · rw [hqueue, List.append_assoc, List.singleton_append, List.nodup_middle, List.nodup_cons,
        List.mem_append, not_or]
      exact ⟨hnot, hg.nodup⟩
    · rw [hqueue, List.pairwise_append]
      refine ⟨?_, List.pairwise_singleton _ _, fun a ha b hb => ?_⟩
      · refine List.Pairwise.imp_of_mem (fun {a b} ha hb hlt => ?_) hg.order
        rw [hticket a ha, hticket b hb]
        exact hlt
      · rw [List.mem_singleton.mp hb, hticket a ha, hown]
        exact hg.early a ha
    · intro u hu
      rw [hqueue, List.mem_append, List.mem_singleton] at hu
      rcases hu with hu | rfl
      · rw [hticket u hu]
        exact Nat.lt_succ_of_lt (hg.early u hu)
      · rw [hown]
        exact Nat.lt_succ_self _
  · intro u
    rw [hsem, hqueue, List.mem_append, List.mem_append, List.mem_singleton]
    change _ ∨ u ∈ σ.notes.handed s ↔ _
    by_cases hu : u = t
    · rw [hu, hpc']
      exact ⟨fun _ => rfl, fun _ => .inl (.inr rfl)⟩
    · rw [hold u hu, ← h.waits, List.mem_append, or_iff_left hu]

/-- A thread whose timeout came takes itself out of the queue. -/
theorem Inv.leave (h : Inv sems σ) {ring : Lib.Ring Nat} (rc : Int) (hpc : σ.pc t = .expired s)
    (hin : t ∈ (σ.sem s).queue) (hwf : ring.Wf semQueueLength)
    (hlist : ring.toList semQueueLength = (σ.sem s).queue.erase t) :
    Inv sems ((σ.setSem s { σ.sem s with ring := ring }).finish t rc) := by
  have hg := h.good s
  obtain ⟨hqd, -, hdis⟩ := List.nodup_append.mp hg.nodup
  have hsem : ((σ.setSem s { σ.sem s with ring := ring }).finish t rc).sem s =
      { σ.sem s with ring := ring } := Function.update_self ..
  have hqueue : (Sem.queue { σ.sem s with ring := ring }) = (σ.sem s).queue.erase t := hlist
  have hpc' : ((σ.setSem s { σ.sem s with ring := ring }).finish t rc).pc t = .out :=
    Function.update_self ..
  have hold : ∀ u, u ≠ t → ((σ.setSem s { σ.sem s with ring := ring }).finish t rc).pc u = σ.pc u :=
    fun u hu => Function.update_of_ne hu _ _
  refine h.change (s := s) (t := t) (fun r hr => Function.update_of_ne hr _ _) (fun _ _ => rfl)
    (fun _ _ => ⟨rfl, rfl⟩) (fun _ _ => rfl) (Nat.le_refl _) hold rfl ?_ ?_ ?_ ?_ ?_ ?_
    (fun u hu => .inl hu) ?_ ?_
  · intro r hr he
    rw [hpc] at he
    exact hr (Option.some.inj he).symm
  · intro r _
    rw [hpc']
    exact nofun
  · intro v hv
    rw [hpc] at hv
    cases hv
  · intro v hv
    rw [hpc'] at hv
    cases hv
  · intro r timeout' hb
    rw [hpc'] at hb
    cases hb
  · intro timeout' hb
    rw [hpc'] at hb
    cases hb
  · rw [hsem]
    refine ⟨hwf, hg.binary, hg.recursive, ?_, fun hne => ?_, hg.max, hg.count, ?_, ?_⟩
    · rw [hqueue]
      exact hg.nodup.sublist (List.Sublist.append_right List.erase_sublist _)
    · exact hg.zero (List.ne_nil_of_mem hin)
    · rw [hqueue]
      exact hg.order.sublist List.erase_sublist
    · intro u hu
      rw [hqueue] at hu
      exact hg.early u (List.mem_of_mem_erase hu)
  · intro u
    rw [hsem, hqueue, List.mem_append, hqd.mem_erase_iff]
    change _ ∨ u ∈ σ.notes.handed s ↔ _
    by_cases hu : u = t
    · subst hu
      rw [hpc']
      exact ⟨fun hor => hor.elim (fun hq => absurd rfl hq.1) fun hh => absurd rfl (hdis u hin u hh), nofun⟩
    · rw [hold u hu, ← h.waits, List.mem_append, and_iff_right hu]

/-- A post that finds nobody in the queue. -/
theorem Inv.put (h : Inv sems σ) {sem : Sem} (hpc : σ.pc t = .out) (hempty : (σ.sem s).queue = [])
    (hring : sem.ring = (σ.sem s).ring) (hbin : sem.binary = (σ.sem s).binary)
    (hrec : sem.recursive = (σ.sem s).recursive) (hmax : sem.value ≤ semValueMax)
    (hvalue : (sems s).binary = false → sem.value = (σ.sem s).value + 1) :
    Inv sems (((σ.setSem s sem).notePost t s none).finish t 0) := by
  have hg := h.good s
  have hout : (σ.pc t).on = none := by
    rw [hpc]
    rfl
  have hsem : (((σ.setSem s sem).notePost t s none).finish t 0).sem s = sem := Function.update_self ..
  have hqueue : sem.queue = [] := by
    unfold Sem.queue
    rw [hring]
    exact hempty
  have hpc' : (((σ.setSem s sem).notePost t s none).finish t 0).pc t = .out := Function.update_self ..
  have hold : ∀ u, u ≠ t → (((σ.setSem s sem).notePost t s none).finish t 0).pc u = σ.pc u :=
    fun u hu => Function.update_of_ne hu _ _
  have hhanded : (((σ.setSem s sem).notePost t s none).finish t 0).notes.handed s = σ.notes.handed s :=
    Function.update_self ..
  refine h.change (s := s) (t := t) (fun r hr => Function.update_of_ne hr _ _)
    (fun r hr => Function.update_of_ne hr _ _) (fun r hr => ⟨rfl, Function.update_of_ne hr _ _⟩)
    (fun _ _ => rfl) (Nat.le_refl _) hold rfl ?_ ?_ ?_ ?_ ?_ ?_
    (fun u hu => .inl (hhanded ▸ hu)) ?_ ?_
  · intro r hr he
    rw [hout] at he
    cases he
  · intro r _
    rw [hpc']
    exact nofun
  · intro v hv
    rw [hpc] at hv
    cases hv
  · intro v hv
    rw [hpc'] at hv
    cases hv
  · intro r timeout' hb
    rw [hpc'] at hb
    cases hb
  · intro timeout' hb
    rw [hpc'] at hb
    cases hb
  · rw [hsem]
    refine ⟨hring ▸ hg.wf, hbin.trans hg.binary, hrec.trans hg.recursive, ?_,
      fun hne => absurd hqueue hne, hmax, fun hb => ?_, ?_, ?_⟩
    · rw [hhanded, hqueue, ← hempty]
      exact hg.nodup
    · have h1 := hg.count hb
      have h2 := hvalue hb
      have hp : (((σ.setSem s sem).notePost t s none).finish t 0).notes.posts s = σ.notes.posts s + 1 :=
        Function.update_self ..
      have hw : (((σ.setSem s sem).notePost t s none).finish t 0).notes.waits s = σ.notes.waits s := rfl
      rw [hhanded, hp, hw]
      omega
    · rw [hqueue]
      exact List.Pairwise.nil
    · rw [hqueue]
      exact fun _ hu => absurd hu List.not_mem_nil
  · intro u
    rw [hsem, hqueue, hhanded, ← hempty, h.waits]
    by_cases hu : u = t
    · rw [hu, hpc', hpc]
    · rw [hold u hu]

/-- A post that takes the first thread out of the queue. -/
theorem Inv.hand (h : Inv sems σ) {ring : Lib.Ring Nat} {thr : Nat} {rest : List Nat} {owner : Option Nat}
    (hpc : σ.pc t = .out) (hcons : (σ.sem s).queue = thr :: rest) (hwf : ring.Wf semQueueLength)
    (hlist : ring.toList semQueueLength = rest) (hne : thr ≠ t) :
    Inv sems (((σ.setSem s { σ.sem s with ring := ring, owner := owner }).notePost t s
      (some thr)).goto t (.signalling thr)) := by
  have hg := h.good s
  have hout : (σ.pc t).on = none := by
    rw [hpc]
    rfl
  generalize hsig : ((σ.setSem s { σ.sem s with ring := ring, owner := owner }).notePost t s
      (some thr)).goto t (.signalling thr) = σ'
  have hsem : σ'.sem s = { σ.sem s with ring := ring, owner := owner } := by
    rw [← hsig]
    exact Function.update_self ..
  have hqueue : (σ'.sem s).queue = rest := by
    rw [hsem]
    exact hlist
  have hpc' : σ'.pc t = .signalling thr := by
    rw [← hsig]
    exact Function.update_self ..
  have hold : ∀ u, u ≠ t → σ'.pc u = σ.pc u := by
    rw [← hsig]
    exact fun u hu => Function.update_of_ne hu _ _
  have hhanded : σ'.notes.handed s = thr :: σ.notes.handed s := by
    rw [← hsig]
    exact Function.update_self ..
  have hmove : ∀ u, u ∈ (σ'.sem s).queue ++ σ'.notes.handed s ↔ u ∈ (σ.sem s).queue ++ σ.notes.handed s := by
    intro u
    rw [hqueue, hhanded, hcons]
    exact List.perm_middle.mem_iff
  refine h.change (s := s) (t := t) ?_ ?_ ?_ ?_ ?_ hold ?_ ?_ ?_ ?_ ?_ ?_ ?_ ?_ ?_ ?_
  · rw [← hsig]
    exact fun r hr => Function.update_of_ne hr _ _
  · rw [← hsig]
    exact fun r hr => Function.update_of_ne hr _ _
  · rw [← hsig]
    exact fun r hr => ⟨rfl, Function.update_of_ne hr _ _⟩
  · rw [← hsig]
    exact fun _ _ => rfl
  · rw [← hsig]
    exact Nat.le_refl _
  · rw [← hsig]
    rfl
  · intro r hr he
    rw [hout] at he
    cases he
  · intro r _
    rw [hpc']
    exact nofun
  · intro v hv
    rw [hpc] at hv
    cases hv
  · intro v hv
    rw [hpc'] at hv
    cases hv
    exact hne.symm
  · intro r timeout' hb
    rw [hpc'] at hb
    cases hb
  · intro timeout' hb
    rw [hpc'] at hb
    cases hb
  · intro u hu
    rw [hhanded, List.mem_cons] at hu
    rcases hu with rfl | hu
    · exact .inr hpc'
    · exact .inl hu
  · have hold' := hg.order
    rw [hcons, List.pairwise_cons] at hold'
    have hvalue : (σ'.sem s).value = (σ.sem s).value := by rw [hsem]
    have hnotes : σ'.notes.ticket = σ.notes.ticket ∧ σ'.notes.clock = σ.notes.clock ∧
        σ'.notes.waits s = σ.notes.waits s ∧ σ'.notes.posts s = σ.notes.posts s + 1 := by
      rw [← hsig]
      exact ⟨rfl, rfl, rfl, Function.update_self ..⟩
    obtain ⟨htick, hclock, hw, hp⟩ := hnotes
    refine ⟨?_, ?_, ?_, ?_, fun _ => ?_, ?_, fun hb => ?_, ?_, ?_⟩
    · rw [hsem]
      exact hwf
    · rw [hsem]
      exact hg.binary
    · rw [hsem]
      exact hg.recursive
    · rw [hqueue, hhanded, List.nodup_middle]
      have hnd := hg.nodup
      rw [hcons] at hnd
      exact hnd
    · rw [hvalue]
      exact hg.zero (hcons ▸ List.cons_ne_nil _ _)
    · rw [hvalue]
      exact hg.max
    · have h1 := hg.count hb
      rw [hvalue, hhanded, List.length_cons, hw, hp]
      omega
    · rw [hqueue, htick]
      exact hold'.2
    · rw [hqueue, htick, hclock]
      exact fun u hu => hg.early u (hcons ▸ List.mem_cons_of_mem thr hu)
  · intro u
    rw [hmove, h.waits]
    by_cases hu : u = t
    · rw [hu, hpc', hpc]
      rfl
    · rw [hold u hu]

/-- A signal is kept for a thread that is not asleep. -/
theorem Inv.keepSignal (h : Inv sems σ) (hpc : σ.pc t = .signalling u)
    (hawake : ∀ s timeout, σ.pc u ≠ .blocked s timeout) :
    Inv sems ({ σ with pending := Function.update σ.pending u true }.finish t 0) := by
  have hold : ∀ v, v ≠ t → ({ σ with pending := Function.update σ.pending u true }.finish t 0).pc v = σ.pc v :=
    fun v hv => Function.update_of_ne hv _ _
  have hpc' : ({ σ with pending := Function.update σ.pending u true }.finish t 0).pc t = .out :=
    Function.update_self ..
  have hpend : ∀ v, v ≠ u →
      ({ σ with pending := Function.update σ.pending u true }.finish t 0).pending v = σ.pending v :=
    fun v hv => Function.update_of_ne hv _ _
  refine h.local rfl rfl (fun v => ?_) (fun v w hv => ?_) (fun s v timeout hin hq => ?_)
    fun s v timeout hb => ?_
  · by_cases hv : v = t
    · rw [hv, hpc', hpc]
      rfl
    · rw [hold v hv]
  · by_cases hvt : v = t
    · rw [hvt, hpc'] at hv
      cases hv
    · exact hold v hvt ▸ hv
  · have hvt : v ≠ t := by
      rintro rfl
      rw [hpc'] at hq
      rcases hq with hq | hq <;> cases hq
    rw [hold v hvt] at hq
    by_cases hvu : v = u
    · exact .inl (hvu ▸ Function.update_self ..)
    · rw [hpend v hvu]
      rcases h.awake s v timeout hin hq with hp | ⟨w, hw⟩
      · exact .inl hp
      · refine .inr ⟨w, ?_⟩
        rw [hold w fun hwt => hvu (Pc.signalling.inj ((hwt ▸ hw).symm.trans hpc))]
        exact hw
  · by_cases hvt : v = t
    · rw [hvt, hpc'] at hb
      cases hb
    · rw [hold v hvt] at hb
      rw [hpend v fun hvu => hawake s timeout (hvu ▸ hb)]
      exact h.still s v timeout hb

/-- A signal wakes a thread. -/
theorem Inv.wake (h : Inv sems σ) (hpc : σ.pc t = .signalling u) (hb : σ.pc u = .blocked s timeout) :
    Inv sems ((σ.goto u (.woken s timeout)).finish t 0) := by
  have hne := h.other t u hpc
  have hpct : ((σ.goto u (.woken s timeout)).finish t 0).pc t = .out := Function.update_self ..
  have hpcu : ((σ.goto u (.woken s timeout)).finish t 0).pc u = .woken s timeout :=
    (Function.update_of_ne hne.symm _ _).trans (Function.update_self ..)
  have hold : ∀ v, v ≠ t → v ≠ u → ((σ.goto u (.woken s timeout)).finish t 0).pc v = σ.pc v :=
    fun v hv hw => (Function.update_of_ne hv _ _).trans (Function.update_of_ne hw _ _)
  refine h.local rfl rfl (fun v => ?_) (fun v w hv => ?_) (fun r v timeout' hin hq => ?_)
    fun r v timeout' hq => ?_
  · by_cases hvt : v = t
    · rw [hvt, hpct, hpc]
      rfl
    · by_cases hvu : v = u
      · rw [hvu, hpcu, hb]
        rfl
      · rw [hold v hvt hvu]
  · by_cases hvt : v = t
    · rw [hvt, hpct] at hv
      cases hv
    · by_cases hvu : v = u
      · rw [hvu, hpcu] at hv
        cases hv
      · exact hold v hvt hvu ▸ hv
  · have hvt : v ≠ t := by
      rintro rfl
      rw [hpct] at hq
      rcases hq with hq | hq <;> cases hq
    have hvu : v ≠ u := by
      rintro rfl
      rw [hpcu] at hq
      rcases hq with hq | hq <;> cases hq
    rw [hold v hvt hvu] at hq
    rcases h.awake r v timeout' hin hq with hp | ⟨w, hw⟩
    · exact .inl hp
    · refine .inr ⟨w, ?_⟩
      have hwt : w ≠ t := fun hwt => hvu (Pc.signalling.inj ((hwt ▸ hw).symm.trans hpc))
      have hwu : w ≠ u := by
        rintro rfl
        rw [hb] at hw
        cases hw
      rw [hold w hwt hwu]
      exact hw
  · have hvt : v ≠ t := by
      rintro rfl
      rw [hpct] at hq
      cases hq
    have hvu : v ≠ u := by
      rintro rfl
      rw [hpcu] at hq
      cases hq
    rw [hold v hvt hvu] at hq
    exact h.still r v timeout' hq

/-- A thread moves on by itself, within its wait. -/
theorem Inv.advance (h : Inv sems σ) {pc : Pc} {pending : Nat → Bool} (hon : pc.on = (σ.pc t).on)
    (hsome : (σ.pc t).on = some s) (hsig : ∀ v, pc ≠ .signalling v)
    (hpend : ∀ u, u ≠ t → pending u = σ.pending u)
    (hq : ∀ r timeout, pc = .queued r timeout ∨ pc = .blocked r timeout → t ∈ σ.notes.handed r →
      pending t = true ∨ ∃ u, σ.pc u = .signalling t)
    (hb : ∀ r timeout, pc = .blocked r timeout → pending t = false) :
    Inv sems { σ.goto t pc with pending := pending } := by
  have hpc' : ({ σ.goto t pc with pending := pending } : SemSys).pc t = pc := Function.update_self ..
  have hold : ∀ v, v ≠ t → ({ σ.goto t pc with pending := pending } : SemSys).pc v = σ.pc v :=
    fun v hv => Function.update_of_ne hv _ _
  have hkeep : ∀ v w, σ.pc v = .signalling w →
      ({ σ.goto t pc with pending := pending } : SemSys).pc v = .signalling w := by
    intro v w hv
    rw [hold v ?_]
    · exact hv
    · rintro rfl
      rw [hv] at hsome
      cases hsome
  refine h.local rfl rfl (fun v => ?_) (fun v w hv => ?_) (fun r v timeout' hin hw => ?_)
    fun r v timeout' hw => ?_
  · by_cases hv : v = t
    · rw [hv, hpc']
      exact hon
    · rw [hold v hv]
  · by_cases hvt : v = t
    · rw [hvt, hpc'] at hv
      exact absurd hv (hsig w)
    · exact hold v hvt ▸ hv
  · by_cases hv : v = t
    · subst hv
      rw [hpc'] at hw
      exact (hq r timeout' hw hin).imp id fun ⟨u, hu⟩ => ⟨u, hkeep u v hu⟩
    · rw [hold v hv] at hw
      have := h.awake r v timeout' hin hw
      exact this.imp (fun hp => (hpend v hv).trans hp) fun ⟨u, hu⟩ => ⟨u, hkeep u v hu⟩
  · by_cases hv : v = t
    · subst hv
      rw [hpc'] at hw
      exact hb r timeout' hw
    · rw [hold v hv] at hw
      exact (hpend v hv).trans (h.still r v timeout' hw)

/-! ## What a step does -/

/-- What a step does to the values, the owners and the notes. -/
inductive Effect (σ σ' : SemSys) : Act → Prop
  /-- Nothing; the queue may have changed. -/
  | quiet {a : Act} (hpost : ∀ t s, a = .post t s → σ.pc t ≠ .out)
      (hsem : ∀ s, (σ'.sem s).value = (σ.sem s).value ∧ (σ'.sem s).owner = (σ.sem s).owner)
      (hdepth : σ'.notes.depth = σ.notes.depth) (hhanded : σ'.notes.handed = σ.notes.handed) : Effect σ σ' a
  /-- A wait is successful: the owner waits again, the value is taken, or a post took the thread out of
  the queue. -/
  | success {a : Act} (t s : Nat) (sem : Sem) (hpost : ∀ t s, a ≠ .post t s)
      (hsem : σ'.sem = Function.update σ.sem s sem) (hnotes : σ'.notes = (σ.noteWait t s).notes)
      (hret : σ'.pc t = .out ∧ σ'.ret t = 0)
      (hhow : ((σ.sem s).recursive = true ∧ (σ.sem s).owner = some t ∧ sem = σ.sem s) ∨
        (σ.pc t = .out ∧ (σ.sem s).value ≠ 0 ∧ sem.value + 1 = (σ.sem s).value ∧
          ((σ.sem s).binary = true → sem.owner = some t)) ∨
        (t ∈ σ.notes.handed s ∧ sem.value = (σ.sem s).value ∧ sem.owner = (σ.sem s).owner)) : Effect σ σ' a
  /-- A post fails. -/
  | full {t s : Nat} (hpc : σ.pc t = .out) (hmax : (σ.sem s).value = semValueMax) (hsem : σ'.sem = σ.sem)
      (hnotes : σ'.notes = σ.notes) (hret : σ'.pc t = .out ∧ σ'.ret t = 1) : Effect σ σ' (.post t s)
  /-- A post finds nobody in the queue. -/
  | put {t s : Nat} (hpc : σ.pc t = .out) (hempty : (σ.sem s).queue = [])
      (hsem : σ'.sem = Function.update σ.sem s { σ.sem s with
        value := if (σ.sem s).binary then 1 else (σ.sem s).value + 1
        owner := if (σ.sem s).binary then none else (σ.sem s).owner })
      (hnotes : σ'.notes = (σ.notePost t s none).notes) (hret : σ'.pc t = .out ∧ σ'.ret t = 0) :
      Effect σ σ' (.post t s)
  /-- A post takes the first thread out of the queue. -/
  | hand {t s : Nat} (thr : Nat) (rest : List Nat) (ring : Lib.Ring Nat) (hpc : σ.pc t = .out)
      (hqueue : (σ.sem s).queue = thr :: rest) (hrest : ring.toList semQueueLength = rest)
      (hsem : σ'.sem = Function.update σ.sem s { σ.sem s with
        ring := ring
        owner := if (σ.sem s).binary then some thr else (σ.sem s).owner })
      (hnotes : σ'.notes = (σ.notePost t s (some thr)).notes) (hpc' : σ'.pc t = .signalling thr) :
      Effect σ σ' (.post t s)

/-- A step that the thread is not ready for. -/
theorem effect_same {a : Act} (h : Inv sems σ) (hpost : ∀ t s, a = .post t s → σ.pc t ≠ .out) :
    ∃ σ', (Except.ok σ : Except Stop SemSys) = .ok σ' ∧ Inv sems σ' ∧ Effect σ σ' a :=
  ⟨σ, rfl, h, .quiet hpost (fun _ => ⟨rfl, rfl⟩) rfl rfl⟩

theorem wait_effect (hfresh : ∀ s, (sems s).Fresh) (h : Inv sems σ) (hpc : σ.pc t = .out) :
    Inv sems (σ.wait t s timeout) ∧ Effect σ (σ.wait t s timeout) (.wait t s timeout) := by
  have hg := h.good s
  have hout : (σ.pc t).on = none := by
    rw [hpc]
    rfl
  have hnot := h.not_mem_of_out hout s
  have hsig : ∀ v, σ.pc t ≠ .signalling v := by
    rw [hpc]
    exact nofun
  have herase : (σ.notes.handed s).erase t = σ.notes.handed s := List.erase_of_not_mem hnot.2
  have hrefuse : ∀ rc, Inv sems (σ.finish t rc) ∧ Effect σ (σ.finish t rc) (.wait t s timeout) :=
    fun rc => ⟨h.finish hpc rc, .quiet nofun (fun _ => ⟨rfl, rfl⟩) rfl rfl⟩
  have hret : ∀ sem, ((σ.setSem s sem).endWait t s 0).pc t = .out ∧
      ((σ.setSem s sem).endWait t s 0).ret t = 0 := fun sem =>
    ⟨Function.update_self .., Function.update_self ..⟩
  unfold wait
  by_cases hneg : timeout < 0 ∧ timeout ≠ semTimeoutInfinite
  · rw [if_pos hneg]
    exact hrefuse 1
  · rw [if_neg hneg]
    rcases (σ.sem s).enter_cases t timeout with ⟨he, hrec, hown⟩ |
      ⟨sem', he, hv, hdec, hring, hbin, hrec, hown⟩ | ⟨rc, he, hrc⟩ | ⟨sem', ring, he, hv, hpush, rfl⟩
    · -- the owner waits once more
      rw [he]
      refine ⟨h.endWait (.inl hout) hsig hg.wf rfl rfl rfl (Nat.le_refl _) hnot.1 fun hb => ?_,
        .success t s (σ.sem s) nofun rfl rfl (hret _) (.inl ⟨hrec, hown, rfl⟩)⟩
      have hbin := (hfresh s).spec.2.2.2.2.1 (hg.recursive ▸ hrec)
      rw [hb] at hbin
      cases hbin
    · rw [he]
      refine ⟨h.endWait (.inl hout) hsig (hring ▸ hg.wf) hbin hrec ?_ (by omega) hnot.1 fun hb => ?_,
        .success t s sem' nofun rfl rfl (hret _) (.inr (.inl ⟨hpc, hv, hdec, hown⟩))⟩
      · unfold Sem.queue
        rw [hring]
      · rw [herase]
        omega
    · rw [he]
      have hsame : σ.setSem s (σ.sem s) = σ := by
        unfold setSem
        rw [Function.update_eq_self]
      dsimp only
      unfold endWait
      rw [if_neg hrc, hsame]
      exact hrefuse rc
    · rw [he]
      refine ⟨h.enqueue hpc hv hpush, .quiet nofun (fun r => ?_) rfl rfl⟩
      change (Function.update σ.sem s _ r).value = _ ∧ (Function.update σ.sem s _ r).owner = _
      by_cases hr : r = s
      · rw [hr, Function.update_self]
        exact ⟨rfl, rfl⟩
      · rw [Function.update_of_ne hr]
        exact ⟨rfl, rfl⟩

theorem suspend_effect (h : Inv sems σ) (hpc : σ.pc t = .queued s timeout) :
    Inv sems (σ.suspend t s timeout) ∧ Effect σ (σ.suspend t s timeout) (.suspend t) := by
  have hon : (σ.pc t).on = some s := by
    rw [hpc]
    rfl
  unfold suspend
  by_cases hp : σ.pending t = true
  · rw [if_pos hp]
    refine ⟨h.advance hon.symm hon nofun (fun u hu => Function.update_of_ne hu _ _) ?_ nofun,
      .quiet nofun (fun _ => ⟨rfl, rfl⟩) rfl rfl⟩
    intro r timeout' hq
    rcases hq with hq | hq <;> cases hq
  · rw [if_neg hp]
    refine ⟨h.advance hon.symm hon nofun (fun _ _ => rfl) ?_ ?_, .quiet nofun (fun _ => ⟨rfl, rfl⟩) rfl rfl⟩
    · intro r timeout' hq hin
      have hrs : s = r := by
        rcases hq with hq | hq <;> cases hq
        rfl
      exact h.awake r t timeout hin (.inl (hrs ▸ hpc))
    · exact fun _ _ _ => Bool.not_eq_true _ ▸ hp

theorem expire_effect (h : Inv sems σ) (hpc : σ.pc t = .blocked s timeout) :
    Inv sems (σ.goto t (.expired s)) ∧ Effect σ (σ.goto t (.expired s)) (.expire t) := by
  have hon : (σ.pc t).on = some s := by
    rw [hpc]
    rfl
  refine ⟨h.advance hon.symm hon nofun (fun _ _ => rfl) ?_ nofun,
    .quiet nofun (fun _ => ⟨rfl, rfl⟩) rfl rfl⟩
  intro r timeout' hq
  rcases hq with hq | hq <;> cases hq

/-- A thread that is not in the queue any more was taken out by a post. -/
theorem Inv.handed_of_not_mem (h : Inv sems σ) (hon : (σ.pc t).on = some s) (hnot : t ∉ (σ.sem s).queue) :
    t ∈ σ.notes.handed s :=
  (List.mem_append.mp ((h.waits s t).mpr hon)).resolve_left hnot

/-- It returns with success. -/
theorem handed_effect {a : Act} {ring : Lib.Ring Nat} (h : Inv sems σ) (hpost : ∀ t s, a ≠ .post t s)
    (hon : (σ.pc t).on = some s) (hnot : t ∉ (σ.sem s).queue) (hwf : ring.Wf semQueueLength)
    (hlist : ring.toList semQueueLength = (σ.sem s).queue) :
    Inv sems ((σ.setSem s { σ.sem s with ring := ring }).endWait t s 0) ∧
      Effect σ ((σ.setSem s { σ.sem s with ring := ring }).endWait t s 0) a := by
  have hin := h.handed_of_not_mem hon hnot
  refine ⟨h.endWait (.inr hon) ?_ hwf rfl rfl hlist (Nat.le_refl _) hnot fun _ => ?_,
    .success t s { σ.sem s with ring := ring } hpost rfl rfl
      ⟨Function.update_self .., Function.update_self ..⟩ (.inr (.inr ⟨hin, rfl, rfl⟩))⟩
  · intro v hv
    rw [hv] at hon
    cases hon
  · have hpos := List.length_pos_of_mem hin
    rw [List.length_erase_of_mem hin]
    dsimp only
    omega

theorem check_effect (h : Inv sems σ) (hpc : σ.pc t = .woken s timeout) :
    Inv sems (σ.check t s timeout) ∧ Effect σ (σ.check t s timeout) (.check t) := by
  have hg := h.good s
  have hon : (σ.pc t).on = some s := by
    rw [hpc]
    rfl
  unfold check Sem.existInQueue
  rw [Lib.Ring.contains_eq hg.wf]
  by_cases hin : t ∈ (σ.sem s).ring.toList semQueueLength
  · -- the signal was for an earlier wait: it waits on
    rw [decide_eq_true hin, if_pos rfl]
    refine ⟨h.advance hon.symm hon nofun (fun _ _ => rfl) ?_ nofun,
      .quiet nofun (fun _ => ⟨rfl, rfl⟩) rfl rfl⟩
    intro r timeout' hq hhand
    have hrs : s = r := by
      rcases hq with hq | hq <;> cases hq
      rfl
    exact absurd rfl ((List.nodup_append.mp hg.nodup).2.2 t hin t (hrs ▸ hhand))
  · rw [decide_eq_false hin, if_neg Bool.false_ne_true]
    have hsame : σ.setSem s { σ.sem s with ring := (σ.sem s).ring } = σ := by
      change σ.setSem s (σ.sem s) = σ
      unfold setSem
      rw [Function.update_eq_self]
    have := handed_effect (a := .check t) h nofun hon hin hg.wf rfl
    rwa [hsame] at this

theorem giveUp_effect (h : Inv sems σ) (hpc : σ.pc t = .expired s) :
    Inv sems (σ.giveUp t s) ∧ Effect σ (σ.giveUp t s) (.giveUp t) := by
  have hg := h.good s
  have hon : (σ.pc t).on = some s := by
    rw [hpc]
    rfl
  obtain ⟨hfound, hwf, hlist⟩ := Lib.Ring.toList_remove (x := t) hg.wf
  unfold giveUp Sem.dequeue
  dsimp only
  rw [hfound]
  by_cases hin : t ∈ (σ.sem s).ring.toList semQueueLength
  · rw [decide_eq_true hin, if_pos rfl]
    unfold endWait
    rw [if_neg (by decide)]
    refine ⟨h.leave semErrTimeout hpc hin hwf hlist, .quiet nofun (fun r => ?_) rfl rfl⟩
    change (Function.update σ.sem s _ r).value = _ ∧ (Function.update σ.sem s _ r).owner = _
    by_cases hr : r = s
    · rw [hr, Function.update_self]
      exact ⟨rfl, rfl⟩
    · rw [Function.update_of_ne hr]
      exact ⟨rfl, rfl⟩
  · rw [decide_eq_false hin, if_neg Bool.false_ne_true]
    exact handed_effect h nofun hon hin hwf (hlist.trans (List.erase_of_not_mem hin))

/-- The assertions of `wrm_sem_post` hold. -/
theorem post_isOk (h : Inv sems σ) (hpc : σ.pc t = .out) : ∃ r, (σ.sem s).post t = .ok r := by
  have hg := h.good s
  unfold Sem.post
  by_cases hmax : (σ.sem s).value = semValueMax
  · rw [if_pos hmax]
    exact ⟨_, rfl⟩
  · rw [if_neg hmax]
    cases hpop : (σ.sem s).ring.pop semQueueLength with
    | none => exact ⟨_, rfl⟩
    | some p =>
      obtain ⟨thr, ring⟩ := p
      obtain ⟨-, hlist⟩ := Lib.Ring.toList_pop hg.wf hpop
      have hthr : thr ∈ (σ.sem s).queue := by
        unfold Sem.queue
        rw [hlist]
        exact List.mem_cons_self
      have hne : thr ≠ t := by
        rintro rfl
        exact (h.not_mem_of_out (by rw [hpc]; rfl) s).1 hthr
      dsimp only
      rw [ensure_bind_of (hg.zero (List.ne_nil_of_mem hthr)), ensure_bind_of hne]
      exact ⟨_, rfl⟩

theorem post_effect (h : Inv sems σ) (hpc : σ.pc t = .out) :
    ∃ σ', σ.post t s = .ok σ' ∧ Inv sems σ' ∧ Effect σ σ' (.post t s) := by
  have hg := h.good s
  obtain ⟨r, hr⟩ := post_isOk (s := s) h hpc
  unfold post
  rw [hr]
  rcases Sem.post_cases hg.wf hr with ⟨hmax, rfl⟩ | ⟨thr, rest, ring, hcons, -, hwf, hlist, hne, rfl⟩ |
    ⟨hempty, hmax, rfl⟩
  · exact ⟨_, rfl, h.finish hpc 1,
      .full hpc hmax rfl rfl ⟨Function.update_self .., Function.update_self ..⟩⟩
  · exact ⟨_, rfl, h.hand hpc hcons hwf hlist hne,
      .hand thr rest ring hpc hcons hlist rfl rfl (Function.update_self ..)⟩
  · refine ⟨_, rfl, h.put hpc hempty rfl rfl rfl ?_ fun hb => ?_,
      .put hpc hempty rfl rfl ⟨Function.update_self .., Function.update_self ..⟩⟩
    · have hle := hg.max
      dsimp only
      split_ifs
      · decide
      · omega
    · exact if_neg (by rw [hg.binary, hb]; decide)

theorem signal_effect (h : Inv sems σ) (hpc : σ.pc t = .signalling u) :
    ∃ σ', σ.signal t u = .ok σ' ∧ Inv sems σ' ∧ Effect σ σ' (.signal t) := by
  unfold signal
  rw [ensure_bind_of (h.other t u hpc)]
  cases hpcu : σ.pc u with
  | blocked s timeout =>
    exact ⟨_, rfl, h.wake hpc hpcu, .quiet nofun (fun _ => ⟨rfl, rfl⟩) rfl rfl⟩
  | _ =>
    refine ⟨_, rfl, h.keepSignal hpc fun s timeout hb => ?_, .quiet nofun (fun _ => ⟨rfl, rfl⟩) rfl rfl⟩
    rw [hpcu] at hb
    cases hb

/-- Every step is taken. -/
theorem step_effect (hfresh : ∀ s, (sems s).Fresh) (h : Inv sems σ) (a : Act) :
    ∃ σ', σ.step a = .ok σ' ∧ Inv sems σ' ∧ Effect σ σ' a := by
  cases a with
  | wait t s timeout =>
    dsimp only [step]
    split_ifs with hpc
    · exact ⟨_, rfl, wait_effect hfresh h hpc⟩
    · exact effect_same h nofun
  | suspend t =>
    dsimp only [step]
    split
    · next s timeout hpc => exact ⟨_, rfl, suspend_effect h hpc⟩
    · exact effect_same h nofun
  | expire t =>
    dsimp only [step]
    split
    · next s timeout hpc =>
      split_ifs
      · exact effect_same h nofun
      · exact ⟨_, rfl, expire_effect h hpc⟩
    · exact effect_same h nofun
  | check t =>
    dsimp only [step]
    split
    · next s timeout hpc => exact ⟨_, rfl, check_effect h hpc⟩
    · exact effect_same h nofun
  | giveUp t =>
    dsimp only [step]
    split
    · next s hpc => exact ⟨_, rfl, giveUp_effect h hpc⟩
    · exact effect_same h nofun
  | post t s =>
    dsimp only [step]
    split_ifs with hpc
    · exact post_effect h hpc
    · exact effect_same h fun _ _ he => Act.post.inj he |>.1 ▸ hpc
  | signal t =>
    dsimp only [step]
    split
    · next u hpc => exact signal_effect h hpc
    · exact effect_same h nofun

theorem step_inv (hfresh : ∀ s, (sems s).Fresh) {a : Act} (h : Inv sems σ) (hok : σ.step a = .ok σ') :
    Inv sems σ' ∧ Effect σ σ' a := by
  obtain ⟨σ'', hstep, hres⟩ := step_effect hfresh h a
  exact Except.ok.inj (hok.symm.trans hstep) ▸ hres

theorem run_inv (hfresh : ∀ s, (sems s).Fresh) : ∀ {σ : SemSys} (acts : List Act), Inv sems σ →
    ∃ σ', runAll step σ acts = .ok σ' ∧ Inv sems σ'
  | σ, [], h => ⟨σ, rfl, h⟩
  | σ, a :: acts, h => by
    obtain ⟨σ₁, hstep, h₁, -⟩ := step_effect hfresh h a
    obtain ⟨σ', hrun, h'⟩ := run_inv hfresh acts h₁
    exact ⟨σ', bind_eq_ok.mpr ⟨σ₁, hstep, hrun⟩, h'⟩

/-! ## Nothing is lost -/

/-- Every thread is outside of the calls, or asleep in a queue. -/
def Quiescent (σ : SemSys) : Prop := ∀ t, σ.pc t = .out ∨ ∃ s timeout, σ.pc t = .blocked s timeout

/-- What a post does: it fails and changes nothing when the value is at its maximum, it increments the
value when the queue is empty, and else it takes the thread that came first out of the queue. -/
def PostsWell (σ : SemSys) (t s : Nat) : Prop :=
  ∃ σ', σ.step (.post t s) = .ok σ' ∧
    (((σ.sem s).value = semValueMax ∧ σ'.sem = σ.sem ∧ σ'.notes = σ.notes ∧
        σ'.pc t = .out ∧ σ'.ret t = 1) ∨
      ((σ.sem s).queue = [] ∧ (σ'.sem s).queue = [] ∧ (σ'.sem s).value = (σ.sem s).value + 1 ∧
        σ'.notes.handed s = σ.notes.handed s ∧ σ'.notes.posts s = σ.notes.posts s + 1 ∧
        σ'.pc t = .out ∧ σ'.ret t = 0) ∨
      ∃ thr rest, (σ.sem s).queue = thr :: rest ∧ (σ'.sem s).queue = rest ∧
        (∀ u ∈ rest, σ.notes.ticket thr < σ.notes.ticket u) ∧ (σ'.sem s).value = (σ.sem s).value ∧
        σ'.notes.handed s = thr :: σ.notes.handed s ∧ σ'.notes.posts s = σ.notes.posts s + 1 ∧
        σ'.pc t = .signalling thr)

/-- A thread that was taken out of the queue by a post returns 0: no step can end its wait in another
way, and some steps of its own, with the signal of the post if that is still to come, end it. -/
def ReturnsWell (σ : SemSys) (t s : Nat) : Prop :=
  (∀ a σ', σ.step a = .ok σ' → t ∈ σ'.notes.handed s ∨ (σ'.pc t = .out ∧ σ'.ret t = 0)) ∧
    ∃ u σ', runAll step σ [.suspend t, .signal u, .check t, .giveUp t] = .ok σ' ∧
      σ'.pc t = .out ∧ σ'.ret t = 0

theorem Inv.handed_eq_nil (h : Inv sems σ) (hq : Quiescent σ) (s : Nat) : σ.notes.handed s = [] := by
  refine List.eq_nil_iff_forall_not_mem.mpr fun t ht => ?_
  have hon := (h.waits s t).mp (List.mem_append_right _ ht)
  rcases hq t with hout | ⟨r, timeout, hb⟩
  · rw [hout] at hon
    cases hon
  · rw [hb] at hon
    cases hon
    rcases h.awake s t timeout ht (.inr hb) with hp | ⟨u, hu⟩
    · rw [h.still s t timeout hb] at hp
      cases hp
    · rcases hq u with hu' | ⟨r, timeout', hu'⟩ <;> rw [hu] at hu' <;> cases hu'

theorem Inv.postsWell (hfresh : ∀ s, (sems s).Fresh) (h : Inv sems σ) (hcount : (sems s).binary = false)
    (hpc : σ.pc t = .out) : PostsWell σ t s := by
  have hg := h.good s
  have hbin : (σ.sem s).binary = false := hg.binary.trans hcount
  obtain ⟨σ', hstep, -, he⟩ := step_effect hfresh h (.post t s)
  refine ⟨σ', hstep, ?_⟩
  cases he with
  | quiet hpost => exact absurd hpc (hpost t s rfl)
  | success _ _ _ hpost => exact absurd rfl (hpost t s)
  | full _ hmax hsem hnotes hret => exact .inl ⟨hmax, hsem, hnotes, hret⟩
  | put _ hempty hsem hnotes hret =>
    refine .inr (.inl ⟨hempty, ?_, ?_, ?_, ?_, hret⟩)
    · rw [hsem, Function.update_self]
      exact hempty
    · rw [hsem, Function.update_self, hbin]
      rfl
    · rw [hnotes]
      exact Function.update_self ..
    · rw [hnotes]
      exact Function.update_self ..
  | hand thr rest ring _ hqueue hrest hsem hnotes hpc' =>
    have hord := hg.order
    rw [hqueue, List.pairwise_cons] at hord
    refine .inr (.inr ⟨thr, rest, hqueue, ?_, hord.1, ?_, ?_, ?_, hpc'⟩)
    · rw [hsem, Function.update_self]
      exact hrest
    · rw [hsem, Function.update_self]
    · rw [hnotes]
      exact Function.update_self ..
    · rw [hnotes]
      exact Function.update_self ..

/-- A handed thread stays handed until it returns 0. -/
theorem Effect.handed {a : Act} (he : Effect σ σ' a) (hin : t ∈ σ.notes.handed s) :
    t ∈ σ'.notes.handed s ∨ (σ'.pc t = .out ∧ σ'.ret t = 0) := by
  cases he with
  | quiet _ _ _ hhanded => exact .inl (hhanded ▸ hin)
  | success u r sem _ _ hnotes hret =>
    by_cases hu : t = u
    · exact .inr (hu ▸ hret)
    · refine .inl ?_
      rw [hnotes]
      change t ∈ Function.update σ.notes.handed r _ s
      by_cases hr : s = r
      · rw [← hr, Function.update_self]
        exact (List.mem_erase_of_ne hu).mpr hin
      · rwa [Function.update_of_ne hr]
  | full _ _ _ hnotes => exact .inl (hnotes ▸ hin)
  | @put u r _ _ _ hnotes =>
    refine .inl ?_
    rw [hnotes]
    change t ∈ Function.update σ.notes.handed r _ s
    by_cases hr : s = r
    · rw [← hr, Function.update_self]
      exact hin
    · rwa [Function.update_of_ne hr]
  | @hand u r thr _ _ _ _ _ _ hnotes =>
    refine .inl ?_
    rw [hnotes]
    change t ∈ Function.update σ.notes.handed r _ s
    by_cases hr : s = r
    · rw [← hr, Function.update_self]
      exact List.mem_append_right _ hin
    · rwa [Function.update_of_ne hr]

theorem Inv.not_mem_of_handed (h : Inv sems σ) (hin : t ∈ σ.notes.handed s) : t ∉ (σ.sem s).queue :=
  fun hq => (List.nodup_append.mp (h.good s).nodup).2.2 t hq t hin rfl

/-- The last steps of a wait that was ended by the signal. -/
theorem woken_returns (h : Inv sems σ) (hin : t ∈ σ.notes.handed s) (hpc : σ.pc t = .woken s timeout) :
    ∃ σ', runAll step σ [.check t, .giveUp t] = .ok σ' ∧ σ'.pc t = .out ∧ σ'.ret t = 0 := by
  have hnot : t ∉ (σ.sem s).ring.toList semQueueLength := h.not_mem_of_handed hin
  have hcheck : σ.step (.check t) = .ok (σ.endWait t s 0) := by
    simp only [step, hpc, check, Sem.existInQueue, Lib.Ring.contains_eq (h.good s).wf, decide_eq_false hnot,
      if_neg Bool.false_ne_true]
  have hout : (σ.endWait t s 0).pc t = .out := Function.update_self ..
  have hskip : (σ.endWait t s 0).step (.giveUp t) = .ok (σ.endWait t s 0) := by simp only [step, hout]
  refine ⟨σ.endWait t s 0, ?_, hout, Function.update_self ..⟩
  rw [runAll, hcheck]
  change runAll step (σ.endWait t s 0) [.giveUp t] = _
  rw [runAll, hskip]
  rfl

/-- A wait that the signal of `u` is to end. -/
theorem blocked_returns (h : Inv sems σ) (hin : t ∈ σ.notes.handed s) (hpc : σ.pc t = .blocked s timeout)
    (hu : σ.pc u = .signalling t) :
    ∃ σ', runAll step σ [.signal u, .check t, .giveUp t] = .ok σ' ∧ σ'.pc t = .out ∧ σ'.ret t = 0 := by
  have hne := h.other u t hu
  have hstep : σ.step (.signal u) = .ok ((σ.goto t (.woken s timeout)).finish u 0) := by
    simp only [step, hu, signal, hpc, ensure_bind_of hne]
    rfl
  have hwoken : ((σ.goto t (.woken s timeout)).finish u 0).pc t = .woken s timeout :=
    (Function.update_of_ne hne.symm _ _).trans (Function.update_self ..)
  rw [runAll, hstep]
  exact woken_returns (h.wake hu hpc) hin hwoken

/-- An act that its thread is not ready for is passed over. -/
theorem runAll_pass {a : Act} {acts : List Act} (hstep : σ.step a = .ok σ) :
    runAll step σ (a :: acts) = runAll step σ acts := by
  rw [runAll, hstep]
  rfl

theorem Inv.returnsWell (hfresh : ∀ s, (sems s).Fresh) (h : Inv sems σ) (hin : t ∈ σ.notes.handed s) :
    ReturnsWell σ t s := by
  refine ⟨fun a σ' hok => (step_inv hfresh h hok).2.handed hin, ?_⟩
  have hon := (h.waits s t).mp (List.mem_append_right _ hin)
  cases hpc : σ.pc t with
  | out | signalling =>
    rw [hpc] at hon
    cases hon
  | queued r timeout =>
    rw [hpc] at hon
    obtain rfl := Option.some.inj hon
    have hstep : σ.step (.suspend t) = .ok (σ.suspend t r timeout) := by simp only [step, hpc]
    obtain ⟨hinv, -⟩ := suspend_effect h hpc
    by_cases hp : σ.pending t = true
    · have hwoken : (σ.suspend t r timeout).pc t = .woken r timeout ∧
          t ∈ (σ.suspend t r timeout).notes.handed r := by
        unfold suspend
        rw [if_pos hp]
        exact ⟨Function.update_self .., hin⟩
      obtain ⟨σ', hrun, hret⟩ := woken_returns hinv hwoken.2 hwoken.1
      refine ⟨t, σ', ?_, hret⟩
      rw [runAll, hstep]
      change runAll step _ [.signal t, .check t, .giveUp t] = _
      rw [runAll_pass (by simp only [step, hwoken.1])]
      exact hrun
    · obtain ⟨u, hu⟩ := (h.awake r t timeout hin (.inl hpc)).resolve_left hp
      have heq : σ.suspend t r timeout = σ.goto t (.blocked r timeout) := if_neg hp
      rw [heq] at hstep hinv
      have hut := h.other u t hu
      obtain ⟨σ', hrun, hret⟩ := blocked_returns hinv hin (Function.update_self ..)
        ((Function.update_of_ne hut _ _).trans hu)
      refine ⟨u, σ', ?_, hret⟩
      rw [runAll, hstep]
      exact hrun
  | blocked r timeout =>
    rw [hpc] at hon
    obtain rfl := Option.some.inj hon
    have hp := h.still r t timeout hpc
    obtain ⟨u, hu⟩ := (h.awake r t timeout hin (.inr hpc)).resolve_left (by rw [hp]; exact Bool.false_ne_true)
    obtain ⟨σ', hrun, hret⟩ := blocked_returns h hin hpc hu
    refine ⟨u, σ', ?_, hret⟩
    rw [runAll_pass (by simp only [step, hpc])]
    exact hrun
  | woken r timeout =>
    rw [hpc] at hon
    obtain rfl := Option.some.inj hon
    obtain ⟨σ', hrun, hret⟩ := woken_returns h hin hpc
    refine ⟨t, σ', ?_, hret⟩
    rw [runAll_pass (by simp only [step, hpc]), runAll_pass (by simp only [step, hpc])]
    exact hrun
  | expired r =>
    rw [hpc] at hon
    obtain rfl := Option.some.inj hon
    have hg := h.good r
    have hnot : t ∉ (σ.sem r).ring.toList semQueueLength := h.not_mem_of_handed hin
    obtain ⟨hfound, -, -⟩ := Lib.Ring.toList_remove (x := t) hg.wf
    have hstep : σ.step (.giveUp t) = .ok ((σ.setSem r ((σ.sem r).dequeue t).2).endWait t r 0) := by
      simp only [step, hpc, giveUp, Sem.dequeue, hfound, decide_eq_false hnot, if_neg Bool.false_ne_true]
    refine ⟨t, (σ.setSem r ((σ.sem r).dequeue t).2).endWait t r 0, ?_,
      Function.update_self .., Function.update_self ..⟩
    rw [runAll_pass (by simp only [step, hpc]), runAll_pass (by simp only [step, hpc]),
      runAll_pass (by simp only [step, hpc]), runAll, hstep]
    rfl

/-- **Nothing is lost in a counting semaphore.**  Whatever the threads do, and whenever timeouts and
signals come, no assertion fails, and in every state that is reached: if nobody is on the way then every
successful post is in the value or was taken by a successful wait, and nobody sleeps while there is a
value to take; a post does what it should; a thread that was taken out of the queue returns 0. -/
theorem run_conserves (hfresh : ∀ s, (sems s).Fresh) (hcount : (sems s).binary = false) (acts : List Act) :
    ∃ σ, runAll step (start sems) acts = .ok σ ∧
      (Quiescent σ → σ.notes.waits s + (σ.sem s).value = (sems s).value + σ.notes.posts s ∧
        ((σ.sem s).value ≠ 0 → ∀ t timeout, σ.pc t ≠ .blocked s timeout)) ∧
      (∀ t, σ.pc t = .out → PostsWell σ t s) ∧ ∀ t ∈ σ.notes.handed s, ReturnsWell σ t s := by
  obtain ⟨σ, hrun, h⟩ := run_inv hfresh acts (Inv.start hfresh)
  refine ⟨σ, hrun, fun hq => ?_, fun t hpc => h.postsWell hfresh hcount hpc,
    fun t hin => h.returnsWell hfresh hin⟩
  have hnil := h.handed_eq_nil hq s
  have hsum := (h.good s).count hcount
  rw [hnil, List.length_nil, Nat.add_zero] at hsum
  refine ⟨hsum, fun hv t timeout hb => hv ((h.good s).zero ?_)⟩
  have hin := (h.waits s t).mpr (by rw [hb]; rfl)
  rw [hnil, List.append_nil] at hin
  exact List.ne_nil_of_mem hin

/-- A counting semaphore. -/
def counting (value : Nat) : Sem := ⟨value, none, ⟨fun _ => 0, 0, 0⟩, false, false⟩

/-- The second of two waits comes to the queue, and its timeout comes between the post that takes it out
and the signal. -/
theorem lateSignal_conserves :
    ∃ σ, runAll step (start fun _ => counting 1)
        [.wait 1 0 (-1), .wait 2 0 5, .suspend 2, .post 1 0, .expire 2, .giveUp 2, .signal 1] = .ok σ ∧
      (Quiescent σ → σ.notes.waits 0 + (σ.sem 0).value = (counting 1).value + σ.notes.posts 0 ∧
        ((σ.sem 0).value ≠ 0 → ∀ t timeout, σ.pc t ≠ .blocked 0 timeout)) ∧
      (∀ t, σ.pc t = .out → PostsWell σ t 0) ∧ ∀ t ∈ σ.notes.handed 0, ReturnsWell σ t 0 :=
  @run_conserves (fun _ => counting 1) 0 (fun _ => ⟨false, false, 1, rfl⟩) rfl _

/-- At the maximum a post neither increments the value nor takes a thread out of the queue. -/
theorem fullPost_refused :
    (counting semValueMax).Fresh ∧
      ∃ σ, runAll step (start fun _ => counting semValueMax) [.post 1 0] = .ok σ ∧
        (σ.sem 0).value = (counting semValueMax).value ∧ (counting semValueMax).queue = [] ∧
        σ.ret 1 = 1 :=
  ⟨⟨false, false, semValueMax, rfl⟩, _, rfl, rfl, rfl, rfl⟩

/-! ## A binary semaphore excludes -/

/-- The post closes a pair of its thread. -/
def Nested (s : Nat) (σ : SemSys) : Act → Prop
  | .post t r => r = s → σ.pc t = .out → 0 < σ.notes.depth t s
  | _ => True

/-- The post closes the outermost pair of its thread. -/
def Outermost (s : Nat) (σ : SemSys) : Act → Prop
  | .post t r => r = s → σ.pc t = .out → σ.notes.depth t s = 1
  | _ => True

instance decidableNested (s : Nat) (σ : SemSys) : ∀ a, Decidable (Nested s σ a)
  | .post t r => inferInstanceAs (Decidable (r = s → σ.pc t = .out → 0 < σ.notes.depth t s))
  | .wait .. | .suspend _ | .expire _ | .check _ | .giveUp _ | .signal _ => isTrue trivial

instance decidableOutermost (s : Nat) (σ : SemSys) : ∀ a, Decidable (Outermost s σ a)
  | .post t r => inferInstanceAs (Decidable (r = s → σ.pc t = .out → σ.notes.depth t s = 1))
  | .wait .. | .suspend _ | .expire _ | .check _ | .giveUp _ | .signal _ => isTrue trivial

/-- The semaphore is free, or it has an owner and nobody else is inside or was handed it. -/
def Excl (σ : SemSys) (s : Nat) : Prop :=
  ((σ.sem s).value = 1 ∧ (σ.sem s).owner = none ∧ σ.notes.handed s = [] ∧ ∀ t, σ.notes.depth t s = 0) ∨
    ((σ.sem s).value = 0 ∧ ∃ h, (σ.sem s).owner = some h ∧
      ∀ t, 0 < σ.notes.depth t s ∨ t ∈ σ.notes.handed s → t = h)

theorem Excl.congr (h : Excl σ s) (hvalue : (σ'.sem s).value = (σ.sem s).value)
    (howner : (σ'.sem s).owner = (σ.sem s).owner)
    (hdepth : ∀ t, σ'.notes.depth t s = σ.notes.depth t s)
    (hhanded : σ'.notes.handed s = σ.notes.handed s) : Excl σ' s := by
  unfold Excl
  rw [hvalue, howner, hhanded]
  simp only [hdepth]
  exact h

/-- A call on another semaphore. -/
theorem Excl.frame {r d : Nat} {sem : Sem} {l : List Nat} (h : Excl σ s) (hr : s ≠ r)
    (hsem : σ'.sem = Function.update σ.sem r sem)
    (hdepth : σ'.notes.depth =
      Function.update σ.notes.depth t (Function.update (σ.notes.depth t) r d))
    (hhanded : σ'.notes.handed = Function.update σ.notes.handed r l) : Excl σ' s := by
  have hsame : σ'.sem s = σ.sem s := by rw [hsem, Function.update_of_ne hr]
  refine h.congr (by rw [hsame]) (by rw [hsame]) (fun u => ?_) ?_
  · rw [hdepth]
    by_cases hu : u = t
    · rw [hu, Function.update_self, Function.update_of_ne hr]
    · rw [Function.update_of_ne hu]
  · rw [hhanded, Function.update_of_ne hr]

theorem depth_update {depth : Nat → Nat → Nat} {d : Nat} (u : Nat) :
    Function.update depth t (Function.update (depth t) s d) u s = if u = t then d else depth u s := by
  by_cases hu : u = t
  · rw [hu, Function.update_self, Function.update_self, if_pos rfl]
  · rw [Function.update_of_ne hu, if_neg hu]

/-- A wait is successful. -/
theorem Excl.success {sem : Sem} (h : Excl σ s) (hbin : (σ.sem s).binary = true)
    (hsem : σ'.sem = Function.update σ.sem s sem) (hnotes : σ'.notes = (σ.noteWait t s).notes)
    (hhow : ((σ.sem s).recursive = true ∧ (σ.sem s).owner = some t ∧ sem = σ.sem s) ∨
      (σ.pc t = .out ∧ (σ.sem s).value ≠ 0 ∧ sem.value + 1 = (σ.sem s).value ∧
        ((σ.sem s).binary = true → sem.owner = some t)) ∨
      (t ∈ σ.notes.handed s ∧ sem.value = (σ.sem s).value ∧ sem.owner = (σ.sem s).owner)) :
    Excl σ' s := by
  have hsem' : σ'.sem s = sem := by rw [hsem, Function.update_self]
  have hhanded : σ'.notes.handed s = (σ.notes.handed s).erase t := by
    rw [hnotes]
    exact Function.update_self ..
  have hdepth : ∀ u, u ≠ t → σ'.notes.depth u s = σ.notes.depth u s := by
    intro u hu
    rw [hnotes]
    exact (depth_update u).trans (if_neg hu)
  -- everybody who is inside now was inside or is the thread
  have hinside : ∀ u, 0 < σ'.notes.depth u s ∨ u ∈ σ'.notes.handed s →
      u = t ∨ 0 < σ.notes.depth u s ∨ u ∈ σ.notes.handed s := by
    intro u hu
    by_cases hut : u = t
    · exact .inl hut
    · rw [hdepth u hut, hhanded] at hu
      exact .inr (hu.imp id List.mem_of_mem_erase)
  unfold Excl
  rw [hsem']
  rcases h with ⟨hone, hnone, hnil, hzero⟩ | ⟨hzero, o, hown, hall⟩
  · rcases hhow with ⟨-, hown, -⟩ | ⟨-, -, hdec, hown⟩ | ⟨hin, -, -⟩
    · rw [hnone] at hown
      cases hown
    · refine .inr ⟨by omega, t, hown hbin, fun u hu => ?_⟩
      rcases hinside u hu with hut | hd | hh
      · exact hut
      · rw [hzero u] at hd
        exact absurd hd (Nat.lt_irrefl 0)
      · rw [hnil] at hh
        exact absurd hh List.not_mem_nil
    · rw [hnil] at hin
      exact absurd hin List.not_mem_nil
  · refine .inr ?_
    rcases hhow with ⟨-, hown', rfl⟩ | ⟨-, hne, -⟩ | ⟨hin, hvalue, howner⟩
    · obtain rfl := Option.some.inj (hown.symm.trans hown')
      exact ⟨hzero, o, hown, fun u hu => (hinside u hu).elim id (hall u)⟩
    · exact absurd hzero hne
    · obtain rfl := hall t (.inr hin)
      exact ⟨hvalue.trans hzero, t, howner.trans hown, fun u hu => (hinside u hu).elim id (hall u)⟩

/-- The owner posts, at the end of its outermost pair. -/
theorem Excl.owner_of_depth (h : Excl σ s) (hdepth : σ.notes.depth t s = 1) :
    ∀ u, 0 < σ.notes.depth u s ∨ u ∈ σ.notes.handed s → u = t := by
  rcases h with ⟨-, -, -, hzero⟩ | ⟨-, o, -, hall⟩
  · rw [hzero t] at hdepth
    cases hdepth
  · obtain rfl := hall t (.inl (by omega))
    exact hall

theorem Excl.step (hfresh : ∀ s, (sems s).Fresh) (hinv : Inv sems σ) (hbin : (sems s).binary = true)
    {a : Act} (hout : Outermost s σ a) (h : Excl σ s) (hok : σ.step a = .ok σ') : Excl σ' s := by
  have hb : (σ.sem s).binary = true := (hinv.good s).binary.trans hbin
  obtain ⟨-, he⟩ := step_inv hfresh hinv hok
  cases he with
  | quiet _ hsem hdepth hhanded =>
    exact h.congr (hsem s).1 (hsem s).2 (fun t => by rw [hdepth]) (by rw [hhanded])
  | success t r sem _ hsem hnotes _ hhow =>
    by_cases hr : s = r
    · exact h.success hb (hr ▸ hsem) (hr ▸ hnotes) (hr ▸ hhow)
    · exact h.frame hr hsem (by rw [hnotes]; rfl) (by rw [hnotes]; rfl)
  | full _ _ hsem hnotes => exact h.congr (by rw [hsem]) (by rw [hsem]) (fun t => by rw [hnotes]) (by rw [hnotes])
  | @put t r hpc hempty hsem hnotes =>
    by_cases hr : s = r
    · subst hr
      have hd := hout rfl hpc
      have hall := h.owner_of_depth hd
      refine .inl ⟨?_, ?_, ?_, fun u => ?_⟩
      · rw [hsem, Function.update_self, hb]
        rfl
      · rw [hsem, Function.update_self, hb]
        rfl
      · rw [hnotes]
        refine (Function.update_self ..).trans (List.eq_nil_iff_forall_not_mem.mpr fun u hu => ?_)
        obtain rfl := hall u (.inr hu)
        exact (hinv.not_mem_of_out (by rw [hpc]; rfl) s).2 hu
      · rw [hnotes]
        refine (depth_update u).trans ?_
        split_ifs with hut
        · omega
        · exact Nat.eq_zero_of_not_pos fun hpos => hut (hall u (.inl hpos))
    · exact h.frame hr hsem (by rw [hnotes]; rfl) (by rw [hnotes]; rfl)
  | @hand t r thr rest ring hpc hqueue _ hsem hnotes =>
    by_cases hr : s = r
    · subst hr
      have hd := hout rfl hpc
      have hall := h.owner_of_depth hd
      have hzero := (hinv.good s).zero (hqueue ▸ List.cons_ne_nil _ _)
      refine .inr ⟨?_, thr, ?_, fun u hu => ?_⟩
      · rw [hsem, Function.update_self]
        exact hzero
      · rw [hsem, Function.update_self, hb]
        rfl
      · have hdepth : σ'.notes.depth u s = if u = t then σ.notes.depth t s - 1 else σ.notes.depth u s := by
          rw [hnotes]
          exact depth_update u
        have hhanded : σ'.notes.handed s = thr :: σ.notes.handed s := by
          rw [hnotes]
          exact Function.update_self ..
        rw [hdepth, hhanded, List.mem_cons] at hu
        rcases hu with hu | hu | hu
        · split_ifs at hu with hut
          · omega
          · exact absurd (hall u (.inl hu)) hut
        · exact hu
        · obtain rfl := hall u (.inr hu)
          exact absurd hu (hinv.not_mem_of_out (by rw [hpc]; rfl) s).2
    · exact h.frame hr hsem (by rw [hnotes]; rfl) (by rw [hnotes]; rfl)

/-- **A binary semaphore excludes**, recursive or not, in runs in which every post to it closes an outermost
pair.  A post inside a nested pair gives the semaphore away, since the depth of the nesting is nowhere
kept. -/
theorem run_excludes (hfresh : ∀ s, (sems s).Fresh) (hbin : (sems s).binary = true)
    (hone : (sems s).value = 1) {acts : List Act}
    (hmeets : Meets step (Outermost s) (start sems) acts) (hrun : runAll step (start sems) acts = .ok σ)
    (ht : 0 < σ.notes.depth t s) (hu : 0 < σ.notes.depth u s) : t = u := by
  have hstart : Inv sems (start sems) ∧ Excl (start sems) s :=
    ⟨Inv.start hfresh, .inl ⟨hone, (hfresh s).spec.2.2.1, rfl, fun _ => rfl⟩⟩
  have hend := runAll_invariant (I := fun σ => Inv sems σ ∧ Excl σ s)
    (fun σ a σ' h hout hok => ⟨(step_inv hfresh h.1 hok).1, h.2.step hfresh h.1 hbin hout hok⟩)
    hstart hmeets hrun
  rcases hend.2 with ⟨-, -, -, hzero⟩ | ⟨-, o, -, hall⟩
  · rw [hzero t] at ht
    exact absurd ht (Nat.lt_irrefl 0)
  · exact (hall t (.inl ht)).trans (hall u (.inl hu)).symm

/-- A recursive mutex. -/
def mutex : Sem := ⟨1, none, ⟨fun _ => 0, 0, 0⟩, true, true⟩

/-- The mutex is handed over from one thread to another. -/
def handOver : List Act := [.wait 1 0 (-1), .wait 2 0 (-1), .suspend 2, .post 1 0, .signal 1, .check 2]

theorem handOver_excludes :
    ∃ σ, runAll step (start fun _ => mutex) handOver = .ok σ ∧
      0 < σ.notes.depth 2 0 ∧ ∀ u, 0 < σ.notes.depth u 0 → u = 2 :=
  ⟨_, rfl, by decide, fun u hu => @run_excludes (fun _ => mutex) _ 0 u 2
    (fun _ => ⟨true, true, 1, rfl⟩) rfl rfl handOver (by decide) rfl hu (by decide)⟩

/-- Two threads are inside: one that has closed the inner of two pairs, and one that came then. -/
theorem nestedPost_letsIn :
    mutex.Fresh ∧
      Meets step (Nested 0) (start fun _ => mutex) [.wait 1 0 (-1), .wait 1 0 (-1), .post 1 0, .wait 2 0 (-1)] ∧
      ∃ σ, runAll step (start fun _ => mutex)
          [.wait 1 0 (-1), .wait 1 0 (-1), .post 1 0, .wait 2 0 (-1)] = .ok σ ∧
        0 < σ.notes.depth 1 0 ∧ 0 < σ.notes.depth 2 0 :=
  ⟨⟨true, true, 1, rfl⟩, by decide, _, rfl, by decide, by decide⟩

end SemSys

end Wrmos
