import Wrmos.SemaphoreSpec

/-!
# Semaphores whose value is set

`wrm_sem_setvalue` and `wrm_sem_getvalue` of `sem.cpp` beside the waits and posts.  Both are one section
under the spinlock.  `setvalue` writes the value and does not look at the queue; `wrm_sem_post` asserts that
the value is null when it finds somebody there.

For `Notes` a value that is raised counts as so many posts and one that is lowered as so many waits.  With
that the invariant of waits and posts is kept by every `setvalue` but one: a value other than null, set while
somebody is in the queue (`calm_iff_fits`).
-/

namespace Wrmos
namespace SemSys

open Lib (runAll Meets)

/-- The value of `wrm_sem_setvalue`, which a binary semaphore bounds by one. -/
def newValue (sem : Sem) (value : Nat) : Nat := if sem.binary && value ≠ 0 then 1 else value

/-- A value was set. -/
def noteValue (σ : SemSys) (s old new : Nat) : SemSys :=
  { σ with notes := { σ.notes with
      waits := Function.update σ.notes.waits s (σ.notes.waits s + (old - new))
      posts := Function.update σ.notes.posts s (σ.notes.posts s + (new - old)) } }

/-- `wrm_sem_setvalue`. -/
def setvalue (σ : SemSys) (t s value : Nat) : SemSys :=
  if semValueMax < value then σ.finish t 2
  else
    let new := newValue (σ.sem s) value
    ((σ.setSem s { σ.sem s with value := new }).noteValue s (σ.sem s).value new).finish t 0

end SemSys

/-- The threads and semaphores, and what each thread read last by `wrm_sem_getvalue`. -/
structure SemCalls where
  sys : SemSys
  got : Nat → Nat

namespace SemCalls

open Lib (runAll Meets)
open SemSys (Inv Good)

/-- What can happen. -/
inductive Call where
  | act (a : SemSys.Act)
  | setvalue (t s value : Nat)
  | getvalue (t s : Nat)
  deriving DecidableEq, Repr

/-- One step. -/
def step (c : SemCalls) : Call → Except Stop SemCalls
  | .act a => (c.sys.step a).map fun σ => { c with sys := σ }
  | .setvalue t s value =>
    if c.sys.pc t = .out then .ok { c with sys := c.sys.setvalue t s value } else .ok c
  | .getvalue t s =>
    if c.sys.pc t = .out then .ok ⟨c.sys.finish t 0, Function.update c.got t (c.sys.sem s).value⟩ else .ok c

/-- The start. -/
def start (sems : Nat → Sem) : SemCalls := ⟨.start sems, fun _ => 0⟩

/-- Of every semaphore: nobody waits for a value that is there, the pointers are inside of the queue, and it
holds threads that wait for the semaphore, each once. -/
def Calm (c : SemCalls) : Prop :=
  ∀ s, (0 < (c.sys.sem s).value → (c.sys.sem s).queue = []) ∧
    (c.sys.sem s).ring.rp < semQueueLength ∧ (c.sys.sem s).ring.wp < semQueueLength ∧
    (c.sys.sem s).queue.Nodup ∧ ∀ t ∈ (c.sys.sem s).queue, (c.sys.pc t).on = some s

/-- The step is taken, no assertion fails, and it leads to a calm state. -/
def Sound (c : SemCalls) (e : Call) : Prop := ∃ c', c.step e = .ok c' ∧ Calm c'

/-- Nobody is in the queue when a value other than null is set. -/
def Fits (c : SemCalls) : Call → Prop
  | .setvalue t s value =>
    c.sys.pc t = .out → value ≤ semValueMax → value ≠ 0 → (c.sys.sem s).queue = []
  | _ => True

instance (c : SemCalls) : ∀ e, Decidable (Fits c e)
  | .act _ | .getvalue .. => isTrue trivial
  | .setvalue t s value => inferInstanceAs (Decidable
      (c.sys.pc t = .out → value ≤ semValueMax → value ≠ 0 → (c.sys.sem s).queue = []))

variable {sems : Nat → Sem} {c c' : SemCalls} {σ : SemSys} {s t value : Nat}

theorem newValue_eq_zero {sem : Sem} : SemSys.newValue sem value = 0 ↔ value = 0 := by
  unfold SemSys.newValue
  split_ifs with h
  · rw [Bool.and_eq_true, decide_eq_true_eq] at h
    exact iff_of_false (by decide) h.2
  · exact Iff.rfl

theorem newValue_le {sem : Sem} (h : value ≤ semValueMax) : SemSys.newValue sem value ≤ semValueMax := by
  unfold SemSys.newValue
  split_ifs
  · decide
  · exact h

theorem calm_of_inv (h : Inv sems c.sys) : Calm c := by
  intro s
  have hg := h.good s
  refine ⟨fun hpos => ?_, hg.wf.rp, hg.wf.wp, (List.nodup_append.mp hg.nodup).1, fun t ht => ?_⟩
  · by_contra hne
    exact absurd (hg.zero hne) (Nat.pos_iff_ne_zero.mp hpos)
  · exact (h.waits s t).mp (List.mem_append_left _ ht)

/-- **A value is set.** -/
theorem inv_setvalue (h : Inv sems σ) (hpc : σ.pc t = .out) (hmax : value ≤ semValueMax)
    (hfits : value ≠ 0 → (σ.sem s).queue = []) : Inv sems (σ.setvalue t s value) := by
  have hg := h.good s
  have hout : (σ.pc t).on = none := by
    rw [hpc]
    rfl
  unfold SemSys.setvalue
  rw [if_neg (Nat.not_lt.mpr hmax)]
  generalize hnew : SemSys.newValue (σ.sem s) value = new
  generalize hσ : ((σ.setSem s { σ.sem s with value := new }).noteValue s (σ.sem s).value new).finish t 0 = σ'
  have hsem : σ'.sem s = { σ.sem s with value := new } := by
    rw [← hσ]
    exact Function.update_self ..
  have hpc' : σ'.pc t = .out := by
    rw [← hσ]
    exact Function.update_self ..
  have hold : ∀ u, u ≠ t → σ'.pc u = σ.pc u := by
    rw [← hσ]
    exact fun u hu => Function.update_of_ne hu _ _
  have hwaits : σ'.notes.waits s = σ.notes.waits s + ((σ.sem s).value - new) := by
    rw [← hσ]
    exact Function.update_self ..
  have hposts : σ'.notes.posts s = σ.notes.posts s + (new - (σ.sem s).value) := by
    rw [← hσ]
    exact Function.update_self ..
  have hsame : σ'.notes.handed = σ.notes.handed ∧ σ'.notes.ticket = σ.notes.ticket ∧
      σ'.notes.clock = σ.notes.clock ∧ σ'.pending = σ.pending := by
    rw [← hσ]
    exact ⟨rfl, rfl, rfl, rfl⟩
  obtain ⟨hhanded, hticket, hclock, hpend⟩ := hsame
  refine h.change (s := s) (t := t) ?_ (fun _ _ => by rw [hhanded]) ?_ (fun _ _ => by rw [hticket])
    (Nat.le_of_eq hclock.symm) hold hpend ?_ ?_ ?_ ?_ ?_ ?_ (fun u hu => .inl (hhanded ▸ hu)) ?_ ?_
  · rw [← hσ]
    exact fun r hr => Function.update_of_ne hr _ _
  · rw [← hσ]
    exact fun r hr => ⟨Function.update_of_ne hr _ _, Function.update_of_ne hr _ _⟩
  · intro r hr he
    rw [hout] at he
    cases he
  · intro r _
    rw [hpc']
    exact nofun
  · intro v hv
    rw [hpc] at hv
    cases hv
  · intro v hv
    rw [hpc'] at hv
    cases hv
  · intro r timeout' hb
    rw [hpc'] at hb
    cases hb
  · intro timeout' hb
    rw [hpc'] at hb
    cases hb
  · have hqueue : (σ'.sem s).queue = (σ.sem s).queue := by rw [hsem]; rfl
    have hvalue : (σ'.sem s).value = new := by rw [hsem]
    refine ⟨?_, ?_, ?_, ?_, fun hne => ?_, ?_, fun hb => ?_, ?_, ?_⟩
    · rw [hsem]
      exact hg.wf
    · rw [hsem]
      exact hg.binary
    · rw [hsem]
      exact hg.recursive
    · rw [hqueue, hhanded]
      exact hg.nodup
    · rw [hqueue] at hne
      have hzero : value = 0 := by_contra fun hv => hne (hfits hv)
      rw [hvalue, ← hnew]
      exact newValue_eq_zero.mpr hzero
    · rw [hvalue, ← hnew]
      exact newValue_le hmax
    · have hcount := hg.count hb
      rw [hwaits, hposts, hvalue, hhanded]
      omega
    · rw [hqueue, hticket]
      exact hg.order
    · rw [hqueue, hticket, hclock]
      exact hg.early
  · intro u
    have hqueue : (σ'.sem s).queue = (σ.sem s).queue := by rw [hsem]; rfl
    rw [hqueue, hhanded, h.waits]
    by_cases hu : u = t
    · rw [hu, hpc', hpc]
    · rw [hold u hu]

/-- A step that fits is taken and keeps the invariant. -/
theorem inv_step (hfresh : ∀ s, (sems s).Fresh) (h : Inv sems c.sys) {e : Call} (hfits : Fits c e) :
    ∃ c', c.step e = .ok c' ∧ Inv sems c'.sys := by
  cases e with
  | act a =>
    obtain ⟨σ', hstep, hinv, -⟩ := SemSys.step_effect hfresh h a
    refine ⟨{ c with sys := σ' }, ?_, hinv⟩
    show (c.sys.step a).map _ = _
    rw [hstep]
    rfl
  | setvalue t s value =>
    dsimp only [step]
    split_ifs with hpc
    · refine ⟨_, rfl, ?_⟩
      by_cases hmax : value ≤ semValueMax
      · exact inv_setvalue h hpc hmax (hfits hpc hmax)
      · have hrefused : c.sys.setvalue t s value = c.sys.finish t 2 := if_pos (Nat.lt_of_not_le hmax)
        show Inv sems (c.sys.setvalue t s value)
        rw [hrefused]
        exact h.finish hpc 2
    · exact ⟨c, rfl, h⟩
  | getvalue t s =>
    dsimp only [step]
    split_ifs with hpc
    · exact ⟨_, rfl, h.finish hpc 0⟩
    · exact ⟨c, rfl, h⟩

/-- A step that does not fit leaves a value and a thread that waits for it. -/
theorem fits_of_sound {e : Call} (hsound : Sound c e) : Fits c e := by
  cases e with
  | act a => trivial
  | getvalue t s => trivial
  | setvalue t s value =>
    intro hpc hmax hne
    obtain ⟨c', hstep, hcalm⟩ := hsound
    have hset : c' = { c with sys := c.sys.setvalue t s value } :=
      (Except.ok.inj (hstep.symm.trans (if_pos hpc)))
    have hsem : (c'.sys.sem s) = { c.sys.sem s with value := SemSys.newValue (c.sys.sem s) value } := by
      rw [hset]
      show ((c.sys.setvalue t s value).sem s) = _
      unfold SemSys.setvalue
      rw [if_neg (Nat.not_lt.mpr hmax)]
      exact Function.update_self ..
    have hempty := (hcalm s).1
    rw [hsem] at hempty
    exact hempty (Nat.pos_of_ne_zero fun h0 => hne (newValue_eq_zero.mp h0))

/-- **The queue of a semaphore.**  The start is calm, and every step of a run is taken and leads to a calm
state if and only if every step fits. -/
theorem calm_iff_fits (hfresh : ∀ s, (sems s).Fresh) (es : List Call) :
    Calm (start sems) ∧ (Meets step Sound (start sems) es ↔ Meets step Fits (start sems) es) := by
  have hinv : Inv sems (start sems).sys := Inv.start hfresh
  have hkeep : ∀ c e c', Inv sems c.sys → Fits c e → step c e = .ok c' → Inv sems c'.sys := by
    intro c e c' hc hfits hstep
    obtain ⟨c'', hstep', hc''⟩ := inv_step hfresh hc hfits
    exact Except.ok.inj (hstep'.symm.trans hstep) ▸ hc''
  refine ⟨calm_of_inv hinv, ?_, ?_⟩
  · exact Meets.of_invariant (I := fun c => Inv sems c.sys)
      (fun c e c' hc hsound => hkeep c e c' hc (fits_of_sound hsound)) (fun _ _ _ => fits_of_sound) hinv
  · refine Meets.of_invariant (I := fun c => Inv sems c.sys) hkeep (fun c e hc hfits => ?_) hinv
    obtain ⟨c', hstep, hc'⟩ := inv_step hfresh hc hfits
    exact ⟨c', hstep, calm_of_inv hc'⟩

/-- The value is set before anybody waits, and read afterwards. -/
theorem setFirst_calm : Meets step Sound (start fun _ => SemSys.counting 0)
    [.setvalue 2 0 1, .act (.wait 1 0 (-1)), .getvalue 2 0, .act (.post 2 0)] :=
  (calm_iff_fits (fun _ => ⟨false, false, 0, rfl⟩) _).2.mpr (by decide +kernel)

/-- The value is set while a thread waits: it is not woken, and the next post stops. -/
theorem setLate_stops :
    runAll step (start fun _ => SemSys.counting 0)
        [.act (.wait 1 0 (-1)), .setvalue 2 0 1, .act (.post 2 0)] =
      .error (.assertion "!sem->value") ∧
    ¬ Meets step Sound (start fun _ => SemSys.counting 0) [.act (.wait 1 0 (-1)), .setvalue 2 0 1] := by
  refine ⟨rfl, fun hsound => ?_⟩
  have hfits := Meets.of_invariant (I := fun _ => True) (fun _ _ _ _ _ _ => trivial)
    (fun _ _ _ => fits_of_sound) trivial hsound
  exact absurd hfits (by decide +kernel)

end SemCalls
end Wrmos
