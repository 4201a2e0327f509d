import Wrmos.Spinlock
import Wrmos.SemaphoreSpec

/-!
# The sections of the semaphores are atomic

On SPARC only one thread at a time is behind `wrm_spinlock_lock` of a semaphore: the first byte of the lock
is set while a thread is there, so no attempt finds it null.  The accesses of that thread are then the only
ones, and what they come to is what the section does in one step (`Section.eval_act`).  The system whose
accesses interleave therefore shows nothing that `SemSys` does not show, where a section is taken at once
when its thread unlocks (`run_refines`).

On the other processors the lock keeps nobody out, and a post is lost when two of them interleave
(`postsTwice_lose`).
-/

namespace Wrmos

open Lib

namespace Sem

variable {sem : Sem} {self thr : Nat}

/-! ## What the sections do when nobody comes in between -/

theorem eval_ownedCode : (ownedCode self).eval sem = (sem.recursive && sem.owner == some self, sem) := by
  unfold ownedCode
  cases hr : sem.recursive <;> simp [hr]

theorem eval_enqueueCode : (enqueueCode self).eval sem =
    match sem.ring.push semQueueLength self with
    | none => (.returns 2, sem)
    | some ring => (.suspends, { sem with ring := ring }) := by
  unfold enqueueCode Lib.Ring.push
  by_cases h : Lib.Ring.next semQueueLength sem.ring.wp = sem.ring.rp <;>
    simp [h, setSlot, setWp]

theorem eval_enterCode (timeout : Int) : (enterCode self timeout).eval sem =
    ((match (sem.enter self timeout).1 with
      | some rc => .returns rc
      | none => .suspends), (sem.enter self timeout).2) := by
  unfold enterCode enter
  simp only [Code.eval_bind, eval_ownedCode]
  by_cases howned : (sem.recursive && sem.owner == some self) = true
  · simp [howned]
  · by_cases hvalue : sem.value = 0
    · by_cases htimeout : timeout = 0
      · simp [howned, hvalue, htimeout]
      · cases hpush : sem.ring.push semQueueLength self <;>
          simp [howned, hvalue, htimeout, eval_enqueueCode, hpush]
    · cases hbin : sem.binary <;> simp [howned, hvalue, hbin]

theorem eval_existLoop : ∀ (k p : Nat), (existLoop thr k p).eval sem =
    (sem.ring.containsFrom semQueueLength thr k p, sem)
  | 0, _ => rfl
  | k + 1, p => by
    unfold existLoop Lib.Ring.containsFrom
    by_cases hp : p = sem.ring.wp
    · simp [hp]
    · by_cases hx : sem.ring.slot p = thr
      · simp [hp, hx]
      · simp [hp, hx, eval_existLoop k]

theorem eval_dequeueLoop : ∀ (k p : Nat) (found : Bool) (sem : Sem), (dequeueLoop thr k p found).eval sem =
    ((Lib.Ring.shiftFrom semQueueLength sem.ring.wp thr k sem.ring.slot p found).2,
      { sem with ring := { sem.ring with
        slot := (Lib.Ring.shiftFrom semQueueLength sem.ring.wp thr k sem.ring.slot p found).1 } })
  | 0, _, _, _ => rfl
  | k + 1, p, found, sem => by
    unfold dequeueLoop Lib.Ring.shiftFrom
    by_cases hp : p = sem.ring.wp
    · simp [hp]
    · cases found with
      | true => simp [hp, eval_dequeueLoop k, setSlot]
      | false =>
        by_cases hx : sem.ring.slot p = thr
        · simp [hp, hx, eval_dequeueLoop k, setSlot]
        · simp [hp, hx, eval_dequeueLoop k]

theorem eval_checkCode : (checkCode self).eval sem =
    ((if sem.existInQueue self then .suspends else .returns 0), sem) := by
  unfold checkCode existInQueue Lib.Ring.contains
  simp [eval_existLoop]

theorem eval_giveUpCode : (giveUpCode self).eval sem =
    (.returns (if (sem.dequeue self).1 then semErrTimeout else 0), (sem.dequeue self).2) := by
  unfold giveUpCode dequeue Lib.Ring.remove
  simp only [Code.eval_bind, Code.eval_read, eval_dequeueLoop]
  by_cases hfound : (Lib.Ring.shiftFrom semQueueLength sem.ring.wp self semQueueLength sem.ring.slot
      sem.ring.rp false).2 = true
  · simp only [hfound, setWp]
    rfl
  · simp [hfound]

/-- What the section of `wrm_sem_post` comes to, and what `Sem.post` says. -/
inductive Posted (sem : Sem) : Except Stop After × Sem → Except Stop (Int × Option Nat × Sem) → Prop
  | full : Posted sem (.ok (.returns 1), sem) (.ok (1, none, sem))
  | put (sem' : Sem) : Posted sem (.ok (.returns 0), sem') (.ok (0, none, sem'))
  | hand (thr : Nat) (sem' : Sem) : Posted sem (.ok (.resumes thr), sem') (.ok (0, some thr, sem'))
  | stop (e : Stop) (sem' : Sem) : Posted sem (.error e, sem') (.error e)

theorem posted (sem : Sem) (self : Nat) : Posted sem ((postCode self).eval sem) (sem.post self) := by
  have hzeroMax : ¬ 0 = semValueMax := by decide
  unfold postCode post Lib.Ring.pop
  by_cases hmax : sem.value = semValueMax
  · simp only [hmax, Code.eval_bind, Code.eval_read, Code.eval_pure, if_true]
    exact .full
  · rw [if_neg hmax]
    by_cases hempty : sem.ring.wp = sem.ring.rp
    · cases hbin : sem.binary <;> simp [hmax, hempty, putCode, hbin] <;> exact .put _
    · rw [if_neg hempty]
      dsimp only
      by_cases hzero : sem.value = 0
      · rw [ensure_bind_of hzero]
        by_cases hself : sem.ring.slot sem.ring.rp = self
        · rw [ensure_bind_of_not (not_not.mpr hself)]
          simp [hzeroMax, hempty, hzero, hself]
          exact .stop _ _
        · rw [ensure_bind_of hself]
          cases hbin : sem.binary <;> simp [hzeroMax, hempty, hzero, hself, hbin, setRp] <;> exact .hand _ _
      · rw [ensure_bind_of_not hzero]
        simp [hmax, hempty, hzero]
        exact .stop _ _

end Sem

namespace Section

variable {σ σ' : SemSys} {t s : Nat} {c : Section}

/-- The section as a step of `SemSys`. -/
def act (t s : Nat) : Section → SemSys.Act
  | enter timeout => .wait t s timeout
  | check _ => .check t
  | giveUp => .giveUp t
  | post => .post t s

/-- `wrm_sem_wait` looks at the timeout before it locks. -/
def Valid : Section → Prop
  | enter timeout => ¬ (timeout < 0 ∧ timeout ≠ semTimeoutInfinite)
  | check _ | giveUp | post => True

/-- The place behind a section. -/
def behind (c : Section) (s : Nat) : After → Pc
  | .returns _ => .out
  | .suspends => .queued s c.timeout
  | .resumes thr => .signalling thr

/-- What is returned behind a section. -/
def result (ret : Nat → Int) (t : Nat) : After → Nat → Int
  | .returns rc => Function.update ret t rc
  | .suspends | .resumes _ => ret

/-- The step leaves the semaphore as `sem` and goes on as `a` says. -/
structure Taken (σ σ' : SemSys) (t s : Nat) (c : Section) (a : After) (sem : Sem) : Prop where
  sem : σ'.sem = Function.update σ.sem s sem
  pc : σ'.pc = Function.update σ.pc t (c.behind s a)
  pending : σ'.pending = σ.pending
  ret : σ'.ret = result σ.ret t a

/-- A wait that ends: the notes are no matter here. -/
theorem taken_endWait (σ : SemSys) (t s : Nat) (c : Section) (sem : Sem) (rc : Int) :
    Taken σ ((σ.setSem s sem).endWait t s rc) t s c (.returns rc) sem := by
  unfold SemSys.endWait
  split <;> exact ⟨rfl, rfl, rfl, rfl⟩

/-- A section whose accesses are the only ones is a step of `SemSys`. -/
theorem step_act (hpc : σ.pc t = c.pc s) (hvalid : c.Valid) :
    match (c.code t).eval (σ.sem s) with
    | (.error e, _) => σ.step (c.act t s) = .error e
    | (.ok a, sem) => ∃ σ', σ.step (c.act t s) = .ok σ' ∧ Taken σ σ' t s c a sem := by
  cases c with
  | enter timeout =>
    have hstep : σ.step (.wait t s timeout) = .ok (σ.wait t s timeout) := if_pos hpc
    simp only [code, Code.eval_map, Sem.eval_enterCode]
    refine ⟨_, hstep, ?_⟩
    unfold SemSys.wait
    rw [if_neg hvalid]
    split
    · next rc sem henter =>
      rw [henter]
      exact taken_endWait ..
    · next sem henter =>
      rw [henter]
      exact ⟨rfl, rfl, rfl, rfl⟩
  | check timeout =>
    have hstep : σ.step (.check t) = .ok (σ.check t s timeout) := by
      dsimp only [SemSys.step]
      rw [hpc]
      rfl
    simp only [code, Code.eval_map, Sem.eval_checkCode]
    refine ⟨_, hstep, ?_⟩
    have hsame : Function.update σ.sem s (σ.sem s) = σ.sem := Function.update_eq_self ..
    unfold SemSys.check
    split
    · exact ⟨hsame.symm, rfl, rfl, rfl⟩
    · have htaken := taken_endWait σ t s (.check timeout) (σ.sem s) 0
      unfold SemSys.setSem at htaken
      rwa [hsame] at htaken
  | giveUp =>
    have hstep : σ.step (.giveUp t) = .ok (σ.giveUp t s) := by
      dsimp only [SemSys.step]
      rw [hpc]
      rfl
    simp only [code, Code.eval_map, Sem.eval_giveUpCode]
    exact ⟨_, hstep, taken_endWait ..⟩
  | post =>
    have hstep : σ.step (.post t s) = σ.post t s := if_pos hpc
    have hposted := Sem.posted (σ.sem s) t
    simp only [code, act, hstep]
    unfold SemSys.post
    generalize (Sem.postCode t).eval (σ.sem s) = x at hposted
    generalize (σ.sem s).post t = y at hposted
    cases hposted with
    | full =>
      have hsame : Function.update σ.sem s (σ.sem s) = σ.sem := Function.update_eq_self ..
      exact ⟨_, rfl, ⟨hsame.symm, rfl, rfl, rfl⟩⟩
    | put sem' => exact ⟨_, rfl, ⟨rfl, rfl, rfl, rfl⟩⟩
    | hand thr sem' => exact ⟨_, rfl, ⟨rfl, rfl, rfl, rfl⟩⟩
    | stop e sem' => rfl

end Section

/-! ## The lock -/

/-- The first byte of a lock is set. -/
def Held (w : WrmSpinlock) : Prop := (ldstub w).1 ≠ 0

theorem held_ldstub (w : WrmSpinlock) : Held (ldstub w).2 := by
  intro hzero
  have hword : (w ||| 0xff000000) >>> 24 = 0#32 := BitVec.eq_of_toNat_eq hzero
  rw [BitVec.ushiftRight_or_distrib, BitVec.or_eq_zero_iff] at hword
  exact absurd hword.2 (by decide)

namespace Spot

/-- The place of `SemSys` that a thread shows: in a section it is still before it. -/
def pc : Spot → Pc
  | .at pc => pc
  | locking s c _ => c.pc s
  | inside s c _ => c.pc s

/-- The thread is behind `wrm_spinlock_lock` of the semaphore. -/
def In (s : Nat) : Spot → Prop
  | inside r _ _ => r = s
  | .at _ | locking _ _ _ => False

/-- A wait that has come so far has a right timeout. -/
def Valid : Spot → Prop
  | .at _ => True
  | locking _ c _ | inside _ c _ => c.Valid

end Spot

namespace SpinSys

open SemSys (Inv)

variable {φ φ' : SpinSys} {σ σ' : SemSys} {t u s : Nat} {c : Section}

/-- What `SemSys` shows of the interleaved system: where the threads are, what was returned and the
semaphores that nobody is in.  A semaphore that a thread is in is on the way to what the section of that
thread, which is the only one there, will make of it. -/
structure Shows (φ : SpinSys) (σ : SemSys) : Prop where
  pc : ∀ t, σ.pc t = (φ.spot t).pc
  pending : σ.pending = φ.pending
  ret : σ.ret = φ.ret
  valid : ∀ t, (φ.spot t).Valid
  alone : ∀ t u s, (φ.spot t).In s → (φ.spot u).In s → t = u
  held : ∀ t s, (φ.spot t).In s → Held (φ.lock s)
  free : ∀ s, (∀ t, ¬ (φ.spot t).In s) → σ.sem s = φ.sem s
  rest : ∀ t s c rest, φ.spot t = .inside s c rest → rest.eval (φ.sem s) = (c.code t).eval (σ.sem s)

/-- A thread goes from one place outside of the sections to another. -/
theorem Shows.move (h : Shows φ σ) {spot : Spot} (hout : ∀ s, ¬ (φ.spot t).In s)
    (hspot : φ'.spot = Function.update φ.spot t spot) (hnew : ∀ s, ¬ spot.In s) (hvalid : spot.Valid)
    (hsem : φ'.sem = φ.sem) (hlock : ∀ s, Held (φ.lock s) → Held (φ'.lock s))
    (hsem' : σ'.sem = σ.sem) (hpc : σ'.pc = Function.update σ.pc t spot.pc)
    (hpending : σ'.pending = φ'.pending) (hret : σ'.ret = φ'.ret) : Shows φ' σ' := by
  have hother : ∀ u s, (φ'.spot u).In s → u ≠ t ∧ (φ.spot u).In s := by
    intro u s hu
    rw [hspot] at hu
    by_cases hut : u = t
    · rw [hut, Function.update_self] at hu
      exact absurd hu (hnew s)
    · rw [Function.update_of_ne hut] at hu
      exact ⟨hut, hu⟩
  have hback : ∀ u s, (φ.spot u).In s → (φ'.spot u).In s := by
    intro u s hu
    have hut : u ≠ t := fun hut => hout s (hut ▸ hu)
    rwa [hspot, Function.update_of_ne hut]
  refine ⟨?_, hpending, hret, ?_, ?_, ?_, ?_, ?_⟩
  · intro u
    rw [hpc, hspot]
    by_cases hut : u = t
    · rw [hut, Function.update_self, Function.update_self]
    · rw [Function.update_of_ne hut, Function.update_of_ne hut]
      exact h.pc u
  · rw [hspot]
    exact (Function.forall_update_iff φ.spot fun _ v => v.Valid).mpr ⟨hvalid, fun u _ => h.valid u⟩
  · exact fun u v s hu hv => h.alone u v s (hother u s hu).2 (hother v s hv).2
  · exact fun u s hu => hlock s (h.held u s (hother u s hu).2)
  · intro s hs
    rw [hsem', hsem]
    exact h.free s fun u hu => hs u (hback u s hu)
  · intro u s c rest hu
    have hin : (φ'.spot u).In s := by
      rw [hu]
      exact rfl
    obtain ⟨hut, -⟩ := hother u s hin
    rw [hspot, Function.update_of_ne hut] at hu
    rw [hsem', hsem]
    exact h.rest u s c rest hu

/-- An attempt to lock. -/
theorem Shows.attempt (h : Shows φ σ) {cnt : Nat} (hspot : φ.spot t = .locking s c cnt) :
    Shows (φ.attempt .sparc t s c cnt) σ := by
  have hout : ∀ r, ¬ (φ.spot t).In r := by
    intro r
    rw [hspot]
    exact id
  have hvalid : c.Valid := by
    have := h.valid t
    rwa [hspot] at this
  have hpc : σ.pc t = c.pc s := by
    rw [h.pc, hspot]
    rfl
  have hlock : ∀ r, Held (φ.lock r) → Held (Function.update φ.lock s (ldstub (φ.lock s)).2 r) := by
    intro r hr
    by_cases hrs : r = s
    · rw [hrs, Function.update_self]
      exact held_ldstub _
    · rwa [Function.update_of_ne hrs]
  unfold SpinSys.attempt
  dsimp only [testAndSet]
  by_cases hfree : (ldstub (φ.lock s)).1 = 0
  · rw [if_pos hfree]
    -- the lock was free, so nobody is in the section
    have hnone : ∀ u, ¬ (φ.spot u).In s := fun u hu => h.held u s hu hfree
    have hin : ∀ u r, ((Function.update φ.spot t (.inside s c (c.code t))) u).In r →
        (u = t ∧ r = s) ∨ (u ≠ t ∧ r ≠ s ∧ (φ.spot u).In r) := by
      intro u r hu
      by_cases hut : u = t
      · rw [hut, Function.update_self] at hu
        exact .inl ⟨hut, hu.symm⟩
      · rw [Function.update_of_ne hut] at hu
        exact .inr ⟨hut, fun hrs => hnone u (hrs ▸ hu), hu⟩
    refine ⟨?_, h.pending, h.ret, ?_, ?_, ?_, ?_, ?_⟩
    · exact (Function.forall_update_iff φ.spot fun u v => σ.pc u = v.pc).mpr ⟨hpc, fun u _ => h.pc u⟩
    · exact (Function.forall_update_iff φ.spot fun _ v => v.Valid).mpr ⟨hvalid, fun u _ => h.valid u⟩
    · intro u v r hu hv
      rcases hin u r hu with ⟨rfl, rfl⟩ | ⟨-, hrs, hu⟩ <;> rcases hin v r hv with ⟨rfl, hrs'⟩ | ⟨-, hrs', hv⟩
      · rfl
      · exact absurd rfl hrs'
      · exact absurd hrs' hrs
      · exact h.alone u v r hu hv
    · intro u r hu
      dsimp only [goto]
      rcases hin u r hu with ⟨rfl, rfl⟩ | ⟨-, hrs, hu⟩
      · rw [Function.update_self]
        exact held_ldstub _
      · exact hlock r (h.held u r hu)
    · intro r hr
      refine h.free r fun u hu => ?_
      have hut : u ≠ t := fun hut => hout r (hut ▸ hu)
      refine hr u ?_
      dsimp only [goto]
      rwa [Function.update_of_ne hut]
    · intro u r c' rest hu
      dsimp only [goto] at hu ⊢
      by_cases hut : u = t
      · rw [hut, Function.update_self] at hu
        cases hu
        rw [hut, h.free s hnone]
      · rw [Function.update_of_ne hut] at hu
        exact h.rest u r c' rest hu
  · rw [if_neg hfree]
    exact h.move hout rfl (fun _ => id) hvalid rfl hlock rfl
      (by rw [show (Spot.locking s c (spinCount cnt)).pc = σ.pc t from hpc.symm, Function.update_eq_self])
      h.pending h.ret

/-- An access of the thread that is in a section. -/
theorem Shows.access (h : Shows φ σ) {f : Sem → Sem} {k : Sem → Code Sem (Except Stop After)}
    (hspot : φ.spot t = .inside s c (.step f k)) : Shows (φ.access t s c f k) σ := by
  have ht : (φ.spot t).In s := by
    rw [hspot]
    exact rfl
  have hin : ∀ u r, ((Function.update φ.spot t (.inside s c (k (φ.sem s)))) u).In r → (φ.spot u).In r := by
    intro u r hu
    by_cases hut : u = t
    · rw [hut, Function.update_self] at hu
      rw [hut, hspot]
      exact hu
    · rwa [Function.update_of_ne hut] at hu
  have hback : ∀ u r, (φ.spot u).In r → ((Function.update φ.spot t (.inside s c (k (φ.sem s)))) u).In r := by
    intro u r hu
    by_cases hut : u = t
    · rw [hut, hspot] at hu
      rw [hut, Function.update_self]
      exact hu
    · rwa [Function.update_of_ne hut]
  refine ⟨?_, h.pending, h.ret, ?_, ?_, ?_, ?_, ?_⟩
  · refine (Function.forall_update_iff φ.spot fun u v => σ.pc u = v.pc).mpr ⟨?_, fun u _ => h.pc u⟩
    rw [h.pc, hspot]
    rfl
  · refine (Function.forall_update_iff φ.spot fun _ v => v.Valid).mpr ⟨?_, fun u _ => h.valid u⟩
    have hvalid := h.valid t
    rwa [hspot] at hvalid
  · exact fun u v r hu hv => h.alone u v r (hin u r hu) (hin v r hv)
  · exact fun u r hu => h.held u r (hin u r hu)
  · intro r hr
    have hrs : r ≠ s := fun hrs => hr t (hback t r (hrs ▸ ht))
    dsimp only [SpinSys.access, goto]
    rw [Function.update_of_ne hrs]
    exact h.free r fun u hu => hr u (hback u r hu)
  · intro u r c' rest hu
    dsimp only [SpinSys.access, goto] at hu ⊢
    by_cases hut : u = t
    · rw [hut, Function.update_self] at hu
      cases hu
      rw [hut, Function.update_self]
      exact h.rest t s c _ hspot
    · rw [Function.update_of_ne hut] at hu
      have hr : (φ.spot u).In r := by
        rw [hu]
        exact rfl
      have hrs : r ≠ s := fun hrs => hut (h.alone u t s (hrs ▸ hr) ht)
      rw [Function.update_of_ne hrs]
      exact h.rest u r c' rest hu

/-- The end of a section is the step of `SemSys`. -/
theorem Shows.unlock (h : Shows φ σ) {a : Except Stop After} (hspot : φ.spot t = .inside s c (.ret a)) :
    Follows SemSys.step Shows σ (a.map fun a => φ.unlock t s c a) := by
  have ht : (φ.spot t).In s := by
    rw [hspot]
    exact rfl
  have hpc : σ.pc t = c.pc s := by
    rw [h.pc, hspot]
    rfl
  have hvalid : c.Valid := by
    have := h.valid t
    rwa [hspot] at this
  have heval : (c.code t).eval (σ.sem s) = (a, φ.sem s) := (h.rest t s c _ hspot).symm
  have hact := Section.step_act hpc hvalid
  rw [heval] at hact
  cases a with
  | error e => exact .error hact
  | ok a =>
    obtain ⟨σ', hstep, htaken⟩ := hact
    refine .one hstep ?_
    have hspots : (φ.unlock t s c a).spot = Function.update φ.spot t (.at (c.behind s a)) := by
      cases a <;> rfl
    have hin : ∀ u r, ((φ.unlock t s c a).spot u).In r → u ≠ t ∧ r ≠ s ∧ (φ.spot u).In r := by
      intro u r hu
      rw [hspots] at hu
      by_cases hut : u = t
      · rw [hut, Function.update_self] at hu
        exact hu.elim
      · rw [Function.update_of_ne hut] at hu
        exact ⟨hut, fun hrs => hut (h.alone u t s (hrs ▸ hu) ht), hu⟩
    have hsem : (φ.unlock t s c a).sem = φ.sem := by cases a <;> rfl
    have hlock : (φ.unlock t s c a).lock = Function.update φ.lock s wrmSpinlockUnlock := by cases a <;> rfl
    refine ⟨?_, ?_, ?_, ?_, ?_, ?_, ?_, ?_⟩
    · intro u
      rw [htaken.pc, hspots]
      by_cases hut : u = t
      · rw [hut, Function.update_self, Function.update_self]
        rfl
      · rw [Function.update_of_ne hut, Function.update_of_ne hut]
        exact h.pc u
    · rw [htaken.pending, h.pending]
      cases a <;> rfl
    · rw [htaken.ret, h.ret]
      cases a <;> rfl
    · rw [hspots]
      exact (Function.forall_update_iff φ.spot fun _ v => v.Valid).mpr ⟨trivial, fun u _ => h.valid u⟩
    · exact fun u v r hu hv => h.alone u v r (hin u r hu).2.2 (hin v r hv).2.2
    · intro u r hu
      obtain ⟨-, hrs, hu'⟩ := hin u r hu
      rw [hlock, Function.update_of_ne hrs]
      exact h.held u r hu'
    · intro r hr
      rw [htaken.sem, hsem]
      by_cases hrs : r = s
      · rw [hrs, Function.update_self]
      · rw [Function.update_of_ne hrs]
        refine h.free r fun u hu => hr u ?_
        have hut : u ≠ t := by
          rintro rfl
          rw [hspot] at hu
          exact hrs hu.symm
        rwa [hspots, Function.update_of_ne hut]
    · intro u r c' rest hu
      have hu' : ((φ.unlock t s c a).spot u).In r := by
        rw [hu]
        exact rfl
      obtain ⟨hut, hrs, -⟩ := hin u r hu'
      rw [hspots, Function.update_of_ne hut] at hu
      rw [htaken.sem, hsem, Function.update_of_ne hrs]
      exact h.rest u r c' rest hu

theorem not_in_at {pc : Pc} (hspot : φ.spot t = .at pc) (s : Nat) : ¬ (φ.spot t).In s := by
  rw [hspot]
  exact id

theorem Shows.pc_at (h : Shows φ σ) {pc : Pc} (hspot : φ.spot t = .at pc) : σ.pc t = pc := by
  rw [h.pc, hspot]
  rfl

/-- A thread begins to lock. -/
theorem Shows.begin (h : Shows φ σ) {pc : Pc} (hspot : φ.spot t = .at pc) (hpc : c.pc s = pc)
    (hvalid : c.Valid) : Follows SemSys.step Shows σ (.ok (φ.goto t (.locking s c 0))) := by
  refine .none (h.move (not_in_at hspot) rfl (fun _ => id) hvalid rfl (fun _ => id) rfl ?_
    h.pending h.ret)
  rw [show (Spot.locking s c 0).pc = σ.pc t from hpc.trans (h.pc_at hspot).symm, Function.update_eq_self]

theorem Shows.wait (h : Shows φ σ) (hspot : φ.spot t = .at .out) (s : Nat) (timeout : Int) :
    Follows SemSys.step Shows σ (if timeout < 0 ∧ timeout ≠ semTimeoutInfinite then .ok (φ.finish t 1)
      else .ok (φ.goto t (.locking s (.enter timeout) 0))) := by
  by_cases hwrong : timeout < 0 ∧ timeout ≠ semTimeoutInfinite
  · rw [if_pos hwrong]
    have hstep : σ.step (.wait t s timeout) = .ok (σ.finish t 1) :=
      (if_pos (h.pc_at hspot)).trans (congrArg Except.ok (if_pos hwrong))
    exact .one hstep (h.move (not_in_at hspot) rfl (fun _ => id) trivial rfl (fun _ => id) rfl rfl h.pending
      (congrArg (Function.update · t 1) h.ret))
  · rw [if_neg hwrong]
    exact h.begin hspot rfl hwrong

theorem Shows.suspend (h : Shows φ σ) {timeout : Int} (hspot : φ.spot t = .at (.queued s timeout)) :
    Follows SemSys.step Shows σ (.ok (φ.suspend t s timeout)) := by
  have hstep : σ.step (.suspend t) = .ok (σ.suspend t s timeout) := by
    dsimp only [SemSys.step]
    rw [h.pc_at hspot]
  refine .one hstep ?_
  unfold SpinSys.suspend SemSys.suspend
  rw [h.pending]
  split
  · exact h.move (not_in_at hspot) rfl (fun _ => id) trivial rfl (fun _ => id) rfl rfl rfl h.ret
  · exact h.move (not_in_at hspot) rfl (fun _ => id) trivial rfl (fun _ => id) rfl rfl h.pending h.ret

theorem Shows.expire (h : Shows φ σ) {timeout : Int} (hspot : φ.spot t = .at (.blocked s timeout)) :
    Follows SemSys.step Shows σ (if timeout = semTimeoutInfinite then .ok φ
      else .ok (φ.goto t (.at (.expired s)))) := by
  by_cases hinf : timeout = semTimeoutInfinite
  · rw [if_pos hinf]
    exact .none h
  · rw [if_neg hinf]
    have hstep : σ.step (.expire t) = .ok (σ.goto t (.expired s)) := by
      dsimp only [SemSys.step]
      rw [h.pc_at hspot]
      exact if_neg hinf
    exact .one hstep
      (h.move (not_in_at hspot) rfl (fun _ => id) trivial rfl (fun _ => id) rfl rfl h.pending h.ret)

/-- A thread is in its receive in both systems or in neither. -/
theorem Shows.blocked_iff (h : Shows φ σ) {timeout : Int} :
    σ.pc u = .blocked s timeout ↔ φ.spot u = .at (.blocked s timeout) := by
  rw [h.pc]
  cases φ.spot u with
  | «at» pc => exact ⟨congrArg Spot.at, Spot.at.inj⟩
  | locking r c cnt => cases c <;> exact ⟨nofun, nofun⟩
  | inside r c rest => cases c <;> exact ⟨nofun, nofun⟩

theorem Shows.signal (h : Shows φ σ) (hspot : φ.spot t = .at (.signalling u)) :
    Follows SemSys.step Shows σ (φ.signal t u) := by
  have hstep : σ.step (.signal t) = σ.signal t u := by
    dsimp only [SemSys.step]
    rw [h.pc_at hspot]
  unfold SemSys.signal at hstep
  unfold SpinSys.signal
  by_cases hself : t ≠ u
  · rw [ensure_bind_of hself] at hstep ⊢
    split
    · next s timeout hblocked =>
      rw [h.pc_at hblocked] at hstep
      -- the thread wakes up, and then the call of the other one returns
      have hwoken : Shows (φ.goto u (.at (.woken s timeout))) (σ.goto u (.woken s timeout)) :=
        h.move (not_in_at hblocked) rfl (fun _ => id) trivial rfl (fun _ => id) rfl rfl h.pending h.ret
      have hspot' : (φ.goto u (.at (.woken s timeout))).spot t = .at (.signalling u) := by
        rw [← hspot]
        exact Function.update_of_ne hself ..
      exact .one hstep (hwoken.move (not_in_at hspot') rfl (fun _ => id) trivial rfl (fun _ => id) rfl rfl
        h.pending (congrArg (Function.update · t 0) h.ret))
    · next hno =>
      have hpending : Function.update σ.pending u true = Function.update φ.pending u true :=
        congrArg (Function.update · u true) h.pending
      split at hstep
      · next s timeout hblocked => exact absurd (h.blocked_iff.mp hblocked) (hno s timeout)
      · exact .one hstep (h.move (not_in_at hspot) rfl (fun _ => id) trivial rfl (fun _ => id) rfl rfl
          hpending (congrArg (Function.update · t 0) h.ret))
  · rw [ensure_bind_of_not hself] at hstep ⊢
    exact .error hstep

/-- **A step of the interleaved system is none or one of `SemSys`.** -/
theorem Shows.step (h : Shows φ σ) (a : Act) : Follows SemSys.step Shows σ (φ.step .sparc a) := by
  cases a with
  | wait t s timeout =>
    dsimp only [SpinSys.step]
    split
    · next hspot => exact h.wait hspot s timeout
    · exact .none h
  | post t s =>
    dsimp only [SpinSys.step]
    split
    · next hspot => exact h.begin hspot rfl trivial
    · exact .none h
  | check t =>
    dsimp only [SpinSys.step]
    split
    · next s timeout hspot => exact h.begin hspot rfl trivial
    · exact .none h
  | giveUp t =>
    dsimp only [SpinSys.step]
    split
    · next s hspot => exact h.begin hspot rfl trivial
    · exact .none h
  | attempt t =>
    dsimp only [SpinSys.step]
    split
    · next s c cnt hspot => exact .none (h.attempt hspot)
    · exact .none h
  | access t =>
    dsimp only [SpinSys.step]
    split
    · next s c f k hspot => exact .none (h.access hspot)
    · exact .none h
  | unlock t =>
    dsimp only [SpinSys.step]
    split
    · next s c a hspot => exact h.unlock hspot
    · exact .none h
  | suspend t =>
    dsimp only [SpinSys.step]
    split
    · next s timeout hspot => exact h.suspend hspot
    · exact .none h
  | expire t =>
    dsimp only [SpinSys.step]
    split
    · next s timeout hspot => exact h.expire hspot
    · exact .none h
  | signal t =>
    dsimp only [SpinSys.step]
    split
    · next thr hspot => exact h.signal hspot
    · exact .none h

theorem shows_start (sems : Nat → Sem) : Shows (start sems) (SemSys.start sems) :=
  ⟨fun _ => rfl, rfl, rfl, fun _ => trivial, fun _ _ _ h => h.elim, fun _ _ h => h.elim, fun _ _ => rfl,
    nofun⟩

/-- **The sections of the semaphores are atomic.**  On SPARC, and for any number of threads on any number of
semaphores that start as `wrm_sem_init` leaves them, no interleaving of the attempts to lock and of the
single accesses behind them stops the program.  At most one thread is behind the lock of a semaphore.  And
what has happened has happened in `SemSys` as well, where a section is one step. -/
theorem run_refines {sems : Nat → Sem} (hfresh : ∀ s, (sems s).Fresh) (acts : List Act) :
    ∃ φ, runAll (SpinSys.step .sparc) (start sems) acts = .ok φ ∧
      (∀ t u s, (φ.spot t).In s → (φ.spot u).In s → t = u) ∧
      ∃ (as : List SemSys.Act) (σ : SemSys), runAll SemSys.step (SemSys.start sems) as = .ok σ ∧
        (∀ t, σ.pc t = (φ.spot t).pc) ∧ σ.pending = φ.pending ∧ σ.ret = φ.ret ∧
        ∀ s, (∀ t, ¬ (φ.spot t).In s) → σ.sem s = φ.sem s := by
  have hsim := runAll_simulation (fun φ σ a (h : Shows φ σ) => h.step a) acts (shows_start sems)
  cases hrun : runAll (SpinSys.step .sparc) (start sems) acts with
  | error e =>
    rw [hrun] at hsim
    obtain ⟨as, has⟩ := hsim
    obtain ⟨σ, hok, -⟩ := SemSys.run_inv hfresh as (Inv.start hfresh)
    rw [has] at hok
    cases hok
  | ok φ =>
    rw [hrun] at hsim
    obtain ⟨as, σ, has, h⟩ := hsim
    exact ⟨φ, rfl, h.alone, as, σ, has, h.pc, h.pending, h.ret, h.free⟩

/-- Two posts whose accesses come one after the other. -/
theorem twoPosts_refine :
    ∃ φ, runAll (SpinSys.step .sparc) (start fun _ => SemSys.counting 0)
        [.post 1 0, .post 2 0, .attempt 1, .attempt 2, .access 1, .access 2] = .ok φ ∧
      (∀ t u s, (φ.spot t).In s → (φ.spot u).In s → t = u) ∧
      ∃ (as : List SemSys.Act) (σ : SemSys),
        runAll SemSys.step (SemSys.start fun _ => SemSys.counting 0) as = .ok σ ∧
        (∀ t, σ.pc t = (φ.spot t).pc) ∧ σ.pending = φ.pending ∧ σ.ret = φ.ret ∧
        ∀ s, (∀ t, ¬ (φ.spot t).In s) → σ.sem s = φ.sem s :=
  run_refines (fun _ => ⟨false, false, 0, rfl⟩) _

/-! ## The other processors -/

/-- Some accesses of one thread, while the others stand still. -/
theorem run_accesses {A : Arch} (n : Nat) : ∀ {φ : SpinSys} {code : Code Sem (Except Stop After)},
    φ.spot t = .inside s c code →
    runAll (SpinSys.step A) φ (List.replicate n (.access t)) = .ok { φ with
      sem := Function.update φ.sem s (code.after n (φ.sem s)).2
      spot := Function.update φ.spot t (.inside s c (code.after n (φ.sem s)).1) } := by
  induction n with
  | zero =>
    intro φ code hspot
    simp [runAll, Code.after, ← hspot]
  | succ n ih =>
    intro φ code hspot
    cases code with
    | ret a =>
      have hstep : φ.step A (.access t) = .ok φ := by
        dsimp only [SpinSys.step]
        rw [hspot]
      rw [List.replicate_succ]
      unfold runAll
      rw [hstep, ok_bind, ih hspot]
      cases n <;> rfl
    | step f k =>
      have hstep : φ.step A (.access t) = .ok (φ.access t s c f k) := by
        dsimp only [SpinSys.step]
        rw [hspot]
      have hspot' : (φ.access t s c f k).spot t = .inside s c (k (φ.sem s)) := Function.update_self ..
      rw [List.replicate_succ]
      unfold runAll
      rw [hstep, ok_bind, ih hspot']
      simp [SpinSys.access, goto, Code.after]

/-- The same by what is left of the section. -/
theorem run_after {A : Arch} (n : Nat) {code code' : Code Sem (Except Stop After)} {sem : Sem}
    (hspot : φ.spot t = .inside s c code) (hafter : code.after n (φ.sem s) = (code', sem)) :
    ∃ φ', runAll (SpinSys.step A) φ (List.replicate n (.access t)) = .ok φ' ∧
      φ'.sem = Function.update φ.sem s sem ∧ φ'.spot = Function.update φ.spot t (.inside s c code') := by
  refine ⟨_, run_accesses n hspot, ?_, ?_⟩
  · dsimp only
    rw [hafter]
  · dsimp only
    rw [hafter]

/-- A post that finds nobody in the queue, up to the read of `sem->value++`. -/
theorem after_postCode {sem : Sem} (self : Nat) (hmax : sem.value ≠ semValueMax)
    (hempty : sem.ring.wp = sem.ring.rp) :
    (Sem.postCode self).after 4 sem = (Sem.putCode sem.value, sem) := by
  unfold Sem.postCode
  simp [Code.after, Code.read, bind, Code.bind, hmax, hempty]

/-- And the rest of it. -/
theorem after_putCode {sem : Sem} (value : Nat) (hcount : sem.binary = false) :
    (Sem.putCode value).after 2 sem = (.ret (.ok (.returns 0)), { sem with value := value + 1 }) := by
  unfold Sem.putCode
  simp [Code.after, Code.read, Code.write, bind, Code.bind, hcount, pure]

/-- Where nothing is tested a thread that posts gets into the section. -/
theorem run_letIn {A : Arch} (hA : A ≠ .sparc) (ht : φ.spot t = .at .out) :
    ∃ φ', runAll (SpinSys.step A) φ [.post t s, .attempt t] = .ok φ' ∧ φ'.sem = φ.sem ∧
      φ'.spot = Function.update φ.spot t (.inside s .post (Sem.postCode t)) := by
  have htas : ∀ w, testAndSet A w = (0, w) := by
    intro w
    cases A with
    | sparc => exact absurd rfl hA
    | arm => rfl
    | x86 => rfl
    | x86_64 => rfl
  have hpost : φ.step A (.post t s) = .ok (φ.goto t (.locking s .post 0)) := by
    dsimp only [SpinSys.step]
    rw [ht]
  have hlocking : (φ.goto t (.locking s .post 0)).spot t = .locking s .post 0 := Function.update_self ..
  have hattempt : (φ.goto t (.locking s .post 0)).step A (.attempt t) =
      .ok ((φ.goto t (.locking s .post 0)).attempt A t s .post 0) := by
    dsimp only [SpinSys.step]
    rw [hlocking]
  refine ⟨_, bind_eq_ok.mpr ⟨_, hpost, bind_eq_ok.mpr ⟨_, hattempt, rfl⟩⟩, ?_, ?_⟩
  · unfold SpinSys.attempt
    rw [htas]
    rfl
  · unfold SpinSys.attempt
    rw [htas]
    exact Function.update_idem ..

/-- The end of a section whose call returns. -/
theorem step_unlock {A : Arch} {rc : Int} (hspot : φ.spot t = .inside s c (.ret (.ok (.returns rc)))) :
    φ.step A (.unlock t) = .ok (φ.unlock t s c (.returns rc)) := by
  dsimp only [SpinSys.step]
  rw [hspot]
  rfl

/-- Two posts that both read the value before one of them has written it. -/
def postsTwice (t u s : Nat) : List Act :=
  let enter (t : Nat) : List Act := [.post t s, .attempt t]
  let accesses (n t : Nat) : List Act := List.replicate n (.access t)
  enter t ++ enter u ++ accesses 4 t ++ accesses 4 u ++ accesses 2 t ++ accesses 2 u ++
    [.unlock t, .unlock u]

/-- **Without `ldstub` a post is lost.**  On the other processors, and in any state, two threads that post
a counting semaphore in whose queue nobody is can both succeed and have its value raised by one only. -/
theorem postsTwice_lose {A : Arch} (hA : A ≠ .sparc) (htu : t ≠ u) (ht : φ.spot t = .at .out)
    (hu : φ.spot u = .at .out) (hcount : (φ.sem s).binary = false) (hmax : (φ.sem s).value ≠ semValueMax)
    (hempty : (φ.sem s).ring.wp = (φ.sem s).ring.rp) :
    ∃ φ', runAll (SpinSys.step A) φ (postsTwice t u s) = .ok φ' ∧
      φ'.ret t = 0 ∧ φ'.ret u = 0 ∧ (φ'.sem s).value = (φ.sem s).value + 1 := by
  obtain ⟨φ₁, hrun₁, hsem₁, hspot₁⟩ := run_letIn (s := s) hA ht
  have hu₁ : φ₁.spot u = .at .out := by rw [hspot₁, Function.update_of_ne htu.symm, hu]
  obtain ⟨φ₂, hrun₂, hsem₂, hspot₂⟩ := run_letIn (s := s) hA hu₁
  have ht₂ : φ₂.spot t = .inside s .post (Sem.postCode t) := by
    rw [hspot₂, Function.update_of_ne htu, hspot₁, Function.update_self]
  have hu₂ : φ₂.spot u = .inside s .post (Sem.postCode u) := by rw [hspot₂, Function.update_self]
  -- the one reads the value and then the other
  have hread₂ : (Sem.postCode t).after 4 (φ₂.sem s) = (Sem.putCode (φ.sem s).value, φ.sem s) := by
    rw [hsem₂, hsem₁, after_postCode t hmax hempty]
  obtain ⟨φ₃, hrun₃, hsem₃, hspot₃⟩ := run_after (A := A) 4 ht₂ hread₂
  rw [hsem₂, hsem₁, Function.update_eq_self] at hsem₃
  have ht₃ : φ₃.spot t = .inside s .post (Sem.putCode (φ.sem s).value) := by
    rw [hspot₃, Function.update_self]
  have hu₃ : φ₃.spot u = .inside s .post (Sem.postCode u) := by
    rw [hspot₃, Function.update_of_ne htu.symm, hu₂]
  have hread₃ : (Sem.postCode u).after 4 (φ₃.sem s) = (Sem.putCode (φ.sem s).value, φ.sem s) := by
    rw [hsem₃, after_postCode u hmax hempty]
  obtain ⟨φ₄, hrun₄, hsem₄, hspot₄⟩ := run_after (A := A) 4 hu₃ hread₃
  rw [hsem₃, Function.update_eq_self] at hsem₄
  have ht₄ : φ₄.spot t = .inside s .post (Sem.putCode (φ.sem s).value) := by
    rw [hspot₄, Function.update_of_ne htu, ht₃]
  have hu₄ : φ₄.spot u = .inside s .post (Sem.putCode (φ.sem s).value) := by
    rw [hspot₄, Function.update_self]
  -- both write the same value
  have hcount₄ : (φ₄.sem s).binary = false := by rw [hsem₄, hcount]
  obtain ⟨φ₅, hrun₅, hsem₅, hspot₅⟩ := run_after (A := A) 2 ht₄ (after_putCode _ hcount₄)
  have hu₅ : φ₅.spot u = .inside s .post (Sem.putCode (φ.sem s).value) := by
    rw [hspot₅, Function.update_of_ne htu.symm, hu₄]
  have hcount₅ : (φ₅.sem s).binary = false := by
    rw [hsem₅, Function.update_self]
    exact hcount₄
  obtain ⟨φ₆, hrun₆, hsem₆, hspot₆⟩ := run_after (A := A) 2 hu₅ (after_putCode _ hcount₅)
  have ht₆ : φ₆.spot t = .inside s .post (.ret (.ok (.returns 0))) := by
    rw [hspot₆, Function.update_of_ne htu, hspot₅, Function.update_self]
  have hu₆ : (φ₆.unlock t s .post (.returns 0)).spot u = .inside s .post (.ret (.ok (.returns 0))) := by
    refine (Function.update_of_ne htu.symm ..).trans ?_
    rw [hspot₆, Function.update_self]
  have hrun₇ : runAll (SpinSys.step A) φ₆ [.unlock t, .unlock u] =
      .ok ((φ₆.unlock t s .post (.returns 0)).unlock u s .post (.returns 0)) := by
    unfold runAll
    rw [step_unlock ht₆, ok_bind]
    unfold runAll
    rw [step_unlock hu₆]
    rfl
  refine ⟨(φ₆.unlock t s .post (.returns 0)).unlock u s .post (.returns 0), ?_, ?_, ?_, ?_⟩
  · exact runAll_append_ok (runAll_append_ok (runAll_append_ok (runAll_append_ok (runAll_append_ok
      (runAll_append_ok hrun₁ hrun₂) hrun₃) hrun₄) hrun₅) hrun₆) hrun₇
  · exact (Function.update_of_ne htu ..).trans (Function.update_self ..)
  · exact Function.update_self ..
  · change (φ₆.sem s).value = _
    rw [hsem₆, Function.update_self]

theorem postsTwice_x86 :
    ∃ φ', runAll (SpinSys.step .x86) (start fun _ => SemSys.counting 0) (postsTwice 1 2 0) = .ok φ' ∧
      φ'.ret 1 = 0 ∧ φ'.ret 2 = 0 ∧ (φ'.sem 0).value = 0 + 1 :=
  postsTwice_lose (by decide) (by decide) rfl rfl rfl (by decide) rfl

end SpinSys

end Wrmos
