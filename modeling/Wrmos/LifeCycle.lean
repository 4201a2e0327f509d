import Wrmos.SyscallsSpec
import Wrmos.BitmapSpec
import Mathlib.Data.Finset.Card
import Mathlib.Data.Nat.ModEq

/-!
# Threads, their tasks, and what refers to them

A run of the management of threads: the system calls of the running thread, the start of an active thread
by a message, and the choice of the running thread.  `Refs` says that nothing refers to a thread or a task
that is gone, and that a task is allocated exactly as long as a thread refers to it.

The code judges a task by the bitmap of its UTCBs.  What carries `Refs` through a run is that the bitmap
counts the threads of the task that were activated (`Seated`), each at a position of its own.  `Careful` is
what a caller of `syscall_thread_control` has to see to, because the call does not: the source has the
checks as a `TODO` or not at all.
-/

namespace Wrmos

open Lib

namespace Life

/-- The thread was activated. -/
def Active (l : Life) : Prop := l.state ≠ .idle ∧ l.state ≠ .inactive

/-- The thread was started. -/
def Started (l : Life) : Prop := l.Active ∧ l.state ≠ .active

instance (l : Life) : Decidable l.Active := by
  unfold Active
  infer_instance

instance (l : Life) : Decidable l.Started := by
  unfold Started
  infer_instance

end Life

/-! ## The seats of a task -/

/-- The threads that have a UTCB in the task; the kernel thread, which is number 0, runs without one. -/
def holders (l : Nat → Life) (tsk : Nat) : Finset Nat :=
  (Finset.range threadsMax).filter fun t => t ≠ 0 ∧ (l t).Active ∧ (l t).ident.task = tsk

/-- The thread with this UTCB sits at a position of the task. -/
def Task.Seats (A : Arch) (x : Task) (uutcb : Nat) : Prop :=
  ∃ p, Bitmap.Plain A p ∧ x.utcbs.get A p = some true ∧
    uutcb = A.add (Fpage.addr A x.utcbArea) (p * pageSz)

/-- The bitmap of the task counts its threads, and each has a position of its own. -/
structure Seated (A : Arch) (x : Task) (l : Nat → Life) (tsk : Nat) : Prop where
  count : x.utcbs.count = (holders l tsk).card
  capacity : x.utcbs.capacity ≤ Bitmap.maxBits
  seat : ∀ t ∈ holders l tsk, x.Seats A (l t).ident.localid
  apart : ∀ t ∈ holders l tsk, ∀ u ∈ holders l tsk, (l t).ident.localid = (l u).ident.localid → t = u

variable {A : Arch} {P : Platform} {x y : Task} {l l' : Nat → Life} {t u tsk : Nat}

theorem mem_holders : t ∈ holders l tsk ↔
    t < threadsMax ∧ t ≠ 0 ∧ (l t).Active ∧ (l t).ident.task = tsk := by
  simp [holders]

theorem card_holders_le : (holders l tsk).card ≤ threadsMax :=
  (Finset.card_filter_le _ _).trans_eq (Finset.card_range _)

/-- Seats are kept when the threads with a UTCB in the task are the same. -/
theorem Seated.congr (h : Seated A x l tsk) (hx : y.utcbs = x.utcbs ∧ y.utcbArea = x.utcbArea)
    (hl : ∀ u, (u ∈ holders l' tsk ↔ u ∈ holders l tsk) ∧
      (u ∈ holders l tsk → (l' u).ident.localid = (l u).ident.localid)) : Seated A y l' tsk := by
  have hset : holders l' tsk = holders l tsk := Finset.ext fun u => (hl u).1
  refine ⟨?_, ?_, fun t ht => ?_, fun t ht u hu heq => ?_⟩
  · rw [hset, hx.1]
    exact h.count
  · rw [hx.1]
    exact h.capacity
  · rw [hset] at ht
    rw [(hl t).2 ht]
    unfold Task.Seats
    rw [hx.1, hx.2]
    exact h.seat t ht
  · rw [hset] at ht hu
    rw [(hl t).2 ht, (hl u).2 hu] at heq
    exact h.apart t ht u hu heq

/-- A position of a task, from its address; an address below the area is none of its positions. -/
theorem seat_eq {p : Nat} {a : Nat} (hp : p < 64) (hle : a ≤ A.add a (p * pageSz)) :
    (A.add a (p * pageSz) - a) / pageSz % 2 ^ 32 = p := by
  unfold Arch.add pageSz at *
  have hlt : a < 2 ^ A.wordBits := lt_of_le_of_lt hle (Nat.mod_lt _ (Nat.two_pow_pos _))
  have hadd : (a + p * 4096) % 2 ^ A.wordBits = a + p * 4096 := by
    rcases Nat.lt_or_ge (a + p * 4096) (2 ^ A.wordBits) with h | h
    · exact Nat.mod_eq_of_lt h
    · -- the sum would wrap around to an address below the area
      exfalso
      have hbig : 2 ^ 32 ≤ 2 ^ A.wordBits := Nat.pow_le_pow_right (by decide) (by cases A <;> decide)
      rw [Nat.mod_eq_sub_mod h, Nat.mod_eq_of_lt (by omega)] at hle
      omega
  rw [hadd, Nat.add_sub_cancel_left, Nat.mul_div_cancel _ (by decide), Nat.mod_eq_of_lt (by omega)]

theorem Task.Seats.lt {uutcb : Nat} (hcap : x.utcbs.capacity ≤ Bitmap.maxBits) (h : x.Seats A uutcb) :
    ∃ p < 64, Bitmap.Plain A p ∧ x.utcbs.get A p = some true ∧
      uutcb = A.add (Fpage.addr A x.utcbArea) (p * pageSz) := by
  obtain ⟨p, hplain, hget, huutcb⟩ := h
  refine ⟨p, ?_, hplain, hget, huutcb⟩
  unfold Bitmap.get at hget
  split_ifs at hget with hout
  exact lt_of_lt_of_le (not_le.mp hout) hcap

/-- Two positions have two addresses. -/
theorem add_page_inj {p q a : Nat} (hp : p < 64) (hq : q < 64)
    (h : A.add a (p * pageSz) = A.add a (q * pageSz)) : p = q := by
  have hmod : p * 4096 ≡ q * 4096 [MOD 2 ^ A.wordBits] := Nat.ModEq.add_left_cancel' a h
  have hbig : 2 ^ 32 ≤ 2 ^ A.wordBits := Nat.pow_le_pow_right (by decide) (by cases A <;> decide)
  have heq := hmod.eq_of_lt_of_lt (by omega) (by omega)
  omega

/-- **A thread gets a seat**: its position was free, so nobody sits there. -/
theorem Seated.alloc {uutcb globid : Nat} {pager : Option Nat} (h : Seated A x l tsk)
    (ht : t ∉ holders l tsk) (htmax : t < threadsMax) (hzero : t ≠ 0)
    (hok : x.allocUtcbUspace A = .ok (uutcb, y)) (hne : uutcb ≠ 0)
    (hl : ∀ u, l' u = if u = t then ⟨⟨tsk, uutcb, globid⟩, .active, pager⟩ else l u) : Seated A y l' tsk := by
  obtain ⟨-, hok⟩ := ensure_bind_eq_ok.mp hok
  split at hok
  · exact absurd (Prod.mk.inj (Except.ok.inj hok)).1.symm hne
  rename_i pos b hfree
  obtain ⟨rfl, rfl⟩ := Prod.mk.inj (Except.ok.inj hok)
  have hself := hl t
  rw [if_pos rfl] at hself
  have hother : ∀ u, u ≠ t → l' u = l u := fun u hu => (hl u).trans (if_neg hu)
  have hset : holders l' tsk = insert t (holders l tsk) := by
    ext u
    by_cases hu : u = t
    · subst hu
      simp [mem_holders, hself, htmax, hzero, Life.Active]
    · simp [mem_holders, hother u hu, hu]
  have hcard : (holders l tsk).card ≤ threadsMax := card_holders_le
  obtain ⟨hpos, hplain, hwas, hcount, hcapacity, htaken, hsame⟩ :=
    Bitmap.getfree_spec (by rw [h.count]; unfold threadsMax at hcard; omega) hfree
  have hlt : pos < 64 := lt_of_lt_of_le hpos h.capacity
  -- whoever sat in the task sits at another position
  have hold : ∀ u ∈ holders l tsk, ∃ p < 64, p ≠ pos ∧ Bitmap.Plain A p ∧ x.utcbs.get A p = some true ∧
      (l u).ident.localid = A.add (Fpage.addr A x.utcbArea) (p * pageSz) := by
    intro u hu
    obtain ⟨p, hp, hplain', hget, huutcb⟩ := (h.seat u hu).lt h.capacity
    refine ⟨p, hp, ?_, hplain', hget, huutcb⟩
    rintro rfl
    rw [hwas] at hget
    cases hget
  refine ⟨?_, ?_, fun u hu => ?_, fun u hu v hv heq => ?_⟩
  · rw [hset, Finset.card_insert_of_notMem ht, ← h.count]
    exact hcount
  · exact hcapacity.le.trans h.capacity
  · rw [hset, Finset.mem_insert] at hu
    rcases hu with rfl | hu
    · rw [hself]
      exact ⟨pos, hplain, htaken, rfl⟩
    · obtain ⟨p, -, hne', hplain', hget, huutcb⟩ := hold u hu
      rw [hother u fun hut => ht (hut ▸ hu)]
      exact ⟨p, hplain', (hsame p hplain' hne').trans hget, huutcb⟩
  · rw [hset, Finset.mem_insert] at hu hv
    rcases hu with rfl | hu
    · rcases hv with rfl | hv
      · rfl
      · obtain ⟨p, hp, hne', -, -, huutcb⟩ := hold v hv
        rw [hself, hother v fun hvt => ht (hvt ▸ hv), huutcb] at heq
        exact absurd (add_page_inj hlt hp heq).symm hne'
    · rcases hv with rfl | hv
      · obtain ⟨p, hp, hne', -, -, huutcb⟩ := hold u hu
        rw [hself, hother u fun hut => ht (hut ▸ hu), huutcb] at heq
        exact absurd (add_page_inj hp hlt heq) hne'
      · rw [hother u fun hut => ht (hut ▸ hu), hother v fun hvt => ht (hvt ▸ hv)] at heq
        exact h.apart u hu v hv heq

/-- **A thread leaves its seat**: the position that is freed is its own. -/
theorem Seated.free (h : Seated A x l tsk) (ht : t ∈ holders l tsk)
    (hok : x.freeUtcbUspace A (l t).ident.localid = .ok y)
    (hl : ∀ u, l' u = if u = t then { l u with state := .idle } else l u) : Seated A y l' tsk := by
  obtain ⟨p, hp, hplain, hget, huutcb⟩ := (h.seat t ht).lt h.capacity
  obtain ⟨-, hok⟩ := ensure_bind_eq_ok.mp hok
  obtain ⟨hle, hok⟩ := ensure_bind_eq_ok.mp hok
  rw [huutcb] at hle hok
  rw [seat_eq hp hle] at hok
  have hcard : (holders l tsk).card ≤ threadsMax := card_holders_le
  have hpos : 0 < (holders l tsk).card := Finset.card_pos.mpr ⟨t, ht⟩
  obtain ⟨b, hclear, hcount, hcapacity, hsame⟩ := Bitmap.clear_spec hplain hget (by rw [h.count]; exact hpos)
    (by rw [h.count]; unfold threadsMax at hcard; omega)
  rw [hclear] at hok
  obtain rfl := Except.ok.inj hok
  have hother : ∀ u, u ≠ t → l' u = l u := fun u hu => (hl u).trans (if_neg hu)
  have hset : holders l' tsk = (holders l tsk).erase t := by
    ext u
    by_cases hu : u = t
    · subst hu
      simp [mem_holders, hl, Life.Active]
    · simp [mem_holders, hother u hu, hu]
  refine ⟨?_, ?_, fun u hu => ?_, fun u hu v hv heq => ?_⟩
  · rw [hset, Finset.card_erase_of_mem ht, ← h.count]
    exact hcount
  · exact hcapacity.le.trans h.capacity
  · rw [hset, Finset.mem_erase] at hu
    obtain ⟨q, -, hplain', hget', huutcb'⟩ := (h.seat u hu.2).lt h.capacity
    rw [hother u hu.1]
    refine ⟨q, hplain', (hsame q hplain' ?_).trans hget', huutcb'⟩
    rintro rfl
    exact hu.1 (h.apart u hu.2 t ht (huutcb'.trans huutcb.symm))
  · rw [hset, Finset.mem_erase] at hu hv
    rw [hother u hu.1, hother v hv.1] at heq
    exact h.apart u hu.2 v hv.2 heq

namespace Sys

variable {σ σ' : Sys} {x y : Option Nat} {L : Life}

/-! ## Moves -/

/-- What the run is made of: a system call of the running thread, the thread-start message to a thread
that is active, and a switch to a thread that is ready. -/
inductive Move where
  | call (c : Call)
  | start (t : Nat)
  | switch (t now : Nat)

/-- One move; a move that cannot be made changes nothing. -/
def move (A : Arch) (P : Platform) (σ : Sys) : Move → Except Stop Sys
  | .call c => do
    let r ← σ.doCall A P c
    pure r.2
  | .start t =>
    if (σ.thr t).state = .active then do
      let k ← σ.k.startThread A t
      pure { σ with k := k }
    else .ok σ
  | .switch t now =>
    if (σ.thr t).state = .ready then .ok { σ with k := σ.k.switchTo t now } else .ok σ

/-! ## References -/

/-- The lives of the threads. -/
def lives (σ : Sys) (t : Nat) : Life := (σ.thr t).life

/-- There is such a thread. -/
def Exists (σ : Sys) (t : Nat) : Prop := (σ.lives t).state ≠ .idle

/-- **References are good**: a task is allocated as long as a thread refers to it, a handler of an interrupt
is a thread, and so is the pager of a started thread.  The kernel thread and sigma0, which are 0 and 1, start
without a pager. -/
structure Refs (A : Arch) (σ : Sys) : Prop where
  task : ∀ tsk, σ.Allocated tsk ↔ ∃ t, σ.Exists t ∧ (σ.thr t).task = tsk
  handler : ∀ irq, (σ.k.ints irq).handler ≠ Thrid.nil →
    ∃ t, σ.k.ts.findNumber (Thrid.number A (σ.k.ints irq).handler) = some t
  pager : ∀ t p, (σ.lives t).Started → (σ.thr t).pager = some p → σ.Exists p
  paged : ∀ t, (σ.lives t).Started → t ≠ 0 → t ≠ 1 → (σ.thr t).pager ≠ none

/-- The invariant: references are good, and the seats of every task are.  While a call is on its way, there
may be a task `x` that no thread refers to. -/
structure Kept (A : Arch) (x : Option Nat) (σ : Sys) : Prop where
  pool : σ.tasks.Wf
  range : ∀ t, σ.Exists t → t < threadsMax
  task : ∀ tsk, σ.Allocated tsk ↔ (∃ t, σ.Exists t ∧ (σ.lives t).ident.task = tsk) ∨ x = some tsk
  handler : ∀ irq, (σ.k.ints irq).handler ≠ Thrid.nil →
    ∃ t, Thrid.number A (σ.k.ints irq).handler = t + threadNumberMin ∧ σ.Exists t
  pager : ∀ t, (σ.lives t).Started → (∀ p, (σ.lives t).pager = some p → σ.Exists p) ∧
    (t ≠ 0 → t ≠ 1 → (σ.lives t).pager ≠ none)
  seated : ∀ tsk, σ.Allocated tsk → Seated A (σ.task tsk) σ.lives tsk

theorem findNumber_eq {t : Nat} (htmax : t < threadsMax) (h : σ.Exists t) :
    σ.k.ts.findNumber (t + threadNumberMin) = some t := by
  unfold Threads.findNumber
  rw [if_pos ⟨by omega, by omega⟩, Nat.add_sub_cancel]
  exact if_neg h

theorem Kept.refs (h : σ.Kept A none) : σ.Refs A where
  task := fun tsk => (h.task tsk).trans (by simp [lives, Thread.life, Thread.ident])
  handler := fun irq hne => by
    obtain ⟨t, hnum, hex⟩ := h.handler irq hne
    rw [hnum]
    exact ⟨t, findNumber_eq (h.range t hex) hex⟩
  pager := fun t p hst hp => (h.pager t hst).1 p hp
  paged := fun t hst hzero hone => (h.pager t hst).2 hzero hone

/-! ## One thread changes -/

/-- The lives of all threads but `t` are as before. -/
def Becomes (σ σ' : Sys) (t : Nat) (L : Life) : Prop := ∀ u, σ'.lives u = if u = t then L else σ.lives u

theorem Becomes.self (h : σ.Becomes σ' t L) : σ'.lives t = L := (h t).trans (if_pos rfl)

theorem Becomes.other (h : σ.Becomes σ' t L) (hu : u ≠ t) : σ'.lives u = σ.lives u :=
  (h u).trans (if_neg hu)

/-- Who has a property behind the change. -/
theorem Becomes.exists_iff {p : Life → Prop} (h : σ.Becomes σ' t L) :
    (∃ u, p (σ'.lives u)) ↔ p L ∨ ∃ u, u ≠ t ∧ p (σ.lives u) := by
  constructor
  · rintro ⟨u, hu⟩
    by_cases hut : u = t
    · rw [hut, h.self] at hu
      exact .inl hu
    · rw [h.other hut] at hu
      exact .inr ⟨u, hut, hu⟩
  · rintro (hL | ⟨u, hut, hu⟩)
    · exact ⟨t, h.self ▸ hL⟩
    · exact ⟨u, h.other hut ▸ hu⟩

/-- Seats are kept when the thread has no UTCB in the task before and behind the change, or keeps it. -/
theorem Becomes.seated {a b : Task} (h : σ.Becomes σ' t L) (hs : Seated A a σ.lives tsk)
    (hx : b.utcbs = a.utcbs ∧ b.utcbArea = a.utcbArea)
    (hact : t ≠ 0 → (L.Active ∧ L.ident.task = tsk ↔ (σ.lives t).Active ∧ (σ.lives t).ident.task = tsk))
    (hid : t ≠ 0 → L.Active → L.ident.task = tsk → L.ident.localid = (σ.lives t).ident.localid) :
    Seated A b σ'.lives tsk := by
  refine hs.congr hx fun u => ?_
  by_cases hut : u = t
  · subst hut
    rw [mem_holders, mem_holders, h.self]
    by_cases hzero : u = 0
    · simp [hzero]
    · have hiff := hact hzero
      refine ⟨by tauto, fun hu => ?_⟩
      have hnew := hiff.mpr ⟨hu.2.2.1, hu.2.2.2⟩
      exact hid hzero hnew.1 hnew.2
  · rw [mem_holders, mem_holders, h.other hut]
    exact ⟨Iff.rfl, fun _ => rfl⟩

/-- A thread changes, and does not go away. -/
theorem Kept.change (h : σ.Kept A x) (hl : σ.Becomes σ' t L) (hstay : σ.Exists t → L.state ≠ .idle)
    (hpool : σ'.tasks.Wf) (hints : ∀ irq, (σ'.k.ints irq).handler = (σ.k.ints irq).handler)
    (hrange : L.state ≠ .idle → t < threadsMax)
    (htask : ∀ tsk, σ'.Allocated tsk ↔ ((L.state ≠ .idle ∧ L.ident.task = tsk) ∨
      ∃ u, u ≠ t ∧ σ.Exists u ∧ (σ.lives u).ident.task = tsk) ∨ y = some tsk)
    (hpager : L.Started → (∀ p, L.pager = some p → σ.Exists p) ∧ (t ≠ 0 → t ≠ 1 → L.pager ≠ none))
    (hseated : ∀ tsk, σ'.Allocated tsk → Seated A (σ'.task tsk) σ'.lives tsk) : σ'.Kept A y := by
  have hkeep : ∀ u, σ.Exists u → σ'.Exists u := by
    intro u hu
    unfold Exists
    by_cases hut : u = t
    · subst hut
      rw [hl.self]
      exact hstay hu
    · rw [hl.other hut]
      exact hu
  refine ⟨hpool, fun u hu => ?_, fun tsk => ?_, fun irq hne => ?_, fun u hst => ?_, hseated⟩
  · by_cases hut : u = t
    · subst hut
      unfold Exists at hu
      rw [hl.self] at hu
      exact hrange hu
    · unfold Exists at hu
      rw [hl.other hut] at hu
      exact h.range u hu
  · rw [htask tsk]
    exact or_congr_left (hl.exists_iff (p := fun l => l.state ≠ .idle ∧ l.ident.task = tsk)).symm
  · rw [hints irq] at hne ⊢
    obtain ⟨u, hnum, hu⟩ := h.handler irq hne
    exact ⟨u, hnum, hkeep u hu⟩
  · by_cases hut : u = t
    · subst hut
      rw [hl.self] at hst ⊢
      exact ⟨fun p hp => hkeep p ((hpager hst).1 p hp), (hpager hst).2⟩
    · rw [hl.other hut] at hst ⊢
      exact ⟨fun p hp => hkeep p ((h.pager u hst).1 p hp), (h.pager u hst).2⟩

/-- The lives, the tasks, their seats and the handlers are as before. -/
theorem Kept.same (h : σ.Kept A x) (hl : ∀ u, σ'.lives u = σ.lives u) (hpool : σ'.tasks = σ.tasks)
    (htask : ∀ tsk, (σ'.task tsk).utcbs = (σ.task tsk).utcbs ∧
      (σ'.task tsk).utcbArea = (σ.task tsk).utcbArea)
    (hints : ∀ irq, (σ'.k.ints irq).handler = (σ.k.ints irq).handler) : σ'.Kept A x := by
  have hlives : σ'.lives = σ.lives := funext hl
  have hex : σ'.Exists = σ.Exists := by
    unfold Exists
    rw [hlives]
  have halloc : σ'.Allocated = σ.Allocated := by
    unfold Allocated
    rw [hpool]
  refine ⟨hpool ▸ h.pool, ?_, ?_, fun irq hne => ?_, ?_, fun tsk ht => ?_⟩
  · rw [hex]
    exact h.range
  · rw [hex, halloc, hlives]
    exact h.task
  · rw [hints irq] at hne ⊢
    rw [hex]
    exact h.handler irq hne
  · rw [hex, hlives]
    exact h.pager
  · rw [halloc] at ht
    rw [hlives]
    exact (h.seated tsk ht).congr (htask tsk) fun _ => ⟨Iff.rfl, fun _ => rfl⟩

/-- A write to a thread that is none of its life. -/
theorem Kept.upd {f : Thread → Thread} (h : σ.Kept A x) (hf : ∀ th, (f th).life = th.life) :
    (σ.updThr t f).Kept A x :=
  h.same (life_updThr hf) rfl (fun _ => ⟨rfl, rfl⟩) fun _ => rfl

theorem Kept.of_fail {r e : Nat} (h : σ.Kept A x) (he : (r, σ') = σ.fail e) : σ'.Kept A x := by
  obtain rfl : σ' = (σ.fail e).2 := congrArg Prod.snd he
  exact h.upd fun _ => rfl

/-- An idle thread refers to no task. -/
theorem exists_iff_of_idle (hidle : ¬ σ.Exists t) :
    (∃ u, σ.Exists u ∧ (σ.lives u).ident.task = tsk) ↔
      ∃ u, u ≠ t ∧ σ.Exists u ∧ (σ.lives u).ident.task = tsk := by
  constructor
  · rintro ⟨u, hu, htask⟩
    exact ⟨u, fun hut => hidle (hut ▸ hu), hu, htask⟩
  · rintro ⟨u, -, hu, htask⟩
    exact ⟨u, hu, htask⟩

/-! ## The operations -/

/-- **A new thread** is inactive, so it takes no seat; the task it is in may be new. -/
theorem Kept.createThread {globid schedid pagerid prio : Nat} (h : σ.Kept A x)
    (halloc : σ.Allocated tsk) (hx : x = none ∨ x = some tsk)
    (hok : σ.createThread A globid schedid pagerid tsk prio = .ok (σ', t)) : σ'.Kept A none := by
  have hl : σ.Becomes σ' t ⟨⟨tsk, (σ.thr t).uutcb, globid⟩, .inactive, (σ.thr t).pager⟩ :=
    createThread_life hok
  obtain ⟨hrange, ht, hidle, ts, -, rfl⟩ := createThread_eq_ok hok
  have hidle : ¬ σ.Exists t := fun hex => hex hidle
  refine h.change hl (fun hex => absurd hex hidle) h.pool (fun _ => rfl) (fun _ => by omega) (fun tsk' => ?_)
    (fun hst => absurd rfl hst.1.2) fun tsk' ht' => ?_
  · change σ.Allocated tsk' ↔ _
    have htask := h.task tsk'
    rw [exists_iff_of_idle hidle] at htask
    constructor
    · intro ha
      rcases htask.mp ha with hu | hnew
      · exact .inl (.inr hu)
      · rcases hx with rfl | rfl
        · cases hnew
        · exact .inl (.inl ⟨nofun, Option.some.inj hnew⟩)
    · rintro ((⟨-, rfl⟩ | hu) | hnone)
      · exact halloc
      · exact htask.mpr (.inl hu)
      · cases hnone
  · refine hl.seated (h.seated tsk' ht') ⟨rfl, rfl⟩ (fun _ => ?_) fun _ hact _ => absurd rfl hact.2
    exact iff_of_false (fun hact => hact.1.2 rfl) fun hact => hidle hact.1.1

theorem Kept.setUtcb {kioSz utcb : Nat} (h : σ.Kept A x) (hok : σ.setUtcb A kioSz t utcb = .ok σ') :
    σ'.Kept A x := by
  rcases setUtcb_eq_ok hok with ⟨-, rfl⟩ | ⟨-, -, pa, r, -, -, -, rfl⟩
  · exact h
  · exact h.same (fun _ => rfl) rfl (fun _ => ⟨rfl, rfl⟩) fun _ => rfl

theorem state_of_isActive {x : Thread} (h : x.isActive = false) : x.state = .inactive := by
  simpa [Thread.isActive] using h

/-- **An activated thread** takes a seat. -/
theorem Kept.activate (h : σ.Kept A none) (hzero : t ≠ 0) (hok : σ.activate A t = .ok σ') :
    σ'.Kept A none := by
  obtain ⟨uutcb, -, hlife⟩ := activate_life hok
  have hl : σ.Becomes σ' t ⟨⟨(σ.thr t).task, uutcb, (σ.thr t).globid⟩, .active, (σ.thr t).pager⟩ := hlife
  obtain ⟨hact, -, -, -, uutcb', a, m, ts, hva, halloc, -, hstate, rfl⟩ := activate_eq_ok hok
  have hinactive : (σ.lives t).state = .inactive := state_of_isActive hact
  have hex : σ.Exists t := fun hidle => by rw [hinactive] at hidle; cases hidle
  obtain rfl : uutcb' = uutcb := by
    have hself := congrArg (fun l => l.ident.localid) hl.self
    have hthr := congrArg (fun l => l.ident.localid) (Threads.setState_life hstate t)
    rw [if_pos rfl, Threads.thr_upd_self] at hthr
    exact hthr.symm.trans hself
  refine h.change hl (fun _ => nofun) h.pool (fun _ => rfl) (fun _ => h.range t hex) (fun tsk => ?_)
    (fun hst => absurd rfl hst.2) fun tsk ht => ?_
  · refine (h.task tsk).trans (or_congr_left ?_)
    constructor
    · rintro ⟨u, hu, htask⟩
      by_cases hut : u = t
      · exact .inl ⟨nofun, hut ▸ htask⟩
      · exact .inr ⟨u, hut, hu, htask⟩
    · rintro (⟨-, htask⟩ | ⟨u, -, hu⟩)
      · exact ⟨t, hex, htask⟩
      · exact ⟨u, hu⟩
  · by_cases htsk : tsk = (σ.thr t).task
    · subst htsk
      change Seated A ((σ.putTask (σ.thr t).task a).task _) _ _
      rw [task_putTask, if_pos rfl]
      refine (h.seated _ ht).alloc (fun hmem => ?_) (h.range t hex) hzero halloc hva hl
      exact (mem_holders.mp hmem).2.2.1.2 hinactive
    · change Seated A ((σ.putTask (σ.thr t).task a).task _) _ _
      rw [task_putTask, if_neg htsk]
      refine hl.seated (h.seated tsk ht) ⟨rfl, rfl⟩ (fun _ => ?_) fun _ _ hnew => absurd hnew.symm htsk
      exact iff_of_false (fun hnew => htsk hnew.2.symm) fun hold => hold.1.2 hinactive

/-- **A new task** has no thread. -/
theorem Kept.createTask {kupage : Nat} (h : σ.Kept A none) (hok : σ.createTask A kupage = .ok (σ', tsk)) :
    σ'.Kept A (some tsk) ∧ σ'.Allocated tsk := by
  obtain ⟨tasks, n, m, hpush, rfl, -, rfl⟩ := createTask_eq_ok hok
  have hfresh := NodeList.fresh_insertWhere h.pool hpush
  have hnew : ¬ σ.Allocated (n + 1) := fun ha => hfresh ha.2
  have halloc : ∀ tsk, Allocated ((({ σ with tasks := tasks } : Sys).putMem m).putTask (n + 1) Task.fresh) tsk ↔
      σ.Allocated tsk ∨ n + 1 = tsk := by
    intro tsk
    change (tsk ≠ 0 ∧ tsk - 1 ∈ tasks.nodes) ↔ _
    have hnodes : tsk - 1 ∈ tasks.nodes ↔ tsk - 1 ∈ σ.tasks.nodes ∨ tsk - 1 = n := by
      unfold NodeList.nodes
      rw [((NodeList.insertWhere_perm hpush).2.map Prod.fst).mem_iff, List.map_cons, List.mem_cons, or_comm]
    unfold Allocated
    rw [hnodes]
    constructor
    · rintro ⟨hne, hold | heq⟩
      · exact .inl ⟨hne, hold⟩
      · exact .inr (by omega)
    · rintro (⟨hne, hold⟩ | rfl)
      · exact ⟨hne, .inl hold⟩
      · exact ⟨by omega, .inr (by omega)⟩
  refine ⟨⟨NodeList.wf_insertWhere h.pool hpush, h.range, fun tsk => ?_, h.handler, h.pager,
    fun tsk ht => ?_⟩, (halloc _).mpr (.inr rfl)⟩
  · rw [halloc, h.task tsk, Option.some.injEq]
    simp only [reduceCtorEq, or_false]
    exact Iff.rfl
  · rw [task_putTask]
    split_ifs with htsk
    · -- nobody has a UTCB in it, because nobody refers to it
      have hnone : holders σ.lives tsk = ∅ := by
        refine Finset.eq_empty_of_forall_notMem fun u hu => hnew ?_
        obtain ⟨-, -, hact, htask⟩ := mem_holders.mp hu
        exact (h.task _).mpr (.inl ⟨u, hact.1, htask.trans htsk⟩)
      have hempty : ∀ u, u ∉ holders σ.lives tsk := by
        rw [hnone]
        exact Finset.notMem_empty
      refine ⟨?_, Nat.zero_le _, fun u hu => absurd hu (hempty u), fun u hu => absurd hu (hempty u)⟩
      exact (congrArg Finset.card hnone).symm
    · rcases (halloc tsk).mp ht with hold | heq
      · exact h.seated tsk hold
      · exact absurd heq.symm htsk

theorem Kept.newThread {kioSz dst sched pager utcb : Nat} (h : σ.Kept A x) (halloc : σ.Allocated tsk)
    (hx : x = none ∨ x = some tsk) (huser : threadNumberMin < Thrid.number A dst)
    (hok : σ.newThread A kioSz tsk dst sched pager utcb = .ok σ') : σ'.Kept A none := by
  obtain ⟨σ₁, σ₂, t, hcreate, hutcb, hlast⟩ := newThread_eq_ok hok
  have h₂ := (h.createThread halloc hx hcreate).setUtcb hutcb
  obtain ⟨-, ht, -⟩ := createThread_eq_ok hcreate
  rcases hlast with ⟨-, rfl⟩ | ⟨-, hact⟩
  · exact h₂
  · exact h₂.activate (by omega) hact

/-- The task of a space specifier is allocated. -/
theorem Kept.spaceTask {space : Nat} (h : σ.Kept A none) (hok : σ.spaceTask A space = .ok tsk)
    (hne : tsk ≠ 0) : σ.Allocated tsk := by
  obtain ⟨r, hfind, hok⟩ := bind_eq_ok.mp hok
  cases r with
  | none => exact absurd (Except.ok.inj hok).symm hne
  | some t =>
    obtain rfl := Except.ok.inj hok
    exact (h.task _).mpr (.inl ⟨t, (Threads.find_eq_some hfind).1, rfl⟩)

theorem Kept.create {kioSz kupage dst space sched pager utcb r : Nat} (h : σ.Kept A none)
    (huser : threadNumberMin < Thrid.number A dst)
    (hspace : dst = space ∨ pager ≠ Thrid.nil ∨ σ.spaceTask A space ≠ .ok 0)
    (hok : σ.create A kioSz kupage dst space sched pager utcb = .ok (r, σ')) : σ'.Kept A none := by
  rcases create_cases hok with ⟨e, he⟩ | ⟨-, -, -, -, σ₁, tsk, htask, hnew⟩ |
    ⟨-, -, hdst, tsk, hfind, hconf, hnew⟩
  · exact h.of_fail he
  · obtain ⟨h₁, halloc⟩ := h.createTask htask
    exact h₁.newThread halloc (.inr rfl) huser hnew
  · have hne : tsk ≠ 0 := by
      rcases hspace with heq | hpager | hzero
      · exact absurd heq hdst
      · exact (hconf hpager).1
      · rintro rfl
        exact hzero hfind
    exact h.newThread (h.spaceTask hfind hne) (.inl rfl) huser hnew

/-! ## What a caller has to see to -/

/-- Another thread stays in the task of `t`. -/
def HasCompany (σ : Sys) (t : Nat) : Prop :=
  ∃ u, u ≠ t ∧ σ.Exists u ∧ (σ.lives u).ident.task = (σ.lives t).ident.task

/-- A modification that is not refused names a thread as the space; only a thread that was not activated
yet goes to another task, and it is not the last one of its task. -/
def MayModify (A : Arch) (σ : Sys) (t space pager utcb : Nat) : Prop :=
  ∀ tsk, σ.spaceTask A space = .ok tsk →
    (pager ≠ Thrid.nil → (σ.lives t).state = .inactive →
      tsk ≠ 0 ∧ (σ.task tsk).isConfigured A = true) →
    (utcb ≠ A.minusOne → (σ.lives t).state = .inactive) →
    tsk ≠ 0 ∧ (tsk = (σ.lives t).ident.task ∨ (σ.lives t).state = .inactive ∧ σ.HasCompany t)

/-- The thread was activated; no interrupt has it as handler, and no started thread as pager; and when
it is the last thread of its task that was activated, it is the last one. -/
structure MayDelete (A : Arch) (σ : Sys) (t : Nat) : Prop where
  active : (σ.lives t).state ≠ .inactive
  handler : ∀ irq, (σ.k.ints irq).handler ≠ Thrid.nil →
    Thrid.number A (σ.k.ints irq).handler ≠ t + threadNumberMin
  pager : ∀ u, u ≠ t → (σ.lives u).Started → (σ.lives u).pager ≠ some t
  last : (∃ u ∈ holders σ.lives (σ.lives t).ident.task, u ≠ t) ∨ ¬ σ.HasCompany t

/-- The thread goes to another task. -/
theorem Kept.migrate {localid globid : Nat} (h : σ.Kept A none) (hex : σ.Exists t)
    (hl : σ.Becomes σ' t { σ.lives t with ident := ⟨tsk, localid, globid⟩ })
    (hlocal : localid = (σ.lives t).ident.localid) (hpool : σ'.tasks = σ.tasks) (htask : σ'.task = σ.task)
    (hints : σ'.k.ints = σ.k.ints) (halloc : σ.Allocated tsk)
    (hmay : tsk = (σ.lives t).ident.task ∨ (σ.lives t).state = .inactive ∧ σ.HasCompany t) :
    σ'.Kept A none := by
  have hsame : ∀ y, σ'.Allocated y ↔ σ.Allocated y := by
    intro y
    unfold Allocated
    rw [hpool]
  refine h.change hl id (hpool ▸ h.pool) (fun _ => by rw [hints]) (fun _ => h.range t hex) (fun y => ?_)
    (fun hst => h.pager t hst) fun y hy => ?_
  · rw [hsame, h.task y]
    refine or_congr_left ⟨?_, ?_⟩
    · rintro ⟨u, hu, hy⟩
      by_cases hut : u = t
      · subst hut
        rcases hmay with heq | ⟨-, v, hvu, hv, hvy⟩
        · exact .inl ⟨hu, heq.trans hy⟩
        · exact .inr ⟨v, hvu, hv, hvy.trans hy⟩
      · exact .inr ⟨u, hut, hu, hy⟩
    · rintro (⟨-, rfl⟩ | ⟨u, -, hu⟩)
      · exact ((h.task _).mp halloc).resolve_right nofun
      · exact ⟨u, hu⟩
  · rw [htask]
    refine hl.seated (h.seated y ((hsame y).mp hy)) ⟨rfl, rfl⟩ (fun _ => ?_) fun _ _ _ => hlocal
    rcases hmay with rfl | ⟨hinactive, -⟩
    · exact Iff.rfl
    · exact iff_of_false (fun hact => hact.1.2 hinactive) fun hact => hact.1.2 hinactive

theorem Kept.modify {kioSz dst space sched pager utcb r : Nat} (h : σ.Kept A none) (hex : σ.Exists t)
    (hzero : t ≠ 0) (hmay : σ.MayModify A t space pager utcb)
    (hok : σ.modify A kioSz t dst space sched pager utcb = .ok (r, σ')) : σ'.Kept A none := by
  rcases modify_cases hok with ⟨e, he⟩ | ⟨-, tsk, σ₁, hfind, hutcb, hlast⟩
  · exact h.of_fail he
  have hthr : ∀ u, σ₁.thr u = (σ.updThr t (renamed dst sched)).thr u :=
    fun u => congrArg (fun ts => ts.thr u) (setUtcb_thr hutcb)
  have hrest : σ₁.tasks = σ.tasks ∧ σ₁.task = σ.task ∧ σ₁.k.ints = σ.k.ints := by
    rcases setUtcb_eq_ok hutcb with ⟨-, rfl⟩ | ⟨-, -, pa, r, -, -, -, rfl⟩ <;> exact ⟨rfl, rfl, rfl⟩
  have hlocated : utcb ≠ A.minusOne → (σ.lives t).state = .inactive := by
    intro hne
    rcases setUtcb_eq_ok hutcb with ⟨hnone, -⟩ | ⟨-, hact, -⟩
    · exact absurd hnone hne
    · rw [thr_updThr_self] at hact
      exact state_of_isActive (x := renamed dst sched (σ.thr t)) hact
  have hmoved : (σ₁.updThr t fun th => { th with task := tsk }).thr t =
      { renamed dst sched (σ.thr t) with task := tsk } := by
    rw [thr_updThr_self, hthr, thr_updThr_self]
  -- the thread behind the write of its name and its task
  have hl : σ.Becomes (σ₁.updThr t fun th => { th with task := tsk }) t
      { σ.lives t with ident := ⟨tsk, (σ.thr t).uutcb, dst⟩ } := by
    intro u
    unfold lives
    by_cases hu : u = t
    · rw [if_pos hu, hu, hmoved]
      rfl
    · rw [if_neg hu, thr_updThr_ne _ hu, hthr, thr_updThr_ne _ hu]
  have hkept : (pager ≠ Thrid.nil → (σ.lives t).state = .inactive →
      tsk ≠ 0 ∧ (σ.task tsk).isConfigured A = true) →
      (σ₁.updThr t fun th => { th with task := tsk }).Kept A none := by
    intro hconf
    obtain ⟨hne, hcompany⟩ := hmay tsk hfind hconf hlocated
    exact h.migrate hex hl rfl hrest.1 hrest.2.1 hrest.2.2 (h.spaceTask hfind hne) hcompany
  rcases hlast with ⟨hpager, rfl⟩ | ⟨-, σ₂, rfl, ⟨hact, rfl⟩ | ⟨-, hact⟩⟩
  · exact hkept fun hne => absurd hpager hne
  · refine (hkept fun _ hinactive => ?_).upd fun _ => rfl
    rw [thr_updThr_self, hmoved] at hact
    change (σ.thr t).isActive = true at hact
    rw [Thread.isActive, show (σ.thr t).state = .inactive from hinactive] at hact
    cases hact
  · obtain ⟨-, -, hne, hconf, -⟩ := activate_eq_ok hact
    rw [thr_updThr_self, hmoved] at hne hconf
    rw [task_updThr, task_updThr, hrest.2.1] at hconf
    have hkept := hkept fun _ _ => ⟨hne, hconf⟩
    exact (hkept.upd (t := t) (f := fun th => { th with pagerid := pager }) fun _ => rfl).activate hzero hact

/-- **A deletion** releases the task when the last seat in it is left. -/
theorem Kept.delete {dst r : Nat} (h : σ.Kept A none) (hex : σ.Exists t) (hzero : t ≠ 0)
    (hnum : Thrid.number A dst = t + threadNumberMin) (hmay : σ.MayDelete A t)
    (hok : σ.delete A t dst = .ok (r, σ')) : σ'.Kept A none := by
  have hlife := delete_life hok
  obtain ⟨-, -, σ₁, x, ts, hfree, huspace, -, hlast⟩ := delete_eq_ok hok
  rw [hnum, Nat.add_sub_cancel] at hlife
  have hl : ∀ u, σ'.lives u = if u = t then { σ.lives u with state := .idle } else σ.lives u := hlife
  have hmem : t ∈ holders σ.lives (σ.lives t).ident.task :=
    mem_holders.mpr ⟨h.range t hex, hzero, ⟨hex, hmay.active⟩, rfl⟩
  have halloc : σ.Allocated (σ.lives t).ident.task := (h.task _).mpr (.inl ⟨t, hex, rfl⟩)
  have hσ₁ : σ₁.thr t = σ.thr t ∧ σ₁.task = σ.task ∧ σ₁.tasks = σ.tasks ∧ σ₁.k.ints = σ.k.ints := by
    rcases freeUtcbKspace_eq_ok hfree with ⟨-, rfl⟩ | ⟨-, m, -, rfl⟩ <;> exact ⟨rfl, rfl, rfl, rfl⟩
  rw [hσ₁.1, hσ₁.2.1] at huspace
  have hfreed : Seated A x σ'.lives (σ.lives t).ident.task := (h.seated _ halloc).free hmem huspace hl
  -- who is left, and in which task
  have hother : ∀ u, σ'.Exists u ↔ u ≠ t ∧ σ.Exists u := by
    intro u
    unfold Exists
    rw [hl u]
    split_ifs with hu
    · simp [hu]
    · simp [hu]
  have hlives : ∀ u, u ≠ t → σ'.lives u = σ.lives u := fun u hu => (hl u).trans (if_neg hu)
  have hleft : (∃ u, σ'.Exists u ∧ (σ'.lives u).ident.task = (σ.lives t).ident.task) ↔ x.isEmpty = false := by
    have hcount : x.isEmpty = false ↔ holders σ'.lives (σ.lives t).ident.task ≠ ∅ := by
      unfold Task.isEmpty
      rw [hfreed.count, beq_eq_false_iff_ne, ne_eq, Finset.card_eq_zero]
    rw [hcount, ← Finset.nonempty_iff_ne_empty]
    constructor
    · rintro ⟨u, hu, htask⟩
      obtain ⟨hut, hu⟩ := (hother u).mp hu
      rw [hlives u hut] at htask
      rcases hmay.last with ⟨v, hv, hvt⟩ | halone
      · refine ⟨v, ?_⟩
        rw [mem_holders, hlives v hvt, ← mem_holders]
        exact hv
      · exact absurd ⟨u, hut, hu, htask⟩ halone
    · rintro ⟨u, hu⟩
      obtain ⟨-, -, hact, htask⟩ := mem_holders.mp hu
      exact ⟨u, hact.1, htask⟩
  have hrest : σ'.task = Function.update σ.task (σ.lives t).ident.task x ∧ σ'.k.ints = σ.k.ints ∧
      σ'.tasks.Wf ∧ ∀ tsk, σ'.Allocated tsk ↔
        σ.Allocated tsk ∧ (tsk = (σ.lives t).ident.task → x.isEmpty = false) := by
    rcases hlast with ⟨hempty, hlast⟩ | ⟨hfull, rfl⟩
    · obtain ⟨-, hlast⟩ := ensure_bind_eq_ok.mp hlast
      obtain rfl := Except.ok.inj hlast
      refine ⟨by rw [← hσ₁.2.1]; rfl, hσ₁.2.2.2, ?_, fun tsk => ?_⟩
      · change (σ₁.tasks.erase _).Wf
        rw [hσ₁.2.2.1]
        exact NodeList.wf_erase h.pool halloc.2
      · change (tsk ≠ 0 ∧ tsk - 1 ∈ (σ₁.tasks.erase ((σ.lives t).ident.task - 1)).nodes) ↔ _
        have hne : (σ.lives t).ident.task ≠ 0 := halloc.1
        rw [hσ₁.2.2.1, hempty]
        simp only [NodeList.nodes, NodeList.erase, List.mem_map, List.mem_filter, bne_iff_ne, Allocated]
        constructor
        · rintro ⟨htsk, e, ⟨he, hne'⟩, heq⟩
          exact ⟨⟨htsk, e, he, heq⟩, fun htsk' => absurd (heq.trans (congrArg (· - 1) htsk')) hne'⟩
        · rintro ⟨⟨htsk, e, he, heq⟩, hnot⟩
          refine ⟨htsk, e, ⟨he, fun he' => ?_⟩, heq⟩
          exact absurd (hnot (by omega)) (by decide)
    · refine ⟨by rw [← hσ₁.2.1]; rfl, hσ₁.2.2.2, ?_, fun tsk => ?_⟩
      · exact hσ₁.2.2.1 ▸ h.pool
      · change (tsk ≠ 0 ∧ tsk - 1 ∈ σ₁.tasks.nodes) ↔ _
        rw [hσ₁.2.2.1, hfull]
        simp [Allocated]
  obtain ⟨htasks, hints, hpool, hallocs⟩ := hrest
  refine ⟨hpool, fun u hu => h.range u ((hother u).mp hu).2, fun tsk => ?_, fun irq hne => ?_, fun u hst => ?_,
    fun tsk ht => ?_⟩
  · rw [hallocs]
    by_cases htsk : tsk = (σ.lives t).ident.task
    · subst htsk
      rw [hleft]
      simp [halloc]
    · rw [h.task tsk]
      simp only [htsk, false_implies, and_true, reduceCtorEq, or_false]
      constructor
      · rintro ⟨u, hu, htask⟩
        have hut : u ≠ t := by
          rintro rfl
          exact htsk htask.symm
        exact ⟨u, (hother u).mpr ⟨hut, hu⟩, by rw [hlives u hut]; exact htask⟩
      · rintro ⟨u, hu, htask⟩
        obtain ⟨hut, hu⟩ := (hother u).mp hu
        exact ⟨u, hu, by rw [← hlives u hut]; exact htask⟩
  · rw [hints] at hne ⊢
    obtain ⟨u, hu, hexu⟩ := h.handler irq hne
    refine ⟨u, hu, (hother u).mpr ⟨?_, hexu⟩⟩
    rintro rfl
    exact hmay.handler irq hne hu
  · have hut : u ≠ t := ((hother u).mp hst.1.1).1
    rw [hlives u hut] at hst ⊢
    refine ⟨fun p hp => (hother p).mpr ⟨?_, (h.pager u hst).1 p hp⟩, (h.pager u hst).2⟩
    rintro rfl
    exact hmay.pager u hut hst hp
  · rw [htasks, Function.update_apply]
    obtain ⟨hold, -⟩ := (hallocs tsk).mp ht
    split_ifs with htsk
    · subst htsk
      exact hfreed
    · refine (h.seated tsk hold).congr ⟨rfl, rfl⟩ fun u => ?_
      rw [mem_holders, mem_holders]
      by_cases hut : u = t
      · subst hut
        refine ⟨iff_of_false (fun hu => ((hother u).mp hu.2.2.1.1).1 rfl) fun hu => htsk hu.2.2.2.symm, ?_⟩
        exact fun hu => absurd hu.2.2.2.symm htsk
      · rw [hlives u hut]
        exact ⟨Iff.rfl, fun _ => rfl⟩

/-- A handler is attached, or taken off. -/
theorem Kept.setHandler {irq id : Nat} (h : σ.Kept A none)
    (hmay : id = Thrid.nil ∨ ∃ t, σ.k.ts.findNumber (Thrid.number A id) = some t)
    (hok : σ.setHandler A irq id = .ok σ') : σ'.Kept A none := by
  obtain ⟨k, hk, hok⟩ := bind_eq_ok.mp hok
  obtain rfl := Except.ok.inj hok
  obtain ⟨-, hk⟩ := ensure_bind_eq_ok.mp hk
  dsimp only at hk
  have hints : k.ints = Function.update σ.k.ints irq ⟨id, false⟩ ∧ k.ts = σ.k.ts := by
    split_ifs at hk
    · obtain ⟨c, -, hk⟩ := bind_eq_ok.mp hk
      exact Except.ok.inj hk ▸ ⟨rfl, rfl⟩
    · exact Except.ok.inj hk ▸ ⟨rfl, rfl⟩
  have hlives : Sys.lives { σ with k := k } = σ.lives :=
    funext fun u => congrArg (fun ts => (ts.thr u).life) hints.2
  have hex : ∀ u, Exists { σ with k := k } u ↔ σ.Exists u := by
    intro u
    unfold Exists
    rw [hlives]
  refine ⟨h.pool, fun u hu => h.range u ((hex u).mp hu), fun tsk => ?_, fun irq' hne => ?_, fun u hst => ?_,
    fun tsk ht => ?_⟩
  · rw [hlives]
    simp only [hex]
    exact h.task tsk
  · change (k.ints irq').handler ≠ Thrid.nil at hne
    change ∃ t, Thrid.number A (k.ints irq').handler = t + threadNumberMin ∧ _
    rw [hints.1, Function.update_apply] at hne ⊢
    split_ifs at hne ⊢ with hirq
    · obtain ⟨u, hu⟩ := hmay.resolve_left hne
      obtain ⟨hmin, -, hnum, hidle⟩ := Threads.findNumber_eq_some hu
      exact ⟨u, by change Thrid.number A id = _; omega, (hex u).mpr hidle⟩
    · obtain ⟨u, hu, hexu⟩ := h.handler irq' hne
      exact ⟨u, hu, (hex u).mpr hexu⟩
  · rw [hlives] at hst ⊢
    exact ⟨fun p hp => (hex p).mpr ((h.pager u hst).1 p hp), (h.pager u hst).2⟩
  · rw [hlives]
    exact h.seated tsk ht

/-- The areas of a task are set while nobody has a seat in it. -/
theorem Kept.setAreas {kipPa kip utcb : Nat} (h : σ.Kept A x)
    (hok : σ.setAreas A kipPa tsk kip utcb = .ok σ') : σ'.Kept A x := by
  obtain ⟨-, hcount, -, m, -, rfl⟩ := setAreas_eq_ok hok
  refine ⟨h.pool, h.range, h.task, h.handler, h.pager, fun tsk' ht => ?_⟩
  have hold := h.seated tsk' ht
  rw [task_putMem, task_putTask]
  split_ifs with htsk
  · subst htsk
    have hnone : holders σ.lives tsk' = ∅ := Finset.card_eq_zero.mp (hold.count.symm.trans hcount)
    have hempty : ∀ u, u ∉ holders σ.lives tsk' := by
      rw [hnone]
      exact Finset.notMem_empty
    refine ⟨?_, ?_, fun u hu => absurd hu (hempty u), fun u hu => absurd hu (hempty u)⟩
    · refine Eq.trans ?_ (congrArg Finset.card hnone).symm
      change ((σ.task tsk').utcbs.init _).count = 0
      unfold Bitmap.init Bitmap.initOf
      split_ifs
      · exact hcount
      · rfl
    · change ((σ.task tsk').utcbs.init _).capacity ≤ _
      unfold Bitmap.init Bitmap.initOf
      split_ifs with hbig
      · exact hold.capacity
      · exact not_lt.mp hbig
  · exact hold

theorem Kept.spaceControl {kipPa space kip utcb redirector r : Nat} (h : σ.Kept A none)
    (hok : σ.spaceControl A kipPa space kip utcb redirector = .ok (r, σ')) : σ'.Kept A none := by
  rcases spaceControl_cases hok with ⟨e, he⟩ | ⟨-, t, σ₁, -, -, hareas, hlast⟩
  · exact h.of_fail he
  · have h₁ : σ₁.Kept A none := by
      rcases hareas with ⟨-, rfl⟩ | ⟨-, hset⟩
      · exact h
      · exact h.setAreas hset
    rcases hlast with ⟨-, rfl⟩ | rfl
    · exact h₁
    · refine h₁.same (fun _ => rfl) rfl (fun tsk => ?_) fun _ => rfl
      rw [task_putTask]
      split_ifs with htsk
      · rw [htsk]
        exact ⟨rfl, rfl⟩
      · exact ⟨rfl, rfl⟩

/-- A thread gets a pager, and keeps its state or is started. -/
theorem Kept.setPager {L : Life} (h : σ.Kept A none) (hl : σ.Becomes σ' t L) (hpool : σ'.tasks = σ.tasks)
    (htask : σ'.task = σ.task) (hints : σ'.k.ints = σ.k.ints) (hex : σ.Exists t)
    (hid : L.ident = (σ.lives t).ident)
    (hstate : L.state = (σ.lives t).state ∨ (σ.lives t).state = .active ∧ L.state = .ready)
    (hpager : L.Started → (∀ p, L.pager = some p → σ.Exists p) ∧ (t ≠ 0 → t ≠ 1 → L.pager ≠ none)) :
    σ'.Kept A none := by
  have hsame : ∀ y, σ'.Allocated y ↔ σ.Allocated y := by
    intro y
    unfold Allocated
    rw [hpool]
  have hact : L.Active ↔ (σ.lives t).Active := by
    unfold Life.Active
    rcases hstate with heq | ⟨ha, hr⟩
    · rw [heq]
    · rw [ha, hr]
      decide
  have hstay : L.state ≠ .idle := by
    rcases hstate with heq | ⟨-, hr⟩
    · exact heq ▸ hex
    · rw [hr]
      nofun
  refine h.change hl (fun _ => hstay) (hpool ▸ h.pool) (fun _ => by rw [hints]) (fun _ => h.range t hex)
    (fun y => ?_) hpager fun y hy => ?_
  · rw [hsame, h.task y]
    refine or_congr_left ⟨?_, ?_⟩
    · rintro ⟨u, hu, hy⟩
      by_cases hut : u = t
      · exact .inl ⟨hstay, by rw [hid, ← hut]; exact hy⟩
      · exact .inr ⟨u, hut, hu, hy⟩
    · rintro (⟨-, hy⟩ | ⟨u, -, hu⟩)
      · exact ⟨t, hex, by rw [← hid]; exact hy⟩
      · exact ⟨u, hu⟩
  · rw [htask]
    refine hl.seated (h.seated y ((hsame y).mp hy)) ⟨rfl, rfl⟩ (fun _ => ?_) fun _ _ _ => by rw [hid]
    rw [hact, hid]

theorem Kept.exchangeRegisters {r out : Exreg} {res : Nat} (h : σ.Kept A none)
    (hok : σ.exchangeRegisters A r = .ok (res, out, σ')) : σ'.Kept A none := by
  rcases exchangeRegisters_cases hok with ⟨e, he⟩ | ⟨t, f, hfind, -, -, ⟨-, rfl⟩ | ⟨-, p, hp, rfl⟩⟩
  · exact h.of_fail he
  · exact h.same (fun _ => rfl) rfl (fun _ => ⟨rfl, rfl⟩) fun _ => rfl
  · have hl : σ.Becomes ((σ.updThr t (Sys.setPager r.pager p)).updSlot t f) t
        { σ.lives t with pager := some p } := by
      intro u
      change ((σ.updThr t (Sys.setPager r.pager p)).thr u).life = _
      rw [thr_updThr]
      split_ifs <;> rfl
    refine h.setPager hl rfl rfl rfl (Threads.find_eq_some hfind).1 rfl (.inl rfl) fun _ => ⟨fun q hq => ?_, ?_⟩
    · obtain rfl := Option.some.inj hq
      exact (Threads.find_eq_some hp).1
    · exact fun _ _ => nofun

theorem Kept.schedule {dst timeCtl procCtl prio preemptCtl r : Nat} (h : σ.Kept A none)
    (hok : σ.schedule A dst timeCtl procCtl prio preemptCtl = .ok (r, σ')) : σ'.Kept A none := by
  rcases schedule_cases hok with ⟨e, he⟩ | ⟨t, ts, -, rfl | hprio, -, rfl⟩
  · exact h.of_fail he
  · exact h
  · exact h.same (fun u => Threads.setPrio_life hprio u) rfl (fun _ => ⟨rfl, rfl⟩) fun _ => rfl

theorem Kept.memoryControl {control r : Nat} {attr : Nat → Nat} (h : σ.Kept A none)
    (hok : σ.memoryControl A control attr = .ok (r, σ')) : σ'.Kept A none := by
  rcases memoryControl_cases hok with ⟨e, he⟩ | ⟨-, m, rfl⟩
  · exact h.of_fail he
  · exact h.same (fun _ => rfl) rfl (fun _ => ⟨rfl, rfl⟩) fun _ => rfl

/-- What the parameters of `syscall_thread_control` have to be when the call gets beyond its checks. -/
def CarefulCall (A : Arch) (timerIrq : Nat) (σ : Sys) (dst space sched pager utcb : Nat) : Prop :=
  σ.privileged A = true →
    if Thrid.isInt A dst = true ∧ Thrid.number A dst ≠ timerIrq then
      pager = Thrid.nil ∨ ∃ t, σ.k.ts.findNumber (Thrid.number A pager) = some t
    else Thrid.isGlobalUser A dst = true →
      match σ.k.ts.findNumber (Thrid.number A dst) with
      | none => space = Thrid.nil ∨ sched = Thrid.nil ∨ dst = space ∨ pager ≠ Thrid.nil ∨
          σ.spaceTask A space ≠ .ok 0
      | some t => if space = Thrid.nil then σ.MayDelete A t else σ.MayModify A t space pager utcb

theorem Thrid.lt_number_of_isGlobalUser {id : Nat} (h : Thrid.isGlobalUser A id = true) :
    threadNumberMin < Thrid.number A id := by
  simp only [Thrid.isGlobalUser, Bool.and_eq_true, decide_eq_true_eq] at h
  omega

theorem Kept.threadControl {kioSz timerIrq kupage dst space sched pager utcb r : Nat} (h : σ.Kept A none)
    (hmay : σ.CarefulCall A timerIrq dst space sched pager utcb)
    (hok : σ.threadControl A kioSz timerIrq kupage dst space sched pager utcb = .ok (r, σ')) :
    σ'.Kept A none := by
  unfold CarefulCall at hmay
  by_cases hpriv : σ.privileged A = true
  · replace hmay := hmay hpriv
    rcases threadControl_cases hok with ⟨e, he⟩ | ⟨-, hint, htimer, hset⟩ |
      ⟨hglob, hcases⟩
    · exact h.of_fail he
    · rw [if_pos ⟨hint, htimer⟩] at hmay
      exact h.setHandler hmay hset
    · have huser := Thrid.lt_number_of_isGlobalUser hglob
      have hint : ¬ (Thrid.isInt A dst = true ∧ Thrid.number A dst ≠ timerIrq) := by
        intro hi
        have hlt : Thrid.number A dst < intsMax := by
          simpa [Thrid.isInt] using (Bool.and_eq_true_iff.mp (Bool.and_eq_true_iff.mp hi.1).1).2
        unfold intsMax threadNumberMin at *
        omega
      rw [if_neg hint] at hmay
      replace hmay := hmay hglob
      rcases hcases with ⟨hnone, hspace, hcreate⟩ | ⟨t, hsome, hcases⟩
      · rw [hnone] at hmay
        by_cases hsched : sched = Thrid.nil
        · unfold Sys.create at hcreate
          rw [if_pos hsched] at hcreate
          exact h.of_fail (Except.ok.inj hcreate).symm
        · exact h.create huser (hmay.resolve_left hspace |>.resolve_left hsched) hcreate
      · rw [hsome] at hmay
        obtain ⟨hmin, -, hnum, hidle⟩ := Threads.findNumber_eq_some hsome
        rcases hcases with ⟨hspace, hdelete⟩ | ⟨hspace, hmodify⟩
        · dsimp only at hmay
          rw [if_pos hspace] at hmay
          exact h.delete hidle (by omega) (by omega) hmay hdelete
        · dsimp only at hmay
          rw [if_neg hspace] at hmay
          exact h.modify hidle (by omega) hmay hmodify
  · unfold Sys.threadControl at hok
    rw [if_pos (by simpa using hpriv)] at hok
    exact h.of_fail (Except.ok.inj hok).symm

/-! ## Runs -/

/-- The moves that the invariant admits; every other call and every switch may come. -/
def Careful (A : Arch) (P : Platform) (σ : Sys) : Move → Prop
  | .call (.threadControl _ dst space sched pager utcb) =>
    σ.CarefulCall A P.timerIrq dst space sched pager utcb
  | .call _ => True
  -- sigma0 is started with the pager pointer that its slot has
  | .start t => t = 1 → ∀ p, (σ.lives t).pager = some p → σ.Exists p
  | .switch _ _ => True

theorem Kept.start {k : Kern} (h : σ.Kept A none) (hactive : (σ.lives t).state = .active)
    (hmay : t = 1 → ∀ p, (σ.lives t).pager = some p → σ.Exists p) (hok : σ.k.startThread A t = .ok k) :
    Kept A none { σ with k := k } := by
  have hex : σ.Exists t := fun hidle => by rw [hactive] at hidle; cases hidle
  have hlife : ∀ {ts : Threads} {c : Nat} {k : Kern}, ts.setState A c t .ready = .ok k.ts →
      (∀ u, u ≠ t → ts.thr u = σ.thr u) →
      σ.Becomes { σ with k := k } t { (ts.thr t).life with state := .ready } := by
    intro ts c k hstate hsame u
    refine (Threads.setState_life hstate u).trans ?_
    split_ifs with hu
    · rfl
    · rw [hsame u hu]
      rfl
  unfold Kern.startThread at hok
  dsimp only at hok
  by_cases hone : t = 1
  · rw [if_pos hone] at hok
    obtain ⟨ts, hstate, hok⟩ := bind_eq_ok.mp hok
    obtain rfl := Except.ok.inj hok
    refine h.setPager (hlife (k := { σ.k with ts := ts }) hstate fun _ _ => rfl) rfl rfl rfl hex rfl
      (.inr ⟨hactive, rfl⟩) fun _ => ⟨hmay hone, fun _ hne => absurd hone hne⟩
  · rw [if_neg hone] at hok
    obtain ⟨-, hok⟩ := ensure_bind_eq_ok.mp hok
    obtain ⟨-, hok⟩ := ensure_bind_eq_ok.mp hok
    obtain ⟨pager, hpager, hok⟩ := bind_eq_ok.mp hok
    obtain ⟨sched, -, hok⟩ := bind_eq_ok.mp hok
    obtain ⟨hsome, hok⟩ := ensure_bind_eq_ok.mp hok
    obtain ⟨ts, hstate, hok⟩ := bind_eq_ok.mp hok
    obtain rfl := Except.ok.inj hok
    have hthr : ((σ.k.upd t fun th => { th with pager := pager, sched := sched }).ts.thr t).life =
        { σ.lives t with pager := pager } := by
      rw [Kern.upd_ts, Threads.thr_upd_self]
      rfl
    have hl := hlife (k := { σ.k with ts := ts }) hstate fun u hu => by
      rw [Kern.upd_ts, Threads.thr_upd_ne _ hu]
      rfl
    rw [hthr] at hl
    refine h.setPager hl rfl rfl rfl hex rfl (.inr ⟨hactive, rfl⟩) fun _ => ⟨fun p hp => ?_, fun _ _ => hsome.1⟩
    change pager = some p at hp
    rw [hp] at hpager
    exact (Threads.find_eq_some hpager).1

theorem Kept.switch {now : Nat} (h : σ.Kept A none) : Kept A none { σ with k := σ.k.switchTo t now } := by
  refine h.same (fun u => Thread.life_of_bare (Kern.switchTo_thr t u).1) rfl (fun _ => ⟨rfl, rfl⟩) fun irq => ?_
  change ((σ.k.switchTo t now).ints irq).handler = _
  unfold Kern.switchTo
  split_ifs <;> rfl

/-- **A move** keeps the invariant, when it is careful. -/
theorem Kept.move {m : Move} (h : σ.Kept A none) (hmay : σ.Careful A P m) (hok : σ.move A P m = .ok σ') :
    σ'.Kept A none := by
  cases m with
  | call c =>
    obtain ⟨⟨r, τ⟩, hcall, hok⟩ := bind_eq_ok.mp hok
    obtain rfl := Except.ok.inj hok
    cases c with
    | exchangeRegisters x =>
      obtain ⟨⟨res, out, σ₁⟩, hx, hcall⟩ := bind_eq_ok.mp hcall
      obtain ⟨-, rfl⟩ := Prod.mk.inj (Except.ok.inj hcall)
      exact h.exchangeRegisters hx
    | threadControl kupage dst space sched pager utcb => exact h.threadControl hmay hcall
    | schedule dst timeCtl procCtl prio preemptCtl => exact h.schedule hcall
    | spaceControl space kip utcb redirector => exact h.spaceControl hcall
    | memoryControl control attr => exact h.memoryControl hcall
  | start t =>
    simp only [Sys.move] at hok
    split_ifs at hok with hactive
    · obtain ⟨k, hk, hok⟩ := bind_eq_ok.mp hok
      obtain rfl := Except.ok.inj hok
      exact h.start hactive hmay hk
    · exact Except.ok.inj hok ▸ h
  | switch t now =>
    simp only [Sys.move] at hok
    split_ifs at hok
    · exact Except.ok.inj hok ▸ h.switch
    · exact Except.ok.inj hok ▸ h

theorem kept_init (b : BootInfo) : (init A b).Kept A none := by
  have hidle : ∀ t, ¬ (init A b).Exists t := fun t ht => ht rfl
  have hnone : ∀ tsk, ¬ (init A b).Allocated tsk := by
    rintro tsk ⟨-, hmem⟩
    cases hmem
  refine ⟨NodeList.wf_init, fun t ht => absurd ht (hidle t), fun tsk => ?_, fun irq hne => absurd rfl hne,
    fun t hst => absurd hst.1.1 (hidle t), fun tsk ht => absurd ht (hnone tsk)⟩
  refine iff_of_false (hnone tsk) ?_
  rintro (⟨t, ht, -⟩ | hx)
  · exact hidle t ht
  · cases hx

/-- The kernel thread runs as soon as it is created. -/
theorem Kept.createKthread (h : σ.Kept A (some tsk)) (halloc : σ.Allocated tsk)
    (hpager : ∀ t, (σ.lives t).pager = none) (hok : σ.createKthread A tsk = .ok σ') :
    σ'.Kept A none ∧ ∀ t, (σ'.lives t).pager = none := by
  obtain ⟨σ₁, t, k, hcreate, hready, rfl⟩ := createKthread_eq_ok hok
  have h₁ := h.createThread halloc (.inr rfl) hcreate
  have hlife := createThread_life hcreate
  obtain ⟨-, ht, -⟩ := createThread_eq_ok hcreate
  obtain rfl : t = 0 := by
    rw [ht]
    cases A <;> decide
  obtain ⟨ts, hstate, hk⟩ := bind_eq_ok.mp hready
  obtain rfl := Except.ok.inj hk
  have hself : (σ₁.lives 0).state = .inactive ∧ (σ₁.lives 0).pager = none := by
    unfold lives
    rw [hlife 0, if_pos rfl]
    exact ⟨rfl, hpager 0⟩
  have hl : σ₁.Becomes { σ₁ with k := { σ₁.k with ts := ts, current := 0 } } 0
      { σ₁.lives 0 with state := .ready } := Threads.setState_life hstate
  have hex : σ₁.Exists 0 := fun hidle => by rw [hself.1] at hidle; cases hidle
  refine ⟨h₁.change hl (fun _ => nofun) h₁.pool (fun _ => rfl) (fun _ => h₁.range 0 hex) (fun y => ?_)
    (fun _ => ⟨fun p hp => ?_, fun hzero => absurd rfl hzero⟩) fun y hy => ?_, fun u => ?_⟩
  · refine (h₁.task y).trans (or_congr_left ⟨?_, ?_⟩)
    · rintro ⟨u, hu, hy⟩
      by_cases hut : u = 0
      · exact .inl ⟨nofun, hut ▸ hy⟩
      · exact .inr ⟨u, hut, hu, hy⟩
    · rintro (⟨-, hy⟩ | ⟨u, -, hu⟩)
      · exact ⟨0, hex, hy⟩
      · exact ⟨u, hu⟩
  · exact absurd (hself.2.symm.trans hp) nofun
  · exact hl.seated (h₁.seated y hy) ⟨rfl, rfl⟩ (fun hzero => absurd rfl hzero) fun hzero => absurd rfl hzero
  · by_cases hu : u = 0
    · rw [hu, hl.self]
      exact hself.2
    · rw [hl.other hu]
      unfold lives
      rw [hlife u, if_neg hu]
      exact hpager u

/-- **The kernel starts** with the invariant. -/
theorem kept_boot {b : BootInfo} (hok : boot A P b = .ok σ) : σ.Kept A none := by
  obtain ⟨σ₁, tsk₁, σ₂, htask₁, hkthread, hsigma⟩ := boot_eq_ok hok
  obtain ⟨h₁, halloc₁⟩ := (kept_init b).createTask htask₁
  have hpager₁ : ∀ t, (σ₁.lives t).pager = none := by
    obtain ⟨tasks, n, m, -, -, -, rfl⟩ := createTask_eq_ok htask₁
    exact fun _ => rfl
  obtain ⟨h₂, hpager₂⟩ := h₁.createKthread halloc₁ hpager₁ hkthread
  obtain ⟨σ₃, tsk, m, σ₄, σ₅, t, r, σ₆, k, htask, -, hareas, hcreate, -, hact, hstart, rfl⟩ :=
    startSigma0_eq_ok hsigma
  obtain ⟨h₃, halloc₃⟩ := h₂.createTask htask
  have hpager₃ : ∀ t, (σ₃.lives t).pager = none := by
    obtain ⟨tasks, n, m, -, -, -, rfl⟩ := createTask_eq_ok htask
    exact hpager₂
  have h₄ : σ₄.Kept A (some tsk) := by
    refine Kept.setAreas (σ := σ₃.putMem m) ?_ hareas
    exact h₃.same (fun _ => rfl) rfl (fun _ => ⟨rfl, rfl⟩) fun _ => rfl
  have hσ₄ : (∀ t, (σ₄.lives t).pager = none) ∧ σ₄.Allocated tsk := by
    obtain ⟨-, -, -, m', -, rfl⟩ := setAreas_eq_ok hareas
    exact ⟨hpager₃, halloc₃⟩
  have h₅ : σ₅.Kept A none := by
    refine Kept.createThread (σ := σ₄.allPorts tsk) (x := some tsk) ?_ hσ₄.2 (.inr rfl) hcreate
    exact h₄.same (fun _ => rfl) rfl (fun _ => ⟨rfl, rfl⟩) fun _ => rfl
  have hpager₅ : (σ₅.lives t).pager = none := by
    unfold lives
    rw [createThread_life hcreate t, if_pos rfl]
    exact hσ₄.1 t
  obtain ⟨-, ht, -⟩ := createThread_eq_ok hcreate
  obtain rfl : t = 1 := by
    rw [ht]
    cases A <;> decide
  have h₆ : σ₆.Kept A none := by
    refine Kept.activate (σ := (σ₅.putMem r.1).updSlot 1 _) ?_ (by decide) hact
    exact h₅.same (fun _ => rfl) rfl (fun _ => ⟨rfl, rfl⟩) fun _ => rfl
  obtain ⟨uutcb, -, hlife⟩ := activate_life hact
  have hself : (σ₆.lives 1).state = .active ∧ (σ₆.lives 1).pager = none := by
    unfold lives
    rw [hlife 1, if_pos rfl]
    exact ⟨rfl, hpager₅⟩
  refine Kept.switch (σ := { σ₆ with k := k }) (h₆.start hself.1 (fun _ p hp => ?_) hstart)
  rw [hself.2] at hp
  cases hp

/-- **References stay good.**  In a run of careful moves no thread refers to a task that is not allocated, no
task stays allocated without a thread, and every handler and every pager of a started thread is a thread. -/
theorem run_refs {b : BootInfo} {ms : List Move} {σ₀ : Sys} (hboot : boot A P b = .ok σ₀)
    (hmay : Meets (move A P) (Careful A P) σ₀ ms) (hrun : runAll (move A P) σ₀ ms = .ok σ) : σ.Refs A :=
  (runAll_invariant (fun _ _ _ h hC hstep => Kept.move h hC hstep) (kept_boot hboot) hmay hrun).refs

/-- Sigma0 makes a task with the thread 140. -/
theorem newTask_refs : ∃ σ₀ σ, boot .sparc board found = .ok σ₀ ∧
    runAll (move .sparc board) σ₀ [.call (control 140 140 Thrid.nil 0xffffffff)] = .ok σ ∧ σ.Refs .sparc := by
  have hrun : (match boot .sparc board found with
      | .ok σ₀ => match runAll (move .sparc board) σ₀ [.call (control 140 140 Thrid.nil 0xffffffff)] with
        | .ok _ => decide (σ₀.k.ts.findNumber (Thrid.number .sparc (Thrid.createGlobal .sparc 140 1)) = none)
        | .error _ => false
      | .error _ => false) = true := by decide +kernel
  split at hrun
  · rename_i σ₀ hboot
    split at hrun
    · rename_i σ hmove
      have hnone := of_decide_eq_true hrun
      have hcareful : Careful .sparc board σ₀ (.call (control 140 140 Thrid.nil 0xffffffff)) := by
        intro hpriv
        rw [if_neg (by decide), hnone]
        exact fun _ => .inr (.inr (.inl rfl))
      have hmeets : Meets (move .sparc board) (Careful .sparc board) σ₀
          [.call (control 140 140 Thrid.nil 0xffffffff)] := ⟨hcareful, fun _ _ => trivial⟩
      exact ⟨σ₀, σ, hboot, hmove, run_refs hboot hmeets hmove⟩
    · cases hrun
  · cases hrun

/-- Sigma0 names a thread as the space that does not exist, and the new thread has no task. -/
theorem unknownSpace_not_refs : ∃ σ₀ σ, boot .sparc board found = .ok σ₀ ∧
    runAll (move .sparc board) σ₀ [.call (control 141 142 Thrid.nil 0xffffffff)] = .ok σ ∧
    ¬ σ.Refs .sparc := by
  have hrun : (match boot .sparc board found with
      | .ok σ₀ => match runAll (move .sparc board) σ₀ [.call (control 141 142 Thrid.nil 0xffffffff)] with
        | .ok σ => decide ((σ.thr 13).state ≠ .idle ∧ (σ.thr 13).task = 0)
        | .error _ => false
      | .error _ => false) = true := by decide +kernel
  split at hrun
  · rename_i σ₀ hboot
    split at hrun
    · rename_i σ hmove
      obtain ⟨hex, htask⟩ := of_decide_eq_true hrun
      exact ⟨σ₀, σ, hboot, hmove, fun h => ((h.task 0).mpr ⟨13, hex, htask⟩).1 rfl⟩
    · cases hrun
  · cases hrun

end Sys

end Wrmos
