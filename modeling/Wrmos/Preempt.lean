import Wrmos.KernSpec

/-!
# Preemption by priority

`kern_timer_tick` and `kentry_irq` make threads ready and then choose who runs.  Before them the running
thread has the highest priority of the ready threads, and afterwards it should have it again.

An interrupt makes one thread ready, which is compared with the running one, so it always does.  A tick
may make many ready.  `check_ipc_timeouts` returns the first thread of a list that expires, not the one
of highest priority, and the lists are ordered by timeout: the tick keeps the property exactly when no
expiring thread is above both the running thread and the first expiring threads of the two lists
(`HeadsLead`).
-/

namespace Wrmos

open Lib

namespace Threads

variable {A : Arch} {ts ts' : Threads} {t u : Nat} {q : Que} {c : Nat}

/-! ## Lists a change of state does not touch -/

theorem eraseFrom_list {q' : Que} (hq : q' ≠ q) (hok : ts.eraseFrom q' t = .ok ts') :
    ts'.list q = ts.list q := by
  unfold eraseFrom at hok
  obtain ⟨-, hok⟩ := ensure_bind_eq_ok.mp hok
  split at hok
  · cases hok
  · obtain rfl := Except.ok.inj hok
    rw [list_upd, list_putList_ne _ (Ne.symm hq)]

theorem insertInto_list {q' : Que} {p : Nat → Bool} (hq : q' ≠ q)
    (hok : ts.insertInto q' p t = .ok ts') : ts'.list q = ts.list q := by
  unfold insertInto at hok
  obtain ⟨-, hok⟩ := ensure_bind_eq_ok.mp hok
  split at hok
  · cases hok
  · obtain rfl := Except.ok.inj hok
    rw [list_upd, list_putList_ne _ (Ne.symm hq)]

theorem delFrom_list {r : Que} (hready : ∀ p, q ≠ .ready p) (hq : r ≠ q)
    (hok : ts.delFrom t r = .ok ts') : ts'.list q = ts.list q := by
  have hwait : ∀ {r : Que} {s : TState}, r ≠ q → ts.delWaiting r s t = .ok ts' →
      ts'.list q = ts.list q := by
    intro r s hr hw
    unfold delWaiting at hw
    split at hw
    · cases hw
    · obtain ⟨-, hw⟩ := ensure_bind_eq_ok.mp hw
      exact eraseFrom_list hr hw
  cases r with
  | ready p =>
    change ts.delReady t = .ok ts' at hok
    unfold delReady at hok
    split at hok
    · cases hok
    · obtain ⟨ts₁, hers, hok⟩ := bind_eq_ok.mp hok
      obtain rfl := Except.ok.inj hok
      have he := eraseFrom_list (q := q) (Ne.symm (hready _)) hers
      split_ifs <;> exact he
  | send => exact eraseFrom_list hq hok
  | sndTimeout => exact hwait hq hok
  | rcvTimeout => exact hwait hq hok

theorem addTo_list {q' : Que} (hq : q' ≠ q) (hok : ts.addTo t q' = .ok ts') :
    ts'.list q = ts.list q := by
  cases q' with
  | ready p =>
    obtain ⟨ts₁, hins, hok⟩ := bind_eq_ok.mp hok
    have he := insertInto_list hq hins
    obtain rfl := Except.ok.inj hok
    exact he
  | send => exact insertInto_list hq hok
  | sndTimeout => exact insertInto_list hq hok
  | rcvTimeout => exact insertInto_list hq hok

/-- `state(s)` leaves a list of waiting threads alone that the thread is neither in nor bound for. -/
theorem setState_list {s : TState} (hready : ∀ p, q ≠ .ready p) (hold : (ts.thr t).que ≠ some q)
    (hnew : (entered s (ts.thr t)).que ≠ some q) (hok : ts.setState A c t s = .ok ts') :
    ts'.list q = ts.list q := by
  unfold setState at hok
  obtain ⟨-, hok⟩ := ensure_bind_eq_ok.mp hok
  obtain ⟨ts₁, hunlink, hok⟩ := bind_eq_ok.mp hok
  obtain ⟨ts₂, hlink, hdrop⟩ := bind_eq_ok.mp hok
  have h₁ : ts₁.list q = ts.list q := by
    unfold unlink at hunlink
    split at hunlink
    · obtain rfl := Except.ok.inj hunlink
      rfl
    · rename_i q' hq'
      exact delFrom_list hready (fun h => hold (h ▸ hq')) hunlink
  have hque : ((ts₁.upd t (entered s)).thr t).que ≠ some q := by
    obtain ⟨i, hi⟩ := unlink_thr hunlink
    rw [thr_upd_self, hi, setIter_self]
    convert hnew using 1
    unfold entered
    split_ifs <;> rfl
  have h₂ : ts₂.list q = ts₁.list q := by
    unfold link at hlink
    split at hlink
    · obtain rfl := Except.ok.inj hlink
      rfl
    · rename_i q' hq'
      have hl : ts₂.list q = (ts₁.upd t (entered s)).list q := addTo_list (fun h => hque (h ▸ hq')) hlink
      exact hl
  rw [(dropHeir_same hdrop).list, h₂, h₁]

/-! ## The threads that expire -/

/-- The threads that `check_ipc_timeouts(now, list)` makes ready. -/
def expiring (ts : Threads) (q : Que) (now : Nat) : List Nat :=
  (ts.members q).takeWhile fun t => decide ((ts.thr t).timeout ≤ now)

theorem entered_ready_que (th : Thread) : (entered .ready th).que = some (.ready th.prio) := rfl

theorem takeWhile_congr {α : Type} {p p' : α → Bool} :
    ∀ {l : List α}, (∀ a ∈ l, p a = p' a) → l.takeWhile p = l.takeWhile p'
  | [], _ => rfl
  | a :: l, h => by
    have ha := h a List.mem_cons_self
    have hl := takeWhile_congr fun b hb => h b (List.mem_cons_of_mem a hb)
    rw [List.takeWhile_cons, List.takeWhile_cons, ha, hl]

/-- The loop over a list: it makes the threads ready that stand before the first one with a later
timeout, leaves the others alone, and returns the first. -/
theorem expire_spec {now : Nat} : ∀ {l : List Nat} {next next' : Option Nat} {ts ts' : Threads},
    NoHeir ts → l.Nodup → expire A c now l next ts = .ok (next', ts') →
    NoHeir ts' ∧
    next' = next.or (l.takeWhile fun t => decide ((ts.thr t).timeout ≤ now)).head? ∧
    (∀ u ∈ l.takeWhile fun t => decide ((ts.thr t).timeout ≤ now),
      (ts'.thr u).state = .ready ∧ (ts'.thr u).prio = (ts.thr u).prio) ∧
    (∀ u ∉ l.takeWhile fun t => decide ((ts.thr t).timeout ≤ now),
      (ts'.thr u).bare = (ts.thr u).bare) ∧
    ∀ q, (∀ p, q ≠ .ready p) → (∀ t ∈ l, (ts.thr t).que ≠ some q) → ts'.list q = ts.list q := by
  intro l
  induction l with
  | nil =>
    intro next next' ts ts' h _ hok
    obtain ⟨rfl, rfl⟩ := Prod.mk.inj (Except.ok.inj hok)
    exact ⟨h, by simp, by simp, fun _ _ => rfl, fun _ _ _ => rfl⟩
  | cons t l ih =>
    intro next next' ts ts' h hnodup hok
    obtain ⟨htl, hnodup⟩ := List.nodup_cons.mp hnodup
    unfold expire at hok
    obtain ⟨-, hok⟩ := ensure_bind_eq_ok.mp hok
    by_cases hlate : now < (ts.thr t).timeout
    · rw [if_pos hlate] at hok
      obtain ⟨rfl, rfl⟩ := Prod.mk.inj (Except.ok.inj hok)
      have hnil : (t :: l).takeWhile (fun t => decide ((ts.thr t).timeout ≤ now)) = [] := by
        rw [List.takeWhile_cons, decide_eq_false (Nat.not_le.mpr hlate)]
        rfl
      rw [hnil]
      exact ⟨h, by simp, by simp, fun _ _ => rfl, fun _ _ _ => rfl⟩
    · rw [if_neg hlate] at hok
      dsimp only at hok
      obtain ⟨ts₁, hstate, hok⟩ := bind_eq_ok.mp hok
      obtain ⟨ts₂, hdrop, hok⟩ := bind_eq_ok.mp hok
      -- the thread is ready, and the others are as they were
      have h₁ : NoHeir ts₁ := setState_noHeir (h.of_same (sameHeirs_upd rfl rfl)) hstate
      rw [dropHeir_of_nil (h₁ t).2 hdrop] at hok
      have hself : (ts₁.thr t).state = .ready ∧ (ts₁.thr t).prio = (ts.thr t).prio := by
        have hb := setState_bare hstate t
        rw [if_pos rfl, thr_upd_self] at hb
        exact ⟨(Thread.state_of_bare hb).trans rfl, (Thread.prio_of_bare hb).trans rfl⟩
      have hother : ∀ u, u ≠ t → (ts₁.thr u).bare = (ts.thr u).bare := by
        intro u hu
        have hb := setState_bare hstate u
        rwa [if_neg hu, thr_upd_ne _ hu] at hb
      have hexp : l.takeWhile (fun t => decide ((ts₁.thr t).timeout ≤ now)) =
          l.takeWhile (fun t => decide ((ts.thr t).timeout ≤ now)) := by
        refine takeWhile_congr fun u hu => ?_
        have ht : (ts₁.thr u).timeout = (ts.thr u).timeout :=
          Thread.timeout_of_bare (hother u fun he => htl (he ▸ hu))
        rw [ht]
      have hcons : (t :: l).takeWhile (fun t => decide ((ts.thr t).timeout ≤ now)) =
          t :: l.takeWhile fun t => decide ((ts.thr t).timeout ≤ now) := by
        rw [List.takeWhile_cons, decide_eq_true (Nat.not_lt.mp hlate)]
        rfl
      obtain ⟨hnoheir, hnext, hin, hout, hlist⟩ := ih h₁ hnodup hok
      rw [hexp] at hnext hin hout
      have hnot : t ∉ l.takeWhile fun t => decide ((ts.thr t).timeout ≤ now) :=
        fun hm => htl ((List.takeWhile_subset _) hm)
      rw [hcons]
      refine ⟨hnoheir, ?_, fun u hu => ?_, fun u hu => ?_, fun q hready hque => ?_⟩
      · rw [hnext]
        cases next <;> simp
      · rcases List.mem_cons.mp hu with rfl | hu
        · have hb := hout u hnot
          exact ⟨(Thread.state_of_bare hb).trans hself.1, (Thread.prio_of_bare hb).trans hself.2⟩
        · have hut : u ≠ t := fun he => hnot (he ▸ hu)
          exact ⟨(hin u hu).1, (hin u hu).2.trans (Thread.prio_of_bare (hother u hut))⟩
      · rw [List.mem_cons, not_or] at hu
        exact (hout u hu.2).trans (hother u hu.1)
      · rw [hlist q hready fun u hu => ?_]
        · have := setState_list hready (q := q) (t := t) (s := .ready) ?_ ?_ hstate
          · exact this
          · rw [thr_upd_self]
            exact hque t List.mem_cons_self
          · rw [entered_ready_que]
            exact fun hr => hready _ (Option.some.inj hr).symm
        · rw [Thread.que_of_bare (hother u fun he => htl (he ▸ hu))]
          exact hque u (List.mem_cons_of_mem t hu)

/-- The threads of the two lists that expire. -/
def expiringAll (ts : Threads) (now : Nat) : List Nat :=
  ts.expiring .sndTimeout now ++ ts.expiring .rcvTimeout now

/-- The first thread of each list that expires. -/
def expiringHeads (ts : Threads) (now : Nat) : List Nat :=
  (ts.expiring .sndTimeout now).head?.toList ++ (ts.expiring .rcvTimeout now).head?.toList

theorem Inv.que_of_mem (h : Inv ts) (hm : t ∈ ts.members q) : (ts.thr t).que = some q := by
  have := h.count_members t q
  by_contra hne
  rw [if_neg hne] at this
  exact List.count_eq_zero.mp this hm

/-- **`check_ipc_timeouts`** makes the expiring threads of both lists ready and returns one of the first
threads, of the higher priority of the two. -/
theorem checkIpcTimeouts_spec {now : Nat} {next : Option Nat} (h : Inv ts) (hn : NoHeir ts)
    (hok : ts.checkIpcTimeouts A c now = .ok (next, ts')) :
    NoHeir ts' ∧ (∀ u, (ts'.thr u).prio = (ts.thr u).prio) ∧
    (∀ u ∈ ts.expiringAll now, (ts'.thr u).state = .ready) ∧
    (∀ u ∉ ts.expiringAll now, (ts'.thr u).state = (ts.thr u).state) ∧
    (∀ t, next = some t → t ∈ ts.expiringHeads now) ∧
    ∀ u ∈ ts.expiringHeads now, ∃ t, next = some t ∧ (ts.thr u).prio ≤ (ts.thr t).prio := by
  unfold checkIpcTimeouts at hok
  obtain ⟨⟨n1, ts₁⟩, h1, hok⟩ := bind_eq_ok.mp hok
  obtain ⟨⟨n2, ts₂⟩, h2, hok⟩ := bind_eq_ok.mp hok
  obtain ⟨hn₁, hnext₁, hin₁, hout₁, hlist₁⟩ := expire_spec hn (h.located.nodup_members _) h1
  have hinv₁ := expire_inv h h1
  obtain ⟨hn₂, hnext₂, hin₂, hout₂, -⟩ := expire_spec hn₁ (hinv₁.located.nodup_members _) h2
  -- the second loop runs over the list as it was, and over the timeouts as they were
  have hmem : ts₁.members .rcvTimeout = ts.members .rcvTimeout := by
    unfold members
    rw [hlist₁ .rcvTimeout (by simp) fun t ht => by rw [h.que_of_mem ht]; simp]
  have hexp : (ts₁.members .rcvTimeout).takeWhile (fun t => decide ((ts₁.thr t).timeout ≤ now)) =
      ts.expiring .rcvTimeout now := by
    rw [hmem]
    refine takeWhile_congr fun u hu => ?_
    rw [Thread.timeout_of_bare (hout₁ u fun hm => ?_)]
    have h1 := h.que_of_mem (List.takeWhile_subset _ hm)
    rw [h.que_of_mem hu] at h1
    simp at h1
  rw [hexp] at hnext₂ hin₂ hout₂
  change _ = Option.or none (ts.expiring .sndTimeout now).head? at hnext₁
  change ∀ u ∈ ts.expiring .sndTimeout now, _ at hin₁
  change ∀ u ∉ ts.expiring .sndTimeout now, _ at hout₁
  rw [Option.none_or] at hnext₁ hnext₂
  have hprio₁ : ∀ u, (ts₁.thr u).prio = (ts.thr u).prio := by
    intro u
    by_cases hu : u ∈ ts.expiring .sndTimeout now
    · exact (hin₁ u hu).2
    · exact Thread.prio_of_bare (hout₁ u hu)
  have hprio₂ : ∀ u, (ts₂.thr u).prio = (ts.thr u).prio := by
    intro u
    by_cases hu : u ∈ ts.expiring .rcvTimeout now
    · exact (hin₂ u hu).2.trans (hprio₁ u)
    · exact (Thread.prio_of_bare (hout₂ u hu)).trans (hprio₁ u)
  have hready : ∀ u ∈ ts.expiringAll now, (ts₂.thr u).state = .ready := by
    intro u hu
    by_cases h2 : u ∈ ts.expiring .rcvTimeout now
    · exact (hin₂ u h2).1
    · have h1 : u ∈ ts.expiring .sndTimeout now := (List.mem_append.mp hu).resolve_right h2
      exact (Thread.state_of_bare (hout₂ u h2)).trans (hin₁ u h1).1
  have hsame : ∀ u ∉ ts.expiringAll now, (ts₂.thr u).state = (ts.thr u).state := by
    intro u hu
    obtain ⟨hu1, hu2⟩ := not_or.mp fun h => hu (List.mem_append.mpr h)
    exact (Thread.state_of_bare (hout₂ u hu2)).trans (Thread.state_of_bare (hout₁ u hu1))
  dsimp only at hok
  unfold expiringHeads
  rw [← hnext₁, ← hnext₂]
  split at hok <;> obtain ⟨rfl, rfl⟩ := Prod.mk.inj (Except.ok.inj hok) <;>
    refine ⟨hn₂, hprio₂, hready, hsame, ?_, ?_⟩
  · rename_i t1 t2
    rw [hn₂.prioMax, hn₂.prioMax, hprio₂, hprio₂]
    intro t ht
    obtain rfl := Option.some.inj ht
    split_ifs <;> simp
  · rename_i t1 t2
    rw [hn₂.prioMax, hn₂.prioMax, hprio₂, hprio₂]
    intro u hu
    refine ⟨_, rfl, ?_⟩
    simp only [Option.toList_some, List.cons_append, List.nil_append, List.mem_cons,
      List.not_mem_nil, or_false] at hu
    rcases hu with rfl | rfl <;> split_ifs with hlt <;> omega
  · simp
  · simp
  · intro t ht
    simp [ht]
  · intro u hu
    exact ⟨u, by simpa using hu, Nat.le_refl _⟩

/-! ## No priority stays passed on -/

/-- How `do_ipc` calls the operations: it passes its priority on to a thread that `Threads_t::find`
returned, whose identifier is not nil. -/
def CalledInIpc (ts : Threads) (e : Nat × ThreadOp) : Prop :=
  Called ts e ∧
    match e with
    | (_, .saveSnd _ _ _ _ partner) | (_, .saveRcv _ _ _ _ partner) =>
      ∀ u ∈ partner, (ts.thr u).globid ≠ Thrid.nil
    | _ => True

theorem expire_noHeir {now : Nat} {l : List Nat} {next next' : Option Nat} (h : NoHeir ts)
    (hok : expire A c now l next ts = .ok (next', ts')) : NoHeir ts' := by
  induction l generalizing ts next with
  | nil =>
    obtain ⟨-, rfl⟩ := Prod.mk.inj (Except.ok.inj hok)
    exact h
  | cons t l ih =>
    unfold expire at hok
    obtain ⟨-, hok⟩ := ensure_bind_eq_ok.mp hok
    by_cases hlate : now < (ts.thr t).timeout
    · rw [if_pos hlate] at hok
      obtain ⟨-, rfl⟩ := Prod.mk.inj (Except.ok.inj hok)
      exact h
    · rw [if_neg hlate] at hok
      dsimp only at hok
      obtain ⟨ts₁, hstate, hok⟩ := bind_eq_ok.mp hok
      obtain ⟨ts₂, hdrop, hok⟩ := bind_eq_ok.mp hok
      have h₁ : NoHeir ts₁ := setState_noHeir (h.of_same (sameHeirs_upd rfl rfl)) hstate
      rw [dropHeir_of_nil (h₁ t).2 hdrop] at hok
      exact ih h₁ hok

theorem checkIpcTimeouts_noHeir {now : Nat} {next : Option Nat} (h : NoHeir ts)
    (hok : ts.checkIpcTimeouts A c now = .ok (next, ts')) : NoHeir ts' := by
  unfold checkIpcTimeouts at hok
  obtain ⟨⟨n1, ts₁⟩, h1, hok⟩ := bind_eq_ok.mp hok
  obtain ⟨⟨n2, ts₂⟩, h2, hok⟩ := bind_eq_ok.mp hok
  have hn := expire_noHeir (expire_noHeir h h1) h2
  dsimp only at hok
  split at hok <;> (obtain ⟨-, rfl⟩ := Prod.mk.inj (Except.ok.inj hok); exact hn)

theorem getHighest_noHeir (h : NoHeir ts) (hok : ts.getHighestPrioReadyThread = .ok (t, ts')) :
    NoHeir ts' := by
  unfold getHighestPrioReadyThread at hok
  split at hok
  · cases hok
  · split at hok
    · cases hok
    · split_ifs at hok
      · obtain ⟨⟨first, ts₁⟩, hexp, hok⟩ := bind_eq_ok.mp hok
        dsimp only at hok
        split at hok
        · cases hok
        · obtain ⟨-, rfl⟩ := Prod.mk.inj (Except.ok.inj hok)
          exact h.of_same (timesliceExpired_heirs hexp)
      · obtain ⟨-, rfl⟩ := Prod.mk.inj (Except.ok.inj hok)
        exact h

theorem doOp_noHeir {e : Nat × ThreadOp} (h : NoHeir ts) (hcall : CalledInIpc ts e)
    (hok : ts.doOp A e = .ok ts') : NoHeir ts' := by
  obtain ⟨c, op⟩ := e
  cases op with
  | create globid schedid pagerid task prio =>
    obtain ⟨⟨ts₁, n⟩, hc, rfl⟩ := map_eq_ok hok
    unfold create at hc
    obtain ⟨-, hc⟩ := ensure_bind_eq_ok.mp hc
    obtain ⟨-, hc⟩ := ensure_bind_eq_ok.mp hc
    obtain ⟨ts₂, hprio, hc⟩ := bind_eq_ok.mp hc
    obtain ⟨ts₃, hstate, hc⟩ := bind_eq_ok.mp hc
    obtain ⟨rfl, -⟩ := Prod.mk.inj (Except.ok.inj hc)
    exact setState_noHeir ((h.of_same (sameHeirs_upd rfl rfl)).of_same (setPrio_heirs hprio)) hstate
  | state t s => exact setState_noHeir h hok
  | prio t v => exact h.of_same (setPrio_heirs hok)
  | saveSnd t timeout toId now partner =>
    obtain ⟨ts₁, hinh, hsave⟩ := bind_eq_ok.mp hok
    unfold saveSndPhase at hsave
    obtain ⟨-, hsave⟩ := ensure_bind_eq_ok.mp hsave
    refine noHeir_of_lent ?_ (inheritBy_lent h hcall.2 hinh) hsave
    exact fun _ => ⟨rfl, rfl⟩
  | saveRcv t timeout fromSpec now partner =>
    obtain ⟨ts₁, hinh, hsave⟩ := bind_eq_ok.mp hok
    unfold saveRcvPhase at hsave
    obtain ⟨-, hsave⟩ := ensure_bind_eq_ok.mp hsave
    refine noHeir_of_lent ?_ (inheritBy_lent h hcall.2 hinh) hsave
    exact fun _ => ⟨rfl, rfl⟩
  | checkTimeouts now =>
    obtain ⟨⟨next, ts₁⟩, hc, rfl⟩ := map_eq_ok hok
    exact checkIpcTimeouts_noHeir h hc
  | timesliceExpired t =>
    obtain ⟨⟨first, ts₁⟩, hc, rfl⟩ := map_eq_ok hok
    exact h.of_same (timesliceExpired_heirs hc)
  | highest =>
    obtain ⟨⟨t, ts₁⟩, hc, rfl⟩ := map_eq_ok hok
    exact getHighest_noHeir h hc
  | remove globid =>
    change ts.remove A c globid = .ok ts' at hok
    unfold remove at hok
    obtain ⟨-, hok⟩ := ensure_bind_eq_ok.mp hok
    exact setState_noHeir h hok
  | write t f =>
    obtain rfl := Except.ok.inj hok
    exact h.of_same (sameHeirs_upd rfl rfl)

/-- After every sequence of operations the lists are in order and no priority is passed on. -/
theorem run_noHeir {es : List (Nat × ThreadOp)} (hcall : Meets (doOp A) CalledInIpc (init A) es)
    (hok : runAll (doOp A) (init A) es = .ok ts) : Inv ts ∧ NoHeir ts :=
  runAll_invariant (I := fun ts => Inv ts ∧ NoHeir ts)
    (fun _ _ _ h hc ho => ⟨doOp_inv h.1 hc.1 ho, doOp_noHeir h.2 hc ho⟩)
    ⟨inv_init A, fun _ => ⟨rfl, rfl⟩⟩ hcall hok

/-- The thread waits to send to `u`, or for a message of `u`. -/
def BlockedOn (A : Arch) (ts : Threads) (t u : Nat) : Prop :=
  (ts.thr t).state = .sendIpc ∧ ts.find A (ts.thr t).task (ts.thr t).ipcTo = .ok (some u) ∨
    (ts.thr t).state = .receiveIpc ∧ ts.find A (ts.thr t).task (ts.thr t).fromSpec = .ok (some u)

/-- The partner of a blocked thread of higher priority runs with its priority. -/
def PrioPassed (A : Arch) (ts : Threads) : Prop :=
  ∀ t u, BlockedOn A ts t u → (ts.thr u).prio < (ts.thr t).prio →
    (ts.thr t).prioMax ≤ (ts.thr u).prioMax

/-- No thread holds a priority of a thread that is not blocked. -/
def PrioReturned (ts : Threads) : Prop :=
  ∀ t u, (ts.thr t).state ≠ .sendIpc → (ts.thr t).state ≠ .receiveIpc →
    ∀ i ∈ (ts.thr u).inherited, i.1 ≠ (ts.thr t).globid

/-- **Inheritance of priorities**, after any sequence of operations.  `do_ipc` passes the priority of
the thread on to its partner, but `state()`, with which the thread starts to wait, takes it back at
once.  So no priority is kept too long, and a partner of lower priority never runs with a higher one. -/
theorem run_prioInheritance {es : List (Nat × ThreadOp)}
    (hcall : Meets (doOp A) CalledInIpc (init A) es)
    (hok : runAll (doOp A) (init A) es = .ok ts) :
    PrioReturned ts ∧
      (PrioPassed A ts ↔ ∀ t u, BlockedOn A ts t u → (ts.thr t).prio ≤ (ts.thr u).prio) := by
  obtain ⟨-, hheir⟩ := run_noHeir hcall hok
  refine ⟨fun t u _ _ i hi => ?_, fun h t u hb => ?_, fun h t u hb hlt => ?_⟩
  · rw [(hheir u).1] at hi
    cases hi
  · by_contra hlt
    have hmax := h t u hb (Nat.not_le.mp hlt)
    rw [hheir.prioMax, hheir.prioMax] at hmax
    exact hlt hmax
  · exact absurd hlt (Nat.not_lt.mpr (h t u hb))

/-- Thread 1 waits to send to thread 2, which has the priority `low`. -/
def highSends (low : Nat) : List (Nat × ThreadOp) :=
  [(0, .create (Thrid.createGlobal .sparc 130 1) 1 1 1 low), (0, .state 2 .active),
    (0, .state 2 .ready),
    (0, .create (Thrid.createGlobal .sparc 129 1) 1 1 1 20), (0, .state 1 .active),
    (0, .state 1 .ready), (0, .saveSnd 1 0 (Thrid.createGlobal .sparc 130 1) 0 (some 2))]

instance (ts : Threads) (e : Nat × ThreadOp) : Decidable (CalledInIpc ts e) := by
  obtain ⟨c, op⟩ := e
  cases op <;> unfold CalledInIpc Called <;> infer_instance

/-- The partner has no lower priority: there is nothing to pass on. -/
theorem highSends_equal : ∃ ts, runAll (doOp .sparc) (init .sparc) (highSends 20) = .ok ts ∧
    BlockedOn .sparc ts 1 2 ∧ PrioReturned ts := by
  have hrun : (match runAll (doOp .sparc) (init .sparc) (highSends 20) with
      | .ok ts => decide ((ts.thr 1).state = .sendIpc ∧
          ts.find .sparc (ts.thr 1).task (ts.thr 1).ipcTo = .ok (some 2))
      | .error _ => false) = true := by decide +kernel
  split at hrun
  · rename_i ts hts
    exact ⟨ts, hts, .inl (of_decide_eq_true hrun),
      (run_prioInheritance (by decide +kernel) hts).1⟩
  · cases hrun

/-- A thread of priority 20 waits for one of priority 10, which goes on with priority 10. -/
theorem highSends_lower : ∃ ts, Meets (doOp .sparc) CalledInIpc (init .sparc) (highSends 10) ∧
    runAll (doOp .sparc) (init .sparc) (highSends 10) = .ok ts ∧ ¬ PrioPassed .sparc ts := by
  have hrun : (match runAll (doOp .sparc) (init .sparc) (highSends 10) with
      | .ok ts => decide (((ts.thr 1).state = .sendIpc ∧
          ts.find .sparc (ts.thr 1).task (ts.thr 1).ipcTo = .ok (some 2)) ∧
          (ts.thr 2).prio < (ts.thr 1).prio ∧ (ts.thr 2).prioMax < (ts.thr 1).prioMax)
      | .error _ => false) = true := by decide +kernel
  split at hrun
  · rename_i ts hts
    obtain ⟨hb, hlt, hmax⟩ := of_decide_eq_true hrun
    exact ⟨ts, by decide +kernel, hts, fun h => Nat.not_le.mpr hmax (h 1 2 (.inl hb) hlt)⟩
  · cases hrun

end Threads

namespace Kern

open Threads

variable {A : Arch} {k k' : Kern} {t u now : Nat}

/-- The running thread is ready, and no ready thread has a higher priority. -/
def RunsHighest (k : Kern) : Prop :=
  (k.ts.thr k.current).state = .ready ∧
    ∀ u, (k.ts.thr u).state = .ready → (k.ts.thr u).prioMax ≤ (k.ts.thr k.current).prioMax

/-- No expiring thread is above both the running thread and the first expiring threads of the two
lists. -/
def HeadsLead (k : Kern) (now : Nat) : Prop :=
  ∀ u ∈ k.ts.expiringAll now, (k.ts.thr u).prioMax ≤ (k.ts.thr k.current).prioMax ∨
    ∃ t ∈ k.ts.expiringHeads now, (k.ts.thr u).prioMax ≤ (k.ts.thr t).prioMax

instance (k : Kern) (now : Nat) : Decidable (HeadsLead k now) := by
  unfold HeadsLead; infer_instance

theorem runsHighest_switchTo (nxt : Nat) :
    RunsHighest (k.switchTo nxt now) ↔ RunsHighest { k with current := nxt } := by
  unfold RunsHighest
  simp only [switchTo_current, (switchTo_thr _ _).2, Thread.state_of_bare (switchTo_thr _ _).1]

/-- What the last lines of a tick do, when `next1` is below the running thread or above it, and
`next2` is on the running thread's level. -/
theorem runsHighest_preempt {next1 next2 : Option Nat}
    (h2 : ∀ t ∈ next2, (k.ts.thr t).state = .ready ∧
      (k.ts.thr t).prioMax = (k.ts.thr k.current).prioMax)
    (h1 : ∀ t ∈ next1, (k.ts.thr t).state = .ready) (hcur : (k.ts.thr k.current).state = .ready) :
    RunsHighest (k.preempt next1 next2 now) ↔
      ∀ u, (k.ts.thr u).state = .ready → (k.ts.thr u).prioMax ≤ (k.ts.thr k.current).prioMax ∨
        ∃ t ∈ next1, (k.ts.thr u).prioMax ≤ (k.ts.thr t).prioMax := by
  unfold preempt
  dsimp only
  split
  · -- a thread of higher priority expired
    rename_i t ht
    obtain ⟨hn, hlt⟩ := Option.filter_eq_some_iff.mp ht
    rw [decide_eq_true_eq] at hlt
    rw [runsHighest_switchTo]
    refine ⟨fun h u hu => .inr ⟨t, hn, h.2 u hu⟩, fun h => ⟨h1 t hn, fun u hu => ?_⟩⟩
    rcases h u hu with hle | ⟨t', ht', hle⟩
    · exact hle.trans hlt.le
    · obtain rfl : t = t' := Option.some.inj (hn.symm.trans ht')
      exact hle
  all_goals
    rename_i hnone
    -- the thread that expired is not above the running one
    have hle : ∀ t ∈ next1, (k.ts.thr t).prioMax ≤ (k.ts.thr k.current).prioMax := by
      intro t ht
      have := Option.filter_eq_none_iff.mp hnone t ht
      simpa using this
    have hiff : (∀ u, (k.ts.thr u).state = .ready →
        (k.ts.thr u).prioMax ≤ (k.ts.thr k.current).prioMax ∨
          ∃ t ∈ next1, (k.ts.thr u).prioMax ≤ (k.ts.thr t).prioMax) ↔
        ∀ u, (k.ts.thr u).state = .ready → (k.ts.thr u).prioMax ≤ (k.ts.thr k.current).prioMax := by
      refine ⟨fun h u hu => ?_, fun h u hu => .inl (h u hu)⟩
      rcases h u hu with hc | ⟨t, ht, htle⟩
      · exact hc
      · exact htle.trans (hle t ht)
    rw [hiff]
  · rename_i t
    obtain ⟨hr, hp⟩ := h2 t rfl
    rw [runsHighest_switchTo]
    unfold RunsHighest
    simp only [hr, hp, true_and]
  · exact ⟨fun h => h.2, fun h => ⟨hcur, h⟩⟩

/-- **The tick.**  It keeps the running thread on top exactly when the first expiring threads lead the
others. -/
theorem tick_runsHighest (hinv : Inv k.ts) (hheir : NoHeir k.ts) (hrun : RunsHighest k)
    (hok : k.kernTimerTick A now = .ok k') : RunsHighest k' ↔ HeadsLead k now := by
  obtain ⟨ts₀, next1, ts₁, next2, ts₂, ⟨hbare, hlinks, hheirs⟩, hcheck, hslice, rfl⟩ := tick_eq_ok hok
  have hinv₀ : Inv ts₀ := hinv.of_same hlinks
  have hheir₀ : NoHeir ts₀ := hheir.of_same hheirs
  have hexp : ∀ q, ts₀.expiring q now = k.ts.expiring q now := by
    intro q
    unfold expiring members
    rw [hlinks.list]
    refine takeWhile_congr fun u _ => ?_
    rw [Thread.timeout_of_bare (hbare u)]
  have hall : ts₀.expiringAll now = k.ts.expiringAll now := by
    unfold expiringAll
    rw [hexp, hexp]
  have hheads : ts₀.expiringHeads now = k.ts.expiringHeads now := by
    unfold expiringHeads
    rw [hexp, hexp]
  obtain ⟨hheir₁, hprio₁, hready₁, hsame₁, hnext, hbest⟩ := checkIpcTimeouts_spec hinv₀ hheir₀ hcheck
  have hinv₁ := checkIpcTimeouts_inv hinv₀ hcheck
  rw [hall] at hready₁ hsame₁
  rw [hheads] at hnext hbest
  have hprio : ∀ u, (ts₁.thr u).prio = (k.ts.thr u).prio :=
    fun u => (hprio₁ u).trans (Thread.prio_of_bare (hbare u))
  have hcur : (ts₁.thr k.current).state = .ready := by
    by_cases hu : k.current ∈ k.ts.expiringAll now
    · exact hready₁ _ hu
    · rw [hsame₁ _ hu, Thread.state_of_bare (hbare _)]
      exact hrun.1
  have hheadsub : ∀ t ∈ k.ts.expiringHeads now, t ∈ k.ts.expiringAll now := by
    intro t ht
    rcases List.mem_append.mp ht with h | h
    · exact List.mem_append_left _ (List.mem_of_mem_head? (Option.mem_toList.mp h))
    · exact List.mem_append_right _ (List.mem_of_mem_head? (Option.mem_toList.mp h))
  -- the time slice: the thread it returns is ready, at the priority of the running one
  have h2 : NoHeir ts₂ ∧ (∀ u, (ts₂.thr u).state = (ts₁.thr u).state ∧
      (ts₂.thr u).prio = (ts₁.thr u).prio) ∧
      ∀ t ∈ next2, (ts₂.thr t).state = .ready ∧ (ts₂.thr t).prio = (ts₂.thr k.current).prio := by
    unfold checkTimeslice at hslice
    split_ifs at hslice
    · obtain ⟨hinv₂, hfirst, hsame⟩ := timesliceExpired_spec hinv₁ rfl hslice
      refine ⟨hheir₁.of_same (timesliceExpired_heirs hslice),
        fun u => ⟨(hsame u).1, (hsame u).2.1⟩, fun t ht => ?_⟩
      obtain ⟨hr, hp⟩ := hinv₂.of_mem_ready (List.mem_of_mem_head? (hfirst ▸ ht))
      exact ⟨hr, hp.trans (hsame _).2.1.symm⟩
    · obtain ⟨rfl, rfl⟩ := Prod.mk.inj (Except.ok.inj hslice)
      exact ⟨hheir₁, fun _ => ⟨rfl, rfl⟩, fun t ht => by cases ht⟩
  obtain ⟨hheir₂, hsame₂, hnext2⟩ := h2
  have hp : ∀ u, (ts₂.thr u).prioMax = (k.ts.thr u).prioMax := by
    intro u
    rw [hheir₂.prioMax, hheir.prioMax, (hsame₂ u).2, hprio]
  rw [runsHighest_preempt]
  · simp only [(hsame₂ _).1, hp]
    unfold HeadsLead
    constructor
    · intro h u hu
      refine (h u (hready₁ u hu)).imp_right ?_
      rintro ⟨t, ht, hle⟩
      exact ⟨t, hnext t ht, hle⟩
    · intro h u hu
      by_cases hm : u ∈ k.ts.expiringAll now
      · refine (h u hm).imp_right ?_
        rintro ⟨t, ht, hle⟩
        obtain ⟨t', rfl, hle'⟩ := hbest t ht
        refine ⟨t', rfl, hle.trans ?_⟩
        rw [hheir.prioMax, hheir.prioMax, ← Thread.prio_of_bare (hbare t),
          ← Thread.prio_of_bare (hbare t')]
        exact hle'
      · rw [hsame₁ u hm, Thread.state_of_bare (hbare u)] at hu
        exact .inl (hrun.2 u hu)
  · intro t ht
    obtain ⟨hr, hpt⟩ := hnext2 t ht
    refine ⟨hr, ?_⟩
    change (ts₂.thr t).prioMax = (ts₂.thr k.current).prioMax
    rw [hheir₂.prioMax, hheir₂.prioMax]
    exact hpt
  · intro t ht
    exact (hsame₂ t).1.trans (hready₁ t (hheadsub t (hnext t ht)))
  · exact (hsame₂ k.current).1.trans hcur

/-- A thread that was woken is ready, and no priority has changed. -/
theorem wake_thr {source : Source} (hheir : NoHeir k.ts) (hok : k.wake A t source = .ok k') :
    k'.current = k.current ∧ (∀ u, (k'.ts.thr u).prioMax = (k.ts.thr u).prioMax) ∧
      (k'.ts.thr t).state = .ready ∧ ∀ u, u ≠ t → (k'.ts.thr u).state = (k.ts.thr u).state := by
  obtain ⟨ts, hts, rfl⟩ := wake_eq_ok hok
  have hheir' := setState_noHeir hheir hts
  refine ⟨rfl, fun u => ?_, ?_, fun u hu => ?_⟩
  · rw [hheir.prioMax, hheir'.prioMax]
    have hb := setState_bare hts u
    split_ifs at hb with hu
    · subst hu
      exact (Thread.prio_of_bare hb).trans rfl
    · exact Thread.prio_of_bare hb
  · have hb := setState_bare hts t
    rw [if_pos rfl] at hb
    exact Thread.state_of_bare hb
  · have hb := setState_bare hts u
    rw [if_neg hu] at hb
    exact Thread.state_of_bare hb

theorem RunsHighest.congr (h : RunsHighest k) (hts : k'.ts = k.ts) (hcur : k'.current = k.current) :
    RunsHighest k' := by
  unfold RunsHighest
  rw [hts, hcur]
  exact h

/-- A thread that an interrupt makes ready is compared with the running one. -/
theorem deliverIrq_runsHighest {irq dst : Nat} (hheir : NoHeir k.ts) (hrun : RunsHighest k)
    (hok : k.deliverIrq A irq dst now = .ok k') : RunsHighest k' := by
  obtain ⟨k₀, k₁, hthr, hheirs, hcur₀, hwake, rfl⟩ := deliverIrq_eq_ok hok
  obtain ⟨hcur₁, hprio, hdst, hother⟩ := wake_thr (hheir.of_same hheirs) hwake
  have hprio' : ∀ u, (k₁.ts.thr u).prioMax = (k.ts.thr u).prioMax :=
    fun u => (hprio u).trans (hthr u).2
  have hcur : k₁.current = k.current := hcur₁.trans hcur₀
  have hle : ∀ u, (k₁.ts.thr u).state = .ready → u ≠ dst →
      (k.ts.thr u).prioMax ≤ (k.ts.thr k.current).prioMax := by
    intro u hu hne
    rw [hother u hne, (hthr u).1] at hu
    exact hrun.2 u hu
  split_ifs with hlt
  · rw [runsHighest_switchTo]
    refine ⟨hdst, fun u hu => ?_⟩
    change (k₁.ts.thr u).prioMax ≤ (k₁.ts.thr dst).prioMax
    by_cases hne : u = dst
    · rw [hne]
    · rw [hprio', hcur, hprio'] at hlt
      rw [hprio', hprio']
      exact (hle u hu hne).trans hlt.le
  · refine ⟨?_, fun u hu => ?_⟩
    · by_cases hne : k₁.current = dst
      · rw [hne]
        exact hdst
      · rw [hother _ hne, (hthr _).1, hcur]
        exact hrun.1
    · by_cases hne : u = dst
      · rw [hne]
        exact Nat.not_lt.mp hlt
      · rw [hcur, hprio', hprio']
        exact hle u hu hne

/-- **An interrupt** leaves a thread of maximal priority running. -/
theorem routeIrq_runsHighest {irq : Nat} (hheir : NoHeir k.ts) (hrun : RunsHighest k)
    (hok : k.routeIrq A irq now = .ok k') : RunsHighest k' := by
  obtain ⟨intc, dst, -, -, -, -, hpass⟩ := routeIrq_eq_ok hok
  rcases passIrq_cases hpass with ⟨-, -, -, hdel⟩ | ⟨-, rfl⟩
  · exact deliverIrq_runsHighest (k := ({ k with intc := intc } : Kern).noteRaised irq) hheir
      (hrun.congr rfl rfl) hdel
  · exact hrun.congr rfl rfl

/-- **Preemption by priority**, in every state that any sequence of thread operations leads to and in
which the running thread is on top: a tick leaves a thread of maximal priority running exactly when the
first expiring threads lead the others, and an interrupt always does. -/
theorem preempt_runsHighest {es : List (Nat × ThreadOp)}
    (hcall : Meets (doOp A) CalledInIpc (init A) es)
    (hreach : runAll (doOp A) (init A) es = .ok k.ts) (hrun : RunsHighest k) :
    (∀ now k', k.kernTimerTick A now = .ok k' → (RunsHighest k' ↔ HeadsLead k now)) ∧
    ∀ timerIrq irq now k', irq ≠ timerIrq → k.kentryIrq A timerIrq irq now = .ok k' →
      RunsHighest k' := by
  obtain ⟨hinv, hheir⟩ := run_noHeir hcall hreach
  refine ⟨fun now k' hok => tick_runsHighest hinv hheir hrun hok, ?_⟩
  intro timerIrq irq now k' hne hok
  unfold kentryIrq at hok
  obtain ⟨intc, -, hok⟩ := bind_eq_ok.mp hok
  dsimp only at hok
  rw [if_neg hne] at hok
  exact routeIrq_runsHighest (k := { k with intc := intc }) hheir hrun hok

/-- A thread of priority 10 runs, one of priority 5 waits for `low` and one of priority 20 waits for
`high` microseconds. -/
def twoWait (low high : Nat) : List (Nat × ThreadOp) :=
  [(0, .create (Thrid.createGlobal .sparc 129 1) 1 1 1 10), (0, .state 1 .active),
    (0, .state 1 .ready),
    (0, .create (Thrid.createGlobal .sparc 130 1) 1 1 1 5), (0, .state 2 .active),
    (0, .state 2 .ready), (0, .saveRcv 2 low (Thrid.any .sparc) 1000 none),
    (0, .create (Thrid.createGlobal .sparc 131 1) 1 1 1 20), (0, .state 3 .active),
    (0, .state 3 .ready), (0, .saveRcv 3 high (Thrid.any .sparc) 1000 none)]

theorem twoWait_called (low high : Nat) :
    Meets (doOp .sparc) CalledInIpc (init .sparc) (twoWait low high) := by
  refine meets_of_forall fun e he ts => ?_
  simp only [twoWait, List.mem_cons, List.not_mem_nil, or_false] at he
  rcases he with rfl | rfl | rfl | rfl | rfl | rfl | rfl | rfl | rfl | rfl | rfl <;>
    simp [CalledInIpc, Called]

/-- The highest bit of `_ready_bits` tells that the running thread is on top. -/
theorem runsHighest_of_topPrio (hinv : Inv k.ts) (hheir : NoHeir k.ts)
    (hr : (k.ts.thr k.current).state = .ready)
    (htop : topPrio k.ts.readyBits 8 = some (k.ts.thr k.current).prio) : RunsHighest k := by
  refine ⟨hr, fun u hu => ?_⟩
  rw [hheir.prioMax, hheir.prioMax]
  exact hinv.top_ready htop hu

theorem twoWait_runsHighest {low high : Nat} {ts : Threads}
    (h : runAll (doOp .sparc) (init .sparc) (twoWait low high) = .ok ts)
    (hr : (ts.thr 1).state = .ready) (htop : topPrio ts.readyBits 8 = some (ts.thr 1).prio) :
    RunsHighest (start .sparc ts 1) := by
  obtain ⟨hinv, hheir⟩ := run_noHeir (twoWait_called low high) h
  exact runsHighest_of_topPrio hinv hheir hr htop

/-- The thread of higher priority expires first: it runs. -/
theorem twoWait_highFirst : ∃ ts k',
    runAll (doOp .sparc) (init .sparc) (twoWait 0xc8 0x64) = .ok ts ∧
      (start .sparc ts 1).kernTimerTick .sparc 50000 = .ok k' ∧ RunsHighest k' := by
  have hrun : (runAll (doOp .sparc) (init .sparc) (twoWait 0xc8 0x64) >>= fun ts =>
      ((start .sparc ts 1).kernTimerTick .sparc 50000).map fun _ =>
        decide ((ts.thr 1).state = .ready ∧ topPrio ts.readyBits 8 = some (ts.thr 1).prio ∧
          HeadsLead (start .sparc ts 1) 50000)) = .ok true := by decide +kernel
  obtain ⟨ts, hts, hrun⟩ := bind_eq_ok.mp hrun
  obtain ⟨k', hk', hrun⟩ := map_eq_ok hrun
  obtain ⟨hr, htop, hlead⟩ := of_decide_eq_true hrun
  have hmax := preempt_runsHighest (k := start .sparc ts 1) (twoWait_called 0xc8 0x64) hts
    (twoWait_runsHighest hts hr htop)
  exact ⟨ts, k', hts, hk', (hmax.1 50000 k' hk').mpr hlead⟩

/-- The thread of lower priority stands first in the list: both expire in the same tick, and the
running thread goes on below a ready one. -/
theorem twoWait_lowFirst : ∃ ts k',
    Meets (doOp .sparc) CalledInIpc (init .sparc) (twoWait 0x64 0xc8) ∧
      runAll (doOp .sparc) (init .sparc) (twoWait 0x64 0xc8) = .ok ts ∧
      RunsHighest (start .sparc ts 1) ∧
      (start .sparc ts 1).kernTimerTick .sparc 50000 = .ok k' ∧ ¬ RunsHighest k' := by
  have hrun : (runAll (doOp .sparc) (init .sparc) (twoWait 0x64 0xc8) >>= fun ts =>
      ((start .sparc ts 1).kernTimerTick .sparc 50000).map fun k' =>
        decide ((ts.thr 1).state = .ready ∧ topPrio ts.readyBits 8 = some (ts.thr 1).prio ∧
          (k'.ts.thr 3).state = .ready ∧
          (k'.ts.thr k'.current).prioMax < (k'.ts.thr 3).prioMax)) = .ok true := by decide +kernel
  obtain ⟨ts, hts, hrun⟩ := bind_eq_ok.mp hrun
  obtain ⟨k', hk', hrun⟩ := map_eq_ok hrun
  obtain ⟨hr, htop, h3, hlt⟩ := of_decide_eq_true hrun
  exact ⟨ts, k', twoWait_called _ _, hts, twoWait_runsHighest hts hr htop, hk',
    fun h => Nat.not_le.mpr hlt (h.2 3 h3)⟩

end Kern

end Wrmos
