import Wrmos.ThreadsRun

/-!
# What an operation does to the fields of the threads

The invariant of the lists says nothing about the fields that decide who talks to whom.  A thread
without what the scheduler keeps about it is its *bare* thread, and `state(s)` changes the bare thread
of one thread only, whatever lists it is moved between (`setState_bare`).

The priorities that threads inherit are another part: `do_ipc` passes a priority on just before
`save_snd_phase` or `save_rcv_phase`, and both end in `state()`, whose last lines take it back.  So
between two operations no thread has an inherited priority at all (`NoHeir`), and `prio_max` is `prio`.
-/

namespace Wrmos

/-- The thread without its place in a list, its inherited priorities and its time slice. -/
def Thread.bare (th : Thread) : Thread :=
  { th with iter := none, inherited := [], prioHeir := Thrid.nil, timeslice := 0, updatePoint := 0 }

namespace Thread

variable {th th' : Thread}

theorem state_of_bare (h : th'.bare = th.bare) : th'.state = th.state := by
  injection h

theorem prio_of_bare (h : th'.bare = th.bare) : th'.prio = th.prio := by
  injection h

theorem timeout_of_bare (h : th'.bare = th.bare) : th'.timeout = th.timeout := by
  injection h

theorem fromSpec_of_bare (h : th'.bare = th.bare) : th'.fromSpec = th.fromSpec := by
  injection h

theorem que_of_bare (h : th'.bare = th.bare) : th'.que = th.que := by
  unfold que
  rw [state_of_bare h, timeout_of_bare h, prio_of_bare h]

end Thread

open Lib

namespace Threads

variable {A : Arch} {ts ts' : Threads} {t u : Nat} {q : Que} {c : Nat}

/-! ## Bare threads -/

/-- Only what the scheduler keeps about the threads differs. -/
def SameBare (ts ts' : Threads) : Prop := ∀ u, (ts'.thr u).bare = (ts.thr u).bare

theorem SameBare.refl (ts : Threads) : SameBare ts ts := fun _ => rfl

theorem SameBare.trans {ts₁ : Threads} (h : SameBare ts ts₁) (h' : SameBare ts₁ ts') :
    SameBare ts ts' :=
  fun u => (h' u).trans (h u)

theorem bare_upd {f : Thread → Thread} (hf : (f (ts.thr t)).bare = (ts.thr t).bare) :
    SameBare ts (ts.upd t f) := by
  intro u
  by_cases hu : u = t
  · subst hu
    rw [thr_upd_self, hf]
  · rw [thr_upd_ne f hu]

theorem insertInto_thr {p : Nat → Bool} (hok : ts.insertInto q p t = .ok ts') :
    ∃ i, ts'.thr = ts.setIter t i := by
  unfold insertInto at hok
  obtain ⟨-, hok⟩ := ensure_bind_eq_ok.mp hok
  split at hok
  · cases hok
  · rename_i l n _
    obtain rfl := Except.ok.inj hok
    exact ⟨some (q, n), rfl⟩

theorem addTo_thr (hok : ts.addTo t q = .ok ts') : ∃ i, ts'.thr = ts.setIter t i := by
  cases q with
  | ready p =>
    obtain ⟨ts₁, hins, hok⟩ := bind_eq_ok.mp hok
    obtain ⟨i, hi⟩ := insertInto_thr hins
    obtain rfl := Except.ok.inj hok
    exact ⟨i, hi⟩
  | send => exact insertInto_thr hok
  | sndTimeout => exact insertInto_thr hok
  | rcvTimeout => exact insertInto_thr hok

theorem eraseFrom_thr (hok : ts.eraseFrom q t = .ok ts') : ts'.thr = ts.setIter t none := by
  unfold eraseFrom at hok
  obtain ⟨-, hok⟩ := ensure_bind_eq_ok.mp hok
  split at hok
  · cases hok
  · obtain rfl := Except.ok.inj hok
    rfl

theorem delReady_thr (hok : ts.delReady t = .ok ts') : ts'.thr = ts.setIter t none := by
  unfold delReady at hok
  split at hok
  · cases hok
  · obtain ⟨ts₁, hers, hok⟩ := bind_eq_ok.mp hok
    obtain rfl := Except.ok.inj hok
    have he := eraseFrom_thr hers
    split_ifs <;> exact he

theorem delWaiting_thr {s : TState} (hok : ts.delWaiting q s t = .ok ts') :
    ts'.thr = ts.setIter t none := by
  unfold delWaiting at hok
  split at hok
  · cases hok
  · obtain ⟨-, hok⟩ := ensure_bind_eq_ok.mp hok
    exact eraseFrom_thr hok

theorem delFrom_thr (hok : ts.delFrom t q = .ok ts') : ts'.thr = ts.setIter t none := by
  cases q with
  | ready p => exact delReady_thr hok
  | send => exact eraseFrom_thr hok
  | sndTimeout => exact delWaiting_thr hok
  | rcvTimeout => exact delWaiting_thr hok

theorem unlink_thr (hok : ts.unlink t = .ok ts') : ∃ i, ts'.thr = ts.setIter t i := by
  unfold unlink at hok
  split at hok
  · obtain rfl := Except.ok.inj hok
    refine ⟨(ts.thr t).iter, ?_⟩
    funext u
    by_cases hu : u = t
    · subst hu
      rw [setIter_self]
    · rw [setIter_ne _ hu]
  · exact ⟨none, delFrom_thr hok⟩

theorem link_thr (hok : ts.link t = .ok ts') : ∃ i, ts'.thr = ts.setIter t i := by
  unfold link at hok
  split at hok
  · obtain rfl := Except.ok.inj hok
    refine ⟨(ts.thr t).iter, ?_⟩
    funext u
    by_cases hu : u = t
    · subst hu
      rw [setIter_self]
    · rw [setIter_ne _ hu]
  · exact addTo_thr hok

/-- `state(s)` up to its last lines: the thread enters the state and gets some iterator, and nothing
else happens to any thread. -/
theorem setState_thr {s : TState} (hok : ts.setState A c t s = .ok ts') :
    ∃ (ts₁ : Threads) (i : Option (Que × Nat)), ts₁.dropHeir A c t = .ok ts' ∧
      ts₁.thr = Function.update ts.thr t ({ entered s (ts.thr t) with iter := i } : Thread) := by
  unfold setState at hok
  obtain ⟨-, hok⟩ := ensure_bind_eq_ok.mp hok
  obtain ⟨ts₁, hunlink, hok⟩ := bind_eq_ok.mp hok
  obtain ⟨ts₂, hlink, hdrop⟩ := bind_eq_ok.mp hok
  obtain ⟨i, hi⟩ := unlink_thr hunlink
  obtain ⟨j, hj⟩ := link_thr hlink
  refine ⟨ts₂, j, hdrop, ?_⟩
  funext u
  rw [hj]
  by_cases hu : u = t
  · subst hu
    rw [setIter_self, thr_upd_self, hi, setIter_self, Function.update_self]
    unfold entered
    split_ifs <;> rfl
  · rw [setIter_ne _ hu, thr_upd_ne _ hu, hi, setIter_ne _ hu, Function.update_of_ne hu]

theorem inheritPrioAdd_bare {owner prio : Nat} (hok : ts.inheritPrioAdd t owner prio = .ok ts') :
    SameBare ts ts' := by
  unfold inheritPrioAdd at hok
  simp only [ensure_bind_eq_ok] at hok
  obtain rfl := Except.ok.inj hok.2.2.2
  exact bare_upd rfl

theorem inheritPrioDel_bare {owner prio : Nat} (hok : ts.inheritPrioDel t owner prio = .ok ts') :
    SameBare ts ts' := by
  unfold inheritPrioDel at hok
  obtain ⟨-, hok⟩ := ensure_bind_eq_ok.mp hok
  split at hok
  · cases hok
  · obtain ⟨-, hok⟩ := ensure_bind_eq_ok.mp hok
    obtain rfl := Except.ok.inj hok
    exact bare_upd rfl

theorem dropHeir_bare (hok : ts.dropHeir A c t = .ok ts') : SameBare ts ts' := by
  unfold dropHeir at hok
  split_ifs at hok with hnil
  · obtain rfl := Except.ok.inj hok
    exact SameBare.refl ts
  · obtain ⟨r, -, hok⟩ := bind_eq_ok.mp hok
    cases r with
    | none => cases hok
    | some u =>
      obtain ⟨ts₁, hdel, hok⟩ := bind_eq_ok.mp hok
      obtain rfl := Except.ok.inj hok
      exact (inheritPrioDel_bare hdel).trans (bare_upd rfl)

theorem inheritPrio_bare {partner : Nat} (hok : ts.inheritPrio t partner = .ok ts') :
    SameBare ts ts' := by
  unfold inheritPrio at hok
  split_ifs at hok
  · obtain ⟨ts₁, hadd, hok⟩ := bind_eq_ok.mp hok
    obtain rfl := Except.ok.inj hok
    exact (inheritPrioAdd_bare hadd).trans (bare_upd rfl)
  · obtain rfl := Except.ok.inj hok
    exact SameBare.refl ts

/-- **`state(s)`** changes the bare thread of its thread only. -/
theorem setState_bare {s : TState} (hok : ts.setState A c t s = .ok ts') (u : Nat) :
    (ts'.thr u).bare = if u = t then (entered s (ts.thr t)).bare else (ts.thr u).bare := by
  obtain ⟨ts₁, i, hdrop, he⟩ := setState_thr hok
  rw [dropHeir_bare hdrop u, he]
  split_ifs with hu
  · subst hu
    rw [Function.update_self]
    rfl
  · rw [Function.update_of_ne hu]

theorem timesliceExpired_bare {que first : Option Nat}
    (hok : ts.timesliceExpired t que = .ok (first, ts')) : SameBare ts ts' := by
  unfold timesliceExpired at hok
  obtain ⟨-, hok⟩ := ensure_bind_eq_ok.mp hok
  obtain ⟨-, hok⟩ := ensure_bind_eq_ok.mp hok
  dsimp only at hok
  have hslice : SameBare ts (ts.upd t fun th => { th with timeslice := timesliceUsec }) :=
    bare_upd rfl
  split_ifs at hok
  · split at hok
    · split at hok
      · cases hok
      · obtain ⟨-, rfl⟩ := Prod.mk.inj (Except.ok.inj hok)
        exact hslice.trans (bare_upd rfl)
    · cases hok
  · obtain ⟨-, rfl⟩ := Prod.mk.inj (Except.ok.inj hok)
    exact hslice

theorem getHighest_bare (hok : ts.getHighestPrioReadyThread = .ok (t, ts')) : SameBare ts ts' := by
  unfold getHighestPrioReadyThread at hok
  split at hok
  · cases hok
  · split at hok
    · cases hok
    · split_ifs at hok
      · obtain ⟨⟨first, ts₁⟩, hexp, hok⟩ := bind_eq_ok.mp hok
        dsimp only at hok
        split at hok
        · cases hok
        · obtain ⟨-, rfl⟩ := Prod.mk.inj (Except.ok.inj hok)
          exact timesliceExpired_bare hexp
      · obtain ⟨-, rfl⟩ := Prod.mk.inj (Except.ok.inj hok)
        exact SameBare.refl ts

theorem saveSndPhase_bare {timeout toId now : Nat}
    (hok : ts.saveSndPhase A c t timeout toId now = .ok ts') (u : Nat) :
    (ts'.thr u).bare = if u = t then
      ({ ts.thr t with
        state := .sendIpc, timeout := Thread.deadline A timeout now, ipcTo := toId } : Thread).bare
      else (ts.thr u).bare := by
  unfold saveSndPhase at hok
  obtain ⟨-, hok⟩ := ensure_bind_eq_ok.mp hok
  rw [setState_bare hok u]
  split_ifs with hu
  · rw [thr_upd_self]
    rfl
  · rw [thr_upd_ne _ hu]

theorem saveRcvPhase_bare {timeout fromSpec now : Nat}
    (hok : ts.saveRcvPhase A c t timeout fromSpec now = .ok ts') (u : Nat) :
    (ts'.thr u).bare = if u = t then
      ({ ts.thr t with
        state := .receiveIpc, timeout := Thread.deadline A timeout now,
        fromSpec := fromSpec } : Thread).bare
      else (ts.thr u).bare := by
  unfold saveRcvPhase at hok
  obtain ⟨-, hok⟩ := ensure_bind_eq_ok.mp hok
  rw [setState_bare hok u]
  split_ifs with hu
  · rw [thr_upd_self]
    rfl
  · rw [thr_upd_ne _ hu]

/-! ## Inherited priorities -/

/-- No thread has inherited a priority, and none has passed its own on. -/
def NoHeir (ts : Threads) : Prop :=
  ∀ u, (ts.thr u).inherited = [] ∧ (ts.thr u).prioHeir = Thrid.nil

/-- Thread `t` has passed its priority on to `u`, and nobody else has done so. -/
structure Lent (ts : Threads) (t u : Nat) : Prop where
  heir : (ts.thr t).prioHeir ≠ Thrid.nil
  others : ∀ w, w ≠ t → (ts.thr w).prioHeir = Thrid.nil
  one : ∃ i, (ts.thr u).inherited = [i]
  none : ∀ w, w ≠ u → (ts.thr w).inherited = []

theorem NoHeir.prioMax (h : NoHeir ts) (u : Nat) : (ts.thr u).prioMax = (ts.thr u).prio := by
  simp [Thread.prioMax, (h u).1]

/-- The priorities passed on are the same. -/
def SameHeirs (ts ts' : Threads) : Prop :=
  ∀ u, (ts'.thr u).inherited = (ts.thr u).inherited ∧ (ts'.thr u).prioHeir = (ts.thr u).prioHeir

theorem NoHeir.of_same (h : NoHeir ts) (hs : SameHeirs ts ts') : NoHeir ts' :=
  fun u => ⟨(hs u).1.trans (h u).1, (hs u).2.trans (h u).2⟩

theorem Lent.of_same (h : Lent ts t u) (hs : SameHeirs ts ts') : Lent ts' t u := by
  refine ⟨(hs t).2.trans_ne h.heir, fun w hw => (hs w).2.trans (h.others w hw), ?_,
    fun w hw => (hs w).1.trans (h.none w hw)⟩
  obtain ⟨i, hi⟩ := h.one
  exact ⟨i, (hs u).1.trans hi⟩

theorem sameHeirs_upd {f : Thread → Thread} (hi : (f (ts.thr t)).inherited = (ts.thr t).inherited)
    (hh : (f (ts.thr t)).prioHeir = (ts.thr t).prioHeir) : SameHeirs ts (ts.upd t f) := by
  intro u
  by_cases hu : u = t
  · subst hu
    rw [thr_upd_self]
    exact ⟨hi, hh⟩
  · rw [thr_upd_ne f hu]
    exact ⟨rfl, rfl⟩

theorem dropHeir_of_nil (h : (ts.thr t).prioHeir = Thrid.nil) (hok : ts.dropHeir A c t = .ok ts') :
    ts' = ts := by
  unfold dropHeir at hok
  rw [if_pos h] at hok
  exact (Except.ok.inj hok).symm

/-- The last lines of `state()` take the one priority back that was passed on: they stop unless the
thread they find is the one that has it. -/
theorem Lent.dropHeir (h : Lent ts t u) (hok : ts.dropHeir A c t = .ok ts') : NoHeir ts' := by
  unfold Threads.dropHeir at hok
  rw [if_neg h.heir] at hok
  obtain ⟨r, -, hok⟩ := bind_eq_ok.mp hok
  cases r with
  | none => cases hok
  | some v =>
    obtain ⟨ts₁, hdel, hok⟩ := bind_eq_ok.mp hok
    obtain rfl := Except.ok.inj hok
    unfold inheritPrioDel at hdel
    obtain ⟨-, hdel⟩ := ensure_bind_eq_ok.mp hdel
    split at hdel
    · cases hdel
    · rename_i i hfind
      obtain ⟨-, hdel⟩ := ensure_bind_eq_ok.mp hdel
      obtain rfl := Except.ok.inj hdel
      have hv : v = u := by
        by_contra hne
        rw [h.none v hne] at hfind
        cases hfind
      subst hv
      have hgone : (ts.thr v).inherited.eraseP (fun i => i.1 = (ts.thr t).globid) = [] := by
        obtain ⟨j, hj⟩ := h.one
        rw [hj] at hfind ⊢
        have hp := List.find?_some hfind
        obtain rfl := List.mem_singleton.mp (List.mem_of_find?_eq_some hfind)
        simp only [List.eraseP_cons, hp, cond_true]
      intro w
      by_cases hwt : w = t <;> by_cases hwv : w = v
      · subst hwt hwv
        simpa using hgone
      · subst hwt
        simp [thr_upd_ne _ hwv, h.none w hwv]
      · subst hwv
        simp [thr_upd_ne _ hwt, hgone, h.others w hwt]
      · rw [thr_upd_ne _ hwt, thr_upd_ne _ hwv]
        exact ⟨h.none w hwv, h.others w hwt⟩

/-- Up to its last lines `state()` leaves the priorities passed on as they are. -/
theorem setState_heirs {s : TState} (hok : ts.setState A c t s = .ok ts') :
    ∃ ts₁ : Threads, ts₁.dropHeir A c t = .ok ts' ∧ SameHeirs ts ts₁ := by
  obtain ⟨ts₁, i, hdrop, he⟩ := setState_thr hok
  refine ⟨ts₁, hdrop, fun u => ?_⟩
  rw [he]
  by_cases hu : u = t
  · subst hu
    rw [Function.update_self]
    unfold entered
    split_ifs <;> exact ⟨rfl, rfl⟩
  · rw [Function.update_of_ne hu]
    exact ⟨rfl, rfl⟩

theorem setState_noHeir {s : TState} (h : NoHeir ts) (hok : ts.setState A c t s = .ok ts') :
    NoHeir ts' := by
  obtain ⟨ts₁, hdrop, hs⟩ := setState_heirs hok
  have h₁ := h.of_same hs
  rwa [dropHeir_of_nil (h₁ t).2 hdrop]

theorem Lent.setState {s : TState} (h : Lent ts t u) (hok : ts.setState A c t s = .ok ts') :
    NoHeir ts' := by
  obtain ⟨ts₁, hdrop, hs⟩ := setState_heirs hok
  exact (h.of_same hs).dropHeir hdrop

/-- Before a thread waits it passes its priority on, or there was no need to. -/
theorem inheritBy_lent {partner : Option Nat} (h : NoHeir ts)
    (hp : ∀ u ∈ partner, (ts.thr u).globid ≠ Thrid.nil) (hok : ts.inheritBy t partner = .ok ts') :
    NoHeir ts' ∨ ∃ u, Lent ts' t u := by
  cases partner with
  | none =>
    obtain rfl := Except.ok.inj hok
    exact .inl h
  | some u =>
    unfold inheritBy inheritPrio at hok
    dsimp only at hok
    split_ifs at hok
    · obtain ⟨ts₁, hadd, hok⟩ := bind_eq_ok.mp hok
      obtain rfl := Except.ok.inj hok
      unfold inheritPrioAdd at hadd
      simp only [ensure_bind_eq_ok] at hadd
      obtain ⟨howner, -, -, hadd⟩ := hadd
      obtain rfl := Except.ok.inj hadd
      have hut : u ≠ t := by
        rintro rfl
        exact howner rfl
      refine .inr ⟨u, ?_, fun w hw => ?_, ⟨((ts.thr t).globid, (ts.thr t).prioMax), ?_⟩,
        fun w hw => ?_⟩
      · simpa using hp u rfl
      · rw [thr_upd_ne _ hw]
        by_cases hwu : w = u
        · subst hwu
          simpa using (h w).2
        · rw [thr_upd_ne _ hwu]
          exact (h w).2
      · rw [thr_upd_ne _ hut, thr_upd_self]
        simp [(h u).1]
      · by_cases hwt : w = t
        · subst hwt
          simpa [thr_upd_ne _ hw] using (h w).1
        · rw [thr_upd_ne _ hwt, thr_upd_ne _ hw]
          exact (h w).1
    · obtain rfl := Except.ok.inj hok
      exact .inl h

/-- Whatever was passed on before a thread waits is taken back when it begins to. -/
theorem noHeir_of_lent {f : Thread → Thread} {s : TState}
    (hf : ∀ th, (f th).inherited = th.inherited ∧ (f th).prioHeir = th.prioHeir)
    (h : NoHeir ts ∨ ∃ u, Lent ts t u) (hok : (ts.upd t f).setState A c t s = .ok ts') :
    NoHeir ts' := by
  have hs : SameHeirs ts (ts.upd t f) := sameHeirs_upd (hf _).1 (hf _).2
  rcases h with h | ⟨u, h⟩
  · exact setState_noHeir (h.of_same hs) hok
  · exact (h.of_same hs).setState hok

theorem setPrio_heirs {v : Nat} (hok : ts.setPrio t v = .ok ts') : SameHeirs ts ts' := by
  have hiter : ∀ (ts₀ : Threads) (i : Option (Que × Nat)) (w : Nat),
      (ts₀.setIter t i w).inherited = (ts₀.thr w).inherited ∧
        (ts₀.setIter t i w).prioHeir = (ts₀.thr w).prioHeir := by
    intro ts₀ i w
    by_cases hw : w = t
    · subst hw
      rw [setIter_self]
      exact ⟨rfl, rfl⟩
    · rw [setIter_ne _ hw]
      exact ⟨rfl, rfl⟩
  unfold setPrio at hok
  split_ifs at hok
  · obtain ⟨ts₁, hdel, hadd⟩ := bind_eq_ok.mp hok
    obtain ⟨i, hi⟩ := addTo_thr hadd
    intro u
    have h₁ := hiter ts none u
    have h₂ : ((ts₁.upd t fun th => { th with prio := v % 256 }).thr u).inherited = (ts₁.thr u).inherited ∧
        ((ts₁.upd t fun th => { th with prio := v % 256 }).thr u).prioHeir = (ts₁.thr u).prioHeir :=
      sameHeirs_upd rfl rfl u
    rw [delReady_thr hdel] at h₂
    rw [hi]
    exact ⟨(hiter _ i u).1.trans (h₂.1.trans h₁.1), (hiter _ i u).2.trans (h₂.2.trans h₁.2)⟩
  · obtain rfl := Except.ok.inj hok
    exact sameHeirs_upd rfl rfl

theorem timesliceExpired_heirs {que first : Option Nat}
    (hok : ts.timesliceExpired t que = .ok (first, ts')) : SameHeirs ts ts' := by
  unfold timesliceExpired at hok
  obtain ⟨-, hok⟩ := ensure_bind_eq_ok.mp hok
  obtain ⟨-, hok⟩ := ensure_bind_eq_ok.mp hok
  dsimp only at hok
  have hslice : SameHeirs ts (ts.upd t fun th => { th with timeslice := timesliceUsec }) :=
    sameHeirs_upd rfl rfl
  split_ifs at hok
  · split at hok
    · rename_i n v _ _
      split at hok
      · cases hok
      · obtain ⟨-, rfl⟩ := Prod.mk.inj (Except.ok.inj hok)
        intro u
        refine ⟨Eq.trans ?_ (hslice u).1, Eq.trans ?_ (hslice u).2⟩ <;>
          · by_cases hu : u = t
            · subst hu
              simp
            · rw [thr_upd_ne _ hu, thr_putList]
    · cases hok
  · obtain ⟨-, rfl⟩ := Prod.mk.inj (Except.ok.inj hok)
    exact hslice

end Threads

end Wrmos
