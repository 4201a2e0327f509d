import Wrmos.AlphaApps

/-!
# Isolation of the thread requests

A request answered with an error should leave the tables of all applications alone, and no request should
change the table of an application it does not come from.  `Within` says what a handler can change: one
application, whose thread numbers stay the same.  The handlers differ from what is wanted where they give
up behind `thr_alloc`, which nothing undoes, and where a deletion that was refused still frees the slot of
the thread it names; `Safe` is the condition that neither happens, and `serve_isolated_iff` says that it is
exact.
-/

namespace Wrmos

open Lib (ensure bind_eq_ok ensure_bind_eq_ok ensure_bind_of)

/-- The number of a global identity made by alpha. -/
theorem number_createGlobal {A : Arch} {n : Nat} (h : n < 2 ^ 18) :
    Thrid.number A (Thrid.createGlobal A n 2) = n := by
  cases A <;>
    simp [Thrid.number, Thrid.isGlobal, Thrid.isSingle, Thrid.createGlobal, Thrid.versionWidth,
      Arch.wordBits, Lib.bits, Thrid.nil, Thrid.any, Thrid.anyLocal] <;>
    rw [if_pos (by omega)] <;> omega

/-! ## Slots -/

namespace Thrs

variable {ts ts' : Thrs} {i code : Nat} {t : Thr} {out : Freed}

theorem firstFree_eq_some (h : ts.firstFree = some i) :
    ∃ t, ts[i]? = some t ∧ t.state = .free := by
  obtain ⟨hi, ht, -⟩ := List.findIdx?_eq_some_iff_getElem.mp h
  exact ⟨ts[i], List.getElem?_eq_getElem hi, by simpa using ht⟩

/-- The slot that is taken is busy afterwards, so the table is another one. -/
theorem alloc_ne {utcb stackAddr stackSz : Nat}
    (h : ts.alloc utcb stackAddr stackSz = some (ts', i)) : ts' ≠ ts := by
  obtain ⟨j, hj, heq⟩ := Option.map_eq_some_iff.mp h
  obtain ⟨hts, rfl⟩ := Prod.mk.inj heq
  obtain ⟨t, ht, hfree⟩ := firstFree_eq_some hj
  rintro rfl
  have hbusy := congrArg (fun l => (l[j]?).map Thr.state) hts
  simp [ht, hfree] at hbusy

theorem length_alloc {utcb stackAddr stackSz : Nat}
    (h : ts.alloc utcb stackAddr stackSz = some (ts', i)) : ts'.length = ts.length := by
  obtain ⟨j, -, heq⟩ := Option.map_eq_some_iff.mp h
  obtain ⟨rfl, rfl⟩ := Prod.mk.inj heq
  exact List.length_modify ..

theorem length_terminate : (ts.terminate i code).1.length = ts.length := by
  unfold terminate
  split
  · rfl
  · split
    · rfl
    · exact List.length_set ..

theorem length_free : (ts.free i out).1.length = ts.length := by
  unfold free
  split
  · rfl
  · split
    · rfl
    · exact List.length_set ..

/-- Only a busy thread can be terminated. -/
theorem terminate_of_ne (code : Nat) (h : ∀ t, ts[i]? = some t → t.state ≠ .busy) :
    (ts.terminate i code).1 = ts ∧ (ts.terminate i code).2 ≠ 0 := by
  unfold terminate
  split
  · exact ⟨rfl, show (-1 : Int) ≠ 0 by decide⟩
  · next t ht =>
    rw [if_pos (h t ht)]
    exact ⟨rfl, show (-2 : Int) ≠ 0 by decide⟩

theorem terminate_of_busy (code : Nat) (ht : ts[i]? = some t) (h : t.state = .busy) :
    ts.terminate i code = (ts.set i { t with terminateCode := code, state := .done }, 0) := by
  unfold terminate
  rw [ht]
  exact if_neg (not_not.mpr h)

/-- Only a thread that is done can be freed. -/
theorem free_of_ne (out : Freed) (h : ∀ t, ts[i]? = some t → t.state ≠ .done) :
    (ts.free i out).1 = ts ∧ (ts.free i out).2.1 ≠ 0 := by
  unfold free
  split
  · exact ⟨rfl, show (-1 : Int) ≠ 0 by decide⟩
  · next t ht =>
    rw [if_pos (h t ht)]
    exact ⟨rfl, show (-2 : Int) ≠ 0 by decide⟩

theorem free_of_done (out : Freed) (ht : ts[i]? = some t) (h : t.state = .done) :
    ts.free i out = (ts.set i { t with state := .free }, 0,
      ⟨t.utcb, t.stackAddr, t.stackSz, t.terminateCode⟩) := by
  unfold free
  rw [ht]
  exact if_neg (not_not.mpr h)

/-- Freeing changes the table. -/
theorem free_ne (ht : ts[i]? = some t) (h : t.state = .done) : (ts.free i out).1 ≠ ts := by
  rw [free_of_done out ht h]
  intro heq
  have hstate := congrArg (fun l => (l[i]?).map Thr.state) heq
  simp [List.getElem?_set_self', ht, h] at hstate

end Thrs

/-! ## The table of applications -/

namespace AlphaState

variable {A : Arch} {s s' s'' : AlphaState} {krn : Krn} {mr : Nat → Nat} {i : Nat} {e e' : AlphaApp}
  {id from' thrno : Nat} {out : Freed}

/-- No thread number belongs to two applications. -/
def Wf (A : Arch) (s : AlphaState) : Prop :=
  s.apps.Pairwise fun e e' => ∀ id, e.has A id = true → e'.has A id = false

/-- What the requests keep for the applications: the table of threads and the address spaces in use. -/
def tables (s : AlphaState) : List (Thrs × Nat) := s.apps.map fun e => (e.threads, e.aspacesInUse)

/-- The outcome of a request is as promised: an answer with an error leaves all tables alone, and any
outcome leaves those of the other applications alone. -/
def Isolated (A : Arch) (s : AlphaState) (from' : Nat) (r : AlphaState × Option Nat) : Prop :=
  (∀ ecode, r.2 = some ecode → ecode ≠ 0 → r.1.tables = s.tables) ∧
    ∀ (j : Nat) (e : AlphaApp), s.apps[j]? = some e → e.has A from' = false →
      r.1.tables[j]? = s.tables[j]?

theorem find_eq_some (h : s.find A id = some (i, e)) : s.apps[i]? = some e ∧ e.has A id = true := by
  obtain ⟨j, hj, h⟩ := Option.bind_eq_some_iff.mp h
  obtain ⟨e₁, he₁, h⟩ := Option.bind_eq_some_iff.mp h
  obtain ⟨rfl, rfl⟩ := Prod.mk.inj (Option.some.inj h)
  obtain ⟨hlt, hhas, -⟩ := List.findIdx?_eq_some_iff_getElem.mp hj
  refine ⟨he₁, ?_⟩
  rw [List.getElem?_eq_getElem hlt] at he₁
  exact Option.some.inj he₁ ▸ hhas

theorem find_eq_none (h : s.find A id = none) {j : Nat} {e : AlphaApp} (he : s.apps[j]? = some e) :
    e.has A id = false := by
  by_contra hhas
  have hsome : (s.apps.findIdx? (·.has A id)).isSome := by
    rw [List.findIdx?_isSome, List.any_eq_true]
    exact ⟨e, List.mem_of_getElem? he, by simpa using hhas⟩
  obtain ⟨i, hi⟩ := Option.isSome_iff_exists.mp hsome
  obtain ⟨hlt, -, -⟩ := List.findIdx?_eq_some_iff_getElem.mp hi
  have : s.find A id = some (i, s.apps[i]) := by
    unfold find
    rw [hi]
    simp [List.getElem?_eq_getElem hlt]
  exact nomatch h.symm.trans this

/-- In a table without overlaps a thread has one application. -/
theorem Wf.index (h : s.Wf A) {j : Nat} (he : s.apps[i]? = some e) (hid : e.has A id = true)
    (he' : s.apps[j]? = some e') (hid' : e'.has A id = true) : i = j := by
  obtain ⟨hi, rfl⟩ := List.getElem?_eq_some_iff.mp he
  obtain ⟨hj, rfl⟩ := List.getElem?_eq_some_iff.mp he'
  have hpair := List.pairwise_iff_getElem.mp h
  rcases Nat.lt_trichotomy i j with hlt | heq | hgt
  · exact absurd hid' (by simp [hpair i j hi hj hlt id hid])
  · exact heq
  · exact absurd hid (by simp [hpair j i hj hi hgt id hid'])

theorem Wf.find (h : s.Wf A) (he : s.apps[i]? = some e) (hid : e.has A id = true) :
    s.find A id = some (i, e) := by
  cases hf : s.find A id with
  | none => exact absurd hid (by simp [find_eq_none hf he])
  | some r =>
    obtain ⟨j, e'⟩ := r
    obtain ⟨he', hid'⟩ := find_eq_some hf
    obtain rfl := h.index he hid he' hid'
    rw [Option.some.inj (he.symm.trans he')]

/-- Between two states, at most application `i` has changed, and not its thread numbers. -/
structure Within (i : Nat) (s s' : AlphaState) : Prop where
  other : ∀ j, j ≠ i → s'.apps[j]? = s.apps[j]?
  owner : (s'.apps[i]?).map AlphaApp.owner = (s.apps[i]?).map AlphaApp.owner
  length : (s'.apps[i]?).map (·.threads.length) = (s.apps[i]?).map (·.threads.length)

theorem Within.refl (i : Nat) (s : AlphaState) : Within i s s := ⟨fun _ _ => rfl, rfl, rfl⟩

theorem Within.trans (h : Within i s s') (h' : Within i s' s'') : Within i s s'' :=
  ⟨fun j hj => (h'.other j hj).trans (h.other j hj), h'.owner.trans h.owner, h'.length.trans h.length⟩

/-- Nothing but the applications counts. -/
theorem Within.of_apps (h : Within i s s') (heq : s''.apps = s'.apps) : Within i s s'' := by
  obtain ⟨h1, h2, h3⟩ := h
  exact ⟨heq ▸ h1, heq ▸ h2, heq ▸ h3⟩

theorem within_put (he : s.apps[i]? = some e) (howner : e'.owner = e.owner)
    (hlen : e'.threads.length = e.threads.length) : Within i s (s.put i e') := by
  obtain ⟨hi, -⟩ := List.getElem?_eq_some_iff.mp he
  refine ⟨fun j hj => List.getElem?_set_ne hj.symm, ?_, ?_⟩
  · simp [put, List.getElem?_set_self hi, he, howner]
  · simp [put, List.getElem?_set_self hi, he, hlen]

/-- Which application a thread belongs to does not change. -/
theorem Within.has (h : Within i s s') (j : Nat) (id : Nat) :
    (s'.apps[j]?).map (·.has A id) = (s.apps[j]?).map (·.has A id) := by
  by_cases hj : j = i
  · subst hj
    have howner := h.owner
    have hlen := h.length
    cases hs : s.apps[j]? with
    | none => cases hs' : s'.apps[j]? <;> simp_all
    | some e =>
      cases hs' : s'.apps[j]? with
      | none => simp_all
      | some e' =>
        rw [hs, hs'] at howner hlen
        have h1 : e'.owner = e.owner := Option.some.inj howner
        have h2 : e'.threads.length = e.threads.length := Option.some.inj hlen
        refine congrArg some ?_
        show e'.has A id = e.has A id
        unfold AlphaApp.has AlphaApp.thrnoEnd AlphaApp.thrnoBegin
        rw [h1, h2]
  · rw [h.other j hj]

/-- What a handler may do for a thread of application `i` is as promised for the others. -/
theorem Within.isolated (h : Within i s s') (he : s.apps[i]? = some e) (hfrom : e.has A from' = true)
    {o : Option Nat} (herr : ∀ ecode, o = some ecode → ecode ≠ 0 → s'.tables = s.tables) :
    Isolated A s from' (s', o) := by
  refine ⟨herr, fun j e' he' hnot => ?_⟩
  have hj : j ≠ i := by
    rintro rfl
    rw [Option.some.inj (he.symm.trans he')] at hfrom
    simp [hnot] at hfrom
  show (s'.apps.map _)[j]? = (s.apps.map _)[j]?
  rw [List.getElem?_map, List.getElem?_map, h.other j hj]

/-- Leaving the applications alone is as promised. -/
theorem isolated_of_tables {o : Option Nat} (h : s'.tables = s.tables) : Isolated A s from' (s', o) :=
  ⟨fun _ _ _ => h, fun _ _ _ _ => by rw [h]⟩

theorem tables_put (he : s.apps[i]? = some e)
    (h : (e'.threads, e'.aspacesInUse) = (e.threads, e.aspacesInUse)) :
    (s.put i e').tables = s.tables := by
  show (s.apps.set i e').map _ = s.apps.map _
  rw [List.map_set, h]
  refine List.ext_getElem? fun j => ?_
  by_cases hj : j = i
  · subst hj
    rw [List.getElem?_set_self' , List.getElem?_map, he]
    rfl
  · rw [List.getElem?_set_ne (Ne.symm hj)]

theorem tables_put_ne (he : s.apps[i]? = some e)
    (h : (e'.threads, e'.aspacesInUse) ≠ (e.threads, e.aspacesInUse)) :
    (s.put i e').tables ≠ s.tables := by
  intro heq
  obtain ⟨hi, -⟩ := List.getElem?_eq_some_iff.mp he
  have hat := congrArg (·[i]?) heq
  simp only [tables, put, List.getElem?_map, List.getElem?_set_self hi, he, Option.map_some,
    Option.some.injEq] at hat
  exact h hat

theorem getElem?_put (he : s.apps[i]? = some e) : (s.put i e').apps[i]? = some e' :=
  List.getElem?_set_self (List.getElem?_eq_some_iff.mp he).1

/-- Tables that differ in the state of a slot differ. -/
theorem tables_ne_of_slot {k : Nat} {t t' : Thr} (he' : s'.apps[i]? = some e')
    (he : s.apps[i]? = some e) (ht' : e'.threads[k]? = some t') (ht : e.threads[k]? = some t)
    (hne : t'.state ≠ t.state) : s'.tables ≠ s.tables := by
  intro heq
  have hat := congrArg (·[i]?) heq
  simp only [tables, List.getElem?_map, he, he', Option.map_some, Option.some.injEq,
    Prod.mk.injEq] at hat
  rw [hat.1] at ht'
  obtain rfl := Option.some.inj (ht.symm.trans ht')
  exact hne rfl

/-- Where an application is found does not change. -/
theorem Within.findIdx (h : Within i s s') (id : Nat) :
    s'.apps.findIdx? (·.has A id) = s.apps.findIdx? (·.has A id) := by
  have hmap : s'.apps.map (·.has A id) = s.apps.map (·.has A id) := by
    refine List.ext_getElem? fun j => ?_
    rw [List.getElem?_map, List.getElem?_map]
    exact h.has j id
  have hidx := congrArg (List.findIdx? fun b => b) hmap
  rw [List.findIdx?_map, List.findIdx?_map] at hidx
  exact hidx

theorem find_put (h : s.find A id = some (i, e)) (howner : e'.owner = e.owner)
    (hlen : e'.threads.length = e.threads.length) : (s.put i e').find A id = some (i, e') := by
  obtain ⟨he, -⟩ := find_eq_some h
  obtain ⟨hi, -⟩ := List.getElem?_eq_some_iff.mp he
  have hidx := (within_put he howner hlen).findIdx (A := A) id
  obtain ⟨j, hj, h⟩ := Option.bind_eq_some_iff.mp h
  obtain ⟨e₁, -, h⟩ := Option.bind_eq_some_iff.mp h
  obtain ⟨rfl, rfl⟩ := Prod.mk.inj (Option.some.inj h)
  unfold find
  rw [hidx, hj]
  simp [put, List.getElem?_set_self hi]

/-! ## Creation -/

/-- The kernel accepts the calls, one after another. -/
def Accepts (krn : Krn) : List KCall → List KCall → Prop
  | _, [] => True
  | before, c :: cs => krn before c = 0 ∧ Accepts krn (before ++ [c]) cs

/-- The search of the handlers for the memory of a UTCB. -/
def location (A : Arch) (s : AlphaState) (e : AlphaApp) (utcb : Nat) : Except Stop (App × Int × Nat) :=
  { e.mem with pool := s.pool }.wrmAppGetLocation A e.lx (Fpage.addr A utcb) (Fpage.size A utcb) 6

/-- The system calls that make a thread. -/
def threadCalls (A : Arch) (s : AlphaState) (e : AlphaApp) (mr : Nat → Nat) (from' newno fp : Nat) :
    List KCall :=
  [.threadControl (Thrid.createGlobal A newno 2) (if mr 3 = Thrid.any A then from' else mr 3)
      (if mr 4 = Thrid.any A then s.id else mr 4) (if mr 5 = Thrid.any A then s.id else mr 5)
      (Fpage.addr A fp),
    .schedule (Thrid.createGlobal A newno 2) (min (mr 2 % 2 ^ 32) e.maxPrio)]

/-- The system calls that make a task. -/
def taskCalls (A : Arch) (s : AlphaState) (e : AlphaApp) (mr : Nat → Nat) (newno fp : Nat) :
    List KCall :=
  let newid := Thrid.createGlobal A newno 2
  [.threadControl newid newid s.id Thrid.nil (Fpage.addr A fp),
    .schedule newid (min (mr 2 % 2 ^ 32) e.maxPrio),
    .spaceControl newid 0 (mr 4) (mr 5) Thrid.nil,
    .threadControl newid newid s.id (mr 3) (2 ^ A.wordBits - 1)]

theorem appGetLocation_eq (h : s.find A id = some (i, e)) (utcb : Nat) (out : Nat) :
    s.appGetLocation A id (Fpage.addr A utcb) (Fpage.size A utcb) 6 out =
      s.location A e utcb >>= fun r =>
        .ok ({ s.put i { e with mem := r.1 } with pool := r.1.pool }, r.2.1,
          if r.2.1 = -2 then out else r.2.2) := by
  unfold appGetLocation
  rw [h]
  rfl

theorem makeThread_spec (krn : Krn) (newid space sched pager prio loc : Nat) :
    (s.makeThread A krn newid space sched pager prio loc).1.apps = s.apps ∧
      ((s.makeThread A krn newid space sched pager prio loc).2 = 0 ↔
        Accepts krn s.calls
          [.threadControl newid space sched pager (Fpage.addr A loc), .schedule newid prio]) := by
  unfold makeThread sys
  dsimp only
  split
  · next h => exact ⟨rfl, iff_of_false nofun fun ha => h ha.1⟩
  · next h =>
    have h := not_not.mp h
    split
    · next h' => exact ⟨rfl, iff_of_false nofun fun ha => h' ha.2.1⟩
    · next h' => exact ⟨rfl, iff_of_true rfl ⟨h, not_not.mp h', trivial⟩⟩

theorem makeTask_spec (krn : Krn) (newid pager kipArea utcbsArea prio loc : Nat) :
    (s.makeTask A krn newid pager kipArea utcbsArea prio loc).1.apps = s.apps ∧
      ((s.makeTask A krn newid pager kipArea utcbsArea prio loc).2 = 0 ↔
        Accepts krn s.calls
          [.threadControl newid newid s.id Thrid.nil (Fpage.addr A loc), .schedule newid prio,
            .spaceControl newid 0 kipArea utcbsArea Thrid.nil,
            .threadControl newid newid s.id pager (2 ^ A.wordBits - 1)]) := by
  unfold makeTask sys
  dsimp only
  split
  · next h => exact ⟨rfl, iff_of_false nofun fun ha => h ha.1⟩
  · next h1 =>
    split
    · next h => exact ⟨rfl, iff_of_false nofun fun ha => h ha.2.1⟩
    · next h2 =>
      split
      · next h => exact ⟨rfl, iff_of_false nofun fun ha => h ha.2.2.1⟩
      · next h3 =>
        split
        · next h => exact ⟨rfl, iff_of_false nofun fun ha => h ha.2.2.2.1⟩
        · next h4 =>
          exact ⟨rfl, iff_of_true rfl
            ⟨not_not.mp h1, not_not.mp h2, not_not.mp h3, not_not.mp h4, trivial⟩⟩

/-- The state behind the search for the UTCB: the tables are the same. -/
theorem located_tables (h : s.find A id = some (i, e)) (m : App) :
    ({ s.put i { e with mem := m } with pool := m.pool } : AlphaState).tables = s.tables ∧
      Within i s { s.put i { e with mem := m } with pool := m.pool } := by
  obtain ⟨he, -⟩ := find_eq_some h
  have hw : Within i s (s.put i { e with mem := m }) := within_put he rfl rfl
  exact ⟨tables_put he rfl, hw.of_apps rfl⟩

theorem tables_of_apps (h : s'.apps = s.apps) : s'.tables = s.tables := by
  unfold tables
  rw [h]

/-- What is done with a thread number leaves the tables alone, and succeeds exactly when the memory of
the UTCB is found and the kernel accepts the calls. -/
theorem startThread_spec (h : s.find A from' = some (i, e)) (krn : Krn) (mr : Nat → Nat) (newno : Nat) :
    (∀ r, s.startThread A krn mr from' newno = .ok r → r.1.tables = s.tables ∧ Within i s r.1) ∧
      ((∀ r, s.startThread A krn mr from' newno = .ok r → r.2.1 = 0) ↔
        ∀ m rc fp, s.location A e (mr 1) = .ok (m, rc, fp) →
          rc = 0 ∧ Accepts krn s.calls (threadCalls A s e mr from' newno fp)) := by
  unfold startThread
  have hprio : s.appMaxPrio A from' = some e.maxPrio := by
    unfold appMaxPrio
    rw [h]
    rfl
  rw [hprio]
  simp only [appGetLocation_eq h]
  cases hloc : s.location A e (mr 1) with
  | error x => exact ⟨nofun, iff_of_true nofun nofun⟩
  | ok r =>
    obtain ⟨m, rc, fp⟩ := r
    obtain ⟨htab, hwithin⟩ := located_tables h m
    by_cases hrc : rc = 0
    · subst hrc
      obtain ⟨hmk, hacc⟩ := makeThread_spec
        (s := { s.put i { e with mem := m } with pool := m.pool }) (A := A) krn
        (Thrid.createGlobal A newno 2) (if mr 3 = Thrid.any A then from' else mr 3)
        (if mr 4 = Thrid.any A then s.id else mr 4) (if mr 5 = Thrid.any A then s.id else mr 5)
        (min (mr 2 % 2 ^ 32) e.maxPrio) fp
      constructor
      · intro r hr
        obtain rfl := Except.ok.inj hr
        exact ⟨(tables_of_apps hmk).trans htab, hwithin.of_apps hmk⟩
      · constructor
        · intro hall m' rc' fp' heq
          obtain ⟨rfl, rfl, rfl⟩ := by simpa using heq
          exact ⟨rfl, hacc.mp (hall _ rfl)⟩
        · intro hall r hr
          obtain rfl := Except.ok.inj hr
          exact hacc.mpr (hall m 0 fp rfl).2
    · constructor
      · intro r hr
        obtain rfl := Except.ok.inj ((if_pos hrc).symm.trans hr)
        exact ⟨htab, hwithin⟩
      · refine iff_of_false (fun hall => ?_) fun hall => hrc (hall m rc fp rfl).1
        exact absurd (hall _ (if_pos hrc)) (Nat.succ_ne_zero 3)

/-- The same for a task, for which the UTCB must be as large as the memory that is found. -/
theorem startTask_spec (h : s.find A from' = some (i, e)) (krn : Krn) (mr : Nat → Nat)
    (junk newno : Nat) :
    (∀ r, s.startTask A krn mr junk from' newno = .ok r → r.1.tables = s.tables ∧ Within i s r.1) ∧
      ((∀ r, s.startTask A krn mr junk from' newno = .ok r → r.2.1 = 0) ↔
        ∀ m rc fp, s.location A e (mr 1) = .ok (m, rc, fp) →
          Fpage.size A (mr 1) = Fpage.size A (if rc = -2 then junk else fp) →
          rc = 0 ∧ Accepts krn s.calls (taskCalls A s e mr newno fp)) := by
  unfold startTask
  have hprio : s.appMaxPrio A from' = some e.maxPrio := by
    unfold appMaxPrio
    rw [h]
    rfl
  rw [hprio]
  simp only [appGetLocation_eq h]
  cases hloc : s.location A e (mr 1) with
  | error x =>
    refine ⟨fun r hr => ?_, iff_of_true (fun r hr => ?_) fun m rc fp hm => ?_⟩
    · cases hr
    · cases hr
    · cases hm
  | ok r =>
    obtain ⟨m, rc, fp⟩ := r
    obtain ⟨htab, hwithin⟩ := located_tables h m
    by_cases hsz : Fpage.size A (mr 1) = Fpage.size A (if rc = -2 then junk else fp)
    · by_cases hrc : rc = 0
      · subst hrc
        obtain ⟨hmk, hacc⟩ := makeTask_spec
          (s := { s.put i { e with mem := m } with pool := m.pool }) (A := A) krn
          (Thrid.createGlobal A newno 2) (mr 3) (mr 4) (mr 5) (min (mr 2 % 2 ^ 32) e.maxPrio) fp
        constructor
        · intro r hr
          obtain ⟨-, hr⟩ := ensure_bind_eq_ok.mp hr
          obtain rfl := Except.ok.inj hr
          exact ⟨(tables_of_apps hmk).trans htab, hwithin.of_apps hmk⟩
        · constructor
          · intro hall m' rc' fp' heq _
            obtain ⟨rfl, rfl, rfl⟩ := by simpa using heq
            exact ⟨rfl, hacc.mp (hall _ (ensure_bind_eq_ok.mpr ⟨hsz, rfl⟩))⟩
          · intro hall r hr
            obtain ⟨-, hr⟩ := ensure_bind_eq_ok.mp hr
            obtain rfl := Except.ok.inj hr
            exact hacc.mpr (hall m 0 fp rfl hsz).2
      · constructor
        · intro r hr
          obtain ⟨-, hr⟩ := ensure_bind_eq_ok.mp hr
          obtain rfl := Except.ok.inj ((if_pos hrc).symm.trans hr)
          exact ⟨htab, hwithin⟩
        · refine iff_of_false (fun hall => ?_) fun hall => hrc (hall m rc fp rfl hsz).1
          exact absurd (hall _ (ensure_bind_eq_ok.mpr ⟨hsz, if_pos hrc⟩)) (Nat.succ_ne_zero 4)
    · refine ⟨fun r hr => absurd (ensure_bind_eq_ok.mp hr).1 hsz, iff_of_true ?_ ?_⟩
      · exact fun r hr => absurd (ensure_bind_eq_ok.mp hr).1 hsz
      · intro m' rc' fp' heq hsz'
        obtain ⟨rfl, rfl, rfl⟩ := by simpa using heq
        exact absurd hsz' hsz

/-- What the assertions of `thread_alloc` ask for. -/
def Given (mr : Nat → Nat) : Prop := mr 1 ≠ Fpage.nil ∧ mr 6 ≠ 0 ∧ mr 7 ≠ 0

/-- Allocating a thread for an application: a slot, if there is one. -/
theorem appThrAlloc_eq (h : s.find A from' = some (i, e)) (hgiven : Given mr) :
    s.appThrAlloc A from' (mr 1) (mr 6) (mr 7) = .ok
      (match e.threads.alloc (mr 1) (mr 6) (mr 7) with
      | none => (s.put i e, none)
      | some (ts, k) => (s.put i { e with threads := ts }, some (k + e.thrnoBegin A))) := by
  unfold appThrAlloc
  rw [h]
  dsimp only
  unfold AlphaApp.threadAlloc
  rw [ensure_bind_of hgiven.1, ensure_bind_of hgiven.2.1, ensure_bind_of hgiven.2.2]
  cases e.threads.alloc (mr 1) (mr 6) (mr 7) <;> rfl

theorem appThrAlloc_stops (h : s.find A from' = some (i, e)) (hgiven : ¬ Given mr) (r) :
    s.appThrAlloc A from' (mr 1) (mr 6) (mr 7) ≠ .ok r := by
  intro hr
  unfold appThrAlloc at hr
  rw [h] at hr
  obtain ⟨a, ha, -⟩ := bind_eq_ok.mp hr
  obtain ⟨h1, ha⟩ := ensure_bind_eq_ok.mp ha
  obtain ⟨h6, ha⟩ := ensure_bind_eq_ok.mp ha
  obtain ⟨h7, -⟩ := ensure_bind_eq_ok.mp ha
  exact hgiven ⟨h1, h6, h7⟩

/-- A thread that gets a slot is created: the memory of its UTCB is found and the kernel accepts it. -/
def KeepsThread (A : Arch) (s : AlphaState) (krn : Krn) (mr : Nat → Nat) (from' : Nat) : Prop :=
  ∀ first i e k, s.appCfg A from' = some first → s.find A from' = some (i, e) → Given mr →
    e.threads.firstFree = some k → ∀ m rc fp, s.location A e (mr 1) = .ok (m, rc, fp) →
      rc = 0 ∧ Accepts krn s.calls (threadCalls A s e mr from' (k + e.thrnoBegin A) fp)

/-- A task that gets an address space gets a slot and is created. -/
def KeepsTask (A : Arch) (s : AlphaState) (krn : Krn) (mr : Nat → Nat) (junk from' : Nat) : Prop :=
  ∀ first i e, s.appCfg A from' = some first → s.find A from' = some (i, e) →
    e.aspacesInUse + 1 ≤ e.maxAspaces → Given mr →
    ∃ k, e.threads.firstFree = some k ∧ ∀ m rc fp, s.location A e (mr 1) = .ok (m, rc, fp) →
      Fpage.size A (mr 1) = Fpage.size A (if rc = -2 then junk else fp) →
      rc = 0 ∧ Accepts krn s.calls (taskCalls A s e mr (k + e.thrnoBegin A) fp)

/-- What follows an allocation that changed the tables is as promised exactly when it succeeds. -/
theorem isolated_iff_of_ne {x : Except Stop (AlphaState × Nat × Nat)} {t : AlphaState}
    (he : s.apps[i]? = some e) (hfrom : e.has A from' = true) (hst : Within i s t)
    (hne : t.tables ≠ s.tables)
    (hx : ∀ r, x = .ok r → r.1.tables = t.tables ∧ Within i t r.1) :
    (∀ r, x = .ok r → Isolated A s from' (r.1, some r.2.1)) ↔ ∀ r, x = .ok r → r.2.1 = 0 := by
  constructor
  · intro hall r hr
    by_contra herr
    exact hne ((hx r hr).1.symm.trans ((hall r hr).1 _ rfl herr))
  · intro hall r hr
    refine (hst.trans (hx r hr).2).isolated he hfrom fun ecode hcode herr => ?_
    obtain rfl := Option.some.inj hcode
    exact absurd (hall r hr) herr

/-- The requests to create threads that are as promised. -/
theorem createThread_isolated_iff :
    (∀ r, s.createThread A krn mr from' = .ok r → Isolated A s from' (r.1, some r.2.1)) ↔
      KeepsThread A s krn mr from' := by
  unfold createThread KeepsThread
  cases hcfg : s.appCfg A from' with
  | none =>
    refine iff_of_true (fun r hr => ?_) nofun
    obtain rfl := Except.ok.inj hr
    exact isolated_of_tables rfl
  | some first =>
    cases hfind : s.find A from' with
    | none =>
      refine iff_of_true (fun r hr => ?_) nofun
      unfold appThrAlloc at hr
      rw [hfind] at hr
      obtain rfl := Except.ok.inj hr
      exact isolated_of_tables rfl
    | some r =>
      obtain ⟨i, e⟩ := r
      obtain ⟨he, hfrom⟩ := find_eq_some hfind
      by_cases hgiven : Given mr
      · rw [appThrAlloc_eq hfind hgiven]
        cases halloc : e.threads.alloc (mr 1) (mr 6) (mr 7) with
        | none =>
          refine iff_of_true (fun r hr => ?_) ?_
          · obtain rfl := Except.ok.inj hr
            exact isolated_of_tables (tables_put he rfl)
          · rintro _ _ _ k - heq - hk
            obtain ⟨rfl, rfl⟩ := Prod.mk.inj (Option.some.inj heq)
            simp [Thrs.alloc, hk] at halloc
        | some a =>
          obtain ⟨ts, k⟩ := a
          have hlen : ts.length = e.threads.length := Thrs.length_alloc halloc
          have hput : (s.put i { e with threads := ts }).find A from' =
              some (i, { e with threads := ts }) := find_put hfind rfl hlen
          have hfree : e.threads.firstFree = some k := by
            obtain ⟨j, hj, heq⟩ := Option.map_eq_some_iff.mp halloc
            exact (Prod.mk.inj heq).2 ▸ hj
          obtain ⟨hwithin, hcode⟩ := startThread_spec hput krn mr (k + e.thrnoBegin A)
          have hw : Within i s (s.put i { e with threads := ts }) := within_put he rfl hlen
          refine (isolated_iff_of_ne he hfrom hw (tables_put_ne he ?_) hwithin).trans (hcode.trans ?_)
          · exact fun heq => Thrs.alloc_ne halloc (Prod.mk.inj heq).1
          · constructor
            · rintro hall _ _ _ k' - heq - hk'
              obtain ⟨rfl, rfl⟩ := Prod.mk.inj (Option.some.inj heq)
              obtain rfl := Option.some.inj (hfree.symm.trans hk')
              exact hall
            · exact fun hall => hall first i e k rfl rfl hgiven hfree
      · refine iff_of_true (fun r hr => ?_) ?_
        · obtain ⟨a, ha, -⟩ := bind_eq_ok.mp hr
          exact absurd ha (appThrAlloc_stops hfind hgiven a)
        · rintro _ _ _ _ - - hg
          exact absurd hg hgiven

/-- The requests to create tasks that are as promised. -/
theorem createTask_isolated_iff {junk : Nat} :
    (∀ r, s.createTask A krn mr junk from' = .ok r → Isolated A s from' (r.1, some r.2.1)) ↔
      KeepsTask A s krn mr junk from' := by
  unfold createTask KeepsTask
  cases hcfg : s.appCfg A from' with
  | none =>
    refine iff_of_true (fun r hr => ?_) nofun
    obtain rfl := Except.ok.inj hr
    exact isolated_of_tables rfl
  | some first =>
    cases hfind : s.find A from' with
    | none =>
      refine iff_of_true (fun r hr => ?_) nofun
      unfold appAllocAspace at hr
      rw [hfind] at hr
      obtain rfl := Except.ok.inj hr
      exact isolated_of_tables rfl
    | some r =>
      obtain ⟨i, e⟩ := r
      obtain ⟨he, hfrom⟩ := find_eq_some hfind
      by_cases hspace : e.aspacesInUse + 1 ≤ e.maxAspaces
      · -- an address space is taken: from here on the tables differ
        obtain ⟨e₁, he₁⟩ : ∃ e₁, e₁ = { e with aspacesInUse := e.aspacesInUse + 1 } := ⟨_, rfl⟩
        have hfind₁ : (s.put i e₁).find A from' = some (i, e₁) := by
          rw [he₁]
          exact find_put hfind rfl rfl
        have halloc₁ : s.appAllocAspace A from' = (s.put i e₁, 0) := by
          unfold appAllocAspace AlphaApp.allocAspace
          rw [hfind, he₁]
          dsimp only
          rw [if_neg (Nat.not_lt.mpr hspace)]
        have hne : ∀ ts : Thrs, (s.put i { e₁ with threads := ts }).tables ≠ s.tables := by
          intro ts
          refine tables_put_ne he fun heq => ?_
          rw [he₁] at heq
          exact Nat.succ_ne_self _ (Prod.mk.inj heq).2
        rw [halloc₁]
        by_cases hgiven : Given mr
        · dsimp only
          rw [if_neg (not_not.mpr rfl), appThrAlloc_eq hfind₁ hgiven]
          have hput : ∀ e', (s.put i e₁).put i e' = s.put i e' := fun e' => by simp [put]
          rw [hput]
          have hthreads : e₁.threads = e.threads := by rw [he₁]
          cases halloc : e₁.threads.alloc (mr 1) (mr 6) (mr 7) with
          | none =>
            refine iff_of_false (fun hall => ?_) fun hall => ?_
            · exact hne e₁.threads ((hall (s.put i e₁, 3, Thrid.nil) rfl).1 3 rfl (by decide))
            · obtain ⟨k, hk, -⟩ := hall first i e rfl rfl hspace hgiven
              simp [Thrs.alloc, hthreads, hk] at halloc
          | some a =>
            obtain ⟨ts, k⟩ := a
            have hlen : ts.length = e.threads.length :=
              (Thrs.length_alloc halloc).trans (congrArg List.length hthreads)
            have howner : ({ e₁ with threads := ts } : AlphaApp).owner = e.owner := by rw [he₁]
            have hfind₂ : (s.put i { e₁ with threads := ts }).find A from' =
                some (i, { e₁ with threads := ts }) := find_put hfind howner hlen
            have hfree : e.threads.firstFree = some k := by
              obtain ⟨j, hj, heq⟩ := Option.map_eq_some_iff.mp halloc
              rw [← hthreads]
              exact (Prod.mk.inj heq).2 ▸ hj
            obtain ⟨hwithin, hcode⟩ := startTask_spec hfind₂ krn mr junk (k + e₁.thrnoBegin A)
            have hw : Within i s (s.put i { e₁ with threads := ts }) := within_put he howner hlen
            show (∀ r, startTask A ((s.put i e₁).put i { e₁ with threads := ts }) krn mr junk from'
              (k + e₁.thrnoBegin A) = .ok r → _) ↔ _
            rw [hput]
            refine (isolated_iff_of_ne he hfrom hw (hne ts) hwithin).trans (hcode.trans ?_)
            subst he₁
            constructor
            · rintro hall _ _ _ - heq - -
              obtain ⟨rfl, rfl⟩ := Prod.mk.inj (Option.some.inj heq)
              exact ⟨k, hfree, hall⟩
            · intro hall
              obtain ⟨k', hk', hloc⟩ := hall first i e rfl rfl hspace hgiven
              obtain rfl := Option.some.inj (hfree.symm.trans hk')
              exact hloc
        · refine iff_of_true (fun r hr => ?_) ?_
          · obtain ⟨a, ha, -⟩ := bind_eq_ok.mp ((if_neg (not_not.mpr rfl)).symm.trans hr)
            exact absurd ha (appThrAlloc_stops hfind₁ hgiven a)
          · rintro _ _ _ - - - hg
            exact absurd hg hgiven
      · have hfull : s.appAllocAspace A from' = (s, -2) := by
          unfold appAllocAspace AlphaApp.allocAspace
          rw [hfind]
          dsimp only
          rw [if_pos (Nat.not_le.mp hspace)]
        rw [hfull]
        refine iff_of_true (fun r hr => ?_) ?_
        · obtain rfl := Except.ok.inj ((if_pos (by decide)).symm.trans hr)
          exact isolated_of_tables rfl
        · rintro _ _ _ - heq hroom
          obtain ⟨rfl, rfl⟩ := Prod.mk.inj (Option.some.inj heq)
          exact absurd hroom hspace

/-! ## Deletion -/

variable {code : Nat} {d : Deletion} {t : Thr}

theorem Within.find (hw : Within i s s') (h : s.find A id = some (i, e)) :
    ∃ e', s'.find A id = some (i, e') := by
  obtain ⟨he, -⟩ := find_eq_some h
  obtain ⟨j, hj, h⟩ := Option.bind_eq_some_iff.mp h
  obtain ⟨e₁, -, h⟩ := Option.bind_eq_some_iff.mp h
  obtain ⟨rfl, rfl⟩ := Prod.mk.inj (Option.some.inj h)
  have howner := hw.owner
  rw [he] at howner
  obtain ⟨e', he', -⟩ := Option.map_eq_some_iff.mp howner
  refine ⟨e', ?_⟩
  unfold AlphaState.find
  rw [hw.findIdx, hj]
  simp [he']

theorem appThrTerminate_within (h : s.find A id = some (i, e)) {r : AlphaState × Int}
    (hr : s.appThrTerminate A id thrno code = .ok r) : Within i s r.1 := by
  unfold appThrTerminate at hr
  rw [h] at hr
  obtain ⟨⟨e', rc⟩, he', hr⟩ := bind_eq_ok.mp hr
  obtain rfl := Except.ok.inj hr
  obtain ⟨-, he'⟩ := ensure_bind_eq_ok.mp he'
  obtain ⟨rfl, -⟩ := Prod.mk.inj (Except.ok.inj he')
  exact within_put (find_eq_some h).1 rfl Thrs.length_terminate

theorem appThrFree_within (h : s.find A id = some (i, e)) {r : AlphaState × Int × Freed}
    (hr : s.appThrFree A id thrno out = .ok r) : Within i s r.1 := by
  unfold appThrFree at hr
  rw [h] at hr
  obtain ⟨⟨e', rc, f⟩, he', hr⟩ := bind_eq_ok.mp hr
  obtain rfl := Except.ok.inj hr
  obtain ⟨-, he'⟩ := ensure_bind_eq_ok.mp he'
  obtain ⟨rfl, -⟩ := Prod.mk.inj (Except.ok.inj he')
  exact within_put (find_eq_some h).1 rfl Thrs.length_free

theorem sys_within (i : Nat) (s : AlphaState) (krn : Krn) (c : KCall) : Within i s (s.sys krn c).1 :=
  (Within.refl i s).of_apps rfl

/-- The loop over the threads of an application stays in it. -/
theorem deleteAll_within {thrid : Nat} : ∀ {n k ecode : Nat} {out : Freed} {s : AlphaState} {e : AlphaApp}
    {r : AlphaState × Nat}, s.find A thrid = some (i, e) →
    deleteAll A krn thrid code n k out ecode s = .ok r → Within i s r.1
  | 0, _, _, _, s, _, r, _, hr => by
    obtain rfl := Except.ok.inj hr
    exact Within.refl i s
  | n + 1, k, ecode, out, s, e, r, h, hr => by
    obtain ⟨⟨s₁, rc⟩, h₁, hr⟩ := bind_eq_ok.mp hr
    have hw₁ := appThrTerminate_within h h₁
    obtain ⟨e₁, hf₁⟩ := hw₁.find h
    by_cases hrc : rc ≠ 0
    · exact hw₁.trans (deleteAll_within hf₁ ((if_pos hrc).symm.trans hr))
    · obtain ⟨⟨s₂, rc₂, out₂⟩, h₂, hr⟩ := bind_eq_ok.mp ((if_neg hrc).symm.trans hr)
      have hw₂ := appThrFree_within hf₁ h₂
      obtain ⟨e₂, hf₂⟩ := hw₂.find hf₁
      have hw₃ := sys_within i s₂ krn (deleteCall (Thrid.createGlobal A k 2))
      obtain ⟨e₃, hf₃⟩ := hw₃.find hf₂
      exact hw₁.trans (hw₂.trans (hw₃.trans (deleteAll_within hf₃ hr)))

/-- Deleting a running thread stays in its application, and keeps the first thread number. -/
theorem deleteRunning_within {thrid : Nat} {e₀ : AlphaApp} {r : AlphaState × Deletion}
    (h : s.find A thrid = some (i, e)) (hr : s.deleteRunning A krn thrid code e₀ out d = .ok r) :
    Within i s r.1 ∧ r.2.thrnoBegin = d.thrnoBegin := by
  have hw := sys_within i s krn (deleteCall thrid)
  obtain ⟨e₁, hf₁⟩ := hw.find h
  obtain ⟨⟨s₂, rc₂⟩, h₂, hr⟩ := bind_eq_ok.mp hr
  have hw₂ := hw.trans (appThrTerminate_within hf₁ h₂)
  obtain ⟨e₂, hf₂⟩ := hw₂.find h
  by_cases hmain : Thrid.number A thrid ≠ e₀.thrnoBegin A
  · obtain rfl := Except.ok.inj ((if_pos hmain).symm.trans hr)
    exact ⟨hw₂, rfl⟩
  · obtain ⟨⟨s₃, rc₃, out₃⟩, h₃, hr⟩ := bind_eq_ok.mp ((if_neg hmain).symm.trans hr)
    have hw₃ := hw₂.trans (appThrFree_within hf₂ h₃)
    obtain ⟨e₃, hf₃⟩ := hw₃.find h
    obtain ⟨⟨s₄, ecode⟩, h₄, hr⟩ := bind_eq_ok.mp hr
    obtain rfl := Except.ok.inj hr
    exact ⟨hw₃.trans (deleteAll_within hf₃ h₄), rfl⟩

/-- The thread is known to alpha and is done. -/
def IsDone (A : Arch) (s : AlphaState) (id : Nat) : Prop :=
  ∃ i e t, s.find A id = some (i, e) ∧ e.threads[Thrid.number A id - e.thrnoBegin A]? = some t ∧
    t.state = .done

theorem checkThrno_of_has (h : e.has A id = true) : e.checkThrno A (Thrid.number A id) = .ok () := by
  unfold AlphaApp.has at h
  rw [Bool.and_eq_true, decide_eq_true_eq, decide_eq_true_eq] at h
  unfold AlphaApp.checkThrno ensure
  exact if_pos h

/-- What `thr_free` does for a thread: it changes the tables exactly when the thread is done. -/
theorem appThrFree_spec (s : AlphaState) (id : Nat) (out : Freed) :
    ∃ r, s.appThrFree A id (Thrid.number A id) out = .ok r ∧
      (r.1.tables = s.tables ↔ ¬ s.IsDone A id) := by
  unfold appThrFree
  cases hfind : s.find A id with
  | none =>
    refine ⟨_, rfl, iff_of_true rfl ?_⟩
    rintro ⟨i, e, t, h, -⟩
    exact nomatch hfind.symm.trans h
  | some r =>
    obtain ⟨i, e⟩ := r
    obtain ⟨he, hhas⟩ := find_eq_some hfind
    refine ⟨_, bind_eq_ok.mpr ⟨_, bind_eq_ok.mpr ⟨(), checkThrno_of_has hhas, rfl⟩, rfl⟩, ?_⟩
    by_cases hdone : ∃ t, e.threads[Thrid.number A id - e.thrnoBegin A]? = some t ∧ t.state = .done
    · obtain ⟨t, ht, hst⟩ := hdone
      refine iff_of_false (tables_put_ne he fun heq => ?_) (not_not.mpr ⟨i, e, t, hfind, ht, hst⟩)
      exact Thrs.free_ne ht hst (Prod.mk.inj heq).1
    · refine iff_of_true (tables_put he ?_) ?_
      · have hsame := (Thrs.free_of_ne out fun t ht hst => hdone ⟨t, ht, hst⟩).1
        exact congrArg (·, e.aspacesInUse) hsame
      · rintro ⟨i', e', t, h, ht, hst⟩
        obtain ⟨rfl, rfl⟩ := Prod.mk.inj (Option.some.inj (hfind.symm.trans h))
        exact hdone ⟨t, ht, hst⟩

/-- A thread that is done is freed without an error. -/
theorem appThrFree_of_done (out : Freed) (h : s.find A id = some (i, e))
    (ht : e.threads[Thrid.number A id - e.thrnoBegin A]? = some t) (hdone : t.state = .done) :
    s.appThrFree A id (Thrid.number A id) out = .ok
      (s.put i { e with
        threads := e.threads.set (Thrid.number A id - e.thrnoBegin A) { t with state := .free } },
        0, ⟨t.utcb, t.stackAddr, t.stackSz, t.terminateCode⟩) := by
  unfold appThrFree
  rw [h]
  dsimp only
  unfold AlphaApp.threadFree
  rw [checkThrno_of_has (find_eq_some h).2]
  show (Except.ok (s.put i { e with threads := (e.threads.free _ out).1 },
    (e.threads.free _ out).2.1, (e.threads.free _ out).2.2) : Except Stop _) = _
  rw [Thrs.free_of_done out ht hdone]

/-- The end of a deletion that answers. -/
def freeAndReply (A : Arch) (s : AlphaState) (thrid : Nat) (junk : Freed) (d : Deletion) :
    Except Stop (AlphaState × Option DeleteReply) :=
  s.appThrFree A thrid (Thrid.number A thrid) junk >>= fun r =>
    .ok (r.1, some ⟨if r.2.1 ≠ 0 then d.ecode ||| 1000000 else d.ecode, thrid, r.2.2, d.state⟩)

theorem deleteThread_eq {junk : Freed}
    (h : s.deleteBlock A krn (mr 1) (mr 2) from' junk = .ok (s', d)) :
    s.deleteThread A krn mr junk from' =
      if mr 1 ≠ from' ∧ Thrid.number A (mr 1) ≠ d.thrnoBegin then s'.freeAndReply A (mr 1) junk d
      else .ok (s', none) := by
  unfold deleteThread
  dsimp only
  rw [h]
  rfl

/-- A refused deletion that still goes to the end is as promised exactly when the thread is not done. -/
theorem refused_isolated_iff {junk : Freed} {thrid : Nat} (hd : d.ecode ≠ 0)
    (hd' : d.ecode ||| 1000000 ≠ 0) :
    (∀ r, s.freeAndReply A thrid junk d = .ok r → Isolated A s from' (r.1, r.2.map (·.ecode))) ↔
      ¬ s.IsDone A thrid := by
  obtain ⟨r, hr, hdone⟩ := appThrFree_spec (A := A) s thrid junk
  unfold freeAndReply
  rw [hr]
  constructor
  · intro hall
    refine hdone.mp ((hall _ rfl).1 _ rfl ?_)
    show (if r.2.1 ≠ 0 then d.ecode ||| 1000000 else d.ecode) ≠ 0
    split
    · exact hd'
    · exact hd
  · intro hnot r' hr'
    obtain rfl := Except.ok.inj hr'
    exact isolated_of_tables (hdone.mpr hnot)

/-- A deletion frees no thread it was refused: neither one outside the application of the sender that is
done, nor one inside that the kernel does not delete. -/
def SafeDelete (A : Arch) (s : AlphaState) (krn : Krn) (mr : Nat → Nat) (from' : Nat) : Prop :=
  (s.find A from' = none → mr 1 ≠ from' → Thrid.number A (mr 1) ≠ 0 → ¬ s.IsDone A (mr 1)) ∧
    ∀ i e, s.find A from' = some (i, e) →
      (e.has A (mr 1) = false → ¬ s.IsDone A (mr 1)) ∧
      (e.has A (mr 1) = true → mr 1 ≠ from' → Thrid.number A (mr 1) ≠ e.thrnoBegin A →
        ∀ t, e.threads[Thrid.number A (mr 1) - e.thrnoBegin A]? = some t → t.state = .busy →
          krn s.calls (deleteCall (mr 1)) = 0)

/-- A thread of the application that is neither done nor the main thread: its slot is freed exactly when
it was busy. -/
theorem deleteRunning_other {thrid : Nat} (krn : Krn) (code : Nat) (out : Freed) (h : s.find A thrid = some (i, e))
    (hmain : Thrid.number A thrid ≠ e.thrnoBegin A) (hzero : d.ecode = 0)
    (ht : e.threads[Thrid.number A thrid - e.thrnoBegin A]? = some t) :
    ∃ s' ecode, s.deleteRunning A krn thrid code e out d = .ok (s', { d with ecode := ecode }) ∧
      (t.state = .free → s'.tables = s.tables ∧ s'.find A thrid = some (i, e) ∧ ecode ≠ 0) ∧
      (t.state = .busy →
        s'.find A thrid = some (i, { e with
          threads := e.threads.set (Thrid.number A thrid - e.thrnoBegin A)
            { t with terminateCode := code, state := .done } }) ∧
        (ecode = 0 ↔ krn s.calls (deleteCall thrid) = 0)) := by
  obtain ⟨he, hhas⟩ := find_eq_some h
  have hf₁ : (s.sys krn (deleteCall thrid)).1.find A thrid = some (i, e) := h
  have hterm : (s.sys krn (deleteCall thrid)).1.appThrTerminate A thrid (Thrid.number A thrid) code =
      .ok ((s.sys krn (deleteCall thrid)).1.put i { e with
          threads := (e.threads.terminate (Thrid.number A thrid - e.thrnoBegin A) code).1 },
        (e.threads.terminate (Thrid.number A thrid - e.thrnoBegin A) code).2) := by
    unfold appThrTerminate
    rw [hf₁]
    exact bind_eq_ok.mpr ⟨_, bind_eq_ok.mpr ⟨(), checkThrno_of_has hhas, rfl⟩, rfl⟩
  refine ⟨_, _, bind_eq_ok.mpr ⟨_, hterm, if_pos hmain⟩, fun hfree => ?_, fun hbusy => ?_⟩
  · obtain ⟨hsame, hrc⟩ := Thrs.terminate_of_ne code
      (i := Thrid.number A thrid - e.thrnoBegin A) fun t' ht' => by
        obtain rfl := Option.some.inj (ht.symm.trans ht')
        rw [hfree]
        decide
    refine ⟨tables_put (s := (s.sys krn (deleteCall thrid)).1) he ?_, ?_, ?_⟩
    · exact congrArg (·, e.aspacesInUse) hsame
    · rw [hsame]
      exact find_put hf₁ rfl rfl
    · rw [if_pos hrc]
      intro hor
      have := Nat.or_eq_zero_iff.mp hor
      exact absurd this.2 (by decide)
  · have hset := Thrs.terminate_of_busy code ht hbusy
    rw [hset]
    refine ⟨find_put hf₁ rfl (List.length_set ..), ?_⟩
    rw [if_neg (not_not.mpr rfl), hzero]
    show (if krn s.calls (deleteCall thrid) ≠ 0 then 0 ||| 10 else 0) = 0 ↔ _
    split
    · next hk => exact iff_of_false (by decide) hk
    · next hk => exact iff_of_true rfl (not_not.mp hk)

/-- The deletion of a thread of the sender's application, behind the look at its state. -/
theorem deleteBlock_own (krn : Krn) (junk : Freed) (hfind : s.find A from' = some (i, e))
    (hthr : s.find A (mr 1) = some (i, e))
    (ht : e.threads[Thrid.number A (mr 1) - e.thrnoBegin A]? = some t) :
    s.deleteBlock A krn (mr 1) (mr 2) from' junk =
      if t.state = .done then .ok (s, ⟨0, e.thrnoBegin A, ThrState.done.code⟩)
      else s.deleteRunning A krn (mr 1) (mr 2) e junk ⟨0, e.thrnoBegin A, t.state.code⟩ := by
  have hhas := (find_eq_some hthr).2
  have hstate : s.appThrState A (mr 1) (Thrid.number A (mr 1)) = .ok t.state.code := by
    unfold appThrState
    rw [hthr]
    refine bind_eq_ok.mpr ⟨(), checkThrno_of_has hhas, ?_⟩
    unfold Thrs.state
    rw [ht]
    rfl
  unfold AlphaApp.has at hhas
  rw [Bool.and_eq_true, decide_eq_true_eq, decide_eq_true_eq] at hhas
  unfold deleteBlock
  rw [hfind]
  dsimp only
  rw [if_neg (by omega), hstate]
  cases t.state <;> rfl

/-- The requests to delete threads that are as promised. -/
theorem deleteThread_isolated_iff (hs : s.Wf A) (junk : Freed) :
    (∀ r, s.deleteThread A krn mr junk from' = .ok r → Isolated A s from' (r.1, r.2.map (·.ecode))) ↔
      SafeDelete A s krn mr from' := by
  unfold SafeDelete
  cases hfind : s.find A from' with
  | none =>
    have hblock : s.deleteBlock A krn (mr 1) (mr 2) from' junk = .ok (s, ⟨1, 0, -1⟩) := by
      unfold deleteBlock
      rw [hfind]
      rfl
    rw [deleteThread_eq hblock]
    by_cases hgo : mr 1 ≠ from' ∧ Thrid.number A (mr 1) ≠ 0
    · rw [if_pos hgo, refused_isolated_iff (by decide) (by decide)]
      exact ⟨fun h => ⟨fun _ _ _ => h, nofun⟩, fun h => h.1 rfl hgo.1 hgo.2⟩
    · rw [if_neg hgo]
      refine iff_of_true (fun r hr => ?_) ⟨fun _ h1 h2 => absurd ⟨h1, h2⟩ hgo, nofun⟩
      obtain rfl := Except.ok.inj hr
      exact isolated_of_tables rfl
  | some r =>
    obtain ⟨i, e⟩ := r
    obtain ⟨he, hfrom⟩ := find_eq_some hfind
    have hiff : ∀ {P Q : Prop}, (P ↔ Q) → (P ↔ (some (i, e) = none → mr 1 ≠ from' →
        Thrid.number A (mr 1) ≠ 0 → ¬ s.IsDone A (mr 1)) ∧ Q) :=
      fun h => h.trans ⟨fun hq => ⟨nofun, hq⟩, And.right⟩
    refine hiff (Iff.trans ?_ ⟨fun h _ _ heq => Prod.mk.inj (Option.some.inj heq) |>.2 ▸ h,
      fun h => h i e rfl⟩)
    have hrange := hfrom
    unfold AlphaApp.has at hrange
    rw [Bool.and_eq_true, decide_eq_true_eq, decide_eq_true_eq] at hrange
    by_cases hhas : e.has A (mr 1) = true
    · -- a thread of the application of the sender
      have hthr := hs.find he hhas
      have hown := hhas
      unfold AlphaApp.has AlphaApp.thrnoEnd at hown
      rw [Bool.and_eq_true, decide_eq_true_eq, decide_eq_true_eq] at hown
      obtain ⟨t, ht⟩ : ∃ t, e.threads[Thrid.number A (mr 1) - e.thrnoBegin A]? = some t :=
        ⟨_, List.getElem?_eq_getElem (by omega)⟩
      have hblock := deleteBlock_own krn junk hfind hthr ht
      by_cases hdone : t.state = .done
      · -- done before: the slot is freed without an error
        rw [if_pos hdone] at hblock
        rw [deleteThread_eq hblock]
        refine iff_of_true (fun r hr => ?_) ⟨fun h => absurd hhas (by simp [h]), ?_⟩
        · split at hr
          · obtain ⟨a, ha, hr⟩ := bind_eq_ok.mp hr
            obtain rfl := Except.ok.inj hr
            refine (appThrFree_within hthr ha).isolated he hfrom fun ecode hcode herr => ?_
            have hrc : a.2.1 = 0 := by
              obtain rfl := Except.ok.inj ((appThrFree_of_done junk hthr ht hdone).symm.trans ha)
              rfl
            obtain rfl := Option.some.inj hcode
            exact absurd (if_neg (not_not.mpr hrc)) herr
          · obtain rfl := Except.ok.inj hr
            exact isolated_of_tables rfl
        · intro _ _ _ t' ht' hbusy
          obtain rfl := Option.some.inj (ht.symm.trans ht')
          exact absurd (hbusy.symm.trans hdone) (by decide)
      · rw [if_neg hdone] at hblock
        by_cases hmain : Thrid.number A (mr 1) = e.thrnoBegin A
        · -- the main thread: there is no answer
          refine iff_of_true (fun r hr => ?_) ⟨fun h => absurd hhas (by simp [h]), fun _ _ h =>
            absurd hmain h⟩
          obtain ⟨⟨s₁, d₁⟩, h₁, hr⟩ := bind_eq_ok.mp hr
          obtain ⟨hw, hbegin⟩ := deleteRunning_within hthr (hblock ▸ h₁)
          have hno : ¬ (mr 1 ≠ from' ∧ Thrid.number A (mr 1) ≠ d₁.thrnoBegin) :=
            fun h => h.2 (hmain.trans hbegin.symm)
          obtain rfl := Except.ok.inj ((if_neg hno).symm.trans hr)
          exact hw.isolated he hfrom nofun
        · obtain ⟨s₁, ecode, hrun, hfree, hbusy⟩ := deleteRunning_other krn (mr 2) junk
            (d := ⟨0, e.thrnoBegin A, t.state.code⟩) hthr hmain rfl ht
          have hw : Within i s s₁ := (deleteRunning_within hthr hrun).1
          rw [deleteThread_eq (hblock.trans hrun)]
          by_cases hself : mr 1 = from'
          · -- a thread that deletes itself gets no answer
            rw [if_neg fun h => h.1 hself]
            refine iff_of_true (fun r hr => ?_) ⟨fun h => absurd hhas (by simp [h]), fun _ h =>
              absurd hself h⟩
            obtain rfl := Except.ok.inj hr
            exact hw.isolated he hfrom nofun
          · rw [if_pos ⟨hself, hmain⟩]
            cases hst : t.state with
            | done => exact absurd hst hdone
            | free =>
              -- the slot was free: an error, and nothing changes
              obtain ⟨hsame, hfind₁, hcode⟩ := hfree hst
              have hnot : ¬ s₁.IsDone A (mr 1) := by
                rintro ⟨j, e', t', h', ht', hd'⟩
                obtain ⟨rfl, rfl⟩ := Prod.mk.inj (Option.some.inj (hfind₁.symm.trans h'))
                obtain rfl := Option.some.inj (ht.symm.trans ht')
                exact absurd (hst.symm.trans hd') (by decide)
              refine iff_of_true (fun r hr => ?_) ⟨fun h => absurd hhas (by simp [h]), ?_⟩
              · obtain ⟨a, ha, hr⟩ := bind_eq_ok.mp hr
                obtain ⟨a', ha', hiff⟩ := appThrFree_spec (A := A) s₁ (mr 1) junk
                obtain rfl := Except.ok.inj (ha.symm.trans ha')
                obtain rfl := Except.ok.inj hr
                exact isolated_of_tables ((hiff.mpr hnot).trans hsame)
              · intro _ _ _ t' ht' hb
                obtain rfl := Option.some.inj (ht.symm.trans ht')
                exact absurd (hst.symm.trans hb) (by decide)
            | busy =>
              -- the slot was busy and is freed: an error is one of the kernel
              obtain ⟨hfind₁, hcode⟩ := hbusy hst
              obtain ⟨hk, -⟩ := List.getElem?_eq_some_iff.mp ht
              have hend := appThrFree_of_done junk hfind₁ (List.getElem?_set_self hk) rfl
              have hw₂ := hw.trans (appThrFree_within hfind₁ hend)
              unfold freeAndReply
              rw [hend]
              constructor
              · intro hall
                refine ⟨fun h => absurd hhas (by simp [h]), fun _ _ _ t' ht' _ => hcode.mp ?_⟩
                by_contra herr
                refine tables_ne_of_slot (getElem?_put (find_eq_some hfind₁).1) he
                  (List.getElem?_set_self ?_) ht ?_ ((hall _ rfl).1 ecode rfl herr)
                · rw [List.length_set]
                  exact hk
                · rw [hst]
                  show ThrState.free ≠ ThrState.busy
                  decide
              · intro hsafe r hr
                obtain rfl := Except.ok.inj hr
                refine hw₂.isolated he hfrom fun c hc herr => ?_
                obtain rfl := Option.some.inj hc
                exact absurd (hcode.mpr (hsafe.2 hhas hself hmain t ht hst)) herr
    · -- a thread of nobody or of another application
      have hblock : s.deleteBlock A krn (mr 1) (mr 2) from' junk =
          .ok (s, ⟨2, e.thrnoBegin A, -1⟩) := by
        unfold deleteBlock
        rw [hfind]
        refine if_pos ?_
        by_contra hin
        rw [not_or, not_lt, not_le] at hin
        exact hhas (by simp [AlphaApp.has, hin.1, hin.2])
      have hgo : mr 1 ≠ from' ∧ Thrid.number A (mr 1) ≠ e.thrnoBegin A := by
        refine ⟨?_, fun hb => hhas ?_⟩
        · rintro heq
          exact hhas (heq ▸ hfrom)
        · simp only [AlphaApp.has, hb, le_refl, decide_true, Bool.true_and, decide_eq_true_eq]
          omega
      rw [deleteThread_eq hblock, if_pos hgo,
        refused_isolated_iff (show 2 ≠ 0 by decide) (show 2 ||| 1000000 ≠ 0 by decide)]
      exact ⟨fun h => ⟨fun _ => h, fun h' => absurd h' hhas⟩, fun h => h.1 (by simpa using hhas)⟩

/-! ## Every request -/

/-- The request gives up nowhere behind an allocation, and frees nothing it was refused. -/
def Safe (A : Arch) (s : AlphaState) (krn : Krn) (r : ThrRequest) (from' : Nat) : Prop :=
  match r with
  | .createThread mr => KeepsThread A s krn mr from'
  | .createTask mr junk => KeepsTask A s krn mr junk from'
  | .deleteThread mr _ => SafeDelete A s krn mr from'

/-- **Isolation of the thread requests.**  In a table without overlaps a request of any client is as
promised, an error changing no table and no request that of another application, exactly when the request
is safe. -/
theorem serve_isolated_iff (hs : s.Wf A) {r : ThrRequest} :
    (∀ o, s.serve A krn r from' = .ok o → Isolated A s from' o) ↔ Safe A s krn r from' := by
  cases r with
  | createThread mr =>
    refine Iff.trans ?_ createThread_isolated_iff
    constructor
    · exact fun hall r hr => hall _ (bind_eq_ok.mpr ⟨r, hr, rfl⟩)
    · rintro hall o ho
      obtain ⟨r, hr, ho⟩ := bind_eq_ok.mp ho
      exact Except.ok.inj ho ▸ hall r hr
  | createTask mr junk =>
    refine Iff.trans ?_ createTask_isolated_iff
    constructor
    · exact fun hall r hr => hall _ (bind_eq_ok.mpr ⟨r, hr, rfl⟩)
    · rintro hall o ho
      obtain ⟨r, hr, ho⟩ := bind_eq_ok.mp ho
      exact Except.ok.inj ho ▸ hall r hr
  | deleteThread mr junk =>
    refine Iff.trans ?_ (deleteThread_isolated_iff hs junk)
    constructor
    · exact fun hall r hr => hall _ (bind_eq_ok.mpr ⟨r, hr, rfl⟩)
    · rintro hall o ho
      obtain ⟨r, hr, ho⟩ := bind_eq_ok.mp ho
      exact Except.ok.inj ho ▸ hall r hr

/-- Two applications with two threads each; the second thread of the second one has ended itself and
waits to be freed. -/
def endedThread : AlphaState where
  id := Thrid.createGlobal .x86 258 2
  userBase := 257
  cfgs := [2, 2]
  apps :=
    [⟨Thrid.createGlobal .x86 259 2, false, ⟨[], 0, 0, PagePool.empty⟩, 1, 1,
        [⟨.busy, 0, 0x10000, 0x20000, 0x1000⟩, ⟨.free, 0, 0, 0, 0⟩], 100⟩,
      ⟨Thrid.createGlobal .x86 261 2, false, ⟨[], 0, 0, PagePool.empty⟩, 1, 1,
        [⟨.busy, 0, 0x10000, 0x20000, 0x1000⟩, ⟨.done, 7, 0x11000, 0x30000, 0x1000⟩], 100⟩]
  pool := PagePool.empty
  calls := []

theorem wf_endedThread : endedThread.Wf .x86 := by
  refine List.pairwise_pair.mpr fun id h => ?_
  simp only [AlphaApp.has, AlphaApp.thrnoBegin, AlphaApp.thrnoEnd, List.length_cons, List.length_nil,
    number_createGlobal (show 259 < 2 ^ 18 by decide), Bool.and_eq_true, decide_eq_true_eq] at h
  simp only [AlphaApp.has, AlphaApp.thrnoBegin, AlphaApp.thrnoEnd, List.length_cons, List.length_nil,
    number_createGlobal (show 261 < 2 ^ 18 by decide), Bool.and_eq_false_iff, decide_eq_false_iff_not]
  omega

/-- The words of a request to delete a thread. -/
def deleteWords (no : Nat) (j : Nat) : Nat := if j = 1 then Thrid.createGlobal .x86 no 2 else 0

theorem endedThread_own :
    (∀ o, endedThread.serve .x86 (fun _ _ => 0) (.deleteThread (deleteWords 260) ⟨0, 0, 0, 0⟩)
        (Thrid.createGlobal .x86 259 2) = .ok o →
      Isolated .x86 endedThread (Thrid.createGlobal .x86 259 2) o) ↔
    Safe .x86 endedThread (fun _ _ => 0) (.deleteThread (deleteWords 260) ⟨0, 0, 0, 0⟩)
      (Thrid.createGlobal .x86 259 2) :=
  serve_isolated_iff wf_endedThread

/-- The main thread of the first application asks to delete the ended thread of the second one: alpha
answers that it is alien, and frees it. -/
theorem endedThread_alien : ∃ o,
    endedThread.serve .x86 (fun _ _ => 0) (.deleteThread (deleteWords 262) ⟨0, 0, 0, 0⟩)
      (Thrid.createGlobal .x86 259 2) = .ok o ∧
    o.2 = some 2 ∧ o.1.tables ≠ endedThread.tables ∧
    ¬ Isolated .x86 endedThread (Thrid.createGlobal .x86 259 2) o := by
  have hne : ∀ o : AlphaState × Option Nat, o.2 = some 2 → o.1.tables ≠ endedThread.tables →
      ¬ Isolated .x86 endedThread (Thrid.createGlobal .x86 259 2) o :=
    fun o hcode htab h => htab (h.1 2 hcode (by decide))
  have htab : ∀ o, endedThread.serve .x86 (fun _ _ => 0)
      (.deleteThread (deleteWords 262) ⟨0, 0, 0, 0⟩) (Thrid.createGlobal .x86 259 2) = .ok o →
      o.1.tables ≠ endedThread.tables := by
    rintro o ho
    obtain rfl := Except.ok.inj ho
    decide
  exact ⟨_, rfl, rfl, htab _ rfl, hne _ rfl (htab _ rfl)⟩

/-! ## The tables alpha reaches -/

/-- The owners of the applications and their numbers of threads. -/
def ranges (s : AlphaState) : List (Nat × Nat) := s.apps.map fun e => (e.owner, e.threads.length)

/-- The thread numbers of an owner with a number of threads. -/
def covers (A : Arch) (x : Nat × Nat) (id : Nat) : Bool :=
  decide (Thrid.number A x.1 ≤ Thrid.number A id) &&
    decide (Thrid.number A id < Thrid.number A x.1 + x.2)

theorem wf_iff : s.Wf A ↔
    s.ranges.Pairwise fun x y => ∀ id, covers A x id = true → covers A y id = false := by
  unfold Wf ranges
  rw [List.pairwise_map]
  rfl

theorem Wf.of_ranges (hs : s.Wf A) (h : s'.ranges = s.ranges) : s'.Wf A :=
  wf_iff.mpr (h ▸ wf_iff.mp hs)

theorem Within.ranges (h : Within i s s') : s'.ranges = s.ranges := by
  show s'.apps.map _ = s.apps.map _
  refine List.ext_getElem? fun j => ?_
  rw [List.getElem?_map, List.getElem?_map]
  by_cases hj : j = i
  · subst hj
    have howner := h.owner
    have hlen := h.length
    cases hs : s.apps[j]? with
    | none => cases hs' : s'.apps[j]? <;> simp_all
    | some e => cases hs' : s'.apps[j]? <;> simp_all
  · rw [h.other j hj]

theorem appAllocAspace_ranges (A : Arch) (id : Nat) (s : AlphaState) :
    (s.appAllocAspace A id).1.ranges = s.ranges := by
  unfold appAllocAspace
  cases h : s.find A id with
  | none => rfl
  | some r =>
    obtain ⟨i, e⟩ := r
    dsimp only
    cases h' : e.allocAspace with
    | none => rfl
    | some e' =>
      unfold AlphaApp.allocAspace at h'
      split at h'
      · cases h'
      · obtain rfl := Option.some.inj h'
        have hw : Within i s (s.put i { e with aspacesInUse := e.aspacesInUse + 1 }) :=
          within_put (find_eq_some h).1 rfl rfl
        exact hw.ranges

theorem appThrAlloc_ranges {utcb stackAddr stackSz : Nat} {r : AlphaState × Option Nat}
    (hr : s.appThrAlloc A id utcb stackAddr stackSz = .ok r) : r.1.ranges = s.ranges := by
  unfold appThrAlloc at hr
  cases h : s.find A id with
  | none =>
    rw [h] at hr
    obtain rfl := Except.ok.inj hr
    rfl
  | some x =>
    obtain ⟨i, e⟩ := x
    rw [h] at hr
    obtain ⟨⟨e', no⟩, he', hr⟩ := bind_eq_ok.mp hr
    obtain rfl := Except.ok.inj hr
    obtain ⟨-, he'⟩ := ensure_bind_eq_ok.mp he'
    obtain ⟨-, he'⟩ := ensure_bind_eq_ok.mp he'
    obtain ⟨-, he'⟩ := ensure_bind_eq_ok.mp he'
    have hsame : e'.owner = e.owner ∧ e'.threads.length = e.threads.length := by
      cases halloc : e.threads.alloc utcb stackAddr stackSz with
      | none =>
        rw [halloc] at he'
        obtain ⟨rfl, -⟩ := Prod.mk.inj (Except.ok.inj he')
        exact ⟨rfl, rfl⟩
      | some a =>
        rw [halloc] at he'
        obtain ⟨rfl, -⟩ := Prod.mk.inj (Except.ok.inj he')
        exact ⟨rfl, Thrs.length_alloc halloc⟩
    exact (within_put (find_eq_some h).1 hsame.1 hsame.2).ranges

theorem appThrTerminate_ranges {r : AlphaState × Int}
    (hr : s.appThrTerminate A id thrno code = .ok r) : r.1.ranges = s.ranges := by
  cases h : s.find A id with
  | none =>
    unfold appThrTerminate at hr
    rw [h] at hr
    obtain rfl := Except.ok.inj hr
    rfl
  | some x => exact (appThrTerminate_within h hr).ranges

theorem appThrFree_ranges {r : AlphaState × Int × Freed}
    (hr : s.appThrFree A id thrno out = .ok r) : r.1.ranges = s.ranges := by
  cases h : s.find A id with
  | none =>
    unfold appThrFree at hr
    rw [h] at hr
    obtain rfl := Except.ok.inj hr
    rfl
  | some x => exact (appThrFree_within h hr).ranges

/-- A handler that goes on with the state of an allocation: what it does is known for a thread of an
application, and without one it does nothing. -/
theorem startThread_ranges {newno : Nat} {r : AlphaState × Nat × Nat}
    (hr : s.startThread A krn mr from' newno = .ok r) : r.1.ranges = s.ranges := by
  cases h : s.find A from' with
  | none =>
    unfold startThread appMaxPrio at hr
    rw [h] at hr
    obtain rfl := Except.ok.inj hr
    rfl
  | some x => exact ((startThread_spec h krn mr newno).1 r hr).2.ranges

theorem startTask_ranges {newno junk : Nat} {r : AlphaState × Nat × Nat}
    (hr : s.startTask A krn mr junk from' newno = .ok r) : r.1.ranges = s.ranges := by
  cases h : s.find A from' with
  | none =>
    unfold startTask appMaxPrio at hr
    rw [h] at hr
    obtain rfl := Except.ok.inj hr
    rfl
  | some x => exact ((startTask_spec h krn mr junk newno).1 r hr).2.ranges

theorem createThread_ranges {r : AlphaState × Nat × Nat}
    (hr : s.createThread A krn mr from' = .ok r) : r.1.ranges = s.ranges := by
  unfold createThread at hr
  split at hr
  · obtain rfl := Except.ok.inj hr
    rfl
  · obtain ⟨⟨s₁, no⟩, h₁, hr⟩ := bind_eq_ok.mp hr
    have hsame := appThrAlloc_ranges h₁
    cases no with
    | none =>
      obtain rfl := Except.ok.inj hr
      exact hsame
    | some newno => exact (startThread_ranges hr).trans hsame

theorem createTask_ranges {junk : Nat} {r : AlphaState × Nat × Nat}
    (hr : s.createTask A krn mr junk from' = .ok r) : r.1.ranges = s.ranges := by
  unfold createTask at hr
  split at hr
  · obtain rfl := Except.ok.inj hr
    rfl
  · have hspace := appAllocAspace_ranges A from' s
    split at hr
    next s₁ rc heq =>
    rw [heq] at hspace
    split at hr
    · obtain rfl := Except.ok.inj hr
      exact hspace
    · obtain ⟨⟨s₂, no⟩, h₂, hr⟩ := bind_eq_ok.mp hr
      have hsame := (appThrAlloc_ranges h₂).trans hspace
      cases no with
      | none =>
        obtain rfl := Except.ok.inj hr
        exact hsame
      | some newno => exact (startTask_ranges hr).trans hsame

theorem deleteBlock_ranges {thrid : Nat} {r : AlphaState × Deletion}
    (hr : s.deleteBlock A krn thrid code from' out = .ok r) : r.1.ranges = s.ranges := by
  unfold deleteBlock at hr
  cases hfind : s.find A from' with
  | none =>
    rw [hfind] at hr
    obtain rfl := Except.ok.inj hr
    rfl
  | some x =>
    obtain ⟨i, e⟩ := x
    rw [hfind] at hr
    dsimp only at hr
    split at hr
    · obtain rfl := Except.ok.inj hr
      rfl
    · next hin =>
      obtain ⟨state, -, hr⟩ := bind_eq_ok.mp hr
      split at hr
      · obtain rfl := Except.ok.inj hr
        rfl
      · cases hthr : s.find A thrid with
        | none =>
          have hno := find_eq_none hthr (find_eq_some hfind).1
          rw [not_or, not_lt, not_le] at hin
          simp [AlphaApp.has, hin.1, hin.2] at hno
        | some y => exact (deleteRunning_within hthr hr).1.ranges

/-- No request changes the owners or the numbers of threads. -/
theorem serve_ranges {r : ThrRequest} {o : AlphaState × Option Nat}
    (ho : s.serve A krn r from' = .ok o) : o.1.ranges = s.ranges := by
  cases r with
  | createThread mr =>
    obtain ⟨r, hr, ho⟩ := bind_eq_ok.mp ho
    exact Except.ok.inj ho ▸ createThread_ranges hr
  | createTask mr junk =>
    obtain ⟨r, hr, ho⟩ := bind_eq_ok.mp ho
    exact Except.ok.inj ho ▸ createTask_ranges hr
  | deleteThread mr junk =>
    obtain ⟨r, hr, ho⟩ := bind_eq_ok.mp ho
    obtain ⟨⟨s₁, d⟩, h₁, hr⟩ := bind_eq_ok.mp hr
    have hsame : r.1.ranges = s₁.ranges := by
      dsimp only at hr
      split at hr
      · obtain ⟨a, ha, hr⟩ := bind_eq_ok.mp hr
        obtain rfl := Except.ok.inj hr
        exact appThrFree_ranges ha
      · obtain rfl := Except.ok.inj hr
        rfl
    exact Except.ok.inj ho ▸ hsame.trans (deleteBlock_ranges h₁)

/-- The thread numbers given to applications so far, with the next one. -/
def Numbered (A : Arch) (userBase : Nat) (s : AlphaState) (next : Nat) : Prop :=
  s.Wf A ∧ (∀ x ∈ s.ranges, Thrid.number A x.1 + x.2 ≤ next) ∧
    next ≤ userBase + 2 + 32 * s.apps.length ∧ s.apps.length ≤ 8

/-- A new application is the owner of so many threads from the next number on. -/
theorem appCreate_ranges {next : Nat} {c : AppStart} (hs : s.appCreate A next c = .ok s') :
    s.apps.length < 8 ∧ c.maxThreads ≤ 32 ∧
      s'.ranges = s.ranges ++ [(Thrid.createGlobal A next 2, c.maxThreads)] := by
  obtain ⟨hroom, hs⟩ := ensure_bind_eq_ok.mp hs
  obtain ⟨hmax, hs⟩ := ensure_bind_eq_ok.mp hs
  refine ⟨hroom, hmax, ?_⟩
  dsimp only at hs
  have h₁ := appAllocAspace_ranges A (Thrid.createGlobal A next 2)
    { s with apps := s.apps ++ [⟨Thrid.createGlobal A next 2, c.lx, c.mem, c.maxAspaces, 0,
        List.replicate c.maxThreads ⟨.free, 0, 0, 0, 0⟩, c.maxPrio⟩] }
  obtain ⟨-, hs⟩ := ensure_bind_eq_ok.mp hs
  obtain ⟨⟨s₂, no⟩, h₂, hs⟩ := bind_eq_ok.mp hs
  have h₂ := (appThrAlloc_ranges h₂).trans h₁
  cases no with
  | none => cases hs
  | some newno =>
    obtain ⟨-, hs⟩ := ensure_bind_eq_ok.mp hs
    obtain rfl := Except.ok.inj hs
    refine h₂.trans ?_
    simp [ranges]

theorem length_ranges (s : AlphaState) : s.ranges.length = s.apps.length := List.length_map _

/-- Starting an application gives it the next thread numbers. -/
theorem appCreate_numbered {userBase next : Nat} {c : AppStart} (hbase : userBase < 2 ^ 12)
    (h : Numbered A userBase s next) (hs : s.appCreate A next c = .ok s') :
    Numbered A userBase s' (next + c.maxThreads) := by
  obtain ⟨hwf, hbelow, hnext, -⟩ := h
  obtain ⟨hroom, hmax, hranges⟩ := appCreate_ranges hs
  have hnum : Thrid.number A (Thrid.createGlobal A next 2) = next := number_createGlobal (by omega)
  have hlen : s'.apps.length = s.apps.length + 1 := by
    have := congrArg List.length hranges
    rwa [List.length_append, length_ranges, length_ranges] at this
  refine ⟨wf_iff.mpr ?_, ?_, by omega, by omega⟩
  · rw [hranges]
    refine List.pairwise_append.mpr ⟨wf_iff.mp hwf, List.pairwise_singleton _ _, ?_⟩
    intro x hx y hy id hid
    obtain rfl := List.mem_singleton.mp hy
    have hle := hbelow x hx
    simp only [covers, Bool.and_eq_true, decide_eq_true_eq] at hid
    simp only [covers, hnum, Bool.and_eq_false_iff, decide_eq_false_iff_not]
    omega
  · rw [hranges]
    intro x hx
    rcases List.mem_append.mp hx with hx | hx
    · exact (hbelow x hx).trans (Nat.le_add_right _ _)
    · obtain rfl := List.mem_singleton.mp hx
      exact Nat.le_of_eq (congrArg (· + c.maxThreads) hnum)

/-- The first thread numbers of the applications and their numbers of threads. -/
def numbers (A : Arch) (s : AlphaState) : List (Nat × Nat) :=
  s.apps.map fun e => (e.thrnoBegin A, e.threads.length)

/-- So many threads for each, one after the other. -/
def consecutive : Nat → List Nat → List (Nat × Nat)
  | _, [] => []
  | next, n :: ns => (next, n) :: consecutive (next + n) ns

/-- **The thread numbers** are handed out one after the other. -/
theorem createApps_numbers {userBase : Nat} (hbase : userBase < 2 ^ 12) :
    ∀ {cs : List AppStart} {next : Nat} {s s' : AlphaState}, Numbered A userBase s next →
      createApps A next cs s = .ok s' →
        s'.numbers A = s.numbers A ++ consecutive next (cs.map (·.maxThreads))
  | [], _, s, s', _, hs => by
    rw [← Except.ok.inj hs]
    exact (List.append_nil _).symm
  | c :: cs, next, s, s', h, hs => by
    obtain ⟨s₁, h₁, hs⟩ := bind_eq_ok.mp hs
    have hnext := h.2.2.1
    obtain ⟨hroom, -, hranges⟩ := appCreate_ranges h₁
    have hnum : Thrid.number A (Thrid.createGlobal A next 2) = next := number_createGlobal (by omega)
    have hread : ∀ t : AlphaState, t.numbers A = t.ranges.map fun x => (Thrid.number A x.1, x.2) := by
      intro t
      rw [ranges, List.map_map]
      rfl
    have hone : s₁.numbers A = s.numbers A ++ [(next, c.maxThreads)] := by
      rw [hread, hread, hranges, List.map_append, List.map_singleton, hnum]
    rw [createApps_numbers hbase (appCreate_numbered hbase h h₁) hs, hone, List.append_assoc]
    rfl

theorem createApps_numbered {userBase : Nat} (hbase : userBase < 2 ^ 12) :
    ∀ {cs : List AppStart} {next : Nat} {s s' : AlphaState}, Numbered A userBase s next →
      createApps A next cs s = .ok s' → s'.Wf A
  | [], _, s, s', h, hs => Except.ok.inj hs ▸ h.1
  | c :: cs, next, s, s', h, hs => by
    obtain ⟨s₁, h₁, hs⟩ := bind_eq_ok.mp hs
    exact createApps_numbered hbase (appCreate_numbered hbase h h₁) hs

theorem init_numbered {alpha userBase : Nat} {cs : List AppStart} {pool : PagePool} :
    Numbered A userBase (init alpha userBase cs pool) (userBase + 2) :=
  ⟨List.Pairwise.nil, fun _ h => (List.not_mem_nil h).elim, Nat.le_refl _, Nat.zero_le _⟩

/-- **The tables alpha reaches have no overlaps.**  The user base is a field of twelve bits. -/
theorem reached_wf {alpha userBase : Nat} {cs : List AppStart} {pool : PagePool} {qs : List Query}
    (hbase : userBase < 2 ^ 12)
    (hstart : createApps A (userBase + 2) cs (init alpha userBase cs pool) = .ok s)
    (hrun : Lib.runAll (step A) s qs = .ok s') : s'.Wf A := by
  have hs : s.Wf A := createApps_numbered hbase init_numbered hstart
  refine Lib.runAll_invariant_of_step (I := Wf A) (fun s q s' hi hq => ?_) hs hrun
  obtain ⟨o, ho, rfl⟩ := Lib.map_eq_ok (x := s.serve A q.krn q.request q.sender) hq
  exact hi.of_ranges (serve_ranges ho)

/-- Two applications of two threads each. -/
def twoApps : List AppStart :=
  List.replicate 2 ⟨false, 2, 1, 100, ⟨[], 0, 0, PagePool.empty⟩, 0x10000, 0x20000, 0x1000⟩

/-- The main thread of the first asks to delete that of the second. -/
def deleteOther : Query :=
  ⟨fun _ _ => 0, .deleteThread (deleteWords 261) ⟨0, 0, 0, 0⟩, Thrid.createGlobal .x86 259 2⟩

theorem deleteOther_wf : ∃ s s',
    createApps .x86 259 twoApps (init 0 257 twoApps PagePool.empty) = .ok s ∧
      Lib.runAll (step .x86) s [deleteOther] = .ok s' ∧ s'.Wf .x86 :=
  ⟨_, _, rfl, rfl, @reached_wf .x86 _ _ 0 257 twoApps PagePool.empty [deleteOther] (by decide) rfl rfl⟩

end AlphaState
end Wrmos
