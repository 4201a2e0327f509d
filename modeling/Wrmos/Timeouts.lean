import Wrmos.Preempt

/-!
# Timeouts

The two lists of waiting threads are ordered by timeout, and the scan of `check_ipc_timeouts` stops at
the first thread whose timeout is still to come.  It is right to stop there if every operation keeps the
order: an insertion goes before the first thread with a later timeout, `state()` takes one thread out of
its list and leaves the order of the others alone (`setState_members`), and the timeout of a thread
changes only when the thread leaves its list with the same call.

`run_timeouts` is about every sequence of operations.  Both lists are ordered, and a tick makes exactly
the threads ready whose timeout has come, with the error of their phase; the others stay as they are, in
the order they were in.
-/

namespace Wrmos

open Lib

namespace Threads

variable {A : Arch} {ts ts' : Threads} {t u : Nat} {q : Que} {c : Nat}

/-! ## What the operations do to the order of a list -/

/-- Put a thread into the members of a list. -/
def placed (ts : Threads) (t : Nat) (q : Que) (l : List Nat) : List Nat :=
  match q with
  | .ready _ => l ++ [t]
  | .send => l ++ [t]
  | _ => l.takeWhile (fun u => !ts.waitsAfter t u) ++ t :: l.dropWhile fun u => !ts.waitsAfter t u

theorem eraseFrom_members (h : Located ts) (hok : ts.eraseFrom q t = .ok ts') (q' : Que) :
    ts'.members q' = (ts.members q').filter (· ≠ t) := by
  obtain ⟨-, ⟨n, hn⟩, -⟩ := eraseFrom_spec h hok
  have hlist : ts' = (ts.putList q ((ts.list q).erase n)).upd t fun th => { th with iter := none } := by
    unfold eraseFrom at hok
    obtain ⟨-, hok⟩ := ensure_bind_eq_ok.mp hok
    rw [hn] at hok
    exact (Except.ok.inj hok).symm
  by_cases hq : q' = q
  · subst hq
    have hbusy := (h.node q' n t).mpr hn
    have honly : ∀ m, (m, t) ∈ (ts.list q').busy → m = n := by
      intro m hm
      have hm' := (h.node q' m t).mp hm
      rw [hn] at hm'
      exact (Prod.mk.inj (Option.some.inj hm')).2.symm
    have he := NodeList.elems_erase (h.wf q') hbusy honly
    rw [hlist]
    unfold members
    rw [list_upd, list_putList_self]
    exact he
  · -- the thread is not in the other lists
    have hnot : t ∉ ts.members q' := by
      intro hm
      obtain ⟨⟨m, t'⟩, hb, rfl⟩ := List.mem_map.mp hm
      have hm' := (h.node q' m t').mp hb
      rw [hn] at hm'
      exact hq (Prod.mk.inj (Option.some.inj hm')).1.symm
    rw [List.filter_eq_self.mpr fun u hu => by
      simpa using fun he : u = t => hnot (he ▸ hu)]
    unfold members
    rw [hlist, list_upd, list_putList_ne _ hq]

theorem insertInto_members {p : Nat → Bool} (hok : ts.insertInto q p t = .ok ts') :
    ts'.members q = (ts.members q).takeWhile (fun u => !p u) ++
      t :: (ts.members q).dropWhile fun u => !p u := by
  unfold insertInto at hok
  obtain ⟨-, hok⟩ := ensure_bind_eq_ok.mp hok
  split at hok
  · cases hok
  · rename_i l n hins
    obtain rfl := Except.ok.inj hok
    have he := NodeList.elems_insertWhere hins
    unfold members
    rw [list_upd, list_putList_self]
    exact he

theorem addTo_members (hok : ts.addTo t q = .ok ts') :
    ts'.members q = ts.placed t q (ts.members q) := by
  have hend : ∀ l : List Nat, l.takeWhile (fun _ => !false) ++ t :: l.dropWhile (fun _ => !false) =
      l ++ [t] := by
    intro l
    induction l with
    | nil => rfl
    | cons u l ih => simpa using ih
  cases q with
  | ready p =>
    obtain ⟨ts₁, hins, hok⟩ := bind_eq_ok.mp hok
    have he := insertInto_members hins
    obtain rfl := Except.ok.inj hok
    rw [hend] at he
    exact he
  | send =>
    have he := insertInto_members hok
    rw [hend] at he
    exact he
  | sndTimeout => exact insertInto_members hok
  | rcvTimeout => exact insertInto_members hok

theorem delFrom_members (h : Located ts) (hok : ts.delFrom t q = .ok ts') (q' : Que) :
    ts'.members q' = (ts.members q').filter (· ≠ t) := by
  have hwait : ∀ {r : Que} {s : TState}, ts.delWaiting r s t = .ok ts' →
      ts'.members q' = (ts.members q').filter (· ≠ t) := by
    intro r s hw
    unfold delWaiting at hw
    split at hw
    · cases hw
    · obtain ⟨-, hw⟩ := ensure_bind_eq_ok.mp hw
      exact eraseFrom_members h hw q'
  cases q with
  | ready p =>
    change ts.delReady t = .ok ts' at hok
    unfold delReady at hok
    split at hok
    · cases hok
    · obtain ⟨ts₁, hers, hok⟩ := bind_eq_ok.mp hok
      obtain rfl := Except.ok.inj hok
      have he := eraseFrom_members h hers q'
      split_ifs <;> exact he
  | send => exact eraseFrom_members h hok q'
  | sndTimeout => exact hwait hok
  | rcvTimeout => exact hwait hok

/-- A thread without an iterator is in no list. -/
theorem Located.filter_of_unlinked (h : Located ts) (hiter : (ts.thr t).iter = none) (q : Que) :
    (ts.members q).filter (· ≠ t) = ts.members q := by
  refine List.filter_eq_self.mpr fun u hu => ?_
  simp only [ne_eq, decide_not, Bool.not_eq_eq_eq_not, Bool.not_true, decide_eq_false_iff_not]
  rintro rfl
  obtain ⟨⟨n, t'⟩, hb, rfl⟩ := List.mem_map.mp hu
  rw [(h.node q n t').mp hb] at hiter
  cases hiter

theorem unlink_members (h : InvBut ts t) (hok : ts.unlink t = .ok ts') (q : Que) :
    ts'.members q = (ts.members q).filter (· ≠ t) := by
  unfold unlink at hok
  split at hok
  · rename_i hq
    obtain rfl := Except.ok.inj hok
    exact (h.located.filter_of_unlinked (h.gone hq) q).symm
  · exact delFrom_members h.located hok q

theorem link_members (hok : ts.link t = .ok ts') (q : Que) :
    ts'.members q =
      if (ts.thr t).que = some q then ts.placed t q (ts.members q) else ts.members q := by
  unfold link at hok
  split at hok
  · rename_i hq
    obtain rfl := Except.ok.inj hok
    rw [if_neg (by rw [hq]; exact nofun)]
  · rename_i q' hq
    rw [hq]
    by_cases hqq : q' = q
    · subst hqq
      rw [if_pos rfl]
      exact addTo_members hok
    · rw [if_neg fun he => hqq (Option.some.inj he)]
      unfold members
      rw [addTo_list hqq hok]

/-- The fields by which `placed` finds the place. -/
theorem placed_congr {ts₁ : Threads} {l : List Nat} (ht : (ts₁.thr t).timeout = (ts.thr t).timeout)
    (hp : (ts₁.thr t).prio = (ts.thr t).prio)
    (hl : ∀ u ∈ l, (ts₁.thr u).timeout = (ts.thr u).timeout ∧ (ts₁.thr u).prio = (ts.thr u).prio) :
    ts₁.placed t q l = ts.placed t q l := by
  have hwaits : ∀ u ∈ l, ts₁.waitsAfter t u = ts.waitsAfter t u := by
    intro u hu
    unfold waitsAfter
    rw [ht, hp, (hl u hu).1, (hl u hu).2]
  have htake : l.takeWhile (fun u => !ts₁.waitsAfter t u) = l.takeWhile fun u => !ts.waitsAfter t u :=
    takeWhile_congr fun u hu => by rw [hwaits u hu]
  have hdrop : l.dropWhile (fun u => !ts₁.waitsAfter t u) = l.dropWhile fun u => !ts.waitsAfter t u := by
    have h₁ := List.takeWhile_append_dropWhile (p := fun u => !ts₁.waitsAfter t u) (l := l)
    have h₂ := List.takeWhile_append_dropWhile (p := fun u => !ts.waitsAfter t u) (l := l)
    rw [htake] at h₁
    exact List.append_cancel_left (h₁.trans h₂.symm)
  cases q <;> simp only [placed, htake, hdrop]

/-- **`state(s)`** takes the thread out of its list and puts it into the one its new fields dictate;
the order of the others does not change. -/
theorem setState_members {s : TState} (h : InvBut ts t) (hok : ts.setState A c t s = .ok ts')
    (q : Que) :
    ts'.members q =
      if (entered s (ts.thr t)).que = some q then
        (ts.upd t (entered s)).placed t q ((ts.members q).filter (· ≠ t))
      else (ts.members q).filter (· ≠ t) := by
  unfold setState at hok
  obtain ⟨-, hok⟩ := ensure_bind_eq_ok.mp hok
  obtain ⟨ts₁, hunlink, hok⟩ := bind_eq_ok.mp hok
  obtain ⟨ts₂, hlink, hdrop⟩ := bind_eq_ok.mp hok
  have hthr := (unlink_spec h hunlink).2.2
  have hself : (ts₁.upd t (entered s)).thr t = { entered s (ts.thr t) with iter := none } := by
    rw [thr_upd_self, hthr, setIter_self]
    unfold entered
    split_ifs <;> rfl
  have hque : ((ts₁.upd t (entered s)).thr t).que = (entered s (ts.thr t)).que := by
    rw [hself]
    rfl
  have hmem : (ts₁.upd t (entered s)).members q = (ts.members q).filter (· ≠ t) :=
    unlink_members h hunlink q
  have hlast : ts'.members q = ts₂.members q := by
    unfold members
    rw [(dropHeir_same hdrop).list]
  have hplace : (ts₁.upd t (entered s)).placed t q ((ts.members q).filter (· ≠ t)) =
      (ts.upd t (entered s)).placed t q ((ts.members q).filter (· ≠ t)) := by
    refine placed_congr ?_ ?_ fun u hu => ?_
    · rw [hself, thr_upd_self]
    · rw [hself, thr_upd_self]
    · have hu : u ≠ t := by simpa using (List.mem_filter.mp hu).2
      rw [thr_upd_ne _ hu, thr_upd_ne _ hu, hthr, setIter_ne _ hu]
      exact ⟨rfl, rfl⟩
  rw [hlast, link_members hlink, hque, hmem, hplace]

/-! ## The order by timeout -/

/-- The lists that are ordered by timeout. -/
def Timed (q : Que) : Prop := q = .sndTimeout ∨ q = .rcvTimeout

/-- The timeouts of the threads do not fall along the list. -/
def InOrder (ts : Threads) (l : List Nat) : Prop :=
  l.Pairwise fun t u => (ts.thr t).timeout ≤ (ts.thr u).timeout

/-- Both lists of waiting threads are ordered by timeout. -/
def Sorted (ts : Threads) : Prop := ∀ q, Timed q → ts.InOrder (ts.members q)

/-- The other threads are ordered by timeout. -/
def SortedBut (ts : Threads) (t : Nat) : Prop :=
  ∀ q, Timed q → ts.InOrder ((ts.members q).filter (· ≠ t))

theorem Sorted.but (h : Sorted ts) (t : Nat) : SortedBut ts t := fun q hq => (h q hq).filter _

theorem InOrder.congr {l : List Nat} (h : ts.InOrder l)
    (hl : ∀ u ∈ l, (ts'.thr u).timeout = (ts.thr u).timeout) : ts'.InOrder l := by
  refine List.Pairwise.imp_of_mem (fun {a b} ha hb hle => ?_) h
  rw [hl a ha, hl b hb]
  exact hle

theorem SortedBut.upd (h : SortedBut ts t) (f : Thread → Thread) : SortedBut (ts.upd t f) t := by
  refine fun q hq => (h q hq).congr fun u hu => ?_
  have hu : u ≠ t := by simpa using (List.mem_filter.mp hu).2
  rw [thr_upd_ne f hu]

theorem Sorted.of_same (h : Sorted ts) (hlist : ∀ q, Timed q → ts'.list q = ts.list q)
    (htime : ∀ u, (ts'.thr u).timeout = (ts.thr u).timeout) : Sorted ts' := by
  intro q hq
  have hmem : ts'.members q = ts.members q := by
    unfold members
    rw [hlist q hq]
  rw [hmem]
  exact (h q hq).congr fun u _ => htime u

theorem timeout_upd {f : Thread → Thread} (hf : ∀ th, (f th).timeout = th.timeout) (u : Nat) :
    ((ts.upd t f).thr u).timeout = (ts.thr u).timeout := by
  by_cases hu : u = t
  · subst hu
    rw [thr_upd_self, hf]
  · rw [thr_upd_ne _ hu]

/-- `state(s)` keeps the order: the insertion finds the right place. -/
theorem setState_sorted {s : TState} (h : InvBut ts t) (hs : SortedBut ts t)
    (hok : ts.setState A c t s = .ok ts') : Sorted ts' := by
  have htime : ∀ u, (ts'.thr u).timeout = ((ts.upd t (entered s)).thr u).timeout := by
    intro u
    have hb := Thread.timeout_of_bare ((setState_bare hok u).trans (apply_ite _ _ _ _).symm)
    rw [hb]
    by_cases hu : u = t
    · subst hu
      rw [if_pos rfl, thr_upd_self]
    · rw [if_neg hu, thr_upd_ne _ hu]
  intro q hq
  have hrest := hs.upd (entered s) q hq
  change (ts.upd t (entered s)).InOrder ((ts.members q).filter (· ≠ t)) at hrest
  have hmem := setState_members h hok q
  suffices hord : (ts.upd t (entered s)).InOrder (ts'.members q) from hord.congr fun u _ => htime u
  rw [hmem]
  split_ifs
  · have hplaced : (ts.upd t (entered s)).placed t q ((ts.members q).filter (· ≠ t)) =
        ((ts.members q).filter (· ≠ t)).takeWhile (fun u => !(ts.upd t (entered s)).waitsAfter t u) ++
          t :: ((ts.members q).filter (· ≠ t)).dropWhile
            fun u => !(ts.upd t (entered s)).waitsAfter t u := by
      rcases hq with rfl | rfl <;> rfl
    rw [hplaced]
    refine NodeList.pairwise_insert (f := fun u => ((ts.upd t (entered s)).thr u).timeout) hrest
      (fun u _ hu => ?_) fun u _ hu => ?_
    · simp only [waitsAfter, Bool.or_eq_true, decide_eq_true_eq, Bool.and_eq_true, beq_iff_eq] at hu
      omega
    · simp only [waitsAfter, Bool.or_eq_false_iff, decide_eq_false_iff_not] at hu
      omega
  · exact hrest

theorem setPrio_sorted {v : Nat} (h : Sorted ts) (hok : ts.setPrio t v = .ok ts') : Sorted ts' := by
  unfold setPrio at hok
  split_ifs at hok
  · obtain ⟨ts₁, hdel, hadd⟩ := bind_eq_ok.mp hok
    have hdelthr := delReady_thr hdel
    obtain ⟨i, haddthr⟩ := addTo_thr hadd
    refine h.of_same (fun q hq => ?_) fun u => ?_
    · have hnot : ∀ p, q ≠ .ready p := by rcases hq with rfl | rfl <;> exact nofun
      rw [addTo_list (Ne.symm (hnot _)) hadd, list_upd]
      exact delFrom_list (r := .ready 0) hnot (Ne.symm (hnot _)) hdel
    · have hdeltime : (ts₁.thr u).timeout = (ts.thr u).timeout := by
        rw [hdelthr]
        refine timeout_upd ?_ u
        exact fun _ => rfl
      rw [haddthr, ← hdeltime]
      refine (timeout_upd ?_ u).trans (timeout_upd ?_ u) <;> exact fun _ => rfl
  · obtain rfl := Except.ok.inj hok
    exact h.of_same (fun _ _ => rfl) (timeout_upd fun _ => rfl)

theorem timesliceExpired_sorted {que first : Option Nat} (h : Sorted ts)
    (hok : ts.timesliceExpired t que = .ok (first, ts')) : Sorted ts' := by
  refine h.of_same (fun q hq => ?_) fun u => Thread.timeout_of_bare (timesliceExpired_bare hok u)
  have hnot : ∀ p, q ≠ .ready p := by rcases hq with rfl | rfl <;> exact nofun
  unfold timesliceExpired at hok
  obtain ⟨-, hok⟩ := ensure_bind_eq_ok.mp hok
  obtain ⟨-, hok⟩ := ensure_bind_eq_ok.mp hok
  dsimp only at hok
  split_ifs at hok
  · split at hok
    · split at hok
      · cases hok
      · obtain ⟨-, rfl⟩ := Prod.mk.inj (Except.ok.inj hok)
        rw [list_upd, list_putList_ne _ (hnot _), list_upd]
    · cases hok
  · obtain ⟨-, rfl⟩ := Prod.mk.inj (Except.ok.inj hok)
    rfl

theorem getHighest_sorted (h : Sorted ts) (hok : ts.getHighestPrioReadyThread = .ok (t, ts')) :
    Sorted ts' := by
  unfold getHighestPrioReadyThread at hok
  split at hok
  · cases hok
  · split at hok
    · cases hok
    · split_ifs at hok
      · obtain ⟨⟨first, ts₁⟩, hexp, hok⟩ := bind_eq_ok.mp hok
        dsimp only at hok
        split at hok
        · cases hok
        · obtain ⟨-, rfl⟩ := Prod.mk.inj (Except.ok.inj hok)
          exact timesliceExpired_sorted h hexp
      · obtain ⟨-, rfl⟩ := Prod.mk.inj (Except.ok.inj hok)
        exact h

/-! ## A change of state goes through -/

/-- Only threads of the pool are in use. -/
def InPool (ts : Threads) : Prop := ∀ t, (ts.thr t).state ≠ .idle → t < threadsMax

theorem Inv.isExist (h : Inv ts) (hq : (ts.thr t).que = some q) :
    ∃ n, (ts.thr t).iter = some (q, n) ∧ (n, t) ∈ (ts.list q).busy ∧
      ts.isExist q (ts.thr t).iter = true ∧ ts.deref (ts.thr t).iter = some t := by
  rw [(h.tidy t).1] at hq
  obtain ⟨⟨q', n⟩, hi, rfl⟩ := Option.map_eq_some_iff.mp hq
  have hb := (h.located.node q' n t).mpr hi
  refine ⟨n, hi, hb, ?_, ?_⟩
  · have hn : n ∈ (ts.list q').nodes := List.mem_map.mpr ⟨(n, t), hb, rfl⟩
    simp [Threads.isExist, hi, hn]
  · rw [hi]
    exact (NodeList.get?_eq_some (h.located.wf q')).mpr hb

theorem Inv.unlink_isOk (h : Inv ts) : ∃ ts', ts.unlink t = .ok ts' := by
  unfold unlink
  cases hq : (ts.thr t).que with
  | none => exact ⟨ts, rfl⟩
  | some q =>
    obtain ⟨n, hi, -, hex, hderef⟩ := h.isExist hq
    have hers : ∃ ts', ts.eraseFrom q t = .ok ts' := by
      unfold eraseFrom
      rw [ensure_bind_of hex, hi]
      exact ⟨_, rfl⟩
    have hwait : ∀ s, (ts.thr t).state = s → ∃ ts', ts.delWaiting q s t = .ok ts' := by
      intro s hs
      unfold delWaiting
      rw [hderef]
      dsimp only
      rw [ensure_bind_of hs]
      exact hers
    -- which list it is tells the state, and the priority
    unfold Thread.que at hq
    split_ifs at hq with hr hs hsnd hrcv
    · obtain rfl := Option.some.inj hq
      obtain ⟨ts₁, h₁⟩ := hers
      change ∃ ts', ts.delReady t = .ok ts'
      unfold delReady
      rw [hderef]
      dsimp only
      rw [h₁]
      exact ⟨_, rfl⟩
    · obtain rfl := Option.some.inj hq
      exact hwait _ hs.1
    · obtain rfl := Option.some.inj hq
      exact hers
    · obtain rfl := Option.some.inj hq
      exact hwait _ hrcv.1

/-- A list has room for every thread of the pool. -/
theorem Located.free_ne_nil (h : Located ts) (hpool : ∀ u ∈ ts.members q, u < threadsMax)
    (ht : t < threadsMax) (hnot : t ∉ ts.members q) : (ts.list q).free ≠ [] := by
  intro hfree
  have hroom := h.room q
  rw [hfree, List.length_nil, Nat.add_zero] at hroom
  have hnodup : (t :: ts.members q).Nodup := List.nodup_cons.mpr ⟨hnot, h.nodup_members q⟩
  have hsub : (t :: ts.members q) ⊆ List.range threadsMax := by
    intro u hu
    rcases List.mem_cons.mp hu with rfl | hu
    · exact List.mem_range.mpr ht
    · exact List.mem_range.mpr (hpool u hu)
  have hlen := (List.subperm_of_subset hnodup hsub).length_le
  rw [List.length_cons, List.length_range] at hlen
  have : (ts.members q).length = threadsMax := by
    unfold members
    rw [List.length_map, hroom]
  omega

theorem link_isOk (h : Located ts) (hpool : ∀ q, ∀ u ∈ ts.members q, u < threadsMax)
    (ht : t < threadsMax) (hiter : (ts.thr t).iter = none) : ∃ ts', ts.link t = .ok ts' := by
  have hnot : ∀ q, t ∉ ts.members q := by
    intro q hm
    obtain ⟨⟨n, t'⟩, hb, rfl⟩ := List.mem_map.mp hm
    rw [(h.node q n t').mp hb] at hiter
    cases hiter
  have hins : ∀ q p, ∃ ts', ts.insertInto q p t = .ok ts' := by
    intro q p
    unfold insertInto
    have habsent : ∀ e ∈ (ts.list q).busy, e.2 ≠ t :=
      fun e he heq => hnot q (List.mem_map.mpr ⟨e, he, heq⟩)
    rw [ensure_bind_of habsent]
    cases hw : (ts.list q).insertWhere p t with
    | none =>
      exact absurd (NodeList.insertWhere_eq_none hw) (h.free_ne_nil (hpool q) ht (hnot q))
    | some r => exact ⟨_, rfl⟩
  unfold link
  cases (ts.thr t).que with
  | none => exact ⟨ts, rfl⟩
  | some q =>
    cases q with
    | ready p =>
      obtain ⟨ts₁, h₁⟩ := hins (.ready p) fun _ => false
      exact ⟨ts₁.setBit p, bind_eq_ok.mpr ⟨ts₁, h₁, rfl⟩⟩
    | send => exact hins .send _
    | sndTimeout => exact hins .sndTimeout _
    | rcvTimeout => exact hins .rcvTimeout _

/-- A thread in a list is a thread of the pool. -/
theorem InPool.lt_of_mem (hp : InPool ts) (h : Inv ts) (hm : t ∈ ts.members q) : t < threadsMax := by
  refine hp t fun hidle => ?_
  have hq := h.que_of_mem hm
  simp [Thread.que, hidle] at hq

/-- **`state(s)`** goes through for a thread of the pool in another state. -/
theorem setState_isOk {s : TState} (h : Inv ts) (hn : NoHeir ts) (hp : InPool ts)
    (ht : t < threadsMax) (hs : (ts.thr t).state ≠ s) : ∃ ts', ts.setState A c t s = .ok ts' := by
  obtain ⟨ts₁, hunlink⟩ := h.unlink_isOk (t := t)
  obtain ⟨hl, -, he⟩ := unlink_spec (h.but t) hunlink
  have hiter : ((ts₁.upd t (entered s)).thr t).iter = none := by
    rw [thr_upd_self, entered_iter, he, setIter_self]
  have hpool : ∀ q, ∀ u ∈ (ts₁.upd t (entered s)).members q, u < threadsMax := by
    intro q u hu
    change u ∈ ts₁.members q at hu
    rw [unlink_members (h.but t) hunlink q] at hu
    exact hp.lt_of_mem h (List.mem_filter.mp hu).1
  obtain ⟨ts₂, hlink⟩ := link_isOk (hl.upd (entered_iter s _)) hpool ht hiter
  -- nobody inherited the priority of the thread
  have hheir : (ts₂.thr t).prioHeir = Thrid.nil := by
    obtain ⟨i, hi⟩ := link_thr hlink
    have hold := (hn t).2
    rw [hi, setIter_self, thr_upd_self, he, setIter_self]
    unfold entered
    split_ifs <;> exact hold
  refine ⟨ts₂, ?_⟩
  unfold setState
  rw [ensure_bind_of hs]
  refine bind_eq_ok.mpr ⟨ts₁, hunlink, bind_eq_ok.mpr ⟨ts₂, hlink, ?_⟩⟩
  unfold dropHeir
  rw [if_pos hheir]

/-! ## The scan -/

/-- The thread with a failed tag and a timeout error of the phase it is in. -/
def timedOut (A : Arch) (th : Thread) : Thread :=
  { th with
    utcb := { th.utcb with
      error := ipcErr A (if th.state = .sendIpc then 0 else 1) 1 0
      mr := Function.update th.utcb.mr 0 (Tag.setError A (th.utcb.mr 0) 1) } }

/-- The threads of `w` were made ready, in this order; nothing happened to the others. -/
structure Scanned (A : Arch) (ts ts' : Threads) (w : List Nat) : Prop where
  woken : ∀ u ∈ w, (ts'.thr u).bare = (entered .ready (timedOut A (ts.thr u))).bare
  others : ∀ u, u ∉ w → (ts'.thr u).bare = (ts.thr u).bare
  members : ∀ q, ts'.members q =
    (ts.members q).filter (· ∉ w) ++ w.filter fun u => q = .ready (ts.thr u).prio

theorem Scanned.prio {w : List Nat} (h : Scanned A ts ts' w) (u : Nat) :
    (ts'.thr u).prio = (ts.thr u).prio := by
  by_cases hu : u ∈ w
  · rw [Thread.prio_of_bare (h.woken u hu), entered_prio]
    rfl
  · exact Thread.prio_of_bare (h.others u hu)

theorem bare_timedOut {th th' : Thread} (h : th'.bare = th.bare) :
    (entered .ready (timedOut A th')).bare = (entered .ready (timedOut A th)).bare := by
  unfold Thread.bare at h
  unfold entered timedOut cleared Thread.bare
  injection h
  simp [*]

theorem Scanned.nil (A : Arch) (ts : Threads) : Scanned A ts ts [] :=
  ⟨fun _ hu => absurd hu List.not_mem_nil, fun _ _ => rfl, fun q => by simp⟩

/-- Two scans, one after the other. -/
theorem Scanned.append {ts₁ : Threads} {w w' : List Nat} (h : Scanned A ts ts₁ w)
    (h' : Scanned A ts₁ ts' w') (hdisj : ∀ u ∈ w, u ∉ w') : Scanned A ts ts' (w ++ w') := by
  refine ⟨fun u hu => ?_, fun u hu => ?_, fun q => ?_⟩
  · by_cases hw' : u ∈ w'
    · have hw : u ∉ w := fun hw => hdisj u hw hw'
      rw [h'.woken u hw']
      exact bare_timedOut (h.others u hw)
    · rw [h'.others u hw']
      exact h.woken u ((List.mem_append.mp hu).resolve_right hw')
  · rw [List.mem_append, not_or] at hu
    exact (h'.others u hu.2).trans (h.others u hu.1)
  · have hprio : w'.filter (fun u => q = .ready (ts₁.thr u).prio) =
        w'.filter fun u => q = .ready (ts.thr u).prio :=
      List.filter_congr fun u _ => by rw [h.prio u]
    have hkeep : (w.filter fun u => q = .ready (ts.thr u).prio).filter (· ∉ w') =
        w.filter fun u => q = .ready (ts.thr u).prio :=
      List.filter_eq_self.mpr fun u hu => by
        simpa using hdisj u (List.mem_filter.mp hu).1
    have hboth : ((ts.members q).filter (· ∉ w)).filter (· ∉ w') =
        (ts.members q).filter (· ∉ w ++ w') := by
      rw [List.filter_filter]
      exact List.filter_congr fun u _ => by simp [Bool.and_comm]
    rw [h'.members q, h.members q, List.filter_append, hboth, hkeep, hprio, List.filter_append,
      List.append_assoc]

/-- One round: a waiting thread becomes ready. -/
theorem expire_round (h : Inv ts) (hn : NoHeir ts) (hp : InPool ts)
    (ht : (ts.thr t).state = .sendIpc ∨ (ts.thr t).state = .receiveIpc) :
    ∃ ts', (ts.upd t (timedOut A)).setState A c t .ready = .ok ts' ∧ ts'.dropHeir A c t = .ok ts' ∧
      Inv ts' ∧ NoHeir ts' ∧ InPool ts' ∧ Scanned A ts ts' [t] := by
  have hsame : SameLinks ts (ts.upd t (timedOut A)) := sameLinks_upd rfl rfl rfl
  have h₀ : Inv (ts.upd t (timedOut A)) := h.of_same hsame
  have hn₀ : NoHeir (ts.upd t (timedOut A)) := hn.of_same (sameHeirs_upd rfl rfl)
  have hstate₀ : ∀ u, ((ts.upd t (timedOut A)).thr u).state = (ts.thr u).state := by
    intro u
    by_cases hu : u = t
    · subst hu
      rw [thr_upd_self]
      rfl
    · rw [thr_upd_ne _ hu]
  have hp₀ : InPool (ts.upd t (timedOut A)) := fun u hu => hp u (hstate₀ u ▸ hu)
  have hlt : t < threadsMax := hp t (by rcases ht with ht | ht <;> rw [ht] <;> decide)
  obtain ⟨ts', hok⟩ := setState_isOk (A := A) (c := c) (s := .ready) h₀ hn₀ hp₀ hlt
    (by rw [hstate₀]; rcases ht with ht | ht <;> rw [ht] <;> decide)
  have hn' : NoHeir ts' := setState_noHeir hn₀ hok
  have hself : (ts'.thr t).bare = (entered .ready (timedOut A (ts.thr t))).bare := by
    rw [setState_bare hok t, if_pos rfl, thr_upd_self]
  have hother : ∀ u, u ≠ t → (ts'.thr u).bare = (ts.thr u).bare := by
    intro u hu
    rw [setState_bare hok u, if_neg hu, thr_upd_ne _ hu]
  refine ⟨ts', hok, ?_, setState_inv (h₀.but t) hok, hn', fun u hu => ?_, ?_, ?_, fun q => ?_⟩
  · unfold dropHeir
    rw [if_pos (hn' t).2]
  · by_cases hut : u = t
    · rwa [hut]
    · rw [Thread.state_of_bare (hother u hut)] at hu
      exact hp u hu
  · intro u hu
    obtain rfl := List.mem_singleton.mp hu
    exact hself
  · exact fun u hu => hother u fun he => hu (he ▸ List.mem_singleton_self t)
  · have hmem := setState_members (h₀.but t) hok q
    have hque : (entered .ready ((ts.upd t (timedOut A)).thr t)).que = some (.ready (ts.thr t).prio) := by
      rw [thr_upd_self]
      rfl
    have hfilter : (ts.members q).filter (· ∉ [t]) = (ts.members q).filter (· ≠ t) :=
      List.filter_congr fun u _ => by simp
    rw [hque] at hmem
    change ts'.members q = if _ then _ else (ts.members q).filter (· ≠ t) at hmem
    rw [hmem, hfilter]
    by_cases hq : q = .ready (ts.thr t).prio
    · rw [if_pos (by rw [hq]), List.filter_cons_of_pos (by simpa using hq), hq]
      rfl
    · rw [if_neg fun he => hq (Option.some.inj he).symm, List.filter_cons_of_neg (by simpa using hq),
        List.filter_nil, List.append_nil]

/-- **The scan of a list** makes the threads ready that stand before the first one with a later
timeout, one after the other. -/
theorem expire_scan (now : Nat) : ∀ {l : List Nat} (next : Option Nat) {ts : Threads},
    Inv ts → NoHeir ts → InPool ts → l.Nodup →
    (∀ t ∈ l, (ts.thr t).state = .sendIpc ∨ (ts.thr t).state = .receiveIpc) →
    ∃ next' ts', expire A c now l next ts = .ok (next', ts') ∧ Inv ts' ∧ NoHeir ts' ∧ InPool ts' ∧
      Scanned A ts ts' (l.takeWhile fun t => decide ((ts.thr t).timeout ≤ now)) := by
  intro l
  induction l with
  | nil => exact fun next {ts} h hn hp _ _ => ⟨next, ts, rfl, h, hn, hp, Scanned.nil A ts⟩
  | cons t l ih =>
    intro next ts h hn hp hnodup hstate
    obtain ⟨htl, hnodup⟩ := List.nodup_cons.mp hnodup
    have ht := hstate t List.mem_cons_self
    unfold expire
    rw [ensure_bind_of ht]
    by_cases hlate : now < (ts.thr t).timeout
    · rw [if_pos hlate, List.takeWhile_cons_of_neg (by simpa using hlate)]
      exact ⟨next, ts, rfl, h, hn, hp, Scanned.nil A ts⟩
    · rw [if_neg hlate, List.takeWhile_cons_of_pos (by simpa using hlate)]
      obtain ⟨ts₁, hok, hdrop, h₁, hn₁, hp₁, hscan⟩ := expire_round (A := A) (c := c) h hn hp ht
      -- nothing has happened to the threads that are left
      have hrest : ∀ u ∈ l, (ts₁.thr u).bare = (ts.thr u).bare := fun u hu =>
        hscan.others u fun he => htl (List.mem_singleton.mp he ▸ hu)
      obtain ⟨next', ts', hexp, h', hn', hp', hscan'⟩ := ih (next.or (some t)) h₁ hn₁ hp₁ hnodup
        fun u hu => by
          rw [Thread.state_of_bare (hrest u hu)]
          exact hstate u (List.mem_cons_of_mem t hu)
      have hsame : l.takeWhile (fun t => decide ((ts₁.thr t).timeout ≤ now)) =
          l.takeWhile fun t => decide ((ts.thr t).timeout ≤ now) :=
        takeWhile_congr fun u hu => by rw [Thread.timeout_of_bare (hrest u hu)]
      rw [hsame] at hscan'
      refine ⟨next', ts', ?_, h', hn', hp', hscan.append hscan' fun u hu hm => ?_⟩
      · exact bind_eq_ok.mpr ⟨ts₁, hok, bind_eq_ok.mpr ⟨ts₁, hdrop, hexp⟩⟩
      · obtain rfl := List.mem_singleton.mp hu
        exact htl (List.takeWhile_subset _ hm)

/-- The thread waits, and its timeout has come. -/
def Expired (ts : Threads) (now t : Nat) : Prop :=
  ((ts.thr t).state = .sendIpc ∨ (ts.thr t).state = .receiveIpc) ∧
    (ts.thr t).timeout ≠ noTimeout ∧ (ts.thr t).timeout ≤ now

theorem state_of_timed {th : Thread} (hq : Timed q) (h : th.que = some q) :
    th.state = .sendIpc ∨ th.state = .receiveIpc := by
  unfold Thread.que at h
  split_ifs at h with h1 h2 h3 h4
  · obtain rfl := Option.some.inj h
    rcases hq with hq | hq <;> cases hq
  · exact .inl h2.1
  · obtain rfl := Option.some.inj h
    rcases hq with hq | hq <;> cases hq
  · exact .inr h4.1

theorem Inv.mem_iff (h : Inv ts) : t ∈ ts.members q ↔ (ts.thr t).que = some q := by
  refine ⟨h.que_of_mem, fun hq => ?_⟩
  have hc := h.count_members t q
  rw [if_pos hq] at hc
  exact List.count_pos_iff.mp (by omega)

/-- The threads that expire are those at the front of the two lists. -/
theorem expired_iff {now : Nat} (h : Inv ts) (hs : Sorted ts) :
    t ∈ ts.expiringAll now ↔ ts.Expired now t := by
  have hlist : ∀ q, Timed q → (t ∈ ts.expiring q now ↔
      (ts.thr t).que = some q ∧ (ts.thr t).timeout ≤ now) := by
    intro q hq
    unfold expiring
    rw [NodeList.mem_takeWhile_le (f := fun t => (ts.thr t).timeout) (hs q hq), h.mem_iff]
  have hsnd : (ts.thr t).que = some .sndTimeout ↔
      (ts.thr t).state = .sendIpc ∧ (ts.thr t).timeout ≠ noTimeout := by
    unfold Thread.que
    split_ifs <;> simp_all
  have hrcv : (ts.thr t).que = some .rcvTimeout ↔
      (ts.thr t).state = .receiveIpc ∧ (ts.thr t).timeout ≠ noTimeout := by
    unfold Thread.que
    split_ifs with h1 h2 h3 h4
    · simp [h1]
    · simp [h2.1]
    · rcases h3 with h3 | h3 | h3 <;> simp [h3]
    · simp [h4]
    · simpa using h4
  unfold expiringAll Expired
  rw [List.mem_append, hlist _ (.inl rfl), hlist _ (.inr rfl), hsnd, hrcv]
  tauto

/-- **`check_ipc_timeouts`** scans both lists. -/
theorem checkIpcTimeouts_scan (now : Nat) (h : Inv ts) (hn : NoHeir ts) (hp : InPool ts) :
    ∃ next ts', ts.checkIpcTimeouts A c now = .ok (next, ts') ∧ Inv ts' ∧ NoHeir ts' ∧ InPool ts' ∧
      Scanned A ts ts' (ts.expiringAll now) := by
  obtain ⟨n1, ts₁, h1, hinv₁, hn₁, hp₁, hscan₁⟩ := expire_scan (A := A) (c := c) now none
    h hn hp (h.located.nodup_members .sndTimeout)
    fun t ht => state_of_timed (.inl rfl) (h.que_of_mem ht)
  have hnot : ∀ u ∈ ts.members .rcvTimeout, u ∉ ts.expiring .sndTimeout now := by
    intro u hu hm
    have hq := h.que_of_mem (List.takeWhile_subset _ hm)
    rw [h.que_of_mem hu] at hq
    simp at hq
  change Scanned A ts ts₁ (ts.expiring .sndTimeout now) at hscan₁
  -- the second list is as it was
  have hmem : ts₁.members .rcvTimeout = ts.members .rcvTimeout := by
    rw [hscan₁.members, List.filter_eq_self.mpr fun u hu => by simpa using hnot u hu,
      List.filter_eq_nil_iff.mpr fun u _ => by simp, List.append_nil]
  obtain ⟨n2, ts₂, h2, hinv₂, hn₂, hp₂, hscan₂⟩ := expire_scan (A := A) (c := c) now none
    hinv₁ hn₁ hp₁ (hinv₁.located.nodup_members .rcvTimeout)
    fun t ht => state_of_timed (.inr rfl) (hinv₁.que_of_mem ht)
  have hexp : (ts₁.members .rcvTimeout).takeWhile (fun t => decide ((ts₁.thr t).timeout ≤ now)) =
      ts.expiring .rcvTimeout now := by
    rw [hmem]
    refine takeWhile_congr fun u hu => ?_
    rw [Thread.timeout_of_bare (hscan₁.others u (hnot u hu))]
  rw [hexp] at hscan₂
  have hboth := hscan₁.append hscan₂ fun u hu hm =>
    hnot u (List.takeWhile_subset _ hm) hu
  have hres : ∃ next, ts.checkIpcTimeouts A c now = .ok (next, ts₂) := by
    unfold checkIpcTimeouts
    rw [h1]
    change ∃ next, (expire A c now (ts₁.members .rcvTimeout) none ts₁ >>= _) = .ok (next, ts₂)
    rw [h2]
    cases n1 <;> cases n2 <;> exact ⟨_, rfl⟩
  obtain ⟨next, hres⟩ := hres
  exact ⟨next, ts₂, hres, hinv₂, hn₂, hp₂, hboth⟩

/-! ## Runs -/

/-- The operation is on a thread of the pool. -/
def OfPool : ThreadOp → Prop
  | .state t _ => t < threadsMax
  | .prio t _ => t < threadsMax
  | .saveSnd t _ _ _ _ => t < threadsMax
  | .saveRcv t _ _ _ _ => t < threadsMax
  | .timesliceExpired t => t < threadsMax
  | .write t _ => t < threadsMax
  | .create .. | .checkTimeouts _ | .highest | .remove _ => True

/-- The lists are in order and no priority is passed on, the timeouts are ordered, and only threads of
the pool are in use. -/
structure Timely (ts : Threads) : Prop where
  inv : Inv ts
  noHeir : NoHeir ts
  sorted : Sorted ts
  pool : InPool ts

theorem InPool.setState {s : TState} (h : InPool ts) (ht : t < threadsMax)
    (hok : ts.setState A c t s = .ok ts') : InPool ts' := by
  intro u hu
  by_cases hut : u = t
  · rwa [hut]
  · have hb := setState_bare hok u
    rw [if_neg hut] at hb
    exact h u (Thread.state_of_bare hb ▸ hu)

theorem InPool.of_state (h : InPool ts) (hs : ∀ u, (ts'.thr u).state = (ts.thr u).state) :
    InPool ts' := fun u hu => h u (hs u ▸ hu)

theorem InPool.upd {f : Thread → Thread} (h : InPool ts) (ht : t < threadsMax) :
    InPool (ts.upd t f) := by
  intro u hu
  by_cases hut : u = t
  · rwa [hut]
  · rw [thr_upd_ne _ hut] at hu
    exact h u hu

theorem setPrio_state {v : Nat} (hok : ts.setPrio t v = .ok ts') (u : Nat) :
    (ts'.thr u).state = (ts.thr u).state := by
  unfold setPrio at hok
  split_ifs at hok
  · obtain ⟨ts₁, hdel, hadd⟩ := bind_eq_ok.mp hok
    obtain ⟨i, hi⟩ := addTo_thr hadd
    have hdelthr := delReady_thr hdel
    by_cases hu : u = t
    · subst hu
      rw [hi, setIter_self, thr_upd_self, hdelthr, setIter_self]
    · rw [hi, setIter_ne _ hu, thr_upd_ne _ hu, hdelthr, setIter_ne _ hu]
  · obtain rfl := Except.ok.inj hok
    by_cases hu : u = t
    · subst hu
      rw [thr_upd_self]
    · rw [thr_upd_ne _ hu]

theorem inheritBy_sorted {partner : Option Nat} (h : Sorted ts) (hok : ts.inheritBy t partner = .ok ts') :
    Sorted ts' := by
  cases partner with
  | none => exact Except.ok.inj hok ▸ h
  | some u =>
    have hl := (inheritPrio_same hok).list
    exact h.of_same (fun q _ => by rw [hl]) fun u => Thread.timeout_of_bare (inheritPrio_bare hok u)

/-- How the operations are called: as `do_ipc` does, and on threads of the pool. -/
def CalledInPool (ts : Threads) (e : Nat × ThreadOp) : Prop := CalledInIpc ts e ∧ OfPool e.2

theorem doOp_sorted {e : Nat × ThreadOp} (h : Timely ts) (hcall : CalledInPool ts e)
    (hok : ts.doOp A e = .ok ts') : Sorted ts' ∧ InPool ts' := by
  obtain ⟨c, op⟩ := e
  have hpool : OfPool op := hcall.2
  cases op with
  | create globid schedid pagerid task prio =>
    obtain ⟨⟨ts₁, n⟩, hc, rfl⟩ := map_eq_ok hok
    unfold create at hc
    obtain ⟨hnum, hc⟩ := ensure_bind_eq_ok.mp hc
    obtain ⟨-, hc⟩ := ensure_bind_eq_ok.mp hc
    obtain ⟨ts₂, hprio, hc⟩ := bind_eq_ok.mp hc
    obtain ⟨ts₃, hstate, hc⟩ := bind_eq_ok.mp hc
    obtain ⟨rfl, -⟩ := Prod.mk.inj (Except.ok.inj hc)
    have hlt : Thrid.number A globid - threadNumberMin < threadsMax := by omega
    have hlinks : SameLinks ts (ts.upd (Thrid.number A globid - threadNumberMin) fun th =>
      { th with task := task, globid := globid, schedid := schedid, pagerid := pagerid }) :=
      sameLinks_upd rfl rfl rfl
    have hs₁ : Sorted (ts.upd (Thrid.number A globid - threadNumberMin) fun th =>
      { th with task := task, globid := globid, schedid := schedid, pagerid := pagerid }) :=
      h.sorted.of_same (fun _ _ => rfl) (timeout_upd fun _ => rfl)
    have hinv₂ := setPrio_inv (h.inv.of_same hlinks) hprio
    have hs₂ := setPrio_sorted hs₁ hprio
    exact ⟨setState_sorted (hinv₂.but _) (hs₂.but _) hstate,
      ((h.pool.upd hlt).of_state (setPrio_state hprio)).setState hlt hstate⟩
  | state t s =>
    exact ⟨setState_sorted (h.inv.but t) (h.sorted.but t) hok, h.pool.setState hpool hok⟩
  | prio t v => exact ⟨setPrio_sorted h.sorted hok, h.pool.of_state (setPrio_state hok)⟩
  | saveSnd t timeout toId now partner =>
    obtain ⟨ts₁, hinh, hsave⟩ := bind_eq_ok.mp hok
    obtain ⟨h₁, hst⟩ := inheritBy_inv h.inv hinh
    have hs₁ := inheritBy_sorted h.sorted hinh
    unfold saveSndPhase at hsave
    obtain ⟨-, hsave⟩ := ensure_bind_eq_ok.mp hsave
    refine ⟨setState_sorted ?_ ((hs₁.but t).upd _) hsave,
      ((h.pool.of_state hst).upd hpool).setState hpool hsave⟩
    exact invBut_upd h₁ (fun _ => ⟨rfl, rfl, rfl⟩) ((hst t).trans_ne hcall.1.1)
  | saveRcv t timeout fromSpec now partner =>
    obtain ⟨ts₁, hinh, hsave⟩ := bind_eq_ok.mp hok
    obtain ⟨h₁, hst⟩ := inheritBy_inv h.inv hinh
    have hs₁ := inheritBy_sorted h.sorted hinh
    unfold saveRcvPhase at hsave
    obtain ⟨-, hsave⟩ := ensure_bind_eq_ok.mp hsave
    have hs : (ts₁.thr t).state ≠ .receiveIpc := by
      unfold setState at hsave
      have := (ensure_bind_eq_ok.mp hsave).1
      rwa [thr_upd_self] at this
    refine ⟨setState_sorted ?_ ((hs₁.but t).upd _) hsave,
      ((h.pool.of_state hst).upd hpool).setState hpool hsave⟩
    exact invBut_upd h₁ (fun _ => ⟨rfl, rfl, rfl⟩) hs
  | checkTimeouts now =>
    obtain ⟨⟨next, ts₁⟩, hc, rfl⟩ := map_eq_ok hok
    obtain ⟨next', ts₂, hc', -, -, hp', hscan⟩ :=
      checkIpcTimeouts_scan (A := A) (c := c) now h.inv h.noHeir h.pool
    obtain ⟨-, rfl⟩ := Prod.mk.inj (Except.ok.inj (hc.symm.trans hc'))
    refine ⟨fun q hq => ?_, hp'⟩
    have hmem : ts₁.members q = (ts.members q).filter (· ∉ ts.expiringAll now) := by
      rw [hscan.members, List.filter_eq_nil_iff (l := ts.expiringAll now) |>.mpr ?_, List.append_nil]
      rintro u - hu
      rcases hq with rfl | rfl <;> simp at hu
    rw [hmem]
    refine InOrder.congr ((h.sorted q hq).filter _) fun u hu => ?_
    have hu : u ∉ ts.expiringAll now := by simpa using (List.mem_filter.mp hu).2
    exact Thread.timeout_of_bare (hscan.others u hu)
  | timesliceExpired t =>
    obtain ⟨⟨first, ts₁⟩, hc, rfl⟩ := map_eq_ok hok
    exact ⟨timesliceExpired_sorted h.sorted hc,
      h.pool.of_state fun u => Thread.state_of_bare (timesliceExpired_bare hc u)⟩
  | highest =>
    obtain ⟨⟨t, ts₁⟩, hc, rfl⟩ := map_eq_ok hok
    exact ⟨getHighest_sorted h.sorted hc,
      h.pool.of_state fun u => Thread.state_of_bare (getHighest_bare hc u)⟩
  | remove globid =>
    change ts.remove A c globid = .ok ts' at hok
    unfold remove at hok
    obtain ⟨hnum, hok⟩ := ensure_bind_eq_ok.mp hok
    exact ⟨setState_sorted (h.inv.but _) (h.sorted.but _) hok, h.pool.setState (by omega) hok⟩
  | write t f =>
    obtain rfl := Except.ok.inj hok
    exact ⟨h.sorted.of_same (fun _ _ => rfl) (timeout_upd fun _ => rfl), h.pool.upd hpool⟩

theorem run_timely {es : List (Nat × ThreadOp)} (hcall : Meets (doOp A) CalledInPool (init A) es)
    (hok : runAll (doOp A) (init A) es = .ok ts) : Timely ts := by
  refine runAll_invariant (I := Timely) (fun ts e ts' h hc ho => ?_) ?_ hcall hok
  · obtain ⟨hs, hp⟩ := doOp_sorted h hc ho
    exact ⟨doOp_inv h.inv hc.1.1 ho, doOp_noHeir h.noHeir hc.1 ho, hs, hp⟩
  · exact ⟨inv_init A, fun _ => ⟨rfl, rfl⟩, fun _ _ => List.Pairwise.nil, fun _ h => absurd rfl h⟩

instance (ts : Threads) (now t : Nat) : Decidable (ts.Expired now t) := by
  unfold Expired
  infer_instance

/-- **Timeouts**, after any sequence of operations.  Both lists of waiting threads are ordered by
timeout.  `check_ipc_timeouts` returns, at any time, and makes exactly the threads in `Send_ipc` and
`Receive_ipc` ready whose timeout has come, with a failed tag and the timeout error of their phase; the
others are as they were, and in every list in the order they were in. -/
theorem run_timeouts {es : List (Nat × ThreadOp)} (hcall : Meets (doOp A) CalledInPool (init A) es)
    (hok : runAll (doOp A) (init A) es = .ok ts) :
    (∀ q, Timed q → (ts.members q).Pairwise fun t u => (ts.thr t).timeout ≤ (ts.thr u).timeout) ∧
    ∀ c now, ∃ next ts', ts.checkIpcTimeouts A c now = .ok (next, ts') ∧
      (∀ t, ts.Expired now t → (ts'.thr t).state = .ready ∧
        Tag.ipcIsFailed A ((ts'.thr t).utcb.mr 0) = true ∧
        (ts'.thr t).utcb.error = ipcErr A (if (ts.thr t).state = .sendIpc then 0 else 1) 1 0) ∧
      (∀ t, ¬ ts.Expired now t → (ts'.thr t).bare = (ts.thr t).bare) ∧
      ∀ q, ∃ woken, ts'.members q = (ts.members q).filter (fun t => ¬ ts.Expired now t) ++ woken ∧
        ∀ t ∈ woken, ts.Expired now t := by
  have h := run_timely hcall hok
  refine ⟨h.sorted, fun c now => ?_⟩
  obtain ⟨next, ts', hc, -, -, -, hscan⟩ :=
    checkIpcTimeouts_scan (A := A) (c := c) now h.inv h.noHeir h.pool
  have hexp : ∀ t, t ∈ ts.expiringAll now ↔ ts.Expired now t := fun t => expired_iff h.inv h.sorted
  refine ⟨next, ts', hc, fun t ht => ?_, fun t ht => ?_, fun q => ?_⟩
  · have hb := hscan.woken t ((hexp t).mpr ht)
    have hutcb : (ts'.thr t).utcb = (timedOut A (ts.thr t)).utcb := by
      unfold Thread.bare at hb
      injection hb
    refine ⟨(Thread.state_of_bare hb).trans rfl, ?_, by rw [hutcb]; rfl⟩
    rw [hutcb]
    have htag : (timedOut A (ts.thr t)).utcb.mr 0 = Tag.setError A ((ts.thr t).utcb.mr 0) 1 := by
      simp only [timedOut, Function.update_self]
    rw [htag]
    unfold Tag.ipcIsFailed Tag.setError
    rw [Arch.field_setField]
    rfl
  · exact hscan.others t fun hm => ht ((hexp t).mp hm)
  · have hkeep : (ts.members q).filter (· ∉ ts.expiringAll now) =
        (ts.members q).filter fun t => ¬ ts.Expired now t :=
      List.filter_congr fun t _ => by simp only [hexp]
    rw [hscan.members q, hkeep]
    exact ⟨_, rfl, fun t ht => (hexp t).mp (List.mem_filter.mp ht).1⟩

theorem twoWait_ofPool (low high : Nat) :
    Meets (doOp .sparc) CalledInPool (init .sparc) (Kern.twoWait low high) := by
  refine meets_of_forall fun e he ts => ?_
  simp only [Kern.twoWait, List.mem_cons, List.not_mem_nil, or_false] at he
  rcases he with rfl | rfl | rfl | rfl | rfl | rfl | rfl | rfl | rfl | rfl | rfl <;>
    simp [CalledInPool, CalledInIpc, Called, OfPool, threadsMax]

/-- Of the two threads of `twoWait` the one whose timeout comes first is made ready; the other still
waits, alone. -/
theorem twoWait_expired : ∃ ts ts' next,
    runAll (doOp .sparc) (init .sparc) (Kern.twoWait 0x64 0xc8) = .ok ts ∧
      ts.members .rcvTimeout = [2, 3] ∧
      ts.checkIpcTimeouts .sparc 0 1150 = .ok (next, ts') ∧ (ts'.thr 2).state = .ready ∧
      (ts'.thr 3).state = .receiveIpc := by
  have hrun : (match runAll (doOp .sparc) (init .sparc) (Kern.twoWait 0x64 0xc8) with
      | .ok ts => decide (ts.members .rcvTimeout = [2, 3] ∧ ts.Expired 1150 2 ∧ ¬ ts.Expired 1150 3 ∧
          (ts.thr 3).state = .receiveIpc)
      | .error _ => false) = true := by decide +kernel
  split at hrun
  · rename_i ts hts
    obtain ⟨hmem, h2, h3, hst⟩ := of_decide_eq_true hrun
    obtain ⟨next, ts', hc, hexp, hkeep, -⟩ := (run_timeouts (twoWait_ofPool 0x64 0xc8) hts).2 0 1150
    exact ⟨ts, ts', next, hts, hmem, hc, (hexp 2 h2).1,
      (Thread.state_of_bare (hkeep 3 h3)).trans hst⟩
  · cases hrun

end Threads

end Wrmos
