import Wrmos.ThreadsSpec

/-!
# Time slices, the next thread, and whole runs

`timeslice_expired` moves a thread to the end of its ready list, which is the one operation that puts
a thread into a list before it takes it out.  `get_highest_prio_ready_thread` reads the bits from the
highest priority down; since the bits are those of the non-empty ready lists, it finds a ready thread
of maximal priority (`getHighest_spec`), and it finds one whenever there is one (`getHighest_isOk`).

`ThreadOp` collects the operations of the kernel on threads, and `run_linked` is the result for every
sequence of them.
-/

namespace Wrmos

open Lib

namespace Threads

variable {A : Arch} {ts ts' : Threads} {t u p c : Nat}

theorem que_eq_ready {th : Thread} : th.que = some (.ready p) ↔ th.state = .ready ∧ th.prio = p := by
  unfold Thread.que
  split_ifs with h1 <;> simp [h1]

/-- A ready thread is in the ready list of its priority. -/
theorem Inv.ready_iter (h : Inv ts) (hr : (ts.thr t).state = .ready) :
    ∃ n, (ts.thr t).iter = some (.ready (ts.thr t).prio, n) := by
  have htidy := (h.tidy t).1
  rw [que_eq_ready.mpr ⟨hr, rfl⟩] at htidy
  obtain ⟨⟨q, n⟩, hi, hq⟩ := Option.map_eq_some_iff.mp htidy.symm
  dsimp only at hq
  exact ⟨n, hq ▸ hi⟩

/-- The threads of a ready list are ready, and have its priority. -/
theorem Inv.of_mem_ready (h : Inv ts) (hm : t ∈ ts.members (.ready p)) :
    (ts.thr t).state = .ready ∧ (ts.thr t).prio = p := by
  obtain ⟨⟨n, t'⟩, he, rfl⟩ := List.mem_map.mp hm
  have hq := (h.tidy t').1
  rw [(h.located.node _ n t').mp he, Option.map_some] at hq
  exact que_eq_ready.mp hq

theorem Inv.mem_ready (h : Inv ts) (hr : (ts.thr t).state = .ready) :
    t ∈ ts.members (.ready (ts.thr t).prio) := by
  obtain ⟨n, hn⟩ := h.ready_iter hr
  exact List.mem_map.mpr ⟨(n, t), (h.located.node _ n t).mpr hn, rfl⟩

/-! ## Time slices -/

/-- The threads with a new iterator and a new time slice of thread `t`. -/
theorem inv_rotate {n n' : Nat} {l : NodeList Nat} (h : Inv ts)
    (hn : (ts.thr t).iter = some (.ready p, n))
    (hpush : (ts.list (.ready p)).pushBack t = some (l, n')) :
    Inv ((ts.putList (.ready p) (l.erase n)).upd t fun th =>
      { th with iter := some (.ready p, n') }) := by
  set ts' := (ts.putList (.ready p) (l.erase n)).upd t fun th =>
    { th with iter := some (.ready p, n') }
  have hmem := (h.located.node _ n t).mpr hn
  have hfresh := NodeList.fresh_insertWhere (h.located.wf _) hpush
  have hnn : n ≠ n' := by
    rintro rfl
    exact hfresh (List.mem_map.mpr ⟨_, hmem, rfl⟩)
  have hwf := NodeList.wf_insertWhere (h.located.wf _) hpush
  have hnode : n ∈ l.nodes :=
    List.mem_map.mpr ⟨_, (NodeList.mem_insertWhere hpush).mpr (.inl hmem), rfl⟩
  have hlist : ts'.list (.ready p) = l.erase n := by
    rw [list_upd, list_putList_self]
  have hother : ∀ q, q ≠ .ready p → ts'.list q = ts.list q := fun q hq => by
    rw [list_upd, list_putList_ne _ hq]
  have hnew : (n', t) ∈ (ts'.list (.ready p)).busy := by
    rw [hlist]
    exact NodeList.mem_erase.mpr ⟨(NodeList.mem_insertWhere hpush).mpr (.inr ⟨rfl, rfl⟩), hnn.symm⟩
  refine ⟨⟨fun q => ?_, fun q => ?_, fun q m u => ?_⟩, ⟨fun r => ?_, h.marked.word⟩, fun u => ?_⟩
  · by_cases hq : q = .ready p
    · rw [hq, hlist]
      exact NodeList.wf_erase hwf hnode
    · rw [hother q hq]
      exact h.located.wf q
  · by_cases hq : q = .ready p
    · rw [hq, hlist, (NodeList.length_erase hwf hnode).2, (NodeList.length_insertWhere hpush).2]
      exact h.located.room _
    · rw [hother q hq]
      exact h.located.room q
  · by_cases hq : q = .ready p
    · rw [hq, hlist, NodeList.mem_erase, NodeList.mem_insertWhere hpush, h.located.node]
      by_cases hu : u = t
      · subst hu
        rw [thr_upd_self, hn]
        simp only [Option.some.injEq, Prod.mk.injEq, true_and, and_true]
        omega
      · rw [thr_upd_ne _ hu, thr_putList]
        refine ⟨fun hm => hm.1.resolve_right fun he => hu he.2, fun hm => ⟨.inl hm, ?_⟩⟩
        rintro rfl
        exact hu (NodeList.elem_unique (h.located.wf _) ((h.located.node _ m u).mpr hm) hmem)
    · rw [hother q hq, h.located.node]
      by_cases hu : u = t
      · subst hu
        rw [thr_upd_self, hn]
        have hne : ¬ Que.ready p = q := fun h => hq h.symm
        simp [hne]
      · rw [thr_upd_ne _ hu, thr_putList]
  · have hb : ts'.bitOf r = ts.bitOf r := rfl
    rw [hb, h.marked.bit r]
    by_cases hr : r = p
    · subst hr
      exact iff_of_true (List.ne_nil_of_mem hmem) (List.ne_nil_of_mem hnew)
    · rw [hother _ (by simpa using hr)]
  · by_cases hu : u = t
    · subst hu
      rw [thr_upd_self]
      have htidy := h.tidy u
      unfold Tidy at htidy
      rw [hn] at htidy
      exact htidy
    · rw [thr_upd_ne _ hu]
      exact h.tidy u

/-- `timeslice_expired` on the thread's own list keeps the invariant, the states and the
priorities. -/
theorem timesliceExpired_spec {que first : Option Nat} (h : Inv ts)
    (hque : que.getD (ts.thr t).prio = (ts.thr t).prio)
    (hok : ts.timesliceExpired t que = .ok (first, ts')) :
    Inv ts' ∧ first = (ts'.members (.ready (ts.thr t).prio)).head? ∧
      ∀ u, (ts'.thr u).state = (ts.thr u).state ∧ (ts'.thr u).prio = (ts.thr u).prio ∧
        (ts'.thr u).inherited = (ts.thr u).inherited := by
  unfold timesliceExpired at hok
  obtain ⟨-, hok⟩ := ensure_bind_eq_ok.mp hok
  obtain ⟨hr, hok⟩ := ensure_bind_eq_ok.mp hok
  rw [hque] at hok
  set ts₁ := ts.upd t fun th => { th with timeslice := timesliceUsec }
  have h₁ : Inv ts₁ := h.of_same (sameLinks_upd rfl rfl rfl)
  have hsame : ∀ u, (ts₁.thr u).state = (ts.thr u).state ∧ (ts₁.thr u).prio = (ts.thr u).prio ∧
      (ts₁.thr u).inherited = (ts.thr u).inherited := by
    intro u
    by_cases hu : u = t
    · subst hu
      rw [thr_upd_self]
      exact ⟨rfl, rfl, rfl⟩
    · rw [thr_upd_ne _ hu]
      exact ⟨rfl, rfl, rfl⟩
  dsimp only at hok
  split_ifs at hok with hlen
  · split at hok
    · rename_i q n v hi hderef
      -- the node of the iterator holds the thread itself
      obtain ⟨n₁, hn₁⟩ := h₁.ready_iter ((hsame t).1.trans hr)
      rw [(hsame t).2.1] at hn₁
      rw [hn₁] at hi
      obtain ⟨rfl, rfl⟩ := Prod.mk.inj (Option.some.inj hi)
      have hv : v = t := by
        rw [hn₁] at hderef
        exact NodeList.elem_unique (h₁.located.wf _)
          ((NodeList.get?_eq_some (h₁.located.wf _)).mp hderef) ((h₁.located.node _ _ t).mpr hn₁)
      subst hv
      split at hok
      · cases hok
      · rename_i l n' hpush
        obtain ⟨rfl, rfl⟩ := Prod.mk.inj (Except.ok.inj hok)
        refine ⟨inv_rotate h₁ hn₁ hpush, rfl, fun u => ?_⟩
        by_cases hu : u = v
        · subst hu
          rw [thr_upd_self, thr_putList]
          exact hsame u
        · rw [thr_upd_ne _ hu, thr_putList]
          exact hsame u
    · cases hok
  · obtain ⟨rfl, rfl⟩ := Prod.mk.inj (Except.ok.inj hok)
    exact ⟨h₁, rfl, hsame⟩

theorem topBit_eq_some {w j : Nat} : ∀ {n : Nat}, topBit w n = some j →
    j < n ∧ w.testBit j = true ∧ ∀ k < n, w.testBit k = true → k ≤ j := by
  intro n
  induction n with
  | zero => intro h; cases h
  | succ n ih =>
    intro h
    unfold topBit at h
    split_ifs at h with hb
    · obtain rfl := Option.some.inj h
      exact ⟨Nat.lt_succ_self _, hb, fun k hk _ => Nat.le_of_lt_succ hk⟩
    · obtain ⟨h1, h2, h3⟩ := ih h
      refine ⟨Nat.lt_succ_of_lt h1, h2, fun k hk hkb => ?_⟩
      rcases Nat.lt_succ_iff_lt_or_eq.mp hk with hk | rfl
      · exact h3 k hk hkb
      · exact absurd hkb hb

theorem topBit_eq_none {w : Nat} : ∀ {n : Nat}, topBit w n = none → ∀ k < n, w.testBit k = false := by
  intro n
  induction n with
  | zero => intro _ k hk; cases hk
  | succ n ih =>
    intro h k hk
    unfold topBit at h
    split_ifs at h with hb
    rcases Nat.lt_succ_iff_lt_or_eq.mp hk with hk | rfl
    · exact ih h k hk
    · simpa using hb

/-- The two loops find the highest bit of the words. -/
theorem topPrio_eq_some {bits : Nat → Nat} : ∀ {n : Nat}, topPrio bits n = some p →
    (bits (p / 32)).testBit (p % 32) = true ∧
      ∀ r, r < 32 * n → (bits (r / 32)).testBit (r % 32) = true → r ≤ p := by
  intro n
  induction n with
  | zero => intro h; cases h
  | succ n ih =>
    intro h
    unfold topPrio at h
    -- a bit above the words below is a bit of this word
    have hlow : ∀ (hrest : topPrio bits n = some p) (hnone : ∀ k < 32, (bits n).testBit k = false),
        (bits (p / 32)).testBit (p % 32) = true ∧
          ∀ r, r < 32 * (n + 1) → (bits (r / 32)).testBit (r % 32) = true → r ≤ p := by
      intro hrest hnone
      obtain ⟨h1, h2⟩ := ih hrest
      refine ⟨h1, fun r hr hb => ?_⟩
      by_cases hrn : r / 32 = n
      · rw [hrn, hnone _ (Nat.mod_lt _ (by decide))] at hb
        cases hb
      · exact h2 r (by omega) hb
    split_ifs at h with h0
    · split at h
      · rename_i j hj
        obtain ⟨h1, h2, h3⟩ := topBit_eq_some hj
        obtain rfl := Option.some.inj h
        have hd : (32 * n + j) / 32 = n := by omega
        have hmod : (32 * n + j) % 32 = j := by omega
        refine ⟨by rw [hd, hmod]; exact h2, fun r hr hb => ?_⟩
        by_cases hrn : r / 32 = n
        · have := h3 (r % 32) (Nat.mod_lt _ (by decide)) (hrn ▸ hb)
          omega
        · omega
      · rename_i hj
        exact hlow h (topBit_eq_none hj)
    · refine hlow h fun k _ => ?_
      rw [not_not.mp h0, Nat.zero_testBit]

/-- The first thread of the ready list of the highest bit is ready and of maximal priority. -/
theorem Inv.top_ready (h : Inv ts) (hp : topPrio ts.readyBits 8 = some p) (hr : (ts.thr u).state = .ready) :
    (ts.thr u).prio ≤ p := by
  refine (topPrio_eq_some hp).2 _ (h.tidy u).2 ?_
  exact (h.marked.bit _).mpr (List.ne_nil_of_mem (List.mem_map.mp (h.mem_ready hr)).choose_spec.1)

/-- **`get_highest_prio_ready_thread` returns a ready thread of maximal priority**, and keeps the
invariant, the states and the priorities. -/
theorem getHighest_spec (h : Inv ts) (hok : ts.getHighestPrioReadyThread = .ok (t, ts')) :
    Inv ts' ∧ (ts.thr t).state = .ready ∧ (∀ u, (ts.thr u).state = .ready →
        (ts.thr u).prio ≤ (ts.thr t).prio) ∧
      ∀ u, (ts'.thr u).state = (ts.thr u).state ∧ (ts'.thr u).prio = (ts.thr u).prio ∧
        (ts'.thr u).inherited = (ts.thr u).inherited := by
  unfold getHighestPrioReadyThread at hok
  split at hok
  · cases hok
  · rename_i p hp
    split at hok
    · cases hok
    · rename_i v hv
      obtain ⟨hvr, hvp⟩ := h.of_mem_ready (List.mem_of_mem_head? hv)
      split_ifs at hok with h0
      · obtain ⟨⟨first, ts₁⟩, hexp, hok⟩ := bind_eq_ok.mp hok
        obtain ⟨h₁, hfirst, hsame⟩ := timesliceExpired_spec h (by simp [hvp]) hexp
        dsimp only at hok
        split at hok
        · cases hok
        · rename_i w
          obtain ⟨rfl, rfl⟩ := Prod.mk.inj (Except.ok.inj hok)
          obtain ⟨hwr, hwp⟩ := h₁.of_mem_ready (List.mem_of_mem_head? hfirst.symm)
          rw [(hsame w).1] at hwr
          rw [(hsame w).2.1, hvp] at hwp
          exact ⟨h₁, hwr, fun u hu => hwp ▸ h.top_ready hp hu, hsame⟩
      · obtain ⟨rfl, rfl⟩ := Prod.mk.inj (Except.ok.inj hok)
        exact ⟨h, hvr, fun u hu => hvp ▸ h.top_ready hp hu, fun u => ⟨rfl, rfl, rfl⟩⟩

/-- The operations on threads.  `write` stands for a change of the fields that no list depends on. -/
inductive ThreadOp where
  | create (globid schedid pagerid task prio : Nat)
  | state (t : Nat) (s : TState)
  | prio (t v : Nat)
  | saveSnd (t timeout toId now : Nat) (partner : Option Nat)
  | saveRcv (t timeout fromSpec now : Nat) (partner : Option Nat)
  | checkTimeouts (now : Nat)
  | timesliceExpired (t : Nat)
  | highest
  | remove (globid : Nat)
  | write (t : Nat) (f : Thread → Thread)

/-- The thread with other fields, but the same state, timeout, priorities and iterator. -/
def rest (f : Thread → Thread) (th : Thread) : Thread :=
  { f th with
    state := th.state
    timeout := th.timeout
    prio := th.prio
    inherited := th.inherited
    prioHeir := th.prioHeir
    iter := th.iter }

/-- The partner of a thread that is about to wait inherits its priority. -/
def inheritBy (ts : Threads) (t : Nat) : Option Nat → Except Stop Threads
  | none => .ok ts
  | some u => ts.inheritPrio t u

/-- Carry out an operation; the task of the running thread comes with it. -/
def doOp (A : Arch) (ts : Threads) : Nat × ThreadOp → Except Stop Threads
  | (c, .create globid schedid pagerid task prio) =>
    (ts.create A c globid schedid pagerid task prio).map Prod.fst
  | (c, .state t s) => ts.setState A c t s
  | (_, .prio t v) => ts.setPrio t v
  | (c, .saveSnd t timeout toId now partner) =>
    ts.inheritBy t partner >>= fun ts => ts.saveSndPhase A c t timeout toId now
  | (c, .saveRcv t timeout fromSpec now partner) =>
    ts.inheritBy t partner >>= fun ts => ts.saveRcvPhase A c t timeout fromSpec now
  | (c, .checkTimeouts now) => (ts.checkIpcTimeouts A c now).map Prod.snd
  | (_, .timesliceExpired t) => (ts.timesliceExpired t none).map Prod.snd
  | (_, .highest) => ts.getHighestPrioReadyThread.map Prod.snd
  | (c, .remove globid) => ts.remove A c globid
  | (_, .write t f) => .ok (ts.upd t (rest f))

/-- How the operations are called: `save_snd_phase` is called by the running thread, which does not wait
in `Receive_ipc`. -/
def Called (ts : Threads) : Nat × ThreadOp → Prop
  | (_, .saveSnd t _ _ _ _) => (ts.thr t).state ≠ .receiveIpc
  | _ => True

theorem inheritBy_inv {partner : Option Nat} (h : Inv ts) (hok : ts.inheritBy t partner = .ok ts') :
    Inv ts' ∧ ∀ u, (ts'.thr u).state = (ts.thr u).state := by
  cases partner with
  | none =>
    obtain rfl := Except.ok.inj hok
    exact ⟨h, fun _ => rfl⟩
  | some u => exact ⟨h.of_same (inheritPrio_same hok), inheritPrio_state hok⟩

/-- One operation keeps the invariant. -/
theorem doOp_inv {e : Nat × ThreadOp} (h : Inv ts) (hcall : Called ts e)
    (hok : ts.doOp A e = .ok ts') : Inv ts' := by
  obtain ⟨c, op⟩ := e
  cases op with
  | create globid schedid pagerid task prio =>
    obtain ⟨⟨ts₁, n⟩, hc, rfl⟩ := map_eq_ok hok
    exact create_inv h hc
  | state t s => exact setState_inv (h.but t) hok
  | prio t v => exact setPrio_inv h hok
  | saveSnd t timeout toId now partner =>
    obtain ⟨ts₁, hinh, hsave⟩ := bind_eq_ok.mp hok
    obtain ⟨h₁, hst⟩ := inheritBy_inv h hinh
    exact saveSndPhase_inv h₁ ((hst t).trans_ne hcall) hsave
  | saveRcv t timeout fromSpec now partner =>
    obtain ⟨ts₁, hinh, hsave⟩ := bind_eq_ok.mp hok
    exact saveRcvPhase_inv (inheritBy_inv h hinh).1 hsave
  | checkTimeouts now =>
    obtain ⟨⟨next, ts₁⟩, hc, rfl⟩ := map_eq_ok hok
    exact checkIpcTimeouts_inv h hc
  | timesliceExpired t =>
    obtain ⟨⟨first, ts₁⟩, hc, rfl⟩ := map_eq_ok hok
    exact (timesliceExpired_spec h rfl hc).1
  | highest =>
    obtain ⟨⟨t, ts₁⟩, hc, rfl⟩ := map_eq_ok hok
    exact (getHighest_spec h hc).1
  | remove globid => exact remove_inv h hok
  | write t f =>
    obtain rfl := Except.ok.inj hok
    exact h.of_same (sameLinks_upd rfl rfl rfl)

theorem inv_init (A : Arch) : Inv (init A) := by
  refine ⟨⟨fun _ => NodeList.wf_init, fun _ => ?_, fun q n t => ?_⟩, ⟨fun p => ?_, fun _ => ?_⟩,
    fun t => ⟨rfl, Nat.zero_lt_succ 255⟩⟩
  · simp [init, NodeList.init]
  · simp [init, NodeList.init, Thread.fresh]
  · simp [init, NodeList.init, bitOf]
  · simp [init]

/-- Every sequence of operations keeps the invariant. -/
theorem run_inv {es : List (Nat × ThreadOp)} (hcall : Meets (doOp A) Called (init A) es)
    (hok : runAll (doOp A) (init A) es = .ok ts) : Inv ts :=
  runAll_invariant (fun _ _ _ h hc ho => doOp_inv h hc ho) (inv_init A) hcall hok

/-- No list holds a thread twice. -/
theorem Located.nodup_members (h : Located ts) (q : Que) : (ts.members q).Nodup := by
  have hbusy : (ts.list q).busy.Nodup :=
    (List.nodup_append.mp (h.wf q)).1.of_map
  refine hbusy.map_on ?_
  rintro ⟨n, t⟩ hn ⟨n', t'⟩ hn' rfl
  have h1 := (h.node q n t).mp hn
  have h2 := (h.node q n' t).mp hn'
  rw [h1] at h2
  simpa using h2

/-- A thread stands once in the list its fields dictate, and in no other. -/
theorem Inv.count_members (h : Inv ts) (t : Nat) (q : Que) :
    (ts.members q).count t = if (ts.thr t).que = some q then 1 else 0 := by
  have hmem : t ∈ ts.members q ↔ (ts.thr t).que = some q := by
    rw [(h.tidy t).1]
    constructor
    · intro hm
      obtain ⟨⟨n, t'⟩, he, rfl⟩ := List.mem_map.mp hm
      rw [(h.located.node q n t').mp he, Option.map_some]
    · intro hq
      obtain ⟨⟨q', n⟩, hi, rfl⟩ := Option.map_eq_some_iff.mp hq
      exact List.mem_map.mpr ⟨(n, t), (h.located.node q' n t).mpr hi, rfl⟩
  split_ifs with hq
  · exact List.count_eq_one_of_mem (h.located.nodup_members q) (hmem.mpr hq)
  · exact List.count_eq_zero_of_not_mem fun hm => hq (hmem.mp hm)

end Threads

end Wrmos
