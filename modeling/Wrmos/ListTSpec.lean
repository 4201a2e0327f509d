import Wrmos.ListT
import Wrmos.Lib.NodeList
import Mathlib.Data.List.TakeWhile
import Mathlib.Data.List.Find

/-!
# What the operations of the list container do to its chains

`Xlist.Holds` says that a chain consists of the items of a list, read either way.  `remove` and `add` are
described on one chain first: what they write is a `Cut` or a `Put` of the library, the checks find nothing
before and after, and adding before an item is adding behind it read from the other end.

`Rep` then says that a state holds an abstract list: its nodes in the busy chain, its free nodes in the free
chain, no node in both.  What is written to one chain leaves the other alone, so each call of the container
is followed on the abstract list.
-/

namespace Wrmos
namespace ListT

open Lib

variable {m m' : Links} {c c' : Xlist} {a b l l' : List Nat} {pos item n : Nat} {debug : Bool}

/-! ## One chain -/

namespace Xlist

/-- The chain consists of the items of `l` in order. -/
structure Holds (m : Links) (c : Xlist) (l : List Nat) : Prop where
  seg : Seg m 0 l 0
  begin : c.begin = l.headD 0
  last : c.last = l.getLastD 0
  sz : c.sz = l.length
  nodup : l.Nodup
  nonzero : 0 ∉ l

/-- The chain read from its other end. -/
def mirror (c : Xlist) : Xlist := ⟨c.last, c.begin, c.sz⟩

theorem holds_empty : Xlist.empty.Holds m [] := ⟨trivial, rfl, rfl, rfl, List.nodup_nil, List.not_mem_nil⟩

namespace Holds

theorem mirror (h : c.Holds m l) : c.mirror.Holds m.swap l.reverse where
  seg := h.seg.reverse
  begin := by
    rw [List.headD_eq_head?_getD, List.head?_reverse, ← List.getLastD_eq_getLast?]
    exact h.last
  last := by
    rw [List.getLastD_eq_getLast?, List.getLast?_reverse, ← List.headD_eq_head?_getD]
    exact h.begin
  sz := by
    rw [List.length_reverse]
    exact h.sz
  nodup := List.nodup_reverse.mpr h.nodup
  nonzero := fun h0 => h.nonzero (List.mem_reverse.mp h0)

/-- Other links do not matter. -/
theorem congr (h : c.Holds m l) (hseg : Seg m' 0 l 0) : c.Holds m' l :=
  ⟨hseg, h.begin, h.last, h.sz, h.nodup, h.nonzero⟩

theorem sz_eq_zero (h : c.Holds m l) : c.sz = 0 ↔ l = [] := by
  rw [h.sz, List.length_eq_zero_iff]

theorem follow_next (h : c.Holds m l) (hn : c.sz ≤ n) : Links.follow m.next n c.begin = l := by
  rw [h.begin]
  exact h.seg.follow_next h.nonzero (h.sz ▸ hn)

theorem follow_prev (h : c.Holds m l) (hn : c.sz ≤ n) : Links.follow m.prev n c.last = l.reverse := by
  rw [h.last]
  exact h.seg.follow_prev h.nonzero (h.sz ▸ hn)

/-- Walking the chain one way passes the checks. -/
theorem checkWay {step : Nat → Nat} {first final : Nat} {text : String}
    (hwalk : Links.follow step (c.sz + 1) first = l) (hfinal : final = l.getLastD 0)
    (hsz : c.sz = l.length) (hpos : pos ∈ l ∨ l = [] ∧ pos = 0) :
    c.checkWay step first final pos text = .ok () := by
  unfold Xlist.checkWay
  rw [hwalk]
  rw [ensure_bind_of hfinal, ensure_bind_of hsz, ensure_eq_ok]
  rw [hsz, List.length_eq_zero_iff]
  exact hpos

/-- `check` finds nothing. -/
theorem check (h : c.Holds m l) (hpos : pos ∈ l ∨ l = [] ∧ pos = 0) :
    c.check debug m pos = .ok () := by
  unfold Xlist.check
  split
  · have hback : pos ∈ l.reverse ∨ l.reverse = [] ∧ pos = 0 := by
      rw [List.mem_reverse, List.reverse_eq_nil_iff]
      exact hpos
    have hends : (c.sz ≠ 0 ∨ c.begin = 0 ∧ c.last = 0) ∧ (c.sz ≤ 1 ∨ c.begin ≠ c.last) ∧
        (1 < c.sz ∨ c.begin = c.last) := by
      rw [h.sz, h.begin, h.last]
      match l, h.nodup with
      | [], _ => simp
      | [x], _ => simp
      | x :: y :: l, hnd =>
        refine ⟨.inl (Nat.succ_ne_zero _), .inr ?_, .inl ?_⟩
        · show x ≠ (y :: l).getLastD x
          intro heq
          have hmem : (y :: l).getLastD x ∈ y :: l := by
            rw [List.getLastD_cons]
            exact List.getLastD_mem_cons ..
          exact (List.nodup_cons.mp hnd).1 (heq ▸ hmem)
        · show 1 < l.length + 1 + 1
          omega
    obtain ⟨h1, h2, h3⟩ := hends
    unfold Xlist.doCheck
    rw [ensure_bind_of h1, ensure_bind_of h2, ensure_bind_of h3,
      checkWay (h.follow_next (Nat.le_succ _)) h.last h.sz hpos]
    refine checkWay (l := l.reverse) (h.follow_prev (Nat.le_succ _)) h.mirror.last h.mirror.sz hback
  · rfl

/-- The first and the last item are positions of the chain. -/
theorem begin_pos (h : c.Holds m l) : c.begin ∈ l ∨ l = [] ∧ c.begin = 0 := by
  rw [h.begin]
  rcases headD_mem_or l 0 with hmem | rfl
  · exact .inl hmem
  · exact .inr ⟨rfl, rfl⟩

theorem last_pos (h : c.Holds m l) : c.last ∈ l ∨ l = [] ∧ c.last = 0 := by
  rw [h.last]
  rcases getLastD_mem_or l 0 with hmem | rfl
  · exact .inl hmem
  · exact .inr ⟨rfl, rfl⟩

/-- What `remove` writes takes the item out of the chain. -/
theorem unlink (h : c.Holds m (a ++ n :: b)) :
    Cut m (c.unlink m n).1 a b ∧ (c.unlink m n).2.Holds (c.unlink m n).1 (a ++ b) := by
  obtain ⟨hprev, hnext⟩ := h.seg.neighbours
  obtain ⟨ha, hnb, hab⟩ := List.nodup_append.mp h.nodup
  obtain ⟨hn, hb⟩ := List.nodup_cons.mp hnb
  have hna : n ∉ a := fun h => hab n h n List.mem_cons_self rfl
  have h0a : 0 ∉ a := fun h0 => h.nonzero (List.mem_append_left _ h0)
  have h0b : 0 ∉ b := fun h0 => h.nonzero (List.mem_append_right _ (List.mem_cons_of_mem n h0))
  have hnhead : ¬ (b.headD 0 ≠ 0 ∧ n = b.headD 0) := fun h =>
    hn (List.mem_of_head? ((head?_eq_some_iff h0b).mpr h))
  -- the back link of the item is read again after the first write, which did not touch it
  have hprev₁ : ∀ x, (c.unlink m n).1.prev x =
      if b.head? = some x then a.getLastD 0 else m.prev x := by
    intro x
    simp only [Xlist.unlink, Links.prev_setNext_ite, Links.prev_setPrev_ite, hnext, hprev,
      head?_eq_some_iff h0b]
  have hnext₁ : ∀ x, (c.unlink m n).1.next x =
      if a.getLast? = some x then b.headD 0 else m.next x := by
    intro x
    simp only [Xlist.unlink, Links.next_setNext_ite, Links.prev_setPrev_ite, Links.next_setPrev_ite,
      hnext, hprev, if_neg hnhead, getLast?_eq_some_iff h0a]
  have hcut : Cut m (c.unlink m n).1 a b := {
    last := fun x hx => (hnext₁ x).trans (if_pos hx)
    head := fun x hx => (hprev₁ x).trans (if_pos hx)
    prev_eq := fun x hx => (hprev₁ x).trans (if_neg hx)
    next_eq := fun x hx => (hnext₁ x).trans (if_neg hx) }
  have hnextn : (c.unlink m n).1.next n = b.headD 0 :=
    (hcut.next_eq n (getLast?_ne hna)).trans hnext
  have hprevn : (c.unlink m n).1.prev n = a.getLastD 0 :=
    (hcut.prev_eq n (head?_ne hn)).trans hprev
  refine ⟨hcut, hcut.seg h.seg h.nodup, ?_, ?_, ?_, ?_, ?_⟩
  · show (if n = c.begin then (c.unlink m n).1.next n else c.begin) = (a ++ b).headD 0
    rw [h.begin, hnextn, headD_append, headD_append]
    cases a with
    | nil => exact if_pos rfl
    | cons x a =>
      refine if_neg fun hnx => hna ?_
      rw [hnx]
      exact List.mem_cons_self
  · show (if n = c.last then (c.unlink m n).1.prev n else c.last) = (a ++ b).getLastD 0
    rw [h.last, hprevn, getLastD_append, getLastD_append, List.getLastD_cons]
    cases b with
    | nil => exact if_pos rfl
    | cons x b =>
      rw [List.getLastD_cons, List.getLastD_cons]
      refine if_neg fun hnx => hn ?_
      rw [hnx]
      exact List.getLastD_mem_cons
  · show c.sz - 1 = _
    rw [h.sz, List.length_append, List.length_append]
    rfl
  · exact h.nodup.sublist (List.Sublist.append_left (List.sublist_cons_self n b) a)
  · exact fun h0 => (List.mem_append.mp h0).elim h0a h0b

variable (debug) in
/-- `remove` of an item of the chain. -/
theorem remove (h : c.Holds m (a ++ n :: b)) :
    ∃ m' c', c.remove debug m n = .ok (m', c') ∧ Cut m m' a b ∧ c'.Holds m' (a ++ b) := by
  obtain ⟨hcut, hrest⟩ := h.unlink
  have hsz : c.sz ≠ 0 := by
    rw [Ne, h.sz_eq_zero]
    exact List.append_ne_nil_of_right_ne_nil a (List.cons_ne_nil n b)
  refine ⟨(c.unlink m n).1, (c.unlink m n).2, ?_, hcut, hrest⟩
  unfold Xlist.remove
  rw [ensure_bind_of hsz, h.check h.begin_pos]
  show ((c.unlink m n).2.check debug (c.unlink m n).1 (c.unlink m n).2.last >>= fun _ => _) = _
  rw [hrest.check hrest.last_pos]
  rfl

end Holds

/-- The place between `a` and `b`, as `add` is told it. -/
def At (a b : List Nat) (pos : Nat) : Where → Prop
  | .next => pos = a.getLastD 0 ∧ (a = [] → b = [])
  | .prev => pos = b.headD 0 ∧ (b = [] → a = [])

theorem At.mem {w : Where} (hat : At a b pos w) : pos ∈ a ++ b ∨ a ++ b = [] ∧ pos = 0 := by
  cases w with
  | next =>
    obtain ⟨rfl, hnil⟩ := hat
    rcases getLastD_mem_or a 0 with hmem | rfl
    · exact .inl (List.mem_append_left b hmem)
    · exact .inr ⟨hnil rfl, rfl⟩
  | prev =>
    obtain ⟨rfl, hnil⟩ := hat
    rcases headD_mem_or b 0 with hmem | rfl
    · exact .inl (List.mem_append_right a hmem)
    · rw [hnil rfl]
      exact .inr ⟨rfl, rfl⟩

variable (pos) in
/-- Read from the other end, adding before is adding behind. -/
theorem link_mirror : (c.mirror.link m.swap pos .next n).1 = (c.link m pos .prev n).1.swap ∧
    (c.mirror.link m.swap pos .next n).2 = (c.link m pos .prev n).2.mirror := by
  unfold Xlist.link
  by_cases hsz : c.sz = 0
  · rw [if_pos hsz, if_pos (show c.mirror.sz = 0 from hsz)]
    exact ⟨rfl, rfl⟩
  · rw [if_neg hsz, if_neg (show ¬ c.mirror.sz = 0 from hsz)]
    by_cases hprev : m.prev pos = 0
    · simp only [Links.swap, hprev, ne_eq, not_true, if_false]
      exact ⟨rfl, rfl⟩
    · simp only [Links.swap, hprev, ne_eq, not_false_eq_true, if_true]
      exact ⟨rfl, rfl⟩

namespace Holds

/-- What `add` writes when the chain is empty. -/
theorem link_nil {w : Where} (h : c.Holds m []) (hn : n ≠ 0) :
    Put m (c.link m pos w n).1 [] n [] ∧ (c.link m pos w n).2.Holds (c.link m pos w n).1 [n] := by
  have hsz : c.sz = 0 := h.sz
  have hlink : c.link m pos w n = ((m.setPrev n 0).setNext n 0, ⟨n, n, c.sz + 1⟩) := if_pos hsz
  have hput : Put m ((m.setPrev n 0).setNext n 0) [] n [] := {
    prev_new := by simp [Links.prev_setPrev]
    next_new := by simp [Links.next_setNext]
    last := nofun
    head := nofun
    prev_eq := fun x hx _ => by simp [Links.prev_setPrev, hx]
    next_eq := fun x hx _ => by simp [Links.next_setNext, hx] }
  rw [hlink]
  refine ⟨hput, hput.seg h.seg h.nodup List.not_mem_nil, rfl, rfl, ?_, List.nodup_singleton n, ?_⟩
  · show c.sz + 1 = 1
    rw [hsz]
  · exact fun h0 => hn (List.mem_singleton.mp h0).symm

/-- What `add` writes behind an item. -/
theorem link_next (h : c.Holds m (a ++ item :: b)) (hn : n ∉ a ++ item :: b) (hn0 : n ≠ 0) :
    Put m (c.link m item .next n).1 (a ++ [item]) n b ∧
      (c.link m item .next n).2.Holds (c.link m item .next n).1 (a ++ item :: n :: b) := by
  obtain ⟨-, hnext⟩ := h.seg.neighbours
  have hsz : c.sz ≠ 0 := by
    rw [Ne, h.sz_eq_zero]
    exact List.append_ne_nil_of_right_ne_nil a (List.cons_ne_nil item b)
  have hitem : n ≠ item := fun heq => hn (heq ▸ List.mem_append_right a List.mem_cons_self)
  have hnb : n ∉ b := fun hb => hn (List.mem_append_right a (List.mem_cons_of_mem item hb))
  have h0b : 0 ∉ b := fun h0 => h.nonzero (List.mem_append_right _ (List.mem_cons_of_mem item h0))
  have hlink : c.link m item .next n = ((((if m.next item ≠ 0 then m.setPrev (m.next item) n else
      m).setNext n (m.next item)).setNext item n).setPrev n item,
      ⟨c.begin, if item = c.last then n else c.last, c.sz + 1⟩) := by
    unfold Xlist.link
    rw [if_neg hsz]
    simp only [Links.next_setPrev_ite]
  set m' := (c.link m item .next n).1
  have hprev₁ : ∀ x, m'.prev x =
      if x = n then item else if b.head? = some x then n else m.prev x := by
    intro x
    simp only [m', hlink, Links.prev_setPrev, Links.prev_setNext, Links.prev_setPrev_ite, hnext,
      head?_eq_some_iff h0b]
  have hnext₁ : ∀ x, m'.next x =
      if x = item then n else if x = n then b.headD 0 else m.next x := by
    intro x
    simp only [m', hlink, Links.next_setNext, Links.next_setPrev, Links.next_setPrev_ite, hnext]
  have hlast : ∀ x, (a ++ [item]).getLast? = some x ↔ x = item := fun x => by
    rw [List.getLast?_concat, Option.some.injEq, eq_comm]
  have hput : Put m m' (a ++ [item]) n b := {
    prev_new := by rw [hprev₁, if_pos rfl, List.getLastD_concat]
    next_new := by rw [hnext₁, if_neg hitem, if_pos rfl]
    last := fun x hx => (hnext₁ x).trans (if_pos ((hlast x).mp hx))
    head := fun x hx => by
      have hxn : x ≠ n := fun heq => hnb (heq ▸ List.mem_of_head? hx)
      exact (hprev₁ x).trans ((if_neg hxn).trans (if_pos hx))
    prev_eq := fun x hx hne => by rw [hprev₁, if_neg hx, if_neg hne]
    next_eq := fun x hx hne => by rw [hnext₁, if_neg (fun h => hne ((hlast x).mpr h)), if_neg hx] }
  have hib : item ∉ b := (List.nodup_cons.mp (List.nodup_append.mp h.nodup).2.1).1
  have hperm : (a ++ item :: n :: b).Perm (n :: (a ++ item :: b)) :=
    ((List.Perm.swap n item b).append_left a).trans List.perm_middle
  have happ : ∀ l : List Nat, a ++ [item] ++ l = a ++ item :: l := List.append_assoc a [item]
  refine ⟨hput, ?_, ?_, ?_, ?_, ?_, ?_⟩
  · rw [← happ]
    refine hput.seg ?_ ?_ ?_
    · rw [happ]
      exact h.seg
    · rw [happ]
      exact h.nodup
    · rw [happ]
      exact hn
  · rw [hlink, headD_append]
    exact h.begin.trans (headD_append a (item :: b) 0)
  · rw [hlink]
    show (if item = c.last then n else c.last) = (a ++ item :: n :: b).getLastD 0
    rw [h.last, getLastD_append, getLastD_append, List.getLastD_cons, List.getLastD_cons,
      List.getLastD_cons]
    cases b with
    | nil => exact if_pos rfl
    | cons x b =>
      rw [List.getLastD_cons, List.getLastD_cons]
      refine if_neg fun hx => hib ?_
      rw [hx]
      exact List.getLastD_mem_cons
  · rw [hlink]
    show c.sz + 1 = _
    rw [h.sz, List.length_append, List.length_append]
    rfl
  · refine hperm.nodup_iff.mpr (List.nodup_cons.mpr ⟨hn, h.nodup⟩)
  · intro h0
    rcases List.mem_cons.mp (hperm.mem_iff.mp h0) with h0 | h0
    · exact hn0 h0.symm
    · exact h.nonzero h0

/-- What `add` writes puts the item at its place. -/
theorem link {w : Where} (h : c.Holds m (a ++ b)) (hat : At a b pos w) (hn : n ∉ a ++ b)
    (hn0 : n ≠ 0) :
    Put m (c.link m pos w n).1 a n b ∧ (c.link m pos w n).2.Holds (c.link m pos w n).1 (a ++ n :: b) := by
  cases w with
  | next =>
    obtain ⟨rfl, hnil⟩ := hat
    rcases List.eq_nil_or_concat' a with rfl | ⟨a, item, rfl⟩
    · obtain rfl := hnil rfl
      exact h.link_nil hn0
    · have happ : ∀ l : List Nat, a ++ [item] ++ l = a ++ item :: l := List.append_assoc a [item]
      rw [happ] at h hn
      rw [List.getLastD_concat, happ]
      exact h.link_next hn hn0
  | prev =>
    obtain ⟨rfl, hnil⟩ := hat
    cases b with
    | nil =>
      obtain rfl := hnil rfl
      exact h.link_nil hn0
    | cons item b =>
      have hrev : (a ++ item :: b).reverse = b.reverse ++ item :: a.reverse := by simp
      have hmirror := h.mirror
      rw [hrev] at hmirror
      have hn' : n ∉ b.reverse ++ item :: a.reverse := by
        rw [← hrev, List.mem_reverse]
        exact hn
      obtain ⟨hput, hholds⟩ := hmirror.link_next hn' hn0
      obtain ⟨h1, h2⟩ := link_mirror (m := m) (c := c) (n := n) item
      rw [h1] at hput hholds
      rw [h2] at hholds
      refine ⟨Put.swap ?_, ?_⟩
      · rw [List.reverse_cons]
        exact hput
      · have hback := hholds.mirror
        rw [show (b.reverse ++ item :: n :: a.reverse).reverse = a ++ n :: item :: b by simp] at hback
        exact hback

variable (debug) in
/-- `add` at a place of the chain. -/
theorem add {w : Where} (needCheck : Bool) (h : c.Holds m (a ++ b)) (hat : At a b pos w)
    (hn : n ∉ a ++ b) (hn0 : n ≠ 0) :
    ∃ m' c', c.add debug m pos w n needCheck = .ok (m', c') ∧ Put m m' a n b ∧
      c'.Holds m' (a ++ n :: b) := by
  obtain ⟨hput, hrest⟩ := h.link hat hn hn0
  refine ⟨(c.link m pos w n).1, (c.link m pos w n).2, ?_, hput, hrest⟩
  unfold Xlist.add
  rw [h.check hat.mem]
  show ((c.link m pos w n).2.check (debug && needCheck) (c.link m pos w n).1
    (c.link m pos w n).2.last >>= fun _ => _) = _
  rw [hrest.check hrest.last_pos]
  rfl

end Holds

end Xlist

/-! ## The two chains -/

variable {T : Type} {k : ItemType T} {s s' : State T} {L L' : NodeList T} {x : T} {i base sz : Nat}

/-- The state holds the elements of `L` in its busy items and has the free items of `L`. -/
structure Rep (s : State T) (L : NodeList T) : Prop where
  busy : s.busy.Holds s.links L.nodes
  free : s.free.Holds s.links L.free
  disjoint : ∀ y ∈ L.nodes, y ∉ L.free
  data : ∀ e ∈ L.busy, s.data e.1 = e.2

namespace Rep

theorem wf (h : Rep s L) : L.Wf :=
  List.nodup_append.mpr ⟨h.busy.nodup, h.free.nodup, fun _ hy _ hz hyz =>
    h.disjoint _ hy (hyz ▸ hz)⟩

/-- `check` finds nothing. -/
theorem check (h : Rep s L) : s.check k = .ok () := by
  unfold State.check
  rw [h.free.check h.free.begin_pos]
  exact h.busy.check h.busy.begin_pos

/-- A free item is taken out of its chain. -/
theorem freeRemove (h : Rep s L) {fs : List Nat} (hfree : L.free = n :: fs) :
    ∃ s', s.freeRemove k n = .ok s' ∧ s'.busy = s.busy ∧ s'.data = s.data ∧ Rep s' ⟨L.busy, fs⟩ := by
  have hholds : s.free.Holds s.links ([] ++ n :: fs) := hfree ▸ h.free
  obtain ⟨m', c', hrun, hcut, hrest⟩ := hholds.remove k.debug
  have hout : ∀ y ∈ L.nodes, y ∉ fs := fun y hy hf =>
    h.disjoint y hy (hfree ▸ List.mem_cons_of_mem n hf)
  refine ⟨{ s with links := m', free := c' }, ?_, rfl, rfl, ?_, hrest, hout, h.data⟩
  · unfold State.freeRemove
    rw [hrun]
    rfl
  · exact h.busy.congr (hcut.frame h.busy.seg hout)

/-- An item is put into the free chain. -/
theorem freeAdd {w : Where} (needCheck : Bool) (h : Rep s L) (hab : L.free = a ++ b)
    (hat : Xlist.At a b pos w) (hbusy : n ∉ L.nodes) (hfree : n ∉ L.free) (hn0 : n ≠ 0) :
    ∃ s', s.freeAdd k pos w n needCheck = .ok s' ∧ s'.busy = s.busy ∧
      Rep s' ⟨L.busy, a ++ n :: b⟩ := by
  have hholds : s.free.Holds s.links (a ++ b) := hab ▸ h.free
  obtain ⟨m', c', hrun, hput, hrest⟩ :=
    hholds.add k.debug needCheck hat (hab ▸ hfree) hn0
  have hout : ∀ y ∈ L.nodes, y ∉ a ++ n :: b := by
    intro y hy hmem
    rcases List.mem_cons.mp (List.perm_middle.mem_iff.mp hmem) with rfl | hmem
    · exact hbusy hy
    · exact h.disjoint y hy (hab ▸ hmem)
  refine ⟨{ s with links := m', free := c' }, ?_, rfl, ?_, hrest, hout, h.data⟩
  · unfold State.freeAdd
    rw [hrun]
    rfl
  · exact h.busy.congr (hput.frame h.busy.seg hout)

/-- An item is put into the busy chain and its data is written. -/
theorem busyAdd {w : Where} (h : Rep s L) (hat : Xlist.At (L.nodes.take i) (L.nodes.drop i) pos w)
    (hbusy : n ∉ L.nodes) (hfree : n ∉ L.free) (hn0 : n ≠ 0) :
    ∃ s', s.busyAdd k pos w n = .ok s' ∧
      Rep (s'.setData n x) ⟨L.busy.take i ++ (n, x) :: L.busy.drop i, L.free⟩ := by
  have hsplit := List.take_append_drop i L.nodes
  have hholds : s.busy.Holds s.links (L.nodes.take i ++ L.nodes.drop i) := hsplit.symm ▸ h.busy
  obtain ⟨m', c', hrun, hput, hrest⟩ :=
    hholds.add k.debug true hat (hsplit.symm ▸ hbusy) hn0
  have hnodes : (⟨L.busy.take i ++ (n, x) :: L.busy.drop i, L.free⟩ : NodeList T).nodes =
      L.nodes.take i ++ n :: L.nodes.drop i := by
    simp [NodeList.nodes, List.map_take, List.map_drop]
  have hmem : ∀ y, y ∈ L.nodes.take i ++ n :: L.nodes.drop i ↔ y = n ∨ y ∈ L.nodes := by
    intro y
    rw [List.perm_middle.mem_iff, List.mem_cons, hsplit]
  have hout : ∀ y ∈ L.free, y ∉ L.nodes.take i ++ n :: L.nodes.drop i := by
    intro y hy hin
    rcases (hmem y).mp hin with rfl | hin
    · exact hfree hy
    · exact h.disjoint y hin hy
  refine ⟨{ s with links := m', busy := c' }, ?_, ?_, ?_, ?_, ?_⟩
  · unfold State.busyAdd
    rw [hrun]
    rfl
  · rw [hnodes]
    exact hrest
  · exact h.free.congr (hput.frame h.free.seg hout)
  · intro y hy hf
    rw [hnodes] at hy
    exact hout y hf hy
  · intro e he
    show Function.update s.data n x e.1 = e.2
    have hin : e = (n, x) ∨ e ∈ L.busy := by
      rwa [List.perm_middle.mem_iff, List.mem_cons, List.take_append_drop] at he
    rcases hin with rfl | hin
    · exact Function.update_self ..
    · have hne : e.1 ≠ n := fun heq => hbusy (heq ▸ List.mem_map_of_mem hin)
      rw [Function.update_of_ne hne]
      exact h.data e hin

/-- The data of the last busy item is written. -/
theorem setData_last {b : List (Nat × T)} {f : List Nat} {y : T} (h : Rep s ⟨b ++ [(n, x)], f⟩) :
    Rep (s.setData n y) ⟨b ++ [(n, y)], f⟩ := by
  have hnodes : (⟨b ++ [(n, y)], f⟩ : NodeList T).nodes = (⟨b ++ [(n, x)], f⟩ : NodeList T).nodes := by
    simp [NodeList.nodes]
  refine ⟨hnodes ▸ h.busy, h.free, hnodes ▸ h.disjoint, fun e he => ?_⟩
  show Function.update s.data n y e.1 = e.2
  rcases List.mem_append.mp he with he | he
  · have hne : e.1 ≠ n := by
      have hnd := h.busy.nodup
      unfold NodeList.nodes at hnd
      rw [List.map_append] at hnd
      exact (List.nodup_append.mp hnd).2.2 _ (List.mem_map_of_mem he) _ List.mem_cons_self
    rw [Function.update_of_ne hne]
    exact h.data e (List.mem_append_left _ he)
  · obtain rfl := List.mem_singleton.mp he
    exact Function.update_self ..

/-- A busy item is taken out of its chain. -/
theorem busyRemove (h : Rep s L) (hn : L.nodes = a ++ n :: b) :
    ∃ s', s.busyRemove k n = .ok s' ∧ s'.free = s.free ∧
      Rep s' ⟨L.busy.filter (fun e => e.1 != n), L.free⟩ := by
  have hholds : s.busy.Holds s.links (a ++ n :: b) := hn ▸ h.busy
  obtain ⟨m', c', hrun, hcut, hrest⟩ := hholds.remove k.debug
  have hnodes : (⟨L.busy.filter (fun e => e.1 != n), L.free⟩ : NodeList T).nodes = a ++ b :=
    NodeList.nodes_erase_split h.wf hn
  have hout : ∀ y ∈ L.free, y ∉ a ++ b := by
    intro y hy hmem
    refine h.disjoint y ?_ hy
    rw [hn, List.perm_middle.mem_iff]
    exact List.mem_cons_of_mem n hmem
  refine ⟨{ s with links := m', busy := c' }, ?_, rfl, ?_, ?_, ?_, ?_⟩
  · unfold State.busyRemove
    rw [hrun]
    rfl
  · rw [hnodes]
    exact hrest
  · exact h.free.congr (hcut.frame h.free.seg hout)
  · intro y hy hf
    rw [hnodes] at hy
    exact hout y hf hy
  · exact fun e he => h.data e (List.mem_filter.mp he).1

/-! ## The calls one by one -/

/-- Items that are no items of the list yet are free items of it afterwards. -/
theorem addItems : ∀ {ns : List Nat} {s : State T} {L : NodeList T}, Rep s L → ns.Nodup → 0 ∉ ns →
    (∀ y ∈ ns, y ∉ L.nodes ∧ y ∉ L.free) →
    ∃ s', State.addItems k ns s = .ok s' ∧ s'.busy = s.busy ∧ Rep s' (L.addNodes ns)
  | [], s, L, h, _, _, _ => by
    refine ⟨s, rfl, rfl, ?_⟩
    unfold NodeList.addNodes
    rw [List.append_nil]
    exact h
  | n :: ns, s, L, h, hnd, h0, hout => by
    obtain ⟨hn, hnd⟩ := List.nodup_cons.mp hnd
    obtain ⟨hbusy, hfree⟩ := hout n List.mem_cons_self
    have hn0 : n ≠ 0 := fun heq => h0 (heq ▸ List.mem_cons_self)
    have hat : Xlist.At L.free [] s.free.last .next := ⟨h.free.last, fun _ => rfl⟩
    obtain ⟨s₁, hrun, hbusy₁, hrep⟩ :=
      h.freeAdd false (List.append_nil _).symm hat hbusy hfree hn0
    obtain ⟨s₂, hrest, hbusy₂, hrep₂⟩ := addItems hrep hnd
      (fun h => h0 (List.mem_cons_of_mem n h)) fun y hy => by
        obtain ⟨h1, h2⟩ := hout y (List.mem_cons_of_mem n hy)
        refine ⟨h1, fun hmem => ?_⟩
        rcases List.mem_append.mp hmem with hmem | hmem
        · exact h2 hmem
        · exact hn (List.mem_singleton.mp hmem ▸ hy)
    refine ⟨s₂, ?_, hbusy₂.trans hbusy₁, ?_⟩
    · unfold State.addItems
      rw [hrun]
      exact hrest
    · have happ : L.free ++ [n] ++ ns = L.free ++ n :: ns := List.append_assoc ..
      unfold NodeList.addNodes at hrep₂ ⊢
      rw [happ] at hrep₂
      exact hrep₂

/-- The insertions put the element behind the first `i`. -/
theorem insertItem {w : Where} (h : Rep s L) (hins : L.insertAt i x = some (L', n))
    (hat : Xlist.At (L.nodes.take i) (L.nodes.drop i) pos w) :
    ∃ s', s.insertItem k pos w x = .ok (s', n) ∧ Rep s' L' := by
  obtain ⟨hfree, hbusy⟩ := NodeList.insertAt_eq_some hins
  have hbegin : s.free.begin = n := by
    rw [h.free.begin, hfree]
    rfl
  obtain ⟨hn, -⟩ := List.nodup_cons.mp (hfree ▸ h.free.nodup)
  have hn0 : n ≠ 0 := fun h0 => h.free.nonzero (hfree ▸ h0 ▸ List.mem_cons_self)
  have hnb : n ∉ L.nodes := fun hb => h.disjoint n hb (hfree ▸ List.mem_cons_self)
  obtain ⟨s₁, hrun₁, -, -, hrep₁⟩ := h.freeRemove (k := k) hfree
  obtain ⟨s₂, hrun₂, hrep₂⟩ := hrep₁.busyAdd (k := k) (x := x) hat hnb hn hn0
  refine ⟨s₂.setData n x, ?_, ?_⟩
  · unfold State.insertItem
    dsimp only
    rw [hbegin, hrun₁]
    show (s₁.busyAdd k pos w n >>= fun _ => _) = _
    rw [hrun₂]
    rfl
  · have hL : L' = ⟨L.busy.take i ++ (n, x) :: L.busy.drop i, L'.free⟩ := by
      rw [← hbusy]
    rw [hL]
    exact hrep₂

/-- `erase` of a busy item. -/
theorem erase (h : Rep s L) (hn : n ∈ L.nodes) :
    ∃ s', s.erase k n = .ok (s', L.behind n) ∧ Rep s' (L.erase n) := by
  obtain ⟨a, b, hab, -, -, hbehind⟩ := NodeList.nodes_split hn
  have hsz : s.busy.sz ≠ 0 := by
    rw [Ne, h.busy.sz_eq_zero]
    exact List.ne_nil_of_mem hn
  have hseg : Seg s.links 0 (a ++ n :: b) 0 := hab ▸ h.busy.seg
  have hret : s.links.next n = L.behind n := hseg.neighbours.2.trans hbehind.symm
  obtain ⟨s₁, hrun₁, hfree₁, hrep₁⟩ := h.busyRemove (k := k) hab
  have hn0 : n ≠ 0 := fun h0 => h.busy.nonzero (h0 ▸ hn)
  have hnb : n ∉ (L.erase n).nodes := by
    rw [NodeList.nodes_erase]
    exact fun hmem => by simpa using (List.mem_filter.mp hmem).2
  have hat : Xlist.At [] L.free s.free.begin .prev := ⟨h.free.begin, fun _ => rfl⟩
  obtain ⟨s₂, hrun₂, -, hrep₂⟩ := hrep₁.freeAdd (k := k) true rfl hat hnb
    (h.disjoint n hn) hn0
  refine ⟨s₂, ?_, hrep₂⟩
  unfold State.erase
  rw [ensure_bind_of hsz, hrun₁]
  show (s₁.freeAdd k s₁.free.begin .prev n true >>= fun _ => _) = _
  rw [hfree₁, hrun₂, ← hret]
  rfl

theorem clear_nil (h : Rep s L) (hnil : L.nodes = []) : Rep s L.clear := by
  have hbusy : L.busy = [] := List.map_eq_nil_iff.mp hnil
  have hclear : L.clear = L := by
    unfold NodeList.clear
    rw [hnil, ← hbusy]
    rfl
  exact hclear.symm ▸ h

/-- `clear` takes the elements out one by one from the front. -/
theorem clearLoop : ∀ {r : Nat} {s : State T} {L : NodeList T}, Rep s L → L.nodes.length ≤ r →
    ∃ s', State.clearLoop k r s (L.nodes.headD 0) = .ok s' ∧ Rep s' L.clear := by
  intro r
  induction r with
  | zero =>
    intro s L h hr
    have hnil : L.nodes = [] := List.length_eq_zero_iff.mp (Nat.le_zero.mp hr)
    refine ⟨s, ?_, h.clear_nil hnil⟩
    rw [hnil]
    rfl
  | succ r ih =>
    intro s L h hr
    cases hnodes : L.nodes with
    | nil => exact ⟨s, rfl, h.clear_nil hnodes⟩
    | cons n rest =>
      have hn : n ∈ L.nodes := hnodes ▸ List.mem_cons_self
      have hn0 : n ≠ 0 := fun h0 => h.busy.nonzero (h0 ▸ hn)
      obtain ⟨s₁, hrun, hrep⟩ := h.erase (k := k) hn
      have hrest : (L.erase n).nodes = rest := NodeList.nodes_erase_split (a := []) h.wf hnodes
      have hbehind : L.behind n = rest.headD 0 := by
        unfold NodeList.behind
        rw [hnodes, List.idxOf_cons_self]
        cases rest <;> rfl
      have hclear : (L.erase n).clear = L.clear := by
        unfold NodeList.clear
        rw [hrest, hnodes, List.reverse_cons, List.append_assoc]
        rfl
      obtain ⟨s₂, hrun₂, hrep₂⟩ := ih hrep (by
        rw [hrest]
        rw [hnodes] at hr
        exact Nat.le_of_succ_le_succ hr)
      refine ⟨s₂, ?_, hclear ▸ hrep₂⟩
      show (if n = 0 then pure s else State.erase k s n >>= fun q => State.clearLoop k r q.1 q.2) = _
      rw [if_neg hn0, hrun, hbehind, ← hrest]
      exact hrun₂

theorem clear (h : Rep s L) : ∃ s', s.clear k = .ok s' ∧ Rep s' L.clear := by
  have hrun := h.clearLoop (k := k) (Nat.le_refl _)
  rw [← h.busy.begin, ← h.busy.sz] at hrun
  exact hrun

/-! ## Positions -/

/-- Before a busy item, or anywhere in the empty list. -/
theorem at_before (hpos : pos ∈ L.nodes ∨ L.nodes = [] ∧ pos = 0) :
    Xlist.At (L.nodes.take (L.nodes.idxOf pos)) (L.nodes.drop (L.nodes.idxOf pos)) pos .prev := by
  rcases hpos with hpos | ⟨hnil, rfl⟩
  · obtain ⟨a, b, hab, -, hidx, -⟩ := NodeList.nodes_split hpos
    rw [hidx, hab, List.drop_left]
    exact ⟨rfl, nofun⟩
  · rw [hnil]
    exact ⟨rfl, fun _ => rfl⟩

/-- Behind a busy item, or anywhere in the empty list. -/
theorem at_after (hpos : pos ∈ L.nodes ∨ L.nodes = [] ∧ pos = 0) :
    Xlist.At (L.nodes.take (L.nodes.idxOf pos + 1)) (L.nodes.drop (L.nodes.idxOf pos + 1)) pos
      .next := by
  rcases hpos with hpos | ⟨hnil, rfl⟩
  · obtain ⟨a, b, hab, -, hidx, -⟩ := NodeList.nodes_split hpos
    have htake : L.nodes.take (L.nodes.idxOf pos + 1) = a ++ [pos] := by
      rw [hidx, hab, List.take_length_add_append]
      rfl
    rw [htake]
    exact ⟨List.getLastD_concat.symm, fun hnil => absurd hnil (by simp)⟩
  · rw [hnil]
    exact ⟨rfl, fun _ => rfl⟩

/-- Behind the last item. -/
theorem at_last (h : Rep s L) (hi : L.nodes.length ≤ i) :
    Xlist.At (L.nodes.take i) (L.nodes.drop i) s.busy.last .next := by
  rw [List.take_of_length_le hi, List.drop_of_length_le hi]
  exact ⟨h.busy.last, fun _ => rfl⟩

/-- `find_pos` yields the item at the place of the new element, 0 when that is the end. -/
theorem findPos (h : Rep s L) (val : T) :
    s.busy.findPos s.links k.less s.data val =
      (L.nodes.drop (L.busy.findIdx fun e => !k.less e.2 val)).headD 0 := by
  have hwalk : Links.follow s.links.next s.busy.sz s.busy.begin = L.nodes :=
    h.busy.follow_next (Nat.le_refl _)
  have hfind : (L.busy.find? fun e => !k.less (s.data e.1) val) =
      (L.busy.drop (L.busy.findIdx fun e => !k.less e.2 val)).head? := by
    rw [List.find?_congr fun e he => by rw [h.data e he], List.find?_eq_head?_dropWhile_not,
      List.dropWhile_eq_drop_findIdx_not]
    simp only [Bool.not_not]
  unfold Xlist.findPos
  rw [hwalk]
  unfold NodeList.nodes
  rw [List.find?_map, ← List.map_drop, List.headD_eq_head?_getD, List.head?_map, ← hfind]
  rfl

end Rep

end ListT
end Wrmos
