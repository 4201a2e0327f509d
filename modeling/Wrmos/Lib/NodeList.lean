import Mathlib.Data.List.Nodup
import Mathlib.Data.List.Perm.Basic

/-!
# Lists over a pool of nodes

A list that owns a fixed pool of nodes: an element sits in a node, a node is busy or free, and a
reference to an element is the node it sits in.  An insertion takes the first free node and says which
one it took; `erase` takes a node out by reference and puts it in front of the free ones.

`Wf` says that no node occurs twice.  Under it, membership of a pair of node and element describes
both operations (`mem_insertWhere`, `mem_erase`), and the room of the list does not change.
-/

namespace Wrmos
namespace Lib

variable {α : Type}

/-- The busy nodes in list order with their elements, and the free nodes. -/
structure NodeList (α : Type) where
  busy : List (Nat × α)
  free : List Nat

namespace NodeList

/-- The empty list with room for `cap` elements. -/
def init (cap : Nat) : NodeList α := ⟨[], List.range cap⟩

/-- The busy nodes. -/
def nodes (l : NodeList α) : List Nat := l.busy.map Prod.fst

/-- Put an element before the first one that satisfies `p`, or at the end; `none` when no node is
free. -/
def insertWhere (p : α → Bool) (x : α) (l : NodeList α) : Option (NodeList α × Nat) :=
  match l.free with
  | [] => none
  | n :: fs =>
    some (⟨l.busy.takeWhile (fun e => !p e.2) ++ (n, x) :: l.busy.dropWhile (fun e => !p e.2), fs⟩, n)

/-- Put an element at the end. -/
def pushBack (x : α) (l : NodeList α) : Option (NodeList α × Nat) := l.insertWhere (fun _ => false) x

/-- Take the element of a node out. -/
def erase (n : Nat) (l : NodeList α) : NodeList α :=
  ⟨l.busy.filter (fun e => e.1 != n), n :: l.free⟩

/-- The element of a busy node. -/
def get? (n : Nat) (l : NodeList α) : Option α := (l.busy.find? (fun e => e.1 == n)).map Prod.snd

/-- No node occurs twice. -/
def Wf (l : NodeList α) : Prop := (l.nodes ++ l.free).Nodup

variable {l l' : NodeList α} {p : α → Bool} {x y : α} {m n cap : Nat}

theorem wf_init : (init cap : NodeList α).Wf := by
  simpa [Wf, init, nodes] using List.nodup_range

/-- The new list is the old one around the new element. -/
theorem insertWhere_perm (h : l.insertWhere p x = some (l', n)) :
    l.free = n :: l'.free ∧ l'.busy.Perm ((n, x) :: l.busy) := by
  unfold insertWhere at h
  split at h
  · cases h
  · rename_i k fs hfree
    obtain ⟨rfl, rfl⟩ := Prod.mk.inj (Option.some.inj h)
    refine ⟨hfree, List.perm_middle.trans (List.Perm.cons _ ?_)⟩
    rw [List.takeWhile_append_dropWhile]

/-- An insertion fails only when every node is busy. -/
theorem insertWhere_eq_none (h : l.insertWhere p x = none) : l.free = [] := by
  unfold insertWhere at h
  split at h
  · assumption
  · cases h

theorem mem_insertWhere (h : l.insertWhere p x = some (l', n)) :
    (m, y) ∈ l'.busy ↔ (m, y) ∈ l.busy ∨ m = n ∧ y = x := by
  rw [(insertWhere_perm h).2.mem_iff, List.mem_cons, Prod.mk.injEq, or_comm]

theorem wf_insertWhere (hl : l.Wf) (h : l.insertWhere p x = some (l', n)) : l'.Wf := by
  obtain ⟨hfree, hperm⟩ := insertWhere_perm h
  have hnodes : (l'.nodes ++ l'.free).Perm (l.nodes ++ l.free) := by
    rw [hfree]
    exact ((hperm.map Prod.fst).append_right _).trans List.perm_middle.symm
  exact hnodes.nodup_iff.mpr hl

/-- The node of a new element was not busy. -/
theorem fresh_insertWhere (hl : l.Wf) (h : l.insertWhere p x = some (l', n)) : n ∉ l.nodes := by
  intro hn
  have hdisj := List.disjoint_of_nodup_append hl hn
  rw [(insertWhere_perm h).1] at hdisj
  exact hdisj List.mem_cons_self

theorem length_insertWhere (h : l.insertWhere p x = some (l', n)) :
    l'.busy.length = l.busy.length + 1 ∧
      l'.busy.length + l'.free.length = l.busy.length + l.free.length := by
  obtain ⟨hfree, hperm⟩ := insertWhere_perm h
  rw [hperm.length_eq, hfree, List.length_cons, List.length_cons]
  exact ⟨rfl, by omega⟩

theorem mem_erase : (m, y) ∈ (l.erase n).busy ↔ (m, y) ∈ l.busy ∧ m ≠ n := by
  simp [erase]

theorem wf_erase (hl : l.Wf) (hn : n ∈ l.nodes) : (l.erase n).Wf := by
  obtain ⟨h1, h2, h3⟩ := List.nodup_append.mp hl
  have hsub : (l.erase n).nodes.Sublist l.nodes := List.filter_sublist.map _
  refine List.nodup_append.mpr ⟨h1.sublist hsub, ?_, ?_⟩
  · refine List.nodup_cons.mpr ⟨fun hf => h3 n hn n hf rfl, h2⟩
  · intro a ha b hb
    rcases List.mem_cons.mp hb with rfl | hb
    · obtain ⟨e, he, rfl⟩ := List.mem_map.mp ha
      exact (mem_erase (y := e.2).mp he).2
    · exact h3 a (hsub.subset ha) b hb

/-- The nodes after an insertion. -/
theorem nodes_insertWhere (h : l.insertWhere p x = some (l', n)) : l'.nodes.Perm (n :: l.nodes) :=
  (insertWhere_perm h).2.map Prod.fst

theorem nodes_erase : (l.erase n).nodes = l.nodes.filter (· != n) := by
  simp [erase, nodes, List.filter_map, Function.comp_def]

/-- The nodes before a removal. -/
theorem nodes_perm_erase (hl : l.Wf) (hn : n ∈ l.nodes) :
    l.nodes.Perm (n :: (l.erase n).nodes) := by
  have hnodup : l.nodes.Nodup := (List.nodup_append.mp hl).1
  rw [nodes_erase, ← hnodup.erase_eq_filter]
  exact List.perm_cons_erase hn

/-- A busy node holds one element. -/
theorem elem_unique (hl : l.Wf) (hx : (n, x) ∈ l.busy) (hy : (n, y) ∈ l.busy) : x = y := by
  have hnodup : (l.busy.map Prod.fst).Nodup := (List.nodup_append.mp hl).1
  exact congrArg Prod.snd (List.inj_on_of_nodup_map hnodup hx hy rfl)

theorem length_erase (hl : l.Wf) (hn : n ∈ l.nodes) :
    (l.erase n).busy.length + 1 = l.busy.length ∧
      (l.erase n).busy.length + (l.erase n).free.length = l.busy.length + l.free.length := by
  have hnodup : l.nodes.Nodup := (List.nodup_append.mp hl).1
  have hlen : (l.erase n).nodes.length + 1 = l.nodes.length := by
    rw [nodes_erase, ← hnodup.erase_eq_filter, List.length_erase_of_mem hn]
    have := List.length_pos_of_mem hn
    omega
  have hb : ∀ k : NodeList α, k.nodes.length = k.busy.length := fun k => List.length_map _
  rw [hb, hb] at hlen
  refine ⟨hlen, ?_⟩
  simp only [erase, List.length_cons] at hlen ⊢
  omega

theorem get?_eq_some (hl : l.Wf) : l.get? n = some x ↔ (n, x) ∈ l.busy := by
  unfold get?
  constructor
  · intro h
    obtain ⟨e, he, rfl⟩ := Option.map_eq_some_iff.mp h
    have hn : e.1 = n := by simpa using List.find?_some he
    exact hn ▸ List.mem_of_find?_eq_some he
  · intro h
    cases hf : l.busy.find? (fun e => e.1 == n) with
    | none => exact absurd (List.find?_eq_none.mp hf (n, x) h) (by simp)
    | some e =>
      have hn : e.1 = n := by simpa using List.find?_some hf
      have hmem : (n, e.2) ∈ l.busy := hn ▸ List.mem_of_find?_eq_some hf
      rw [Option.map_some, elem_unique hl hmem h]

/-! ## The elements in list order -/

/-- The elements. -/
def elems (l : NodeList α) : List α := l.busy.map Prod.snd

theorem elems_insertWhere (h : l.insertWhere p x = some (l', n)) :
    l'.elems = l.elems.takeWhile (fun e => !p e) ++ x :: l.elems.dropWhile fun e => !p e := by
  unfold insertWhere at h
  split at h
  · cases h
  · obtain ⟨rfl, -⟩ := Prod.mk.inj (Option.some.inj h)
    simp [elems, List.takeWhile_map, List.dropWhile_map, Function.comp_def]

/-- Without the node of `x` the list is without `x`, if `x` sits in no other node. -/
theorem elems_erase [DecidableEq α] (hl : l.Wf) (hx : (n, x) ∈ l.busy)
    (honly : ∀ m, (m, x) ∈ l.busy → m = n) : (l.erase n).elems = l.elems.filter (· ≠ x) := by
  unfold elems erase
  rw [List.filter_map]
  congr 1
  refine List.filter_congr fun e he => ?_
  have hiff : e.1 = n ↔ e.2 = x :=
    ⟨fun h1 => elem_unique hl (h1 ▸ he) hx, fun h2 => honly _ (h2 ▸ he)⟩
  simp [bne, beq_eq_decide, hiff]

/-- An insertion before the first element that belongs behind `x` keeps a transitive order. -/
theorem pairwise_insert_of_trans {R : α → α → Prop} (htrans : ∀ {a b c}, R a b → R b c → R a c)
    {es : List α} (hes : es.Pairwise R) (hbehind : ∀ e ∈ es, p e = true → R x e)
    (hbefore : ∀ e ∈ es, p e = false → R e x) :
    (es.takeWhile (fun e => !p e) ++ x :: es.dropWhile fun e => !p e).Pairwise R := by
  induction es with
  | nil => simp
  | cons e es ih =>
    obtain ⟨he, hes⟩ := List.pairwise_cons.mp hes
    cases hp : p e with
    | true =>
      have hx := hbehind e List.mem_cons_self hp
      rw [List.takeWhile_cons_of_neg (by simp [hp]), List.dropWhile_cons_of_neg (by simp [hp]),
        List.nil_append, List.pairwise_cons, List.pairwise_cons]
      refine ⟨fun b hb => ?_, he, hes⟩
      rcases List.mem_cons.mp hb with rfl | hb
      · exact hx
      · exact htrans hx (he b hb)
    | false =>
      have hx := hbefore e List.mem_cons_self hp
      rw [List.takeWhile_cons_of_pos (by simp [hp]), List.dropWhile_cons_of_pos (by simp [hp]),
        List.cons_append, List.pairwise_cons]
      refine ⟨fun b hb => ?_, ih hes (fun a ha => hbehind a (List.mem_cons_of_mem e ha))
        fun a ha => hbefore a (List.mem_cons_of_mem e ha)⟩
      rcases List.mem_append.mp hb with hb | hb
      · exact he b (List.takeWhile_subset _ hb)
      · rcases List.mem_cons.mp hb with rfl | hb
        · exact hx
        · exact he b ((List.dropWhile_suffix _).subset hb)

/-- The same for the order by `f`. -/
theorem pairwise_insert {f : α → Nat} {es : List α} (hes : es.Pairwise fun a b => f a ≤ f b)
    (hbehind : ∀ e ∈ es, p e = true → f x ≤ f e) (hbefore : ∀ e ∈ es, p e = false → f e ≤ f x) :
    (es.takeWhile (fun e => !p e) ++ x :: es.dropWhile fun e => !p e).Pairwise
      fun a b => f a ≤ f b :=
  pairwise_insert_of_trans (R := fun a b => f a ≤ f b) Nat.le_trans hes hbehind hbefore

/-- In a list ordered by `f` the elements up to `v` stand in front. -/
theorem mem_takeWhile_le {f : α → Nat} {es : List α} {v : Nat}
    (hes : es.Pairwise fun a b => f a ≤ f b) :
    x ∈ es.takeWhile (fun e => decide (f e ≤ v)) ↔ x ∈ es ∧ f x ≤ v := by
  induction es with
  | nil => simp
  | cons e es ih =>
    obtain ⟨he, hes⟩ := List.pairwise_cons.mp hes
    by_cases hv : f e ≤ v
    · rw [List.takeWhile_cons_of_pos (by simpa using hv), List.mem_cons, List.mem_cons, ih hes]
      constructor
      · rintro (rfl | h)
        · exact ⟨.inl rfl, hv⟩
        · exact ⟨.inr h.1, h.2⟩
      · rintro ⟨rfl | h, hx⟩
        · exact .inl rfl
        · exact .inr ⟨h, hx⟩
    · rw [List.takeWhile_cons_of_neg (by simpa using hv)]
      refine iff_of_false List.not_mem_nil ?_
      rintro ⟨hx, hle⟩
      rcases List.mem_cons.mp hx with rfl | hx
      · exact hv hle
      · exact hv (Nat.le_trans (he x hx) hle)

/-! ## Places in the list -/

/-- Put an element behind the first `i`; `none` when no node is free. -/
def insertAt (i : Nat) (x : α) (l : NodeList α) : Option (NodeList α × Nat) :=
  match l.free with
  | [] => none
  | n :: fs => some (⟨l.busy.take i ++ (n, x) :: l.busy.drop i, fs⟩, n)

/-- Put an element before the one of a node, at the end if the node is not busy. -/
def insertBefore (pos : Nat) (x : α) (l : NodeList α) : Option (NodeList α × Nat) :=
  l.insertAt (l.nodes.idxOf pos) x

/-- Put an element behind the one of a node, at the end if the node is not busy. -/
def insertAfter (pos : Nat) (x : α) (l : NodeList α) : Option (NodeList α × Nat) :=
  l.insertAt (l.nodes.idxOf pos + 1) x

/-- More free nodes, behind the others. -/
def addNodes (ns : List Nat) (l : NodeList α) : NodeList α := ⟨l.busy, l.free ++ ns⟩

/-- Take all elements out, the first one first. -/
def clear (l : NodeList α) : NodeList α := ⟨[], l.nodes.reverse ++ l.free⟩

/-- The node behind a busy one, 0 when it is the last. -/
def behind (n : Nat) (l : NodeList α) : Nat := l.nodes.getD (l.nodes.idxOf n + 1) 0

variable {i : Nat} {ns : List Nat}

theorem insertWhere_eq_insertAt :
    l.insertWhere p x = l.insertAt (l.busy.findIdx fun e => p e.2) x := by
  unfold insertWhere insertAt
  rw [List.takeWhile_eq_take_findIdx_not, List.dropWhile_eq_drop_findIdx_not]
  simp only [Bool.not_not]

theorem pushBack_eq_insertAt : l.pushBack x = l.insertAt l.busy.length x := by
  unfold pushBack
  rw [insertWhere_eq_insertAt, List.findIdx_eq_length_of_false (by simp)]

theorem insertAt_eq_some (h : l.insertAt i x = some (l', n)) :
    l.free = n :: l'.free ∧ l'.busy = l.busy.take i ++ (n, x) :: l.busy.drop i := by
  unfold insertAt at h
  split at h
  · cases h
  · rename_i k fs hfree
    obtain ⟨rfl, rfl⟩ := Prod.mk.inj (Option.some.inj h)
    exact ⟨hfree, rfl⟩

theorem insertAt_of_free {fs : List Nat} (h : l.free = n :: fs) :
    l.insertAt i x = some (⟨l.busy.take i ++ (n, x) :: l.busy.drop i, fs⟩, n) := by
  unfold insertAt
  rw [h]

theorem nodes_insertAt (h : l.insertAt i x = some (l', n)) :
    l'.nodes = l.nodes.take i ++ n :: l.nodes.drop i := by
  unfold nodes
  rw [(insertAt_eq_some h).2, List.map_append, List.map_cons, List.map_take, List.map_drop]

/-- What is in the list stays in it. -/
theorem mem_insertAt (h : l.insertAt i x = some (l', n)) :
    (m, y) ∈ l'.busy ↔ (m, y) ∈ l.busy ∨ m = n ∧ y = x := by
  rw [(insertAt_eq_some h).2, List.mem_append, List.mem_cons, Prod.mk.injEq, or_left_comm,
    ← List.mem_append, List.take_append_drop, or_comm]

/-- An insertion neither adds nor loses a node. -/
theorem all_insertAt (h : l.insertAt i x = some (l', n)) :
    (l'.nodes ++ l'.free).Perm (l.nodes ++ l.free) := by
  rw [nodes_insertAt h, (insertAt_eq_some h).1]
  calc (l.nodes.take i ++ n :: l.nodes.drop i ++ l'.free).Perm
        (n :: (l.nodes.take i ++ l.nodes.drop i) ++ l'.free) := List.perm_middle.append_right _
    _ = n :: (l.nodes ++ l'.free) := by rw [List.take_append_drop]; rfl
    List.Perm _ (l.nodes ++ n :: l'.free) := List.perm_middle.symm

theorem all_erase (hl : l.Wf) (hn : n ∈ l.nodes) :
    ((l.erase n).nodes ++ (l.erase n).free).Perm (l.nodes ++ l.free) :=
  List.perm_middle.trans ((nodes_perm_erase hl hn).symm.append_right l.free)

theorem all_clear : (l.clear.nodes ++ l.clear.free).Perm (l.nodes ++ l.free) :=
  (List.reverse_perm l.nodes).append_right l.free

/-- The nodes around a busy one. -/
theorem nodes_split (hn : n ∈ l.nodes) : ∃ a b, l.nodes = a ++ n :: b ∧ n ∉ a ∧
    l.nodes.idxOf n = a.length ∧ l.behind n = b.headD 0 := by
  obtain ⟨a, b, hab, hna⟩ := List.eq_append_cons_of_mem hn
  have hidx : l.nodes.idxOf n = a.length := by
    rw [hab, List.idxOf_append_of_notMem hna, List.idxOf_cons_self, Nat.add_zero]
  refine ⟨a, b, hab, hna, hidx, ?_⟩
  unfold behind
  rw [hidx, hab]
  cases b <;> simp

/-- Without a node of no other occurrence. -/
theorem nodes_erase_split {a b : List Nat} (hl : l.Wf) (hab : l.nodes = a ++ n :: b) :
    (l.erase n).nodes = a ++ b := by
  have hnodup : l.nodes.Nodup := (List.nodup_append.mp hl).1
  rw [nodes_erase, ← hnodup.erase_eq_filter, hab]
  rw [hab] at hnodup
  have hna : n ∉ a := fun h => (List.nodup_append.mp hnodup).2.2 n h n List.mem_cons_self rfl
  rw [List.erase_append_right _ hna, List.erase_cons_head]

end NodeList

end Lib
end Wrmos
