import Mathlib.Data.List.Nodup
import Mathlib.Logic.Function.Basic

/-!
# Doubly linked chains

Nodes are numbers, and 0 is no node.  `Seg m p l q` says that the links of the nodes of `l` make them a
segment of a chain between `p` and `q`: each node points back to the one before it, the first to `p`, and
forward to the one behind it, the last to `q`.  A chain is a segment between 0 and 0.

A segment is taken apart at any place (`seg_append`), does not depend on other nodes (`Seg.congr`), can be
given another end by one write (`Seg.retargetLast`, `Seg.retargetHead`), and read backwards is a segment
for the exchanged links (`Seg.reverse`).  From these, putting a node between two others and taking one out
follow, and following the links yields the list.
-/

namespace Wrmos
namespace Lib

/-- The links of the nodes. -/
structure Links where
  prev : Nat → Nat
  next : Nat → Nat

namespace Links

/-- The links read backwards. -/
def swap (m : Links) : Links := ⟨m.next, m.prev⟩

/-- Write a link. -/
def setPrev (m : Links) (x v : Nat) : Links := { m with prev := Function.update m.prev x v }
def setNext (m : Links) (x v : Nat) : Links := { m with next := Function.update m.next x v }

/-- The nodes that are met from `p` on, at most `n` of them. -/
def follow (f : Nat → Nat) : Nat → Nat → List Nat
  | 0, _ => []
  | n + 1, p => if p = 0 then [] else p :: follow f n (f p)

section

variable (m : Links) (x v y : Nat)

theorem prev_setPrev : (m.setPrev x v).prev y = if y = x then v else m.prev y :=
  Function.update_apply ..

theorem next_setNext : (m.setNext x v).next y = if y = x then v else m.next y :=
  Function.update_apply ..

@[simp] theorem next_setPrev : (m.setPrev x v).next = m.next := rfl

@[simp] theorem prev_setNext : (m.setNext x v).prev = m.prev := rfl

/-- A write that is made unless the node is none. -/
theorem prev_setPrev_ite : (if x ≠ 0 then m.setPrev x v else m).prev y =
    if x ≠ 0 ∧ y = x then v else m.prev y := by
  by_cases hx : x = 0
  · simp [hx]
  · simp [hx, prev_setPrev]

theorem next_setNext_ite : (if x ≠ 0 then m.setNext x v else m).next y =
    if x ≠ 0 ∧ y = x then v else m.next y := by
  by_cases hx : x = 0
  · simp [hx]
  · simp [hx, next_setNext]

theorem next_setPrev_ite : (if x ≠ 0 then m.setPrev x v else m).next = m.next := by
  split <;> rfl

theorem prev_setNext_ite : (if x ≠ 0 then m.setNext x v else m).prev = m.prev := by
  split <;> rfl

end

end Links

/-- The nodes of `l` are a segment between `p` and `q`. -/
def Seg (m : Links) (p : Nat) : List Nat → Nat → Prop
  | [], _ => True
  | x :: l, q => m.prev x = p ∧ m.next x = l.headD q ∧ Seg m x l q

variable {m m' : Links} {p p' q q' x : Nat} {l a b : List Nat}

theorem headD_append (a b : List Nat) (q : Nat) : (a ++ b).headD q = a.headD (b.headD q) := by
  cases a <;> rfl

theorem getLastD_append (a b : List Nat) (p : Nat) : (a ++ b).getLastD p = b.getLastD (a.getLastD p) := by
  induction a generalizing p with
  | nil => rfl
  | cons x a ih => rw [List.cons_append, List.getLastD_cons, List.getLastD_cons, ih]

theorem getLastD_mem_or (l : List Nat) (p : Nat) : l.getLastD p ∈ l ∨ l = [] := by
  cases l with
  | nil => exact .inr rfl
  | cons x l => exact .inl (by rw [List.getLastD_cons]; exact List.getLastD_mem_cons ..)

theorem headD_mem_or (l : List Nat) (q : Nat) : l.headD q ∈ l ∨ l = [] := by
  cases l with
  | nil => exact .inr rfl
  | cons x l => exact .inl List.mem_cons_self

/-- The first node, if there is one. -/
theorem head?_eq_some_iff (h0 : 0 ∉ b) : b.head? = some x ↔ b.headD 0 ≠ 0 ∧ x = b.headD 0 := by
  cases b with
  | nil => simp
  | cons y b =>
    have hy : y ≠ 0 := fun h => h0 (h ▸ List.mem_cons_self)
    simp [hy, eq_comm]

/-- The last node, if there is one. -/
theorem getLast?_eq_some_iff (h0 : 0 ∉ a) :
    a.getLast? = some x ↔ a.getLastD 0 ≠ 0 ∧ x = a.getLastD 0 := by
  have h := head?_eq_some_iff (x := x) (fun h => h0 (List.mem_reverse.mp h))
  rwa [List.headD_eq_head?_getD, List.head?_reverse, ← List.getLastD_eq_getLast?] at h

/-- A segment in two parts. -/
theorem seg_append : ∀ {a : List Nat} {p : Nat},
    Seg m p (a ++ b) q ↔ Seg m p a (b.headD q) ∧ Seg m (a.getLastD p) b q
  | [], p => by simp [Seg]
  | x :: a, p => by
    simp only [List.cons_append, Seg, seg_append (a := a), headD_append, List.getLastD_cons]
    tauto

/-- A segment is about its own nodes. -/
theorem Seg.congr : ∀ {l : List Nat} {p : Nat}, Seg m p l q →
    (∀ x ∈ l, m'.prev x = m.prev x ∧ m'.next x = m.next x) → Seg m' p l q
  | [], _, _, _ => trivial
  | x :: l, _, h, hsame => by
    obtain ⟨h1, h2, h3⟩ := h
    obtain ⟨hp, hn⟩ := hsame x List.mem_cons_self
    exact ⟨hp.trans h1, hn.trans h2, h3.congr fun y hy => hsame y (List.mem_cons_of_mem x hy)⟩

/-- Another node before the first: one link of it changes. -/
theorem Seg.retargetHead (h : Seg m p l q) (hnd : l.Nodup) (hhead : ∀ x ∈ l.head?, m'.prev x = p')
    (hprev : ∀ x ∈ l, l.head? ≠ some x → m'.prev x = m.prev x)
    (hnext : ∀ x ∈ l, m'.next x = m.next x) : Seg m' p' l q := by
  cases l with
  | nil => trivial
  | cons x l =>
    obtain ⟨-, h2, h3⟩ := h
    obtain ⟨hx, -⟩ := List.nodup_cons.mp hnd
    refine ⟨hhead x rfl, (hnext x List.mem_cons_self).trans h2, h3.congr fun y hy => ⟨?_, ?_⟩⟩
    · refine hprev y (List.mem_cons_of_mem x hy) fun heq => ?_
      obtain rfl : x = y := Option.some.inj heq
      exact hx hy
    · exact hnext y (List.mem_cons_of_mem x hy)

/-- Read backwards, a segment is one for the exchanged links. -/
theorem Seg.reverse : ∀ {l : List Nat} {p : Nat}, Seg m p l q → Seg m.swap q l.reverse p
  | [], _, _ => trivial
  | x :: l, p, ⟨h1, h2, h3⟩ => by
    rw [List.reverse_cons, seg_append]
    refine ⟨h3.reverse, ?_, ?_, trivial⟩
    · show m.next x = l.reverse.getLastD q
      rw [h2, List.getLastD_eq_getLast?, List.getLast?_reverse, List.headD_eq_head?_getD]
    · exact h1

/-- Another node behind the last: one link of it changes. -/
theorem Seg.retargetLast (h : Seg m p l q) (hnd : l.Nodup) (hlast : ∀ x ∈ l.getLast?, m'.next x = q')
    (hnext : ∀ x ∈ l, l.getLast? ≠ some x → m'.next x = m.next x)
    (hprev : ∀ x ∈ l, m'.prev x = m.prev x) : Seg m' p l q' := by
  have hback : Seg m'.swap q' l.reverse p := by
    refine h.reverse.retargetHead (List.nodup_reverse.mpr hnd) ?_ ?_ ?_
    · intro x hx
      rw [List.head?_reverse] at hx
      exact hlast x hx
    · intro x hx hne
      rw [List.head?_reverse] at hne
      exact hnext x (List.mem_reverse.mp hx) hne
    · exact fun x hx => hprev x (List.mem_reverse.mp hx)
  have hforth := hback.reverse
  rwa [List.reverse_reverse] at hforth

/-- Following the forward links from the first node of a chain yields the list. -/
theorem Seg.follow_next : ∀ {l : List Nat} {p n : Nat}, Seg m p l 0 → 0 ∉ l → l.length ≤ n →
    Links.follow m.next n (l.headD 0) = l
  | [], _, 0, _, _, _ => rfl
  | [], _, _ + 1, _, _, _ => rfl
  | x :: l, _, 0, _, _, hn => absurd hn (Nat.not_succ_le_zero _)
  | x :: l, _, n + 1, ⟨_, h2, h3⟩, h0, hn => by
    have hx : x ≠ 0 := fun h => h0 (h ▸ List.mem_cons_self)
    have hrest := h3.follow_next (fun h => h0 (List.mem_cons_of_mem x h)) (Nat.le_of_succ_le_succ hn)
    show (if x = 0 then [] else x :: Links.follow m.next n (m.next x)) = x :: l
    rw [if_neg hx, h2, hrest]

/-- Following the backward links from the last node yields the list backwards. -/
theorem Seg.follow_prev {n : Nat} (h : Seg m 0 l q) (h0 : 0 ∉ l) (hn : l.length ≤ n) :
    Links.follow m.prev n (l.getLastD 0) = l.reverse := by
  have hback := h.reverse.follow_next (n := n) (fun h => h0 (List.mem_reverse.mp h))
    (by rw [List.length_reverse]; exact hn)
  rwa [List.headD_eq_head?_getD, List.head?_reverse, ← List.getLastD_eq_getLast?] at hback

/-! ## Putting a node in and taking one out -/

/-- What writing the links of a node between `a` and `b` leaves: the node and its neighbours are linked, no
other link has changed. -/
structure Put (m m' : Links) (a : List Nat) (n : Nat) (b : List Nat) : Prop where
  prev_new : m'.prev n = a.getLastD 0
  next_new : m'.next n = b.headD 0
  last : ∀ x ∈ a.getLast?, m'.next x = n
  head : ∀ x ∈ b.head?, m'.prev x = n
  prev_eq : ∀ x, x ≠ n → b.head? ≠ some x → m'.prev x = m.prev x
  next_eq : ∀ x, x ≠ n → a.getLast? ≠ some x → m'.next x = m.next x

/-- What bypassing a node between `a` and `b` leaves: its neighbours are linked, no other link has
changed. -/
structure Cut (m m' : Links) (a b : List Nat) : Prop where
  last : ∀ x ∈ a.getLast?, m'.next x = b.headD 0
  head : ∀ x ∈ b.head?, m'.prev x = a.getLastD 0
  prev_eq : ∀ x, b.head? ≠ some x → m'.prev x = m.prev x
  next_eq : ∀ x, a.getLast? ≠ some x → m'.next x = m.next x

section

variable {n : Nat}

theorem head?_ne {b : List Nat} (h : x ∉ b) : b.head? ≠ some x :=
  fun hx => h (List.mem_of_head? hx)

theorem getLast?_ne {a : List Nat} (h : x ∉ a) : a.getLast? ≠ some x :=
  fun hx => h (List.mem_of_getLast? hx)

/-- The chain with the new node. -/
theorem Put.seg (hput : Put m m' a n b) (h : Seg m 0 (a ++ b) 0) (hnd : (a ++ b).Nodup)
    (hn : n ∉ a ++ b) : Seg m' 0 (a ++ n :: b) 0 := by
  obtain ⟨ha, hb, hab⟩ := List.nodup_append.mp hnd
  obtain ⟨h1, h2⟩ := seg_append.mp h
  have hna : ∀ x ∈ a, x ≠ n := fun x hx hxn => hn (hxn ▸ List.mem_append_left b hx)
  have hnb : ∀ x ∈ b, x ≠ n := fun x hx hxn => hn (hxn ▸ List.mem_append_right a hx)
  refine seg_append.mpr ⟨?_, hput.prev_new, hput.next_new, ?_⟩
  · refine h1.retargetLast ha hput.last ?_ ?_
    · exact fun x hx hne => hput.next_eq x (hna x hx) hne
    · exact fun x hx => hput.prev_eq x (hna x hx) (head?_ne fun hxb => hab x hx x hxb rfl)
  · refine h2.retargetHead hb hput.head ?_ ?_
    · exact fun x hx hne => hput.prev_eq x (hnb x hx) hne
    · exact fun x hx => hput.next_eq x (hnb x hx) (getLast?_ne fun hxa => hab x hxa x hx rfl)

/-- The same read backwards. -/
theorem Put.swap (hput : Put m.swap m'.swap b.reverse n a.reverse) : Put m m' a n b where
  prev_new := by
    rw [List.getLastD_eq_getLast?, ← List.head?_reverse, ← List.headD_eq_head?_getD]
    exact hput.next_new
  next_new := by
    rw [List.headD_eq_head?_getD, ← List.getLast?_reverse, ← List.getLastD_eq_getLast?]
    exact hput.prev_new
  last := by
    rw [← List.head?_reverse]
    exact hput.head
  head := by
    rw [← List.getLast?_reverse]
    exact hput.last
  prev_eq := by
    rw [← List.getLast?_reverse]
    exact hput.next_eq
  next_eq := by
    rw [← List.head?_reverse]
    exact hput.prev_eq

/-- Another chain is as it was. -/
theorem Put.frame (hput : Put m m' a n b) (h : Seg m p l q) (hl : ∀ x ∈ l, x ∉ a ++ n :: b) :
    Seg m' p l q := by
  refine h.congr fun x hx => ?_
  have hx' := hl x hx
  rw [List.mem_append, List.mem_cons, not_or, not_or] at hx'
  obtain ⟨hxa, hxn, hxb⟩ := hx'
  exact ⟨hput.prev_eq x hxn (head?_ne hxb), hput.next_eq x hxn (getLast?_ne hxa)⟩

/-- The chain without the node. -/
theorem Cut.seg (hcut : Cut m m' a b) (h : Seg m 0 (a ++ n :: b) 0) (hnd : (a ++ n :: b).Nodup) :
    Seg m' 0 (a ++ b) 0 := by
  obtain ⟨ha, hnb, hab⟩ := List.nodup_append.mp hnd
  obtain ⟨-, hb⟩ := List.nodup_cons.mp hnb
  obtain ⟨h1, -, -, h2⟩ := seg_append.mp h
  have hdisj : ∀ x ∈ a, x ∉ b := fun x hxa hxb => hab x hxa x (List.mem_cons_of_mem n hxb) rfl
  refine seg_append.mpr ⟨?_, ?_⟩
  · refine h1.retargetLast ha hcut.last ?_ ?_
    · exact fun x _ hne => hcut.next_eq x hne
    · exact fun x hx => hcut.prev_eq x (head?_ne (hdisj x hx))
  · refine h2.retargetHead hb hcut.head ?_ ?_
    · exact fun x _ hne => hcut.prev_eq x hne
    · exact fun x hx => hcut.next_eq x (getLast?_ne fun hxa => hdisj x hxa hx)

/-- Another chain is as it was. -/
theorem Cut.frame (hcut : Cut m m' a b) (h : Seg m p l q) (hl : ∀ x ∈ l, x ∉ a ++ b) :
    Seg m' p l q := by
  refine h.congr fun x hx => ?_
  have hx' := hl x hx
  rw [List.mem_append, not_or] at hx'
  exact ⟨hcut.prev_eq x (head?_ne hx'.2), hcut.next_eq x (getLast?_ne hx'.1)⟩

/-- What the links of a node of a chain are. -/
theorem Seg.neighbours (h : Seg m 0 (a ++ n :: b) 0) :
    m.prev n = a.getLastD 0 ∧ m.next n = b.headD 0 := by
  obtain ⟨-, h1, h2, -⟩ := seg_append.mp h
  exact ⟨h1, h2⟩

end

end Lib
end Wrmos
