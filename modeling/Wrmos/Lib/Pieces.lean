import Mathlib.Data.List.Basic

/-!
# The pieces of a list between separators

`List.splitOn` cuts a list at a separator.  Here its pieces are counted from the end: piece 0 is what
follows the last separator, and the last piece is what precedes the first one.

`Bounds` says where a piece stands: between a separator or the start on its left, and a separator or the end
on its right, with a number of separators from its right end on.  Every number of separators that the list
has bounds a piece (`exists_bounds`), and no other (`piece_eq_none`).
-/

namespace Wrmos
namespace Lib

variable {α : Type} [DecidableEq α] {a : α} {t u v s : List α} {k : Nat}

/-- The pieces of a list, counted from the end. -/
def piece (a : α) (t : List α) (k : Nat) : Option (List α) := (t.splitOn a).reverse[k]?

/-- A list ends with the separator or is empty. -/
def Opens (a : α) (u : List α) : Prop := u = [] ∨ ∃ u', u = u' ++ [a]

/-- What follows a piece: nothing for piece 0, and for another one a separator and the pieces behind it. -/
def Closes (a : α) (v : List α) : Nat → Prop
  | 0 => v = []
  | k + 1 => ∃ v', v = a :: v' ∧ v'.count a = k

/-- The piece `s` is number `k` of `u ++ s ++ v`. -/
structure Bounds (a : α) (u s v : List α) (k : Nat) : Prop where
  notMem : a ∉ s
  opens : Opens a u
  closes : Closes a v k

variable (a t) in
theorem length_splitOn : (t.splitOn a).length = t.count a + 1 := by
  induction t with
  | nil => rfl
  | cons x t ih =>
    rw [List.splitOn_cons_eq_if_modifyHead, List.count_cons]
    split <;> simp [ih]

/-- A list with a separator, cut at the last one. -/
theorem exists_last (h : a ∈ t) : ∃ u s, t = u ++ a :: s ∧ a ∉ s := by
  induction t with
  | nil => simp at h
  | cons x t ih =>
    by_cases ht : a ∈ t
    · obtain ⟨u, s, rfl, hs⟩ := ih ht
      exact ⟨x :: u, s, rfl, hs⟩
    · obtain rfl := (List.mem_cons.mp h).resolve_right ht
      exact ⟨[], t, rfl, ht⟩

theorem Closes.snoc (h : Closes a v k) (hs : a ∉ s) : Closes a (v ++ a :: s) (k + 1) := by
  cases k with
  | zero =>
    obtain rfl : v = [] := h
    exact ⟨s, rfl, List.count_eq_zero.mpr hs⟩
  | succ k =>
    obtain ⟨v', rfl, hk⟩ := h
    refine ⟨v' ++ a :: s, rfl, ?_⟩
    simp [List.count_eq_zero.mpr hs, hk]

/-- **Every piece has its bounds.** -/
theorem exists_bounds (h : k ≤ t.count a) : ∃ u s v, t = u ++ s ++ v ∧ Bounds a u s v k := by
  induction k generalizing t with
  | zero =>
    by_cases ht : a ∈ t
    · obtain ⟨u, s, rfl, hs⟩ := exists_last ht
      exact ⟨u ++ [a], s, [], by simp, hs, .inr ⟨u, rfl⟩, rfl⟩
    · exact ⟨[], t, [], by simp, ht, .inl rfl, rfl⟩
  | succ k ih =>
    have ht : a ∈ t := List.count_pos_iff.mp (Nat.lt_of_lt_of_le (Nat.succ_pos k) h)
    obtain ⟨w, s', rfl, hs'⟩ := exists_last ht
    have hk : k ≤ w.count a := by
      rw [List.count_append, List.count_cons_self, List.count_eq_zero.mpr hs'] at h
      omega
    obtain ⟨u, s, v, rfl, hb⟩ := ih hk
    exact ⟨u, s, v ++ a :: s', by simp, hb.notMem, hb.opens, hb.closes.snoc hs'⟩

theorem Closes.count (h : Closes a v k) : v.count a = k := by
  cases k with
  | zero =>
    obtain rfl : v = [] := h
    rfl
  | succ k =>
    obtain ⟨v', rfl, hk⟩ := h
    simp [hk]

theorem Bounds.count (h : Bounds a u s v k) : (u ++ s ++ v).count a = u.count a + k := by
  rw [List.count_append, List.count_append, List.count_eq_zero.mpr h.notMem, h.closes.count]
  rfl

/-- The last piece of a list that ends with a piece. -/
theorem splitOn_opens (hs : a ∉ s) (hu : Opens a u) : ∃ l, (u ++ s).splitOn a = l ++ [s] := by
  rcases hu with rfl | ⟨u', rfl⟩
  · exact ⟨[], List.splitOn_eq_singleton hs⟩
  · refine ⟨u'.splitOn a, ?_⟩
    rw [List.append_assoc, List.singleton_append, List.splitOn_append_cons_self,
      List.splitOn_eq_singleton hs]

/-- **The piece between the bounds.** -/
theorem Bounds.piece (h : Bounds a u s v k) : piece a (u ++ s ++ v) k = some s := by
  obtain ⟨l, hl⟩ := splitOn_opens h.notMem h.opens
  unfold Lib.piece
  cases k with
  | zero =>
    obtain rfl : v = [] := h.closes
    rw [List.append_nil, hl]
    simp
  | succ k =>
    obtain ⟨v', rfl, hk⟩ := h.closes
    have hlen : (v'.splitOn a).reverse.length = k + 1 := by
      rw [List.length_reverse, length_splitOn, hk]
    rw [List.splitOn_append_cons_self, hl, List.reverse_append,
      List.getElem?_append_right (Nat.le_of_eq hlen), hlen, Nat.sub_self]
    simp

/-- There are no more pieces than separators, and one. -/
theorem piece_eq_none : piece a t k = none ↔ t.count a < k := by
  unfold piece
  rw [List.getElem?_eq_none_iff, List.length_reverse, length_splitOn]
  exact Nat.succ_le_iff

end Lib
end Wrmos
