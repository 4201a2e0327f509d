import Mathlib.Data.List.Basic
import Mathlib.Logic.Function.Basic

/-!
# Ring buffers

A queue in `n` slots with a read and a write pointer.  The queue is empty when the pointers are equal, so
at most `n - 1` elements are in it.  `toList` is the queue as a list, in the order of arrival, and each
operation does to it what it does to lists: `push` appends, `pop` takes the head, `remove` erases the
first occurrence of an element by moving the elements behind it, and `contains` looks for one.
-/

namespace Wrmos
namespace Lib

variable {α : Type}

/-- The slots, the read pointer and the write pointer. -/
structure Ring (α : Type) where
  slot : Nat → α
  rp : Nat
  wp : Nat

namespace Ring

/-- The slot behind a slot. -/
def next (n p : Nat) : Nat := if p + 1 = n then 0 else p + 1

/-- The slot `i` slots behind a slot. -/
def idx (n p i : Nat) : Nat := if p + i < n then p + i else p + i - n

/-- How many slots `q` lies behind `p`. -/
def dist (n p q : Nat) : Nat := if p ≤ q then q - p else q + n - p

/-- The elements of `k` slots from `p` on. -/
def walk (n : Nat) (slot : Nat → α) : Nat → Nat → List α
  | 0, _ => []
  | k + 1, p => slot p :: walk n slot k (next n p)

/-- The number of elements. -/
def len (n : Nat) (r : Ring α) : Nat := if r.rp ≤ r.wp then r.wp - r.rp else r.wp + n - r.rp

/-- The queue. -/
def toList (n : Nat) (r : Ring α) : List α := walk n r.slot (r.len n) r.rp

/-- The pointers point to slots. -/
structure Wf (n : Nat) (r : Ring α) : Prop where
  rp : r.rp < n
  wp : r.wp < n

/-- Append an element; `none` when the queue is full. -/
def push (n : Nat) (x : α) (r : Ring α) : Option (Ring α) :=
  if next n r.wp = r.rp then none
  else some { r with slot := Function.update r.slot r.wp x, wp := next n r.wp }

/-- Take the first element. -/
def pop (n : Nat) (r : Ring α) : Option (α × Ring α) :=
  if r.wp = r.rp then none else some (r.slot r.rp, { r with rp := next n r.rp })

section Eq

variable [DecidableEq α]

/-- The loop of `contains`. -/
def containsFrom (n : Nat) (r : Ring α) (x : α) : Nat → Nat → Bool
  | 0, _ => false
  | k + 1, p =>
    if p = r.wp then false
    else if r.slot p = x then true
    else containsFrom n r x k (next n p)

/-- Look for an element. -/
def contains (n : Nat) (r : Ring α) (x : α) : Bool := containsFrom n r x n r.rp

/-- The loop of `remove`: from the element on, each slot gets the element of the next one. -/
def shiftFrom (n wp : Nat) (x : α) : Nat → (Nat → α) → Nat → Bool → (Nat → α) × Bool
  | 0, slot, _, found => (slot, found)
  | k + 1, slot, p, found =>
    if p = wp then (slot, found)
    else
      let found := found || slot p = x
      let slot := if found then Function.update slot p (slot (next n p)) else slot
      shiftFrom n wp x k slot (next n p) found

/-- Erase an element, and say whether it was there. -/
def remove (n : Nat) (x : α) (r : Ring α) : Bool × Ring α :=
  let s := shiftFrom n r.wp x n r.slot r.rp false
  (s.2, { r with slot := s.1, wp := if s.2 then (if r.wp = 0 then n - 1 else r.wp - 1) else r.wp })

end Eq

variable {n p q d k : Nat} {r r' : Ring α} {x : α} {slot slot' : Nat → α}

/-! ## Slots -/

theorem next_lt (hp : p < n) : next n p < n := by
  unfold next
  split_ifs <;> omega

/-- A slot is where counting from another one leads, once around the ring or not. -/
theorem idx_eq (hq : q < n) (h : p + d = q ∨ p + d = q + n) : idx n p d = q := by
  unfold idx
  split_ifs <;> omega

theorem idx_cases (n p d : Nat) : p + d = idx n p d ∨ p + d = idx n p d + n := by
  unfold idx
  split_ifs <;> omega

theorem dist_eq (hq : q < n) (hd : d < n) (h : p + d = q ∨ p + d = q + n) : dist n p q = d := by
  unfold dist
  split_ifs <;> omega

theorem idx_zero (hp : p < n) : idx n p 0 = p := by
  unfold idx
  rw [Nat.add_zero, if_pos hp]

theorem idx_next (hd : d < n) : idx n (next n p) d = idx n p (d + 1) := by
  unfold idx next
  split_ifs <;> omega

theorem next_idx (hp : p < n) (hd : d < n) : next n (idx n p d) = idx n p (d + 1) := by
  unfold idx next
  split_ifs <;> omega

/-- Once around the ring. -/
theorem idx_self (n p : Nat) : idx n p n = p := by
  unfold idx
  split_ifs <;> omega

theorem idx_lt (hp : p < n) (hd : d < n) : idx n p d < n := by
  unfold idx
  split_ifs <;> omega

theorem idx_inj (hd : d < n) (hk : k < n) (h : idx n p d = idx n p k) : d = k := by
  unfold idx at h
  split_ifs at h <;> omega

theorem idx_len (h : r.Wf n) : idx n r.rp (r.len n) = r.wp ∧ r.len n < n := by
  obtain ⟨h1, h2⟩ := h
  unfold idx len
  split_ifs <;> constructor <;> omega

theorem length_walk : ∀ {k p : Nat}, (walk n slot k p).length = k
  | 0, _ => rfl
  | _ + 1, _ => congrArg (· + 1) length_walk

theorem walk_congr : ∀ {k p : Nat}, p < n → k ≤ n → (∀ j < k, slot' (idx n p j) = slot (idx n p j)) →
    walk n slot' k p = walk n slot k p
  | 0, _, _, _, _ => rfl
  | k + 1, p, hp, hk, h => by
    have h0 := h 0 (Nat.succ_pos k)
    rw [idx_zero hp] at h0
    have hrest : walk n slot' k (next n p) = walk n slot k (next n p) := by
      refine walk_congr (next_lt hp) (by omega) fun j hj => ?_
      rw [idx_next (by omega)]
      exact h (j + 1) (by omega)
    rw [walk, walk, h0, hrest]

theorem walk_succ_last : ∀ {k p : Nat}, p < n → k < n →
    walk n slot (k + 1) p = walk n slot k p ++ [slot (idx n p k)]
  | 0, p, hp, _ => by rw [idx_zero hp]; rfl
  | k + 1, p, hp, hk => by
    have ih := walk_succ_last (next_lt hp) (k := k) (by omega)
    rw [idx_next (by omega)] at ih
    rw [walk, ih]
    rfl

/-- The walk over slots that were moved. -/
theorem walk_shift : ∀ {k p : Nat}, p < n → k < n →
    (∀ j < k, slot' (idx n p j) = slot (idx n (next n p) j)) →
    walk n slot' k p = walk n slot k (next n p)
  | 0, _, _, _, _ => rfl
  | k + 1, p, hp, hk, h => by
    have h0 := h 0 (Nat.succ_pos k)
    rw [idx_zero hp, idx_zero (next_lt hp)] at h0
    have hrest : walk n slot' k (next n p) = walk n slot k (next n (next n p)) := by
      refine walk_shift (next_lt hp) (by omega) fun j hj => ?_
      rw [idx_next (p := p) (by omega), h (j + 1) (by omega), idx_next (p := next n p) (by omega)]
    rw [walk, walk, h0, hrest]

/-! ## The operations as operations on lists -/

theorem toList_push (h : r.Wf n) (hr : r.push n x = some r') :
    r'.Wf n ∧ r'.toList n = r.toList n ++ [x] := by
  unfold push at hr
  split_ifs at hr with hfull
  obtain rfl := Option.some.inj hr
  obtain ⟨hidx, hlen⟩ := idx_len h
  refine ⟨⟨h.rp, next_lt h.wp⟩, ?_⟩
  have hlen' : len n { r with slot := Function.update r.slot r.wp x, wp := next n r.wp } =
      r.len n + 1 := by
    obtain ⟨h1, h2⟩ := h
    unfold len next at *
    dsimp only
    split_ifs at * <;> omega
  unfold toList
  rw [hlen']
  dsimp only
  rw [walk_succ_last h.rp hlen, hidx, Function.update_self]
  congr 1
  refine walk_congr h.rp (by omega) fun j hj => Function.update_of_ne ?_ _ _
  rw [← hidx]
  intro he
  exact absurd (idx_inj (by omega) hlen he) (by omega)

theorem toList_eq_nil (h : r.Wf n) : r.toList n = [] ↔ r.wp = r.rp := by
  have hlen : r.len n = 0 ↔ r.wp = r.rp := by
    obtain ⟨h1, h2⟩ := h
    unfold len
    split_ifs <;> omega
  rw [← hlen, ← List.length_eq_zero_iff, toList, length_walk]

theorem toList_pop (h : r.Wf n) (hr : r.pop n = some (x, r')) :
    r'.Wf n ∧ r.toList n = x :: r'.toList n := by
  unfold pop at hr
  split_ifs at hr with hempty
  obtain ⟨rfl, rfl⟩ := Prod.mk.inj (Option.some.inj hr)
  refine ⟨⟨next_lt h.rp, h.wp⟩, ?_⟩
  have hlen : r.len n = len n { r with rp := next n r.rp } + 1 := by
    obtain ⟨h1, h2⟩ := h
    unfold len next
    dsimp only
    split_ifs <;> omega
  unfold toList
  rw [hlen]
  rfl

section Eq

variable [DecidableEq α]

theorem containsFrom_eq : ∀ {d k p : Nat}, p < n → d < n → d ≤ k → idx n p d = r.wp →
    containsFrom n r x k p = decide (x ∈ walk n r.slot d p)
  | 0, k, p, hp, _, _, hend => by
    rw [idx_zero hp] at hend
    cases k with
    | zero => rfl
    | succ k =>
      unfold containsFrom
      rw [if_pos hend]
      rfl
  | d + 1, 0, _, _, _, hk, _ => absurd hk (by omega)
  | d + 1, k + 1, p, hp, hd, hk, hend => by
    have hne : p ≠ r.wp := by
      rintro rfl
      have h0 := idx_inj hd (k := 0) (by omega) (hend.trans (idx_zero hp).symm)
      omega
    rw [← idx_next (by omega)] at hend
    have ih := containsFrom_eq (next_lt hp) (by omega) (Nat.le_of_succ_le_succ hk) hend
    unfold containsFrom
    rw [if_neg hne, ih, walk]
    by_cases hx : r.slot p = x
    · simp [hx]
    · rw [if_neg hx]
      simp [Ne.symm hx]

theorem contains_eq (h : r.Wf n) : r.contains n x = decide (x ∈ r.toList n) := by
  obtain ⟨hidx, hlen⟩ := idx_len h
  exact containsFrom_eq h.rp hlen (Nat.le_of_lt hlen) hidx

/-- Behind the element every slot gets the element of the next one. -/
theorem shiftFrom_found {wp : Nat} : ∀ {d k p : Nat} (slot : Nat → α), p < n → d < n → d ≤ k →
    idx n p d = wp →
    (shiftFrom n wp x k slot p true).2 = true ∧
      (∀ j < d, (shiftFrom n wp x k slot p true).1 (idx n p j) = slot (idx n p (j + 1))) ∧
      ∀ q, (∀ j < d, q ≠ idx n p j) → (shiftFrom n wp x k slot p true).1 q = slot q
  | 0, k, p, slot, hp, _, _, hend => by
    rw [idx_zero hp] at hend
    cases k with
    | zero => exact ⟨rfl, fun _ hj => absurd hj (Nat.not_lt_zero _), fun _ _ => rfl⟩
    | succ k =>
      unfold shiftFrom
      rw [if_pos hend]
      exact ⟨rfl, fun _ hj => absurd hj (Nat.not_lt_zero _), fun _ _ => rfl⟩
  | d + 1, 0, _, _, _, _, hk, _ => absurd hk (by omega)
  | d + 1, k + 1, p, slot, hp, hd, hk, hend => by
    have hne : p ≠ wp := by
      rintro rfl
      have h0 := idx_inj hd (k := 0) (by omega) (hend.trans (idx_zero hp).symm)
      omega
    rw [← idx_next (by omega)] at hend
    obtain ⟨hfound, hshift, hoff⟩ := shiftFrom_found
      (Function.update slot p (slot (next n p))) (next_lt hp) (by omega)
      (Nat.le_of_succ_le_succ hk) hend
    have hstep : shiftFrom n wp x (k + 1) slot p true =
        shiftFrom n wp x k (Function.update slot p (slot (next n p))) (next n p) true := by
      rw [shiftFrom, if_neg hne]
      rfl
    rw [hstep]
    -- the slot itself is not among those behind it
    have hself : ∀ j < d, p ≠ idx n (next n p) j := by
      intro j hj he
      rw [idx_next (by omega)] at he
      have h0 := idx_inj (d := 0) (by omega) (by omega) ((idx_zero hp).trans he)
      omega
    refine ⟨hfound, fun j hj => ?_, fun q hq => ?_⟩
    · cases j with
      | zero =>
        rw [idx_zero hp, hoff p hself, Function.update_self, ← idx_next (by omega),
          idx_zero (next_lt hp)]
      | succ j =>
        rw [← idx_next (by omega), hshift j (by omega), idx_next (by omega)]
        refine Function.update_of_ne ?_ _ _
        intro he
        have h0 := idx_inj (by omega) (k := 0) (by omega) (he.trans (idx_zero hp).symm)
        omega
    · rw [hoff q fun j hj => ?_, Function.update_of_ne ?_]
      · have h0 := hq 0 (Nat.succ_pos d)
        rwa [idx_zero hp] at h0
      · rw [idx_next (by omega)]
        exact hq (j + 1) (by omega)

/-- The loop erases the first occurrence of the element. -/
theorem shiftFrom_spec {wp : Nat} : ∀ {d k p : Nat} (slot : Nat → α), p < n → d < n → d ≤ k →
    idx n p d = wp →
    (shiftFrom n wp x k slot p false).2 = decide (x ∈ walk n slot d p) ∧
      (x ∈ walk n slot d p →
        walk n (shiftFrom n wp x k slot p false).1 (d - 1) p = (walk n slot d p).erase x) ∧
      (x ∉ walk n slot d p → (shiftFrom n wp x k slot p false).1 = slot) ∧
      ∀ q, (∀ j < d, q ≠ idx n p j) → (shiftFrom n wp x k slot p false).1 q = slot q
  | 0, k, p, slot, hp, _, _, hend => by
    rw [idx_zero hp] at hend
    have hstop : shiftFrom n wp x k slot p false = (slot, false) := by
      cases k with
      | zero => rfl
      | succ k =>
        unfold shiftFrom
        rw [if_pos hend]
    rw [hstop]
    exact ⟨rfl, fun h => absurd h List.not_mem_nil, fun _ => rfl, fun _ _ => rfl⟩
  | d + 1, 0, _, _, _, _, hk, _ => absurd hk (by omega)
  | d + 1, k + 1, p, slot, hp, hd, hk, hend => by
    have hne : p ≠ wp := by
      rintro rfl
      have h0 := idx_inj hd (k := 0) (by omega) (hend.trans (idx_zero hp).symm)
      omega
    have hbehind : ∀ {j}, j < d → p ≠ idx n (next n p) j := by
      intro j hj he
      rw [idx_next (by omega)] at he
      have h0 := idx_inj (d := 0) (by omega) (by omega) ((idx_zero hp).trans he)
      omega
    have hoff' : ∀ {q}, (∀ j < d + 1, q ≠ idx n p j) → q ≠ p ∧ ∀ j < d, q ≠ idx n (next n p) j := by
      intro q hq
      refine ⟨?_, fun j hj => ?_⟩
      · have h0 := hq 0 (Nat.succ_pos d)
        rwa [idx_zero hp] at h0
      · rw [idx_next (by omega)]
        exact hq (j + 1) (by omega)
    rw [← idx_next (by omega)] at hend
    rw [shiftFrom, if_neg hne, Bool.false_or, walk]
    by_cases hx : slot p = x
    · -- the element is here: from now on everything moves
      have hnew : (if decide (slot p = x) = true then Function.update slot p (slot (next n p))
          else slot) = Function.update slot p (slot (next n p)) := if_pos (decide_eq_true hx)
      dsimp only
      rw [hnew, decide_eq_true hx]
      obtain ⟨hfound, hshift, hoff⟩ := shiftFrom_found (x := x) (k := k) (d := d)
        (Function.update slot p (slot (next n p))) (next_lt hp) (by omega)
        (Nat.le_of_succ_le_succ hk) hend
      refine ⟨?_, fun _ => ?_, fun hnot => absurd (hx ▸ List.mem_cons_self) hnot, fun q hq => ?_⟩
      · rw [hfound, hx]
        exact (decide_eq_true List.mem_cons_self).symm
      · rw [Nat.add_sub_cancel, hx, List.erase_cons_head]
        have hmove : ∀ j < d, (shiftFrom n wp x k (Function.update slot p (slot (next n p)))
            (next n p) true).1 (idx n p j) = slot (idx n (next n p) j) := by
          intro j hj
          cases j with
          | zero => rw [idx_zero hp, hoff p fun i hi => hbehind hi, Function.update_self,
              idx_zero (next_lt hp)]
          | succ j =>
            rw [← idx_next (by omega), hshift j (by omega)]
            exact Function.update_of_ne (hbehind (by omega)).symm _ _
        refine walk_shift hp (by omega) hmove
      · obtain ⟨hqp, hqs⟩ := hoff' hq
        rw [hoff q hqs, Function.update_of_ne hqp]
    · have hnew : (if decide (slot p = x) = true then Function.update slot p (slot (next n p))
          else slot) = slot := if_neg (by simpa using hx)
      dsimp only
      rw [hnew, decide_eq_false hx]
      obtain ⟨hfound, herase, hsame, hoff⟩ := shiftFrom_spec slot (next_lt hp) (by omega)
        (Nat.le_of_succ_le_succ hk) hend
      have hmem : x ∈ slot p :: walk n slot d (next n p) ↔ x ∈ walk n slot d (next n p) := by
        rw [List.mem_cons]
        exact or_iff_right (Ne.symm hx)
      refine ⟨?_, fun hin => ?_, fun hnot => hsame fun h => hnot (hmem.mpr h), fun q hq => ?_⟩
      · rw [hfound]
        exact decide_eq_decide.mpr hmem.symm
      · have hin' := hmem.mp hin
        obtain ⟨d, rfl⟩ : ∃ e, d = e + 1 := by
          cases d with
          | zero => exact absurd hin' List.not_mem_nil
          | succ e => exact ⟨e, rfl⟩
        rw [List.erase_cons_tail (by simpa using hx), ← herase hin', Nat.add_sub_cancel,
          Nat.add_sub_cancel, walk, hoff p fun j hj => hbehind hj]
      · exact hoff q (hoff' hq).2

theorem toList_remove (h : r.Wf n) :
    (r.remove n x).1 = decide (x ∈ r.toList n) ∧ (r.remove n x).2.Wf n ∧
      (r.remove n x).2.toList n = (r.toList n).erase x := by
  obtain ⟨hidx, hlen⟩ := idx_len h
  obtain ⟨hfound, herase, hsame, -⟩ := shiftFrom_spec (x := x) r.slot h.rp hlen
    (Nat.le_of_lt hlen) hidx
  have hrem : r.remove n x = ((shiftFrom n r.wp x n r.slot r.rp false).2,
      { r with
        slot := (shiftFrom n r.wp x n r.slot r.rp false).1
        wp := if (shiftFrom n r.wp x n r.slot r.rp false).2 then
          (if r.wp = 0 then n - 1 else r.wp - 1) else r.wp }) := rfl
  rw [hrem]
  dsimp only
  rw [hfound]
  refine ⟨rfl, ⟨h.rp, ?_⟩, ?_⟩
  · have h2 := h.wp
    dsimp only
    split_ifs <;> omega
  · by_cases hin : x ∈ walk n r.slot (r.len n) r.rp
    · have hpos : 0 < r.len n := by
        cases hl : r.len n with
        | zero =>
          rw [hl] at hin
          exact absurd hin List.not_mem_nil
        | succ k => exact Nat.succ_pos k
      rw [if_pos (decide_eq_true hin)]
      unfold toList
      rw [← herase hin]
      congr 1
      obtain ⟨h1, h2⟩ := h
      unfold len at hpos ⊢
      dsimp only
      split_ifs at * <;> omega
    · rw [if_neg (by simpa using hin), hsame hin]
      exact (List.erase_of_not_mem hin).symm

end Eq

end Ring

end Lib
end Wrmos
