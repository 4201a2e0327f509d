import Wrmos.Lib.Trace
import Mathlib.Data.Finset.Card
import Mathlib.Data.List.Nodup

/-!
# Sets of positions

A set of positions below `cap`, from which the least free position can be taken and the least taken one
freed.  It answers a call with a position, or with nothing when there is none, and with the number of its
positions behind the call.

The positions that were handed out and not given back since are all different (`held_nodup`).  `find_blocks`
is for sets that are kept in words: looking through one word after another, and then through the tail,
finds what looking through all positions does.
-/

namespace Wrmos
namespace Lib

/-- Search block by block, and then in what is left. -/
theorem find_blocks (P : Nat → Bool) (w rest : Nat) (f : Nat → Option Nat) (full : Nat)
    (h : ∀ i < full, f i = ((List.range w).find? fun j => P (i * w + j)).map (i * w + ·)) :
    ((List.range full).findSome? f).or
        (((List.range rest).find? fun j => P (full * w + j)).map (full * w + ·)) =
      (List.range (full * w + rest)).find? P := by
  have happend : ∀ m n, (List.range (m + n)).find? P =
      ((List.range m).find? P).or (((List.range n).find? fun j => P (m + j)).map (m + ·)) := by
    intro m n
    rw [List.range_add, List.find?_append, List.find?_map]
    rfl
  have hblocks : ∀ {full : Nat},
      (∀ i < full, f i = ((List.range w).find? fun j => P (i * w + j)).map (i * w + ·)) →
      (List.range full).findSome? f = (List.range (full * w)).find? P := by
    intro full
    induction full with
    | zero =>
      intro _
      rw [Nat.zero_mul]
      rfl
    | succ full ih =>
      intro h
      rw [List.range_succ, List.findSome?_append, ih fun i hi => h i (Nat.lt_succ_of_lt hi),
        Nat.succ_mul, happend]
      congr 1
      rw [List.findSome?_singleton]
      exact h full (Nat.lt_succ_self full)
  rw [hblocks h, happend]

namespace Slots

variable {cap p : Nat} {S : Finset Nat} {L : List Nat}

/-- The calls. -/
inductive Op where
  | set (pos : Nat)
  | clear (pos : Nat)
  | getfree
  | getbusy
  deriving DecidableEq, Repr

/-- The least position below `cap` with a property. -/
def least (cap : Nat) (P : Nat → Bool) : Option Nat := (List.range cap).find? P

/-- The least position is the least one. -/
theorem least_eq_some {P : Nat → Bool} :
    least cap P = some p ↔ p < cap ∧ P p = true ∧ ∀ q < p, P q = false := by
  unfold least
  rw [List.find?_range_eq_some, List.mem_range]
  constructor
  · rintro ⟨hp, hlt, hmin⟩
    exact ⟨hlt, hp, fun q hq => by simpa using hmin q hq⟩
  · rintro ⟨hlt, hp, hmin⟩
    exact ⟨hp, hlt, fun q hq => by simpa using hmin q hq⟩

/-- There is none when no position has the property. -/
theorem least_eq_none {P : Nat → Bool} : least cap P = none ↔ ∀ q < cap, P q = false := by
  simp [least]

/-- The set behind a call, and the answer without the number of positions. -/
def act (cap : Nat) (S : Finset Nat) : Op → Finset Nat × Option Nat
  | .set pos => if pos < cap then (insert pos S, some 0) else (S, none)
  | .clear pos => if pos < cap then (S.erase pos, some 0) else (S, none)
  | .getfree =>
    match least cap fun p => p ∉ S with
    | some p => (insert p S, some p)
    | none => (S, none)
  | .getbusy =>
    match least cap fun p => p ∈ S with
    | some p => (S.erase p, some p)
    | none => (S, none)

/-- A call. -/
def step (cap : Nat) (S : Finset Nat) (op : Op) : Finset Nat × (Option Nat × Nat) :=
  ((act cap S op).1, (act cap S op).2, (act cap S op).1.card)

/-! ## The positions handed out -/

/-- Note a call and its answer in the list of the positions handed out. -/
def note (L : List Nat) : Op → Option Nat → List Nat
  | .getfree, some p => p :: L
  | .getbusy, some p => L.erase p
  | .clear p, _ => L.erase p
  | _, _ => L

/-- The positions handed out and not given back. -/
def held : List Nat → List Op → List (Option Nat) → List Nat
  | L, op :: ops, r :: rs => held (note L op r) ops rs
  | L, _, _ => L

/-- The positions are different, and in the set. -/
structure Held (S : Finset Nat) (L : List Nat) : Prop where
  nodup : L.Nodup
  mem : ∀ p ∈ L, p ∈ S

theorem Held.insert (h : Held S L) (p : Nat) : Held (insert p S) L :=
  ⟨h.nodup, fun q hq => Finset.mem_insert_of_mem (h.mem q hq)⟩

theorem Held.erase (h : Held S L) (p : Nat) : Held (S.erase p) (L.erase p) := by
  refine ⟨h.nodup.erase p, fun q hq => ?_⟩
  obtain ⟨hne, hq⟩ := h.nodup.mem_erase_iff.mp hq
  exact Finset.mem_erase.mpr ⟨hne, h.mem q hq⟩

/-- A position that is not in the set is not among those handed out. -/
theorem Held.cons (h : Held S L) (hp : p ∉ S) : Held (Insert.insert p S) (p :: L) := by
  refine ⟨List.nodup_cons.mpr ⟨fun hin => hp (h.mem p hin), h.nodup⟩, fun q hq => ?_⟩
  rcases List.mem_cons.mp hq with rfl | hq
  · exact Finset.mem_insert_self _ _
  · exact Finset.mem_insert_of_mem (h.mem q hq)

/-- A call keeps the positions that are handed out different. -/
theorem held_act (h : Held S L) : ∀ op, Held (act cap S op).1 (note L op (act cap S op).2)
  | .set pos => by
    show Held (if pos < cap then _ else _ : Finset Nat × Option Nat).1 L
    split
    · exact h.insert pos
    · exact h
  | .clear pos => by
    show Held (if pos < cap then _ else _ : Finset Nat × Option Nat).1 (L.erase pos)
    split
    · exact h.erase pos
    · exact ⟨h.nodup.erase pos, fun q hq => h.mem q (List.mem_of_mem_erase hq)⟩
  | .getfree => by
    unfold act
    cases hp : least cap fun p => p ∉ S with
    | none => exact h
    | some p => exact h.cons (by simpa using (least_eq_some.mp hp).2.1)
  | .getbusy => by
    unfold act
    cases hp : least cap fun p => p ∈ S with
    | none => exact h
    | some p => exact h.erase p

/-- **No position is handed out twice**: in every run those held are pairwise different. -/
theorem held_nodup : ∀ (ops : List Op) {S : Finset Nat} {L : List Nat}, Held S L →
    (held L ops ((trace (step cap) S ops).map Prod.fst)).Nodup
  | [], _, _, h => h.nodup
  | op :: ops, _, _, h => held_nodup ops (held_act h op)

end Slots
end Lib
end Wrmos
