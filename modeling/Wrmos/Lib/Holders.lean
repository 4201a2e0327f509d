import Mathlib.Data.List.Nodup
import Mathlib.Data.List.Perm.Basic

/-!
# What a list of holders holds

A list of holders, and for each of them a list of the things it holds.  `heldBy` has all of them,
with repetitions: that a thing has one owner is that it occurs there once.

An operation changes what one holder holds, adds a holder or removes one, so the rules take one
holder out of the list: `heldBy_perm` splits off what it holds, and `heldBy_update` does so after
a change that leaves the others alone.
-/

namespace Wrmos
namespace Lib

variable {ι α : Type} {ids : List ι} {f g : ι → List α} {i : ι} {a : α}

/-- Everything the holders hold. -/
def heldBy (ids : List ι) (f : ι → List α) : List α := ids.flatMap f

theorem heldBy_congr (h : ∀ j ∈ ids, g j = f j) : heldBy ids g = heldBy ids f := by
  unfold heldBy
  rw [List.flatMap_def, List.flatMap_def, List.map_congr_left h]

/-- A new holder. -/
theorem heldBy_concat : heldBy (ids ++ [i]) f = heldBy ids f ++ f i := by
  simp [heldBy]

variable [DecidableEq ι]

/-- What one holder holds, and what the others hold. -/
theorem heldBy_perm (hi : i ∈ ids) : (heldBy ids f).Perm (f i ++ heldBy (ids.erase i) f) :=
  (List.perm_cons_erase hi).flatMap_right f

/-- One holder has changed. -/
theorem heldBy_update (hids : ids.Nodup) (hi : i ∈ ids) (h : ∀ j ∈ ids, j ≠ i → g j = f j) :
    (heldBy ids g).Perm (g i ++ heldBy (ids.erase i) f) := by
  refine (heldBy_perm hi).trans (List.Perm.append_left _ (.of_eq (heldBy_congr fun j hj => ?_)))
  obtain ⟨hne, hmem⟩ := hids.mem_erase_iff.mp hj
  exact h j hmem hne

/-- What is left when a holder goes. -/
theorem heldBy_erase (hids : ids.Nodup) (h : ∀ j ∈ ids, j ≠ i → g j = f j) :
    heldBy (ids.erase i) g = heldBy (ids.erase i) f := by
  refine heldBy_congr fun j hj => ?_
  obtain ⟨hne, hmem⟩ := hids.mem_erase_iff.mp hj
  exact h j hmem hne

/-- One holder gives something to a list beside the holders, or takes something from it. -/
theorem perm_heldBy_update {p p' : List α} (hids : ids.Nodup) (hi : i ∈ ids)
    (h : ∀ j ∈ ids, j ≠ i → g j = f j) (hperm : (p ++ f i).Perm (p' ++ g i)) :
    (p ++ heldBy ids f).Perm (p' ++ heldBy ids g) := by
  refine ((heldBy_perm hi).append_left p).trans (.trans ?_ ((heldBy_update hids hi h).append_left p').symm)
  rw [← List.append_assoc, ← List.append_assoc]
  exact hperm.append_right _

end Lib
end Wrmos
