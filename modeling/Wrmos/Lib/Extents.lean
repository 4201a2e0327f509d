import Mathlib.Logic.Function.Basic
import Mathlib.Tactic.ByCases

/-!
# Extents of memory

A partial map from addresses to sizes: at every address of its domain an extent of that size begins.
`Apart` says that no two extents share a byte.  An extent may be put into a gap, cut in two, and joined
with the one that begins where it ends (`Apart.insert`, `Apart.cut`, `Apart.join`).
-/

namespace Wrmos
namespace Lib

/-- Where extents begin, with their sizes. -/
abbrev Extents := Nat → Option Nat

namespace Extents

/-- No two extents overlap. -/
def Apart (m : Extents) : Prop :=
  ∀ a b s t, m a = some s → m b = some t → a ≠ b → a + s ≤ b ∨ b + t ≤ a

variable {m : Extents} {a b s t : Nat}

theorem Apart.insert (h : Apart m) (hgap : ∀ b t, m b = some t → b ≠ a → a + s ≤ b ∨ b + t ≤ a) :
    Apart (Function.update m a (some s)) := by
  intro x y sx sy hx hy hne
  by_cases hxa : x = a
  · subst hxa
    rw [Function.update_self] at hx
    obtain rfl := Option.some.inj hx
    rw [Function.update_of_ne hne.symm] at hy
    exact hgap y sy hy hne.symm
  · rw [Function.update_of_ne hxa] at hx
    by_cases hya : y = a
    · subst hya
      rw [Function.update_self] at hy
      obtain rfl := Option.some.inj hy
      exact (hgap x sx hx hne).symm
    · rw [Function.update_of_ne hya] at hy
      exact h x y sx sy hx hy hne

theorem Apart.remove (h : Apart m) : Apart (Function.update m a none) := by
  intro x y sx sy hx hy hne
  by_cases hxa : x = a
  · subst hxa
    rw [Function.update_self] at hx
    cases hx
  · rw [Function.update_of_ne hxa] at hx
    by_cases hya : y = a
    · subst hya
      rw [Function.update_self] at hy
      cases hy
    · rw [Function.update_of_ne hya] at hy
      exact h x y sx sy hx hy hne

/-- No other extent begins inside an extent. -/
theorem Apart.eq_none (h : Apart m) (ha : m a = some s) (hab : a < b) (hbs : b < a + s)
    (hpos : ∀ x t, m x = some t → 0 < t) : m b = none := by
  cases hb : m b with
  | none => rfl
  | some t =>
    have hne : a ≠ b := Nat.ne_of_lt hab
    have ht := hpos b t hb
    rcases h a b s t ha hb hne with h1 | h1 <;> omega

/-- An extent is cut in two. -/
theorem Apart.cut (h : Apart m) (ha : m a = some (s + t)) (hs : 0 < s) :
    Apart (Function.update (Function.update m a (some s)) (a + s) (some t)) := by
  have hfirst : Apart (Function.update m a (some s)) := by
    refine h.insert fun b u hb hne => ?_
    rcases h a b (s + t) u ha hb hne.symm with h1 | h1 <;> omega
  refine hfirst.insert fun b u hb hne => ?_
  by_cases hba : b = a
  · subst hba
    rw [Function.update_self] at hb
    obtain rfl := Option.some.inj hb
    exact .inr (Nat.le_refl _)
  · rw [Function.update_of_ne hba] at hb
    rcases h a b (s + t) u ha hb (Ne.symm hba) with h1 | h1 <;> omega

/-- Two extents, one behind the other, become one. -/
theorem Apart.join (h : Apart m) (ha : m a = some s) (hb : m (a + s) = some t) :
    Apart (Function.update (Function.update m (a + s) none) a (some (s + t))) := by
  refine h.remove.insert fun b u hu hne => ?_
  have hbs : b ≠ a + s := by
    rintro rfl
    rw [Function.update_self] at hu
    cases hu
  rw [Function.update_of_ne hbs] at hu
  have h1 := h a b s u ha hu (Ne.symm hne)
  have h2 := h (a + s) b t u hb hu (Ne.symm hbs)
  omega

end Extents

end Lib
end Wrmos
