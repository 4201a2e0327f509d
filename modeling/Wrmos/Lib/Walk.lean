import Wrmos.Lib.Outcome

/-!
# Walks

A loop that walks from one place to the next, carries a state, and may return early.  Every place is nearer to
the end than the one before, so that the number of rounds is bounded by a measure of the first.  The walk is
taken to its end exactly when the body is taken at every place that is visited (`walk_ok_iff`).
-/

namespace Wrmos
namespace Lib

variable {σ τ β ε : Type}

section Walk

variable (next : τ → Option τ) (body : σ → τ → Except ε (Option β × σ)) (stuck : ε) (done : β)

/-- The loop.  The body may return a value; after the last place the value is `done`. -/
def walk : Nat → σ → τ → Except ε (β × σ)
  | 0, _, _ => .error stuck
  | rounds + 1, s, p => do
    let (ret, s) ← body s p
    match ret with
    | some b => .ok (b, s)
    | none =>
      match next p with
      | none => .ok (done, s)
      | some p => walk rounds s p

/-- The condition is met at every place that the loop visits. -/
def Visits (C : σ → τ → Prop) : Nat → σ → τ → Prop
  | 0, _, _ => True
  | rounds + 1, s, p => C s p ∧ ∀ s', body s p = .ok (none, s') → ∀ q, next p = some q → Visits C rounds s' q

instance decidableVisits {C : σ → τ → Prop} [∀ s p, Decidable (C s p)] :
    ∀ rounds s p, Decidable (Visits next body C rounds s p)
  | 0, _, _ => isTrue trivial
  | rounds + 1, s, p =>
    match hb : body s p, hn : next p with
    | .ok (none, s'), some q =>
      have := decidableVisits (C := C) rounds s' q
      decidable_of_iff (C s p ∧ Visits next body C rounds s' q)
        ⟨fun h => ⟨h.1, fun t ht r hr => by
            obtain ⟨-, rfl⟩ := Prod.mk.inj (Except.ok.inj (hb.symm.trans ht))
            obtain rfl := Option.some.inj (hn.symm.trans hr)
            exact h.2⟩,
          fun h => ⟨h.1, h.2 s' hb q hn⟩⟩
    | .ok (none, _), none =>
      decidable_of_iff (C s p) ⟨fun h => ⟨h, fun _ _ _ hr => nomatch hn.symm.trans hr⟩, And.left⟩
    | .ok (some _, _), _ =>
      decidable_of_iff (C s p)
        ⟨fun h => ⟨h, fun _ ht => nomatch (Prod.mk.inj (Except.ok.inj (hb.symm.trans ht))).1⟩, And.left⟩
    | .error _, _ =>
      decidable_of_iff (C s p) ⟨fun h => ⟨h, fun _ ht => nomatch hb.symm.trans ht⟩, And.left⟩

variable {next body stuck done}

/-- An invariant of the body holds after the loop. -/
theorem walk_invariant {I : σ → Prop} (hbody : ∀ s p b s', I s → body s p = .ok (b, s') → I s')
    {rounds : Nat} {s s' : σ} {p : τ} {b : β} (hs : I s)
    (h : walk next body stuck done rounds s p = .ok (b, s')) : I s' := by
  induction rounds generalizing s p with
  | zero => cases h
  | succ rounds ih =>
    obtain ⟨⟨ret, t⟩, ht, h⟩ := bind_eq_ok.mp h
    have hinv : I t := hbody _ _ _ _ hs ht
    cases ret with
    | some b' =>
      obtain ⟨-, rfl⟩ := Prod.mk.inj (Except.ok.inj h)
      exact hinv
    | none =>
      cases hn : next p with
      | none =>
        dsimp only at h
        rw [hn] at h
        obtain ⟨-, rfl⟩ := Prod.mk.inj (Except.ok.inj h)
        exact hinv
      | some q =>
        dsimp only at h
        rw [hn] at h
        exact ih hinv h

/-- **The loop ends** exactly when the body is taken at every place that is visited. -/
theorem walk_ok_iff {I : σ → Prop} {C : σ → τ → Prop} {size : τ → Nat}
    (hnext : ∀ p q, next p = some q → size q < size p)
    (hbody : ∀ s p, I s → (C s p ↔ ∃ r, body s p = .ok r))
    (hinv : ∀ s p b s', I s → body s p = .ok (b, s') → I s') {rounds : Nat} {s : σ} {p : τ} (hs : I s)
    (hrounds : size p < rounds) :
    (∃ r, walk next body stuck done rounds s p = .ok r) ↔ Visits next body C rounds s p := by
  induction rounds generalizing s p with
  | zero => exact absurd hrounds (Nat.not_lt_zero _)
  | succ rounds ih =>
    unfold Visits
    rw [hbody s p hs]
    constructor
    · rintro ⟨r, h⟩
      obtain ⟨⟨ret, t⟩, ht, h⟩ := bind_eq_ok.mp h
      refine ⟨⟨_, ht⟩, fun t' ht' q hq => ?_⟩
      obtain ⟨rfl, rfl⟩ := Prod.mk.inj (Except.ok.inj (ht.symm.trans ht'))
      have hlt := hnext p q hq
      dsimp only at h
      rw [hq] at h
      exact (ih (hinv _ _ _ _ hs ht) (by omega)).mp ⟨r, h⟩
    · rintro ⟨⟨⟨ret, t⟩, ht⟩, hrest⟩
      cases ret with
      | some b => exact ⟨(b, t), bind_eq_ok.mpr ⟨_, ht, rfl⟩⟩
      | none =>
        cases hq : next p with
        | none =>
          refine ⟨(done, t), bind_eq_ok.mpr ⟨_, ht, ?_⟩⟩
          dsimp only
          rw [hq]
        | some q =>
          have hlt := hnext p q hq
          obtain ⟨r, hr⟩ := (ih (hinv _ _ _ _ hs ht) (by omega)).mpr (hrest t ht q hq)
          refine ⟨r, bind_eq_ok.mpr ⟨_, ht, ?_⟩⟩
          dsimp only
          rw [hq]
          exact hr

/-- A condition that holds everywhere. -/
theorem visits_of_forall {C : σ → τ → Prop} (h : ∀ s p, C s p) (rounds : Nat) (s : σ) (p : τ) :
    Visits next body C rounds s p := by
  induction rounds generalizing s p with
  | zero => exact trivial
  | succ rounds ih => exact ⟨h s p, fun s' _ q _ => ih s' q⟩

end Walk

end Lib
end Wrmos
