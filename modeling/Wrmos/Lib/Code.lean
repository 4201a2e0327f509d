import Wrmos.Lib.Outcome

/-!
# Code on shared memory, one access at a time

`Code σ ρ` is a program that works on a memory `σ` and returns a `ρ`.  Each step reads the memory and
writes it; `eval` is what the program does when nobody comes in between.  `Code` is a monad, and `eval` of
a program that is put together from others is what they do one after the other.

`runAll_simulation` is the rule by which a machine that takes such steps is compared with one that takes a
whole program in one step.
-/

namespace Wrmos.Lib

/-- A program.  A step writes `f m` where it read `m`, and goes on as `k` says of what it read. -/
inductive Code (σ ρ : Type) where
  | ret (r : ρ)
  | step (f : σ → σ) (k : σ → Code σ ρ)

namespace Code

variable {σ ρ α : Type}

/-- The result of a program that runs alone, and the memory then. -/
def eval : Code σ ρ → σ → ρ × σ
  | ret r, m => (r, m)
  | step f k, m => (k m).eval (f m)

/-- What is left of a program after some steps, and the memory then. -/
def after : Nat → Code σ ρ → σ → Code σ ρ × σ
  | 0, c, m => (c, m)
  | _ + 1, ret r, m => (ret r, m)
  | n + 1, step f k, m => after n (k m) (f m)

def bind : Code σ α → (α → Code σ ρ) → Code σ ρ
  | ret a, g => g a
  | step f k, g => step f fun m => (k m).bind g

instance : Monad (Code σ) where
  pure := ret
  bind := bind

/-- An access that reads. -/
def read (g : σ → α) : Code σ α := step id fun m => ret (g m)

/-- An access that writes. -/
def write (f : σ → σ) : Code σ Unit := step f fun _ => ret ()

@[simp] theorem eval_pure (r : ρ) (m : σ) : (pure r : Code σ ρ).eval m = (r, m) := rfl

@[simp] theorem eval_read (g : σ → α) (m : σ) : (read g).eval m = (g m, m) := rfl

@[simp] theorem eval_write (f : σ → σ) (m : σ) : (write f).eval m = ((), f m) := rfl

@[simp] theorem eval_bind (c : Code σ α) (g : α → Code σ ρ) (m : σ) :
    (c >>= g).eval m = (g (c.eval m).1).eval (c.eval m).2 := by
  change (c.bind g).eval m = _
  induction c generalizing m with
  | ret a => rfl
  | step f k ih => exact ih m (f m)

@[simp] theorem eval_map (g : α → ρ) (c : Code σ α) (m : σ) :
    (g <$> c).eval m = (g (c.eval m).1, (c.eval m).2) := eval_bind c (pure ∘ g) m

end Code

section Simulation

variable {ε σ τ ι κ : Type} {step : σ → ι → Except ε σ} {step' : τ → κ → Except ε τ}

theorem runAll_append {es es' : List κ} {t t' : τ} (h : runAll step' t es = .ok t') :
    runAll step' t (es ++ es') = runAll step' t' es' := by
  induction es generalizing t with
  | nil =>
    obtain rfl : t = t' := Except.ok.inj h
    rfl
  | cons e es ih =>
    obtain ⟨u, hu, hrest⟩ := bind_eq_ok.mp h
    calc runAll step' t (e :: es ++ es')
        = (step' t e >>= fun u => runAll step' u (es ++ es')) := rfl
      _ = runAll step' u (es ++ es') := by rw [hu, ok_bind]
      _ = runAll step' t' es' := ih hrest

theorem runAll_append_ok {es es' : List κ} {t t' t'' : τ} (h : runAll step' t es = .ok t')
    (h' : runAll step' t' es' = .ok t'') : runAll step' t (es ++ es') = .ok t'' :=
  (runAll_append h).trans h'

/-- What a machine comes to, another one comes to as well: the same end, or the same error. -/
def Follows (step' : τ → κ → Except ε τ) (R : σ → τ → Prop) (t : τ) (x : Except ε σ) : Prop :=
  match x with
  | .ok s => ∃ es t', runAll step' t es = .ok t' ∧ R s t'
  | .error e => ∃ es, runAll step' t es = .error e

namespace Follows

variable {R : σ → τ → Prop} {s : σ} {t t' : τ} {e : κ} {err : ε}

/-- Nothing has to be done. -/
theorem none (h : R s t) : Follows step' R t (.ok s) := ⟨[], t, rfl, h⟩

theorem one (hstep : step' t e = .ok t') (h : R s t') : Follows step' R t (.ok s) := by
  refine ⟨[e], t', ?_, h⟩
  unfold runAll
  rw [hstep]
  rfl

theorem error (hstep : step' t e = .error err) : Follows step' R t (.error err) := by
  refine ⟨[e], ?_⟩
  unfold runAll
  rw [hstep]
  rfl

end Follows

/-- **The simulation rule.** -/
theorem runAll_simulation {R : σ → τ → Prop}
    (hstep : ∀ s t e, R s t → Follows step' R t (step s e)) :
    ∀ (es : List ι) {s : σ} {t : τ}, R s t → Follows step' R t (runAll step s es)
  | [], _, _, hR => .none hR
  | e :: es, s, t, hR => by
    have hfirst := hstep s t e hR
    cases hs : step s e with
    | error err =>
      rw [hs] at hfirst
      change Follows step' R t (step s e >>= fun s' => runAll step s' es)
      rw [hs]
      exact hfirst
    | ok s' =>
      rw [hs] at hfirst
      obtain ⟨ks, t', hks, hR'⟩ := hfirst
      have hrest := runAll_simulation hstep es hR'
      change Follows step' R t (step s e >>= fun s' => runAll step s' es)
      rw [hs, ok_bind]
      cases hrun : runAll step s' es with
      | error err =>
        rw [hrun] at hrest
        obtain ⟨ks', hks'⟩ := hrest
        exact ⟨ks ++ ks', (runAll_append hks).trans hks'⟩
      | ok s'' =>
        rw [hrun] at hrest
        obtain ⟨ks', t'', hks', hR''⟩ := hrest
        exact ⟨ks ++ ks', t'', (runAll_append hks).trans hks', hR''⟩

end Simulation

end Wrmos.Lib
