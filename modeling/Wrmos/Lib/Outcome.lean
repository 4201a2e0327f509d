import Mathlib.Logic.Basic

/-!
# Computations that may stop, and runs of a fallible machine

The code this library is used for is written in `Except ε`: a step either returns the next
state or stops.  Three things are provided.

* `bind_eq_ok` and `ensure_eq_ok` take a successful computation apart: what its first half
  returned, and which checks it passed.
* `Post` is partial correctness: what a computation returns, if it returns, satisfies the
  postcondition.  The rules follow the shape of the code.  `StopsIn` is the other half: with which errors
  a computation stops.
* `runAll` iterates a fallible step over a list of events, `Meets` says that every step of the
  run is taken from a state and with an event in a given relation, and `runAll_invariant` is the
  induction: what holds at the start and is kept by every step that meets the condition holds at
  the end.
-/

namespace Wrmos
namespace Lib

variable {ε α β : Type}

/-- A bind succeeds exactly when both halves do. -/
theorem bind_eq_ok {x : Except ε α} {f : α → Except ε β} {r : β} :
    (x >>= f) = .ok r ↔ ∃ a, x = .ok a ∧ f a = .ok r := by
  cases x <;> simp [bind, Except.bind]

/-- Go on when the check holds, stop with `e` when it does not. -/
def ensure (c : Prop) [Decidable c] (e : ε) : Except ε Unit :=
  if c then .ok () else .error e

@[simp] theorem ensure_eq_ok {c : Prop} [Decidable c] {e : ε} {u : Unit} :
    ensure c e = .ok u ↔ c := by
  unfold ensure
  split <;> simp_all

theorem ensure_bind_eq_ok {c : Prop} [Decidable c] {e : ε} {f : Unit → Except ε β} {r : β} :
    (ensure c e >>= f) = .ok r ↔ c ∧ f () = .ok r := by
  rw [bind_eq_ok]
  constructor
  · rintro ⟨u, hu, hf⟩
    exact ⟨ensure_eq_ok.mp hu, hf⟩
  · rintro ⟨hc, hf⟩
    exact ⟨(), ensure_eq_ok.mpr hc, hf⟩

theorem map_eq_ok {x : Except ε α} {f : α → β} {r : β} (h : x.map f = .ok r) :
    ∃ a, x = .ok a ∧ f a = r := by
  cases x with
  | error e => cases h
  | ok a => exact ⟨a, rfl, Except.ok.inj h⟩

theorem mapError_eq_ok {ε' : Type} {x : Except ε α} {f : ε → ε'} {a : α} :
    x.mapError f = .ok a ↔ x = .ok a := by
  cases x with
  | error e => exact iff_of_false nofun nofun
  | ok b => exact ⟨fun h => congrArg _ (Except.ok.inj h), fun h => congrArg _ (Except.ok.inj h)⟩

theorem ensure_bind_of {c : Prop} [Decidable c] {e : ε} {f : Unit → Except ε β} (h : c) :
    (ensure c e >>= f) = f () := by
  unfold ensure
  rw [if_pos h]
  rfl

theorem ensure_bind_of_not {c : Prop} [Decidable c] {e : ε} {f : Unit → Except ε β} (h : ¬ c) :
    (ensure c e >>= f) = .error e := by
  unfold ensure
  rw [if_neg h]
  rfl

theorem ok_bind (a : α) (f : α → Except ε β) : (Except.ok a >>= f) = f a := rfl

/-- Whether the computation returns a result with the property. -/
def okAnd (x : Except ε α) (p : α → Bool) : Bool :=
  match x with
  | .ok a => p a
  | .error _ => false

theorem okAnd_iff {x : Except ε α} {p : α → Bool} :
    okAnd x p = true ↔ ∃ a, x = .ok a ∧ p a = true := by
  cases x with
  | ok a => simp [okAnd]
  | error e => simp [okAnd]

/-- The same for a computation that may not take place. -/
theorem any_okAnd_iff {x : Option (Except ε α)} {p : α → Bool} :
    x.any (fun r => okAnd r p) = true ↔ ∃ a, x = some (.ok a) ∧ p a = true := by
  rw [Option.any_eq_true]
  constructor
  · rintro ⟨r, hx, hr⟩
    obtain ⟨a, rfl, ha⟩ := okAnd_iff.mp hr
    exact ⟨a, hx, ha⟩
  · rintro ⟨a, hx, ha⟩
    exact ⟨_, hx, okAnd_iff.mpr ⟨a, rfl, ha⟩⟩

/-! ## Postconditions -/

/-- What the computation returns satisfies `P`. -/
def Post (x : Except ε α) (P : α → Prop) : Prop := ∀ a, x = .ok a → P a

namespace Post

variable {P Q : α → Prop} {x : Except ε α}

theorem ok {a : α} (h : P a) : Post (.ok a : Except ε α) P :=
  fun _ hb => Except.ok.inj hb ▸ h

theorem iff_of_ok {a : α} (h : x = .ok a) : Post x P ↔ P a := by
  rw [h]
  exact ⟨fun hp => hp a rfl, ok⟩

theorem pure {a : α} (h : P a) : Post (Pure.pure a : Except ε α) P := ok h

theorem error {e : ε} : Post (.error e : Except ε α) P := nofun

theorem mono (h : Post x P) (hPQ : ∀ a, P a → Q a) : Post x Q := fun a ha => hPQ a (h a ha)

theorem bind {f : α → Except ε β} {R : β → Prop} (h : Post x P)
    (hf : ∀ a, P a → Post (f a) R) : Post (x >>= f) R := by
  intro b hb
  obtain ⟨a, ha, hb⟩ := bind_eq_ok.mp hb
  exact hf a (h a ha) b hb

/-- The rule for a first half that nothing is said about. -/
theorem bind_any {f : α → Except ε β} {R : β → Prop}
    (hf : ∀ a, x = .ok a → Post (f a) R) : Post (x >>= f) R :=
  bind (P := fun a => x = .ok a) (fun _ ha => ha) hf

theorem ensure {c : Prop} [Decidable c] {e : ε} {f : Unit → Except ε β} {R : β → Prop}
    (hf : c → Post (f ()) R) : Post (ensure c e >>= f) R := by
  intro b hb
  obtain ⟨hc, hb⟩ := ensure_bind_eq_ok.mp hb
  exact hf hc b hb

theorem ite {c : Prop} [Decidable c] {y : Except ε α} (ht : c → Post x P) (he : ¬ c → Post y P) :
    Post (if c then x else y) P := by
  split
  · exact ht ‹_›
  · exact he ‹_›

end Post

/-- Whether the result satisfies `P` is decided by computing it. -/
instance decidablePost {x : Except ε α} {P : α → Prop} [DecidablePred P] : Decidable (Post x P) :=
  match x with
  | .ok a => decidable_of_iff (P a) ⟨.ok, fun h => h a rfl⟩
  | .error _ => isTrue nofun

/-! ## How a computation stops -/

/-- If the computation stops, then with one of the errors in `E`. -/
def StopsIn (x : Except ε α) (E : ε → Prop) : Prop := ∀ e, x = .error e → E e

namespace StopsIn

variable {E : ε → Prop} {x : Except ε α}

theorem ok {a : α} : StopsIn (.ok a : Except ε α) E := nofun

theorem error {e : ε} (h : E e) : StopsIn (.error e : Except ε α) E :=
  fun _ he => Except.error.inj he ▸ h

theorem bind {f : α → Except ε β} (h : StopsIn x E) (hf : ∀ a, x = .ok a → StopsIn (f a) E) :
    StopsIn (x >>= f) E := by
  cases x with
  | error e => exact error (h e rfl)
  | ok a => exact hf a rfl

theorem ensure {c : Prop} [Decidable c] {e : ε} {f : Unit → Except ε β} (he : E e)
    (hf : c → StopsIn (f ()) E) : StopsIn (ensure c e >>= f) E := by
  by_cases hc : c
  · rw [ensure_bind_of hc]
    exact hf hc
  · rw [ensure_bind_of_not hc]
    exact error he

theorem ite {c : Prop} [Decidable c] {y : Except ε α} (ht : c → StopsIn x E) (he : ¬ c → StopsIn y E) :
    StopsIn (if c then x else y) E := by
  split
  · exact ht ‹_›
  · exact he ‹_›

end StopsIn

/-! ## Runs -/

section Run

variable {σ ι : Type} (step : σ → ι → Except ε σ)

/-- Take the steps of a list of events one after another. -/
def runAll : σ → List ι → Except ε σ
  | s, [] => .ok s
  | s, e :: es => step s e >>= fun s' => runAll s' es

/-- Every step of the run from `s` along `es` is taken in a state and with an event that meet
`C`. -/
def Meets (C : σ → ι → Prop) : σ → List ι → Prop
  | _, [] => True
  | s, e :: es => C s e ∧ ∀ s', step s e = .ok s' → Meets C s' es

variable {step}

/-- **The run rule.**  An invariant of every step that meets `C` is an invariant of every run
whose steps all meet `C`. -/
theorem runAll_invariant {I : σ → Prop} {C : σ → ι → Prop}
    (hstep : ∀ s e s', I s → C s e → step s e = .ok s' → I s') :
    ∀ {es : List ι} {s s' : σ}, I s → Meets step C s es → runAll step s es = .ok s' → I s'
  | [], s, s', hs, _, h => by
    have hss : s = s' := by simpa [runAll] using h
    exact hss ▸ hs
  | e :: es, s, s', hs, hC, h => by
    obtain ⟨t, ht, hrest⟩ := bind_eq_ok.mp h
    exact runAll_invariant hstep (hstep s e t hs hC.1 ht) (hC.2 t ht) hrest

/-- A run stops as its steps do, under an invariant of the steps that meet `C`. -/
theorem StopsIn.runAll {I : σ → Prop} {C : σ → ι → Prop} {E : ε → Prop}
    (hstep : ∀ s e s', I s → C s e → step s e = .ok s' → I s')
    (hstop : ∀ s e, I s → C s e → StopsIn (step s e) E) :
    ∀ {es : List ι} {s : σ}, I s → Meets step C s es → StopsIn (runAll step s es) E
  | [], _, _, _ => StopsIn.ok
  | e :: _, s, hs, hC => StopsIn.bind (hstop s e hs hC.1) fun t ht =>
    StopsIn.runAll hstep hstop (hstep s e t hs hC.1 ht) (hC.2 t ht)

/-- Under an invariant, a run whose steps all meet one condition meets what follows from it. -/
theorem Meets.of_invariant {I : σ → Prop} {C D : σ → ι → Prop}
    (hstep : ∀ s e s', I s → C s e → step s e = .ok s' → I s')
    (hD : ∀ s e, I s → C s e → D s e) :
    ∀ {es : List ι} {s : σ}, I s → Meets step C s es → Meets step D s es
  | [], _, _, _ => trivial
  | e :: _, s, hs, hC => ⟨hD s e hs hC.1, fun s' hs' =>
    Meets.of_invariant hstep hD (hstep s e s' hs hC.1 hs') (hC.2 s' hs')⟩

/-- A run whose steps all meet a condition under which a step is taken is taken to its end. -/
theorem Meets.exists_ok {C : σ → ι → Prop} (hok : ∀ s e, C s e → ∃ s', step s e = .ok s') :
    ∀ {es : List ι} {s : σ}, Meets step C s es → ∃ s', runAll step s es = .ok s'
  | [], s, _ => ⟨s, rfl⟩
  | e :: _, s, hC => by
    obtain ⟨t, ht⟩ := hok s e hC.1
    obtain ⟨s', hs'⟩ := Meets.exists_ok hok (hC.2 t ht)
    exact ⟨s', bind_eq_ok.mpr ⟨t, ht, hs'⟩⟩

/-- A condition that the events meet in every state is met by every run. -/
theorem meets_of_forall {C : σ → ι → Prop} :
    ∀ {es : List ι} {s : σ}, (∀ e ∈ es, ∀ s, C s e) → Meets step C s es
  | [], _, _ => trivial
  | e :: _, s, h => ⟨h e List.mem_cons_self s, fun _ _ =>
    meets_of_forall fun e' he' => h e' (List.mem_cons_of_mem e he')⟩

/-- A condition on the events alone can be added to the one a run meets. -/
theorem Meets.and {C : σ → ι → Prop} {P : ι → Prop} :
    ∀ {es : List ι} {s : σ}, Meets step C s es → (∀ e ∈ es, P e) →
      Meets step (fun s e => P e ∧ C s e) s es
  | [], _, _, _ => trivial
  | e :: _, _, h, hP => ⟨⟨hP e List.mem_cons_self, h.1⟩, fun s' hs' =>
    (h.2 s' hs').and fun e' he' => hP e' (List.mem_cons_of_mem e he')⟩

/-- Every run meets the condition that asks for nothing. -/
theorem meets_true (es : List ι) (s : σ) : Meets step (fun _ _ => True) s es :=
  meets_of_forall fun _ _ _ => trivial

/-- Whether a run meets a condition is decided by following it. -/
instance decidableMeets {C : σ → ι → Prop} [∀ s e, Decidable (C s e)] :
    ∀ s es, Decidable (Meets step C s es)
  | _, [] => isTrue trivial
  | s, e :: es =>
    match h : step s e with
    | .error _ => decidable_of_iff (C s e) ⟨fun hc => ⟨hc, fun _ hs => nomatch h.symm.trans hs⟩, And.left⟩
    | .ok s' =>
      have := decidableMeets (C := C) s' es
      decidable_of_iff (C s e ∧ Meets step C s' es)
        ⟨fun hc => ⟨hc.1, fun _ hs => Except.ok.inj (h.symm.trans hs) ▸ hc.2⟩,
          fun hc => ⟨hc.1, hc.2 s' h⟩⟩

/-- The run rule for an invariant that every step keeps. -/
theorem runAll_invariant_of_step {I : σ → Prop}
    (hstep : ∀ s e s', I s → step s e = .ok s' → I s') {es : List ι} {s s' : σ}
    (hs : I s) (h : runAll step s es = .ok s') : I s' :=
  runAll_invariant (C := fun _ _ => True) (fun s e s' hi _ => hstep s e s' hi) hs
    (meets_true es s) h

end Run

end Lib
end Wrmos
