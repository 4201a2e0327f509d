import Mathlib.Data.List.Basic

/-!
# What a machine answers

A machine takes calls one after another and answers each.  `trace` are the answers to a list of calls and
`final` is the state behind them.  Two machines that stay in a relation, and answer alike in related
states, answer every list of calls alike: this is how an implementation is shown to be as good as its
specification.
-/

namespace Wrmos
namespace Lib

variable {σ τ ι ω : Type} {f : σ → ι → σ × ω} {g : τ → ι → τ × ω}

/-- The answers to a list of calls. -/
def trace (f : σ → ι → σ × ω) : σ → List ι → List ω
  | _, [] => []
  | s, e :: es => (f s e).2 :: trace f (f s e).1 es

/-- The state behind a list of calls. -/
def final (f : σ → ι → σ × ω) : σ → List ι → σ
  | s, [] => s
  | s, e :: es => final f (f s e).1 es

theorem trace_append (f : σ → ι → σ × ω) : ∀ (es es' : List ι) (s : σ),
    trace f s (es ++ es') = trace f s es ++ trace f (final f s es) es'
  | [], _, _ => rfl
  | e :: es, es', s => congrArg ((f s e).2 :: ·) (trace_append f es es' (f s e).1)

theorem final_append (f : σ → ι → σ × ω) : ∀ (es es' : List ι) (s : σ),
    final f s (es ++ es') = final f (final f s es) es'
  | [], _, _ => rfl
  | e :: es, es', s => final_append f es es' (f s e).1

/-- A machine that writes its answers in another way. -/
theorem trace_map {κ : Type} (h : ω → κ) : ∀ (es : List ι) (s : σ),
    trace (fun s e => ((f s e).1, h (f s e).2)) s es = (trace f s es).map h
  | [], _ => rfl
  | e :: es, s => congrArg (h (f s e).2 :: ·) (trace_map h es (f s e).1)

/-- **The simulation rule.** -/
theorem trace_simulation {R : σ → τ → Prop} {C : ι → Prop}
    (hstep : ∀ s t e, C e → R s t → (f s e).2 = (g t e).2 ∧ R (f s e).1 (g t e).1) :
    ∀ (es : List ι) {s : σ} {t : τ}, (∀ e ∈ es, C e) → R s t →
      trace f s es = trace g t es ∧ R (final f s es) (final g t es)
  | [], _, _, _, hR => ⟨rfl, hR⟩
  | e :: es, s, t, hC, hR => by
    obtain ⟨hout, hnext⟩ := hstep s t e (hC e List.mem_cons_self) hR
    obtain ⟨htrace, hfinal⟩ := trace_simulation hstep es
      (fun e' he' => hC e' (List.mem_cons_of_mem e he')) hnext
    refine ⟨?_, hfinal⟩
    rw [trace, trace, hout, htrace]

end Lib
end Wrmos
