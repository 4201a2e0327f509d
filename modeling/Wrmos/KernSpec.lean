import Wrmos.Kern
import Wrmos.ThreadsEffect

/-!
# Kernel steps, taken apart

What a switch, a tick, a wake-up and an interrupt consist of, for the proofs about runs of the kernel.
-/

namespace Wrmos

open Lib

namespace Kern

open Threads

variable {A : Arch} {k k' : Kern} {t u now : Nat}

@[simp] theorem upd_ts (f : Thread → Thread) : (k.upd t f).ts = k.ts.upd t f := rfl

@[simp] theorem noteIrqMsg_ts (irq fromId tag : Nat) : (k.noteIrqMsg irq t fromId tag).ts = k.ts := rfl

/-- A switch changes nothing of the threads but their time slices. -/
theorem switchTo_thr (nxt u : Nat) :
    ((k.switchTo nxt now).ts.thr u).bare = (k.ts.thr u).bare ∧
      ((k.switchTo nxt now).ts.thr u).prioMax = (k.ts.thr u).prioMax := by
  unfold switchTo
  split_ifs with h
  · exact ⟨rfl, rfl⟩
  · dsimp only
    by_cases h1 : u = nxt <;> by_cases h2 : u = k.current
    · exact absurd (h2.symm.trans h1) h
    · subst h1
      rw [thr_upd_self, thr_upd_ne _ h2]
      exact ⟨rfl, rfl⟩
    · subst h2
      rw [thr_upd_ne _ h1, thr_upd_self]
      exact ⟨rfl, rfl⟩
    · rw [thr_upd_ne _ h1, thr_upd_ne _ h2]
      exact ⟨rfl, rfl⟩

@[simp] theorem switchTo_current (nxt : Nat) : (k.switchTo nxt now).current = nxt := by
  unfold switchTo
  split_ifs with h
  · exact h
  · rfl

/-- A tick, taken apart; the update of the running thread's time slice is of no consequence. -/
theorem tick_eq_ok (hok : k.kernTimerTick A now = .ok k') :
    ∃ ts₀ next1 ts₁ next2 ts₂, (SameBare k.ts ts₀ ∧ SameLinks k.ts ts₀ ∧ SameHeirs k.ts ts₀) ∧
      ts₀.checkIpcTimeouts A k.curTask now = .ok (next1, ts₁) ∧
      checkTimeslice ts₁ k.current = .ok (next2, ts₂) ∧
      k' = ({ k with ts := ts₂ } : Kern).preempt next1 next2 now := by
  unfold kernTimerTick at hok
  obtain ⟨⟨next1, ts₁⟩, hcheck, hok⟩ := bind_eq_ok.mp hok
  obtain ⟨⟨next2, ts₂⟩, hslice, hok⟩ := bind_eq_ok.mp hok
  exact ⟨_, next1, ts₁, next2, ts₂, ⟨bare_upd rfl, sameLinks_upd rfl rfl rfl, sameHeirs_upd rfl rfl⟩,
    hcheck, hslice, (Except.ok.inj hok).symm⟩

/-- Waking a thread, taken apart. -/
theorem wake_eq_ok {source : Source} (hok : k.wake A t source = .ok k') :
    ∃ ts, k.ts.setState A k.curTask t .ready = .ok ts ∧
      k' = { k with
        ts := ts
        hist := { k.hist with
          wakes := ⟨t, (k.ts.thr t).ident, (k.ts.thr t).state, (k.ts.thr t).fromSpec,
            k.hist.faultTo t, source⟩ :: k.hist.wakes } } := by
  unfold wake at hok
  obtain ⟨k₁, hstate, hok⟩ := bind_eq_ok.mp hok
  unfold setState at hstate
  obtain ⟨ts, hts, hstate⟩ := bind_eq_ok.mp hstate
  obtain rfl := Except.ok.inj hstate
  exact ⟨ts, hts, (Except.ok.inj hok).symm⟩

/-- An interrupt, taken apart. -/
theorem routeIrq_eq_ok {irq : Nat} (hok : k.routeIrq A irq now = .ok k') :
    ∃ intc dst, k.intc.mask irq = .ok intc ∧ irq < intsMax ∧ (k.ints irq).handler ≠ Thrid.nil ∧
      k.ts.find A k.curTask (k.ints irq).handler = .ok (some dst) ∧
      (({ k with intc := intc } : Kern).noteRaised irq).passIrq A irq dst now = .ok k' := by
  unfold routeIrq at hok
  obtain ⟨intc, hmask, hok⟩ := bind_eq_ok.mp hok
  obtain ⟨hlt, hok⟩ := ensure_bind_eq_ok.mp hok
  obtain ⟨hnil, hok⟩ := ensure_bind_eq_ok.mp hok
  obtain ⟨r, hfind, hok⟩ := bind_eq_ok.mp hok
  cases r with
  | none => cases hok
  | some dst => exact ⟨intc, dst, hmask, hlt, hnil, hfind, hok⟩

/-- The handler gets the interrupt, or it is marked as pending. -/
theorem passIrq_cases {irq dst : Nat} (hok : k.passIrq A irq dst now = .ok k') :
    ((k.ts.thr dst).state = .receiveIpc ∧ (k.ts.thr dst).fromSpec ≠ Thrid.nil ∧
      irqAcceptable A (k.ts.thr dst) irq = true ∧ k.deliverIrq A irq dst now = .ok k') ∨
    (¬ ((k.ts.thr dst).state = .receiveIpc ∧ irqAcceptable A (k.ts.thr dst) irq = true) ∧
      k' = k.setPending irq true) := by
  unfold passIrq at hok
  by_cases hstate : (k.ts.thr dst).state = .receiveIpc
  · rw [if_pos hstate] at hok
    obtain ⟨hnil, hok⟩ := ensure_bind_eq_ok.mp hok
    split_ifs at hok with hacc
    · exact .inl ⟨hstate, hnil, hacc, hok⟩
    · exact .inr ⟨fun h => hacc h.2, (Except.ok.inj hok).symm⟩
  · rw [if_neg hstate] at hok
    exact .inr ⟨fun h => hstate h.1, (Except.ok.inj hok).symm⟩

/-- The delivery of an interrupt: the sender is noted, the handler woken, and it runs if its priority
is above that of the running thread. -/
theorem deliverIrq_eq_ok {irq dst : Nat} (hok : k.deliverIrq A irq dst now = .ok k') :
    ∃ k₀ k₁ : Kern, (∀ u, (k₀.ts.thr u).state = (k.ts.thr u).state ∧
        (k₀.ts.thr u).prioMax = (k.ts.thr u).prioMax) ∧ SameHeirs k.ts k₀.ts ∧
      k₀.current = k.current ∧ k₀.wake A dst (.irq irq) = .ok k₁ ∧
      k' = if (k₁.ts.thr k₁.current).prioMax < (k₁.ts.thr dst).prioMax then k₁.switchTo dst now
        else k₁ := by
  unfold deliverIrq at hok
  obtain ⟨k₁, hwake, hok⟩ := bind_eq_ok.mp hok
  refine ⟨_, k₁, fun u => ?_, ?_, ?_, hwake, (Except.ok.inj hok).symm⟩
  · rw [noteIrqMsg_ts, upd_ts]
    by_cases hu : u = dst
    · subst hu
      rw [thr_upd_self]
      exact ⟨rfl, rfl⟩
    · rw [thr_upd_ne _ hu]
      exact ⟨rfl, rfl⟩
  · exact sameHeirs_upd (f := Thread.setFrom (Thrid.createIrq A irq)) rfl rfl
  · rfl

end Kern

end Wrmos
