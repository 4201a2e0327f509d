import Wrmos.Lib.Outcome

/-!
# Lines of an interrupt controller

A line is masked from the moment its interrupt is taken until the handler asks for the next one.  While it
is masked the controller keeps one interrupt (`latched`); one that the handler has not asked for yet is
kept by the system (`pending`).  Both hold one interrupt only, so a second one is lost in the first.

What was raised is compared with what was passed on and what is still kept.  In any run nothing is passed
on that was not raised (`Sound`).  Nothing is lost either (`Exact`) where the handler asks for the next
interrupt when it has got the last one, and is not replaced before.
-/

namespace Wrmos.Lib

/-- A line: whether it is masked, what the controller and the system keep, and how many interrupts were
raised and passed on. -/
structure IrqLine where
  masked : Bool
  latched : Bool
  pending : Bool
  raised : Nat
  passed : Nat
  deriving DecidableEq, Repr

namespace IrqLine

/-- What happens to a line: it is raised while it is masked, it is raised while it is not and the handler
waits or does not wait, the handler takes what is kept for it, the handler asks for the next interrupt with
or without forgetting what the controller has, and the handler is replaced by another or by nobody. -/
inductive Op where
  | latch
  | fire (waits : Bool)
  | take
  | rearm (clear : Bool)
  | attach (off : Bool)
  deriving DecidableEq, Repr

def step (l : IrqLine) : Op → IrqLine
  | .latch => if l.masked && !l.latched then { l with latched := true, raised := l.raised + 1 } else l
  | .fire waits =>
    if l.masked then l
    else
      { l with
        masked := true
        latched := false
        pending := l.pending || !waits
        raised := l.raised + 1
        passed := if waits then l.passed + 1 else l.passed }
  | .take => if l.pending then { l with pending := false, passed := l.passed + 1 } else l
  | .rearm clear =>
    if l.latched && !clear then { l with latched := false, pending := true }
    else { l with latched := false, masked := false }
  | .attach off => { l with pending := false, masked := l.masked || off }

/-- How many interrupts are kept. -/
def kept (l : IrqLine) : Nat := l.pending.toNat + l.latched.toNat

/-- Nothing was passed on that was not raised, and only a masked line keeps anything in the controller. -/
structure Sound (l : IrqLine) : Prop where
  masked : l.latched = true → l.masked = true
  count : l.passed + l.kept ≤ l.raised

/-- Nothing was lost, and only a masked line keeps anything. -/
structure Exact (l : IrqLine) : Prop where
  masked : l.latched = true ∨ l.pending = true → l.masked = true
  count : l.passed + l.kept = l.raised

/-- The operation loses nothing. -/
def Careful (l : IrqLine) : Op → Prop
  | .rearm clear => l.pending = false ∧ (clear = true → l.latched = false)
  | .attach _ => l.pending = false
  | _ => True

theorem Sound.step {l : IrqLine} (h : l.Sound) (op : Op) : (l.step op).Sound := by
  obtain ⟨masked, latched, pending, raised, passed⟩ := l
  obtain ⟨hmasked, hcount⟩ := h
  cases op with
  | latch =>
    cases masked <;> cases latched <;> constructor <;> simp_all [IrqLine.step, kept] <;> omega
  | fire waits =>
    cases masked <;> cases latched <;> cases pending <;> cases waits <;> constructor <;>
      simp_all [IrqLine.step, kept] <;> omega
  | take => cases pending <;> constructor <;> simp_all [IrqLine.step, kept] <;> omega
  | rearm clear =>
    cases latched <;> cases clear <;> cases pending <;> constructor <;>
      simp_all [IrqLine.step, kept] <;> omega
  | attach off =>
    cases pending <;> cases off <;> constructor <;> simp_all [IrqLine.step, kept] <;> omega

theorem Exact.step {l : IrqLine} (h : l.Exact) {op : Op} (hop : l.Careful op) : (l.step op).Exact := by
  obtain ⟨masked, latched, pending, raised, passed⟩ := l
  obtain ⟨hmasked, hcount⟩ := h
  cases op with
  | latch =>
    cases masked <;> cases latched <;> constructor <;> simp_all [IrqLine.step, kept] <;> omega
  | fire waits =>
    cases masked <;> cases latched <;> cases pending <;> cases waits <;> constructor <;>
      simp_all [IrqLine.step, kept]
  | take => cases pending <;> constructor <;> simp_all [IrqLine.step, kept] <;> omega
  | rearm clear =>
    cases latched <;> cases clear <;> cases pending <;> constructor <;>
      simp_all [IrqLine.step, kept, Careful]
  | attach off =>
    cases pending <;> cases off <;> constructor <;> simp_all [IrqLine.step, kept, Careful]

end IrqLine

end Wrmos.Lib
