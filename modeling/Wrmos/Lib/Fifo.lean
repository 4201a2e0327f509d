import Wrmos.Lib.Trace

/-!
# Bounded queues

A queue of at most `cap` elements: a write appends as many of its elements as there is room for, a read
takes from the front, and the queue can be emptied.  The ledger of the answers notes the elements taken in
and given out since the queue was last emptied, and `ledger_eq` says that nothing is lost, repeated or
reordered between them.
-/

namespace Wrmos
namespace Lib
namespace Fifo

variable {α : Type} {cap : Nat}

/-- The calls. -/
inductive Op (α : Type) where
  | write (bs : List α)
  | read (len : Nat)
  | clear
  deriving DecidableEq, Repr

/-- The answers: how many elements a write took, and which; what a read gave. -/
inductive Out (α : Type) where
  | wrote (n : Nat) (bs : List α)
  | got (bs : List α)
  | cleared
  deriving DecidableEq, Repr

/-- A call of the queue. -/
def step (cap : Nat) (q : List α) : Op α → List α × Out α
  | .write bs =>
    let n := min bs.length (cap - q.length)
    (q ++ bs.take n, .wrote n (bs.take n))
  | .read len => (q.drop len, .got (q.take len))
  | .clear => ([], .cleared)

/-- Take the answer to one more call into the ledger. -/
def note (l : List α × List α) : Out α → List α × List α
  | .wrote _ bs => (l.1 ++ bs, l.2)
  | .got bs => (l.1, l.2 ++ bs)
  | .cleared => ([], [])

/-- The elements taken in and given out since the queue was last emptied. -/
def ledger : List α × List α → List (Out α) → List α × List α := List.foldl note

/-- A call keeps the ledger balanced. -/
theorem note_step {q : List α} {l : List α × List α} (h : l.1 = l.2 ++ q) :
    ∀ op, (note l (step cap q op).2).1 = (note l (step cap q op).2).2 ++ (step cap q op).1
  | .write bs => by
    show l.1 ++ _ = l.2 ++ (q ++ _)
    rw [h, List.append_assoc]
  | .read len => by
    show l.1 = l.2 ++ q.take len ++ q.drop len
    rw [h, List.append_assoc, List.take_append_drop]
  | .clear => rfl

/-- **The ledger is balanced**: what was taken in is what was given out, followed by what is in the queue. -/
theorem ledger_eq : ∀ (ops : List (Op α)) {q : List α} {l : List α × List α}, l.1 = l.2 ++ q →
    (ledger l (trace (step cap) q ops)).1 =
      (ledger l (trace (step cap) q ops)).2 ++ final (step cap) q ops
  | [], _, _, h => h
  | op :: ops, _, _, h => ledger_eq ops (note_step h op)

end Fifo
end Lib
end Wrmos
