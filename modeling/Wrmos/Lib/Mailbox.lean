import Mathlib.Data.List.Basic

/-!
# Mailboxes

A mailbox holds at most `cap` messages, or a receiver that waits for one.  A message that is posted goes to
the waiting receiver, or into the queue, or is rejected when the queue is full; a receiver that asks gets
the first message of the queue, or waits, or is refused when it may not ask or somebody waits already.

The ledger notes the messages that were taken in, the receivers that asked, and what was handed to whom.
Every step keeps it balanced (`Balanced.step`): what was taken in is what was handed out, in this order,
followed by the queue, and who asked is who was answered, followed by who waits.  As many receivers as there
are messages empty the queue (`run_takes`).
-/

namespace Wrmos
namespace Lib
namespace Mailbox

/-- Messages, or a receiver that waits for one. -/
structure Box (α β : Type) where
  queue : List α
  waiting : Option β
  exclusive : waiting.isSome = true → queue = []

inductive Op (α β : Type) where
  | post (a : α)
  | take (b : β)

/-- How a call ends. -/
inductive Out (α β : Type) where
  | handed (b : β) (a : α)
  | stored
  | rejected
  | waits
  | refused

variable {α β : Type}

/-- A message is posted. -/
def post (cap : Nat) (box : Box α β) (a : α) : Box α β × Out α β :=
  match box.waiting with
  | some b => (⟨box.queue, none, nofun⟩, .handed b a)
  | none =>
    if box.queue.length = cap then (box, .rejected) else (⟨box.queue ++ [a], none, nofun⟩, .stored)

/-- A receiver asks; `may` says who may. -/
def take (may : β → Bool) (box : Box α β) (b : β) : Box α β × Out α β :=
  if may b = true then
    match box.waiting, box.queue with
    | some _, _ => (box, .refused)
    | none, [] => (⟨[], some b, fun _ => rfl⟩, .waits)
    | none, a :: q => (⟨q, none, nofun⟩, .handed b a)
  else (box, .refused)

def step (cap : Nat) (may : β → Bool) (box : Box α β) : Op α β → Box α β × Out α β
  | .post a => post cap box a
  | .take b => take may box b

/-- What was taken in, who asked, and what was handed to whom. -/
structure Ledger (α β : Type) where
  accepted : List α
  asked : List β
  handed : List (β × α)

def Ledger.empty : Ledger α β := ⟨[], [], []⟩

/-- Take a call and how it ended into the ledger. -/
def Ledger.note (l : Ledger α β) : Op α β → Out α β → Ledger α β
  | .post a, .handed b a' => ⟨l.accepted ++ [a], l.asked, l.handed ++ [(b, a')]⟩
  | .post a, .stored => ⟨l.accepted ++ [a], l.asked, l.handed⟩
  | .take b, .handed b' a' => ⟨l.accepted, l.asked ++ [b], l.handed ++ [(b', a')]⟩
  | .take b, .waits => ⟨l.accepted, l.asked ++ [b], l.handed⟩
  | _, _ => l

/-- The ledger fits what is in the mailbox. -/
structure Balanced (box : Box α β) (l : Ledger α β) : Prop where
  order : l.handed.map Prod.snd ++ box.queue = l.accepted
  answered : l.handed.map Prod.fst ++ box.waiting.toList = l.asked

theorem balanced_empty : Balanced (⟨[], none, nofun⟩ : Box α β) .empty := ⟨rfl, rfl⟩

variable {cap : Nat} {may : β → Bool} {box : Box α β} {l : Ledger α β} {a : α} {b : β}

theorem post_waiting (hw : box.waiting = some b) :
    post cap box a = (⟨box.queue, none, nofun⟩, .handed b a) := by
  unfold post
  rw [hw]

theorem post_full (hw : box.waiting = none) (hfull : box.queue.length = cap) :
    post cap box a = (box, .rejected) := by
  unfold post
  rw [hw]
  exact if_pos hfull

theorem post_room (hw : box.waiting = none) (hroom : box.queue.length ≠ cap) :
    post cap box a = (⟨box.queue ++ [a], none, nofun⟩, .stored) := by
  unfold post
  rw [hw]
  exact if_neg hroom

theorem take_refused (h : may b = true → box.waiting.isSome = true) : take may box b = (box, .refused) := by
  unfold take
  by_cases hb : may b = true
  · obtain ⟨b', hb'⟩ := Option.isSome_iff_exists.mp (h hb)
    rw [if_pos hb, hb']
  · exact if_neg hb

theorem take_empty (hb : may b = true) (hw : box.waiting = none) (hq : box.queue = []) :
    take may box b = (⟨[], some b, fun _ => rfl⟩, .waits) := by
  unfold take
  rw [if_pos hb, hw, hq]

theorem take_cons {q : List α} (hb : may b = true) (hw : box.waiting = none) (hq : box.queue = a :: q) :
    take may box b = (⟨q, none, nofun⟩, .handed b a) := by
  unfold take
  rw [if_pos hb, hw, hq]

theorem Balanced.post (h : Balanced box l) :
    Balanced (post cap box a).1 (l.note (.post a) (post cap box a).2) := by
  obtain ⟨horder, hanswered⟩ := h
  cases hw : box.waiting with
  | some b =>
    -- the queue is empty, so the message is the next one
    have hq := box.exclusive (by rw [hw]; rfl)
    rw [post_waiting hw]
    rw [hq, List.append_nil] at horder
    rw [hw] at hanswered
    refine ⟨?_, ?_⟩
    · show (l.handed ++ [(b, a)]).map Prod.snd ++ box.queue = l.accepted ++ [a]
      rw [hq, List.append_nil, List.map_append, horder]
      rfl
    · show (l.handed ++ [(b, a)]).map Prod.fst ++ [] = l.asked
      rw [List.append_nil, List.map_append, ← hanswered]
      rfl
  | none =>
    by_cases hfull : box.queue.length = cap
    · rw [post_full hw hfull]
      exact ⟨horder, hanswered⟩
    · rw [post_room hw hfull]
      rw [hw] at hanswered
      refine ⟨?_, hanswered⟩
      show l.handed.map Prod.snd ++ (box.queue ++ [a]) = l.accepted ++ [a]
      rw [← List.append_assoc, horder]

theorem Balanced.take (h : Balanced box l) :
    Balanced (take may box b).1 (l.note (.take b) (take may box b).2) := by
  obtain ⟨horder, hanswered⟩ := h
  by_cases hmay : may b = true → box.waiting.isSome = true
  · rw [take_refused hmay]
    exact ⟨horder, hanswered⟩
  · obtain ⟨hb, hsome⟩ := Classical.not_imp.mp hmay
    have hw : box.waiting = none := Option.not_isSome_iff_eq_none.mp hsome
    rw [hw, Option.toList_none, List.append_nil] at hanswered
    cases hq : box.queue with
    | nil =>
      rw [take_empty hb hw hq]
      rw [hq] at horder
      exact ⟨horder, congrArg (· ++ [b]) hanswered⟩
    | cons a q =>
      rw [take_cons hb hw hq]
      rw [hq] at horder
      refine ⟨?_, ?_⟩
      · show (l.handed ++ [(b, a)]).map Prod.snd ++ q = l.accepted
        rw [List.map_append, List.append_assoc]
        exact horder
      · show (l.handed ++ [(b, a)]).map Prod.fst ++ [] = l.asked ++ [b]
        rw [List.append_nil, List.map_append, hanswered]
        rfl

/-- **A step keeps the ledger balanced.** -/
theorem Balanced.step (cap : Nat) (may : β → Bool) (h : Balanced box l) :
    ∀ op : Op α β, Balanced (step cap may box op).1 (l.note op (step cap may box op).2)
  | .post _ => h.post
  | .take _ => h.take

/-- A message that is not taken in changes nothing. -/
theorem post_of_accepted_eq (h : (l.note (.post a) (post cap box a).2).accepted = l.accepted) :
    (post cap box a).1 = box ∧ l.note (.post a) (post cap box a).2 = l := by
  have hgrown : l.accepted ++ [a] ≠ l.accepted := fun heq =>
    List.cons_ne_nil a [] (List.append_right_eq_self.mp heq)
  cases hw : box.waiting with
  | some b =>
    rw [post_waiting hw] at h
    exact absurd h hgrown
  | none =>
    by_cases hfull : box.queue.length = cap
    · rw [post_full hw hfull]
      exact ⟨rfl, rfl⟩
    · rw [post_room hw hfull] at h
      exact absurd h hgrown

/-! ## Runs -/

/-- The calls of a list one after another, with the ledger. -/
def run (cap : Nat) (may : β → Bool) : Box α β × Ledger α β → List (Op α β) → Box α β × Ledger α β :=
  List.foldl fun s op => ((step cap may s.1 op).1, s.2.note op (step cap may s.1 op).2)

/-- **As many receivers as there are messages** get them all, in order. -/
theorem run_takes (cap : Nat) :
    ∀ {bs : List β} {box : Box α β} (l : Ledger α β), bs.length = box.queue.length →
    (∀ b ∈ bs, may b = true) →
    (run cap may (box, l) (bs.map .take)).1.queue = [] ∧
    (run cap may (box, l) (bs.map .take)).2 =
      ⟨l.accepted, l.asked ++ bs, l.handed ++ bs.zip box.queue⟩
  | [], box, l, hlen, _ => by
    refine ⟨(List.length_eq_zero_iff.mp hlen.symm), ?_⟩
    show l = _
    rw [List.append_nil, List.zip_nil_left, List.append_nil]
  | b :: bs, box, l, hlen, hmay => by
    obtain ⟨a, q, hq⟩ : ∃ a q, box.queue = a :: q := by
      cases hq : box.queue with
      | nil =>
        rw [hq] at hlen
        cases hlen
      | cons a q => exact ⟨a, q, rfl⟩
    have hw : box.waiting = none := by
      cases hw : box.waiting with
      | none => rfl
      | some b =>
        have := box.exclusive (by rw [hw]; rfl)
        rw [this] at hq
        cases hq
    have htake := take_cons (hmay b List.mem_cons_self) hw hq
    rw [hq] at hlen
    have hlen' : bs.length = (⟨q, none, nofun⟩ : Box α β).queue.length := Nat.succ.inj hlen
    have hrest := run_takes cap ⟨l.accepted, l.asked ++ [b], l.handed ++ [(b, a)]⟩ hlen'
      fun b hb => hmay b (List.mem_cons_of_mem _ hb)
    have hrun : run cap may (box, l) ((b :: bs).map .take) =
        run cap may (⟨q, none, nofun⟩, ⟨l.accepted, l.asked ++ [b], l.handed ++ [(b, a)]⟩)
          (bs.map .take) := by
      show run cap may ((take may box b).1, l.note (.take b) (take may box b).2) (bs.map .take) = _
      rw [htake]
      rfl
    rw [hrun, hq]
    refine ⟨hrest.1, hrest.2.trans ?_⟩
    rw [List.append_assoc, List.append_assoc]
    rfl

end Mailbox
end Lib
end Wrmos
