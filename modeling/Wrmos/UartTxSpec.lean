import Wrmos.UartTx
import Mathlib.Data.List.Basic

/-!
# What the transmitter sends

`expand` is the text with a carriage return behind every newline.  A ring without end gets something else,
`stream`: from the first null character on the text is copied as it is.  A ring with room for so many bytes
gets the beginning of that (`putToTxbuf_eq`), and `taken` is how many bytes of the text went into it.

Two kinds of texts go wrong.  The carriage return of a newline is lost when the room ends between the two,
for the newline counts as written; and a newline behind a null character has no carriage return, or has one
if the text was cut between the null character and the newline.  No other text goes wrong
(`expanded_iff_safe`).
-/

namespace Wrmos
namespace Uart

variable {c : Cbuf UInt8} {bs pre post l rest : List UInt8} {b : UInt8} {r : Nat}

/-- The text with a carriage return behind every newline. -/
def expand (bs : List UInt8) : List UInt8 :=
  bs.flatMap fun b => if b = newline then [newline, carriageReturn] else [b]

@[simp] theorem expand_nil : expand [] = [] := rfl

@[simp] theorem expand_newline : expand (newline :: bs) = newline :: carriageReturn :: expand bs := rfl

@[simp] theorem expand_cons (hb : b ≠ newline) : expand (b :: bs) = b :: expand bs := by
  show (if b = newline then [newline, carriageReturn] else [b]) ++ expand bs = _
  rw [if_neg hb]
  rfl

/-- What a ring without end gets. -/
def stream : List UInt8 → List UInt8
  | [] => []
  | b :: bs =>
    if b = nul then b :: bs
    else if b = newline then newline :: carriageReturn :: stream bs
    else b :: stream bs

@[simp] theorem stream_nil : stream [] = [] := rfl

@[simp] theorem stream_nul : stream (nul :: bs) = nul :: bs := rfl

@[simp] theorem stream_newline : stream (newline :: bs) = newline :: carriageReturn :: stream bs := rfl

@[simp] theorem stream_cons (h0 : b ≠ nul) (hb : b ≠ newline) : stream (b :: bs) = b :: stream bs := by
  rw [stream, if_neg h0, if_neg hb]

/-- How many bytes of the text go into a ring with so much room. -/
def taken : Nat → List UInt8 → Nat
  | _, [] => 0
  | r, b :: bs =>
    if r = 0 then 0
    else if b = nul then min r (bs.length + 1)
    else if b = newline then taken (r - 2) bs + 1
    else taken (r - 1) bs + 1

@[simp] theorem taken_nil : taken r [] = 0 := rfl

@[simp] theorem taken_zero : taken 0 bs = 0 := by cases bs <;> rfl

@[simp] theorem taken_nul : taken r (nul :: bs) = min r (bs.length + 1) := by
  cases r with
  | zero => simp
  | succ r => rfl

@[simp] theorem taken_newline : taken (r + 1) (newline :: bs) = taken (r - 1) bs + 1 := rfl

@[simp] theorem taken_cons (h0 : b ≠ nul) (hb : b ≠ newline) :
    taken (r + 1) (b :: bs) = taken r bs + 1 := by
  rw [taken, if_neg (Nat.succ_ne_zero r), if_neg h0, if_neg hb, Nat.add_sub_cancel]

theorem taken_le (r : Nat) (bs : List UInt8) : taken r bs ≤ bs.length := by
  induction bs generalizing r with
  | nil => exact Nat.le_refl 0
  | cons b bs ih =>
    rw [taken, List.length_cons]
    have h2 := ih (r - 2)
    have h1 := ih (r - 1)
    split_ifs <;> omega

/-! ## Lines -/

/-- Bytes of a line: no newline and no null character. -/
def Inline (l : List UInt8) : Prop := ∀ b ∈ l, b ≠ newline ∧ b ≠ nul

theorem Inline.of_cons (h : Inline (b :: l)) : b ≠ newline ∧ b ≠ nul ∧ Inline l :=
  ⟨(h b List.mem_cons_self).1, (h b List.mem_cons_self).2, fun x hx => h x (List.mem_cons_of_mem b hx)⟩

theorem stream_inline (h : Inline l) : stream (l ++ rest) = l ++ stream rest := by
  induction l with
  | nil => rfl
  | cons b l ih =>
    obtain ⟨hb, h0, hl⟩ := h.of_cons
    rw [List.cons_append, stream_cons h0 hb, ih hl, List.cons_append]

theorem taken_inline (h : Inline l) : taken r (l ++ rest) =
    if r ≤ l.length then r else l.length + taken (r - l.length) rest := by
  induction l generalizing r with
  | nil => cases r <;> simp
  | cons b l ih =>
    obtain ⟨hb, h0, hl⟩ := h.of_cons
    cases r with
    | zero => simp
    | succ r =>
      rw [List.cons_append, taken_cons h0 hb, ih hl, List.length_cons]
      by_cases hle : r ≤ l.length
      · rw [if_pos hle, if_pos (Nat.succ_le_succ hle)]
      · rw [if_neg hle, if_neg (by omega), Nat.add_sub_add_right]
        omega

/-- The code sees a line, or no newline in all that is left. -/
theorem strchr_cases (bs : List UInt8) :
    (∃ l rest, bs = l ++ newline :: rest ∧ Inline l ∧ strchr newline bs = some l.length) ∨
    strchr newline bs = none ∧ stream bs = bs ∧ ∀ r, taken r bs = min r bs.length := by
  induction bs with
  | nil => exact .inr ⟨rfl, rfl, fun r => (Nat.min_zero r).symm⟩
  | cons b bs ih =>
    by_cases hb : b = newline
    · subst hb
      exact .inl ⟨[], bs, rfl, nofun, rfl⟩
    by_cases h0 : b = nul
    · subst h0
      exact .inr ⟨rfl, rfl, fun r => taken_nul⟩
    have hchr : strchr newline (b :: bs) = (strchr newline bs).map (· + 1) := by
      rw [strchr, if_neg hb, if_neg h0]
    rcases ih with ⟨l, rest, rfl, hl, hfound⟩ | ⟨hnone, hstream, htaken⟩
    · refine .inl ⟨b :: l, rest, rfl, ?_, ?_⟩
      · intro x hx
        rcases List.mem_cons.mp hx with rfl | hx
        · exact ⟨hb, h0⟩
        · exact hl x hx
      · rw [hchr, hfound]
        rfl
    · refine .inr ⟨?_, ?_, fun r => ?_⟩
      · rw [hchr, hnone]
        rfl
      · rw [stream_cons h0 hb, hstream]
      · cases r with
        | zero => simp
        | succ r => rw [taken_cons h0 hb, htaken, List.length_cons, Nat.add_min_add_right]

/-! ## The ring -/

/-- A write into the ring, by its room. -/
theorem write_room (bs : List UInt8) (h : c.Wf) : (c.write bs).1.Wf ∧ (c.write bs).1.sz = c.sz ∧
    (c.write bs).2 = min bs.length (room c) ∧ (c.write bs).1.stored = c.stored ++ bs.take (room c) ∧
    room (c.write bs).1 = room c - bs.length := by
  obtain ⟨hwf, hsz, hn, hstored⟩ := Cbuf.stored_write bs h
  have htake : bs.take (c.write bs).2 = bs.take (room c) := by
    rw [hn, Nat.min_comm, ← List.take_take, List.take_length]
    rfl
  refine ⟨hwf, hsz, hn, by rw [hstored, htake], ?_⟩
  have hroom : room (c.write bs).1 = c.sz - 1 - (c.stored ++ bs.take (c.write bs).2).length := by
    rw [room, hsz, hstored]
  rw [hroom, List.length_append, List.length_take, hn, room]
  omega

/-- The loop on no text. -/
theorem putLines_nil (rounds : Nat) : putLines rounds c [] = .ok (c, 0) := by
  cases rounds <;> rfl

/-- A round for what is left when no newline is found. -/
theorem putLines_tail {rounds : Nat} (hne : bs ≠ []) (hnone : strchr newline bs = none)
    (hwf : c.Wf) : putLines (rounds + 1) c bs = .ok (c.write bs) := by
  obtain ⟨-, -, hn, -, -⟩ := write_room bs hwf
  rw [putLines, if_neg hne]
  simp only [hnone, Option.map_none, Option.getD_none, List.take_length, Option.isSome_none,
    Bool.false_eq_true, if_false, List.drop_length, putLines_nil]
  by_cases hall : (c.write bs).2 = bs.length
  · rw [if_neg (not_not.mpr hall)]
    show Except.ok ((c.write bs).1, bs.length + 0) = _
    rw [Nat.add_zero, ← hall]
  · rw [if_pos hall]

/-- A round for a line. -/
theorem putLines_line {rounds : Nat} (hfound : strchr newline (l ++ newline :: rest) = some l.length) :
    putLines (rounds + 1) c (l ++ newline :: rest) =
      let line := c.write (l ++ [newline])
      let ret := line.1.write [carriageReturn]
      if line.2 ≠ l.length + 1 then .ok line
      else if ret.2 ≠ 1 then .ok (ret.1, l.length + 1)
      else (putLines rounds ret.1 rest).map fun r => (r.1, l.length + 1 + r.2) := by
  have hsplit : l ++ newline :: rest = l ++ [newline] ++ rest := by
    rw [List.append_assoc]
    rfl
  have hlen : (l ++ [newline]).length = l.length + 1 := List.length_append
  rw [putLines, if_neg (List.append_ne_nil_of_right_ne_nil l (List.cons_ne_nil _ _))]
  simp only [hfound, Option.map_some, Option.getD_some, Option.isSome_some, if_true]
  rw [hsplit, List.take_left' hlen, List.drop_left' hlen]

/-- **The loop** puts the beginning of the stream into the ring, as much of it as there is room for. -/
theorem putLines_eq (rounds : Nat) (h : c.Wf) (hrounds : bs.length ≤ rounds) :
    ∃ c', putLines rounds c bs = .ok (c', taken (room c) bs) ∧ c'.Wf ∧ c'.sz = c.sz ∧
      c'.stored = c.stored ++ (stream bs).take (room c) := by
  induction rounds generalizing c bs with
  | zero =>
    obtain rfl := List.length_eq_zero_iff.mp (Nat.le_zero.mp hrounds)
    exact ⟨c, putLines_nil 0, h, rfl, by simp⟩
  | succ rounds ih =>
    by_cases hne : bs = []
    · subst hne
      exact ⟨c, putLines_nil _, h, rfl, by simp⟩
    rcases strchr_cases bs with ⟨l, rest, rfl, hl, hfound⟩ | ⟨hnone, hstream, htaken⟩
    · obtain ⟨hwf₁, hsz₁, hn₁, hstored₁, hroom₁⟩ := write_room (l ++ [newline]) h
      rw [List.length_append, List.length_singleton] at hn₁ hroom₁
      rw [putLines_line hfound, stream_inline hl, taken_inline hl]
      dsimp only
      by_cases hle : room c ≤ l.length
      · -- the line does not fit
        rw [if_pos (by omega), if_pos hle]
        refine ⟨_, congrArg Except.ok (Prod.ext rfl (by omega)), hwf₁, hsz₁, ?_⟩
        rw [hstored₁, List.take_append_of_le_length hle, List.take_append_of_le_length hle]
      have hline : (c.write (l ++ [newline])).1.stored = c.stored ++ (l ++ [newline]) := by
        rw [hstored₁, List.take_of_length_le (by rw [List.length_append, List.length_singleton]; omega)]
      obtain ⟨k, hk⟩ : ∃ k, room c = l.length + 1 + k := ⟨room c - (l.length + 1), by omega⟩
      obtain ⟨hwf₂, hsz₂, hn₂, hstored₂, hroom₂⟩ := write_room [carriageReturn] hwf₁
      rw [List.length_singleton] at hn₂ hroom₂
      have htake : (l ++ stream (newline :: rest)).take (room c) =
          l ++ [newline] ++ (carriageReturn :: stream rest).take k := by
        rw [stream_newline, hk, Nat.add_assoc, List.take_length_add_append, Nat.add_comm 1 k,
          List.take_succ_cons, List.append_assoc]
        rfl
      rw [if_neg (by omega), if_neg hle, htake, show room c - l.length = k + 1 by omega, taken_newline]
      cases k with
      | zero =>
        -- the room ends behind the newline
        rw [if_pos (by omega)]
        refine ⟨_, congrArg Except.ok (Prod.ext rfl (by simp)), hwf₂, hsz₂.trans hsz₁, ?_⟩
        rw [hstored₂, hline, hroom₁, hk]
        simp
      | succ k =>
        rw [if_neg (by omega)]
        have hrest : rest.length ≤ rounds := by
          rw [List.length_append, List.length_cons] at hrounds
          omega
        obtain ⟨c', hc', hwf', hsz', hstored'⟩ := ih hwf₂ hrest
        have hroom' : room ((c.write (l ++ [newline])).1.write [carriageReturn]).1 = k := by omega
        rw [hroom'] at hc' hstored'
        refine ⟨c', ?_, hwf', hsz'.trans (hsz₂.trans hsz₁), ?_⟩
        · rw [hc']
          refine congrArg Except.ok (Prod.ext rfl ?_)
          show l.length + 1 + taken k rest = l.length + (taken k rest + 1)
          omega
        · rw [hstored', hstored₂, hline, List.take_of_length_le (by rw [List.length_singleton]; omega),
            List.take_succ_cons, List.append_assoc, List.append_assoc]
          rfl
    · obtain ⟨hwf, hsz, hn, hstored, -⟩ := write_room bs h
      refine ⟨_, (putLines_tail hne hnone h).trans ?_, hwf, hsz, ?_⟩
      · rw [htaken, Nat.min_comm, ← hn]
      · rw [hstored, hstream]

/-- **`put_to_txbuf`** puts the beginning of the stream into the ring. -/
theorem putToTxbuf_eq (bs : List UInt8) (h : c.Wf) :
    ∃ c', putToTxbuf c bs = .ok (c', taken (room c) bs) ∧ c'.Wf ∧ c'.sz = c.sz ∧
      c'.stored = c.stored ++ (stream bs).take (room c) :=
  putLines_eq bs.length h (Nat.le_refl _)

/-! ## Which texts go wrong -/

theorem expand_append (bs cs : List UInt8) : expand (bs ++ cs) = expand bs ++ expand cs :=
  List.flatMap_append

theorem length_le_expand (bs : List UInt8) : bs.length ≤ (expand bs).length := by
  induction bs with
  | nil => exact Nat.le_refl 0
  | cons b bs ih =>
    by_cases hb : b = newline
    · subst hb
      rw [expand_newline, List.length_cons, List.length_cons, List.length_cons]
      omega
    · rw [expand_cons hb, List.length_cons, List.length_cons]
      omega

theorem length_le_stream (bs : List UInt8) : bs.length ≤ (stream bs).length := by
  induction bs with
  | nil => exact Nat.le_refl 0
  | cons b bs ih =>
    rw [stream]
    split_ifs
    · exact Nat.le_refl _
    · rw [List.length_cons, List.length_cons, List.length_cons]
      omega
    · rw [List.length_cons, List.length_cons]
      omega

theorem expand_eq_self_iff : expand bs = bs ↔ newline ∉ bs := by
  induction bs with
  | nil => exact iff_of_true rfl List.not_mem_nil
  | cons b bs ih =>
    by_cases hb : b = newline
    · subst hb
      refine iff_of_false (fun h => ?_) (fun h => h List.mem_cons_self)
      have hlen := congrArg List.length h
      have hle := length_le_expand bs
      rw [expand_newline, List.length_cons, List.length_cons, List.length_cons] at hlen
      omega
    · rw [expand_cons hb, List.cons_inj_right, ih, List.mem_cons, not_or]
      exact ⟨fun h => ⟨Ne.symm hb, h⟩, And.right⟩

/-- A text is copied as it is when a null character comes before its first newline. -/
theorem stream_eq_self_iff :
    stream bs = bs ↔ ∀ pre post, bs = pre ++ newline :: post → nul ∈ pre := by
  induction bs with
  | nil => exact iff_of_true rfl fun pre post h => by simp at h
  | cons b bs ih =>
    by_cases h0 : b = nul
    · subst h0
      refine iff_of_true rfl fun pre post h => ?_
      cases pre with
      | nil => cases h
      | cons x pre =>
        obtain ⟨rfl, -⟩ := List.cons.inj h
        exact List.mem_cons_self
    by_cases hb : b = newline
    · subst hb
      refine iff_of_false (fun h => ?_) (fun h => List.not_mem_nil (h [] bs rfl))
      have hlen := congrArg List.length h
      have hle := length_le_stream bs
      rw [stream_newline, List.length_cons, List.length_cons, List.length_cons] at hlen
      omega
    · rw [stream_cons h0 hb, List.cons_inj_right, ih]
      constructor
      · intro h pre post hsplit
        cases pre with
        | nil => exact absurd (List.cons.inj hsplit).1 hb
        | cons x pre => exact List.mem_cons_of_mem x (h pre post (List.cons.inj hsplit).2)
      · intro h pre post hsplit
        have hmem := h (b :: pre) post (congrArg (List.cons b) hsplit)
        exact (List.mem_cons.mp hmem).resolve_left (Ne.symm h0)

/-- A ring with so much room does not end between a newline of the text and its carriage return, and a
newline behind a null character is kept out of it together with a null character before it. -/
def Safe (r : Nat) (bs : List UInt8) : Prop :=
  ∀ pre post, bs = pre ++ newline :: post →
    if nul ∈ pre then ∃ p q, pre = p ++ nul :: q ∧ r ≤ (expand p).length
    else r ≠ (expand pre).length + 1

theorem safe_zero (bs : List UInt8) : Safe 0 bs := by
  intro pre post _
  split_ifs with h
  · obtain ⟨p, q, hpq⟩ := List.append_of_mem h
    exact ⟨p, q, hpq, Nat.zero_le _⟩
  · exact (Nat.succ_ne_zero _).symm

theorem safe_cons (hb : b ≠ nul) : Safe (r + (expand [b]).length) (b :: bs) ↔ Safe r bs := by
  have hlen : ∀ p, (expand (b :: p)).length = (expand [b]).length + (expand p).length := fun p => by
    rw [← List.singleton_append, expand_append, List.length_append]
  have hwidth : b = newline → (expand [b]).length = 2 := by
    rintro rfl
    rfl
  generalize (expand [b]).length = w at hlen hwidth ⊢
  constructor
  · intro h pre post hsplit
    have hpre := h (b :: pre) post (congrArg (List.cons b) hsplit)
    rw [hlen] at hpre
    by_cases hmem : nul ∈ pre
    · rw [if_pos (List.mem_cons_of_mem b hmem)] at hpre
      rw [if_pos hmem]
      obtain ⟨p, q, hpq, hle⟩ := hpre
      cases p with
      | nil => exact absurd (List.cons.inj hpq).1 hb
      | cons x p =>
        obtain ⟨rfl, hpq'⟩ := List.cons.inj hpq
        rw [hlen] at hle
        exact ⟨p, q, hpq', by omega⟩
    · rw [if_neg (fun hm => (List.mem_cons.mp hm).elim (fun h => hb h.symm) hmem)] at hpre
      rw [if_neg hmem]
      omega
  · intro h pre post hsplit
    cases pre with
    | nil =>
      obtain ⟨rfl, -⟩ := List.cons.inj hsplit
      rw [if_neg List.not_mem_nil, hwidth rfl, expand_nil, List.length_nil]
      omega
    | cons x pre =>
      obtain ⟨rfl, hsplit'⟩ := List.cons.inj hsplit
      have hpre := h pre post hsplit'
      rw [hlen]
      by_cases hmem : nul ∈ pre
      · rw [if_pos hmem] at hpre
        rw [if_pos (List.mem_cons_of_mem b hmem)]
        obtain ⟨p, q, rfl, hle⟩ := hpre
        refine ⟨b :: p, q, rfl, ?_⟩
        rw [hlen]
        omega
      · rw [if_neg hmem] at hpre
        rw [if_neg (fun hm => (List.mem_cons.mp hm).elim (fun h => hb h.symm) hmem)]
        omega

/-- From a null character on, the text is copied as it is now and later. -/
theorem safe_nul : Safe r (nul :: bs) ↔
    newline ∉ (nul :: bs).take r ∧ stream ((nul :: bs).drop r) = (nul :: bs).drop r := by
  have hhead : ∀ pre post, nul :: bs = pre ++ newline :: post → nul ∈ pre := fun pre post h =>
    stream_eq_self_iff.mp rfl pre post h
  rw [stream_eq_self_iff]
  constructor
  · intro h
    have hfirst : newline ∉ (nul :: bs).take r := by
      intro hmem
      obtain ⟨pre, mid, hsplit, hpre⟩ := List.eq_append_cons_of_mem hmem
      have hall : nul :: bs = pre ++ newline :: (mid ++ (nul :: bs).drop r) := by
        rw [← List.cons_append, ← List.append_assoc, ← hsplit, List.take_append_drop]
      have hsafe := h pre _ hall
      rw [if_pos (hhead _ _ hall)] at hsafe
      obtain ⟨p, q, rfl, hle⟩ := hsafe
      rw [expand_eq_self_iff.mpr fun hp => hpre (List.mem_append_left _ hp)] at hle
      have hlen := congrArg List.length hsplit
      rw [List.length_take, List.length_append, List.length_append, List.length_cons,
        List.length_cons] at hlen
      omega
    refine ⟨hfirst, fun pre post hsplit => ?_⟩
    have hall : nul :: bs = (nul :: bs).take r ++ pre ++ newline :: post := by
      rw [List.append_assoc, ← hsplit, List.take_append_drop]
    have hsafe := h _ post hall
    rw [if_pos (hhead _ _ hall)] at hsafe
    obtain ⟨p, q, hpq, hle⟩ := hsafe
    rcases List.append_eq_append_iff.mp hpq with ⟨x, hp, hx⟩ | ⟨x, hp, hx⟩
    · rw [hx]
      exact List.mem_append_right _ List.mem_cons_self
    · have hnot : newline ∉ p := fun hm => hfirst (by rw [hp]; exact List.mem_append_left _ hm)
      rw [expand_eq_self_iff.mpr hnot] at hle
      have hlen := congrArg List.length hp
      rw [List.length_take, List.length_append] at hlen
      cases x with
      | nil =>
        rw [List.nil_append] at hx
        rw [← hx]
        exact List.mem_cons_self
      | cons y x =>
        rw [List.length_cons, List.length_cons] at hlen
        omega
  · rintro ⟨hfirst, hrest⟩ pre post hsplit
    rw [if_pos (hhead _ _ hsplit)]
    have hle : r ≤ pre.length := by
      by_contra hlt
      refine hfirst ?_
      rw [hsplit, List.take_append, List.take_of_length_le (by omega)]
      refine List.mem_append_right _ ?_
      rw [show r - pre.length = (r - pre.length - 1) + 1 by omega, List.take_succ_cons]
      exact List.mem_cons_self
    have hmem := hrest (pre.drop r) post (by rw [hsplit, List.drop_append_of_le_length hle])
    obtain ⟨x, y, hxy⟩ := List.append_of_mem hmem
    refine ⟨pre.take r ++ x, y, ?_, ?_⟩
    · rw [List.append_assoc, ← hxy, List.take_append_drop]
    · refine Nat.le_trans ?_ (length_le_expand _)
      rw [List.length_append, List.length_take]
      omega

/-- What of the stream is in the ring is the expansion of what counts as written, and the rest of it is the
stream of the rest of the text, exactly for the safe texts. -/
theorem safe_iff : Safe r bs ↔ (stream bs).take r = expand (bs.take (taken r bs)) ∧
    expand (bs.take (taken r bs)) ++ stream (bs.drop (taken r bs)) = stream bs := by
  induction bs generalizing r with
  | nil => exact iff_of_true (fun pre post h => by simp at h) ⟨by simp, by simp⟩
  | cons b bs ih =>
    cases r with
    | zero => exact iff_of_true (safe_zero _) ⟨by simp, by simp⟩
    | succ r =>
      by_cases h0 : b = nul
      · subst h0
        have hmin : ∀ l : List UInt8, l.take (min (r + 1) l.length) = l.take (r + 1) ∧
            l.drop (min (r + 1) l.length) = l.drop (r + 1) := fun l => by
          rcases Nat.le_total (r + 1) l.length with hle | hle
          · rw [Nat.min_eq_left hle]
            exact ⟨rfl, rfl⟩
          · rw [Nat.min_eq_right hle, List.take_of_length_le hle, List.drop_of_length_le hle,
              List.take_length, List.drop_length]
            exact ⟨rfl, rfl⟩
        rw [safe_nul, taken_nul, ← List.length_cons, (hmin _).1, (hmin _).2, stream_nul,
          ← expand_eq_self_iff]
        refine (and_congr_left' eq_comm).trans (and_congr_right fun hfirst => ?_)
        rw [← hfirst]
        constructor
        · intro h
          rw [h, List.take_append_drop]
        · intro h
          exact List.append_cancel_left (h.trans (List.take_append_drop _ _).symm)
      by_cases hb : b = newline
      · subst hb
        rw [taken_newline, List.take_succ_cons, List.drop_succ_cons, stream_newline, expand_newline,
          List.take_succ_cons]
        cases r with
        | zero =>
          refine iff_of_false (fun h => h [] bs rfl rfl) (fun h => ?_)
          cases h.1
        | succ r =>
          rw [List.take_succ_cons, List.cons_append, List.cons_append, List.cons_inj_right,
            List.cons_inj_right, List.cons_inj_right, List.cons_inj_right]
          exact (safe_cons (r := r) h0).trans ih
      · rw [taken_cons h0 hb, List.take_succ_cons, List.drop_succ_cons, stream_cons h0 hb,
          List.take_succ_cons, expand_cons hb, List.cons_append, List.cons_inj_right, List.cons_inj_right]
        have hwidth : (expand [b]).length = 1 := by rw [expand_cons hb]; rfl
        exact (hwidth ▸ safe_cons (r := r) h0).trans ih

/-! ## The result -/

/-- The call returns, with so many bytes written, and has put these bytes into the ring. -/
def Puts (c : Cbuf UInt8) (bs out : List UInt8) (n : Nat) : Prop :=
  ∃ c', putToTxbuf c bs = .ok (c', n) ∧ c'.stored = c.stored ++ out

/-- The ring takes the text whatever is in it. -/
def Large (c : Cbuf UInt8) (bs : List UInt8) : Prop := c.Wf ∧ 2 * bs.length ≤ room c

/-- The call puts the first bytes of the text into the ring with a carriage return behind every newline,
and says how many they are.  When the rest is sent later, what was sent is what an empty and larger ring gets
at once. -/
def Expanded (c : Cbuf UInt8) (bs : List UInt8) : Prop :=
  ∃ n, n ≤ bs.length ∧ Puts c bs (expand (bs.take n)) n ∧
    ∀ later larger rest all k m, Large later bs → Large larger bs → larger.stored = [] →
      Puts later (bs.drop n) rest k → Puts larger bs all m → expand (bs.take n) ++ rest = all

theorem length_stream_le (bs : List UInt8) : (stream bs).length ≤ 2 * bs.length := by
  induction bs with
  | nil => exact Nat.le_refl 0
  | cons b bs ih =>
    rw [stream]
    split_ifs
    · rw [List.length_cons]
      omega
    · rw [List.length_cons, List.length_cons, List.length_cons]
      omega
    · rw [List.length_cons, List.length_cons]
      omega

theorem puts_iff {out : List UInt8} {n : Nat} (h : c.Wf) :
    Puts c bs out n ↔ n = taken (room c) bs ∧ out = (stream bs).take (room c) := by
  obtain ⟨c', hc', -, -, hstored⟩ := putToTxbuf_eq bs h
  unfold Puts
  rw [hc']
  constructor
  · rintro ⟨_, hok, hout⟩
    obtain ⟨rfl, rfl⟩ := Prod.mk.inj (Except.ok.inj hok)
    exact ⟨rfl, (List.append_cancel_left (hstored.symm.trans hout)).symm⟩
  · rintro ⟨rfl, rfl⟩
    exact ⟨c', rfl, hstored⟩

theorem Large.puts_iff {out cs : List UInt8} {n : Nat} (h : Large c bs) (hcs : cs.length ≤ bs.length) :
    Puts c cs out n ↔ n = taken (room c) cs ∧ out = stream cs := by
  have hle := length_stream_le cs
  rw [Uart.puts_iff h.1, List.take_of_length_le (by have := h.2; omega)]

/-- An empty ring that is large enough for the text. -/
def largeRing (bs : List UInt8) : Cbuf UInt8 := Cbuf.init (fun _ => 0) (2 * bs.length + 1)

theorem large_largeRing (bs : List UInt8) : Large (largeRing bs) bs := by
  have hpos : 0 < 2 * bs.length + 1 := Nat.succ_pos _
  exact ⟨⟨hpos, hpos⟩, Nat.le_refl _⟩

/-- **Serial line expansion.**  A call puts a carriage return behind every newline of what it writes, and
the rest of the text can be sent later, exactly for the texts that are safe for the room in the ring. -/
theorem expanded_iff_safe (c : Cbuf UInt8) (bs : List UInt8) (h : c.Wf) :
    Expanded c bs ↔ Safe (room c) bs := by
  rw [safe_iff]
  constructor
  · rintro ⟨n, -, hputs, hlater⟩
    obtain ⟨rfl, hout⟩ := (puts_iff h).mp hputs
    have hlarge := large_largeRing bs
    refine ⟨hout.symm, hlater (largeRing bs) (largeRing bs) _ _ _ _ hlarge hlarge rfl
      ((hlarge.puts_iff ?_).mpr ⟨rfl, rfl⟩) ((hlarge.puts_iff (Nat.le_refl _)).mpr ⟨rfl, rfl⟩)⟩
    exact Nat.le_trans (Nat.le_of_eq List.length_drop) (Nat.sub_le _ _)
  · rintro ⟨hout, hrest⟩
    refine ⟨taken (room c) bs, taken_le _ _, (puts_iff h).mpr ⟨rfl, hout.symm⟩, ?_⟩
    intro later larger rest all k m hlater hlarger _ hput hall
    have hdrop : (bs.drop (taken (room c) bs)).length ≤ bs.length :=
      List.length_drop ▸ Nat.sub_le _ _
    obtain ⟨-, rfl⟩ := (hlater.puts_iff hdrop).mp hput
    obtain ⟨-, rfl⟩ := (hlarger.puts_iff (Nat.le_refl _)).mp hall
    exact hrest

/-- A ring of seven bytes takes two lines of text in two parts. -/
theorem twoLines_expanded : Expanded (Cbuf.init (fun _ => 0) 8) [97, 10, 98, 99, 10] :=
  (expanded_iff_safe _ _ ⟨by decide, by decide⟩).mpr (by
    rw [safe_iff]
    decide)

/-- There is room for the line and not for its carriage return. -/
theorem line_not_expanded : ¬ Expanded (Cbuf.init (fun _ => 0) 4) [97, 98, 10] := by
  rintro ⟨n, -, ⟨c', hc', hstored⟩, -⟩
  have hrun : (putToTxbuf (Cbuf.init (fun _ => 0) 4) [97, 98, 10]).map (fun r => (r.1.stored, r.2)) =
      .ok ([97, 98, 10], 3) := by
    decide
  rw [hc'] at hrun
  obtain ⟨hring, rfl⟩ := Prod.mk.inj (Except.ok.inj hrun)
  rw [hring] at hstored
  exact absurd hstored (by decide)

end Uart
end Wrmos
