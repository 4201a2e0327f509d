import Wrmos.Cbuf
import Wrmos.Lib.Ring
import Wrmos.Lib.Fifo
import Mathlib.Data.List.DropRight
import Mathlib.Tactic.SplitIfs

/-!
# The circular buffer as a queue

With `write`, `read` and `clear` the buffer is a queue that holds one byte less than its size
(`cbuf_fifo`): it answers every list of calls as the queue does.

`overwrite` is to keep the newest bytes.  It writes around the ring from the write pointer
(`buf_overwrite`), and when it reaches the read pointer this moves in front of the write pointer.  Two of its
layouts are wrong, and no other (`overwrite_newest_iff`).  A text as long as the buffer moves the write
pointer on by its length instead of putting it behind the text; and a text that ends exactly where the
buffer does, while the read pointer is at the start, puts both pointers to the start, so that a full
buffer becomes an empty one.
-/

namespace Wrmos
namespace Cbuf

open Lib (trace final Ring Fifo.Op Fifo.Out Fifo.ledger)

variable {α : Type} {c : Cbuf α} {bs : List α} {sz i j : Nat}

/-! ## Writes and reads -/

/-- A call of the buffer, as a call of a queue. -/
def step (c : Cbuf α) : Fifo.Op α → Cbuf α × Fifo.Out α
  | .write bs => ((c.write bs).1, .wrote (c.write bs).2 (bs.take (c.write bs).2))
  | .read len => ((c.read len).1, .got (c.read len).2)
  | .clear => (c.clear, .cleared)

/-- The buffer holds the queue. -/
structure Holds (sz : Nat) (c : Cbuf α) (q : List α) : Prop where
  wf : c.Wf
  size : c.sz = sz
  stored : c.stored = q

/-- A call of the buffer is the call of the queue. -/
theorem step_fifo {q : List α} (h : Holds sz c q) :
    ∀ op, (c.step op).2 = (Lib.Fifo.step (sz - 1) q op).2 ∧
      Holds sz (c.step op).1 (Lib.Fifo.step (sz - 1) q op).1
  | .write bs => by
    obtain ⟨hwf, hsize, hn, hstored⟩ := stored_write bs h.wf
    rw [h.size, h.stored] at hn
    rw [h.stored, hn] at hstored
    refine ⟨?_, hwf, hsize.trans h.size, hstored⟩
    show Fifo.Out.wrote (c.write bs).2 (bs.take (c.write bs).2) = _
    rw [hn]
    rfl
  | .read len => by
    obtain ⟨hwf, hsize, hread, hstored⟩ := stored_read len h.wf
    rw [h.stored] at hread hstored
    exact ⟨congrArg Fifo.Out.got hread, hwf, hsize.trans h.size, hstored⟩
  | .clear => ⟨rfl, wf_clear h.wf, h.size, stored_clear⟩

/-- **The buffer is a queue** of `sz - 1` bytes: it answers as the queue does, it holds what the queue
holds, and since it was last emptied it took in what it gave out, followed by what it holds. -/
theorem cbuf_fifo (buf : Nat → α) (hsz : 2 ≤ sz) (ops : List (Fifo.Op α)) :
    trace step (init buf sz) ops = trace (Lib.Fifo.step (sz - 1)) [] ops ∧
      (final step (init buf sz) ops).stored = final (Lib.Fifo.step (sz - 1)) [] ops ∧
      (Fifo.ledger ([], []) (trace step (init buf sz) ops)).1 =
        (Fifo.ledger ([], []) (trace step (init buf sz) ops)).2 ++
          (final step (init buf sz) ops).stored := by
  have hinit : Holds sz (init buf sz) [] := by
    have hpos : 0 < sz := Nat.lt_of_lt_of_le (by decide) hsz
    exact ⟨⟨hpos, hpos⟩, rfl, rfl⟩
  obtain ⟨htrace, hfinal⟩ := Lib.trace_simulation (R := Holds sz) (C := fun _ => True)
    (fun c q op _ h => step_fifo h op) ops (fun _ _ => trivial) hinit
  refine ⟨htrace, hfinal.stored, ?_⟩
  rw [htrace, hfinal.stored]
  exact Lib.Fifo.ledger_eq ops rfl

/-- Four bytes, of which three are used; the second write wraps. -/
theorem cbuf_fifo_wrapped :
    trace step (init (fun _ => 0) 4) [.write [1, 2, 3, 4], .read 2, .write [5, 6, 7], .read 5] =
      [.wrote 3 [1, 2, 3], .got [1, 2], .wrote 2 [5, 6], .got [3, 5, 6]] :=
  ((cbuf_fifo (fun _ => 0) (by decide) _).1).trans rfl

/-! ## The bytes by their place -/

theorem getElem?_span {buf : Nat → α} {p n : Nat} (hi : i < n) : (span buf p n)[i]? = some (buf (p + i)) := by
  unfold span
  rw [List.getElem?_map, List.getElem?_range hi]
  rfl

/-- The bytes of the buffer are those of the slots from the read pointer on. -/
theorem getElem?_stored (h : c.Wf) (hi : i < c.stored.length) :
    c.stored[i]? = some (c.buf (Ring.idx c.sz c.rp i)) := by
  have h1 := h.wp_lt
  have h2 := h.rp_lt
  rw [length_stored] at hi
  unfold Ring.idx
  by_cases hle : c.rp ≤ c.wp
  · rw [if_pos hle] at hi
    rw [stored_of_le hle, getElem?_span hi, if_pos (by omega)]
  · rw [if_neg hle] at hi
    rw [stored_of_lt (Nat.lt_of_not_le hle)]
    by_cases hend : i < c.sz - c.rp
    · rw [List.getElem?_append_left (by rwa [length_span]), getElem?_span hend, if_pos (by omega)]
    · rw [List.getElem?_append_right (by rw [length_span]; omega), length_span,
        getElem?_span (by omega), if_neg (by omega)]
      congr 2
      omega

/-- A buffer whose slots hold a list, from the read pointer on, stores the list. -/
theorem stored_of_slots {q : List α} (h : c.Wf) (hlen : c.stored.length = q.length)
    (hslot : ∀ i < q.length, q[i]? = some (c.buf (Ring.idx c.sz c.rp i))) : c.stored = q := by
  refine List.ext_getElem? fun i => ?_
  by_cases hi : i < q.length
  · rw [hslot i hi, getElem?_stored h (hlen ▸ hi)]
  · rw [List.getElem?_eq_none (by omega), List.getElem?_eq_none (by omega)]

/-- The write pointer stands behind the bytes. -/
theorem length_stored_cases (h : c.Wf) :
    c.rp + c.stored.length = c.wp ∨ c.rp + c.stored.length = c.wp + c.sz ∧ c.wp < c.rp := by
  have h2 := h.rp_lt
  rw [length_stored]
  split_ifs <;> omega

/-- The number of bytes, by the distance of the pointers. -/
theorem length_stored_eq (h : c.Wf) : c.stored.length = Ring.dist c.sz c.rp c.wp := by
  refine (Ring.dist_eq h.wp_lt (length_stored_lt h) ?_).symm
  exact (length_stored_cases h).imp_right And.left

/-! ## Overwriting -/

/-- The slots behind `overwrite` of a text shorter than the buffer: the text stands from the write pointer
on, around the end, and the other slots are as they were. -/
theorem buf_overwrite (h : c.Wf) (hne : c.rp ≠ c.wp) (hlen : bs.length < c.sz - 1) (hj : j < c.sz) :
    (c.overwrite bs).1.buf j = bs.getD (Ring.dist c.sz c.wp j) (c.buf j) := by
  have h1 := h.wp_lt
  unfold overwrite
  rw [if_neg (by omega), if_neg (by omega), if_neg hne]
  dsimp only
  unfold Ring.dist
  by_cases hwrap : min bs.length (c.sz - c.wp) ≠ bs.length
  · have hn : min bs.length (c.sz - c.wp) = c.sz - c.wp := by omega
    rw [if_pos hwrap, hn]
    unfold blit
    dsimp only
    rw [if_pos (Nat.zero_le j), Nat.sub_zero, List.getD_eq_getElem?_getD, List.getElem?_drop,
      List.getD_eq_getElem?_getD]
    by_cases hle : c.wp ≤ j
    · rw [if_pos hle, if_pos hle, List.getElem?_eq_none (by omega), List.getD_eq_getElem?_getD,
        List.getElem?_take_of_lt (by omega)]
      rfl
    · rw [if_neg hle, if_neg hle, show c.sz - c.wp + j = j + c.sz - c.wp by omega,
        List.getD_eq_getElem?_getD]
  · have hn : min bs.length (c.sz - c.wp) = bs.length := not_not.mp hwrap
    rw [if_neg hwrap, hn, List.take_length]
    unfold blit
    dsimp only
    by_cases hle : c.wp ≤ j
    · rw [if_pos hle, if_pos hle]
    · rw [if_neg hle, if_neg hle, List.getD_eq_getElem?_getD, List.getElem?_eq_none (by omega)]
      rfl

/-- The pointers behind `overwrite` of a text shorter than the buffer.  The read pointer moves in front of
the write pointer when there was no room, but for a text that ends where the buffer does. -/
theorem pointers_overwrite (h : c.Wf) (hne : c.rp ≠ c.wp) (hlen : bs.length < c.sz - 1) :
    (c.overwrite bs).1.wp = Ring.idx c.sz c.wp bs.length ∧
      (c.overwrite bs).1.rp =
        if c.stored.length + bs.length < c.sz ∨ c.rp = 0 ∧ c.wp + bs.length = c.sz then c.rp
        else Ring.next c.sz (Ring.idx c.sz c.wp bs.length) := by
  have h1 := h.wp_lt
  have h2 := h.rp_lt
  have hn := length_stored_cases h
  generalize c.stored.length = n at hn ⊢
  unfold overwrite
  rw [if_neg (by omega), if_neg (by omega), if_neg hne]
  dsimp only
  by_cases hwrap : min bs.length (c.sz - c.wp) ≠ bs.length
  · have hmin : min bs.length (c.sz - c.wp) = c.sz - c.wp := by omega
    have hend : c.wp + (c.sz - c.wp) = c.sz := by omega
    have hidx : Ring.idx c.sz c.wp bs.length = bs.length - (c.sz - c.wp) :=
      Ring.idx_eq (by omega) (.inr (by omega))
    rw [if_pos hwrap, hmin, hidx]
    dsimp only
    rw [if_pos hend, Nat.zero_add]
    refine ⟨rfl, ?_⟩
    by_cases hroom : n + bs.length < c.sz ∨ c.rp = 0 ∧ c.wp + bs.length = c.sz
    · rw [if_pos hroom, if_neg (by split_ifs <;> omega), if_neg (by omega)]
    · rw [if_neg hroom, if_pos (by split_ifs <;> omega)]
      rfl
  · have hmin : min bs.length (c.sz - c.wp) = bs.length := not_not.mp hwrap
    rw [if_neg hwrap, hmin]
    dsimp only
    have hidx : (if c.wp + bs.length = c.sz then 0 else c.wp + bs.length) =
        Ring.idx c.sz c.wp bs.length := by
      symm
      split_ifs with hend
      · exact Ring.idx_eq (by omega) (.inr (by omega))
      · exact Ring.idx_eq (by omega) (.inl rfl)
    rw [hidx]
    refine ⟨rfl, ?_⟩
    by_cases hroom : n + bs.length < c.sz ∨ c.rp = 0 ∧ c.wp + bs.length = c.sz
    · rw [if_pos hroom, if_neg (by omega)]
    · rw [if_neg hroom, if_pos (by omega)]
      rfl

variable (c bs) in
theorem sz_overwrite : (c.overwrite bs).1.sz = c.sz := by
  unfold overwrite
  dsimp only
  split_ifs <;> rfl

/-- Behind `overwrite` the last bytes of what was stored and written stand in the slots from the old read
pointer on, around the ring. -/
theorem slot_overwrite {k s : Nat} (h : c.Wf) (hne : c.rp ≠ c.wp) (hlen : bs.length < c.sz - 1)
    (hk : k < c.stored.length + bs.length) (hlast : c.stored.length + bs.length ≤ k + (c.sz - 1))
    (hs : s < c.sz) (hmod : c.rp + k = s ∨ c.rp + k = s + c.sz ∨ c.rp + k = s + 2 * c.sz) :
    (c.stored ++ bs)[k]? = some ((c.overwrite bs).1.buf s) := by
  have h1 := h.wp_lt
  have h2 := h.rp_lt
  have hn := length_stored_cases h
  rw [buf_overwrite h hne hlen hs]
  by_cases hold : k < c.stored.length
  · -- an old byte, which the text does not reach
    have hslot : Ring.idx c.sz c.rp k = s := Ring.idx_eq hs (by omega)
    have hdist : Ring.dist c.sz c.wp s = c.sz - c.stored.length + k :=
      Ring.dist_eq hs (by omega) (by omega)
    rw [List.getElem?_append_left hold, getElem?_stored h hold, hslot, List.getD_eq_getElem?_getD,
      List.getElem?_eq_none (by omega)]
    rfl
  · have hdist : Ring.dist c.sz c.wp s = k - c.stored.length := Ring.dist_eq hs (by omega) (by omega)
    have hin : k - c.stored.length < bs.length := by omega
    rw [List.getElem?_append_right (Nat.le_of_not_lt hold), hdist, List.getD_eq_getElem?_getD,
      List.getElem?_eq_getElem hin]
    rfl

/-- The slot of the bytes from the last `sz - 1` on. -/
theorem rtake_eq_drop {q : List α} {n : Nat} : (q ++ bs).rtake n = (q ++ bs).drop (q.length + bs.length - n) := by
  unfold List.rtake
  rw [List.length_append]

/-- A call of `overwrite` from which the buffer goes on with the newest bytes. -/
def Fits (c : Cbuf α) (bs : List α) : Prop :=
  if c.sz - 1 ≤ bs.length then c.wp = 0 else ¬ (c.rp = 0 ∧ c.wp + bs.length = c.sz)

instance (c : Cbuf α) (bs : List α) : Decidable (Fits c bs) := by unfold Fits; infer_instance

/-- A text shorter than the buffer, written behind others. -/
theorem stored_overwrite_ring (h : c.Wf) (hne : c.rp ≠ c.wp) (hlen : bs.length < c.sz - 1)
    (hfits : ¬ (c.rp = 0 ∧ c.wp + bs.length = c.sz)) :
    (c.overwrite bs).1.Wf ∧ (c.overwrite bs).1.stored = (c.stored ++ bs).rtake (c.sz - 1) := by
  have h1 := h.wp_lt
  have h2 := h.rp_lt
  obtain ⟨hwp, hrp⟩ := pointers_overwrite h hne hlen
  have hsz := sz_overwrite c bs
  have hn := length_stored_cases h
  have hwp_lt : Ring.idx c.sz c.wp bs.length < c.sz := Ring.idx_lt h1 (by omega)
  have hidx := Ring.idx_cases c.sz c.wp bs.length
  set w := Ring.idx c.sz c.wp bs.length
  have hwf : (c.overwrite bs).1.Wf := by
    refine ⟨?_, ?_⟩
    · rw [hwp, hsz]
      exact hwp_lt
    · rw [hrp, hsz]
      split
      · exact h2
      · exact Ring.next_lt hwp_lt
  refine ⟨hwf, ?_⟩
  rw [rtake_eq_drop]
  by_cases hroom : c.stored.length + bs.length < c.sz
  · rw [if_pos (.inl hroom)] at hrp
    have hlen' : (c.overwrite bs).1.stored.length = c.stored.length + bs.length := by
      rw [length_stored_eq hwf, hwp, hrp, hsz]
      exact Ring.dist_eq hwp_lt hroom (by omega)
    refine stored_of_slots hwf ?_ fun i hi => ?_
    · rw [hlen', List.length_drop, List.length_append]
      omega
    · rw [List.length_drop, List.length_append] at hi
      have hmod := Ring.idx_cases c.sz c.rp i
      rw [List.getElem?_drop, hsz, hrp]
      exact slot_overwrite h hne hlen (by omega) (by omega) (Ring.idx_lt h2 (by omega)) (by omega)
  · -- the read pointer is one slot behind the write pointer
    rw [if_neg (not_or.mpr ⟨hroom, hfits⟩)] at hrp
    have hnext := Ring.idx_cases c.sz w 1
    have hnext_eq : Ring.idx c.sz w 1 = Ring.next c.sz w := by
      unfold Ring.idx Ring.next
      split_ifs <;> omega
    rw [hnext_eq] at hnext
    have hnext_lt := Ring.next_lt hwp_lt
    have hlen' : (c.overwrite bs).1.stored.length = c.sz - 1 := by
      rw [length_stored_eq hwf, hwp, hrp, hsz]
      exact Ring.dist_eq hwp_lt (by omega) (by omega)
    refine stored_of_slots hwf ?_ fun i hi => ?_
    · rw [hlen', List.length_drop, List.length_append]
      omega
    · rw [List.length_drop, List.length_append] at hi
      have hstart : c.rp + (c.stored.length + bs.length - (c.sz - 1)) = Ring.next c.sz w ∨
          c.rp + (c.stored.length + bs.length - (c.sz - 1)) = Ring.next c.sz w + c.sz := by omega
      have hmod := Ring.idx_cases c.sz (Ring.next c.sz w) i
      rw [List.getElem?_drop, hsz, hrp]
      clear hn hidx hnext hwf hwp hrp
      exact slot_overwrite h hne hlen (by omega) (by omega) (Ring.idx_lt hnext_lt (by omega)) (by omega)

/-- A text that is copied to the start of the buffer is what it stores. -/
theorem stored_start {d : Cbuf α} {q : List α} (hsz : q.length < d.sz) (hrp : d.rp = 0)
    (hwp : d.wp = q.length) (hbuf : d.buf = blit c.buf 0 q) : d.Wf ∧ d.stored = q := by
  refine ⟨⟨hwp ▸ hsz, hrp ▸ Nat.zero_lt_of_lt hsz⟩, ?_⟩
  rw [stored_of_le (hrp ▸ Nat.zero_le d.wp), hrp, hwp, hbuf]
  exact span_blit c.buf 0 q

/-- A text as long as the buffer is written to its start. -/
theorem overwrite_long (h : c.Wf) (hlong : c.sz - 1 ≤ bs.length) : (c.overwrite bs).1 =
    { c with
      buf := blit c.buf 0 (bs.drop (bs.length - (c.sz - 1)))
      rp := 0
      wp := c.wp + (c.sz - 1) } := by
  have h1 := h.wp_lt
  unfold overwrite
  rw [if_neg (by omega), if_pos hlong]

/-- A text that is written into an empty buffer. -/
theorem stored_overwrite_empty (h : c.Wf) (hempty : c.rp = c.wp) (hlen : bs.length < c.sz - 1) :
    (c.overwrite bs).1.Wf ∧ (c.overwrite bs).1.stored = (c.stored ++ bs).rtake (c.sz - 1) := by
  have h1 := h.wp_lt
  have hmin : min bs.length (c.sz - 1) = bs.length := by omega
  have hover : (c.overwrite bs).1 = { c with buf := blit c.buf 0 bs, rp := 0, wp := bs.length } := by
    unfold overwrite
    rw [if_neg (by omega), if_neg (by omega), if_pos hempty, hmin]
    dsimp only
    rw [List.take_length]
  have hnone : c.stored = [] := by
    rw [stored_of_le (Nat.le_of_eq hempty), hempty, Nat.sub_self, span_zero]
  have hall : (c.stored ++ bs).rtake (c.sz - 1) = bs := by
    rw [rtake_eq_drop, hnone]
    show bs.drop _ = bs
    rw [show ([] : List α).length + bs.length - (c.sz - 1) = 0 by rw [List.length_nil]; omega,
      List.drop_zero]
  rw [hall, hover]
  exact stored_start (c := c) (by dsimp only; omega) rfl rfl rfl

/-- A text as long as the buffer, which finds the write pointer at the start. -/
theorem stored_overwrite_long (h : c.Wf) (hlong : c.sz - 1 ≤ bs.length) (hwp : c.wp = 0) :
    (c.overwrite bs).1.Wf ∧ (c.overwrite bs).1.stored = (c.stored ++ bs).rtake (c.sz - 1) := by
  have h1 := h.wp_lt
  have hdrop : (bs.drop (bs.length - (c.sz - 1))).length = c.sz - 1 := by
    rw [List.length_drop]
    omega
  have hlast : (c.stored ++ bs).rtake (c.sz - 1) = bs.drop (bs.length - (c.sz - 1)) := by
    rw [rtake_eq_drop, List.drop_append, List.drop_of_length_le (by omega), List.nil_append]
    congr 1
    omega
  rw [hlast, overwrite_long h hlong]
  refine stored_start (c := c) ?_ rfl ?_ rfl
  · rw [hdrop]
    exact Nat.sub_lt (Nat.zero_lt_of_lt h1) Nat.one_pos
  · rw [hdrop]
    show c.wp + (c.sz - 1) = c.sz - 1
    rw [hwp, Nat.zero_add]

/-- A call that fits keeps the newest bytes. -/
theorem stored_overwrite (h : c.Wf) (hfits : Fits c bs) :
    (c.overwrite bs).1.Wf ∧ (c.overwrite bs).1.stored = (c.stored ++ bs).rtake (c.sz - 1) := by
  unfold Fits at hfits
  by_cases hlong : c.sz - 1 ≤ bs.length
  · rw [if_pos hlong] at hfits
    exact stored_overwrite_long h hlong hfits
  rw [if_neg hlong] at hfits
  by_cases hempty : c.rp = c.wp
  · exact stored_overwrite_empty h hempty (Nat.lt_of_not_le hlong)
  · exact stored_overwrite_ring h hempty (Nat.lt_of_not_le hlong) hfits

/-- Every call of a run fits. -/
def AllFit : Cbuf α → List (List α) → Prop
  | _, [] => True
  | c, bs :: bss => Fits c bs ∧ AllFit (c.overwrite bs).1 bss

instance decidableAllFit : ∀ (c : Cbuf α) (bss : List (List α)), Decidable (AllFit c bss)
  | _, [] => isTrue trivial
  | c, bs :: bss =>
    have := decidableAllFit (c.overwrite bs).1 bss
    inferInstanceAs (Decidable (Fits c bs ∧ AllFit (c.overwrite bs).1 bss))

/-- The newest elements do not depend on what was dropped before. -/
theorem rtake_rtake_append (q : List α) (n : Nat) : (q.rtake n ++ bs).rtake n = (q ++ bs).rtake n := by
  rw [List.rtake_eq_reverse_take_reverse, List.rtake_eq_reverse_take_reverse,
    List.rtake_eq_reverse_take_reverse, List.reverse_append, List.reverse_append, List.reverse_reverse,
    List.take_append, List.take_append, List.take_take, Nat.min_eq_left (Nat.sub_le _ _)]

/-- **A run of overwrites** that fit keeps the newest bytes of all that was written. -/
theorem stored_overwrites {q : List α} {bss : List (List α)} (h : c.Wf)
    (hq : c.stored = q.rtake (c.sz - 1)) (hfits : AllFit c bss) :
    (bss.foldl (fun c bs => (c.overwrite bs).1) c).Wf ∧
      (bss.foldl (fun c bs => (c.overwrite bs).1) c).stored = (q ++ bss.flatten).rtake (c.sz - 1) := by
  induction bss generalizing c q with
  | nil => simpa using ⟨h, hq⟩
  | cons bs bss ih =>
    obtain ⟨hwf, hstored⟩ := stored_overwrite h hfits.1
    rw [hq, rtake_rtake_append, ← sz_overwrite c bs] at hstored
    obtain ⟨hwf', hstored'⟩ := ih hwf hstored hfits.2
    rw [sz_overwrite, List.append_assoc] at hstored'
    exact ⟨hwf', hstored'⟩

/-- **Overwriting** keeps the newest bytes and the pointers inside of the buffer when, and only when, a text
as long as the buffer finds the write pointer at the start, and a shorter one does not end with the buffer
while the read pointer is at the start. -/
theorem overwrite_newest_iff (h : c.Wf) (bs : List α) :
    (c.overwrite bs).1.Wf ∧ (c.overwrite bs).1.stored = (c.stored ++ bs).rtake (c.sz - 1) ↔ Fits c bs := by
  have h1 := h.wp_lt
  have h2 := h.rp_lt
  refine ⟨?_, stored_overwrite h⟩
  unfold Fits
  rintro ⟨hwf, hstored⟩
  by_cases hlong : c.sz - 1 ≤ bs.length
  · rw [if_pos hlong]
    have hwp := hwf.wp_lt
    rw [overwrite_long h hlong] at hwp
    dsimp only at hwp
    omega
  rw [if_neg hlong]
  rintro ⟨hrp, hend⟩
  by_cases hempty : c.rp = c.wp
  · omega
  -- both pointers are at the start, so nothing is stored
  obtain ⟨hwp', hrp'⟩ := pointers_overwrite h hempty (Nat.lt_of_not_le hlong)
  rw [if_pos (.inr ⟨hrp, hend⟩), hrp] at hrp'
  have hzero : Ring.idx c.sz c.wp bs.length = 0 := by
    unfold Ring.idx
    rw [if_neg (by omega)]
    omega
  rw [stored_of_le (by rw [hrp']; exact Nat.zero_le _), hrp', hwp', hzero, rtake_eq_drop] at hstored
  have hnil := congrArg List.length hstored
  rw [length_span, List.length_drop, List.length_append, length_stored, hrp] at hnil
  rw [if_pos (Nat.zero_le _)] at hnil
  omega

/-- A buffer of four bytes that holds one. -/
def oneByte : Cbuf Nat := ⟨fun _ => 7, 4, 2, 1⟩

theorem oneByte_overwrite : (oneByte.overwrite [8, 9]).1.Wf ∧
    (oneByte.overwrite [8, 9]).1.stored = (oneByte.stored ++ [8, 9]).rtake 3 :=
  (overwrite_newest_iff (c := oneByte) ⟨by decide, by decide⟩ [8, 9]).mpr (by decide)

/-- Two bytes and then two more fill a buffer of four bytes that holds three: nothing is left. -/
theorem twoBytes_lost : ∃ c : Cbuf Nat, ((init (fun _ => 0) 4).overwrite [1, 2]).1 = c ∧ c.Wf ∧
    ¬ ((c.overwrite [3, 4]).1.Wf ∧ (c.overwrite [3, 4]).1.stored = (c.stored ++ [3, 4]).rtake 3) :=
  ⟨_, rfl, ⟨by decide, by decide⟩, fun h => by
    have hstored := h.2
    revert hstored
    decide⟩

end Cbuf
end Wrmos
