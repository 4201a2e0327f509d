import Wrmos.Arch
import Mathlib.Data.List.Basic

/-!
# The circular buffer

`Cbuf_t` of `lib/containers/cbuf.h`: bytes between a read and a write pointer, which wrap at the end of the
buffer.  The buffer is empty when the pointers are equal, so it holds one byte less than its size.

`stored` are the bytes in it, oldest first.  A write adds as many of its bytes as there is room for behind
them, and a read takes from their front (`stored_write`, `stored_read`).  `overwrite` makes room by moving
the read pointer.
-/

namespace Wrmos

/-- `Cbuf_t`, of any kind of bytes; the size is 0 until `init`. -/
structure Cbuf (α : Type) where
  buf : Nat → α
  sz : Nat
  wp : Nat
  rp : Nat

namespace Cbuf

variable {α : Type}

/-- The effect of a `memcpy` into the buffer. -/
def blit (buf : Nat → α) (off : Nat) (bs : List α) : Nat → α := fun i =>
  if off ≤ i then bs.getD (i - off) (buf i) else buf i

/-- The bytes of a `memcpy` out of the buffer. -/
def span (buf : Nat → α) (p n : Nat) : List α := (List.range n).map fun i => buf (p + i)

/-- `init`. -/
def init (buf : Nat → α) (sz : Nat) : Cbuf α := ⟨buf, sz, 0, 0⟩

/-- `clear`. -/
def clear (c : Cbuf α) : Cbuf α := { c with wp := 0, rp := 0 }

/-- `empty`. -/
def empty (c : Cbuf α) : Bool := c.wp == c.rp

/-- `overwrite`: the buffer, and how many bytes were written. -/
def overwrite (c : Cbuf α) (bs : List α) : Cbuf α × Nat :=
  if c.sz = 0 then (c, 0)
  else if c.sz - 1 ≤ bs.length then
    let offset := bs.length - (c.sz - 1)
    ({ c with buf := blit c.buf 0 (bs.drop offset), rp := 0, wp := c.wp + (c.sz - 1) }, bs.length)
  else if c.rp = c.wp then
    let n := min bs.length (c.sz - 1)
    ({ c with buf := blit c.buf 0 (bs.take n), rp := 0, wp := n }, bs.length)
  else
    let n := min bs.length (c.sz - c.wp)
    let buf := blit c.buf c.wp (bs.take n)
    let isOver := c.wp < c.rp ∧ c.rp ≤ c.wp + n
    let wp := if c.wp + n = c.sz then 0 else c.wp + n
    let rp := if isOver then (if wp + 1 = c.sz then 0 else wp + 1) else c.rp
    if n ≠ bs.length then
      let l := bs.length - n
      let isOver := rp ≤ wp + l
      ({ c with
        buf := blit buf 0 (bs.drop n)
        wp := l
        rp := if isOver then (if l + 1 = c.sz then 0 else l + 1) else rp }, bs.length)
    else ({ c with buf := buf, wp := wp, rp := rp }, bs.length)

/-- `write`: the buffer, and how many bytes were written. -/
def write (c : Cbuf α) (bs : List α) : Cbuf α × Nat :=
  if c.sz = 0 then (c, 0)
  else if c.rp = c.wp then
    let n := min bs.length (c.sz - 1)
    ({ c with buf := blit c.buf 0 (bs.take n), rp := 0, wp := n }, n)
  else if c.wp + 1 = c.rp ∨ c.wp + 1 = c.sz ∧ c.rp = 0 then (c, 0)
  else if c.wp < c.rp then
    let n := min bs.length (c.rp - c.wp - 1)
    ({ c with buf := blit c.buf c.wp (bs.take n), wp := c.wp + n }, n)
  else if c.wp ≠ 0 ∧ c.rp = 0 then
    let n := min bs.length (c.sz - c.wp - 1)
    ({ c with buf := blit c.buf c.wp (bs.take n), wp := c.wp + n }, n)
  else
    let n := min bs.length (c.sz - c.wp)
    let buf := blit c.buf c.wp (bs.take n)
    let wp := if c.wp + n = c.sz then 0 else c.wp + n
    if n ≠ bs.length then
      let l := min (bs.length - n) (c.rp - 1)
      ({ c with buf := blit buf 0 ((bs.drop n).take l), wp := l }, n + l)
    else ({ c with buf := buf, wp := wp }, n)

/-- `read`: the buffer, and the bytes that were read. -/
def read (c : Cbuf α) (len : Nat) : Cbuf α × List α :=
  if c.wp = c.rp then (c, [])
  else if c.rp < c.wp then
    let n := min len (c.wp - c.rp)
    ({ c with rp := c.rp + n }, span c.buf c.rp n)
  else
    let n := min len (c.sz - c.rp)
    let rp := if c.rp + n = c.sz then 0 else c.rp + n
    if n ≠ len then
      let l := min (len - n) c.wp
      ({ c with rp := l }, span c.buf c.rp n ++ span c.buf 0 l)
    else ({ c with rp := rp }, span c.buf c.rp n)

/-- The bytes in the buffer. -/
def stored (c : Cbuf α) : List α :=
  if c.rp ≤ c.wp then span c.buf c.rp (c.wp - c.rp)
  else span c.buf c.rp (c.sz - c.rp) ++ span c.buf 0 c.wp

/-- The pointers are inside of the buffer. -/
structure Wf (c : Cbuf α) : Prop where
  wp_lt : c.wp < c.sz
  rp_lt : c.rp < c.sz

/-! ## Copies -/

section

variable {buf : Nat → α} {off p n k : Nat} {bs : List α}

@[simp] theorem length_span : (span buf p n).length = n := by simp [span]

@[simp] theorem span_zero : span buf p 0 = [] := rfl

theorem span_add : span buf p (n + k) = span buf p n ++ span buf (p + n) k := by
  unfold span
  rw [List.range_add, List.map_append, List.map_map]
  simp only [Function.comp_def, Nat.add_assoc]

theorem take_span (h : k ≤ n) : (span buf p n).take k = span buf p k := by
  obtain ⟨d, rfl⟩ := Nat.exists_eq_add_of_le h
  rw [span_add, List.take_left' length_span]

theorem drop_span (h : k ≤ n) : (span buf p n).drop k = span buf (p + k) (n - k) := by
  obtain ⟨d, rfl⟩ := Nat.exists_eq_add_of_le h
  rw [span_add, List.drop_left' length_span, Nat.add_sub_cancel_left]

variable (buf off bs) in
/-- What was copied in is there. -/
theorem span_blit : span (blit buf off bs) off bs.length = bs := by
  refine List.ext_getElem length_span fun i h1 h2 => ?_
  unfold span blit
  simp [h2]

/-- What lies apart is as it was. -/
theorem span_blit_of_apart (h : p + n ≤ off ∨ off + bs.length ≤ p) :
    span (blit buf off bs) p n = span buf p n := by
  unfold span
  refine List.map_congr_left fun i hi => ?_
  have hin : i < n := List.mem_range.mp hi
  show (if off ≤ p + i then bs.getD (p + i - off) (buf (p + i)) else buf (p + i)) = buf (p + i)
  split
  · rw [List.getD_eq_getElem?_getD, List.getElem?_eq_none (by omega)]
    rfl
  · rfl

variable (buf bs) in
/-- What is copied in behind a run of bytes is appended to it. -/
theorem span_blit_append (h : off = p + n) :
    span (blit buf off bs) p (n + bs.length) = span buf p n ++ bs := by
  subst h
  rw [span_add, span_blit, span_blit_of_apart (.inl (Nat.le_refl _))]

end

/-! ## The operations -/

variable {c : Cbuf α} {bs : List α} {len : Nat}

theorem length_stored : c.stored.length =
    if c.rp ≤ c.wp then c.wp - c.rp else c.sz - c.rp + c.wp := by
  unfold stored
  split <;> simp

theorem length_stored_lt (h : c.Wf) : c.stored.length < c.sz := by
  have h1 := h.wp_lt
  have h2 := h.rp_lt
  rw [length_stored]
  split <;> omega

theorem wf_clear (h : c.Wf) : c.clear.Wf :=
  ⟨Nat.zero_lt_of_lt h.wp_lt, Nat.zero_lt_of_lt h.wp_lt⟩

@[simp] theorem stored_clear : c.clear.stored = [] := rfl

/-- The bytes when the pointers have not wrapped, and when they have. -/
theorem stored_of_le (h : c.rp ≤ c.wp) : c.stored = span c.buf c.rp (c.wp - c.rp) := if_pos h

theorem stored_of_lt (h : c.wp < c.rp) :
    c.stored = span c.buf c.rp (c.sz - c.rp) ++ span c.buf 0 c.wp := if_neg (Nat.not_le.mpr h)

variable (bs) in
/-- **A write** adds as many bytes as there is room for. -/
theorem stored_write (h : c.Wf) : (c.write bs).1.Wf ∧ (c.write bs).1.sz = c.sz ∧
    (c.write bs).2 = min bs.length (c.sz - 1 - c.stored.length) ∧
    (c.write bs).1.stored = c.stored ++ bs.take (c.write bs).2 := by
  have h1 := h.wp_lt
  have h2 := h.rp_lt
  have hlen : ∀ k, (bs.take (min bs.length k)).length = min bs.length k := fun k => by simp
  rw [length_stored]
  unfold write
  rw [if_neg (by omega)]
  by_cases hempty : c.rp = c.wp
  · rw [if_pos hempty, stored_of_le (Nat.le_of_eq hempty), hempty, Nat.sub_self, if_pos (Nat.le_refl _)]
    refine ⟨⟨?_, ?_⟩, rfl, rfl, ?_⟩
    · show min bs.length (c.sz - 1) < c.sz
      omega
    · exact Nat.zero_lt_of_lt h1
    · have hblit := span_blit c.buf 0 (bs.take (min bs.length (c.sz - 1)))
      rw [hlen] at hblit
      exact hblit
  rw [if_neg hempty]
  by_cases hfull : c.wp + 1 = c.rp ∨ c.wp + 1 = c.sz ∧ c.rp = 0
  · rw [if_pos hfull]
    refine ⟨h, rfl, ?_, (List.append_nil _).symm⟩
    split <;> omega
  rw [if_neg hfull]
  by_cases hwrap : c.wp < c.rp
  · -- `0---wp___rp---sz`
    rw [if_pos hwrap, stored_of_lt hwrap, if_neg (by omega)]
    set n := min bs.length (c.rp - c.wp - 1) with hn
    have hblit := span_blit_append c.buf (bs.take n) (Nat.zero_add c.wp).symm
    rw [hn, hlen, ← hn] at hblit
    refine ⟨⟨?_, h2⟩, rfl, ?_, ?_⟩
    · show c.wp + n < c.sz
      omega
    · show n = _
      omega
    · rw [stored_of_lt (show c.wp + n < c.rp by omega), List.append_assoc, ← hblit]
      dsimp only
      rw [span_blit_of_apart]
      right
      rw [hn, hlen, ← hn]
      omega
  rw [if_neg hwrap]
  by_cases hstart : c.wp ≠ 0 ∧ c.rp = 0
  · -- `rp-------wp___sz`
    rw [if_pos hstart, stored_of_le (Nat.le_of_not_lt hwrap), if_pos (Nat.le_of_not_lt hwrap),
      hstart.2, Nat.sub_zero]
    set n := min bs.length (c.sz - c.wp - 1) with hn
    have hblit := span_blit_append c.buf (bs.take n) (Nat.zero_add c.wp).symm
    rw [hn, hlen, ← hn] at hblit
    refine ⟨⟨?_, Nat.zero_lt_of_lt h1⟩, rfl, ?_, ?_⟩
    · show c.wp + n < c.sz
      omega
    · show n = _
      omega
    · exact hblit
  -- `0___rp---wp___sz`
  rw [if_neg hstart, stored_of_le (Nat.le_of_not_lt hwrap), if_pos (Nat.le_of_not_lt hwrap)]
  have hrp : c.rp ≠ 0 := by omega
  set n := min bs.length (c.sz - c.wp) with hn
  have hoff : c.wp = c.rp + (c.wp - c.rp) := by omega
  have hblit := span_blit_append c.buf (bs.take n) hoff
  rw [hn, hlen, ← hn] at hblit
  by_cases hrest : n ≠ bs.length
  · dsimp only
    rw [if_pos hrest]
    set l := min (bs.length - n) (c.rp - 1) with hl
    have hlen₂ : ((bs.drop n).take l).length = l := by
      rw [List.length_take, List.length_drop]
      omega
    have hcopy := span_blit (blit c.buf c.wp (bs.take n)) 0 ((bs.drop n).take l)
    rw [hlen₂] at hcopy
    refine ⟨⟨?_, h2⟩, rfl, ?_, ?_⟩
    · show l < c.sz
      omega
    · show n + l = _
      omega
    · rw [stored_of_lt (show l < c.rp by omega)]
      dsimp only
      rw [hcopy, span_blit_of_apart (.inr (by rw [hlen₂]; omega)),
        show c.sz - c.rp = c.wp - c.rp + n by omega, hblit, List.append_assoc, ← List.take_add]
  · dsimp only
    rw [if_neg hrest]
    by_cases hend : c.wp + n = c.sz
    · rw [if_pos hend]
      refine ⟨⟨Nat.zero_lt_of_lt h1, h2⟩, rfl, ?_, ?_⟩
      · show n = _
        omega
      · rw [stored_of_lt (show 0 < c.rp by omega)]
        dsimp only
        rw [span_zero, List.append_nil, show c.sz - c.rp = c.wp - c.rp + n by omega, hblit]
    · rw [if_neg hend]
      refine ⟨⟨?_, h2⟩, rfl, ?_, ?_⟩
      · show c.wp + n < c.sz
        omega
      · show n = _
        omega
      · rw [stored_of_le (show c.rp ≤ c.wp + n by omega)]
        dsimp only
        rw [show c.wp + n - c.rp = c.wp - c.rp + n by omega, hblit]

variable (len) in
/-- **A read** takes the first bytes. -/
theorem stored_read (h : c.Wf) : (c.read len).1.Wf ∧ (c.read len).1.sz = c.sz ∧
    (c.read len).2 = c.stored.take len ∧ (c.read len).1.stored = c.stored.drop len := by
  have h1 := h.wp_lt
  have h2 := h.rp_lt
  unfold read
  by_cases hempty : c.wp = c.rp
  · rw [if_pos hempty, stored_of_le (Nat.le_of_eq hempty.symm), hempty, Nat.sub_self, span_zero]
    exact ⟨h, rfl, List.take_nil.symm, List.drop_nil.symm⟩
  rw [if_neg hempty]
  by_cases hwrap : c.rp < c.wp
  · rw [if_pos hwrap, stored_of_le (Nat.le_of_lt hwrap)]
    set n := min len (c.wp - c.rp) with hn
    refine ⟨⟨h1, ?_⟩, rfl, ?_, ?_⟩
    · show c.rp + n < c.sz
      omega
    · show span c.buf c.rp n = _
      rcases Nat.le_total len (c.wp - c.rp) with hle | hle
      · rw [take_span hle, show n = len by omega]
      · rw [List.take_of_length_le (by rw [length_span]; exact hle), show n = c.wp - c.rp by omega]
    · rw [stored_of_le (show c.rp + n ≤ c.wp by omega)]
      dsimp only
      rcases Nat.le_total len (c.wp - c.rp) with hle | hle
      · rw [drop_span hle, show n = len by omega, Nat.sub_sub]
      · rw [List.drop_of_length_le (by rw [length_span]; exact hle),
          show c.wp - (c.rp + n) = 0 by omega, span_zero]
  rw [if_neg hwrap, stored_of_lt (by omega)]
  set n := min len (c.sz - c.rp) with hn
  dsimp only
  by_cases hrest : n ≠ len
  · rw [if_pos hrest]
    set l := min (len - n) c.wp with hl
    have hall : n = c.sz - c.rp := by omega
    refine ⟨⟨h1, ?_⟩, rfl, ?_, ?_⟩
    · show l < c.sz
      omega
    · show span c.buf c.rp n ++ span c.buf 0 l = _
      rw [List.take_append, length_span, ← hall, List.take_of_length_le (by rw [length_span]; omega)]
      congr 1
      rcases Nat.le_total (len - n) c.wp with hle | hle
      · rw [take_span hle, show l = len - n by omega]
      · rw [List.take_of_length_le (by rw [length_span]; exact hle), show l = c.wp by omega]
    · rw [stored_of_le (show l ≤ c.wp by omega), List.drop_append, length_span, ← hall,
        List.drop_of_length_le (by rw [length_span]; omega), List.nil_append]
      dsimp only
      rcases Nat.le_total (len - n) c.wp with hle | hle
      · rw [drop_span hle, show l = len - n by omega, Nat.zero_add]
      · rw [List.drop_of_length_le (by rw [length_span]; exact hle), show c.wp - l = 0 by omega,
          span_zero]
  · rw [if_neg hrest]
    have hle : len ≤ c.sz - c.rp := by omega
    have hnlen : n = len := by omega
    have htake : (span c.buf c.rp (c.sz - c.rp) ++ span c.buf 0 c.wp).take len =
        span c.buf c.rp len := by
      rw [List.take_append_of_le_length (by rw [length_span]; exact hle), take_span hle]
    have hdrop : (span c.buf c.rp (c.sz - c.rp) ++ span c.buf 0 c.wp).drop len =
        span c.buf (c.rp + len) (c.sz - c.rp - len) ++ span c.buf 0 c.wp := by
      rw [List.drop_append_of_le_length (by rw [length_span]; exact hle), drop_span hle]
    rw [htake, hdrop, hnlen]
    by_cases hend : c.rp + len = c.sz
    · rw [if_pos hend]
      refine ⟨⟨h1, Nat.zero_lt_of_lt h1⟩, rfl, rfl, ?_⟩
      rw [stored_of_le (Nat.zero_le c.wp), show c.sz - c.rp - len = 0 by omega, span_zero]
      rfl
    · rw [if_neg hend]
      refine ⟨⟨h1, ?_⟩, rfl, rfl, ?_⟩
      · show c.rp + len < c.sz
        omega
      · rw [stored_of_lt (show c.wp < c.rp + len by omega)]
        dsimp only
        rw [Nat.sub_sub]

end Cbuf
end Wrmos
