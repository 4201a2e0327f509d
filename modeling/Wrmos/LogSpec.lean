import Wrmos.Log
import Wrmos.CbufSpec
import Wrmos.Lib.Pieces

/-!
# The strings of the kernel log

The strings of a text are its parts between newlines, without the return that may follow a newline.  They are
counted from the end, so string 0 is what follows the last newline, and is empty behind a complete line.

`strings` counts the newlines (`strings_eq`).  `get_string` takes the slot before the write pointer for the
end of string 0, but copies up to its end only, so it loses the last character of an incomplete line; and it
does not see the empty line in front of a newline at the start of the text.  It gives every other string
(`getString_iff`), after any writes that fit in the buffer (`log_lines_iff`).  `dump` does not ask for
string 0, so it prints the complete lines, the oldest first (`dump_eq`).
-/

namespace Wrmos
namespace LogBuf

open Cbuf (length_stored_cases length_stored_lt getElem?_stored)
open Lib (Ring piece Bounds Opens Closes)

variable {c : LogBuf} {t u v s : List Char} {a e k m len num : Nat}

/-! ## Strings -/

/-- A string without the return at its start. -/
def dropReturn (s : List Char) : List Char := if s.head? = some '\r' then s.tail else s

/-- The strings of a text, counted from its end; the empty text has none. -/
def line (t : List Char) (k : Nat) : Option (List Char) :=
  if t = [] then none else (piece '\n' t k).map dropReturn

/-- What `get_string` is to return and to copy. -/
def wanted (t : List Char) (k len : Nat) : Int × List Char :=
  ((line t k).map fun s => (((min len s.length : Nat) : Int), s.take len)).getD (-1, [])

/-! ## The slots of the characters -/

/-- The slot of character `i` of the text. -/
def slot (c : LogBuf) (i : Nat) : Nat := Ring.idx c.sz c.rp i

theorem slot_zero (h : c.Wf) : slot c 0 = c.rp := Ring.idx_zero h.rp_lt

theorem slot_length (h : c.Wf) : slot c c.stored.length = c.wp :=
  Ring.idx_eq h.wp_lt ((length_stored_cases h).imp_right And.left)

theorem slot_inj (ha : a < c.sz) (hk : k < c.sz) (hs : slot c a = slot c k) : a = k :=
  Ring.idx_inj ha hk hs

theorem slot_add (h : c.Wf) (hk : a + k < c.sz) : Ring.idx c.sz (slot c a) k = slot c (a + k) := by
  have hlt := Ring.idx_lt h.rp_lt hk
  have ha := Ring.idx_cases c.sz c.rp a
  have hsum := Ring.idx_cases c.sz c.rp (a + k)
  have halt := Ring.idx_lt (d := a) h.rp_lt (by omega)
  exact Ring.idx_eq hlt (by unfold slot; omega)

theorem prev_slot (h : c.Wf) (hm : m < c.sz) : prev c.sz (slot c (m + 1)) = slot c m := by
  have hrp := h.rp_lt
  have hm' := Ring.idx_cases c.sz c.rp m
  have hnext := Ring.idx_cases c.sz c.rp (m + 1)
  have hlt := Ring.idx_lt hrp hm
  have hlt' : Ring.idx c.sz c.rp (m + 1) < c.sz := by
    unfold Ring.idx
    split <;> omega
  unfold prev slot
  split <;> omega

/-- The slot at which the loops end is behind every character. -/
theorem prev_rp (h : c.Wf) : prev c.sz c.rp = slot c (c.sz - 1) := by
  have hpos := Nat.zero_lt_of_lt h.rp_lt
  have hself : slot c (c.sz - 1 + 1) = c.rp := by
    rw [Nat.sub_add_cancel hpos]
    exact Ring.idx_self c.sz c.rp
  rw [← hself]
  exact prev_slot h (Nat.sub_lt hpos Nat.one_pos)

theorem slot_ne_end (h : c.Wf) (hm : m < c.stored.length) : slot c m ≠ prev c.sz c.rp := by
  have hlen := length_stored_lt h
  rw [prev_rp h]
  intro hs
  have hm' := slot_inj (by omega) (by omega) hs
  omega

/-- The text up to a character, read backwards. -/
theorem reverse_take_succ (h : c.Wf) (hm : m < c.stored.length) :
    (c.stored.take (m + 1)).reverse = c.buf (slot c m) :: (c.stored.take m).reverse := by
  rw [List.take_add_one, getElem?_stored h hm]
  simp [slot]

/-! ## The loops -/

/-- The loop of `strings` counts the newlines. -/
theorem stringsFrom_eq (h : c.Wf) {fuel : Nat} (cnt : Nat) (hm : m ≤ c.stored.length) (hfuel : m < fuel) :
    stringsFrom c (prev c.sz c.rp) fuel (prev c.sz (slot c m)) cnt =
      .ok (cnt + (c.stored.take m).reverse.count '\n') := by
  induction m generalizing fuel cnt with
  | zero =>
    obtain ⟨fuel, rfl⟩ := Nat.exists_eq_succ_of_ne_zero (Nat.ne_zero_of_lt hfuel)
    rw [slot_zero h]
    simp [stringsFrom]
  | succ m ih =>
    obtain ⟨fuel, rfl⟩ := Nat.exists_eq_succ_of_ne_zero (Nat.ne_zero_of_lt hfuel)
    have hlen := length_stored_lt h
    rw [prev_slot h (by omega), stringsFrom, if_neg (slot_ne_end h hm), ih _ (by omega) (by omega),
      reverse_take_succ h hm, List.count_cons]
    by_cases hx : c.buf (slot c m) = '\n' <;> simp [hx]
    omega

/-- The search in a text that is read backwards: the places of the newline before the string, or of the
first character, and of the newline behind the string. -/
def scan : List Char → Nat → Nat → Option (Nat × Nat)
  | [], _, _ => none
  | x :: r, e, j =>
    if x = '\n' ∨ r = [] then if j = 0 then some (r.length, e) else scan r r.length (j - 1)
    else scan r e j

/-- The loop of `get_string` is the search. -/
theorem findFrom_eq (h : c.Wf) {fuel cnt : Nat} (e : Nat) (hm : m ≤ c.stored.length)
    (hfuel : m < fuel) (hcnt : cnt ≤ num) :
    findFrom c (prev c.sz c.rp) num fuel (prev c.sz (slot c m)) (slot c e) cnt =
      .ok ((scan (c.stored.take m).reverse e (num - cnt)).map (Prod.map (slot c) (slot c))) := by
  induction m generalizing fuel cnt e with
  | zero =>
    obtain ⟨fuel, rfl⟩ := Nat.exists_eq_succ_of_ne_zero (Nat.ne_zero_of_lt hfuel)
    rw [slot_zero h]
    simp [findFrom, scan]
  | succ m ih =>
    obtain ⟨fuel, rfl⟩ := Nat.exists_eq_succ_of_ne_zero (Nat.ne_zero_of_lt hfuel)
    have hlen := length_stored_lt h
    have hrest : (c.stored.take m).reverse.length = m := by
      rw [List.length_reverse, List.length_take]
      omega
    have hlast : prev c.sz (slot c m) = prev c.sz c.rp ↔ (c.stored.take m).reverse = [] := by
      rw [← List.length_eq_zero_iff, hrest]
      constructor
      · intro hs
        by_contra hne
        obtain ⟨m, rfl⟩ := Nat.exists_eq_succ_of_ne_zero hne
        rw [prev_slot h (by omega)] at hs
        exact slot_ne_end h (by omega) hs
      · rintro rfl
        rw [slot_zero h]
    rw [prev_slot h (by omega), findFrom, if_neg (slot_ne_end h hm), reverse_take_succ h hm, scan]
    dsimp only
    by_cases hevent : c.buf (slot c m) = '\n' ∨ (c.stored.take m).reverse = []
    · rw [if_pos (hevent.imp_right hlast.mpr), if_pos hevent]
      by_cases hfound : cnt = num
      · rw [if_pos hfound, if_pos (by omega), hrest]
        rfl
      · rw [if_neg hfound, if_neg (by omega), ih _ (by omega) (by omega) (by omega), hrest, Nat.sub_sub]
    · rw [if_neg (mt (Or.imp_right hlast.mp) hevent), if_neg hevent,
        ih _ (by omega) (by omega) hcnt]

/-! ## The search -/

/-- The search goes past newlines. -/
theorem scan_past {r : List Char} :
    scan (v ++ '\n' :: r) e (v.count '\n' + 1) = scan r r.length 0 := by
  induction v generalizing e with
  | nil => simp [scan]
  | cons x v ih =>
    rw [List.cons_append, scan, List.count_cons]
    by_cases hx : x = '\n'
    · rw [if_pos (.inl hx), if_neg (by omega), if_pos (by simp [hx])]
      exact ih
    · rw [if_neg (by simp [hx]), if_neg (by simp [hx])]
      exact ih

/-- The search goes past the strings behind the one it looks for. -/
theorem scan_closes {r : List Char} (h : Closes '\n' v k) :
    scan (v.reverse ++ r) e k = scan r (if k = 0 then e else r.length) 0 := by
  cases k with
  | zero =>
    obtain rfl : v = [] := h
    rfl
  | succ k =>
    obtain ⟨v', rfl, hk⟩ := h
    have hcount : v'.reverse.count '\n' = k := by rw [List.count_reverse, hk]
    have hpast := scan_past (v := v'.reverse) (e := e) (r := r)
    rw [hcount] at hpast
    rw [List.reverse_cons, List.append_assoc, List.singleton_append, hpast, if_neg (Nat.succ_ne_zero k)]

/-- It ends at the newline before the string. -/
theorem scan_newline {r : List Char} (hs : '\n' ∉ s) :
    scan (s ++ '\n' :: r) e 0 = some (r.length, e) := by
  induction s with
  | nil => simp [scan]
  | cons x s ih =>
    simp only [List.mem_cons, not_or] at hs
    rw [List.cons_append, scan, if_neg (by simp [Ne.symm hs.1]), ih hs.2]

/-- It ends at the first character of the text. -/
theorem scan_first (hs : '\n' ∉ s) (hne : s ≠ []) : scan s e 0 = some (0, e) := by
  induction s with
  | nil => exact absurd rfl hne
  | cons x s ih =>
    simp only [List.mem_cons, not_or] at hs
    rcases s with _ | ⟨y, s⟩
    · simp [scan]
    · rw [scan, if_neg (by simp [Ne.symm hs.1]), ih hs.2 (by simp)]

/-- It finds nothing in a text with fewer newlines. -/
theorem scan_eq_none (h : t.count '\n' < k) : scan t e k = none := by
  induction t generalizing e k with
  | nil => rfl
  | cons x t ih =>
    rw [List.count_cons] at h
    rw [scan]
    by_cases hx : x = '\n'
    · rw [if_pos (.inl hx), if_neg (by omega)]
      refine ih ?_
      simp [hx] at h
      omega
    · simp [hx] at h
      split
      · next hnil =>
        obtain rfl := hnil.resolve_left hx
        rw [if_neg (by omega)]
        rfl
      · exact ih h

/-! ## Copies -/

/-- The copy is what a read would give. -/
theorem copy_eq_read (c : LogBuf) (len a e : Nat) :
    (copy c len a e).2 = (Cbuf.read { c with rp := a, wp := e } len).2 ∧
      (copy c len a e).1 = (copy c len a e).2.length := by
  unfold copy Cbuf.read
  dsimp only
  by_cases heq : a = e
  · rw [if_pos heq, if_pos heq.symm]
    exact ⟨rfl, rfl⟩
  rw [if_neg heq, if_neg (Ne.symm heq)]
  by_cases hlt : a < e
  · rw [if_pos hlt, if_pos hlt]
    exact ⟨rfl, Cbuf.length_span.symm⟩
  rw [if_neg hlt, if_neg hlt]
  split
  · exact ⟨rfl, by simp⟩
  · exact ⟨rfl, Cbuf.length_span.symm⟩

/-- The buffer between two characters. -/
theorem stored_between (h : c.Wf) (ha : a ≤ e) (he : e ≤ c.stored.length) :
    (Cbuf.stored { c with rp := slot c a, wp := slot c e }) = (c.stored.drop a).take (e - a) := by
  have hlen := length_stored_lt h
  have hwf : Cbuf.Wf { c with rp := slot c a, wp := slot c e } :=
    ⟨Ring.idx_lt h.rp_lt (by omega), Ring.idx_lt h.rp_lt (by omega)⟩
  have ha' := Ring.idx_cases c.sz c.rp a
  have he' := Ring.idx_cases c.sz c.rp e
  have hcount : (Cbuf.stored { c with rp := slot c a, wp := slot c e }).length = e - a := by
    rw [Cbuf.length_stored_eq hwf]
    refine Ring.dist_eq hwf.wp_lt (by dsimp only; omega) ?_
    have halt := hwf.rp_lt
    have helt := hwf.wp_lt
    unfold slot at halt helt ⊢
    dsimp only at halt helt ⊢
    omega
  refine Cbuf.stored_of_slots hwf ?_ fun i hi => ?_
  · rw [hcount, List.length_take, List.length_drop]
    omega
  · rw [List.length_take, List.length_drop] at hi
    rw [List.getElem?_take_of_lt (by omega), List.getElem?_drop, getElem?_stored h (by omega)]
    show _ = some (c.buf (Ring.idx c.sz (slot c a) i))
    rw [slot_add h (by omega)]
    rfl

variable (len) in
/-- The copy of the characters between two places. -/
theorem copy_eq (h : c.Wf) (ha : a ≤ e) (he : e ≤ c.stored.length) :
    copy c len (slot c a) (slot c e) =
      (min len (e - a), ((c.stored.drop a).take (e - a)).take len) := by
  have hlen := length_stored_lt h
  have hwf : Cbuf.Wf { c with rp := slot c a, wp := slot c e } :=
    ⟨Ring.idx_lt h.rp_lt (by omega), Ring.idx_lt h.rp_lt (by omega)⟩
  obtain ⟨hread, hcount⟩ := copy_eq_read c len (slot c a) (slot c e)
  rw [(Cbuf.stored_read len hwf).2.2.1, stored_between h ha he] at hread
  refine Prod.ext ?_ hread
  rw [hcount, hread, List.length_take, List.length_take, List.length_drop]
  dsimp only
  omega

variable (len) in
/-- A copy that begins behind its end takes as much as there is room for in the whole buffer. -/
theorem length_copy_behind (h : c.Wf) (he : e + 1 ≤ c.stored.length) :
    (copy c len (slot c (e + 1)) (slot c e)).2.length = min len (c.sz - 1) := by
  have hlen := length_stored_lt h
  have hwf : Cbuf.Wf { c with rp := slot c (e + 1), wp := slot c e } :=
    ⟨Ring.idx_lt h.rp_lt (by omega), Ring.idx_lt h.rp_lt (by omega)⟩
  obtain ⟨hread, -⟩ := copy_eq_read c len (slot c (e + 1)) (slot c e)
  rw [hread, (Cbuf.stored_read len hwf).2.2.1, List.length_take, Cbuf.length_stored_eq hwf]
  congr 1
  have he' := Ring.idx_cases c.sz c.rp e
  have hnext := Ring.idx_cases c.sz c.rp (e + 1)
  have hrp := hwf.rp_lt
  have hwp := hwf.wp_lt
  refine Ring.dist_eq hwp (by dsimp only; omega) ?_
  unfold slot at hrp hwp ⊢
  dsimp only at hrp hwp ⊢
  omega

/-! ## The string that is found -/

/-- The place behind the newline and the return at a place. -/
def start (t : List Char) (p : Nat) : Nat :=
  let a := if t[p]? = some '\n' then p + 1 else p
  if t[a]? = some '\r' then a + 1 else a

theorem skip_slot (h : c.Wf) {x : Char} (ha : a < c.stored.length) :
    skip c x (slot c a) = slot c (if c.stored[a]? = some x then a + 1 else a) := by
  have hlen := length_stored_lt h
  have hnext : Ring.next c.sz (slot c a) = slot c (a + 1) := Ring.next_idx h.rp_lt (by omega)
  have hchar : c.stored[a]? = some (c.buf (slot c a)) := getElem?_stored h ha
  rw [skip, hchar, hnext]
  by_cases hx : c.buf (slot c a) = x <;> simp [hx]

theorem scan_lt {p : Nat} (h : scan t e k = some (p, a)) : p < t.length := by
  induction t generalizing e k with
  | nil => simp [scan] at h
  | cons x t ih =>
    rw [scan] at h
    split_ifs at h
    · simp at h
      simp [← h.1]
    · exact Nat.lt_succ_of_lt (ih h)
    · exact Nat.lt_succ_of_lt (ih h)

/-- `get_string`, by the search in the text. -/
theorem getString_eq (h : c.Wf) (ht : c.stored ≠ []) :
    getString c num len = .ok (((scan c.stored.reverse (c.stored.length - 1) num).map fun q =>
      if q.1 + 1 = c.stored.length then (0, [])
      else (((copy c len (slot c (start c.stored q.1)) (slot c q.2)).1 : Int),
        (copy c len (slot c (start c.stored q.1)) (slot c q.2)).2)).getD (-1, [])) := by
  have hlen := length_stored_lt h
  have hpos := List.length_pos_iff.mpr ht
  have hne : c.rp ≠ c.wp := by
    intro heq
    rw [Cbuf.stored_of_le (Nat.le_of_eq heq), heq, Nat.sub_self] at ht
    exact ht rfl
  have hbegin := prev_slot (m := c.stored.length - 1) h (by omega)
  rw [Nat.sub_add_cancel hpos, slot_length h] at hbegin
  have hfuel : c.stored.length < rounds c := by
    unfold rounds
    omega
  have hfind := findFrom_eq h (c.stored.length - 1) (Nat.le_refl _) hfuel (Nat.zero_le num)
  rw [slot_length h, ← hbegin, List.take_length, Nat.sub_zero] at hfind
  rw [getString, if_neg hne]
  dsimp only
  rw [hfind]
  rcases hscan : scan c.stored.reverse (c.stored.length - 1) num with _ | ⟨p, e⟩
  · rfl
  · have hp := scan_lt hscan
    rw [List.length_reverse] at hp
    have hlast : slot c p = prev c.sz c.wp ↔ p + 1 = c.stored.length := by
      rw [hbegin]
      constructor
      · intro hs
        have := slot_inj (by omega) (by omega) hs
        omega
      · rintro hs
        rw [← hs, Nat.add_sub_cancel]
    show Except.ok (if slot c p = prev c.sz c.wp then _ else _) = Except.ok (if p + 1 = _ then _ else _)
    by_cases hend : p + 1 = c.stored.length
    · rw [if_pos hend, if_pos (hlast.mpr hend)]
    · rw [if_neg hend, if_neg (mt hlast.mp hend), skip_slot h hp, skip_slot h (by split <;> omega)]
      rfl

theorem dropReturn_cases (s : List Char) :
    s.head? = some '\r' ∧ s = '\r' :: dropReturn s ∨ s.head? ≠ some '\r' ∧ dropReturn s = s := by
  unfold dropReturn
  by_cases hs : s.head? = some '\r'
  · left
    rcases s with _ | ⟨x, s⟩
    · simp at hs
    · simpa using hs
  · exact .inr ⟨hs, if_neg hs⟩

/-- Where the search ends for the string between its bounds, and where its characters begin. -/
theorem scan_bounds (h : Bounds '\n' u s v k) (hne : u ≠ [] ∨ s ≠ []) :
    ∃ p, scan (u ++ s ++ v).reverse e k = some (p, if k = 0 then e else (u ++ s).length) ∧
      (u = [] ∧ s ≠ [] ∧ p = 0 ∨ p + 1 = u.length) ∧
      start (u ++ s ++ v) p + (dropReturn s).length = u.length + s.length := by
  have hscan := scan_closes (e := e) (r := (u ++ s).reverse) h.closes
  rw [← List.reverse_append, List.length_reverse] at hscan
  rw [hscan, List.reverse_append]
  -- the first character behind the newline
  have hfirst : (u ++ s ++ v)[u.length]? = some '\r' ↔ s.head? = some '\r' := by
    rw [List.append_assoc, List.getElem?_append_right (Nat.le_refl _), Nat.sub_self]
    rcases s with _ | ⟨x, s⟩
    · have hv : v[0]? ≠ some '\r' := by
        cases k with
        | zero => simp [show v = [] from h.closes]
        | succ k =>
          obtain ⟨v', rfl, -⟩ := h.closes
          simp
      simpa using hv
    · simp
  have hstart : (if (u ++ s ++ v)[u.length]? = some '\r' then u.length + 1 else u.length) +
      (dropReturn s).length = u.length + s.length := by
    rcases dropReturn_cases s with ⟨hr, hs⟩ | ⟨hr, hs⟩
    · rw [if_pos (hfirst.mpr hr)]
      conv_rhs => rw [hs, List.length_cons]
      omega
    · rw [if_neg (mt hfirst.mp hr), hs]
  rcases h.opens with rfl | ⟨u', rfl⟩
  · have hs := hne.resolve_left (fun hu => hu rfl)
    refine ⟨0, ?_, .inl ⟨rfl, hs, rfl⟩, ?_⟩
    · rw [List.reverse_nil, List.append_nil]
      exact scan_first (by simpa using h.notMem) (by simpa using hs)
    · have hzero : ([] ++ s ++ v)[0]? ≠ some '\n' := by
        rcases s with _ | ⟨x, s⟩
        · exact absurd rfl hs
        · have hx := h.notMem
          simp only [List.mem_cons, not_or] at hx
          simpa using Ne.symm hx.1
      rw [start, if_neg hzero]
      exact hstart
  · refine ⟨u'.length, ?_, .inr (by simp), ?_⟩
    · rw [List.reverse_append]
      have hhit := scan_newline (s := s.reverse) (r := u'.reverse)
        (e := if k = 0 then e else (u' ++ ['\n'] ++ s).length) (by simpa using h.notMem)
      rw [List.length_reverse] at hhit
      exact hhit
    · have hnl : (u' ++ ['\n'] ++ s ++ v)[u'.length]? = some '\n' := by simp
      rw [start, if_pos hnl]
      rw [List.length_append, List.length_singleton] at hstart ⊢
      exact hstart

theorem drop_start (ha : a + (dropReturn s).length = u.length + s.length) :
    (u ++ s ++ v).drop a = dropReturn s ++ v := by
  rcases dropReturn_cases s with ⟨-, hs⟩ | ⟨-, hs⟩
  · have hcount := congrArg List.length hs
    rw [List.length_cons] at hcount
    rw [show a = u.length + 1 by omega, List.append_assoc, ← List.drop_drop, List.drop_left]
    conv_lhs => rw [hs]
    rfl
  · rw [hs] at ha ⊢
    rw [show a = u.length by omega, List.append_assoc, List.drop_left]

variable (len) in
theorem wanted_bounds (h : Bounds '\n' u s v k) (hne : u ++ s ++ v ≠ []) :
    wanted (u ++ s ++ v) k len =
      (((min len (dropReturn s).length : Nat) : Int), (dropReturn s).take len) := by
  rw [wanted, line, if_neg hne, h.piece]
  rfl

/-- The text behind the last newline. -/
def unfinished (t : List Char) : List Char := (piece '\n' t 0).getD []

/-- The calls of `get_string` that give what they should.  Of an unfinished line the last character must not
be asked for, and a line that has nothing but a return may be asked for nothing; and the line in front of a
newline at the start of the text may not be asked for. -/
def Gives (t : List Char) (k len : Nat) : Prop :=
  if k = 0 then
    unfinished t = [] ∨ len < (dropReturn (unfinished t)).length ∨
      unfinished t = ['\r'] ∧ (len = 0 ∨ t = ['\r'])
  else ¬ (t.head? = some '\n' ∧ k = t.count '\n')

instance (t : List Char) (k len : Nat) : Decidable (Gives t k len) := by unfold Gives; infer_instance

theorem getString_found (h : c.Wf) {p : Nat} (ht : c.stored = t) (hne : t ≠ [])
    (hscan : scan t.reverse (t.length - 1) num = some (p, e)) (hp : p + 1 ≠ t.length) :
    getString c num len = .ok (((copy c len (slot c (start t p)) (slot c e)).1 : Int),
      (copy c len (slot c (start t p)) (slot c e)).2) := by
  subst ht
  rw [getString_eq h hne, hscan]
  show Except.ok (if p + 1 = _ then _ else _) = _
  rw [if_neg hp]

/-- A complete line is given. -/
theorem getString_complete (h : c.Wf) (ht : c.stored = u ++ s ++ v) (hb : Bounds '\n' u s v (k + 1))
    (hne : u ≠ [] ∨ s ≠ []) :
    getString c (k + 1) len = .ok (wanted c.stored (k + 1) len) := by
  obtain ⟨v', rfl, -⟩ := hb.closes
  have htne : u ++ s ++ '\n' :: v' ≠ [] := by simp
  obtain ⟨p, hscan, hp, hstart⟩ := scan_bounds (e := (u ++ s ++ '\n' :: v').length - 1) hb hne
  have hlength : (u ++ s ++ '\n' :: v').length = u.length + s.length + v'.length + 1 := by
    simp [Nat.add_assoc]
  rw [if_neg (Nat.succ_ne_zero k)] at hscan
  have hlast : p + 1 ≠ (u ++ s ++ '\n' :: v').length := by
    rcases hp with ⟨-, hs, rfl⟩ | hp
    · have hpos := List.length_pos_iff.mpr hs
      omega
    · omega
  rw [getString_found h ht htne hscan hlast]
  set a := start (u ++ s ++ '\n' :: v') p
  have hdrop := drop_start (v := '\n' :: v') hstart
  have hcopy := copy_eq len (a := a) (e := (u ++ s).length) h
    (by rw [List.length_append]; omega) (by rw [ht, hlength, List.length_append]; omega)
  have hcount : (u ++ s).length - a = (dropReturn s).length := by
    rw [List.length_append]
    omega
  rw [hcopy, hcount, ht, hdrop, List.take_left, wanted_bounds len hb htne]

theorem unfinished_bounds (h : Bounds '\n' u s [] 0) : unfinished (u ++ s) = s := by
  have hpiece := h.piece
  rw [List.append_nil] at hpiece
  rw [unfinished, hpiece]
  rfl

/-- Of one character nothing is given. -/
theorem wanted_single {x : Char} : ((0 : Int), ([] : List Char)) =
      (((min len (dropReturn [x]).length : Nat) : Int), (dropReturn [x]).take len) ↔
    len < (dropReturn [x]).length ∨ x = '\r' := by
  by_cases hx : x = '\r'
  · subst hx
    exact iff_of_true (by simp [dropReturn]) (.inr rfl)
  · have hdrop : dropReturn [x] = [x] := if_neg (by simpa using hx)
    rw [hdrop, Prod.mk.injEq, List.length_singleton]
    constructor
    · rintro ⟨hlen, -⟩
      left
      omega
    · rintro (hlen | hreturn)
      · obtain rfl : len = 0 := by omega
        exact ⟨rfl, rfl⟩
      · exact absurd hreturn hx

/-- Of a line of which all but the last character is copied, the last may not be asked for. -/
theorem wanted_short (hs : s ≠ []) : ((((min len (s.length - 1) : Nat) : Int)),
      (s.take (s.length - 1)).take len) = (((min len s.length : Nat) : Int), s.take len) ↔
    len < s.length := by
  have hpos := List.length_pos_iff.mpr hs
  rw [Prod.mk.injEq]
  constructor
  · rintro ⟨hlen, -⟩
    omega
  · intro hlen
    rw [List.take_take, Nat.min_eq_left (show len ≤ s.length - 1 by omega),
      Nat.min_eq_left (Nat.le_of_lt hlen)]
    exact ⟨rfl, rfl⟩

variable (len) in
/-- A copy that begins behind its end should have given nothing. -/
theorem copy_behind (h : c.Wf) (he : e + 1 ≤ c.stored.length) :
    (((copy c len (slot c (e + 1)) (slot c e)).1 : Int), (copy c len (slot c (e + 1)) (slot c e)).2) =
      (0, []) ↔ len = 0 := by
  have hlen := length_stored_lt h
  have hcount := length_copy_behind len h he
  have hfst := (copy_eq_read c len (slot c (e + 1)) (slot c e)).2
  rw [Prod.mk.injEq]
  constructor
  · rintro ⟨-, hnil⟩
    rw [hnil, List.length_nil] at hcount
    omega
  · rintro rfl
    rw [Nat.zero_min, ← hfst] at hcount
    refine ⟨by rw [hcount]; rfl, ?_⟩
    rw [hcount] at hfst
    exact List.eq_nil_of_length_eq_zero hfst.symm

/-- The last line, complete or not. -/
theorem getString_zero (h : c.Wf) (ht : c.stored = u ++ s) (hb : Bounds '\n' u s [] 0)
    (htne : u ++ s ≠ []) :
    getString c 0 len = .ok (wanted c.stored 0 len) ↔ Gives c.stored 0 len := by
  have hne : u ≠ [] ∨ s ≠ [] := by
    by_contra hnone
    simp only [not_or, not_not] at hnone
    exact htne (by simp [hnone])
  obtain ⟨p, hscan, hp, hstart⟩ := scan_bounds (e := (u ++ s).length - 1) hb hne
  have hwanted := wanted_bounds len hb (by simpa using htne)
  rw [List.append_nil, if_pos rfl] at hscan
  rw [List.append_nil] at hstart hwanted
  rw [ht, hwanted, Gives, if_pos rfl, unfinished_bounds hb]
  have hlength : (u ++ s).length = u.length + s.length := List.length_append
  by_cases hend : p + 1 = (u ++ s).length
  · -- the search ends at the last character, and nothing is copied
    have hnone : getString c 0 len = .ok (0, []) := by
      rw [getString_eq h (ht ▸ htne), ht, hscan]
      exact congrArg Except.ok (if_pos hend)
    rw [hnone, Except.ok.injEq]
    rcases hp with ⟨rfl, hs, rfl⟩ | hp
    · have hone : s.length = 1 := by simpa using hend.symm
      obtain ⟨x, rfl⟩ := List.length_eq_one_iff.mp hone
      rw [wanted_single]
      by_cases hx : x = '\r' <;> simp [hx]
    · obtain rfl := List.eq_nil_of_length_eq_zero (show s.length = 0 by omega)
      simp [dropReturn]
  rw [getString_found h ht htne hscan hend, Except.ok.injEq]
  have hs : s ≠ [] := by
    rintro rfl
    rcases hp with ⟨-, hs, -⟩ | hp
    · exact hs rfl
    · exact hend (by simpa using hp)
  have hpos := List.length_pos_iff.mpr hs
  by_cases hreturn : dropReturn s = []
  · -- the line is a return, and the copy begins behind its end
    have hs' : s = ['\r'] := by
      rcases dropReturn_cases s with ⟨-, hcons⟩ | ⟨-, heq⟩
      · rw [hcons, hreturn]
      · exact absurd (heq.symm.trans hreturn) hs
    have hu : u ++ s ≠ ['\r'] := by
      intro hsingle
      have hone := congrArg List.length hsingle
      rw [hs', List.length_append] at hone
      obtain rfl := List.eq_nil_of_length_eq_zero (show u.length = 0 by simpa using hone)
      rcases hp with ⟨-, -, rfl⟩ | hp
      · exact hend (by rw [hs']; rfl)
      · simp at hp
    rw [hreturn, List.length_nil, Nat.add_zero] at hstart
    have hbehind := copy_behind len (e := u.length + s.length - 1) h (by rw [ht, hlength]; omega)
    rw [Nat.sub_add_cancel (by omega), ← hstart] at hbehind
    rw [hlength, ← hstart, hreturn, List.length_nil, Nat.min_zero, List.take_nil]
    refine hbehind.trans ⟨fun hlen => .inr (.inr ⟨hs', .inl hlen⟩), ?_⟩
    rintro (hnil | hlen | ⟨-, hlen | hsingle⟩)
    · exact absurd hnil hs
    · exact absurd hlen (Nat.not_lt_zero len)
    · exact hlen
    · exact absurd hsingle hu
  · have hdr := List.length_pos_iff.mpr hreturn
    have hcopy := copy_eq len (a := start (u ++ s) p) (e := (u ++ s).length - 1) h (by omega)
      (by rw [ht]; omega)
    have hcount : (u ++ s).length - 1 - start (u ++ s) p = (dropReturn s).length - 1 := by omega
    have hdrop := drop_start (v := []) hstart
    rw [List.append_nil, List.append_nil] at hdrop
    rw [hcopy, hcount, ht, hdrop, wanted_short hreturn]
    refine ⟨fun hlen => .inr (.inl hlen), ?_⟩
    rintro (hnil | hlen | ⟨hsingle, -⟩)
    · exact absurd hnil hs
    · exact hlen
    · rw [hsingle] at hreturn
      exact absurd rfl hreturn

theorem getString_empty (h : c.Wf) (ht : c.stored = []) : getString c k len = .ok (-1, []) := by
  have hlen := length_stored_cases h
  have hrp := h.rp_lt
  rw [ht, List.length_nil] at hlen
  rw [getString, if_pos (by omega)]

/-- The line in front of a newline at the start of the text is empty, and is not found. -/
theorem getString_newline (h : c.Wf) (ht : c.stored = v) (hb : Bounds '\n' [] [] v (k + 1)) :
    getString c (k + 1) len = .ok (-1, []) ∧ line c.stored (k + 1) = some [] := by
  have hne : v ≠ [] := by
    obtain ⟨v', rfl, -⟩ := hb.closes
    simp
  have hscan := scan_closes (e := v.length - 1) (r := []) hb.closes
  rw [List.append_nil] at hscan
  rw [getString_eq h (ht ▸ hne), ht, hscan, line, if_neg hne]
  have hpiece := hb.piece
  rw [List.append_nil, List.nil_append] at hpiece
  rw [hpiece]
  exact ⟨rfl, rfl⟩

variable (len) in
/-- A complete line is given, but for an empty one at the start of the text. -/
theorem getString_succ (h : c.Wf) (hk : k + 1 ≤ c.stored.count '\n') :
    Gives c.stored (k + 1) len ∧ getString c (k + 1) len = .ok (wanted c.stored (k + 1) len) ∨
      ¬ Gives c.stored (k + 1) len ∧ getString c (k + 1) len = .ok (-1, []) ∧
        line c.stored (k + 1) = some [] := by
  obtain ⟨u, s, v, ht, hb⟩ := Lib.exists_bounds hk
  have hcount := hb.count
  rw [← ht] at hcount
  rw [Gives, if_neg (Nat.succ_ne_zero k)]
  by_cases hne : u ≠ [] ∨ s ≠ []
  · refine .inl ⟨?_, getString_complete h ht hb hne⟩
    rintro ⟨hhead, hlast⟩
    -- no newline is left for the start of the text
    have hu : u.count '\n' = 0 := by omega
    rcases hb.opens with rfl | ⟨u', rfl⟩
    · rcases s with _ | ⟨x, s⟩
      · exact hne.elim (fun hu => hu rfl) fun hs => hs rfl
      · rw [ht] at hhead
        have hx : x = '\n' := by simpa using hhead
        exact hb.notMem (by simp [hx])
    · simp at hu
  · simp only [not_or, not_not] at hne
    obtain ⟨rfl, rfl⟩ := hne
    rw [List.nil_append, List.nil_append] at ht
    refine .inr ⟨not_not.mpr ⟨?_, ?_⟩, getString_newline h ht hb⟩
    · obtain ⟨v', rfl, -⟩ := hb.closes
      rw [ht]
      rfl
    · rw [hcount, List.count_nil, Nat.zero_add]

variable (len) in
/-- There are not so many lines. -/
theorem getString_none (h : c.Wf) (hk : c.stored.count '\n' < k) :
    line c.stored k = none ∧ getString c k len = .ok (-1, []) := by
  have hscan : scan c.stored.reverse (c.stored.length - 1) k = none :=
    scan_eq_none (by rwa [List.count_reverse])
  by_cases hempty : c.stored = []
  · exact ⟨if_pos hempty, getString_empty h hempty⟩
  · rw [line, if_neg hempty, Lib.piece_eq_none.mpr hk, getString_eq h hempty, hscan]
    exact ⟨rfl, rfl⟩

theorem gives_nil (k len : Nat) : Gives [] k len := by
  rw [Gives]
  split
  · exact .inl rfl
  · simp

/-- **A string** is given when, and only when, the call is one that gives it. -/
theorem getString_iff (h : c.Wf) (k len : Nat) :
    getString c k len = .ok (wanted c.stored k len) ↔ Gives c.stored k len := by
  by_cases hk : c.stored.count '\n' < k
  · obtain ⟨hline, hget⟩ := getString_none len h hk
    rw [hget, wanted, hline, Gives, if_neg (Nat.ne_zero_of_lt hk)]
    exact iff_of_true rfl fun hlast => absurd hlast.2 (Nat.ne_of_gt hk)
  cases k with
  | zero =>
    by_cases hempty : c.stored = []
    · rw [getString_empty h hempty, hempty]
      exact iff_of_true rfl (gives_nil 0 len)
    obtain ⟨u, s, v, ht, hb⟩ := Lib.exists_bounds (Nat.zero_le (c.stored.count '\n'))
    obtain rfl : v = [] := hb.closes
    rw [List.append_nil] at ht
    exact getString_zero h ht hb (ht ▸ hempty)
  | succ k =>
    rcases getString_succ len h (Nat.le_of_not_lt hk) with ⟨hgives, hget⟩ | ⟨hnot, hget, hline⟩
    · exact iff_of_true hget hgives
    · rw [hget, wanted, hline]
      exact iff_of_false (by simp) hnot

/-- **The number of strings** is the number of newlines. -/
theorem strings_eq (h : c.Wf) : strings c = .ok (c.stored.count '\n') := by
  have hlen := length_stored_lt h
  rw [strings]
  split
  · next heq =>
    rw [Cbuf.stored_of_le (Nat.le_of_eq heq), heq, Nat.sub_self]
    rfl
  · have hfuel : c.stored.length < rounds c := by
      unfold rounds
      omega
    have hcount := stringsFrom_eq h 0 (Nat.le_refl _) hfuel
    rw [slot_length h, List.take_length, List.count_reverse, Nat.zero_add] at hcount
    exact hcount

end LogBuf

namespace Log

open LogBuf

variable {sz : Nat} {texts : List (List Char)}

/-- What a log without a size holds. -/
theorem foldl_write_zero (buf : Nat → Char) (texts : List (List Char)) :
    texts.foldl write (init buf 0) = init buf 0 := by
  induction texts with
  | nil => rfl
  | cons t texts ih => exact ih

/-- The log holds the newest characters that were written. -/
theorem stored_writes (buf : Nat → Char) (hsz : 0 < sz) (hfits : Cbuf.AllFit (init buf sz) texts) :
    Cbuf.Wf (texts.foldl write (init buf sz)) ∧
      Cbuf.stored (texts.foldl write (init buf sz)) = texts.flatten.rtake (sz - 1) :=
  Cbuf.stored_overwrites (c := Cbuf.init buf sz) (q := []) ⟨hsz, hsz⟩ (by simp [Cbuf.stored, Cbuf.init])
    hfits

/-- **The lines of the log.**  After any texts that were written and fit, `strings` is the number of newlines
among the newest characters, and `get_string` gives string `k` of them when, and only when, the call is one
that gives it. -/
theorem log_lines_iff (buf : Nat → Char) (hfits : Cbuf.AllFit (init buf sz) texts) :
    strings (texts.foldl write (init buf sz)) = .ok ((texts.flatten.rtake (sz - 1)).count '\n') ∧
      ∀ k len, getString (texts.foldl write (init buf sz)) k len =
          .ok (wanted (texts.flatten.rtake (sz - 1)) k len) ↔
        Gives (texts.flatten.rtake (sz - 1)) k len := by
  rcases Nat.eq_zero_or_pos sz with rfl | hsz
  · rw [foldl_write_zero, Nat.zero_sub, List.rtake_zero]
    exact ⟨rfl, fun k len => iff_of_true rfl (gives_nil k len)⟩
  · obtain ⟨hwf, hstored⟩ := stored_writes buf hsz hfits
    rw [← hstored]
    exact ⟨strings_eq hwf, getString_iff hwf⟩

/-- Two texts around the end of the buffer, of which the second is not complete. -/
theorem log_lines_wrapped :
    Cbuf.AllFit (init (fun _ => ' ') 8) ["abc\n\r".toList, "cd\ne".toList] ∧
      getString (["abc\n\r".toList, "cd\ne".toList].foldl write (init (fun _ => ' ') 8)) 1 5 =
        .ok (2, "cd".toList) := by
  have hfits : Cbuf.AllFit (init (fun _ => ' ') 8) ["abc\n\r".toList, "cd\ne".toList] := by decide
  exact ⟨hfits, ((log_lines_iff _ hfits).2 1 5).mpr (by decide)⟩

/-- Of a line without a newline the last character is lost. -/
theorem unfinished_lost :
    getString (write (init (fun _ => ' ') 8) "abc".toList) 0 5 = .ok (2, "ab".toList) ∧
      wanted "abc".toList 0 5 = (3, "abc".toList) :=
  ⟨by decide, by decide⟩

/-! ## Printing -/

/-- What `dump` prints of a line: the prompt and at most 127 characters.  Nothing is printed of an empty line
behind which there is at most one more, or which is the first of the log. -/
def printed (prompt t : List Char) (i : Nat) : List Char :=
  (line t i).elim [] fun s =>
    if s = [] ∧ (i = 1 ∨ i = t.count '\n' ∧ t.head? = some '\n') then []
    else prompt ++ s.take 127 ++ "\r\n".toList ++ "\x1b[0m".toList

theorem dumpString_eq {c : LogBuf} {i : Nat} (h : c.Wf) (prompt : List Char) :
    dumpString c prompt (i + 1) = .ok (printed prompt c.stored (i + 1)) := by
  by_cases hk : c.stored.count '\n' < i + 1
  · obtain ⟨hline, hget⟩ := getString_none 127 h hk
    rw [dumpString, hget, printed, hline]
    rfl
  rcases getString_succ 127 h (Nat.le_of_not_lt hk) with ⟨hgives, hget⟩ | ⟨hnot, hget, hline⟩
  · rw [Gives, if_neg (Nat.succ_ne_zero i)] at hgives
    rw [dumpString, hget, printed, wanted]
    rcases line c.stored (i + 1) with _ | s
    · rfl
    · have hlen : ¬ ((min 127 s.length : Nat) : Int) < 0 := by omega
      have hempty : ((min 127 s.length : Nat) : Int) = 0 ↔ s = [] := by
        rw [← List.length_eq_zero_iff]
        omega
      show Except.ok (if ((min 127 s.length : Nat) : Int) < 0 then [] else if i + 1 = 1 ∧ _ = _ then [] else _) =
        Except.ok (if _ then _ else _)
      rw [if_neg hlen]
      congr 1
      refine if_congr ?_ rfl rfl
      rw [hempty]
      constructor
      · rintro ⟨hone, hs⟩
        exact ⟨hs, .inl hone⟩
      · rintro ⟨hs, hone | ⟨hlast, hhead⟩⟩
        · exact ⟨hone, hs⟩
        · exact absurd ⟨hhead, hlast⟩ hgives
  · rw [Gives, if_neg (Nat.succ_ne_zero i), not_not] at hnot
    rw [dumpString, hget, printed, hline]
    show Except.ok [] = Except.ok (if [] = [] ∧ _ then [] else _)
    rw [if_pos ⟨rfl, .inr ⟨hnot.2, hnot.1⟩⟩]

/-- The loop of `dump` prints the lines, the oldest of them first. -/
theorem dumpFrom_eq {c : LogBuf} (h : c.Wf) (prompt : List Char) (n : Nat) :
    dumpFrom c prompt n =
      .ok ((List.range n).reverse.flatMap fun i => printed prompt c.stored (i + 1)) := by
  induction n with
  | zero => rfl
  | succ n ih =>
    rw [dumpFrom, dumpString_eq h, ih, List.range_succ, List.reverse_append]
    rfl

/-- **The dump** of the log prints every complete line, the oldest first. -/
theorem dump_eq {c : LogBuf} (h : c.Wf) (prompt : List Char) :
    dump c prompt (-1) =
      .ok ((List.range (c.stored.count '\n')).reverse.flatMap fun i => printed prompt c.stored (i + 1)) := by
  rw [dump, if_pos rfl, strings_eq h]
  exact dumpFrom_eq h prompt _

end Log
end Wrmos
