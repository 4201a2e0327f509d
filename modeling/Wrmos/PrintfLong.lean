import Wrmos.PrintfSpec

/-!
# Texts of any length

`render` and `vsnprintf_spec` are about texts that are shorter than `2 ^ 31` characters.  Here the text may be
of any length, in a buffer of less than four gigabytes.  The position counts modulo `2 ^ 32`, so behind
`2 ^ 32` characters the text begins to overwrite the buffer, and a position or the length of one conversion
that is negative as an `int` is an error.

`formatted` is the text with the position that the loop ends with.  A cell of the buffer that the text reaches
holds a character of the text that has its index modulo `2 ^ 32` (`Filled`); `vsnprintf_formatted` is the
result.
-/

namespace Wrmos
namespace Printf

open Lib (bind_eq_ok ensure_bind_of ok_bind)

variable {A : Arch} {w : Window} {o : Out} {s : Spec} {args rest : List Arg} {t l format : List Char}
  {ch : Char}
  {start sz ptr : Nat} {b : Nat → Char}

/-! ## The text and the position -/

/-- The text of the rest of a format behind `t`, and the position that the loop ends with. -/
def formatFrom (A : Arch) :
    List Char → Stage → Spec → List Arg → List Char → Except PrintFault (List Char × Nat)
  | [], _, _, _, t => .ok (t, t.length % 2 ^ 32)
  | ch :: format, parse, s, args, t =>
    if ch = '\x00' then .ok (t, t.length % 2 ^ 32)
    else if parse = .none then
      if ch = '%' then formatFrom A format .flags .zero args t
      else formatFrom A format parse s args (t ++ literalText ch)
    else do
      match ← parseSpec parse s args ch with
      | .more parse s args => formatFrom A format parse s args t
      | .done s args => do
        let (pr, args) ← specText A args s
        match pr.text? with
        | none => pure (t, minusOne)
        | some t' =>
          if 2 ^ 31 ≤ t'.length % 2 ^ 32 then pure (t ++ t'.map glyph, t'.length % 2 ^ 32)
          else formatFrom A format .none s args (t ++ t'.map glyph)

/-- **The text of a format** with its arguments, and the position that the loop ends with. -/
def formatted (A : Arch) (format : List Char) (args : List Arg) : Except PrintFault (List Char × Nat) :=
  formatFrom A format .none .zero args []

/-- The length that is returned: zero for a negative position. -/
def returned (ptr : Nat) : Nat := if 2 ^ 31 ≤ ptr then 0 else ptr

/-- Characters outside of a conversion. -/
theorem formatFrom_literal (hl : ∀ ch ∈ l, ch ≠ '\x00' ∧ ch ≠ '%') :
    formatFrom A (l ++ format) .none s args t =
      formatFrom A format .none s args (t ++ l.flatMap literalText) := by
  induction l generalizing t with
  | nil => rw [List.flatMap_nil, List.append_nil, List.nil_append]
  | cons ch l ih =>
    obtain ⟨hnull, hpercent⟩ := hl ch List.mem_cons_self
    rw [List.cons_append, formatFrom, if_neg hnull, if_pos rfl, if_neg hpercent,
      ih fun ch' hmem => hl ch' (List.mem_cons_of_mem _ hmem), List.flatMap_cons, List.append_assoc]

/-- A conversion of one character, without flags, a width, a precision and a length. -/
def bare (ch : Char) : Spec := ⟨specifierPresent, 0, 0, 0, .none, ch⟩

@[simp] theorem has_bare {flag : Nat} : (bare ch).has flag = false := by
  simp [Spec.has, bare]

/-- A conversion of one character, and a text of any length. -/
theorem formatFrom_bare_eq (hnull : ch ≠ '\x00')
    (hparse : parseFlags .zero args ch = .ok (.done (bare ch) args))
    (hspec : specText A args (bare ch) = .ok (.text l, rest)) :
    formatFrom A ('%' :: ch :: format) .none s args t =
      if 2 ^ 31 ≤ l.length % 2 ^ 32 then .ok (t ++ l, l.length % 2 ^ 32)
      else formatFrom A format .none (bare ch) rest (t ++ l) := by
  have hchars : (plain l).map glyph = l := by
    unfold plain
    rw [List.map_map]
    exact List.map_id _
  have hlen : (plain l).length = l.length := List.length_map _
  rw [formatFrom, if_neg (by decide), if_pos rfl, if_pos rfl, formatFrom, if_neg hnull, if_neg nofun]
  show (parseFlags .zero args ch >>= _) = _
  rw [hparse, ok_bind]
  dsimp only
  rw [hspec, ok_bind]
  show (if 2 ^ 31 ≤ (plain l).length % 2 ^ 32 then _ else _) = _
  rw [hlen, hchars]
  rfl

theorem formatFrom_bare (hnull : ch ≠ '\x00') (hparse : parseFlags .zero args ch = .ok (.done (bare ch) args))
    (hspec : specText A args (bare ch) = .ok (.text l, rest)) (hlen : l.length < 2 ^ 31) :
    formatFrom A ('%' :: ch :: format) .none s args t =
      formatFrom A format .none (bare ch) rest (t ++ l) := by
  rw [formatFrom_bare_eq hnull hparse hspec, if_neg (by omega)]

/-- The text of a number without flags, a width and a precision. -/
theorem intText_bare {val base : Nat} {positive : Bool} : intText val (bare ch) base positive =
    (if base = 10 ∧ positive = false then ['-'] else []) ++ numeral base val := by
  have hpad : ∀ {right : Bool} {len : Nat} {c : Char}, padding (bare ch) right len c = [] :=
    if_neg fun h => Nat.not_lt_zero _ h.2
  have hzeros : ∀ {len : Nat}, zeros (bare ch) len = [] := if_neg (Nat.not_lt_zero _)
  have hprefix : prefixText (bare ch) base = [] := by
    have halt : altPrefix (bare ch) base = 0 := by
      refine if_neg fun h => ?_
      rw [has_bare] at h
      exact Bool.false_ne_true h.1
    unfold prefixText
    rw [halt]
    rfl
  have hsign : signText (bare ch) base positive = if base = 10 ∧ positive = false then ['-'] else [] := by
    unfold signText sign
    by_cases hbase : base = 10
    · cases positive with
      | true => simp [hbase]
      | false => simp [hbase]
    · simp [hbase]
  unfold intText
  dsimp only
  rw [hpad, hpad, hzeros, hprefix, hsign, List.append_nil]
  rfl

theorem numeral_length {base val n : Nat} (hbase : 2 ≤ base) (hn : 0 < n) (hval : val < base ^ n) :
    (numeral base val).length ≤ n := by
  unfold numeral
  split_ifs with hzero
  · exact hn
  · rw [List.length_reverse, List.length_map]
    exact (Nat.digits_length_le_iff hbase val).mpr hval

/-! ## The buffer -/

/-- What `w` hands on begins at the position `start` of the text. -/
structure Window.From (w : Window) (start : Nat) : Prop where
  cap : w.cap < 2 ^ 32
  base : w.base = min w.cap (start % 2 ^ 32)
  sz : w.sz = w.cap - w.base

/-- The cells that the text reaches hold characters of it that have their indices modulo `2 ^ 32`. -/
def OfText (n : Nat) (t : List Char) (b : Nat → Char) : Prop :=
  ∀ i < n, ∃ j, j % 2 ^ 32 = i ∧ t[j]? = some (b i)

/-- The state of a printer that began at the position `start` of the text, when the text has come to `t`. -/
structure Filled (w : Window) (start : Nat) (t : List Char) (o : Out) : Prop where
  le : start ≤ t.length
  ptr : o.ptr = (t.length - start) % 2 ^ 32
  buf : OfText (min w.cap t.length) t o.buf

/-- One character more. -/
theorem Filled.addChar (hw : w.From start) (h : Filled w start t o) (ch : Char) :
    ∃ o', addChar w o ch = .ok o' ∧ Filled w start (t ++ [ch]) o' := by
  obtain ⟨hcap, hbase, hsz⟩ := hw
  obtain ⟨hle, hptr, hbuf⟩ := h
  have hlen : (t ++ [ch]).length = t.length + 1 := List.length_append
  have hold : ∀ {i j : Nat}, t[j]? = some (o.buf i) → (t ++ [ch])[j]? = some (o.buf i) := by
    intro i j hj
    rw [List.getElem?_append_left (List.getElem?_eq_some_iff.mp hj).1]
    exact hj
  have hnew : (t ++ [ch])[t.length]? = some ch := List.getElem?_concat_length
  have hlen' : (o.ptr + 1) % 2 ^ 32 = ((t ++ [ch]).length - start) % 2 ^ 32 := by
    rw [hlen, hptr]
    omega
  unfold Printf.addChar
  rw [Nat.mod_eq_of_lt (show w.sz < 2 ^ 32 by omega)]
  by_cases hlt : o.ptr < w.sz
  · have hin : w.base + o.ptr < w.cap := by omega
    have hindex : t.length % 2 ^ 32 = w.base + o.ptr := by omega
    rw [if_pos hlt]
    unfold store
    rw [ensure_bind_of hin]
    refine ⟨_, rfl, by omega, hlen', fun i hi => ?_⟩
    dsimp only
    by_cases hat : i = w.base + o.ptr
    · subst hat
      refine ⟨t.length, hindex, ?_⟩
      rw [Function.update_self]
      exact hnew
    · obtain ⟨j, hj, hget⟩ := hbuf i (by omega)
      rw [Function.update_of_ne hat]
      exact ⟨j, hj, hold hget⟩
  · -- a cell that the text comes to is stored to
    rw [if_neg hlt]
    refine ⟨_, rfl, by omega, hlen', fun i hi => ?_⟩
    obtain ⟨j, hj, hget⟩ := hbuf i (by omega)
    exact ⟨j, hj, hold hget⟩

/-- A string. -/
theorem Filled.addStr (hw : w.From start) : ∀ {l t : List Char} {o : Out}, Filled w start t o →
    ∃ o', addStr w l o = .ok o' ∧ Filled w start (t ++ l) o'
  | [], t, o, h => ⟨o, rfl, by rwa [List.append_nil]⟩
  | ch :: l, t, o, h => by
    obtain ⟨o₁, h₁, hfill⟩ := h.addChar hw ch
    obtain ⟨o₂, h₂, hfill⟩ := hfill.addStr hw (l := l)
    rw [List.append_assoc] at hfill
    exact ⟨o₂, bind_eq_ok.mpr ⟨o₁, h₁, h₂⟩, hfill⟩

theorem window_from (hsz : sz < 2 ^ 32) (hptr : ptr = start % 2 ^ 32) :
    Window.From ⟨sz, min (sz % 2 ^ 32) ptr, sz - min (sz % 2 ^ 32) ptr⟩ start := by
  rw [Nat.mod_eq_of_lt hsz, hptr]
  exact ⟨hsz, rfl, rfl⟩

/-- The whole buffer. -/
theorem whole_from (hsz : sz < 2 ^ 32) : Window.From ⟨sz, 0, sz⟩ 0 := ⟨hsz, (Nat.min_zero _).symm, rfl⟩

/-- A character outside of a conversion. -/
theorem Filled.literal (hsz : sz < 2 ^ 32) (h : Filled ⟨sz, 0, sz⟩ 0 t o) (ch : Char) :
    ∃ o', literal ⟨sz, 0, sz⟩ o ch = .ok o' ∧ Filled ⟨sz, 0, sz⟩ 0 (t ++ literalText ch) o' := by
  obtain ⟨o', ho', hfill⟩ := h.addStr (whole_from hsz) (l := literalText ch)
  refine ⟨o', ?_, hfill⟩
  rw [← ho']
  unfold Printf.literal literalText
  split_ifs with hch
  · rw [hch, show ['\n', '\r'] = ['\n'] ++ ['\r'] from rfl]
    simp only [addStr_append, addStr_singleton]
  · rw [addStr_singleton]
    exact bind_pure _

/-- What a conversion prints, when it is no error. -/
theorem Filled.emit {pr : Printed} {t' : Text} (hsz : sz < 2 ^ 32) (h : Filled ⟨sz, 0, sz⟩ 0 t o)
    (hpr : pr.text? = some t') :
    ∃ o', emit ⟨sz, min (sz % 2 ^ 32) o.ptr, sz - min (sz % 2 ^ 32) o.ptr⟩ o.buf args pr = .ok (o', args) ∧
      o'.ptr = t'.length % 2 ^ 32 ∧
      Filled ⟨sz, 0, sz⟩ 0 (t ++ t'.map glyph) ⟨o'.buf, (o.ptr + o'.ptr) % 2 ^ 32⟩ := by
  have hfrom := window_from hsz h.ptr
  have hstart : Filled ⟨sz, min (sz % 2 ^ 32) o.ptr, sz - min (sz % 2 ^ 32) o.ptr⟩ t.length t ⟨o.buf, 0⟩ :=
    ⟨le_rfl, by rw [Nat.sub_self, Nat.zero_mod], h.buf⟩
  have hptr := h.ptr
  rw [Nat.sub_zero] at hptr hfrom
  obtain ⟨o', ho', hfill⟩ := hstart.addStr hfrom (l := t'.map glyph)
  have hlen := hfill.ptr
  rw [List.length_append, Nat.add_sub_cancel_left, List.length_map] at hlen
  refine ⟨o', ?_, hlen, Nat.zero_le _, ?_, hfill.buf⟩
  · cases pr with
    | text l =>
      obtain rfl := Option.some.inj hpr
      have hchars : (plain l).map glyph = l := by
        unfold plain
        rw [List.map_map]
        exact List.map_id _
      rw [hchars] at ho'
      unfold Printf.emit
      dsimp only
      rw [ho']
      rfl
    | percent =>
      obtain rfl := Option.some.inj hpr
      have hchar : List.map glyph [none] = ['%'] := rfl
      rw [hchar, addStr_singleton] at ho'
      unfold Printf.addChar at ho'
      dsimp only at ho'
      rw [Nat.mod_eq_of_lt (show sz - min (sz % 2 ^ 32) o.ptr < 2 ^ 32 by omega), Nat.add_zero] at ho'
      unfold Printf.emit
      dsimp only
      split_ifs at ho' ⊢ with hroom
      · obtain ⟨buf, hbuf, ho'⟩ := bind_eq_ok.mp ho'
        obtain rfl := Except.ok.inj ho'
        rw [hbuf]
        rfl
      · obtain rfl := Except.ok.inj ho'
        rfl
    | error => cases hpr
  · dsimp only
    rw [hptr, hlen, Nat.sub_zero, List.length_append, List.length_map, ← Nat.add_mod]

/-! ## The result -/

/-- **The loop** ends at the position; when it is not negative, the buffer has the text. -/
theorem loop_formatted (hsz : sz < 2 ^ 32) : ∀ {format : List Char} {r : Run} {t : List Char}
    {u : List Char × Nat}, Filled ⟨sz, 0, sz⟩ 0 t r.out →
    formatFrom A format r.parse r.spec r.args t = .ok u →
    ∃ o, loop A sz format r = .ok o ∧ o.ptr = u.2 ∧ (u.2 < 2 ^ 31 → Filled ⟨sz, 0, sz⟩ 0 u.1 o)
  | [], r, t, u, hr, h => by
    obtain rfl := Except.ok.inj h
    exact ⟨r.out, rfl, hr.ptr, fun _ => hr⟩
  | ch :: format, r, t, u, hr, h => by
    unfold formatFrom at h
    unfold loop
    by_cases hnull : ch = '\x00'
    · rw [if_pos hnull] at h ⊢
      obtain rfl := Except.ok.inj h
      exact ⟨r.out, rfl, hr.ptr, fun _ => hr⟩
    rw [if_neg hnull] at h ⊢
    by_cases hparse : r.parse = .none
    · rw [if_pos hparse] at h ⊢
      by_cases hpercent : ch = '%'
      · rw [if_pos hpercent] at h ⊢
        exact loop_formatted hsz (r := ⟨.flags, .zero, r.args, r.out⟩) hr h
      · rw [if_neg hpercent] at h ⊢
        obtain ⟨o, ho, hfill⟩ := hr.literal hsz ch
        obtain ⟨o', ho', hend⟩ := loop_formatted hsz (r := { r with out := o }) hfill h
        exact ⟨o', bind_eq_ok.mpr ⟨o, ho, ho'⟩, hend⟩
    · rw [if_neg hparse] at h ⊢
      obtain ⟨p, hp, h⟩ := bind_eq_ok.mp h
      rw [hp, ok_bind]
      cases p with
      | more parse s args => exact loop_formatted hsz (r := ⟨parse, s, args, r.out⟩) hr h
      | done s args =>
        obtain ⟨⟨pr, args'⟩, hspec, h⟩ := bind_eq_ok.mp h
        dsimp only at h ⊢
        rw [vsnprintSpec_eq hspec]
        cases hpr : pr.text? with
        | none =>
          rw [hpr] at h
          obtain rfl := Except.ok.inj h
          cases pr with
          | text l => cases hpr
          | percent => cases hpr
          | error =>
            have hneg : ¬ minusOne < 2 ^ 31 := by decide
            exact ⟨⟨r.out.buf, minusOne⟩, rfl, rfl, fun hlt => absurd hlt hneg⟩
        | some t' =>
          rw [hpr] at h
          obtain ⟨o, ho, hptr, hfill⟩ := hr.emit hsz hpr
          rw [ho, ok_bind]
          dsimp only at h ⊢
          rw [hptr] at hfill ⊢
          by_cases hneg : 2 ^ 31 ≤ t'.length % 2 ^ 32
          · rw [if_pos hneg] at h ⊢
            obtain rfl := Except.ok.inj h
            exact ⟨o, rfl, hptr, fun hlt => absurd hneg (Nat.not_le.mpr hlt)⟩
          · rw [if_neg hneg] at h ⊢
            exact loop_formatted hsz (r := ⟨.none, s, args', o.buf, _⟩) hfill h

/-- **The result for a text of any length**: the characters before the null character are characters of the
text, and they are the text itself as far as it is shorter than `2 ^ 32`. -/
theorem vsnprintf_formatted (hf : formatted A format args = .ok (t, ptr)) (b : Nat → Char) (hpos : 0 < sz)
    (hsz : sz < 2 ^ 32) :
    (∃ o, loop A sz format ⟨.none, .zero, args, b, 0⟩ = .ok o ∧ o.ptr = ptr) ∧
      ∃ b', vsnprintf A b sz format args = .ok (b', returned ptr) ∧
        b' (min (returned ptr) (sz - 1)) = '\x00' ∧ OfText (min (returned ptr) (sz - 1)) t b' := by
  have hstart : Filled ⟨sz, 0, sz⟩ 0 [] ⟨b, 0⟩ := ⟨le_rfl, rfl, fun i hi => by simp at hi⟩
  obtain ⟨o, ho, hptr, hend⟩ := loop_formatted hsz (r := ⟨.none, .zero, args, ⟨b, 0⟩⟩) hstart hf
  dsimp only at hptr hend
  refine ⟨⟨o, ho, hptr⟩, ?_⟩
  unfold vsnprintf
  rw [ho, ok_bind, if_neg hpos.ne', hptr]
  unfold returned
  by_cases hneg : 2 ^ 31 ≤ ptr
  · rw [if_pos hneg, if_pos hneg, store_null hpos, Nat.zero_min]
    exact ⟨_, rfl, Function.update_self _ _ _, fun i hi => absurd hi (Nat.not_lt_zero i)⟩
  · rw [if_neg hneg, if_neg hneg]
    have hfill := hend (by omega)
    have hlen : ptr ≤ t.length := by
      have := hfill.ptr
      rw [hptr] at this
      omega
    have hstore : (if ptr < sz then store sz o.buf ptr '\x00' else store sz o.buf (sz - 1) '\x00') =
        .ok (Function.update o.buf (min ptr (sz - 1)) '\x00') := by
      split_ifs with hfits
      · rw [store_null hfits, Nat.min_eq_left (by omega)]
      · rw [store_null (by omega), Nat.min_eq_right (by omega)]
    rw [hstore]
    refine ⟨_, rfl, Function.update_self _ _ _, fun i hi => ?_⟩
    rw [Function.update_of_ne (by omega)]
    exact hfill.buf i (by dsimp only; omega)

/-- A text that the buffer has room for is stored. -/
theorem OfText.stored_eq (hfits : t.length < sz) (hsz : sz < 2 ^ 32) (h : OfText t.length t b) :
    stored b t.length sz = t := by
  have hmin : min t.length (sz - 1) = t.length := Nat.min_eq_left (by omega)
  unfold stored
  rw [hmin]
  refine List.ext_getElem (by rw [List.length_map, List.length_range]) fun i hi hi' => ?_
  rw [List.getElem_map, List.getElem_range]
  obtain ⟨j, hj, hget⟩ := h i hi'
  have hlt := (List.getElem?_eq_some_iff.mp hget).1
  obtain rfl : j = i := by omega
  exact Option.some.inj (hget.symm.trans (List.getElem?_eq_getElem hi'))

end Printf
end Wrmos
