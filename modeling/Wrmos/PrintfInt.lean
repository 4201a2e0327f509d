import Wrmos.PrintfSpec
import Wrmos.Lib.Numeral

/-!
# The numbers that `vsnprintf` prints

`readNumeral` reads a number as it stands in a text: blanks around it are padding, and what is left must be
a sign, the prefix of a hexadecimal number and digits, where zeros before the other digits count as digits.

A conversion prints the padding, the sign, the prefix, the zeros of the precision and the digits one after
the other, each under a condition of its own, so the zeros that pad a width come before the sign and the
prefix (`read_right`), or behind the digits (`read_left`).  `reads_iff` has the exact condition: the value
was fetched whole, and zeros pad nothing but a plain number.
-/

namespace Wrmos
namespace Printf

open Lib (isDigit value)

variable {A : Arch} {s : Spec} {base val n i j k : Nat} {positive : Bool} {l ds : List Char} {v : Int}

/-! ## Reading a number -/

/-- The text without the blanks around it. -/
def unpad (l : List Char) : List Char :=
  ((l.dropWhile (· == ' ')).reverse.dropWhile (· == ' ')).reverse

/-- Take the sign off; whether it is a minus. -/
def readSign (l : List Char) : Bool × List Char :=
  if l.head? = some '-' then (true, l.tail)
  else if l.head? = some '+' then (false, l.tail)
  else (false, l)

/-- Take the prefix of a hexadecimal number off. -/
def readPrefix (base : Nat) (l : List Char) : List Char :=
  if base = 16 ∧ l.take 2 = ['0', 'x'] then l.drop 2 else l

/-- The value of digits. -/
def readDigits (base : Nat) (l : List Char) : Option Nat :=
  if l ≠ [] ∧ ∀ ch ∈ l, isDigit base ch = true then some (value base l) else none

/-- **The number** that a text shows. -/
def readNumeral (base : Nat) (l : List Char) : Option Int :=
  (readDigits base (readPrefix base (readSign (unpad l)).2)).map fun v =>
    if (readSign (unpad l)).1 then -(v : Int) else v

theorem dropWhile_blanks (h : l.head? ≠ some ' ') :
    (List.replicate i ' ' ++ l).dropWhile (· == ' ') = l := by
  induction i with
  | zero =>
    cases l with
    | nil => rfl
    | cons ch l =>
      rw [List.head?_cons, ne_eq, Option.some.injEq] at h
      exact List.dropWhile_cons_of_neg (by simpa using h)
  | succ i ih =>
    rw [List.replicate_succ, List.cons_append, List.dropWhile_cons_of_pos (by decide)]
    exact ih

/-- Blanks are taken off on both sides. -/
theorem unpad_blanks (hhead : l.head? ≠ some ' ') (hlast : l.getLast? ≠ some ' ') :
    unpad (List.replicate i ' ' ++ (l ++ List.replicate j ' ')) = l := by
  have hback : ∀ {l : List Char} {j : Nat}, l.getLast? ≠ some ' ' →
      ((l ++ List.replicate j ' ').reverse.dropWhile (· == ' ')).reverse = l := by
    intro l j hl
    rw [List.reverse_append, List.reverse_replicate, dropWhile_blanks, List.reverse_reverse]
    rwa [List.head?_reverse]
  unfold unpad
  by_cases hnil : l = []
  · subst hnil
    have hall : ∀ {n : Nat}, (List.replicate n ' ').dropWhile (· == ' ') = [] := by
      intro n
      have h := dropWhile_blanks (l := []) (i := n) (by decide)
      rwa [List.append_nil] at h
    rw [List.nil_append, List.replicate_append_replicate, hall]
    rfl
  · rw [dropWhile_blanks, hback hlast]
    rwa [List.head?_append_of_ne_nil _ hnil]

/-- Digits, at least one. -/
structure Digits (base : Nat) (ds : List Char) : Prop where
  ne_nil : ds ≠ []
  all : ∀ ch ∈ ds, isDigit base ch = true

/-- A prefix of the base: none, or `0x` for sixteen. -/
def Prefix (base : Nat) (pre : List Char) : Prop := pre = [] ∨ base = 16 ∧ pre = ['0', 'x']

variable {pre : List Char}

theorem readDigits_of (h : Digits base ds) :
    readDigits base ds = some (value base ds) := if_pos ⟨h.ne_nil, h.all⟩

theorem not_isDigit_blank {ch : Char} (h : isDigit base ch = true) : ch ≠ ' ' ∧ ch ≠ '+' ∧ ch ≠ '-' := by
  refine ⟨?_, ?_, ?_⟩
  · rintro rfl
    cases h
  · rintro rfl
    cases h
  · rintro rfl
    cases h

theorem readPrefix_append (hpre : Prefix base pre) (h : Digits base ds) :
    readPrefix base (pre ++ ds) = ds := by
  unfold readPrefix
  rcases hpre with rfl | ⟨rfl, rfl⟩
  · refine if_neg ?_
    rintro ⟨rfl, htake⟩
    have hx : 'x' ∈ ds := by
      refine List.mem_of_mem_take (i := 2) ?_
      rw [List.nil_append] at htake
      rw [htake]
      decide
    exact absurd (h.all _ hx) (by decide)
  · exact if_pos ⟨rfl, rfl⟩

/-- A number without its sign begins with a digit. -/
theorem head_append (hpre : Prefix base pre) (h : Digits base ds) :
    ∃ ch, (pre ++ ds).head? = some ch ∧ isDigit base ch = true := by
  rcases hpre with rfl | ⟨rfl, rfl⟩
  · obtain ⟨ch, l, rfl⟩ := List.exists_cons_of_ne_nil h.ne_nil
    exact ⟨ch, rfl, h.all ch List.mem_cons_self⟩
  · exact ⟨'0', rfl, by decide⟩

theorem getLast_append (h : Digits base ds) (l : List Char) : (l ++ ds).getLast? ≠ some ' ' := by
  intro hlast
  rw [List.getLast?_append_of_ne_nil _ h.ne_nil] at hlast
  exact (not_isDigit_blank (h.all _ (List.mem_of_getLast? hlast))).1 rfl

/-- **A number is read** with its sign and its prefix, between blanks. -/
theorem readNumeral_of (hpre : Prefix base pre) (h : Digits base ds) {sgn : List Char}
    (hsgn : sgn = [] ∨ sgn = [' '] ∨ sgn = ['+'] ∨ sgn = ['-']) :
    readNumeral base (List.replicate i ' ' ++ (sgn ++ (pre ++ (ds ++ List.replicate j ' ')))) =
      some (if sgn = ['-'] then -(value base ds : Int) else value base ds) := by
  obtain ⟨ch, hhead, hch⟩ := head_append hpre h
  obtain ⟨hblank, hplus, hminus⟩ := not_isDigit_blank hch
  have hread : ∀ {l : List Char} {b : Bool}, readSign l = (b, pre ++ ds) → l.head? ≠ some ' ' →
      l.getLast? ≠ some ' ' → ∀ {i : Nat},
      readNumeral base (List.replicate i ' ' ++ (l ++ List.replicate j ' ')) =
        some (if b then -(value base ds : Int) else value base ds) := by
    intro l b hl h1 h2 i
    unfold readNumeral
    rw [unpad_blanks h1 h2, hl, readPrefix_append hpre h, readDigits_of h]
    rfl
  have hplain : ∀ {i : Nat},
      readNumeral base (List.replicate i ' ' ++ (pre ++ (ds ++ List.replicate j ' '))) = some (value base ds : Int) := by
    intro i
    rw [← List.append_assoc pre]
    refine hread (b := false) ?_ ?_ (getLast_append h pre)
    · unfold readSign
      rw [hhead, if_neg fun h => hminus (Option.some.inj h), if_neg fun h => hplus (Option.some.inj h)]
    · rw [hhead]
      exact fun h => hblank (Option.some.inj h)
  rcases hsgn with rfl | rfl | rfl | rfl
  · exact hplain
  · rw [show ([' '] : List Char) = List.replicate 1 ' ' from rfl, ← List.append_assoc,
      List.replicate_append_replicate]
    exact hplain
  · have hlast : ('+' :: (pre ++ ds)).getLast? ≠ some ' ' := getLast_append h ('+' :: pre)
    have hnumber := hread (l := '+' :: (pre ++ ds)) (b := false) (i := i) rfl (by simp) hlast
    rwa [List.cons_append, List.append_assoc] at hnumber
  · have hlast : ('-' :: (pre ++ ds)).getLast? ≠ some ' ' := getLast_append h ('-' :: pre)
    have hnumber := hread (l := '-' :: (pre ++ ds)) (b := true) (i := i) rfl (by simp) hlast
    rwa [List.cons_append, List.append_assoc] at hnumber

/-- A zero, and then something that is not of a number: nothing is read. -/
theorem readNumeral_none {ch : Char} (hhead : l.head? ≠ some 'x') (hlast : ('0' :: l).getLast? ≠ some ' ')
    (hch : ch ∈ l) (hnot : isDigit base ch = false) : readNumeral base ('0' :: l) = none := by
  have hunpad : unpad ('0' :: l) = '0' :: l := by
    have h := unpad_blanks (l := '0' :: l) (i := 0) (j := 0) (by simp) hlast
    rwa [List.replicate_zero, List.append_nil, List.nil_append] at h
  have hsign : readSign ('0' :: l) = (false, '0' :: l) := rfl
  have hpre : readPrefix base ('0' :: l) = '0' :: l := by
    refine if_neg ?_
    rintro ⟨-, htake⟩
    cases l with
    | nil => cases htake
    | cons c l =>
      rw [List.take_succ_cons, List.take_succ_cons, List.take_zero] at htake
      exact hhead (congrArg List.head? (List.cons.inj htake).2)
  unfold readNumeral
  rw [hunpad, hsign, hpre, readDigits, if_neg]
  · rfl
  · rintro ⟨-, hall⟩
    exact absurd (hall ch (List.mem_cons_of_mem _ hch)) (by simp [hnot])

/-! ## The parts of a number that is printed -/

theorem digitVal_digitChar : ∀ d < 16, Lib.digitVal (digitChar d) = some d := by
  decide

theorem digits_numeral (hbase : 2 ≤ base) (h16 : base ≤ 16) (val : Nat) : Digits base (numeral base val) := by
  unfold numeral
  split_ifs with h0
  · refine ⟨List.cons_ne_nil _ _, fun ch hch => ?_⟩
    rw [List.mem_singleton.mp hch]
    exact Lib.isDigit_iff.mpr ⟨0, by omega, rfl⟩
  · refine ⟨?_, Lib.isDigit_digits hbase (fun d hd => digitVal_digitChar d (by omega)) val⟩
    rw [ne_eq, List.reverse_eq_nil_iff, List.map_eq_nil_iff, Nat.digits_eq_nil_iff_eq_zero]
    exact h0

theorem value_numeral (hbase : 2 ≤ base) (h16 : base ≤ 16) (val : Nat) :
    value base (numeral base val) = val := by
  unfold numeral
  split_ifs with h0
  · rw [h0]
    exact Nat.zero_mul base
  · exact Lib.value_digits hbase (fun d hd => digitVal_digitChar d (by omega)) val

theorem Digits.zeros (h : Digits base ds) (hbase : 2 ≤ base) (n : Nat) :
    Digits base (List.replicate n '0' ++ ds) := by
  refine ⟨fun hnil => h.ne_nil (List.append_eq_nil_iff.mp hnil).2, fun ch hch => ?_⟩
  rcases List.mem_append.mp hch with hz | hd
  · rw [List.eq_of_mem_replicate hz]
    exact Lib.isDigit_iff.mpr ⟨0, by omega, rfl⟩
  · exact h.all ch hd

theorem Digits.append_zeros (h : Digits base ds) (hbase : 2 ≤ base) (n : Nat) :
    Digits base (ds ++ List.replicate n '0') := by
  refine ⟨fun hnil => h.ne_nil (List.append_eq_nil_iff.mp hnil).1, fun ch hch => ?_⟩
  rcases List.mem_append.mp hch with hd | hz
  · exact h.all ch hd
  · rw [List.eq_of_mem_replicate hz]
    exact Lib.isDigit_iff.mpr ⟨0, by omega, rfl⟩

/-- The prefix that makes a number hexadecimal. -/
def hexPrefix (s : Spec) (base : Nat) : List Char := if altPrefix s base = 16 then ['0', 'x'] else []

theorem altPrefix_cases (s : Spec) (base : Nat) :
    altPrefix s base = 0 ∨ altPrefix s base = 8 ∨ (altPrefix s base = 16 ∧ base = 16) := by
  unfold altPrefix
  split_ifs with h
  · rcases h.2 with rfl | rfl
    · exact .inr (.inl rfl)
    · exact .inr (.inr ⟨rfl, rfl⟩)
  · exact .inl rfl

/-- What comes behind the sign: the prefix of a hexadecimal number, and digits that may begin with zeros. -/
theorem number_text (s : Spec) (val : Nat) (hbase : 2 ≤ base) (h16 : base ≤ 16) :
    ∃ ds, Digits base ds ∧ value base ds = val ∧
    ∀ l, prefixText s base ++ (zeros s (numeral base val).length ++ (numeral base val ++ l)) =
      hexPrefix s base ++ (ds ++ l) := by
  have hzeros : ∃ n, zeros s (numeral base val).length = List.replicate n '0' := by
    unfold zeros
    split_ifs
    · exact ⟨_, rfl⟩
    · exact ⟨0, rfl⟩
  obtain ⟨n, hn⟩ := hzeros
  have hdigits := fun k => (digits_numeral hbase h16 val).zeros hbase k
  have hvalue := fun k => (Lib.value_zeros (k := k)).trans (value_numeral hbase h16 val)
  rw [hn]
  unfold prefixText hexPrefix
  rcases altPrefix_cases s base with h | h | ⟨h, -⟩
  · refine ⟨List.replicate n '0' ++ numeral base val, hdigits n, hvalue n, fun l => ?_⟩
    simp [h]
  · refine ⟨List.replicate (n + 1) '0' ++ numeral base val, hdigits _, hvalue _, fun l => ?_⟩
    simp [h, List.replicate_succ]
  · refine ⟨List.replicate n '0' ++ numeral base val, hdigits n, hvalue n, fun l => ?_⟩
    simp [h]

theorem prefix_hexPrefix (s : Spec) (base : Nat) : Prefix base (hexPrefix s base) := by
  unfold hexPrefix
  rcases altPrefix_cases s base with h | h | ⟨h, h16⟩
  · exact .inl (if_neg (by omega))
  · exact .inl (if_neg (by omega))
  · exact .inr ⟨h16, if_pos h⟩

theorem signText_cases (s : Spec) (base : Nat) (positive : Bool) :
    signText s base positive = [] ∨ signText s base positive = [' '] ∨ signText s base positive = ['+'] ∨
      signText s base positive = ['-'] := by
  unfold signText sign
  split_ifs <;> simp_all

/-- A minus is there for a negative number. -/
theorem signText_minus (s : Spec) (positive : Bool) :
    signText s base positive = ['-'] ↔ base = 10 ∧ positive = false := by
  unfold signText sign
  split_ifs <;> simp_all

/-! ## What a printed number shows -/

/-- Zeros pad the number. -/
def Zeroed (val : Nat) (s : Spec) (base : Nat) (positive : Bool) : Prop :=
  s.has nullPad = true ∧ intLen val s base positive < s.width

/-- The number with its sign. -/
def signed (base val : Nat) (positive : Bool) : Int := if base = 10 ∧ positive = false then -val else val

theorem intText_parts (val : Nat) (s : Spec) (positive : Bool) (hbase : 2 ≤ base) (h16 : base ≤ 16) :
    ∃ ds, Digits base ds ∧ value base ds = val ∧
    intText val s base positive =
      padding s false (intLen val s base positive) (if s.has nullPad then '0' else ' ') ++
        (signText s base positive ++ (hexPrefix s base ++ (ds ++
          padding s true (intLen val s base positive) (if s.has nullPad then '0' else ' ')))) := by
  obtain ⟨ds, hds, hval, htext⟩ := number_text s val hbase h16
  refine ⟨ds, hds, hval, ?_⟩
  unfold intText
  dsimp only
  rw [htext]

theorem padding_of {right : Bool} {len : Nat} {ch : Char} (h : s.has alignLeft = right)
    (hlt : len < s.width) :
    padding s right len ch = List.replicate (s.width - len) ch := if_pos ⟨h, hlt⟩

theorem padding_of_ne {right : Bool} {len : Nat} {ch : Char} (h : s.has alignLeft ≠ right) :
    padding s right len ch = [] := if_neg fun hpad => h hpad.1

/-- **Without zeros** around it the number is read. -/
theorem read_plain (hbase : 2 ≤ base) (h16 : base ≤ 16) (h : ¬ Zeroed val s base positive) :
    readNumeral base (intText val s base positive) = some (signed base val positive) := by
  have hblank : ∀ right, ∃ n, padding s right (intLen val s base positive)
      (if s.has nullPad then '0' else ' ') = List.replicate n ' ' := by
    intro right
    unfold padding
    split_ifs with hpad hnull
    · exact absurd ⟨hnull, hpad.2⟩ h
    · exact ⟨_, rfl⟩
    · exact ⟨0, rfl⟩
  obtain ⟨ds, hds, hval, htext⟩ := intText_parts val s positive hbase h16
  obtain ⟨i, hi⟩ := hblank false
  obtain ⟨j, hj⟩ := hblank true
  rw [htext, hi, hj, readNumeral_of (prefix_hexPrefix s base) hds (signText_cases s base positive), hval]
  refine congrArg some (if_congr (signText_minus s positive) rfl rfl)

/-- **Zeros on the right** multiply the number. -/
theorem read_left (hbase : 2 ≤ base) (h16 : base ≤ 16) (h : Zeroed val s base positive)
    (hleft : s.has alignLeft = true) :
    readNumeral base (intText val s base positive) =
      some (signed base val positive * base ^ (s.width - intLen val s base positive)) := by
  obtain ⟨ds, hds, hval, htext⟩ := intText_parts val s positive hbase h16
  have hread := readNumeral_of (i := 0) (j := 0) (prefix_hexPrefix s base)
    (hds.append_zeros hbase (s.width - intLen val s base positive)) (signText_cases s base positive)
  rw [Lib.value_append_zeros, hval, List.replicate_zero, List.nil_append, List.append_nil] at hread
  rw [htext, if_pos h.1, padding_of_ne (by simp [hleft]), padding_of hleft h.2, List.nil_append, hread]
  unfold signed
  refine congrArg some ((if_congr (signText_minus s positive) rfl rfl).trans ?_)
  split_ifs <;> push_cast <;> ring

/-- **Zeros on the left** come before the sign and the prefix. -/
theorem read_right (hbase : 2 ≤ base) (h16 : base ≤ 16) (h : Zeroed val s base positive)
    (hright : s.has alignLeft = false) :
    readNumeral base (intText val s base positive) =
      if sign s base positive = '\x00' ∧ altPrefix s base ≠ 16 then some (signed base val positive)
      else none := by
  obtain ⟨ds, hds, hval, htext⟩ := intText_parts val s positive hbase h16
  obtain ⟨n, hn⟩ : ∃ n, s.width - intLen val s base positive = n + 1 :=
    ⟨s.width - intLen val s base positive - 1, by have := h.2; omega⟩
  have hzeros : intText val s base positive =
      List.replicate (n + 1) '0' ++ (signText s base positive ++ (hexPrefix s base ++ ds)) := by
    rw [htext, if_pos h.1, padding_of hright h.2, padding_of_ne (by simp [hright]), hn, List.append_nil]
  rw [hzeros]
  by_cases hplain : sign s base positive = '\x00' ∧ altPrefix s base ≠ 16
  · have hsgn : signText s base positive = [] := if_neg (not_not_intro hplain.1)
    have hread := readNumeral_of (i := 0) (j := 0) (.inl rfl) (hds.zeros hbase (n + 1)) (.inl (rfl : [] = []))
    rw [Lib.value_zeros, hval, List.replicate_zero, List.nil_append, List.append_nil, List.nil_append,
      List.nil_append, if_neg (by decide)] at hread
    have hpos : ¬ (base = 10 ∧ positive = false) := fun hneg => by
      have hminus := (signText_minus s positive).mpr hneg
      rw [hsgn] at hminus
      cases hminus
    rw [if_pos hplain, hsgn, hexPrefix, if_neg hplain.2, List.nil_append, List.nil_append, hread, signed,
      if_neg hpos]
  · rw [if_neg hplain, List.replicate_succ, List.cons_append]
    have hlast :
        ('0' :: (List.replicate n '0' ++ (signText s base positive ++ (hexPrefix s base ++ ds)))).getLast? ≠
        some ' ' := by
      rw [← List.append_assoc (signText s base positive), ← List.append_assoc, ← List.cons_append]
      exact getLast_append hds _
    -- the first character behind the zeros, and one that is no digit
    obtain ⟨c, r, hcr, hx, d, hd, hnot⟩ :
        ∃ c r, signText s base positive ++ (hexPrefix s base ++ ds) = c :: r ∧
        c ≠ 'x' ∧ ∃ d ∈ c :: r, isDigit base d = false := by
      by_cases hsgn : sign s base positive = '\x00'
      · have h16' : altPrefix s base = 16 := by
          by_contra hne
          exact hplain ⟨hsgn, hne⟩
        obtain rfl : base = 16 := by
          rcases altPrefix_cases s base with h0 | h8 | ⟨-, hb⟩ <;> omega
        rw [signText, if_neg (not_not_intro hsgn), hexPrefix, if_pos h16']
        exact ⟨'0', 'x' :: ds, rfl, by decide, 'x', by simp, by decide⟩
      · rcases signText_cases s base positive with h0 | hc | hc | hc
        · rw [signText, if_pos hsgn] at h0
          cases h0
        · rw [hc]
          exact ⟨' ', _, rfl, by decide, ' ', List.mem_cons_self, rfl⟩
        · rw [hc]
          exact ⟨'+', _, rfl, by decide, '+', List.mem_cons_self, rfl⟩
        · rw [hc]
          exact ⟨'-', _, rfl, by decide, '-', List.mem_cons_self, rfl⟩
    refine readNumeral_none ?_ hlast (List.mem_append_right _ (hcr ▸ hd)) hnot
    rw [hcr]
    cases n with
    | zero => exact fun hc => hx (Option.some.inj hc)
    | succ n => exact fun hc => absurd (Option.some.inj hc) (by decide)

/-- The length that is computed is that of the number, unless it wraps. -/
theorem intLen_le (val : Nat) (s : Spec) (base : Nat) (positive : Bool) :
    intLen val s base positive ≤ (signText s base positive).length +
    ((prefixText s base).length +
      ((zeros s (numeral base val).length).length + (numeral base val).length)) := by
  have hzeros : (zeros s (numeral base val).length).length + (numeral base val).length =
      max (numeral base val).length s.precision := by
    unfold zeros
    split_ifs with hlt
    · rw [List.length_replicate]
      omega
    · rw [List.length_nil]
      omega
  have hsign : (signText s base positive).length = if sign s base positive ≠ '\x00' then 1 else 0 := by
    unfold signText
    split_ifs <;> rfl
  have hprefix : (prefixText s base).length =
      if altPrefix s base = 16 then 2 else if altPrefix s base = 8 then 1 else 0 := by
    unfold prefixText
    rcases altPrefix_cases s base with h | h | ⟨h, -⟩ <;> rw [h] <;> rfl
  rw [hzeros, hsign, hprefix]
  unfold intLen
  omega

/-- **The text has at least the width.** -/
theorem width_le : s.width ≤ (intText val s base positive).length := by
  have hle := intLen_le val s base positive
  unfold intText
  simp only [List.length_append]
  by_cases hlt : intLen val s base positive < s.width
  · cases hleft : s.has alignLeft with
    | true =>
      rw [padding_of hleft hlt, List.length_replicate]
      omega
    | false =>
      rw [padding_of hleft hlt, List.length_replicate]
      omega
  · omega

/-! ## The value of an argument -/

/-- The number of bits of the type that a length modifier names. -/
def typeBits (A : Arch) : Length → Nat
  | .none => 32
  | .hh => 8
  | .h => 16
  | .l => A.wordBits
  | .z => A.wordBits
  | .t => A.wordBits
  | _ => 64

/-- The conversions that print a number: `d` and `i` a signed one, `u`, `o` and `x` an unsigned one. -/
def IsSigned (s : Spec) : Prop := s.specifier = 'd' ∨ s.specifier = 'i'

def IsUnsigned (s : Spec) : Prop := s.specifier = 'u' ∨ s.specifier = 'o' ∨ s.specifier = 'x'

instance (s : Spec) : Decidable (IsSigned s) := by
  unfold IsSigned; infer_instance

/-- The base of a conversion. -/
def convBase (s : Spec) : Nat := if IsSigned s then 10 else baseOf s.specifier

/-- The value belongs to the type that the length modifier names. -/
def OfType (A : Arch) (s : Spec) (v : Int) : Prop :=
  if IsSigned s then -2 ^ (typeBits A s.length - 1) ≤ v ∧ v < 2 ^ (typeBits A s.length - 1)
  else 0 ≤ v ∧ v < 2 ^ typeBits A s.length

/-- The value that is fetched. -/
def fetched (A : Arch) (s : Spec) (v : Int) : Int :=
  if IsSigned s then vaSigned A s.length v else vaUnsigned A s.length v

/-- A length modifier whose negative values are read as unsigned ones. -/
def Masked (A : Arch) (length : Length) : Prop := length = .hh ∨ length = .h ∨ (length = .z ∧ A.wordBits = 32)

/-- The value is fetched as it is: it is not a negative number in a type that is narrower than `int` or
that the code reads as `size_t` of 32 bits, and not the upper half of an unsigned `ptrdiff_t` of 32 bits. -/
def Whole (A : Arch) (s : Spec) (v : Int) : Prop :=
  if IsSigned s then Masked A s.length → 0 ≤ v
  else s.length = .t ∧ A.wordBits = 32 → v < 2 ^ 31

/-- A signed value is what is left of it in its size. -/
theorem bmod_of_range {n : Nat} (hn : 0 < n) (hlo : -2 ^ (n - 1) ≤ v) (hhi : v < 2 ^ (n - 1)) :
    Int.bmod v (2 ^ n) = v := by
  have hpow : ((2 ^ n : Nat) : Int) = 2 * 2 ^ (n - 1) := by
    rw [← pow_succ', Nat.sub_add_cancel hn]
    push_cast
    rfl
  refine Int.bmod_eq_of_le_mul_two ?_ ?_
  · rw [hpow]
    omega
  · rw [hpow]
    omega

theorem toUnsigned_of_range {n : Nat} (hlo : 0 ≤ v) (hhi : v < 2 ^ n) : (toUnsigned n v : Int) = v := by
  unfold toUnsigned
  rw [Int.emod_eq_of_lt hlo hhi, Int.toNat_of_nonneg hlo]

/-- A negative value, read as an unsigned one. -/
theorem toUnsigned_of_neg {n : Nat} (hn : 0 < n) (hlo : -2 ^ (n - 1) ≤ v) (hneg : v < 0) :
    (toUnsigned n v : Int) = v + 2 ^ n := by
  have hpow : (2 : Int) ^ n = 2 * 2 ^ (n - 1) := by
    rw [← pow_succ', Nat.sub_add_cancel hn]
  have hpos : (0 : Int) < 2 ^ (n - 1) := by positivity
  unfold toUnsigned
  rw [← Int.add_emod_right, Int.emod_eq_of_lt (by omega) (by omega), Int.toNat_of_nonneg (by omega)]

theorem wordBits_cases (A : Arch) : A.wordBits = 32 ∨ A.wordBits = 64 := by
  cases A <;> decide

/-- A value that is masked to `n` bits. -/
theorem masked_cases {n : Nat} (hn : 0 < n) (hlo : -2 ^ (n - 1) ≤ v) (hhi : v < 2 ^ (n - 1)) :
    (0 ≤ v ∧ (toUnsigned n v : Int) = v) ∨ (v < 0 ∧ 0 < (toUnsigned n v : Int)) := by
  have hpow : (2 : Int) ^ n = 2 * 2 ^ (n - 1) := by
    rw [← pow_succ', Nat.sub_add_cancel hn]
  have hpos : (0 : Int) < 2 ^ (n - 1) := by positivity
  rcases Int.lt_or_le v 0 with hneg | hnn
  · rw [toUnsigned_of_neg hn hlo hneg]
    exact .inr ⟨hneg, by omega⟩
  · exact .inl ⟨hnn, toUnsigned_of_range hnn (by omega)⟩

/-- A `size_t` is read through an `int64_t`. -/
theorem size_cases (hlo : -2 ^ (A.wordBits - 1) ≤ v) (hhi : v < 2 ^ (A.wordBits - 1)) :
    ((A.wordBits = 32 → 0 ≤ v) ∧ vaSigned A .z v = v) ∨ (A.wordBits = 32 ∧ v < 0 ∧ 0 < vaSigned A .z v) := by
  have heq : vaSigned A .z v = Int.bmod (toUnsigned A.wordBits v) (2 ^ 64) := rfl
  rcases wordBits_cases A with hw | hw
  · rw [hw] at hlo hhi
    have hlt := toUnsigned_lt 32 v
    rw [heq, hw, bmod_of_range (n := 64) (by decide) (by omega) (by omega)]
    rcases masked_cases (n := 32) (by decide) hlo hhi with ⟨hnn, hsame⟩ | hneg
    · exact .inl ⟨fun _ => hnn, hsame⟩
    · exact .inr ⟨rfl, hneg⟩
  · rw [hw] at hlo hhi
    have hcast : ((2 : Int) ^ 64) = ((2 ^ 64 : Nat) : Int) := by norm_num
    rw [heq, hw]
    refine .inl ⟨fun h => absurd h (by decide), ?_⟩
    unfold toUnsigned
    rw [Int.toNat_of_nonneg (Int.emod_nonneg v (by norm_num)), hcast, Int.emod_bmod]
    exact bmod_of_range (n := 64) (by decide) hlo hhi

/-- A signed value is fetched as it is, unless it is a negative one that is masked. -/
theorem vaSigned_cases {length : Length} (hlo : -2 ^ (typeBits A length - 1) ≤ v)
    (hhi : v < 2 ^ (typeBits A length - 1)) :
    ((Masked A length → 0 ≤ v) ∧ vaSigned A length v = v) ∨
      (Masked A length ∧ v < 0 ∧ 0 < vaSigned A length v) := by
  have hword : 0 < A.wordBits := by
    rcases wordBits_cases A with h | h <;> omega
  have hno : ∀ {length : Length}, length ≠ .hh → length ≠ .h → length ≠ .z → Masked A length → 0 ≤ v := by
    intro length h1 h2 h3 h
    rcases h with h | h | h
    · exact absurd h h1
    · exact absurd h h2
    · exact absurd h.1 h3
  cases length with
  | none => exact .inl ⟨hno nofun nofun nofun, bmod_of_range (n := 32) (by decide) hlo hhi⟩
  | hh =>
    rcases masked_cases (n := 8) (by decide) hlo hhi with ⟨hnn, hsame⟩ | hneg
    · exact .inl ⟨fun _ => hnn, hsame⟩
    · exact .inr ⟨.inl rfl, hneg⟩
  | h =>
    rcases masked_cases (n := 16) (by decide) hlo hhi with ⟨hnn, hsame⟩ | hneg
    · exact .inl ⟨fun _ => hnn, hsame⟩
    · exact .inr ⟨.inr (.inl rfl), hneg⟩
  | l => exact .inl ⟨hno nofun nofun nofun, bmod_of_range hword hlo hhi⟩
  | ll => exact .inl ⟨hno nofun nofun nofun, bmod_of_range (n := 64) (by decide) hlo hhi⟩
  | j => exact .inl ⟨hno nofun nofun nofun, bmod_of_range (n := 64) (by decide) hlo hhi⟩
  | z =>
    rcases size_cases hlo hhi with ⟨hnn, hsame⟩ | ⟨hw, hneg⟩
    · refine .inl ⟨fun h => ?_, hsame⟩
      rcases h with h | h | h
      · cases h
      · cases h
      · exact hnn h.2
    · exact .inr ⟨.inr (.inr ⟨rfl, hw⟩), hneg⟩
  | t => exact .inl ⟨hno nofun nofun nofun, bmod_of_range hword hlo hhi⟩
  | L => exact .inl ⟨hno nofun nofun nofun, bmod_of_range (n := 64) (by decide) hlo hhi⟩

/-- A `ptrdiff_t` is widened with its sign. -/
theorem ptrdiff_cases (hlo : 0 ≤ v) (hhi : v < 2 ^ A.wordBits) :
    ((A.wordBits = 32 → v < 2 ^ 31) ∧ (vaUnsigned A .t v : Int) = v) ∨
      (A.wordBits = 32 ∧ 2 ^ 31 ≤ v ∧ v < (vaUnsigned A .t v : Int)) := by
  have heq : vaUnsigned A .t v = toUnsigned 64 (Int.bmod v (2 ^ A.wordBits)) := rfl
  rcases wordBits_cases A with hw | hw
  · rw [hw] at hhi
    rw [heq, hw]
    rcases Int.lt_or_le v (2 ^ 31) with hsmall | hlarge
    · rw [bmod_of_range (n := 32) (by decide) (by omega) hsmall]
      exact .inl ⟨fun _ => hsmall, toUnsigned_of_range hlo (by omega)⟩
    · have hmod : Int.bmod v (2 ^ 32) = v - 2 ^ 32 := by
        have hcast : ((2 ^ 32 : Nat) : Int) = 2 ^ 32 := by norm_num
        rw [Int.bmod_def, hcast, Int.emod_eq_of_lt hlo hhi, if_neg (by omega)]
      rw [hmod, toUnsigned_of_neg (by decide) (by omega) (by omega)]
      exact .inr ⟨rfl, hlarge, by omega⟩
  · rw [hw] at hhi
    have hcast : ((2 : Int) ^ 64) = ((2 ^ 64 : Nat) : Int) := by norm_num
    rw [heq, hw]
    refine .inl ⟨fun h => absurd h (by decide), ?_⟩
    unfold toUnsigned
    rw [hcast, Int.bmod_emod, ← hcast]
    exact toUnsigned_of_range hlo hhi

/-- An unsigned value is fetched as it is, unless it is the upper half of a `ptrdiff_t` of 32 bits. -/
theorem vaUnsigned_cases {length : Length} (hlo : 0 ≤ v) (hhi : v < 2 ^ typeBits A length) :
    ((length = .t ∧ A.wordBits = 32 → v < 2 ^ 31) ∧ (vaUnsigned A length v : Int) = v) ∨
      ((length = .t ∧ A.wordBits = 32) ∧ 2 ^ 31 ≤ v ∧ v < (vaUnsigned A length v : Int)) := by
  cases length with
  | t =>
    rcases ptrdiff_cases hlo hhi with ⟨hlt, hsame⟩ | ⟨hw, hge⟩
    · exact .inl ⟨fun h => hlt h.2, hsame⟩
    · exact .inr ⟨⟨rfl, hw⟩, hge⟩
  | none => exact .inl ⟨nofun, toUnsigned_of_range hlo hhi⟩
  | hh => exact .inl ⟨nofun, toUnsigned_of_range hlo hhi⟩
  | h => exact .inl ⟨nofun, toUnsigned_of_range hlo hhi⟩
  | l => exact .inl ⟨nofun, toUnsigned_of_range hlo hhi⟩
  | ll => exact .inl ⟨nofun, toUnsigned_of_range hlo hhi⟩
  | j => exact .inl ⟨nofun, toUnsigned_of_range hlo hhi⟩
  | z => exact .inl ⟨nofun, toUnsigned_of_range hlo hhi⟩
  | L => exact .inl ⟨nofun, toUnsigned_of_range hlo hhi⟩

/-- What is fetched is the value, or a positive number above it. -/
theorem fetched_cases (h : OfType A s v) :
    (Whole A s v ∧ fetched A s v = v) ∨ (¬ Whole A s v ∧ v < fetched A s v ∧ 0 < fetched A s v) := by
  unfold OfType at h
  unfold Whole fetched
  by_cases hs : IsSigned s
  · rw [if_pos hs] at h ⊢
    rw [if_pos hs]
    rcases vaSigned_cases h.1 h.2 with hsame | ⟨hmask, hneg, hpos⟩
    · exact .inl hsame
    · exact .inr ⟨fun hwhole => absurd (hwhole hmask) (by omega), by omega, hpos⟩
  · rw [if_neg hs] at h ⊢
    rw [if_neg hs]
    rcases vaUnsigned_cases h.1 h.2 with hsame | ⟨hptr, hge, hlt⟩
    · exact .inl hsame
    · exact .inr ⟨fun hwhole => absurd (hwhole hptr) (by omega), hlt, by omega⟩

/-! ## When a conversion shows its argument -/

/-- The text of a conversion whose fetched value is `v`. -/
def numberText (s : Spec) (v : Int) : List Char := intText v.natAbs s (convBase s) (decide (0 ≤ v))

/-- The value is fetched whole; and where zeros pad it, it is a zero that is aligned to the left, or a
number without sign and hexadecimal prefix that is aligned to the right. -/
def Shown (A : Arch) (s : Spec) (v : Int) : Prop :=
  Whole A s v ∧ (Zeroed v.natAbs s (convBase s) (decide (0 ≤ v)) →
    if s.has alignLeft = true then v = 0
    else sign s (convBase s) (decide (0 ≤ v)) = '\x00' ∧ altPrefix s (convBase s) ≠ 16)

/-- The text of the conversion. -/
theorem specText_numberText (hs : IsSigned s ∨ IsUnsigned s) (rest : List Arg) :
    specText A (.int v :: rest) s = .ok (.text (numberText s (fetched A s v)), rest) := by
  unfold numberText fetched convBase
  by_cases hd : IsSigned s
  · have hd' : s.specifier = 'd' ∨ s.specifier = 'i' := hd
    rw [if_pos hd, if_pos hd, specText, if_pos hd']
    rfl
  · have hd' : ¬ (s.specifier = 'd' ∨ s.specifier = 'i') := hd
    have hu : s.specifier = 'u' ∨ s.specifier = 'o' ∨ s.specifier = 'x' ∨ s.specifier = 'X' := by
      rcases hs.resolve_left hd with h | h | h
      · exact .inl h
      · exact .inr (.inl h)
      · exact .inr (.inr (.inl h))
    rw [if_neg hd, if_neg hd, specText, if_neg hd', if_pos hu, Int.natAbs_natCast,
      decide_eq_true (Int.natCast_nonneg _)]
    rfl

/-- The conversion prints the text. -/
theorem vsnprintSpec_numberText (hs : IsSigned s ∨ IsUnsigned s) (w : Window) (buf : Nat → Char)
    (rest : List Arg) : vsnprintSpec A w buf (.int v :: rest) s =
      (addStr w (numberText s (fetched A s v)) ⟨buf, 0⟩).map (·, rest) := by
  rw [vsnprintSpec_eq (specText_numberText hs rest)]
  rfl

theorem convBase_range (s : Spec) : 2 ≤ convBase s ∧ convBase s ≤ 16 := by
  unfold convBase
  split_ifs
  · decide
  · rcases baseOf_cases s.specifier with h | h | h <;> omega

theorem signed_fetched (hbase : base = 10 ∨ 0 ≤ v) : signed base v.natAbs (decide (0 ≤ v)) = v := by
  unfold signed
  split_ifs with h
  · have := of_decide_eq_false h.2
    omega
  · have hnn : 0 ≤ v := by
      by_contra hneg
      exact h ⟨hbase.resolve_right hneg, decide_eq_false hneg⟩
    omega

/-- **Integer conversions denote their value** exactly when it is fetched whole and zeros pad nothing but a
plain number.  The text always has the width. -/
theorem numberText_iff (A : Arch) {s : Spec} {v : Int} (hs : IsSigned s ∨ IsUnsigned s) (hv : OfType A s v) :
    ∃ l, (∀ w buf rest, vsnprintSpec A w buf (.int v :: rest) s = (addStr w l ⟨buf, 0⟩).map (·, rest)) ∧
      s.width ≤ l.length ∧ (readNumeral (convBase s) l = some v ↔ Shown A s v) := by
  refine ⟨numberText s (fetched A s v), vsnprintSpec_numberText hs, width_le, ?_⟩
  obtain ⟨hbase, h16⟩ := convBase_range s
  have hsign : convBase s = 10 ∨ 0 ≤ fetched A s v := by
    unfold convBase fetched
    by_cases hd : IsSigned s
    · exact .inl (if_pos hd)
    · rw [if_neg hd, if_neg hd]
      exact .inr (Int.natCast_nonneg _)
  have hsame := signed_fetched hsign
  unfold numberText
  unfold Shown
  rcases fetched_cases hv with ⟨hwhole, hf⟩ | ⟨hnot, hlt, hpos⟩
  · rw [hf] at hsame ⊢
    rw [and_iff_right hwhole]
    by_cases hz : Zeroed v.natAbs s (convBase s) (decide (0 ≤ v))
    · have hpow : 1 < (convBase s : Int) ^ (s.width - intLen v.natAbs s (convBase s) (decide (0 ≤ v))) :=
        one_lt_pow₀ (by omega) (by have := hz.2; omega)
      rw [forall_prop_of_true hz]
      cases hal : s.has alignLeft with
      | true =>
        rw [read_left hbase h16 hz hal, hsame, if_pos rfl, Option.some.injEq]
        constructor
        · intro heq
          by_contra hne
          exact absurd (mul_right_eq_self₀.mp heq) (not_or.mpr ⟨hpow.ne', hne⟩)
        · rintro rfl
          exact zero_mul _
      | false =>
        rw [read_right hbase h16 hz hal, hsame, if_neg Bool.false_ne_true]
        split_ifs with hplain
        · exact iff_of_true rfl hplain
        · exact iff_of_false nofun hplain
    · rw [read_plain hbase h16 hz, hsame]
      exact iff_of_true rfl fun h => absurd h hz
  · -- what is read is at least the number that was fetched
    refine iff_of_false (fun hread => ?_) fun h => hnot h.1
    obtain ⟨k, hk⟩ : ∃ k : Nat, v = fetched A s v * (convBase s : Int) ^ k := by
      by_cases hz : Zeroed (fetched A s v).natAbs s (convBase s) (decide (0 ≤ fetched A s v))
      · cases hal : s.has alignLeft with
        | true =>
          rw [read_left hbase h16 hz hal, hsame] at hread
          exact ⟨_, (Option.some.inj hread).symm⟩
        | false =>
          rw [read_right hbase h16 hz hal, hsame] at hread
          split_ifs at hread
          exact ⟨0, by rw [pow_zero, mul_one]; exact (Option.some.inj hread).symm⟩
      · rw [read_plain hbase h16 hz, hsame] at hread
        exact ⟨0, by rw [pow_zero, mul_one]; exact (Option.some.inj hread).symm⟩
    have hone : (1 : Int) ≤ (convBase s : Int) ^ k := one_le_pow₀ (by omega)
    have hge := le_mul_of_one_le_right hpos.le hone
    omega

/-- A number with a sign, a prefix that is not asked for and a width. -/
theorem numberText_plus : ∃ l, (∀ w buf rest, vsnprintSpec .sparc w buf (.int 42 :: rest)
      ⟨0, forceSign, 6, 3, .l, 'd'⟩ = (addStr w l ⟨buf, 0⟩).map (·, rest)) ∧ 6 ≤ l.length ∧
    (readNumeral 10 l = some 42 ↔ Shown .sparc ⟨0, forceSign, 6, 3, .l, 'd'⟩ 42) :=
  numberText_iff .sparc (s := ⟨0, forceSign, 6, 3, .l, 'd'⟩) (.inl (.inl rfl)) ⟨by decide, by decide⟩

/-- Minus one as a `signed char`: the text is that of 255. -/
theorem minusOne_masked : ∃ b, vsnprintf .x86 (fun _ => ' ') 8 "%hhd".toList [.int (-1)] = .ok (b, 3) ∧
    stored b 3 8 = "255".toList ∧ readNumeral 10 (stored b 3 8) ≠ some (-1) := by
  have hr : render .x86 "%hhd".toList [.int (-1)] = .ok (plain "255".toList, false) := by decide +kernel
  obtain ⟨b, hb, -, -, hcontent⟩ := vsnprintf_spec hr (by decide) (fun _ => ' ') 8
  have hstored : stored b 3 8 = (List.range 3).map (content 8 (fun _ => ' ') (plain "255".toList)) :=
    List.map_congr_left fun i hi => hcontent i (List.mem_range.mp hi)
  have htext : stored b 3 8 = "255".toList := hstored.trans (by decide)
  refine ⟨b, hb, htext, ?_⟩
  have hdigits : Digits 10 ['2', '5', '5'] := ⟨by decide, List.all_eq_true.mp rfl⟩
  have hvalue : value 10 ['2', '5', '5'] = 255 := rfl
  have hread := readNumeral_of (i := 0) (j := 0) (.inl rfl) hdigits (.inl rfl)
  rw [hvalue, List.replicate_zero, List.nil_append, List.nil_append, List.nil_append, List.append_nil,
    if_neg (List.cons_ne_nil '-' []).symm] at hread
  have hlist : "255".toList = ['2', '5', '5'] := by decide
  rw [htext, hlist, hread, ne_eq, Option.some.injEq]
  decide

end Printf
end Wrmos
