import Wrmos.Strtoul
import Wrmos.Lib.Numeral

/-!
# What `strtoul` computes

`subject` takes a string apart as the standard does: blanks, a sign, a prefix where the base is 16 or will
be, and the longest run of digits behind them.  `digitLoop_spec` is the one induction: a loop stops behind
the run, its result is the value of the run modulo the size of a word, and it has noted an overflow exactly
when the value does not fit.  That the four loops are instances of it is a matter of their digits
(`plainDigit_eq`, `tableDigit_eq`) and their bounds.
-/

namespace Wrmos
namespace Strtoul

open Lib (digitVal isDigit value valueFrom valueFrom_cons valueFrom_nil)

variable {A : Arch} {base v : Nat} {str p : List Char} {ch : Char} {a : Acc}

/-! ## The parts of a string -/

/-- The sign. -/
def signOf (p : List Char) : List Char :=
  if p.head? = some '-' then ['-'] else if p.head? = some '+' then ['+'] else []

/-- The prefix of a hexadecimal number. -/
def prefixOf (base : Nat) (p : List Char) : List Char :=
  if (base = 0 ∨ base = 16) ∧ (p.take 2 = ['0', 'x'] ∨ p.take 2 = ['0', 'X']) then p.take 2 else []

/-- The base, where it is to be found out. -/
def baseOf (base : Nat) (p : List Char) : Nat :=
  if base ≠ 0 then base
  else if prefixOf base p ≠ [] then 16
  else if p.head? = some '0' then 8
  else 10

/-- What a conversion is about: the sign, the base, what comes before the digits, and the digits. -/
structure Subject where
  negative : Bool
  base : Nat
  before : List Char
  run : List Char
  deriving DecidableEq, Repr

/-- What comes behind the optional blanks and sign. -/
def afterSign (str : List Char) : List Char :=
  (str.dropWhile isspace).drop (signOf (str.dropWhile isspace)).length

/-- What comes behind the optional prefix. -/
def afterPrefix (base : Nat) (p : List Char) : List Char := p.drop (prefixOf base p).length

/-- The sequence of digits behind the optional blanks, sign and prefix. -/
def subject (base : Nat) (str : List Char) : Subject where
  negative := decide (signOf (str.dropWhile isspace) = ['-'])
  base := baseOf base (afterSign str)
  before := str.takeWhile isspace ++ signOf (str.dropWhile isspace) ++ prefixOf base (afterSign str)
  run := (afterPrefix base (afterSign str)).takeWhile (isDigit (baseOf base (afterSign str)))

/-! ## The digits -/

theorem offset0_eq (h : 48 ≤ ch.toNat) (hlt : ch.toNat < 2 ^ 32) : offset0 ch = ch.toNat - 48 := by
  unfold offset0
  omega

theorem toNat_lt_word (ch : Char) : ch.toNat < 2 ^ 32 := ch.val.toNat_lt

theorem offset0_large (h : ch.toNat < 48) : 2 ^ 32 - 48 ≤ offset0 ch := by
  unfold offset0
  omega

theorem digitVal_small (h : ch.toNat < 48) : digitVal ch = none := by
  unfold digitVal
  rw [if_neg (by omega), if_neg (by omega), if_neg (by omega)]

theorem digitVal_large (h : 122 < ch.toNat) : digitVal ch = none := by
  unfold digitVal
  rw [if_neg (by omega), if_neg (by omega), if_neg (by omega)]

/-- Behind the decimal digits come larger ones, or none. -/
theorem digitVal_letter (h : 57 < ch.toNat) : ∀ d ∈ digitVal ch, 10 ≤ d := by
  intro d hd
  unfold digitVal at hd
  split_ifs at hd with h1 h2 h3
  · omega
  · obtain rfl := Option.some.inj hd
    omega
  · obtain rfl := Option.some.inj hd
    omega
  · cases hd

/-- What is left of a digit below a bound. -/
theorem ite_isDigit {base : Nat} : (if isDigit base ch = true then digitVal ch else none) =
    (digitVal ch).filter fun d => decide (d < base) := by
  unfold isDigit
  cases digitVal ch <;> rfl

/-- A digit to a base that is at most ten. -/
theorem plainDigit_eq {last : Nat} (hlast : last ≤ 9) :
    plainDigit last ch = if isDigit (last + 1) ch = true then digitVal ch else none := by
  have hword := toNat_lt_word ch
  rw [ite_isDigit]
  unfold plainDigit
  by_cases hlow : ch.toNat < 48
  · have hlarge := offset0_large hlow
    rw [if_pos (by omega), digitVal_small hlow]
    rfl
  rw [offset0_eq (by omega) hword]
  by_cases hten : ch.toNat ≤ 57
  · have hval : digitVal ch = some (ch.toNat - 48) := if_pos ⟨by omega, hten⟩
    rw [hval, Option.filter_some]
    by_cases hle : ch.toNat - 48 ≤ last
    · rw [if_neg (by omega), if_pos (decide_eq_true (by omega))]
    · rw [if_pos (by omega), if_neg (by simpa using by omega)]
  · rw [if_pos (by omega), eq_comm, Option.filter_eq_none_iff]
    intro d hd hlt
    have hge := digitVal_letter (by omega) d hd
    have hlt' := of_decide_eq_true hlt
    omega

/-- The table has the values of the digits, and `99` for what is no digit. -/
theorem char2digit_eq (hlow : 48 ≤ ch.toNat) (hhigh : ch.toNat ≤ 122) :
    char2digit.getD (ch.toNat - 48) 0 = (digitVal ch).getD 99 := by
  have hentry : ∀ i < 75, char2digit.getD i 0 = if i ≤ 9 then i else if 17 ≤ i ∧ i ≤ 42 then i - 7
      else if 49 ≤ i then i - 39 else 99 := by
    decide
  rw [hentry _ (by omega)]
  unfold digitVal
  by_cases h1 : ch.toNat ≤ 57
  · rw [if_pos (by omega), if_pos (by omega)]
    rfl
  rw [if_neg (show ¬ ch.toNat - 48 ≤ 9 by omega), if_neg (show ¬ (48 ≤ ch.toNat ∧ ch.toNat ≤ 57) by omega)]
  by_cases h2 : 65 ≤ ch.toNat ∧ ch.toNat ≤ 90
  · rw [if_pos (by omega), if_pos h2, Option.getD_some]
    omega
  rw [if_neg (show ¬ (17 ≤ ch.toNat - 48 ∧ ch.toNat - 48 ≤ 42) by omega), if_neg h2]
  by_cases h3 : 97 ≤ ch.toNat
  · rw [if_pos (by omega), if_pos ⟨h3, hhigh⟩, Option.getD_some]
    omega
  · rw [if_neg (show ¬ 49 ≤ ch.toNat - 48 by omega),
      if_neg (show ¬ (97 ≤ ch.toNat ∧ ch.toNat ≤ 122) by omega)]
    rfl

/-- A digit to a base that is at most thirty-six. -/
theorem tableDigit_eq {last : Nat} (hlast : last ≤ 35) :
    tableDigit last ch = if isDigit (last + 1) ch = true then digitVal ch else none := by
  have hword := toNat_lt_word ch
  rw [ite_isDigit]
  unfold tableDigit
  by_cases hlow : ch.toNat < 48
  · have hlarge := offset0_large hlow
    rw [if_pos (by omega), digitVal_small hlow]
    rfl
  rw [offset0_eq (by omega) hword]
  by_cases hhigh : 122 < ch.toNat
  · rw [if_pos (by omega), digitVal_large hhigh]
    rfl
  rw [if_neg (by omega), char2digit_eq (by omega) (by omega)]
  cases digitVal ch with
  | none => exact if_pos (by simpa using by omega)
  | some d =>
    rw [Option.getD_some, Option.filter_some]
    by_cases hle : d ≤ last
    · rw [if_neg (by omega), if_pos (decide_eq_true (by omega))]
    · rw [if_pos (by omega), if_neg (by simpa using by omega)]

/-! ## The loops -/

/-- The exact value of the digits so far is `v`. -/
structure Holds (A : Arch) (v : Nat) (a : Acc) : Prop where
  result : a.result = v % 2 ^ A.wordBits
  overflow : a.overflow = decide (ulongMax A < v)

theorem two_pow_eq (A : Arch) : 2 ^ A.wordBits = ulongMax A + 1 := by
  have := Nat.two_pow_pos A.wordBits
  unfold ulongMax
  omega

/-- One digit more: an overflow is noted when the value does not fit any more. -/
theorem Holds.push {d : Nat} {maxres : Nat} {scale : Nat → Nat} (h : Holds A v a) (hbase : 0 < base)
    (hmax : maxres = ulongMax A / base) (hscale : ∀ r, scale r = r * base % 2 ^ A.wordBits) :
    Holds A (v * base + d) (a.push A maxres scale d) := by
  constructor
  · show (scale a.result + d) % _ = _
    rw [hscale, h.result, Nat.mod_add_mod, Nat.add_mod, Nat.mod_mul_mod, ← Nat.add_mod]
  · show (a.overflow || decide (maxres < a.result) || decide (ulongMax A - scale a.result < d)) = _
    rw [h.overflow, hmax, hscale, h.result, two_pow_eq]
    generalize ulongMax A = u
    have hle : v ≤ v * base := Nat.le_mul_of_pos_right v hbase
    by_cases hv : u < v
    · rw [decide_eq_true hv, decide_eq_true (show u < v * base + d by omega), Bool.true_or, Bool.true_or]
    rw [decide_eq_false hv, Nat.mod_eq_of_lt (by omega), Bool.false_or]
    have hdiv : u / base < v ↔ u < v * base := Nat.div_lt_iff_lt_mul hbase
    by_cases hfit : u < v * base
    · rw [decide_eq_true (hdiv.mpr hfit), decide_eq_true (show u < v * base + d by omega), Bool.true_or]
    · rw [decide_eq_false fun h => hfit (hdiv.mp h), Nat.mod_eq_of_lt (by omega), Bool.false_or]
      exact decide_eq_decide.mpr (by omega)

/-- **A loop** stops behind the digits with their value. -/
theorem digitLoop_spec {digitOf : Char → Option Nat} {maxres : Nat} {scale : Nat → Nat} (hbase : 0 < base)
    (hdigit : ∀ ch, digitOf ch = if isDigit base ch = true then digitVal ch else none)
    (hmax : maxres = ulongMax A / base) (hscale : ∀ r, scale r = r * base % 2 ^ A.wordBits) :
    ∀ {p : List Char} {v : Nat} {a : Acc}, Holds A v a →
      ∃ a', digitLoop A digitOf maxres scale p a = (a', p.dropWhile (isDigit base)) ∧
        Holds A (valueFrom base v (p.takeWhile (isDigit base))) a' ∧
        a'.anyDigits = (a.anyDigits || !(p.takeWhile (isDigit base)).isEmpty) := by
  intro p
  induction p with
  | nil =>
    intro v a h
    exact ⟨a, rfl, h, (Bool.or_false _).symm⟩
  | cons ch p ih =>
    intro v a h
    rw [digitLoop, hdigit]
    by_cases hch : isDigit base ch = true
    · obtain ⟨d, hd, hval⟩ := Lib.isDigit_iff.mp hch
      have hadd : Lib.addDigit base v ch = v * base + d := by
        rw [Lib.addDigit, hval, Option.getD_some]
      obtain ⟨a', hloop, hholds, hany⟩ := ih (h.push (d := d) hbase hmax hscale)
      rw [if_pos hch, hval, List.dropWhile_cons_of_pos hch, List.takeWhile_cons_of_pos hch, valueFrom_cons,
        hadd]
      refine ⟨a', hloop, hholds, ?_⟩
      rw [hany]
      show (true || _) = (_ || !false)
      rw [Bool.true_or, Bool.not_false, Bool.or_true]
    · rw [if_neg hch, List.dropWhile_cons_of_neg hch, List.takeWhile_cons_of_neg hch]
      exact ⟨a, rfl, h, (Bool.or_false _).symm⟩

/-- **The loop of any base** is such a loop. -/
theorem loopFor_spec (hbase : 2 ≤ base ∧ base ≤ 36) (h : Holds A v a) :
    ∃ a', loopFor A base p a = (a', p.dropWhile (isDigit base)) ∧
      Holds A (valueFrom base v (p.takeWhile (isDigit base))) a' ∧
      a'.anyDigits = (a.anyDigits || !(p.takeWhile (isDigit base)).isEmpty) := by
  unfold loopFor
  by_cases h8 : base = 8
  · subst h8
    rw [if_pos rfl]
    exact digitLoop_spec (by decide) (fun ch => plainDigit_eq (by decide)) (Nat.shiftRight_eq_div_pow _ _)
      (fun r => by rw [Nat.shiftLeft_eq]) h
  by_cases h10 : base = 10
  · subst h10
    rw [if_neg h8, if_pos rfl]
    exact digitLoop_spec (by decide) (fun ch => plainDigit_eq (by decide)) rfl (fun r => rfl) h
  by_cases h16 : base = 16
  · subst h16
    rw [if_neg h8, if_neg h10, if_pos rfl]
    exact digitLoop_spec (by decide) (fun ch => tableDigit_eq (by decide)) (Nat.shiftRight_eq_div_pow _ _)
      (fun r => by rw [Nat.shiftLeft_eq]) h
  rw [if_neg h8, if_neg h10, if_neg h16, if_pos hbase]
  have hlast : base - 1 + 1 = base := by omega
  refine digitLoop_spec (by omega) (fun ch => ?_) rfl (fun r => rfl) h
  rw [tableDigit_eq (by omega), hlast]

/-! ## What comes before the digits -/

theorem skipSpaces_eq : skipSpaces p = p.dropWhile isspace := by
  induction p with
  | nil => rfl
  | cons ch p ih =>
    rw [skipSpaces]
    split_ifs with h
    · rw [List.dropWhile_cons_of_pos h, ih]
    · rw [List.dropWhile_cons_of_neg h]

theorem skipSign_eq : skipSign p = (decide (signOf p = ['-']), p.drop (signOf p).length) := by
  cases p with
  | nil => rfl
  | cons ch p =>
    unfold skipSign signOf
    simp only [show deref (ch :: p) = ch from rfl, List.head?_cons, Option.some.injEq]
    split_ifs with hminus hplus
    · rfl
    · rfl
    · rfl

theorem signOf_append (p : List Char) : signOf p ++ p.drop (signOf p).length = p := by
  cases p with
  | nil => rfl
  | cons ch p =>
    unfold signOf
    simp only [List.head?_cons, Option.some.injEq]
    split_ifs with hminus hplus
    · rw [hminus]
      rfl
    · rw [hplus]
      rfl
    · rfl

/-- The characters of a prefix. -/
theorem hasPrefix_iff : (p.take 2 = ['0', 'x'] ∨ p.take 2 = ['0', 'X']) ↔
    deref p = '0' ∧ isX (deref p.tail) = true := by
  rcases p with _ | ⟨c, _ | ⟨d, p⟩⟩
  · decide
  · simp [deref, isX]
  · simp only [List.take_succ_cons, List.take_zero, List.cons.injEq, and_true, deref, List.headD_cons,
      List.tail_cons, isX, Bool.or_eq_true, beq_iff_eq]
    exact and_or_left.symm

theorem length_prefixOf (h : prefixOf base p ≠ []) : (prefixOf base p).length = 2 := by
  unfold prefixOf at h ⊢
  split_ifs at h ⊢ with hpre
  · rcases hpre.2 with h2 | h2
    · rw [h2]
      rfl
    · rw [h2]
      rfl
  · exact absurd rfl h

theorem prefixOf_append (base : Nat) (p : List Char) :
    prefixOf base p ++ p.drop (prefixOf base p).length = p := by
  by_cases h : prefixOf base p = []
  · rw [h]
    rfl
  · rw [length_prefixOf h]
    unfold prefixOf at h ⊢
    split_ifs at h ⊢
    · exact List.take_append_drop 2 p
    · exact absurd rfl h

/-- **The base and the prefix**: where the base is to be found out and the number begins with a zero, this
zero is already behind the pointer. -/
theorem skipPrefix_cases (base : Nat) (p : List Char) :
    skipPrefix base p = (baseOf base p, false, p.drop (prefixOf base p).length) ∨
      ∃ q, p = '0' :: q ∧ skipPrefix base p = (8, true, q) ∧ baseOf base p = 8 ∧ prefixOf base p = [] := by
  have hdrop : p.drop 2 = p.tail.tail := by
    rcases p with _ | ⟨c, _ | ⟨d, p⟩⟩ <;> rfl
  have htake : ∀ {c : Prop} [Decidable c], c → (p.take 2 = ['0', 'x'] ∨ p.take 2 = ['0', 'X']) →
      ((if c ∧ (p.take 2 = ['0', 'x'] ∨ p.take 2 = ['0', 'X']) then p.take 2 else []) ≠ [] ∧
        p.drop (if c ∧ (p.take 2 = ['0', 'x'] ∨ p.take 2 = ['0', 'X']) then p.take 2 else []).length =
          p.tail.tail) := by
    intro c _ hc hp
    rw [if_pos ⟨hc, hp⟩, ← hdrop]
    rcases hp with h2 | h2
    · rw [h2]
      exact ⟨by decide, rfl⟩
    · rw [h2]
      exact ⟨by decide, rfl⟩
  unfold skipPrefix baseOf prefixOf
  by_cases hx : p.take 2 = ['0', 'x'] ∨ p.take 2 = ['0', 'X']
  · obtain ⟨h0, hX⟩ := hasPrefix_iff.mp hx
    left
    by_cases hauto : base = 0
    · obtain ⟨hne, hd⟩ := htake (c := base = 0 ∨ base = 16) (.inl hauto) hx
      rw [if_pos hauto, if_pos h0, if_pos hX, if_neg (not_not_intro hauto), if_pos hne, hd]
    rw [if_neg hauto, if_pos hauto]
    by_cases h16 : base = 16
    · obtain ⟨-, hd⟩ := htake (c := base = 0 ∨ base = 16) (.inr h16) hx
      rw [if_pos h16, if_pos ⟨h0, hX⟩, hd, h16]
    · rw [if_neg h16, if_neg (by omega)]
      rfl
  · have hnot : ¬ (deref p = '0' ∧ isX (deref p.tail) = true) := fun h => hx (hasPrefix_iff.mpr h)
    simp only [hx, and_false, if_false, List.length_nil, List.drop_zero, ne_eq, not_true, ite_not]
    by_cases hauto : base = 0
    · rw [if_pos hauto, if_pos hauto]
      by_cases h0 : deref p = '0'
      · -- an octal number
        rw [if_pos h0, if_neg fun hX => hnot ⟨h0, hX⟩]
        cases p with
        | nil => exact absurd h0 (by decide)
        | cons c p =>
          obtain rfl : c = '0' := h0
          exact .inr ⟨p, rfl, rfl, rfl, trivial⟩
      · rw [if_neg h0]
        left
        cases p with
        | nil => rfl
        | cons c p =>
          have hc : (c :: p).head? ≠ some '0' := fun h => h0 (Option.some.inj h)
          rw [if_neg hc]
    · rw [if_neg hauto, if_neg hauto]
      left
      by_cases h16 : base = 16
      · rw [if_pos h16, if_neg hnot, h16]
      · rw [if_neg h16]

/-! ## The result -/

/-- What comes behind the digits. -/
def behind (base : Nat) (str : List Char) : List Char :=
  (afterPrefix base (afterSign str)).dropWhile (isDigit (baseOf base (afterSign str)))

/-- **The parts** make up the string. -/
theorem subject_split (base : Nat) (str : List Char) :
    (subject base str).before ++ (subject base str).run ++ behind base str = str := by
  unfold subject behind
  simp only [List.append_assoc, List.takeWhile_append_dropWhile]
  rw [afterPrefix, prefixOf_append, afterSign, signOf_append, List.takeWhile_append_dropWhile]

theorem baseOf_range (hbase : base = 0 ∨ 2 ≤ base ∧ base ≤ 36) : 2 ≤ baseOf base p ∧ baseOf base p ≤ 36 := by
  unfold baseOf
  split_ifs <;> omega

/-- The loop reads the digits behind the prefix. -/
theorem loopFor_afterPrefix (hbase : base = 0 ∨ 2 ≤ base ∧ base ≤ 36) :
    ∃ a, loopFor A (skipPrefix base p).1 (skipPrefix base p).2.2 ⟨0, false, (skipPrefix base p).2.1⟩ =
        (a, (afterPrefix base p).dropWhile (isDigit (baseOf base p))) ∧
      Holds A (value (baseOf base p) ((afterPrefix base p).takeWhile (isDigit (baseOf base p)))) a ∧
      a.anyDigits = !((afterPrefix base p).takeWhile (isDigit (baseOf base p))).isEmpty := by
  have hzero : ∀ any, Holds A 0 ⟨0, false, any⟩ := fun any =>
    ⟨(Nat.zero_mod _).symm, (decide_eq_false (Nat.not_lt_zero _)).symm⟩
  unfold afterPrefix
  rcases skipPrefix_cases base p with h | ⟨q, hq, h, hb, hpre⟩
  · rw [h]
    exact loopFor_spec (baseOf_range hbase) (hzero false)
  · have h0 : isDigit 8 '0' = true := by decide
    obtain ⟨a, hloop, hholds, hany⟩ :=
      loopFor_spec (A := A) (p := q) (by decide : 2 ≤ 8 ∧ 8 ≤ 36) (hzero true)
    rw [h, hb, hpre, List.length_nil, List.drop_zero, hq, List.dropWhile_cons_of_pos h0,
      List.takeWhile_cons_of_pos h0]
    exact ⟨a, hloop, hholds, hany.trans (Bool.true_or _)⟩

/-- **`strtoul`** gives the value of the digits, negated behind a minus sign, or the greatest number where
the value does not fit; the end is behind the digits, or at the start where there are none. -/
theorem strtoul_eq (A : Arch) {base : Nat} (str : List Char) (hbase : base = 0 ∨ 2 ≤ base ∧ base ≤ 36) :
    strtoul A str base =
      (if ulongMax A < value (subject base str).base (subject base str).run then ulongMax A
        else if (subject base str).negative = true then
          (2 ^ A.wordBits - value (subject base str).base (subject base str).run) % 2 ^ A.wordBits
        else value (subject base str).base (subject base str).run,
        if (subject base str).run = [] then 0
        else (subject base str).before.length + (subject base str).run.length) := by
  obtain ⟨a, hloop, hholds, hany⟩ := loopFor_afterPrefix (A := A) (p := afterSign str) hbase
  have hlen := congrArg List.length (subject_split base str)
  rw [List.length_append, List.length_append] at hlen
  have hneg : ∀ v, Holds A v a → ¬ ulongMax A < v → a.result = v := by
    intro v hv hfit
    rw [hv.result, two_pow_eq]
    exact Nat.mod_eq_of_lt (by omega)
  have hskip : skipSign (skipSpaces str) = ((subject base str).negative, afterSign str) := by
    rw [skipSpaces_eq, skipSign_eq]
    rfl
  unfold strtoul
  rw [hskip]
  dsimp only
  rw [hloop]
  change Holds A (value (subject base str).base (subject base str).run) a at hholds
  change a.anyDigits = !(subject base str).run.isEmpty at hany
  refine Prod.ext ?_ ?_
  · dsimp only
    rw [hholds.overflow]
    simp only [decide_eq_true_eq]
    by_cases hover : ulongMax A < value (subject base str).base (subject base str).run
    · rw [if_pos hover, if_pos hover]
    · rw [if_neg hover, if_neg hover, hneg _ hholds hover]
  · change str.length - List.length (if a.anyDigits = true then behind base str else str) = _
    rw [hany]
    by_cases hrun : (subject base str).run = []
    · rw [if_pos hrun, hrun, if_neg (by decide), Nat.sub_self]
    · rw [if_neg hrun, if_pos (by simpa using hrun)]
      omega


/-- A digit is no blank and no sign. -/
theorem not_space_of_isDigit (h : isDigit base ch = true) : isspace ch = false ∧ ch ≠ '-' ∧ ch ≠ '+' := by
  have hlow : 48 ≤ ch.toNat := by
    by_contra hlt
    have hnone := digitVal_small (Nat.not_le.mp hlt)
    unfold isDigit at h
    rw [hnone] at h
    cases h
  refine ⟨?_, ?_, ?_⟩
  · unfold isspace
    simp only [Bool.or_eq_false_iff, Bool.and_eq_false_iff, decide_eq_false_iff_not, beq_eq_false_iff_ne]
    omega
  · rintro rfl
    exact absurd hlow (by decide)
  · rintro rfl
    exact absurd hlow (by decide)

theorem isX_of_isDigit (h16 : base ≤ 16) (h : isDigit base ch = true) : isX ch = false := by
  by_contra hx
  rw [Bool.not_eq_false] at hx
  have hx' : ch = 'x' ∨ ch = 'X' := by simpa [isX] using hx
  obtain ⟨d, hd, hval⟩ := Lib.isDigit_iff.mp h
  rcases hx' with rfl | rfl
  · have hx33 : digitVal 'x' = some 33 := by decide
    rw [hx33] at hval
    obtain rfl := Option.some.inj hval
    omega
  · have hx33 : digitVal 'X' = some 33 := by decide
    rw [hx33] at hval
    obtain rfl := Option.some.inj hval
    omega

/-- A numeral with a sign is its own subject when what follows it is no digit and no part of a prefix. -/
theorem subject_numeral {sgn ds rest : List Char} (hbase : base ≠ 0) (h16 : base ≤ 16) (hne : ds ≠ [])
    (hds : ∀ ch ∈ ds, isDigit base ch = true) (hsgn : sgn = [] ∨ sgn = ['-'])
    (hrest : ∀ ch ∈ rest.head?, isDigit base ch = false ∧ isX ch = false) :
    subject base (sgn ++ (ds ++ rest)) = ⟨decide (sgn = ['-']), base, sgn, ds⟩ := by
  obtain ⟨c, l, rfl⟩ := List.exists_cons_of_ne_nil hne
  obtain ⟨hspace, hminus, hplus⟩ := not_space_of_isDigit (hds c List.mem_cons_self)
  -- no blank comes first
  have hhead : ∃ c' l', sgn ++ (c :: l ++ rest) = c' :: l' ∧ isspace c' = false := by
    rcases hsgn with rfl | rfl
    · exact ⟨c, l ++ rest, rfl, hspace⟩
    · exact ⟨'-', c :: l ++ rest, rfl, rfl⟩
  obtain ⟨c', l', heq, hc'⟩ := hhead
  have hdrop : (sgn ++ (c :: l ++ rest)).dropWhile isspace = sgn ++ (c :: l ++ rest) := by
    rw [heq]
    exact List.dropWhile_cons_of_neg (by rw [hc']; exact Bool.false_ne_true)
  have htake : (sgn ++ (c :: l ++ rest)).takeWhile isspace = [] := by
    rw [heq]
    exact List.takeWhile_cons_of_neg (by rw [hc']; exact Bool.false_ne_true)
  have hsign : signOf (sgn ++ (c :: l ++ rest)) = sgn := by
    rcases hsgn with rfl | rfl
    · simp [signOf, hminus, hplus]
    · rfl
  have hafter : afterSign (sgn ++ (c :: l ++ rest)) = c :: l ++ rest := by
    unfold afterSign
    rw [hdrop, hsign, List.drop_left]
  -- the second character is no `x`
  have hprefix : prefixOf base (c :: l ++ rest) = [] := by
    have hX : isX (deref (l ++ rest)) = false := by
      cases l with
      | nil =>
        cases rest with
        | nil => rfl
        | cons r rest => exact (hrest r rfl).2
      | cons d l => exact isX_of_isDigit h16 (hds d (List.mem_cons_of_mem _ List.mem_cons_self))
    refine if_neg fun h => ?_
    have hx := (hasPrefix_iff.mp h.2).2
    rw [List.cons_append, List.tail_cons, hX] at hx
    cases hx
  have hbaseOf : baseOf base (c :: l ++ rest) = base := if_pos hbase
  have hrun : (c :: l ++ rest).takeWhile (isDigit base) = c :: l := by
    rw [List.takeWhile_append_of_pos hds]
    cases rest with
    | nil => rw [List.takeWhile_nil, List.append_nil]
    | cons r rest =>
      rw [List.takeWhile_cons_of_neg (by rw [(hrest r rfl).1]; exact Bool.false_ne_true), List.append_nil]
  unfold subject afterPrefix
  rw [hafter, hdrop, htake, hsign, hprefix, hbaseOf, List.length_nil, List.drop_zero, hrun, List.append_nil,
    List.nil_append]

/-- **A numeral is read** up to its end. -/
theorem strtoul_numeral (A : Arch) {sgn ds rest : List Char} (hbase : 2 ≤ base) (h16 : base ≤ 16)
    (hne : ds ≠ [])
    (hds : ∀ ch ∈ ds, isDigit base ch = true) (hsgn : sgn = [] ∨ sgn = ['-'])
    (hrest : ∀ ch ∈ rest.head?, isDigit base ch = false ∧ isX ch = false)
    (hfits : value base ds ≤ ulongMax A) :
    strtoul A (sgn ++ (ds ++ rest)) base =
      (if sgn = ['-'] then (2 ^ A.wordBits - value base ds) % 2 ^ A.wordBits else value base ds,
        sgn.length + ds.length) := by
  rw [strtoul_eq A _ (.inr ⟨hbase, by omega⟩), subject_numeral (by omega) h16 hne hds hsgn hrest]
  dsimp only
  rw [if_neg (Nat.not_lt.mpr hfits), if_neg hne]
  simp only [decide_eq_true_eq]

/-- **`strtoul` meets its specification.**  Behind the blanks, the sign and the prefix the string has a run
of digits that no digit follows, and the result and the end are those of `strtoul_eq`; the end is the start
exactly where there is no digit. -/
theorem strtoul_spec (A : Arch) {base : Nat} (str : List Char) (hbase : base = 0 ∨ 2 ≤ base ∧ base ≤ 36) :
    (∃ rest, str = (subject base str).before ++ (subject base str).run ++ rest ∧
      ∀ ch ∈ rest.head?, isDigit (subject base str).base ch = false) ∧
    (strtoul A str base).1 =
      (if ulongMax A < value (subject base str).base (subject base str).run then ulongMax A
        else if (subject base str).negative = true then
          (2 ^ A.wordBits - value (subject base str).base (subject base str).run) % 2 ^ A.wordBits
        else value (subject base str).base (subject base str).run) ∧
    ((subject base str).run ≠ [] →
      (strtoul A str base).2 = (subject base str).before.length + (subject base str).run.length) ∧
    ((strtoul A str base).2 = 0 ↔ (subject base str).run = []) := by
  rw [strtoul_eq A str hbase]
  refine ⟨⟨behind base str, (subject_split base str).symm, ?_⟩, rfl, fun hrun => if_neg hrun, ?_⟩
  · intro ch hch
    have hhead := List.head?_dropWhile_not (isDigit (subject base str).base)
      (afterPrefix base (afterSign str))
    have hch' : ((afterPrefix base (afterSign str)).dropWhile (isDigit (subject base str).base)).head? =
      some ch := hch
    rw [hch'] at hhead
    simpa using hhead
  · show (if _ then 0 else _) = 0 ↔ _
    by_cases hrun : (subject base str).run = []
    · rw [if_pos hrun]
      exact iff_of_true rfl hrun
    · rw [if_neg hrun]
      have hpos := List.length_pos_iff.mpr hrun
      exact iff_of_false (by omega) hrun

/-- A number with everything that may come before it. -/
theorem strtoul_hex : (strtoul .sparc "  -0x1fG".toList 0).1 = 2 ^ 32 - 31 :=
  (strtoul_spec .sparc "  -0x1fG".toList (.inl rfl)).2.1.trans (by decide +kernel)

end Strtoul
end Wrmos
