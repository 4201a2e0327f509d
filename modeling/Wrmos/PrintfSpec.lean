import Wrmos.Printf
import Mathlib.Data.Nat.Digits.Defs
import Mathlib.Tactic

/-!
# What `vsnprintf` prints, and how much of it arrives

`render` is the text of a format and its arguments, without a buffer: numbers are written by `Nat.digits`, and
the paddings are lists.  `content` is what a buffer of `sz` characters holds when a text was printed to it.
Every printer stores its text at the place where it belongs (`addStr_eq`), so the loop keeps the buffer at
`content` and the position at the length of the text (`loop_spec`).

`content` is the beginning of the text as far as the low 32 bits of the size reach.  Behind them the buffer is
left alone, up to the characters of percent conversions, which all go to the first place behind.
-/

namespace Wrmos
namespace Printf

open Lib (ensure bind_eq_ok ensure_bind_of ok_bind)

/-! ## Storing a string -/

/-- A string over a buffer, from `start` on and below `stop`. -/
def overlay (buf : Nat → Char) (start stop : Nat) (l : List Char) : Nat → Char := fun i =>
  if start ≤ i ∧ i < stop then (l[i - start]?).getD (buf i) else buf i

variable {A : Arch} {b buf : Nat → Char} {start stop sz n : Nat} {l : List Char} {ch : Char} {w : Window}
  {o : Out} {s : Spec} {args : List Arg}

@[simp] theorem overlay_nil : overlay buf start stop [] = buf := by
  ext i
  unfold overlay
  simp

theorem overlay_of_le (h : stop ≤ start) : overlay buf start stop l = buf := by
  ext i
  unfold overlay
  rw [if_neg (by omega)]

theorem overlay_cons : overlay buf start stop (ch :: l) =
    overlay (if start < stop then Function.update buf start ch else buf) (start + 1) stop l := by
  ext i
  unfold overlay
  rcases Nat.lt_trichotomy i start with hlt | rfl | hlt
  · have hne : i ≠ start := by omega
    rw [if_neg (by omega), if_neg (by omega)]
    split_ifs
    · rw [Function.update_of_ne hne]
    · rfl
  · rw [if_neg (show ¬ (i + 1 ≤ i ∧ i < stop) by omega)]
    by_cases hs : i < stop
    · rw [if_pos ⟨le_rfl, hs⟩, if_pos hs, Function.update_self, Nat.sub_self]
      rfl
    · rw [if_neg (by omega), if_neg hs]
  · have hne : i ≠ start := by omega
    by_cases hs : i < stop
    · rw [if_pos (by omega), if_pos (by omega), if_pos (by omega), Function.update_of_ne hne,
        show i - start = (i - (start + 1)) + 1 by omega, List.getElem?_cons_succ]
    · rw [if_neg (by omega), if_neg (by omega)]
      split_ifs
      · rw [Function.update_of_ne hne]
      · rfl

/-- The low 32 bits of the size stay inside of the buffer. -/
def Window.Inside (w : Window) : Prop := w.base + w.sz % 2 ^ 32 ≤ w.cap

theorem addChar_eq (hw : w.Inside) (hptr : o.ptr + 1 < 2 ^ 32) : addChar w o ch = .ok
    ⟨if w.base + o.ptr < w.base + w.sz % 2 ^ 32 then Function.update o.buf (w.base + o.ptr) ch else o.buf,
      o.ptr + 1⟩ := by
  unfold Window.Inside at hw
  unfold addChar
  rw [Nat.mod_eq_of_lt hptr]
  by_cases hlt : o.ptr < w.sz % 2 ^ 32
  · have hcap : w.base + o.ptr < w.cap := by omega
    rw [if_pos hlt, if_pos (by omega)]
    unfold store
    rw [ensure_bind_of hcap]
    rfl
  · rw [if_neg hlt, if_neg (by omega)]
    rfl

/-- **A string** is stored at the place where it belongs. -/
theorem addStr_eq (hw : w.Inside) : ∀ {l : List Char} {o : Out}, o.ptr + l.length < 2 ^ 32 →
    addStr w l o =
      .ok ⟨overlay o.buf (w.base + o.ptr) (w.base + w.sz % 2 ^ 32) l, o.ptr + l.length⟩
  | [], o, _ => by
    rw [overlay_nil]
    rfl
  | ch :: l, o, h => by
    rw [List.length_cons] at h
    unfold addStr
    rw [addChar_eq hw (by omega)]
    show addStr w l _ = _
    rw [addStr_eq hw (by dsimp only; omega), overlay_cons, List.length_cons]
    dsimp only
    rw [Nat.add_assoc w.base, Nat.add_assoc o.ptr, Nat.add_comm 1]

theorem addChars_eq : ∀ {n : Nat} {o : Out}, addChars w ch n o = addStr w (List.replicate n ch) o
  | 0, _ => rfl
  | n + 1, o => by
    rw [List.replicate_succ]
    unfold addChars addStr
    exact congrArg _ (funext fun _ => addChars_eq)

theorem addStr_append : ∀ {l l' : List Char},
    addStr w (l ++ l') = fun o => addStr w l o >>= addStr w l'
  | [], _ => rfl
  | ch :: l, l' => by
    ext1 o
    rw [List.cons_append]
    unfold addStr
    rw [bind_assoc]
    exact congrArg _ (funext fun _ => congrFun addStr_append _)

theorem addStr_singleton : addStr w [ch] = fun o => addChar w o ch := by
  ext1 o
  unfold addStr
  exact bind_pure _

/-! ## The texts of the conversions -/

/-- The digits of a number, the first one first. -/
def numeral (base val : Nat) : List Char :=
  if val = 0 then ['0'] else ((Nat.digits base val).map digitChar).reverse

/-- The padding on the left, or on the right. -/
def padding (s : Spec) (right : Bool) (len : Nat) (ch : Char) : List Char :=
  if s.has alignLeft = right ∧ len < s.width then List.replicate (s.width - len) ch else []

/-- The sign, if there is one. -/
def signText (s : Spec) (base : Nat) (positive : Bool) : List Char :=
  if sign s base positive ≠ '\x00' then [sign s base positive] else []

/-- The prefix of the alternate form. -/
def prefixText (s : Spec) (base : Nat) : List Char :=
  (if altPrefix s base ≠ 0 then ['0'] else []) ++ (if altPrefix s base = 16 then ['x'] else [])

/-- The zeros that the precision asks for. -/
def zeros (s : Spec) (len : Nat) : List Char := if len < s.precision then List.replicate (s.precision - len) '0' else []

/-- The length of a number before it is padded, as an `unsigned`. -/
def intLen (val : Nat) (s : Spec) (base : Nat) (positive : Bool) : Nat :=
  ((max (numeral base val).length s.precision + (if sign s base positive ≠ '\x00' then 1 else 0)) % 2 ^ 32 +
    (if altPrefix s base = 16 then 2 else if altPrefix s base = 8 then 1 else 0)) % 2 ^ 32

/-- What `snprint_64bit_int` prints. -/
def intText (val : Nat) (s : Spec) (base : Nat) (positive : Bool) : List Char :=
  let ch := if s.has nullPad then '0' else ' '
  padding s false (intLen val s base positive) ch ++ (signText s base positive ++ (prefixText s base ++
    (zeros s (numeral base val).length ++ (numeral base val ++
      padding s true (intLen val s base positive) ch))))

/-- What `snprint_char` prints. -/
def charText (ch : Char) (s : Spec) : List Char := padding s false 1 ' ' ++ (ch :: padding s true 1 ' ')

/-- What `snprint_str` prints. -/
def strText (str : List Char) (s : Spec) : List Char :=
  padding s false (strLen str s) ' ' ++ (str.take (strLen str s) ++ padding s true (strLen str s) ' ')

/-- The array of the digits is long enough. -/
theorem digits_eq {base : Nat} (hbase : 2 ≤ base) : ∀ {n val : Nat}, val < base ^ n → 0 < n →
    digits base n val = .ok (numeral base val).reverse
  | n + 1, val, hval, _ => by
    unfold digits
    split_ifs with hlast
    · have hsmall : val < base := (Nat.div_eq_zero_iff_lt (by omega)).mp hlast
      rw [Nat.mod_eq_of_lt hsmall]
      unfold numeral
      split_ifs with h0
      · rw [h0]
        rfl
      · rw [Nat.digits_of_lt base val h0 hsmall]
        rfl
    · have hpos : val ≠ 0 := by
        rintro rfl
        exact hlast (Nat.zero_div base)
      have hn : 0 < n := by
        rcases Nat.eq_zero_or_pos n with rfl | hn
        · rw [Nat.zero_add, pow_one] at hval
          exact absurd (Nat.div_eq_of_lt hval) hlast
        · exact hn
      have hrec : digits base n (val / base) = .ok (numeral base (val / base)).reverse :=
        digits_eq hbase (Nat.div_lt_of_lt_mul (by rwa [← pow_succ'])) hn
      rw [hrec]
      unfold numeral
      rw [if_neg hlast, if_neg hpos, List.reverse_reverse, List.reverse_reverse,
        Nat.digits_of_two_le_of_pos hbase (Nat.pos_of_ne_zero hpos), List.map_cons]
      rfl

/-- A printer that is called under a condition. -/
theorem addStr_ite {c : Prop} [Decidable c] {l : List Char} :
    addStr w (if c then l else []) = fun o => if c then addStr w l o else .ok o := by
  ext1 o
  split_ifs <;> rfl

theorem addStr_padding {right : Bool} {len : Nat} : addStr w (padding s right len ch) = fun o =>
    if s.has alignLeft = right ∧ len < s.width then addChars w ch (s.width - len) o else .ok o := by
  unfold padding
  simp only [addStr_ite, addChars_eq]

/-- **Numbers** are printed as their texts. -/
theorem snprint64bitInt_eq {val base : Nat} {positive : Bool} (hbase : base = 8 ∨ base = 10 ∨ base = 16)
    (hval : val < 2 ^ 64) :
    snprint64bitInt w buf val s base positive = addStr w (intText val s base positive) ⟨buf, 0⟩ := by
  have hdigits : digits base digitsLen val = .ok (numeral base val).reverse := by
    refine digits_eq ?_ (hval.trans ?_) (by decide)
    · omega
    · rcases hbase with rfl | rfl | rfl <;> decide
  unfold snprint64bitInt intText intLen signText prefixText zeros
  rw [if_neg (by omega), hdigits]
  simp only [addStr_append, addStr_padding, addStr_ite, addStr_singleton, ← addChars_eq, bind_assoc, ok_bind,
    List.reverse_reverse, List.length_reverse]

theorem snprintChar_eq : snprintChar w buf ch s = addStr w (charText ch s) ⟨buf, 0⟩ := by
  unfold snprintChar charText
  rw [← List.singleton_append]
  simp only [addStr_append, addStr_padding, addStr_singleton]

theorem snprintStr_eq {str : List Char} : snprintStr w buf str s = addStr w (strText str s) ⟨buf, 0⟩ := by
  unfold snprintStr strText
  simp only [addStr_append, addStr_padding]

/-! ## The text of a format -/

/-- What one conversion prints: a text, the character of a percent conversion, or nothing but an error. -/
inductive Printed where
  | text (l : List Char)
  | percent
  | error

/-- What a conversion prints, and the arguments that are left. -/
def specText (A : Arch) (args : List Arg) (s : Spec) : Except PrintFault (Printed × List Arg) :=
  if s.specifier = 'd' ∨ s.specifier = 'i' then do
    let (v, args) ← vaInt args
    let v := vaSigned A s.length v
    pure (.text (intText v.natAbs s 10 (decide (0 ≤ v))), args)
  else if s.specifier = 'u' ∨ s.specifier = 'o' ∨ s.specifier = 'x' ∨ s.specifier = 'X' then do
    let (v, args) ← vaInt args
    pure (.text (intText (vaUnsigned A s.length v) s (baseOf s.specifier) true), args)
  else if s.specifier ∈ ['f', 'F', 'e', 'E', 'g', 'G', 'a', 'A'] then
    if s.length = .none then .error .float else .ok (.error, args)
  else if s.specifier = 'c' then
    if s.length = .none ∨ s.length = .l then do
      let (v, args) ← vaInt args
      pure (.text (charText (Char.ofNat (toUnsigned 8 v)) s), args)
    else .ok (.error, args)
  else if s.specifier = 's' then
    if s.length = .none then do
      let (v, args) ← vaStr args
      pure (.text (strText v s), args)
    else if s.length = .l then .error .panic
    else .ok (.error, args)
  else if s.specifier = 'p' then
    if s.length = .none then do
      let (v, args) ← vaInt args
      pure (.text (intText (toUnsigned A.wordBits v) s 16 true), args)
    else .ok (.error, args)
  else if s.specifier = 'n' then do
    let args ← vaOut args
    pure (.text [], args)
  else if s.specifier = '%' then
    if s.present = specifierPresent then .ok (.percent, args) else .ok (.error, args)
  else .ok (.error, args)

/-- What a conversion does to its part of the buffer. -/
def emit (w : Window) (buf : Nat → Char) (args : List Arg) : Printed → Except PrintFault (Out × List Arg)
  | .text l => (addStr w l ⟨buf, 0⟩).map (·, args)
  | .percent =>
    if 0 < w.sz then (store w.cap buf w.base '%').map (⟨·, 1⟩, args) else .ok (⟨buf, 1⟩, args)
  | .error => .ok (⟨buf, minusOne⟩, args)

theorem toUnsigned_lt (bits : Nat) (v : Int) : toUnsigned bits v < 2 ^ bits := by
  have hpos : (0 : Int) < 2 ^ bits := by positivity
  have hlt := Int.emod_lt_of_pos v hpos
  have hnn := Int.emod_nonneg v hpos.ne'
  unfold toUnsigned
  rw [Int.toNat_lt hnn]
  exact_mod_cast hlt

theorem toUnsigned_lt_word (h : n ≤ 64) (v : Int) : toUnsigned n v < 2 ^ 64 :=
  (toUnsigned_lt n v).trans_le (Nat.pow_le_pow_right (by decide) h)

theorem wordBits_le (A : Arch) : A.wordBits ≤ 64 := by
  cases A <;> decide

theorem vaUnsigned_lt (length : Length) (v : Int) : vaUnsigned A length v < 2 ^ 64 := by
  cases length with
  | none => exact toUnsigned_lt_word (by decide) v
  | hh => exact toUnsigned_lt_word (by decide) v
  | h => exact toUnsigned_lt_word (by decide) v
  | l => exact toUnsigned_lt_word (wordBits_le A) v
  | ll => exact toUnsigned_lt_word le_rfl v
  | j => exact toUnsigned_lt_word le_rfl v
  | z => exact toUnsigned_lt_word (wordBits_le A) v
  | t => exact toUnsigned_lt_word le_rfl _
  | L => exact toUnsigned_lt_word le_rfl v

theorem natAbs_bmod_lt (h : n ≤ 64) (v : Int) : (Int.bmod v (2 ^ n)).natAbs < 2 ^ 64 := by
  have hpos : 0 < 2 ^ n := Nat.two_pow_pos n
  have hle : 2 ^ n ≤ 2 ^ 64 := Nat.pow_le_pow_right (by decide) h
  have hlt := Int.bmod_lt (x := v) hpos
  have hge := Int.le_bmod (x := v) hpos
  omega

theorem natAbs_vaSigned_lt (length : Length) (v : Int) : (vaSigned A length v).natAbs < 2 ^ 64 := by
  have hbmod : ∀ {k : Nat}, k ≤ 64 → ∀ u : Int, (Int.bmod u (2 ^ k)).natAbs < 2 ^ 64 :=
    fun hk u => natAbs_bmod_lt hk u
  have hcast : ∀ {k : Nat}, k ≤ 64 → ((toUnsigned k v : Nat) : Int).natAbs < 2 ^ 64 := fun hk => by
    rw [Int.natAbs_natCast]
    exact toUnsigned_lt_word hk v
  generalize hm : 2 ^ 64 = m at hbmod hcast ⊢
  unfold vaSigned
  split
  · exact hbmod (k := 32) (by decide) v
  · exact hcast (by decide)
  · exact hcast (by decide)
  · exact hbmod (wordBits_le A) v
  · exact hbmod (k := 64) le_rfl _
  · exact hbmod (wordBits_le A) v
  · exact hbmod (k := 64) le_rfl v

theorem baseOf_cases (ch : Char) : baseOf ch = 8 ∨ baseOf ch = 10 ∨ baseOf ch = 16 := by
  unfold baseOf
  split_ifs <;> simp

/-- **A conversion** prints its text. -/
theorem vsnprintSpec_eq {pr : Printed} {rest : List Arg} (h : specText A args s = .ok (pr, rest)) :
    vsnprintSpec A w buf args s = emit w buf rest pr := by
  unfold specText at h
  unfold vsnprintSpec
  by_cases hd : s.specifier = 'd' ∨ s.specifier = 'i'
  · rw [if_pos hd] at h ⊢
    obtain ⟨⟨v, args'⟩, hv, hpr⟩ := bind_eq_ok.mp h
    obtain ⟨rfl, rfl⟩ := Prod.mk.inj (Except.ok.inj hpr)
    rw [hv, ok_bind]
    dsimp only [snprintInt64]
    rw [snprint64bitInt_eq (.inr (.inl rfl)) (natAbs_vaSigned_lt _ v)]
    rfl
  rw [if_neg hd] at h ⊢
  by_cases hu : s.specifier = 'u' ∨ s.specifier = 'o' ∨ s.specifier = 'x' ∨ s.specifier = 'X'
  · rw [if_pos hu] at h ⊢
    obtain ⟨⟨v, args'⟩, hv, hpr⟩ := bind_eq_ok.mp h
    obtain ⟨rfl, rfl⟩ := Prod.mk.inj (Except.ok.inj hpr)
    rw [hv, ok_bind]
    dsimp only [snprintUint64]
    rw [snprint64bitInt_eq (baseOf_cases _) (vaUnsigned_lt _ v)]
    rfl
  rw [if_neg hu] at h ⊢
  by_cases hf : s.specifier ∈ ['f', 'F', 'e', 'E', 'g', 'G', 'a', 'A']
  · rw [if_pos hf] at h ⊢
    by_cases hl : s.length = .none
    · rw [if_pos hl] at h
      cases h
    · rw [if_neg hl] at h ⊢
      obtain ⟨rfl, rfl⟩ := Prod.mk.inj (Except.ok.inj h)
      rfl
  rw [if_neg hf] at h ⊢
  by_cases hc : s.specifier = 'c'
  · rw [if_pos hc] at h ⊢
    by_cases hl : s.length = .none ∨ s.length = .l
    · rw [if_pos hl] at h ⊢
      obtain ⟨⟨v, args'⟩, hv, hpr⟩ := bind_eq_ok.mp h
      obtain ⟨rfl, rfl⟩ := Prod.mk.inj (Except.ok.inj hpr)
      rw [hv, ok_bind]
      dsimp only
      rw [snprintChar_eq]
      rfl
    · rw [if_neg hl] at h ⊢
      obtain ⟨rfl, rfl⟩ := Prod.mk.inj (Except.ok.inj h)
      rfl
  rw [if_neg hc] at h ⊢
  by_cases hs : s.specifier = 's'
  · rw [if_pos hs] at h ⊢
    by_cases hl : s.length = .none
    · rw [if_pos hl] at h ⊢
      obtain ⟨⟨v, args'⟩, hv, hpr⟩ := bind_eq_ok.mp h
      obtain ⟨rfl, rfl⟩ := Prod.mk.inj (Except.ok.inj hpr)
      rw [hv, ok_bind]
      dsimp only
      rw [snprintStr_eq]
      rfl
    · rw [if_neg hl] at h ⊢
      by_cases hw : s.length = .l
      · rw [if_pos hw] at h
        cases h
      · rw [if_neg hw] at h ⊢
        obtain ⟨rfl, rfl⟩ := Prod.mk.inj (Except.ok.inj h)
        rfl
  rw [if_neg hs] at h ⊢
  by_cases hp : s.specifier = 'p'
  · rw [if_pos hp] at h ⊢
    by_cases hl : s.length = .none
    · rw [if_pos hl] at h ⊢
      obtain ⟨⟨v, args'⟩, hv, hpr⟩ := bind_eq_ok.mp h
      obtain ⟨rfl, rfl⟩ := Prod.mk.inj (Except.ok.inj hpr)
      rw [hv, ok_bind]
      dsimp only [snprintUint64]
      rw [snprint64bitInt_eq (.inr (.inr rfl)) (toUnsigned_lt_word (wordBits_le A) v)]
      rfl
    · rw [if_neg hl] at h ⊢
      obtain ⟨rfl, rfl⟩ := Prod.mk.inj (Except.ok.inj h)
      rfl
  rw [if_neg hp] at h ⊢
  by_cases hn : s.specifier = 'n'
  · rw [if_pos hn] at h ⊢
    obtain ⟨x, hx, hpr⟩ := bind_eq_ok.mp h
    obtain ⟨rfl, rfl⟩ := Prod.mk.inj (Except.ok.inj hpr)
    rw [hx]
    rfl
  rw [if_neg hn] at h ⊢
  by_cases hpc : s.specifier = '%'
  · rw [if_pos hpc] at h ⊢
    by_cases hpresent : s.present = specifierPresent
    · rw [if_pos hpresent] at h ⊢
      obtain ⟨rfl, rfl⟩ := Prod.mk.inj (Except.ok.inj h)
      unfold emit
      dsimp only
      split_ifs
      · unfold store
        cases ensure (w.base < w.cap) (PrintFault.overflow w.base) <;> rfl
      · rfl
    · rw [if_neg hpresent] at h ⊢
      obtain ⟨rfl, rfl⟩ := Prod.mk.inj (Except.ok.inj h)
      rfl
  · rw [if_neg hpc] at h ⊢
    obtain ⟨rfl, rfl⟩ := Prod.mk.inj (Except.ok.inj h)
    rfl

/-- A text: characters, and the characters of percent conversions, which are `none`. -/
abbrev Text := List (Option Char)

/-- The character that is printed. -/
def glyph (x : Option Char) : Char := x.getD '%'

/-- A text without percent conversions. -/
def plain (l : List Char) : Text := l.map some

/-- What one conversion adds to the text, unless it is an error. -/
def Printed.text? : Printed → Option Text
  | .text l => some (plain l)
  | .percent => some [none]
  | .error => none

/-- A character outside of a conversion. -/
def literalText (ch : Char) : List Char := if ch = '\n' then ['\n', '\r'] else [ch]

/-- The text of the rest of a format behind `t`, and whether it ends with an error. -/
def renderFrom (A : Arch) : List Char → Stage → Spec → List Arg → Text → Except PrintFault (Text × Bool)
  | [], _, _, _, t => .ok (t, false)
  | ch :: format, parse, s, args, t =>
    if ch = '\x00' then .ok (t, false)
    else if parse = .none then
      if ch = '%' then renderFrom A format .flags .zero args t
      else renderFrom A format parse s args (t ++ plain (literalText ch))
    else do
      match ← parseSpec parse s args ch with
      | .more parse s args => renderFrom A format parse s args t
      | .done s args => do
        let (pr, args) ← specText A args s
        match pr.text? with
        | none => pure (t, true)
        | some t' => renderFrom A format .none s args (t ++ t')

/-- **The text of a format** with its arguments, and whether it ends with an error. -/
def render (A : Arch) (format : List Char) (args : List Arg) : Except PrintFault (Text × Bool) :=
  renderFrom A format .none .zero args []

/-! ## What a buffer holds -/

/-- The buffer of `sz` characters after `t` was printed to it. -/
def content (sz : Nat) (b : Nat → Char) (t : Text) : Nat → Char := fun i =>
  if i < sz % 2 ^ 32 then ((t[i]?).map glyph).getD (b i)
  else if i = sz % 2 ^ 32 ∧ i < sz ∧ (t.drop i).any Option.isNone = true then '%' else b i

variable {t t' : Text}

@[simp] theorem content_nil : content sz b [] = b := by
  funext i
  unfold content
  simp

/-- A text without percent conversions goes behind what is there. -/
theorem content_plain : overlay (content sz b t) t.length (sz % 2 ^ 32) l = content sz b (t ++ plain l) := by
  funext i
  unfold overlay content
  by_cases hi : i < sz % 2 ^ 32
  · rw [if_pos hi, if_pos hi]
    by_cases hlen : t.length ≤ i
    · rw [if_pos ⟨hlen, hi⟩, List.getElem?_append_right hlen, List.getElem?_eq_none hlen]
      unfold plain
      rw [List.getElem?_map]
      cases l[i - t.length]? <;> rfl
    · rw [if_neg (by omega), List.getElem?_append_left (by omega)]
  · rw [if_neg hi, if_neg (by omega), if_neg hi, List.drop_append, List.any_append]
    have hnone : ((plain l).drop (i - t.length)).any Option.isNone = false := by
      refine List.any_eq_false.mpr fun x hx => ?_
      obtain ⟨ch, -, rfl⟩ := List.mem_map.mp (List.mem_of_mem_drop hx)
      exact Bool.false_ne_true
    rw [hnone, Bool.or_false]

/-- The character of a percent conversion goes to the place behind what is there, or to the first one behind
the low 32 bits of the size. -/
theorem content_percent : content sz b (t ++ [none]) =
    if min (sz % 2 ^ 32) t.length < sz then
      Function.update (content sz b t) (min (sz % 2 ^ 32) t.length) '%'
    else content sz b t := by
  have hmod := Nat.mod_le sz (2 ^ 32)
  have hmark : ∀ i, i ≤ t.length → ((t ++ [none]).drop i).any Option.isNone = true := by
    intro i hi
    rw [List.drop_append_of_le_length hi, List.any_append]
    simp
  funext i
  by_cases hbefore : t.length < sz % 2 ^ 32
  · rw [Nat.min_eq_right hbefore.le, if_pos (by omega)]
    by_cases hi : i = t.length
    · subst hi
      rw [Function.update_self]
      unfold content
      rw [if_pos hbefore, List.getElem?_append_right le_rfl, Nat.sub_self]
      rfl
    · rw [Function.update_of_ne hi]
      unfold content
      by_cases hlt : i < t.length
      · rw [List.getElem?_append_left hlt, if_pos (hlt.trans hbefore), if_pos (hlt.trans hbefore)]
      · rw [List.getElem?_eq_none (by simp; omega), List.getElem?_eq_none (by omega),
          List.drop_of_length_le (by simp; omega), List.drop_of_length_le (by omega)]
  · rw [Nat.min_eq_left (by omega)]
    have hsame : i ≠ sz % 2 ^ 32 → content sz b (t ++ [none]) i = content sz b t i := by
      intro hne
      unfold content
      by_cases hi : i < sz % 2 ^ 32
      · rw [if_pos hi, if_pos hi, List.getElem?_append_left (by omega)]
      · rw [if_neg hi, if_neg hi, if_neg (by omega), if_neg (by omega)]
    split_ifs with hsz
    · by_cases hi : i = sz % 2 ^ 32
      · subst hi
        rw [Function.update_self]
        unfold content
        rw [if_neg (by omega), if_pos ⟨rfl, hsz, hmark _ (by omega)⟩]
      · rw [Function.update_of_ne hi]
        exact hsame hi
    · by_cases hi : i = sz % 2 ^ 32
      · unfold content
        rw [if_neg (by omega), if_neg (by omega), if_neg (by omega), if_neg (by omega)]
      · exact hsame hi

/-- The state of the loop when `t` was printed. -/
structure Holds (sz : Nat) (b : Nat → Char) (t : Text) (o : Out) : Prop where
  buf : o.buf = content sz b t
  ptr : o.ptr = t.length

/-- Characters outside of a conversion. -/
theorem Holds.literal (ch : Char) (h : Holds sz b t o) (hlen : t.length + (literalText ch).length < 2 ^ 32) :
    ∃ o', literal ⟨sz, 0, sz⟩ o ch = .ok o' ∧ Holds sz b (t ++ plain (literalText ch)) o' := by
  have hinside : Window.Inside ⟨sz, 0, sz⟩ := by
    unfold Window.Inside
    exact (Nat.zero_add _).trans_le (Nat.mod_le _ _)
  have heq : Printf.literal ⟨sz, 0, sz⟩ o ch = addStr ⟨sz, 0, sz⟩ (literalText ch) o := by
    unfold Printf.literal literalText
    split_ifs with hch
    · rw [hch, show ['\n', '\r'] = ['\n'] ++ ['\r'] from rfl]
      simp only [addStr_append, addStr_singleton]
    · rfl
  rw [heq, addStr_eq hinside (by rw [h.ptr]; exact hlen)]
  refine ⟨_, rfl, ?_, ?_⟩
  · dsimp only
    rw [h.buf, h.ptr, Nat.zero_add, Nat.zero_add, content_plain]
  · unfold plain
    rw [List.length_append, List.length_map, h.ptr]

/-- A conversion that prints something. -/
theorem Holds.emit {pr : Printed} (args : List Arg) (h : Holds sz b t o) (hpr : pr.text? = some t')
    (hlen : t.length + t'.length < 2 ^ 31) :
    ∃ o', emit ⟨sz, min (sz % 2 ^ 32) o.ptr, sz - min (sz % 2 ^ 32) o.ptr⟩ o.buf args pr = .ok (o', args) ∧
      o'.ptr = t'.length ∧ o'.buf = content sz b (t ++ t') := by
  have hmod := Nat.mod_le sz (2 ^ 32)
  rw [h.ptr, h.buf]
  cases pr with
  | text l =>
    obtain rfl := Option.some.inj hpr
    have hl : (plain l).length = l.length := List.length_map _
    have hinside : Window.Inside ⟨sz, min (sz % 2 ^ 32) t.length, sz - min (sz % 2 ^ 32) t.length⟩ := by
      unfold Window.Inside
      dsimp only
      omega
    unfold Printf.emit
    dsimp only
    rw [addStr_eq hinside (by dsimp only; omega)]
    refine ⟨_, rfl, by dsimp only; omega, ?_⟩
    dsimp only
    rw [← content_plain]
    by_cases hfits : t.length ≤ sz % 2 ^ 32
    · rw [Nat.min_eq_right hfits, Nat.add_zero, show t.length + (sz - t.length) % 2 ^ 32 = sz % 2 ^ 32 by omega]
    · rw [overlay_of_le (by omega), overlay_of_le (by omega)]
  | percent =>
    obtain rfl := Option.some.inj hpr
    unfold Printf.emit
    dsimp only
    rw [content_percent]
    split_ifs with hsz hlt hlt
    · unfold store
      rw [ensure_bind_of hlt]
      exact ⟨_, rfl, rfl, rfl⟩
    · omega
    · omega
    · exact ⟨_, rfl, rfl, rfl⟩
  | error => cases hpr

/-- The text only grows. -/
theorem renderFrom_le : ∀ {format : List Char} {parse : Stage} {s : Spec} {args : List Arg} {t : Text}
    {r : Text × Bool}, renderFrom A format parse s args t = .ok r → t.length ≤ r.1.length
  | [], _, _, _, _, _, h => by
    obtain rfl := Except.ok.inj h
    exact le_rfl
  | ch :: format, parse, s, args, t, r, h => by
    unfold renderFrom at h
    split_ifs at h
    · obtain rfl := Except.ok.inj h
      exact le_rfl
    · exact renderFrom_le h
    · have hle := renderFrom_le h
      rw [List.length_append] at hle
      omega
    · obtain ⟨p, -, h⟩ := bind_eq_ok.mp h
      cases p with
      | more parse s args => exact renderFrom_le h
      | done s args =>
        obtain ⟨⟨pr, args'⟩, -, h⟩ := bind_eq_ok.mp h
        dsimp only at h
        cases hpr : pr.text? with
        | none =>
          rw [hpr] at h
          obtain rfl := Except.ok.inj h
          exact le_rfl
        | some t' =>
          rw [hpr] at h
          have hle := renderFrom_le h
          rw [List.length_append] at hle
          omega

/-- How the loop ends: with the text, or with a negative position behind a part of it. -/
def Ends (sz : Nat) (b : Nat → Char) (r : Text × Bool) (o : Out) : Prop :=
  if r.2 = true then 2 ^ 31 ≤ o.ptr ∧ ∃ t, o.buf = content sz b t else Holds sz b r.1 o

/-- **The loop** prints the text. -/
theorem loop_spec : ∀ {format : List Char} {r : Run} {t : Text} {u : Text × Bool}, Holds sz b t r.out →
    renderFrom A format r.parse r.spec r.args t = .ok u → u.1.length < 2 ^ 31 →
    ∃ o, loop A sz format r = .ok o ∧ Ends sz b u o
  | [], r, t, u, hr, h, _ => by
    obtain rfl := Except.ok.inj h
    exact ⟨r.out, rfl, hr⟩
  | ch :: format, r, t, u, hr, h, hlen => by
    unfold renderFrom at h
    unfold loop
    by_cases hnull : ch = '\x00'
    · rw [if_pos hnull] at h ⊢
      obtain rfl := Except.ok.inj h
      exact ⟨r.out, rfl, hr⟩
    rw [if_neg hnull] at h ⊢
    by_cases hparse : r.parse = .none
    · rw [if_pos hparse] at h ⊢
      by_cases hpercent : ch = '%'
      · rw [if_pos hpercent] at h ⊢
        exact loop_spec (r := ⟨.flags, .zero, r.args, r.out⟩) hr h hlen
      · rw [if_neg hpercent] at h ⊢
        have hle := renderFrom_le h
        unfold plain at hle
        rw [List.length_append, List.length_map] at hle
        obtain ⟨o, ho, hholds⟩ := hr.literal ch (by omega)
        obtain ⟨o', ho', hends⟩ := loop_spec (r := { r with out := o }) hholds h hlen
        exact ⟨o', bind_eq_ok.mpr ⟨o, ho, ho'⟩, hends⟩
    · rw [if_neg hparse] at h ⊢
      obtain ⟨p, hp, h⟩ := bind_eq_ok.mp h
      rw [hp, ok_bind]
      cases p with
      | more parse s args => exact loop_spec (r := ⟨parse, s, args, r.out⟩) hr h hlen
      | done s args =>
        obtain ⟨⟨pr, args'⟩, hspec, h⟩ := bind_eq_ok.mp h
        dsimp only at h ⊢
        rw [vsnprintSpec_eq hspec]
        cases hpr : pr.text? with
        | none =>
          rw [hpr] at h
          obtain rfl := Except.ok.inj h
          cases pr with
          | text l => cases hpr
          | percent => cases hpr
          | error =>
            have hneg : 2 ^ 31 ≤ minusOne := by decide
            exact ⟨⟨r.out.buf, minusOne⟩, rfl, hneg, t, hr.buf⟩
        | some t' =>
          rw [hpr] at h
          have hle := renderFrom_le h
          rw [List.length_append] at hle
          obtain ⟨o, ho, hptr, hbuf⟩ := hr.emit args' hpr (by omega)
          rw [ho, ok_bind]
          dsimp only
          have hlt : ¬ 2 ^ 31 ≤ o.ptr := by omega
          rw [if_neg hlt]
          refine loop_spec (r := ⟨.none, s, args', o.buf, (r.out.ptr + o.ptr) % 2 ^ 32⟩) ⟨hbuf, ?_⟩ h hlen
          dsimp only
          rw [hptr, hr.ptr, List.length_append]
          exact Nat.mod_eq_of_lt (by omega)

/-! ## What is stored -/

/-- The length that is returned: zero after an error. -/
def lengthOf (u : Text × Bool) : Nat := if u.2 = true then 0 else u.1.length

/-- Behind the buffer nothing changes. -/
theorem content_of_le {i : Nat} (h : sz ≤ i) : content sz b t i = b i := by
  have hmod := Nat.mod_le sz (2 ^ 32)
  unfold content
  rw [if_neg (by omega), if_neg (by omega)]

/-- The null character is stored inside of the buffer. -/
theorem store_null {k : Nat} (hk : k < sz) : store sz buf k '\x00' = .ok (Function.update buf k '\x00') := by
  unfold store
  rw [ensure_bind_of hk]
  rfl

/-- **The result**: the length of the text, a null character behind what was stored of it, and nothing behind
the buffer. -/
theorem vsnprintf_spec {format : List Char} {u : Text × Bool} (hr : render A format args = .ok u)
    (hlen : u.1.length < 2 ^ 31) (b : Nat → Char) (sz : Nat) :
    ∃ b', vsnprintf A b sz format args = .ok (b', lengthOf u) ∧
      (0 < sz → b' (min (lengthOf u) (sz - 1)) = '\x00') ∧ (∀ i, sz ≤ i → b' i = b i) ∧
      ∀ i, i < min (lengthOf u) (sz - 1) → b' i = content sz b u.1 i := by
  have hstart : Holds sz b [] ⟨b, 0⟩ := ⟨content_nil.symm, rfl⟩
  obtain ⟨o, ho, hends⟩ := loop_spec (r := ⟨.none, .zero, args, ⟨b, 0⟩⟩) hstart hr hlen
  unfold vsnprintf
  rw [ho, ok_bind]
  unfold Ends at hends
  unfold lengthOf
  by_cases herr : u.2 = true
  · rw [if_pos herr] at hends ⊢
    obtain ⟨hneg, t, hbuf⟩ := hends
    rw [if_pos hneg, if_pos hneg, hbuf]
    rcases Nat.eq_zero_or_pos sz with rfl | hsz
    · exact ⟨_, rfl, nofun, fun i hi => content_of_le hi, fun i hi => by omega⟩
    · rw [if_neg hsz.ne', store_null hsz]
      refine ⟨_, rfl, fun _ => ?_, fun i hi => ?_, fun i hi => by omega⟩
      · rw [Nat.zero_min, Function.update_self]
      · rw [Function.update_of_ne (by omega), content_of_le hi]
  · rw [if_neg herr] at hends ⊢
    have hpos : ¬ 2 ^ 31 ≤ o.ptr := by
      rw [hends.ptr]
      omega
    rw [if_neg hpos, if_neg hpos, hends.ptr, hends.buf]
    rcases Nat.eq_zero_or_pos sz with rfl | hsz
    · exact ⟨_, rfl, nofun, fun i hi => content_of_le hi, fun i hi => by omega⟩
    · -- where the null character goes
      have hstore : (if sz = 0 then Except.ok (content sz b u.1)
          else if u.1.length < sz then store sz (content sz b u.1) u.1.length '\x00'
          else store sz (content sz b u.1) (sz - 1) '\x00') =
          .ok (Function.update (content sz b u.1) (min u.1.length (sz - 1)) '\x00') := by
        rw [if_neg hsz.ne']
        split_ifs with hfits
        · rw [store_null hfits, Nat.min_eq_left (by omega)]
        · rw [store_null (by omega), Nat.min_eq_right (by omega)]
      rw [hstore]
      refine ⟨_, rfl, fun _ => Function.update_self _ _ _, fun i hi => ?_, fun i hi => ?_⟩
      · rw [Function.update_of_ne (by omega), content_of_le hi]
      · rw [Function.update_of_ne (by omega)]

/-- The characters that are stored, without the null character. -/
def stored (b : Nat → Char) (n sz : Nat) : List Char := (List.range (min n (sz - 1))).map b

/-- A buffer after a call: terminated, and the same behind its size. -/
structure Sealed (sz n : Nat) (b b' : Nat → Char) : Prop where
  terminated : 0 < sz → b' (min n (sz - 1)) = '\x00'
  behind : ∀ i, sz ≤ i → b' i = b i

/-- Two calls with buffers of two sizes return one length, and store the beginning of one text. -/
def Bounded (A : Arch) (format : List Char) (args : List Arg) (sz₁ sz₂ : Nat) : Prop :=
  ∀ b₁ b₂, ∃ b₁' b₂' n, vsnprintf A b₁ sz₁ format args = .ok (b₁', n) ∧
    vsnprintf A b₂ sz₂ format args = .ok (b₂', n) ∧ Sealed sz₁ n b₁ b₁' ∧ Sealed sz₂ n b₂ b₂' ∧
    stored b₁' n sz₁ = (stored b₂' n sz₂).take (sz₁ - 1)

/-- The character `i` of the text is in the buffer: the size is that of an `unsigned`, or the character comes
before the low 32 bits of it, or it is the one at this place, a percent sign, and a percent conversion stores
its character there. -/
def Kept (sz : Nat) (t : Text) (i : Nat) : Prop :=
  sz < 2 ^ 32 ∨ i < sz % 2 ^ 32 ∨
    (i = sz % 2 ^ 32 ∧ (t[i]?).map glyph = some '%' ∧ (t.drop i).any Option.isNone = true)

theorem content_of_kept {i : Nat} (h : Kept sz t i) (hi : i < sz) (hlen : i < t.length) :
    some (content sz b t i) = (t[i]?).map glyph := by
  have hget : (t[i]?).map glyph = some (glyph (t.get ⟨i, hlen⟩)) := by
    rw [List.getElem?_eq_getElem hlen]
    rfl
  unfold content
  rcases h with hsz | hbefore | ⟨hat, hglyph, hmark⟩
  · rw [Nat.mod_eq_of_lt hsz, if_pos hi, hget]
    rfl
  · rw [if_pos hbefore, hget]
    rfl
  · rw [if_neg (by omega), if_pos ⟨hat, hi, hmark⟩, hglyph]

/-- Where a character is not kept, the buffer keeps what it held, or has the character of a later percent
conversion. -/
theorem content_of_not_kept {i : Nat} (h : ¬ Kept sz t i) (hlen : i < t.length) :
    (∀ b, content sz b t i = b i) ∨
      (i = sz % 2 ^ 32 ∧ i + 1 < t.length ∧ (t[i]?).map glyph ≠ some '%' ∧ ∀ b, content sz b t i = '%') := by
  obtain ⟨hsz, hrest⟩ := not_or.mp h
  obtain ⟨hbefore, hat⟩ := not_or.mp hrest
  by_cases hmark : i = sz % 2 ^ 32 ∧ i < sz ∧ (t.drop i).any Option.isNone = true
  · obtain ⟨hi, hlt, hany⟩ := hmark
    have hglyph : (t[i]?).map glyph ≠ some '%' := fun hg => hat ⟨hi, hg, hany⟩
    refine .inr ⟨hi, ?_, hglyph, fun b => ?_⟩
    · -- the mark is behind the character
      by_contra hlast
      have hdrop : t.drop i = [t.get ⟨i, hlen⟩] := by
        rw [List.drop_eq_getElem_cons hlen, List.drop_of_length_le (by omega)]
        rfl
      rw [hdrop, List.any_cons, List.any_nil, Bool.or_false] at hany
      refine hglyph ?_
      rw [List.getElem?_eq_getElem hlen]
      exact congrArg (fun x => some (glyph x)) (Option.isNone_iff_eq_none.mp hany)
    · unfold content
      rw [if_neg hbefore, if_pos ⟨hi, hlt, hany⟩]
  · refine .inl fun b => ?_
    unfold content
    rw [if_neg hbefore, if_neg hmark]

theorem stored_eq_take {b₁ b₂ : Nat → Char} {sz₁ sz₂ : Nat} (hle : sz₁ ≤ sz₂) :
    stored b₁ n sz₁ = (stored b₂ n sz₂).take (sz₁ - 1) ↔ ∀ i, i < min n (sz₁ - 1) → b₁ i = b₂ i := by
  unfold stored
  rw [← List.map_take, List.take_range, show min (sz₁ - 1) (min n (sz₂ - 1)) = min n (sz₁ - 1) by omega,
    List.map_inj_left]
  simp only [List.mem_range]

variable {format : List Char} {u : Text × Bool} {sz₁ sz₂ : Nat}

/-- Two calls are as they should be when the buffers hold the same up to the smaller size. -/
theorem bounded_iff_content (hr : render A format args = .ok u) (hlen : u.1.length < 2 ^ 31) (hle : sz₁ ≤ sz₂) :
    Bounded A format args sz₁ sz₂ ↔ ∀ b₁ b₂ i, i < min (lengthOf u) (sz₁ - 1) →
      content sz₁ b₁ u.1 i = content sz₂ b₂ u.1 i := by
  refine forall_congr' fun b₁ => forall_congr' fun b₂ => ?_
  obtain ⟨c₁, h₁, hnull₁, hbehind₁, hc₁⟩ := vsnprintf_spec hr hlen b₁ sz₁
  obtain ⟨c₂, h₂, hnull₂, hbehind₂, hc₂⟩ := vsnprintf_spec hr hlen b₂ sz₂
  constructor
  · rintro ⟨b₁', b₂', n, h₁', h₂', -, -, heq⟩ i hi
    obtain ⟨rfl, rfl⟩ := Prod.mk.inj (Except.ok.inj (h₁.symm.trans h₁'))
    obtain ⟨rfl, -⟩ := Prod.mk.inj (Except.ok.inj (h₂.symm.trans h₂'))
    rw [← hc₁ i hi, ← hc₂ i (by omega)]
    exact (stored_eq_take hle).mp heq i hi
  · intro heq
    refine ⟨c₁, c₂, lengthOf u, h₁, h₂, ⟨hnull₁, hbehind₁⟩, ⟨hnull₂, hbehind₂⟩, ?_⟩
    refine (stored_eq_take hle).mpr fun i hi => ?_
    rw [hc₁ i hi, hc₂ i (by omega)]
    exact heq i hi

/-- A character that is whatever the buffer held is never that of another buffer. -/
theorem not_free {f : (Nat → Char) → Char} {c : Char} {i : Nat} (hfree : ∀ b, f b = b i)
    (hconst : ∀ b, f b = c) : False := by
  have hzero := (hfree fun _ => '0').symm.trans (hconst _)
  have hone := (hfree fun _ => '1').symm.trans (hconst _)
  exact absurd (hzero.trans hone.symm) (by decide)

/-- **Formatting is bounded** for two sizes of the buffer exactly when they keep every character that the
smaller one has room for. -/
theorem bounded_iff (hr : render A format args = .ok u) (hlen : u.1.length < 2 ^ 31) (hle : sz₁ ≤ sz₂) :
    Bounded A format args sz₁ sz₂ ↔
      ∀ i, i < min (lengthOf u) (sz₁ - 1) → Kept sz₁ u.1 i ∧ Kept sz₂ u.1 i := by
  rw [bounded_iff_content hr hlen hle]
  have hlength : lengthOf u ≤ u.1.length := by
    unfold lengthOf
    split_ifs
    · exact Nat.zero_le _
    · exact le_rfl
  constructor
  · intro heq
    have hfirst : ∀ i, i < min (lengthOf u) (sz₁ - 1) → Kept sz₁ u.1 i := by
      intro i hi
      by_contra hnot
      have hlarge : 2 ^ 32 ≤ sz₁ := Nat.not_lt.mp fun hlt => hnot (.inl hlt)
      rcases content_of_not_kept hnot (by omega) with hfree | ⟨hat, hnext, -, -⟩
      · exact not_free hfree fun b => heq b (fun _ => ' ') i hi
      · -- the next character is not kept either, and nothing is stored there
        have hi' : i + 1 < min (lengthOf u) (sz₁ - 1) := by
          have hnone : u.2 ≠ true := by
            intro herr
            unfold lengthOf at hi
            rw [if_pos herr] at hi
            omega
          unfold lengthOf
          rw [if_neg hnone]
          omega
        refine not_free (f := fun b => content sz₁ b u.1 (i + 1)) (i := i + 1) (fun b => ?_)
          fun b => heq b (fun _ => ' ') (i + 1) hi'
        unfold content
        rw [if_neg (by omega), if_neg (by omega)]
    refine fun i hi => ⟨hfirst i hi, ?_⟩
    by_contra hnot
    rcases content_of_not_kept hnot (by omega) with hfree | ⟨-, -, hglyph, hpercent⟩
    · exact not_free hfree fun b => (heq (fun _ => ' ') b i hi).symm
    · have hkept := content_of_kept (b := fun _ => ' ') (hfirst i hi) (by omega) (by omega)
      rw [heq _ (fun _ => ' ') i hi, hpercent] at hkept
      exact hglyph hkept.symm
  · intro hkept b₁ b₂ i hi
    have h₁ := content_of_kept (b := b₁) (hkept i hi).1 (by omega) (by omega)
    have h₂ := content_of_kept (b := b₂) (hkept i hi).2 (by omega) (by omega)
    exact Option.some.inj (h₁.trans h₂.symm)

/-- Two small buffers for a number with a sign, a width and a percent sign. -/
theorem bounded_small : Bounded .x86 "%+5d%%".toList [.int 42] 4 16 :=
  (bounded_iff (u := (plain "  +42".toList ++ [none], false)) (by decide +kernel) (by decide) (by decide)).mpr
    fun _ _ => ⟨.inl (by decide), .inl (by decide)⟩

/-- A buffer of four gigabytes: `add_char` sees a buffer of no characters, and the text is not stored. -/
theorem notBounded_large : ¬ Bounded .x86_64 "ab".toList [] 3 (2 ^ 32) := by
  intro h
  have hr : render .x86_64 "ab".toList [] = .ok (plain "ab".toList, false) := by decide +kernel
  have hsame := (bounded_iff_content hr (by decide) (by decide)).mp h (fun _ => 'x') (fun _ => 'x') 0 (by decide)
  exact absurd hsame (by decide)

end Printf
end Wrmos
