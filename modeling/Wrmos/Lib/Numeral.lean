import Mathlib.Data.Nat.Digits.Defs

/-!
# Numerals

The value of a character as a digit, with letters in either case from ten on, and the value of a string of
digits to a base.  `value_digits` reads back what was written digit by digit, and `value_zeros` and
`value_append_zeros` say what zeros before and behind a numeral do to its value.
-/

namespace Wrmos
namespace Lib

/-- The value of a character as a digit. -/
def digitVal (ch : Char) : Option Nat :=
  if 48 ≤ ch.toNat ∧ ch.toNat ≤ 57 then some (ch.toNat - 48)
  else if 65 ≤ ch.toNat ∧ ch.toNat ≤ 90 then some (ch.toNat - 55)
  else if 97 ≤ ch.toNat ∧ ch.toNat ≤ 122 then some (ch.toNat - 87)
  else none

/-- The character is a digit to the base. -/
def isDigit (base : Nat) (ch : Char) : Bool := (digitVal ch).any fun d => decide (d < base)

/-- The number with one more digit. -/
def addDigit (base n : Nat) (ch : Char) : Nat := n * base + (digitVal ch).getD 0

/-- The value of a string of digits behind a number. -/
def valueFrom (base n : Nat) (l : List Char) : Nat := l.foldl (addDigit base) n

/-- **The value** of a string of digits. -/
def value (base : Nat) (l : List Char) : Nat := valueFrom base 0 l

variable {base n k : Nat} {l l' : List Char} {ch : Char}

theorem isDigit_iff : isDigit base ch = true ↔ ∃ d < base, digitVal ch = some d := by
  unfold isDigit
  cases digitVal ch with
  | none => simp
  | some d => simp

@[simp] theorem valueFrom_nil : valueFrom base n [] = n := rfl

@[simp] theorem valueFrom_cons : valueFrom base n (ch :: l) = valueFrom base (addDigit base n ch) l := rfl

theorem valueFrom_append : valueFrom base n (l ++ l') = valueFrom base (valueFrom base n l) l' :=
  List.foldl_append

theorem value_append : value base (l ++ l') = valueFrom base (value base l) l' := valueFrom_append

theorem addDigit_zero : addDigit base n '0' = n * base := rfl

/-- Zeros before a numeral do not change its value. -/
theorem value_zeros : value base (List.replicate k '0' ++ l) = value base l := by
  have hzero : value base (List.replicate k '0') = 0 := by
    induction k with
    | zero => rfl
    | succ k ih =>
      rw [List.replicate_succ', value_append, ih, valueFrom_cons, valueFrom_nil, addDigit_zero, Nat.zero_mul]
  rw [value_append, hzero]
  rfl

/-- Zeros behind a numeral multiply its value. -/
theorem value_append_zeros : value base (l ++ List.replicate k '0') = value base l * base ^ k := by
  induction k with
  | zero => rw [List.replicate_zero, List.append_nil, pow_zero, Nat.mul_one]
  | succ k ih =>
    rw [List.replicate_succ', ← List.append_assoc, value_append, ih, valueFrom_cons, valueFrom_nil,
      addDigit_zero, pow_succ, Nat.mul_assoc]

/-- **A number is read back** from its digits. -/
theorem value_digits {g : Nat → Char} (hbase : 2 ≤ base) (hg : ∀ d < base, digitVal (g d) = some d)
    (n : Nat) :
    value base ((Nat.digits base n).map g).reverse = n := by
  induction n using Nat.strong_induction_on with
  | _ n ih =>
    rcases Nat.eq_zero_or_pos n with rfl | hpos
    · rw [Nat.digits_zero]
      rfl
    · have hdigit : (digitVal (g (n % base))).getD 0 = n % base := by
        rw [hg _ (Nat.mod_lt n (by omega))]
        rfl
      rw [Nat.digits_of_two_le_of_pos hbase hpos, List.map_cons, List.reverse_cons, value_append,
        ih _ (Nat.div_lt_self hpos (by omega)), valueFrom_cons, valueFrom_nil, addDigit, hdigit,
        Nat.mul_comm, Nat.div_add_mod]

theorem isDigit_digits {g : Nat → Char} (hbase : 2 ≤ base) (hg : ∀ d < base, digitVal (g d) = some d)
    (n : Nat) :
    ∀ ch ∈ ((Nat.digits base n).map g).reverse, isDigit base ch = true := by
  intro ch hch
  obtain ⟨d, hd, rfl⟩ := List.mem_map.mp (List.mem_reverse.mp hch)
  have hlt : d < base := Nat.digits_lt_base (by omega) hd
  exact isDigit_iff.mpr ⟨d, hlt, hg d hlt⟩

end Lib
end Wrmos
