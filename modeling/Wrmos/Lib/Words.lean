import Wrmos.Lib.InetChecksum
import Mathlib.Tactic.Linarith

/-!
# Words in a byte memory

A word of `n` bytes is a number, stored with its bytes in either order.  Writing the word that was read
moves the bytes (`putWord_word`), whichever order the machine has, and two words are equal where their
bytes are (`word_eq_iff`).
-/

namespace Wrmos
namespace Lib

variable {f g : Nat → Nat} {n i j : Nat}

/-- The number with the digits `f 0`, `f 1`, ..., the most significant one first, to the base of a byte. -/
def number (f : Nat → Nat) : Nat → Nat
  | 0 => 0
  | n + 1 => number f n * 256 + f n

theorem number_div (hf : ∀ i, f i < 256) :
    ∀ {j n : Nat}, j ≤ n → number f n / 256 ^ j = number f (n - j) := by
  intro j
  induction j with
  | zero =>
    intro n _
    rw [pow_zero, Nat.div_one, Nat.sub_zero]
  | succ j ih =>
    intro n hj
    obtain ⟨k, hk⟩ : ∃ k, n - j = k + 1 := ⟨n - j - 1, by omega⟩
    have hlt := hf k
    rw [pow_succ, ← Nat.div_div_eq_div_mul, ih (by omega), hk, show n - (j + 1) = k by omega, number]
    omega

/-- A digit is read back from the number. -/
theorem number_digit (hf : ∀ i, f i < 256) (hi : i < n) : number f n / 256 ^ (n - 1 - i) % 256 = f i := by
  have hlt := hf i
  rw [number_div hf (by omega), show n - (n - 1 - i) = i + 1 by omega, number]
  omega

theorem number_eq_iff (hf : ∀ i, f i < 256) (hg : ∀ i, g i < 256) :
    number f n = number g n ↔ ∀ i < n, f i = g i := by
  constructor
  · intro h i hi
    rw [← number_digit hf hi, ← number_digit hg hi, h]
  · intro h
    induction n with
    | zero => rfl
    | succ n ih => rw [number, number, ih fun i hi => h i (by omega), h n (by omega)]

namespace Mem

variable {m : Mem} {big : Bool} {a x v : Nat} {b : UInt8}

/-- Where the byte of the rank `i`, counted from the most significant one, is in a word of `n` bytes. -/
def rank (big : Bool) (n i : Nat) : Nat := if big then i else n - 1 - i

theorem rank_lt (big : Bool) (h : i < n) : rank big n i < n := by
  unfold rank
  split_ifs <;> omega

theorem rank_rank (h : i < n) : rank big n (rank big n i) = i := by
  unfold rank
  split_ifs <;> omega

/-- The word of `n` bytes at an address. -/
def word (m : Mem) (big : Bool) (n a : Nat) : Nat := number (fun i => m.byte (a + rank big n i)) n

/-- Write a word of `n` bytes. -/
def putWord (m : Mem) (big : Bool) (n a v : Nat) : Mem := fun x =>
  if a ≤ x ∧ x < a + n then UInt8.ofNat (v / 256 ^ (n - 1 - rank big n (x - a))) else m x

theorem putWord_of_ne (h : ¬ (a ≤ x ∧ x < a + n)) : m.putWord big n a v x = m x := if_neg h

/-- **A word that was read** is written byte by byte. -/
theorem putWord_word {src : Nat} (hj : j < n) :
    m.putWord big n a (m.word big n src) (a + j) = m (src + j) := by
  have hdigit := number_digit (f := fun i => m.byte (src + rank big n i)) (fun i => byte_lt)
    (rank_lt big hj)
  rw [rank_rank hj] at hdigit
  unfold putWord
  rw [if_pos (by omega), Nat.add_sub_cancel_left]
  apply UInt8.toNat.inj
  rw [UInt8.toNat_ofNat']
  exact hdigit

/-- **Words are equal** where their bytes are. -/
theorem word_eq_iff {b : Nat} : m.word big n a = m.word big n b ↔ ∀ i < n, m (a + i) = m (b + i) := by
  unfold word
  rw [number_eq_iff (fun _ => byte_lt) fun _ => byte_lt]
  constructor
  · intro h i hi
    have hr := h (rank big n i) (rank_lt big hi)
    rw [rank_rank hi] at hr
    exact UInt8.toNat.inj hr
  · intro h i hi
    exact congrArg UInt8.toNat (h _ (rank_lt big hi))

theorem AgreeOn.word {m' : Mem} {c k : Nat} (h : AgreeOn m a n m') (ha : a ≤ c) (hc : c + k ≤ a + n) :
    m'.word big k c = m.word big k c := by
  refine (number_eq_iff (fun _ => byte_lt) fun _ => byte_lt).mpr fun i hi => ?_
  have hr := rank_lt big hi
  exact h.byte (by omega) (by omega)

theorem agreeOn_putWord {c k : Nat} (h : a + n ≤ c ∨ c + k ≤ a) : AgreeOn m a n (m.putWord big k c v) :=
  fun _ _ _ => putWord_of_ne (by omega)

/-- Writes to ranges without a common byte commute. -/
theorem putWord_put16 {c w : Nat} (h : c + 2 ≤ a ∨ a + n ≤ c) :
    (m.put16 c w).putWord big n a v = (m.putWord big n a v).put16 c w := by
  funext x
  by_cases hx : a ≤ x ∧ x < a + n
  · rw [put16_of_ne (by omega) (by omega)]
    unfold putWord
    rw [if_pos hx, if_pos hx]
  · rw [putWord_of_ne hx]
    unfold put16 put8
    split_ifs
    · rfl
    · rfl
    · exact (putWord_of_ne hx).symm

/-- Four bytes, the most significant one first. -/
theorem putWord_four : m.putWord true 4 a v = m.put32 a v := by
  funext x
  by_cases hx : a ≤ x ∧ x < a + 4
  · obtain ⟨i, hi, rfl⟩ : ∃ i, i < 4 ∧ x = a + i := ⟨x - a, by omega, by omega⟩
    unfold putWord put32 put16 put8
    rw [if_pos hx, Nat.add_sub_cancel_left]
    obtain rfl | rfl | rfl | rfl : i = 0 ∨ i = 1 ∨ i = 2 ∨ i = 3 := by omega
    all_goals simp [rank, Nat.div_div_eq_div_mul, Nat.add_assoc]
  · rw [putWord_of_ne hx]
    exact (agreeOn_put32 (a := x) (n := 1) (by omega) x (Nat.le_refl x) (by omega)).symm

end Mem

end Lib
end Wrmos
