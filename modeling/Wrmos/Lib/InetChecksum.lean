import Mathlib.Logic.Basic
import Mathlib.Data.Nat.ModEq
import Mathlib.Tactic.Ring

/-!
# Byte memories and the one's complement checksum

A byte memory is a function from addresses to bytes; numbers are stored in it big-endian.  `sum16`
adds the sixteen-bit words of a range, with a zero byte behind a range of odd size, `fold` adds the
carries back until the sum has sixteen bits, and `inetChecksum` is the complement of what is left.

A sum is zero modulo `2 ^ 16 - 1` exactly where its folded value is `0` or `0xffff`, so the checksum
of a range that holds its own checksum is zero (`inetChecksum_put16`).  Nothing else about the
contents of the range is used.
-/

namespace Wrmos
namespace Lib

/-- A byte memory. -/
abbrev Mem := Nat → UInt8

namespace Mem

variable (m : Mem) (a b n v : Nat)

/-- A byte as a number. -/
def byte : Nat := (m a).toNat

def be16 : Nat := m.byte a * 256 + m.byte (a + 1)

def be32 : Nat := m.be16 a * 2 ^ 16 + m.be16 (a + 2)

/-- Six bytes, as a hardware address has them. -/
def be48 : Nat := m.be32 a * 2 ^ 16 + m.be16 (a + 4)

def put8 : Mem := fun x => if x = a then UInt8.ofNat v else m x

def put16 : Mem := (m.put8 a (v / 256)).put8 (a + 1) v

def put32 : Mem := (m.put16 a (v / 2 ^ 16)).put16 (a + 2) v

def put48 : Mem := (m.put32 a (v / 2 ^ 16)).put16 (a + 4) v

/-- `memcpy` between ranges of which the later one is not overwritten before it is read. -/
def copy (dst src : Nat) : Mem := fun x => if dst ≤ x ∧ x < dst + n then m (src + (x - dst)) else m x

/-- A string of bytes that arrives from outside. -/
def load (bytes : List UInt8) : Mem := fun x =>
  if a ≤ x ∧ x < a + bytes.length then bytes.getD (x - a) 0 else m x

/-- The bytes of a range. -/
def slice : List UInt8 := (List.range n).map fun i => m (a + i)

/-- Two memories agree on a range. -/
def AgreeOn (m' : Mem) : Prop := ∀ x, a ≤ x → x < a + n → m' x = m x

variable {m : Mem} {m' m'' : Mem} {a b n v : Nat} {x src dst : Nat} {bytes : List UInt8}

theorem byte_lt : m.byte a < 256 := (m a).toNat_lt

theorem be16_lt : m.be16 a < 2 ^ 16 := by
  have h1 := byte_lt (m := m) (a := a)
  have h2 := byte_lt (m := m) (a := a + 1)
  unfold be16
  omega

theorem be32_lt : m.be32 a < 2 ^ 32 := by
  have h1 := be16_lt (m := m) (a := a)
  have h2 := be16_lt (m := m) (a := a + 2)
  unfold be32
  omega

theorem put8_self : m.put8 a v a = UInt8.ofNat v := if_pos rfl

theorem put8_of_ne (h : x ≠ a) : m.put8 a v x = m x := if_neg h

theorem put16_of_ne (h : x ≠ a) (h' : x ≠ a + 1) : m.put16 a v x = m x := by
  rw [put16, put8_of_ne h', put8_of_ne h]

theorem byte_put8 : (m.put8 a v).byte a = v % 256 := by
  unfold byte
  rw [put8_self, UInt8.toNat_ofNat']

theorem be16_put16 : (m.put16 a v).be16 a = v % 2 ^ 16 := by
  have hhi : (m.put16 a v).byte a = v / 256 % 256 := by
    unfold byte put16
    rw [put8_of_ne (by omega), put8_self, UInt8.toNat_ofNat']
  have hlo : (m.put16 a v).byte (a + 1) = v % 256 := byte_put8
  unfold be16
  rw [hhi, hlo]
  omega

/-! ## Agreement on a range -/

theorem AgreeOn.mono (h : AgreeOn m a n m') {a' n' : Nat} (ha : a ≤ a') (hn : a' + n' ≤ a + n) :
    AgreeOn m a' n' m' := fun x h1 h2 => h x (by omega) (by omega)

theorem AgreeOn.trans (h : AgreeOn m a n m') (h' : AgreeOn m' a n m'') : AgreeOn m a n m'' :=
  fun x h1 h2 => (h' x h1 h2).trans (h x h1 h2)

theorem AgreeOn.byte (h : AgreeOn m a n m') (ha : a ≤ b) (hb : b < a + n) :
    m'.byte b = m.byte b := congrArg UInt8.toNat (h b ha hb)

theorem AgreeOn.be16 (h : AgreeOn m a n m') (ha : a ≤ b) (hb : b + 2 ≤ a + n) :
    m'.be16 b = m.be16 b := by
  unfold Mem.be16
  rw [h.byte ha (by omega), h.byte (by omega) (by omega)]

theorem AgreeOn.be32 (h : AgreeOn m a n m') (ha : a ≤ b) (hb : b + 4 ≤ a + n) :
    m'.be32 b = m.be32 b := by
  unfold Mem.be32
  rw [h.be16 ha (by omega), h.be16 (by omega) (by omega)]

theorem agreeOn_put8 (h : a + n ≤ b ∨ b + 1 ≤ a) : AgreeOn m a n (m.put8 b v) :=
  fun _ _ _ => put8_of_ne (by omega)

theorem agreeOn_put16 (h : a + n ≤ b ∨ b + 2 ≤ a) : AgreeOn m a n (m.put16 b v) :=
  fun _ _ _ => put16_of_ne (by omega) (by omega)

theorem agreeOn_put32 (h : a + n ≤ b ∨ b + 4 ≤ a) : AgreeOn m a n (m.put32 b v) :=
  (agreeOn_put16 (by omega)).trans (agreeOn_put16 (by omega))

theorem agreeOn_put48 (h : a + n ≤ b ∨ b + 6 ≤ a) : AgreeOn m a n (m.put48 b v) :=
  (agreeOn_put32 (by omega)).trans (agreeOn_put16 (by omega))

/-! ### Reading beside a write -/

theorem byte_put8_ne (h : x ≠ a) : (m.put8 a v).byte x = m.byte x :=
  congrArg UInt8.toNat (put8_of_ne h)

theorem byte_put16_ne (h : x < a ∨ a + 2 ≤ x) : (m.put16 a v).byte x = m.byte x :=
  (agreeOn_put16 (a := x) (n := 1) (by omega)).byte (Nat.le_refl x) (by omega)

theorem byte_put32_ne (h : x < a ∨ a + 4 ≤ x) : (m.put32 a v).byte x = m.byte x :=
  (agreeOn_put32 (a := x) (n := 1) (by omega)).byte (Nat.le_refl x) (by omega)

theorem be16_put8_ne (h : x + 2 ≤ a ∨ a + 1 ≤ x) : (m.put8 a v).be16 x = m.be16 x :=
  (agreeOn_put8 h).be16 (Nat.le_refl x) (Nat.le_refl _)

theorem be16_put16_ne (h : x + 2 ≤ a ∨ a + 2 ≤ x) : (m.put16 a v).be16 x = m.be16 x :=
  (agreeOn_put16 h).be16 (Nat.le_refl x) (Nat.le_refl _)

theorem be16_put32_ne (h : x + 2 ≤ a ∨ a + 4 ≤ x) : (m.put32 a v).be16 x = m.be16 x :=
  (agreeOn_put32 h).be16 (Nat.le_refl x) (Nat.le_refl _)

theorem be32_put16_ne (h : x + 4 ≤ a ∨ a + 2 ≤ x) : (m.put16 a v).be32 x = m.be32 x :=
  (agreeOn_put16 h).be32 (Nat.le_refl x) (Nat.le_refl _)

theorem be32_put32_ne (h : x + 4 ≤ a ∨ a + 4 ≤ x) : (m.put32 a v).be32 x = m.be32 x :=
  (agreeOn_put32 h).be32 (Nat.le_refl x) (Nat.le_refl _)

theorem be32_put32 : (m.put32 a v).be32 a = v % 2 ^ 32 := by
  have hhi : (m.put32 a v).be16 a = v / 2 ^ 16 % 2 ^ 16 :=
    ((agreeOn_put16 (n := 2) (.inl (Nat.le_refl _))).be16 (Nat.le_refl a) (Nat.le_refl _)).trans
      be16_put16
  have hlo : (m.put32 a v).be16 (a + 2) = v % 2 ^ 16 := be16_put16
  unfold be32
  rw [hhi, hlo]
  omega

end Mem

/-! ## The sum of a range -/

/-- The sum of the sixteen-bit words of the range of `n` bytes at `a`. -/
def sum16 (m : Mem) : Nat → Nat → Nat
  | _, 0 => 0
  | a, 1 => m.byte a * 256
  | a, n + 2 => m.be16 a + sum16 m (a + 2) n

/-- Add the carries back, at most as often as a sum of 32 bits needs it. -/
def fold : Nat → Nat → Nat
  | 0, s => s
  | k + 1, s => if s / 2 ^ 16 = 0 then s else fold k (s % 2 ^ 16 + s / 2 ^ 16)

/-- `inet_checksum` over a range and a second part whose sum is given. -/
def inetChecksum (m : Mem) (a n extra : Nat) : Nat :=
  2 ^ 16 - 1 - fold 3 ((sum16 m a n + extra) % 2 ^ 32)

section Sum

variable {m m' : Mem} {a n v j s k extra : Nat}

/-- Every word, the last one included, is below `2 ^ 16`. -/
theorem sum16_le_words : sum16 m a n ≤ (2 ^ 16 - 1) * ((n + 1) / 2) := by
  induction n using Nat.twoStepInduction generalizing a with
  | zero => simp [sum16]
  | one =>
    have := Mem.byte_lt (m := m) (a := a)
    simp only [sum16]
    omega
  | more n ih _ =>
    have h1 := ih (a := a + 2)
    have h2 := Mem.be16_lt (m := m) (a := a)
    simp only [sum16]
    omega

theorem sum16_le : sum16 m a n ≤ 2 ^ 16 * n := by
  have := sum16_le_words (m := m) (a := a) (n := n)
  omega

theorem sum16_congr (h : Mem.AgreeOn m a n m') : sum16 m' a n = sum16 m a n := by
  induction n using Nat.twoStepInduction generalizing a with
  | zero => rfl
  | one => simp only [sum16]; rw [h.byte (Nat.le_refl a) (by omega)]
  | more n ih _ =>
    simp only [sum16]
    rw [h.be16 (Nat.le_refl a) (by omega), ih (h.mono (by omega) (by omega))]

/-- A range from an even offset on is the sum of its two parts. -/
theorem sum16_add : sum16 m a (2 * j + n) = sum16 m a (2 * j) + sum16 m (a + 2 * j) n := by
  induction j generalizing a with
  | zero => simp [sum16]
  | succ j ih =>
    rw [show 2 * (j + 1) + n = 2 * j + n + 2 by omega, show 2 * (j + 1) = 2 * j + 2 by omega]
    simp only [sum16]
    rw [ih, show a + 2 + 2 * j = a + (2 * j + 2) by omega, Nat.add_assoc]

/-- Writing a word over a word of zeros at an even offset adds that word to the sum. -/
theorem sum16_put16 (hj : 2 * j + 2 ≤ n) (hz : m.be16 (a + 2 * j) = 0) (hv : v < 2 ^ 16) :
    sum16 (m.put16 (a + 2 * j) v) a n = sum16 m a n + v := by
  obtain ⟨k, rfl⟩ : ∃ k, n = 2 * j + (k + 2) := ⟨n - 2 * j - 2, by omega⟩
  have hlow : Mem.AgreeOn m a (2 * j) (m.put16 (a + 2 * j) v) := fun x h1 h2 =>
    Mem.put16_of_ne (by omega) (by omega)
  have hhigh : Mem.AgreeOn m (a + 2 * j + 2) k (m.put16 (a + 2 * j) v) := fun x h1 h2 =>
    Mem.put16_of_ne (by omega) (by omega)
  rw [sum16_add, sum16_add, sum16_congr hlow]
  simp only [sum16]
  rw [sum16_congr hhigh, Mem.be16_put16, hz, Nat.mod_eq_of_lt hv]
  omega

theorem fold_lt (hs : s < 2 ^ 32) : fold 3 s < 2 ^ 16 := by
  have h1 : s % 2 ^ 16 + s / 2 ^ 16 ≤ 2 ^ 17 - 2 := by omega
  unfold fold
  split
  · omega
  · generalize s % 2 ^ 16 + s / 2 ^ 16 = t at h1
    unfold fold
    split
    · omega
    · have h2 : t % 2 ^ 16 + t / 2 ^ 16 < 2 ^ 16 := by omega
      unfold fold
      rw [if_pos (by omega)]
      exact h2

theorem fold_modEq : fold k s ≡ s [MOD 2 ^ 16 - 1] := by
  induction k generalizing s with
  | zero => exact Nat.ModEq.refl s
  | succ k ih =>
    unfold fold
    split
    · exact Nat.ModEq.refl s
    · refine ih.trans ?_
      have hs : s = s % 2 ^ 16 + s / 2 ^ 16 + (2 ^ 16 - 1) * (s / 2 ^ 16) := by omega
      conv_rhs => rw [hs]
      exact (Nat.ModEq.refl _).trans (by simp [Nat.ModEq])

theorem fold_eq_zero (h : fold k s = 0) : s = 0 := by
  induction k generalizing s with
  | zero => exact h
  | succ k ih =>
    unfold fold at h
    split at h
    · exact h
    · have := ih h
      omega

theorem inetChecksum_congr (h : Mem.AgreeOn m a n m') :
    inetChecksum m' a n extra = inetChecksum m a n extra := by
  unfold inetChecksum
  rw [sum16_congr h]

/-- **A range that holds its own checksum verifies**, where no addition wraps.  The checksum is computed
while its field, at an even offset, is zero. -/
theorem inetChecksum_put16 (hj : 2 * j + 2 ≤ n) (hz : m.be16 (a + 2 * j) = 0)
    (hS : sum16 m a n + extra + 2 ^ 16 ≤ 2 ^ 32) :
    inetChecksum (m.put16 (a + 2 * j) (inetChecksum m a n extra)) a n extra = 0 := by
  generalize hS' : sum16 m a n + extra = S at hS
  have hc : inetChecksum m a n extra = 2 ^ 16 - 1 - fold 3 S := by
    unfold inetChecksum
    rw [hS', Nat.mod_eq_of_lt (by omega)]
  have hfS := fold_lt (s := S) (by omega)
  generalize hcv : inetChecksum m a n extra = c at hc ⊢
  have hsum : sum16 (m.put16 (a + 2 * j) c) a n + extra = S + c := by
    rw [sum16_put16 hj hz (by omega), ← hS']
    omega
  unfold inetChecksum
  rw [hsum, Nat.mod_eq_of_lt (by omega)]
  -- the new sum is a positive multiple of `2 ^ 16 - 1`
  have hmod : fold 3 (S + c) ≡ 0 [MOD 2 ^ 16 - 1] := by
    have h1 : S + c ≡ fold 3 S + c [MOD 2 ^ 16 - 1] := (fold_modEq (k := 3)).symm.add_right c
    have h2 : fold 3 S + c = 2 ^ 16 - 1 := by omega
    refine fold_modEq.trans (h1.trans ?_)
    rw [h2]
    exact Nat.modEq_zero_iff_dvd.mpr dvd_rfl
  have hpos : fold 3 (S + c) ≠ 0 := by
    intro h0
    have h1 := fold_eq_zero h0
    have h2 : S = 0 := by omega
    rw [h2] at hc
    have h3 : fold 3 0 = 0 := rfl
    omega
  have hlt' := fold_lt (s := S + c) (by omega)
  obtain ⟨q, hq⟩ := Nat.modEq_zero_iff_dvd.mp hmod
  have hq1 : q = 1 := by
    rcases Nat.lt_or_ge q 2 with h | h
    · rcases Nat.eq_zero_or_pos q with h0 | h0
      · rw [h0, Nat.mul_zero] at hq
        exact absurd hq hpos
      · omega
    · have := Nat.mul_le_mul_left (2 ^ 16 - 1) h
      omega
  omega

/-- The same for a range of which the size alone bounds the sum. -/
theorem inetChecksum_store (hj : 2 * j + 2 ≤ n) (hz : m.be16 (a + 2 * j) = 0)
    (hn : n < 2 ^ 14) (he : extra < 2 ^ 30) :
    inetChecksum (m.put16 (a + 2 * j) (inetChecksum m a n extra)) a n extra = 0 := by
  have hle := sum16_le (m := m) (a := a) (n := n)
  exact inetChecksum_put16 hj hz (by omega)

end Sum

end Lib
end Wrmos
