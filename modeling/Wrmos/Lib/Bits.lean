import Mathlib.Tactic.Ring

/-!
# Bit fields of natural numbers

A structure of bit fields is one number; a field of width `n` whose lowest bit is `lo` is read by
`bits w lo n`.  `bits_pack` reads a field back from the sum that packed it, whatever stands above
it and below it.
-/

namespace Wrmos
namespace Lib

/-- The `n` bits of `w` from bit `lo` on. -/
def bits (w lo n : Nat) : Nat := w / 2 ^ lo % 2 ^ n

theorem bits_lt (w lo n : Nat) : bits w lo n < 2 ^ n :=
  Nat.mod_lt _ (Nat.two_pow_pos n)

/-- **Reading a packed field.**  `hi` are the fields above, `r` the fields below. -/
theorem bits_pack {hi v r lo n : Nat} (hv : v < 2 ^ n) (hr : r < 2 ^ lo) :
    bits (hi * 2 ^ (lo + n) + v * 2 ^ lo + r) lo n = v := by
  have hsum : hi * 2 ^ (lo + n) + v * 2 ^ lo + r = r + 2 ^ lo * (v + 2 ^ n * hi) := by
    rw [pow_add]
    ring
  unfold bits
  rw [hsum, Nat.add_mul_div_left _ _ (Nat.two_pow_pos lo), Nat.div_eq_of_lt hr, Nat.zero_add,
    Nat.add_mul_mod_self_left, Nat.mod_eq_of_lt hv]

/-- A number is what stands above a field, the field and what stands below it. -/
theorem bits_split (w lo n : Nat) :
    w = w / 2 ^ (lo + n) * 2 ^ (lo + n) + bits w lo n * 2 ^ lo + w % 2 ^ lo := by
  have hlow := Nat.div_add_mod w (2 ^ lo)
  have hmid := Nat.div_add_mod (w / 2 ^ lo) (2 ^ n)
  rw [Nat.div_div_eq_div_mul, ← pow_add] at hmid
  unfold bits
  calc w = 2 ^ lo * (2 ^ n * (w / 2 ^ (lo + n)) + w / 2 ^ lo % 2 ^ n) + w % 2 ^ lo := by
        rw [hmid, hlow]
    _ = _ := by rw [pow_add]; ring

/-- **Reading a field that was replaced.** -/
theorem bits_replace (w v lo n : Nat) :
    bits (w - bits w lo n * 2 ^ lo + v % 2 ^ n * 2 ^ lo) lo n = v % 2 ^ n := by
  have hsplit := bits_split w lo n
  have hnew : w - bits w lo n * 2 ^ lo + v % 2 ^ n * 2 ^ lo =
      w / 2 ^ (lo + n) * 2 ^ (lo + n) + v % 2 ^ n * 2 ^ lo + w % 2 ^ lo := by omega
  rw [hnew]
  exact bits_pack (Nat.mod_lt _ (Nat.two_pow_pos n)) (Nat.mod_lt _ (Nat.two_pow_pos lo))

end Lib
end Wrmos
