import Mathlib.Algebra.Order.Ring.Nat
import Mathlib.Tactic.Ring

/-!
# Reads through wrapping offsets

A program reads from a buffer of `sz` bytes through addresses that are computed modulo `M`, where the
buffer is smaller than the address space.  What it reads from the offset `o` on is inside exactly when the
offset, reduced once, and the length stay within the buffer: a run of addresses that wraps passes the last
address, which is outside.  This is said for a run of bytes, for a table of entries of one size, and for a
string that ends at the first zero.
-/

namespace Wrmos
namespace Lib

variable {M sz o : Nat}

/-- A run of `n` bytes. -/
theorem run_inside_iff (h : sz < M) {n : Nat} :
    (∀ k < n, (o + k) % M < sz) ↔ n = 0 ∨ o % M + n ≤ sz := by
  constructor
  · intro hall
    by_contra hno
    rw [not_or] at hno
    obtain ⟨hn, hlong⟩ := hno
    have hfirst := hall 0 (Nat.pos_of_ne_zero hn)
    rw [Nat.add_zero] at hfirst
    have hend := hall (sz - o % M) (by omega)
    rw [Nat.add_mod, Nat.mod_eq_of_lt (show sz - o % M < M by omega),
      show o % M + (sz - o % M) = sz by omega, Nat.mod_eq_of_lt h] at hend
    exact Nat.lt_irrefl _ hend
  · rintro (rfl | hfit) k hk
    · exact absurd hk (Nat.not_lt_zero k)
    · rw [Nat.add_mod, Nat.mod_eq_of_lt (show k < M by omega), Nat.mod_eq_of_lt (by omega)]
      omega

/-- A table of `n` entries of `e` bytes. -/
theorem table_inside_iff (h : sz < M) {n e : Nat} (he : 0 < e) :
    (∀ i < n, ∀ k < e, (o + i * e + k) % M < sz) ↔ n = 0 ∨ o % M + n * e ≤ sz := by
  have hflat : (∀ i < n, ∀ k < e, (o + i * e + k) % M < sz) ↔ ∀ t < n * e, (o + t) % M < sz := by
    constructor
    · intro hall t ht
      have hi : t / e < n := Nat.div_lt_of_lt_mul (Nat.mul_comm n e ▸ ht)
      have hread := hall (t / e) hi (t % e) (Nat.mod_lt t he)
      rwa [Nat.add_assoc, Nat.mul_comm, Nat.div_add_mod] at hread
    · intro hall i hi k hk
      rw [Nat.add_assoc]
      refine hall _ ?_
      calc i * e + k < i * e + e := Nat.add_lt_add_left hk _
        _ = (i + 1) * e := by ring
        _ ≤ n * e := Nat.mul_le_mul_right e hi
  rw [hflat, run_inside_iff h, Nat.mul_eq_zero, or_iff_left (Nat.pos_iff_ne_zero.mp he)]

/-- A string: every byte up to and with the first zero. -/
theorem string_inside_iff (h : sz < M) (byte : Nat → Nat) :
    (∀ k, (∀ j < k, byte ((o + j) % M) ≠ 0) → (o + k) % M < sz) ↔
      ∃ k, o % M + k < sz ∧ byte (o % M + k) = 0 := by
  have hreduce : ∀ {k}, o % M + k < M → (o + k) % M = o % M + k := by
    intro k hk
    rw [Nat.add_mod, Nat.mod_eq_of_lt (show k < M by omega), Nat.mod_eq_of_lt hk]
  constructor
  · intro hall
    have hfirst := hall 0 (fun _ hj => absurd hj (Nat.not_lt_zero _))
    rw [Nat.add_zero] at hfirst
    by_contra hno
    have hend := hall (sz - o % M) fun j hj hzero =>
      hno ⟨j, by omega, by rwa [hreduce (by omega)] at hzero⟩
    rw [hreduce (by omega)] at hend
    omega
  · rintro ⟨n, hn, hzero⟩ k hk
    have hle : k ≤ n := by
      by_contra hlt
      refine hk n (by omega) ?_
      rw [hreduce (by omega)]
      exact hzero
    rw [hreduce (by omega)]
    omega

end Lib
end Wrmos
