import Wrmos.Bitmap
import Mathlib.Tactic.SplitIfs

/-!
# The positions of a bitmap

The bits that `set` and `clear` write for a position below `32` in its word are, among the positions of
that kind, that of the position alone (`testBit_one`), and `getfree` finds no other position: from bit 32
on `1 << n` is what it was 32 bits before, and the search starts at the bottom.  So the quirk of the shift
costs a bitmap room, and it confuses no two positions.
-/

namespace Wrmos
namespace Bitmap

variable {A : Arch} {b b' : Bitmap} {pos q : Nat}

/-- A position that the shift does not confuse with another. -/
def Plain (A : Arch) (pos : Nat) : Prop := pos % A.wordBits < 32

theorem wordBits_cases (A : Arch) : A.wordBits = 32 ∨ A.wordBits = 64 := by
  cases A <;> simp [Arch.wordBits]

/-- Among the bits below 32 the bit of a position is its own. -/
theorem testBit_one {n m : Nat} (hn : n < 32) (hm : m < 32) : (one A n).testBit m = decide (n = m) := by
  unfold one
  rw [Nat.mod_eq_of_lt hn]
  split_ifs with h31
  · have hw : 2 ^ 31 - 1 < 2 ^ A.wordBits := by
      rcases wordBits_cases A with h | h <;> rw [h] <;> decide
    have hbit := Nat.testBit_two_pow_sub_succ hw m
    rw [show 2 ^ 31 - 1 + 1 = 2 ^ 31 from rfl] at hbit
    rw [hbit, Nat.testBit_two_pow_sub_one]
    have hlt : m < A.wordBits := by rcases wordBits_cases A with h | h <;> omega
    simp only [hlt, decide_true, Bool.true_and, ← decide_not]
    rw [decide_eq_decide]
    omega
  · rw [Nat.testBit_two_pow]

theorem one_lt (n : Nat) : one A n < 2 ^ A.wordBits := by
  unfold one
  have hmod := Nat.mod_lt n (show 0 < 32 by decide)
  split_ifs
  · exact Nat.sub_lt (Nat.two_pow_pos _) (Nat.two_pow_pos _)
  · exact Nat.pow_lt_pow_right (by decide) (by rcases wordBits_cases A with h | h <;> omega)

/-- A free bit is below 32, and it is not set. -/
theorem freeBit_spec {w n j : Nat} (h : freeBit A w n = some j) : j < n ∧ j < 32 ∧ w.testBit j = false := by
  unfold freeBit at h
  rw [List.find?_range_eq_some] at h
  obtain ⟨hfree, hmem, hmin⟩ := h
  have hj : j < n := List.mem_range.mp hmem
  rw [beq_iff_eq] at hfree
  have hlt : j < 32 := by
    -- 32 bits below, `1 << n` is the same, and the search was there before
    by_contra hge
    have hbefore := hmin (j - 32) (by omega)
    have hsame : one A (j - 32) = one A j := by
      unfold one
      rw [show (j - 32) % 32 = j % 32 by omega]
    rw [hsame, hfree] at hbefore
    simp at hbefore
  refine ⟨hj, hlt, ?_⟩
  have hbit := congrArg (fun x => Nat.testBit x j) hfree
  simpa [testBit_one hlt hlt] using hbit

/-- **The position that `getfree` finds** belongs to the bitmap, is plain, and is free. -/
theorem freePos_spec (h : b.freePos A = some pos) :
    pos < b.capacity ∧ Plain A pos ∧ b.get A pos = some false := by
  have hw : 0 < A.wordBits := by rcases wordBits_cases A with h | h <;> omega
  have hword : ∀ {i j : Nat}, j < A.wordBits → i * A.wordBits + j < b.capacity → j < 32 →
      (b.words i).testBit j = false → i * A.wordBits + j < b.capacity ∧ Plain A (i * A.wordBits + j) ∧
        b.get A (i * A.wordBits + j) = some false := by
    intro i j hj hcap hlt hbit
    have hmod : (i * A.wordBits + j) % A.wordBits = j := by
      rw [Nat.mul_comm, Nat.mul_add_mod, Nat.mod_eq_of_lt hj]
    have hdiv : (i * A.wordBits + j) / A.wordBits = i := by
      rw [Nat.mul_comm, Nat.mul_add_div hw, Nat.div_eq_of_lt hj, Nat.add_zero]
    refine ⟨hcap, ?_, ?_⟩
    · unfold Plain
      rw [hmod]
      exact hlt
    · unfold get
      rw [if_neg (by omega), hmod, hdiv, hbit]
  have hsplit := Nat.div_add_mod b.capacity A.wordBits
  unfold freePos at h
  dsimp only at h
  split at h
  · rename_i p hp
    obtain rfl := Option.some.inj h
    obtain ⟨i, hi, hp⟩ := List.exists_of_findSome?_eq_some hp
    split_ifs at hp
    obtain ⟨j, hj, rfl⟩ := Option.map_eq_some_iff.mp hp
    obtain ⟨hjw, hlt, hbit⟩ := freeBit_spec hj
    refine hword hjw ?_ hlt hbit
    have hi' : (i + 1) * A.wordBits ≤ b.capacity / A.wordBits * A.wordBits :=
      Nat.mul_le_mul_right _ (List.mem_range.mp hi)
    rw [Nat.add_mul, Nat.one_mul] at hi'
    rw [Nat.mul_comm] at hsplit
    omega
  · obtain ⟨j, hj, rfl⟩ := Option.map_eq_some_iff.mp h
    obtain ⟨hjw, hlt, hbit⟩ := freeBit_spec hj
    have hrest := Nat.mod_lt b.capacity hw
    rw [Nat.mul_comm] at hsplit
    exact hword (by omega) (by omega) hlt hbit

/-- Positions are the same when their words and their bits are. -/
theorem eq_of_div_mod (hdiv : q / A.wordBits = pos / A.wordBits) (hmod : q % A.wordBits = pos % A.wordBits) :
    q = pos := by
  rw [← Nat.div_add_mod q A.wordBits, ← Nat.div_add_mod pos A.wordBits, hdiv, hmod]

/-- What is read of a plain position behind a write to the word of another one. -/
theorem get_write {w : Nat} {f : Bool → Bool} {c : Bitmap} (hcap : c.capacity = b.capacity)
    (hwords : c.words = Function.update b.words (pos / A.wordBits) w)
    (hw : ∀ m < 32, w.testBit m =
      if m = pos % A.wordBits then f ((b.words (pos / A.wordBits)).testBit m)
      else (b.words (pos / A.wordBits)).testBit m) (hq : Plain A q) :
    c.get A q = if q = pos then (b.get A q).map f else b.get A q := by
  unfold get
  rw [hcap]
  split_ifs with hout heq heq
  · rfl
  · rfl
  · subst heq
    rw [hwords, Function.update_self, hw _ hq, if_pos rfl]
    rfl
  · rw [hwords, Function.update_apply]
    split_ifs with hdiv
    · have hmod : q % A.wordBits ≠ pos % A.wordBits := fun hmod => heq (eq_of_div_mod hdiv hmod)
      rw [hw _ hq, if_neg hmod, hdiv]
    · rfl

/-- **`getfree`** takes a free position, and no other position changes. -/
theorem getfree_spec (hcount : b.count < 2 ^ 32 - 1) (h : b.getfree A = some (pos, b')) :
    pos < b.capacity ∧ Plain A pos ∧ b.get A pos = some false ∧ b'.count = b.count + 1 ∧
      b'.capacity = b.capacity ∧ b'.get A pos = some true ∧
      ∀ q, Plain A q → q ≠ pos → b'.get A q = b.get A q := by
  unfold getfree at h
  obtain ⟨p, hp, h⟩ := Option.map_eq_some_iff.mp h
  obtain ⟨rfl, rfl⟩ := Prod.mk.inj h
  obtain ⟨hcap, hplain, hfree⟩ := freePos_spec hp
  have hset : b.set A p = some { b with
      count := (b.count + 1) % 2 ^ 32
      words := Function.update b.words (p / A.wordBits)
        (b.words (p / A.wordBits) ||| one A (p % A.wordBits)) } := by
    unfold set
    rw [if_neg (by omega), if_neg (by rw [hfree]; decide)]
  rw [hset, Option.getD_some]
  have hget := fun q (hq : Plain A q) => get_write (A := A) (b := b) (q := q) (f := fun _ => true)
    (c := { b with
      count := (b.count + 1) % 2 ^ 32
      words := Function.update b.words (p / A.wordBits)
        (b.words (p / A.wordBits) ||| one A (p % A.wordBits)) }) rfl rfl
    (fun m hm => by
      rw [Nat.testBit_or, testBit_one hplain hm]
      by_cases h : m = p % A.wordBits
      · simp [h]
      · simp [h, Ne.symm h]) hq
  refine ⟨hcap, hplain, hfree, Nat.mod_eq_of_lt (by omega), rfl, ?_, fun q hq hne => ?_⟩
  · rw [hget p hplain, if_pos rfl, hfree]
    rfl
  · rw [hget q hq, if_neg hne]

/-- **`clear`** frees a position that is taken, and no other position changes. -/
theorem clear_spec (hplain : Plain A pos) (htaken : b.get A pos = some true) (hpos : 0 < b.count)
    (hcount : b.count < 2 ^ 32) :
    ∃ b', b.clear A pos = some b' ∧ b'.count = b.count - 1 ∧ b'.capacity = b.capacity ∧
      ∀ q, Plain A q → q ≠ pos → b'.get A q = b.get A q := by
  have hcap : ¬ b.capacity ≤ pos := by
    intro hout
    unfold get at htaken
    rw [if_pos hout] at htaken
    cases htaken
  refine ⟨{ b with
      count := (b.count + (2 ^ 32 - 1)) % 2 ^ 32
      words := Function.update b.words (pos / A.wordBits)
        (b.words (pos / A.wordBits) &&& (2 ^ A.wordBits - 1 - one A (pos % A.wordBits))) }, ?_, ?_, rfl,
    fun q hq hne => ?_⟩
  · unfold clear
    rw [if_neg hcap, if_neg (by rw [htaken]; decide)]
  · show (b.count + (2 ^ 32 - 1)) % 2 ^ 32 = b.count - 1
    omega
  · rw [get_write (A := A) (b := b) (f := fun _ => false) (c := { b with
      count := (b.count + (2 ^ 32 - 1)) % 2 ^ 32
      words := Function.update b.words (pos / A.wordBits)
        (b.words (pos / A.wordBits) &&& (2 ^ A.wordBits - 1 - one A (pos % A.wordBits))) }) rfl rfl ?_ hq,
      if_neg hne]
    intro m hm
    have hbit := Nat.testBit_two_pow_sub_succ (one_lt (A := A) (pos % A.wordBits)) m
    rw [Nat.testBit_and, Nat.sub_sub, Nat.add_comm 1, hbit, testBit_one hplain hm]
    have hlt : m < A.wordBits := by rcases wordBits_cases A with h | h <;> omega
    by_cases h : m = pos % A.wordBits
    · simp [h]
    · simp [h, Ne.symm h, hlt]

end Bitmap
end Wrmos
