import Wrmos.L4Types
import Mathlib.Tactic.SplitIfs

/-!
# Times and flexpages read back

A relative time is a mantissa of ten bits and an exponent of five.  `rel` shifts a count of microseconds
down until it has ten bits, so `relUsec_createRel` is the count rounded down to a multiple of the unit
`2 ^ unitExp u`, and the unit does not get smaller when the count grows.  The three fields lie at other
bits on a little-endian machine than on a big-endian one, and `Zero` is the same number on both: on a
little-endian machine it is the encoding of 16 microseconds (`createRel_coded_iff`).

A flexpage holds the address, the logarithm of the size and the access rights of a range, or the port and
the logarithm of the size of a range of ports.  The base of the ports is a signed field, of sixteen bits on
a machine with words of 32 bits, and there the ports from `0x8000` on are read back with the sign
(`fpage_encodes_iff`).
-/

namespace Wrmos

open Lib (bits)

namespace Time

variable {A : Arch} {t u v e m : Nat}

/-! ## The encoding of a period -/

/-- The exponent that `rel` chooses for a count. -/
def unitExp (u : Nat) : Nat := if u ≤ mantissaMax then 0 else Nat.log2 u - 9

/-- The word that the three fields make. -/
theorem setPeriod_eq (ht : t < 2 ^ 16) : setPeriod A t e m =
    if A.bigEndian then e % 2 ^ 5 * 2 ^ 10 + m % 2 ^ 10 else m % 2 ^ 10 * 2 ^ 6 + e % 2 ^ 5 * 2 := by
  unfold setPeriod Arch.setField bits
  cases A.bigEndian <;> simp only [if_true, if_false, Bool.false_eq_true] <;> omega

theorem relExp_setPeriod (ht : t < 2 ^ 16) (he : e < 2 ^ 5) : relExp A (setPeriod A t e m) = e := by
  rw [setPeriod_eq ht]
  unfold relExp Arch.field bits
  cases A.bigEndian <;> simp only [if_true, if_false, Bool.false_eq_true] <;> omega

theorem mantissa_setPeriod (ht : t < 2 ^ 16) (hm : m < 2 ^ 10) :
    A.field 16 6 10 (setPeriod A t e m) = m := by
  rw [setPeriod_eq ht]
  unfold Arch.field bits
  cases A.bigEndian <;> simp only [if_true, if_false, Bool.false_eq_true] <;> omega

/-- The loop ends at the logarithm. -/
theorem msBit_eq (hu : u ≠ 0) : ∀ {n : Nat}, Nat.log2 u < n → msBit u n = Nat.log2 u
  | 0, h => absurd h (Nat.not_lt_zero _)
  | n + 1, h => by
    have hshift : u >>> n ≠ 0 ↔ n ≤ Nat.log2 u := by
      rw [Nat.shiftRight_eq_div_pow, Nat.div_ne_zero_iff, Nat.le_log2 hu]
      exact and_iff_right (Nat.two_pow_pos n).ne'
    unfold msBit
    by_cases hn : n ≤ Nat.log2 u
    · rw [if_pos (hshift.mpr hn)]
      omega
    · rw [if_neg (mt hshift.mp hn)]
      exact msBit_eq hu (Nat.lt_of_not_le hn)

/-- Above the mantissa the unit is such that the mantissa has exactly ten bits. -/
theorem unitExp_spec (hu : mantissaMax < u) :
    2 ^ 9 * 2 ^ unitExp u ≤ u ∧ u < 2 ^ 10 * 2 ^ unitExp u := by
  have hu' : 1023 < u := hu
  have h9 : 9 ≤ Nat.log2 u := (Nat.le_log2 (by omega)).mpr (by omega)
  have hlo := Nat.log2_self_le (n := u) (by omega)
  have hhi := Nat.lt_log2_self (n := u)
  unfold unitExp
  rw [if_neg (Nat.not_le.mpr hu), ← pow_add, ← pow_add, Nat.add_sub_cancel' h9]
  refine ⟨hlo, ?_⟩
  rwa [show 10 + (Nat.log2 u - 9) = Nat.log2 u + 1 by omega]

theorem unitExp_lt (hu : u < 2 ^ 41) : unitExp u < 2 ^ 5 := by
  by_cases h0 : u = 0
  · subst h0
    decide
  have hlog : Nat.log2 u < 41 := (Nat.log2_lt h0).mpr hu
  unfold unitExp
  split <;> omega

theorem mantissa_lt (u : Nat) : u / 2 ^ unitExp u < 2 ^ 10 := by
  by_cases h : u ≤ mantissaMax
  · unfold unitExp
    rw [if_pos h]
    exact Nat.lt_of_le_of_lt (Nat.div_le_self u _) (Nat.lt_succ_of_le h)
  · exact Nat.div_lt_of_lt_mul ((unitExp_spec (Nat.lt_of_not_le h)).2.trans_eq (Nat.mul_comm _ _))

/-- A unit above one microsecond has a large mantissa. -/
theorem le_mantissa (hu : unitExp u ≠ 0) : 2 ^ 9 ≤ u / 2 ^ unitExp u := by
  have hlarge : mantissaMax < u := by
    by_contra h
    exact hu (if_pos (Nat.le_of_not_lt h))
  exact (Nat.le_div_iff_mul_le (Nat.two_pow_pos _)).mpr (unitExp_spec hlarge).1

theorem mantissa_pos (hu : 1 ≤ u) : 0 < u / 2 ^ unitExp u := by
  by_cases h : unitExp u = 0
  · rw [h, pow_zero, Nat.div_one]
    exact hu
  · exact Nat.lt_of_lt_of_le (by decide) (le_mantissa h)

/-- The unit does not get smaller. -/
theorem unitExp_mono (huv : u ≤ v) : unitExp u ≤ unitExp v := by
  unfold unitExp
  by_cases hv : v ≤ mantissaMax
  · rw [if_pos hv, if_pos (huv.trans hv)]
  · rw [if_neg hv]
    split
    · exact Nat.zero_le _
    · rename_i hu
      have hu' : u ≠ 0 := by
        rintro rfl
        exact hu (Nat.zero_le _)
      have hlog : Nat.log2 u ≤ Nat.log2 v :=
        (Nat.le_log2 (by omega)).mpr ((Nat.log2_self_le hu').trans huv)
      omega

variable (A) in
/-- What `create_rel` makes of a count it can represent. -/
theorem createRel_eq (h1 : 1 ≤ u) (hu : u < 2 ^ 41) :
    createRel A u = setPeriod A zero (unitExp u) (u / 2 ^ unitExp u) := by
  have h0 : u ≠ 0 := by omega
  have hexp := unitExp_lt hu
  unfold createRel rel
  rw [if_neg h0]
  by_cases h : u ≤ mantissaMax
  · have hunit : unitExp u = 0 := if_pos h
    rw [if_pos h, hunit, pow_zero, Nat.div_one]
  · have hu' : 1023 < u := Nat.lt_of_not_le h
    have h9 : 9 ≤ Nat.log2 u := (Nat.le_log2 h0).mpr (by omega)
    have hlog : Nat.log2 u < 64 := (Nat.log2_lt h0).mpr (hu.trans (by decide))
    have hunit : unitExp u = Nat.log2 u + 1 - 10 := by
      unfold unitExp
      rw [if_neg h]
      omega
    dsimp only
    rw [if_neg h, msBit_eq h0 hlog, ← hunit, Nat.shiftRight_eq_div_pow]
    exact if_neg (Nat.not_lt.mpr (Nat.le_of_lt_succ hexp))

theorem relExp_createRel (h1 : 1 ≤ u) (hu : u < 2 ^ 41) : relExp A (createRel A u) = unitExp u := by
  rw [createRel_eq A h1 hu]
  exact relExp_setPeriod (by decide) (unitExp_lt hu)

theorem isNever_createRel (h1 : 1 ≤ u) (hu : u < 2 ^ 41) : isNever (createRel A u) = false := by
  have hpos := mantissa_pos h1
  have hlt := mantissa_lt u
  rw [createRel_eq A h1 hu, setPeriod_eq (by decide)]
  unfold isNever
  rw [beq_eq_false_iff_ne]
  split <;> omega

/-- The count that is read back is rounded down to the unit. -/
theorem relUsec_createRel (h1 : 1 ≤ u) (hu : u < 2 ^ 41) :
    relUsec A (createRel A u) = u / 2 ^ unitExp u * 2 ^ unitExp u := by
  have hexp := relExp_createRel (A := A) h1 hu
  have hman : A.field 16 6 10 (createRel A u) = u / 2 ^ unitExp u := by
    rw [createRel_eq A h1 hu]
    exact mantissa_setPeriod (by decide) (mantissa_lt u)
  unfold relExp at hexp
  unfold relUsec
  rw [isNever_createRel h1 hu, if_neg Bool.false_ne_true, hman, hexp]

/-- `Zero` is the code of 16 microseconds, on a little-endian machine. -/
theorem isZero_createRel (h1 : 1 ≤ u) (hu : u < 2 ^ 41) :
    isZero (createRel A u) = true ↔ A.bigEndian = false ∧ u = 16 := by
  have hlt := mantissa_lt u
  have hexp := unitExp_lt hu
  have hlarge := @le_mantissa u
  rw [createRel_eq A h1 hu, setPeriod_eq (by decide)]
  unfold isZero
  rw [beq_iff_eq]
  constructor
  · intro h
    by_cases hunit : unitExp u = 0
    · rw [hunit, pow_zero, Nat.div_one] at h hlt
      cases hend : A.bigEndian <;> rw [hend] at h
      · refine ⟨rfl, ?_⟩
        rw [if_neg Bool.false_ne_true] at h
        omega
      · rw [if_pos rfl] at h
        omega
    · have h9 := hlarge hunit
      split at h <;> omega
  · rintro ⟨hend, rfl⟩
    rw [hend]
    rfl

/-- A longer time is not read back as a shorter one. -/
theorem relUsec_mono (h1 : 1 ≤ u) (huv : u ≤ v) (hv : v < 2 ^ 41) :
    relUsec A (createRel A u) ≤ relUsec A (createRel A v) := by
  rw [relUsec_createRel h1 (huv.trans_lt hv), relUsec_createRel (h1.trans huv) hv]
  rcases (unitExp_mono huv).eq_or_lt with heq | hlt
  · rw [heq]
    exact Nat.mul_le_mul_right _ (Nat.div_le_div_right huv)
  · -- the unit of `v` is larger, so `u` lies below the smallest multiple with ten bits
    have hvmax : mantissaMax < v := by
      by_contra h
      rw [show unitExp v = 0 from if_pos (Nat.le_of_not_lt h)] at hlt
      exact Nat.not_lt_zero _ hlt
    have hubound : u < 2 ^ 10 * 2 ^ unitExp u := by
      have hm := Nat.lt_mul_div_succ u (Nat.two_pow_pos (unitExp u))
      have hle := Nat.mul_le_mul_left (2 ^ unitExp u) (mantissa_lt u)
      rw [Nat.mul_comm (2 ^ unitExp u) (2 ^ 10)] at hle
      exact hm.trans_le hle
    calc u / 2 ^ unitExp u * 2 ^ unitExp u ≤ u := Nat.div_mul_le_self u _
      _ ≤ 2 ^ 10 * 2 ^ unitExp u := hubound.le
      _ = 2 ^ 9 * 2 ^ (unitExp u + 1) := by rw [← pow_add, ← pow_add]; congr 1; omega
      _ ≤ 2 ^ 9 * 2 ^ unitExp v := Nat.mul_le_mul_left _ (Nat.pow_le_pow_right (by decide) hlt)
      _ ≤ v / 2 ^ unitExp v * 2 ^ unitExp v := Nat.mul_le_mul_right _ (le_mantissa (by omega))

/-- The encoding of a count is no special value, and is read back as the count rounded down by less than
the unit. -/
structure RelCoded (A : Arch) (u : Nat) : Prop where
  not_never : isNever (createRel A u) = false
  not_zero : isZero (createRel A u) = false
  le : relUsec A (createRel A u) ≤ u
  unit : u - relUsec A (createRel A u) < 2 ^ relExp A (createRel A u)

/-- **Relative times** are encoded as they should be, all but one on a little-endian machine. -/
theorem createRel_coded_iff (h1 : 1 ≤ u) (hu : u < 2 ^ 41) :
    (RelCoded A u ∧ ∀ v, u ≤ v → v < 2 ^ 41 →
      relUsec A (createRel A u) ≤ relUsec A (createRel A v)) ↔ A.bigEndian = true ∨ u ≠ 16 := by
  have hzero := isZero_createRel (A := A) h1 hu
  constructor
  · rintro ⟨hcoded, -⟩
    by_contra hnot
    obtain ⟨hend, h16⟩ := not_or.mp hnot
    have hz := hzero.mpr ⟨eq_false_of_ne_true hend, not_not.mp h16⟩
    rw [hcoded.not_zero] at hz
    cases hz
  · intro hcond
    refine ⟨⟨isNever_createRel h1 hu, ?_, ?_, ?_⟩, fun v huv hv => relUsec_mono h1 huv hv⟩
    · rw [← Bool.not_eq_true, hzero]
      rintro ⟨hend, h16⟩
      rcases hcond with h | h
      · rw [hend] at h
        cases h
      · exact h h16
    · rw [relUsec_createRel h1 hu]
      exact Nat.div_mul_le_self u _
    · rw [relUsec_createRel h1 hu, relExp_createRel h1 hu, Nat.mul_comm, ← Nat.mod_eq_sub_mul_div]
      exact Nat.mod_lt u (Nat.two_pow_pos _)

/-- Three seconds, the timeout of the console. -/
theorem createRel_threeSeconds : (RelCoded .x86 3000000 ∧ ∀ v, 3000000 ≤ v → v < 2 ^ 41 →
    relUsec .x86 (createRel .x86 3000000) ≤ relUsec .x86 (createRel .x86 v)) :=
  (createRel_coded_iff (A := .x86) (by decide) (by decide)).mpr (.inr (by decide))

/-- 16 microseconds are `Zero`. -/
theorem createRel_sixteen : ¬ RelCoded .x86 16 := fun h => by
  have hz := h.not_zero
  revert hz
  decide

end Time

namespace Fpage

variable {A : Arch} {fp adr sz acc port n b k : Nat}

/-! ## The logarithm of a size -/

/-- The loop divides by two until the number is odd. -/
theorem lowBit_spec : ∀ {n b : Nat}, 0 < b → b < 2 ^ n → lowBit n b < n ∧ 2 ^ lowBit n b ∣ b
  | 0, b, hpos, hlt => by
    rw [pow_zero] at hlt
    omega
  | n + 1, b, hpos, hlt => by
    unfold lowBit
    split
    · exact ⟨Nat.succ_pos n, one_dvd b⟩
    · rename_i hodd
      rw [pow_succ] at hlt
      obtain ⟨hn, hdvd⟩ := lowBit_spec (n := n) (b := b / 2) (by omega) (by omega)
      refine ⟨Nat.succ_lt_succ hn, ?_⟩
      have hb : b = b / 2 * 2 := by omega
      rw [pow_succ, hb]
      exact Nat.mul_dvd_mul_right (by rwa [Nat.mul_div_cancel _ (by decide)]) 2

theorem lowBit_two_pow : ∀ {n k : Nat}, k < n → lowBit n (2 ^ k) = k
  | 0, k, h => absurd h (Nat.not_lt_zero k)
  | n + 1, 0, _ => rfl
  | n + 1, k + 1, h => by
    unfold lowBit
    rw [pow_succ, if_neg (by omega), Nat.mul_div_cancel _ (by decide),
      lowBit_two_pow (Nat.lt_of_succ_lt_succ h)]

/-- A size that is checked against its lowest bit is a power of two. -/
theorem shiftOne_lowBit (hpos : 0 < sz) (hsz : sz < 2 ^ A.wordBits) :
    shiftOne A (lowBit A.wordBits sz % 2 ^ 6) = 2 ^ lowBit A.wordBits sz ∧
      lowBit A.wordBits sz < A.wordBits ∧ lowBit A.wordBits sz < 2 ^ 6 := by
  have hlow := (lowBit_spec hpos hsz).1
  have h64 : A.wordBits ≤ 2 ^ 6 := by cases A <;> decide
  have hlow' : lowBit A.wordBits sz < 2 ^ 6 := hlow.trans_le h64
  refine ⟨?_, hlow, hlow'⟩
  rw [Nat.mod_eq_of_lt hlow']
  exact if_pos hlow

/-- A range is naturally aligned: its size is a power of two and divides its start. -/
def Natural (start size : Nat) : Prop := (∃ k, size = 2 ^ k) ∧ size ∣ start

/-- Among the powers of two the mask of the size tests the alignment. -/
theorem and_mask : adr &&& (2 ^ k - 1) ≠ 0 ↔ ¬ 2 ^ k ∣ adr := by
  rw [Nat.and_two_pow_sub_one_eq_mod, Nat.dvd_iff_mod_eq_zero]

/-! ## Flexpages of memory -/

/-- The word that `set` makes before its last check. -/
def memWord (A : Arch) (fp adr sz acc : Nat) : Nat :=
  adr / 2 ^ 10 % 2 ^ (A.wordBits - 10) * 2 ^ 10 + lowBit A.wordBits sz % 2 ^ 6 * 2 ^ 4 +
    bits fp 3 1 * 2 ^ 3 + acc % 2 ^ 3

theorem log2sz_memWord : log2sz (memWord A fp adr sz acc) = lowBit A.wordBits sz % 2 ^ 6 := by
  have hnull := Lib.bits_lt fp 3 1
  unfold log2sz memWord
  rw [Nat.add_assoc]
  exact Lib.bits_pack (Nat.mod_lt _ (Nat.two_pow_pos 6)) (by omega)

theorem size_memWord : size A (memWord A fp adr sz acc) = shiftOne A (lowBit A.wordBits sz % 2 ^ 6) := by
  unfold size
  rw [log2sz_memWord]

theorem access_memWord : access (memWord A fp adr sz acc) = acc % 2 ^ 3 := by
  unfold access memWord
  generalize bits fp 3 1 = null
  unfold bits
  omega

theorem addr_memWord (hadr : adr < 2 ^ A.wordBits) :
    addr A (memWord A fp adr sz acc) = adr / 2 ^ 10 * 2 ^ 10 := by
  have hw : 2 ^ A.wordBits = 2 ^ (A.wordBits - 10) * 2 ^ 10 := by cases A <;> rfl
  have hbase : adr / 2 ^ 10 < 2 ^ (A.wordBits - 10) := by
    rw [Nat.div_lt_iff_lt_mul (by decide), ← hw]
    exact hadr
  have hnull := Lib.bits_lt fp 3 1
  have hdiv : memWord A fp adr sz acc / 2 ^ 10 = adr / 2 ^ 10 := by
    unfold memWord
    rw [Nat.mod_eq_of_lt hbase]
    omega
  unfold addr
  rw [hdiv]
  exact Nat.mod_eq_of_lt ((Nat.div_mul_le_self adr _).trans_lt hadr)

/-- `set` takes the naturally aligned ranges from a page on, and makes everything else nil. -/
theorem set_eq (fp adr acc : Nat) (hsz : sz < 2 ^ A.wordBits) :
    set A fp adr sz acc = memWord A fp adr sz acc ∧ Natural adr sz ∧ pageSz ≤ sz ∨
      set A fp adr sz acc = nil ∧ ¬ (Natural adr sz ∧ pageSz ≤ sz) := by
  unfold set
  by_cases hsmall : sz < pageSz
  · rw [if_pos (.inl hsmall)]
    exact .inr ⟨rfl, fun h => Nat.not_le.mpr hsmall h.2⟩
  have hpos : 0 < sz := Nat.lt_of_lt_of_le (by decide) (Nat.le_of_not_lt hsmall)
  obtain ⟨hone, hlow, -⟩ := shiftOne_lowBit hpos hsz
  have hsize : size A (memWord A fp adr sz acc) = 2 ^ lowBit A.wordBits sz := size_memWord.trans hone
  by_cases hpow : sz = 2 ^ lowBit A.wordBits sz
  · -- a power of two: the mask decides
    by_cases hdvd : sz ∣ adr
    · have hmask : ¬ (adr &&& (sz - 1) ≠ 0) := by
        rw [hpow, and_mask, ← hpow]
        exact not_not.mpr hdvd
      refine .inl ⟨?_, ⟨⟨_, hpow⟩, hdvd⟩, Nat.le_of_not_lt hsmall⟩
      rw [if_neg (not_or.mpr ⟨hsmall, hmask⟩)]
      exact if_neg (not_not.mpr (hsize.trans hpow.symm))
    · have hmask : adr &&& (sz - 1) ≠ 0 := by
        rw [hpow, and_mask, ← hpow]
        exact hdvd
      rw [if_pos (.inr hmask)]
      exact .inr ⟨rfl, fun h => hdvd h.1.2⟩
  · -- the last check finds the other sizes
    refine .inr ⟨?_, ?_⟩
    · by_cases hmask : adr &&& (sz - 1) ≠ 0
      · exact if_pos (.inr hmask)
      · rw [if_neg (not_or.mpr ⟨hsmall, hmask⟩)]
        exact if_pos fun h => hpow (h.symm.trans hsize)
    · rintro ⟨⟨⟨k, rfl⟩, -⟩, -⟩
      have hk : k < A.wordBits := (Nat.pow_lt_pow_iff_right (by decide)).mp hsz
      exact hpow (by rw [lowBit_two_pow hk])

/-- The flexpage of a range of memory: it has the parts it was made of and is of no other kind, and what
is not naturally aligned is nil. -/
structure EncodesMem (A : Arch) (fp adr sz acc : Nat) : Prop where
  addr : set A fp adr sz acc ≠ nil → addr A (set A fp adr sz acc) = adr
  size : set A fp adr sz acc ≠ nil → size A (set A fp adr sz acc) = sz
  endAddr : set A fp adr sz acc ≠ nil → endAddr A (set A fp adr sz acc) = A.add adr sz
  access : set A fp adr sz acc ≠ nil → access (set A fp adr sz acc) = acc
  kind : set A fp adr sz acc ≠ nil → isIo (set A fp adr sz acc) = false ∧
    isNil (set A fp adr sz acc) = false ∧ isComplete A (set A fp adr sz acc) = false
  takes : Natural adr sz → pageSz ≤ sz → set A fp adr sz acc ≠ nil
  rejects : ¬ Natural adr sz → set A fp adr sz acc = nil

/-- A size from a page on has a logarithm that no other kind has. -/
theorem le_lowBit (hsz : pageSz ≤ sz) (hpow : sz = 2 ^ lowBit A.wordBits sz) :
    12 ≤ lowBit A.wordBits sz := by
  by_contra h
  have hlt := Nat.pow_lt_pow_right (a := 2) (by decide) (Nat.lt_of_not_le h)
  rw [← hpow] at hlt
  exact Nat.not_le.mpr hlt hsz

theorem set_encodes (hadr : adr < 2 ^ A.wordBits) (hsz : sz < 2 ^ A.wordBits) (hacc : acc < 2 ^ 3) :
    EncodesMem A fp adr sz acc := by
  rcases set_eq fp adr acc hsz with ⟨hset, hnat, hpage⟩ | ⟨hset, hnot⟩
  · obtain ⟨⟨k, hk⟩, hdvd⟩ := hnat
    have hpos : 0 < sz := hk ▸ Nat.two_pow_pos k
    obtain ⟨hone, -, h64⟩ := shiftOne_lowBit hpos hsz
    have hpow : sz = 2 ^ lowBit A.wordBits sz := by
      rw [hk] at hsz ⊢
      rw [lowBit_two_pow ((Nat.pow_lt_pow_iff_right (by decide)).mp hsz)]
    have h12 := le_lowBit hpage hpow
    have hlog : log2sz (memWord A fp adr sz acc) = lowBit A.wordBits sz := by
      rw [log2sz_memWord, Nat.mod_eq_of_lt h64]
    have haddr : Fpage.addr A (memWord A fp adr sz acc) = adr := by
      rw [addr_memWord hadr]
      refine Nat.div_mul_cancel (Nat.dvd_trans ?_ hdvd)
      rw [hpow]
      exact Nat.pow_dvd_pow 2 (by omega)
    have hsize : Fpage.size A (memWord A fp adr sz acc) = sz := by
      rw [size_memWord, hone, ← hpow]
    have hne : memWord A fp adr sz acc ≠ nil := by
      intro h
      rw [h] at hlog
      rw [← hlog] at h12
      exact absurd h12 (by decide)
    have hio : isIo (memWord A fp adr sz acc) = false := by
      unfold isIo
      rw [beq_eq_false_iff_ne]
      intro h
      unfold log2sz bits at hlog
      unfold bits at h
      omega
    have hcomplete : isComplete A (memWord A fp adr sz acc) = false := by
      unfold isComplete
      rw [hlog, Bool.and_eq_false_iff, beq_eq_false_iff_ne, beq_eq_false_iff_ne]
      exact .inr (by omega)
    rw [← hset] at haddr hsize hne hio hcomplete
    refine ⟨fun _ => haddr, fun _ => hsize, fun _ => ?_, fun _ => ?_, fun _ => ⟨hio, ?_, hcomplete⟩,
      fun _ _ => hne, fun h => absurd ⟨⟨k, hk⟩, hdvd⟩ h⟩
    · unfold Fpage.endAddr
      rw [haddr, hsize]
    · rw [hset, access_memWord, Nat.mod_eq_of_lt hacc]
    · exact beq_eq_false_iff_ne.mpr hne
  · exact ⟨fun h => absurd hset h, fun h => absurd hset h, fun h => absurd hset h,
      fun h => absurd hset h, fun h => absurd hset h, fun hn hp => absurd ⟨hn, hp⟩ hnot, fun _ => hset⟩

/-- `create` is `set` on a word of zeros. -/
theorem create_eq_set (hsz : sz < 2 ^ A.wordBits) : create A adr sz acc = set A 0 adr sz acc := by
  have hpowlog : 2 ^ Nat.log2 sz = sz → ∃ k, sz = 2 ^ k := fun h => ⟨_, h.symm⟩
  unfold create
  rcases set_eq 0 adr acc hsz with ⟨hset, ⟨⟨k, hk⟩, hdvd⟩, hpage⟩ | ⟨hset, hnot⟩
  · have hlog : Nat.log2 sz = k := by rw [hk, Nat.log2_two_pow]
    have hkw : k < A.wordBits := by
      rw [hk] at hsz
      exact (Nat.pow_lt_pow_iff_right (by decide)).mp hsz
    rw [hset, hlog, if_neg]
    · have hnull : bits 0 3 1 = 0 := by decide
      unfold memWord
      rw [hk, lowBit_two_pow hkw, hnull, Nat.zero_mul, Nat.add_zero, show 2 ^ 3 = 8 from rfl]
    · rintro (h | h | h)
      · exact Nat.not_le.mpr h hpage
      · exact h (Nat.mod_eq_zero_of_dvd hdvd)
      · exact h hk.symm
  · rw [hset, if_pos]
    by_contra h
    obtain ⟨hpage, h⟩ := not_or.mp h
    obtain ⟨hdvd, hpow⟩ := not_or.mp h
    exact hnot ⟨⟨hpowlog (not_not.mp hpow), Nat.dvd_of_mod_eq_zero (not_not.mp hdvd)⟩,
      Nat.le_of_not_lt hpage⟩

/-! ## Flexpages of ports -/

/-- The word that `set_io` makes before its last check. -/
def ioWord (A : Arch) (port sz : Nat) : Nat :=
  port % 2 ^ (A.wordBits - 16) * 2 ^ 16 + lowBit A.wordBits sz % 2 ^ 6 * 2 ^ 10 + 0x26

theorem ioSizeWord_ioWord :
    ioSizeWord A (ioWord A port sz) = shiftOne A (lowBit A.wordBits sz % 2 ^ 6) := by
  unfold ioSizeWord ioWord
  congr 1
  exact Lib.bits_pack (Nat.mod_lt _ (Nat.two_pow_pos 6)) (by decide)

/-- The ranges of ports that `set_io` is made for. -/
def PortRange (port sz : Nat) : Prop := Natural port sz ∧ port + sz ≤ 0xffff

/-- `set_io` takes the naturally aligned ranges below the last port. -/
theorem setIo_eq (hport : port < 2 ^ A.wordBits) (hsz : sz < 2 ^ A.wordBits) :
    setIo A port sz = ioWord A port sz ∧ PortRange port sz ∨
      setIo A port sz = nil ∧ ¬ PortRange port sz := by
  have h32 : 2 ^ 32 ≤ 2 ^ A.wordBits := Nat.pow_le_pow_right (by decide) (by cases A <;> decide)
  unfold setIo
  by_cases hzero : sz = 0
  · rw [if_pos (.inl hzero)]
    refine .inr ⟨rfl, ?_⟩
    rintro ⟨⟨⟨k, hk⟩, -⟩, -⟩
    exact absurd (hk ▸ hzero) (Nat.two_pow_pos k).ne'
  have hpos : 0 < sz := Nat.pos_of_ne_zero hzero
  obtain ⟨hone, hlow, -⟩ := shiftOne_lowBit hpos hsz
  have hsize : ioSizeWord A (ioWord A port sz) = 2 ^ lowBit A.wordBits sz := ioSizeWord_ioWord.trans hone
  by_cases hpow : sz = 2 ^ lowBit A.wordBits sz
  · -- a power of two cannot wrap the sum back below the last port
    have hhalf : sz ≤ 2 ^ (A.wordBits - 1) := by
      rw [hpow]
      exact Nat.pow_le_pow_right (by decide) (by omega)
    have htwo : 2 ^ A.wordBits = 2 * 2 ^ (A.wordBits - 1) := by cases A <;> rfl
    by_cases hlast : port + sz ≤ 0xffff
    · have hadd : A.add port sz = port + sz := Nat.mod_eq_of_lt (by omega)
      have hsmall : ¬ (0xffff < port) := by omega
      have hsum : ¬ (0xffff < A.add port sz) := by
        rw [hadd]
        exact Nat.not_lt.mpr hlast
      by_cases hdvd : sz ∣ port
      · have hmask : ¬ (port &&& (sz - 1) ≠ 0) := by
          rw [hpow, and_mask, ← hpow]
          exact not_not.mpr hdvd
        refine .inl ⟨?_, ⟨⟨_, hpow⟩, hdvd⟩, hlast⟩
        rw [if_neg (not_or.mpr ⟨hzero, not_or.mpr ⟨hsmall, not_or.mpr ⟨hsum, hmask⟩⟩⟩)]
        exact if_neg (not_not.mpr (hsize.trans hpow.symm))
      · have hmask : port &&& (sz - 1) ≠ 0 := by
          rw [hpow, and_mask, ← hpow]
          exact hdvd
        rw [if_pos (.inr (.inr (.inr hmask)))]
        exact .inr ⟨rfl, fun h => hdvd h.1.2⟩
    · refine .inr ⟨?_, fun h => hlast h.2⟩
      by_cases hbig : 0xffff < port
      · exact if_pos (.inr (.inl hbig))
      · have hadd : A.add port sz = port + sz := Nat.mod_eq_of_lt (by omega)
        exact if_pos (.inr (.inr (.inl (by rw [hadd]; exact Nat.lt_of_not_le hlast))))
  · -- the last check finds the other sizes
    refine .inr ⟨?_, ?_⟩
    · split
      · rfl
      · exact if_pos fun h => hpow (h.symm.trans hsize)
    · rintro ⟨⟨⟨k, rfl⟩, -⟩, -⟩
      have hk : k < A.wordBits := (Nat.pow_lt_pow_iff_right (by decide)).mp hsz
      exact hpow (by rw [lowBit_two_pow hk])

/-- The field of the port. -/
theorem bits_ioWord (hport : port ≤ 0xffff) : bits (ioWord A port sz) 16 (A.wordBits - 16) = port := by
  have hmod := Nat.mod_lt (lowBit A.wordBits sz) (show 0 < 2 ^ 6 by decide)
  have h16 : 2 ^ 16 ≤ 2 ^ (A.wordBits - 16) :=
    Nat.pow_le_pow_right (by decide) (by cases A <;> decide)
  have hlt : port < 2 ^ (A.wordBits - 16) := by omega
  have hpack := @Lib.bits_pack 0 _ _ _ _ hlt
    (show lowBit A.wordBits sz % 2 ^ 6 * 2 ^ 10 + 0x26 < 2 ^ 16 by omega)
  unfold ioWord
  rw [Nat.mod_eq_of_lt hlt, Nat.add_assoc]
  rwa [Nat.zero_mul, Nat.zero_add] at hpack

/-- The port that is read back: on a machine with words of 32 bits the upper half of the ports comes with
the sign. -/
theorem ioPortWord_ioWord (hport : port ≤ 0xffff) :
    ioPortWord A (ioWord A port sz) = port ↔ A.wordBits = 64 ∨ port < 0x8000 := by
  have hw : A.wordBits = 32 ∨ A.wordBits = 64 := by cases A <;> decide
  unfold ioPortWord
  rw [bits_ioWord hport]
  dsimp only
  rcases hw with hw | hw
  · rw [hw]
    split_ifs <;> omega
  · rw [hw, if_pos (by omega)]
    exact iff_of_true rfl (.inl rfl)

/-- The flexpage of a range of ports. -/
structure EncodesIo (A : Arch) (port sz : Nat) : Prop where
  base : setIo A port sz ≠ nil → ioPortWord A (setIo A port sz) = port
  size : setIo A port sz ≠ nil → ioSizeWord A (setIo A port sz) = sz
  kind : setIo A port sz ≠ nil → isIo (setIo A port sz) = true ∧ isNil (setIo A port sz) = false ∧
    isComplete A (setIo A port sz) = false
  takes : PortRange port sz → setIo A port sz ≠ nil
  rejects : ¬ Natural port sz → setIo A port sz = nil

theorem ioWord_ne_nil : ioWord A port sz ≠ nil := by
  unfold ioWord nil
  omega

theorem setIo_encodes_iff (hport : port < 2 ^ A.wordBits) (hsz : sz < 2 ^ A.wordBits) :
    EncodesIo A port sz ↔ (PortRange port sz → A.wordBits = 64 ∨ port < 0x8000) := by
  rcases setIo_eq hport hsz with ⟨hset, hrange⟩ | ⟨hset, hnot⟩
  · have hmax : port ≤ 0xffff := (Nat.le_add_right port sz).trans hrange.2
    have hread : ioPortWord A (ioWord A port sz) = port ↔ A.wordBits = 64 ∨ port < 0x8000 :=
      ioPortWord_ioWord hmax
    have hne : setIo A port sz ≠ nil := hset ▸ ioWord_ne_nil
    constructor
    · intro h _
      exact hread.mp (hset ▸ h.base hne)
    · intro h
      have hlow : ioWord A port sz % 2 ^ 10 = 0x26 := by
        unfold ioWord
        omega
      refine ⟨fun _ => ?_, fun _ => ?_, fun _ => ⟨?_, beq_eq_false_iff_ne.mpr hne, ?_⟩, fun _ => hne,
        fun hn => absurd hrange.1 hn⟩
      · rw [hset]
        exact hread.mpr (h hrange)
      · obtain ⟨k, hk⟩ := hrange.1.1
        have hpos : 0 < sz := hk ▸ Nat.two_pow_pos k
        rw [hset, ioSizeWord_ioWord, (shiftOne_lowBit hpos hsz).1]
        rw [hk] at hsz ⊢
        rw [lowBit_two_pow ((Nat.pow_lt_pow_iff_right (by decide)).mp hsz)]
      · rw [hset]
        unfold isIo bits
        rw [pow_zero, Nat.div_one, hlow]
        rfl
      · have hlog : log2sz (ioWord A port sz) = 2 := by
          unfold log2sz bits
          omega
        rw [hset]
        unfold isComplete
        rw [hlog]
        exact Bool.and_false _
  · exact ⟨fun _ h => absurd h hnot, fun _ => ⟨fun h => absurd hset h, fun h => absurd hset h,
      fun h => absurd hset h, fun h => absurd h hnot, fun _ => hset⟩⟩

/-- **Flexpages** of memory and of ports are read back as they were made, all but the upper half of the
ports on a machine with words of 32 bits. -/
theorem fpage_encodes_iff (hadr : adr < 2 ^ A.wordBits) (hsz : sz < 2 ^ A.wordBits) (hacc : acc < 2 ^ 3)
    (hport : port < 2 ^ A.wordBits) (hn : n < 2 ^ A.wordBits) :
    EncodesMem A fp adr sz acc ∧ EncodesIo A port n ↔
      (PortRange port n → A.wordBits = 64 ∨ port < 0x8000) :=
  (and_iff_right (set_encodes hadr hsz hacc)).trans (setIo_encodes_iff hport hn)

/-- A page at the end of the address space and the ports of a serial line. -/
theorem fpage_encodes_uart :
    EncodesMem .x86 8 0xfffff000 0x1000 7 ∧ EncodesIo .x86 0x3f8 8 :=
  (fpage_encodes_iff (by decide) (by decide) (by decide) (by decide)
    (by decide)).mpr fun _ => .inr (by decide)

/-- Port `0x8000` is read back as `0xffff8000`. -/
theorem ioPort_signed : ¬ EncodesIo .x86 0x8000 1 := fun h => by
  have hport := h.base
  revert hport
  decide

end Fpage

end Wrmos
