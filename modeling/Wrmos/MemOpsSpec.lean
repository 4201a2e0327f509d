import Wrmos.MemOps

/-!
# What the copies, fills and comparisons do

The loops of `memcpy` go forward, in words as in bytes, so a destination that begins inside of the source
range gets the bytes before it over and over again.  `forwardCopy` is this in closed form, and
`copyLoop_eq` says that the width of the words does not matter.  From it `memmove_iff` reads off when
`memmove` moves.

`memset` builds its word as an `int`: from the byte `0x80` on that is negative, and the upper half of the
64-bit word is all ones.  `memset_iff` names the bytes and the path.  `memcmp` compares the words of a
big-endian machine rightly, but asks whether an unsigned difference is negative (`memcmp_iff`).
-/

namespace Wrmos
namespace MemOps

open Lib (ensure ensure_bind_of ensure_bind_eq_ok)
open Lib.Mem (putWord_of_ne putWord_word)

variable {A : Arch} {m : Lib.Mem} {dst src sz n k : Nat} {val : Int}

/-! ## Copies -/

/-- The offset in the source that the byte at offset `i` of the destination comes from. -/
def origin (dst src i : Nat) : Nat := if src < dst then i % (dst - src) else i

/-- A copy that goes forward, in closed form. -/
def forwardCopy (m : Lib.Mem) (dst src sz : Nat) : Lib.Mem := fun x =>
  if dst ≤ x ∧ x < dst + sz then m (src + origin dst src (x - dst)) else m x

theorem forwardCopy_of_mem {i : Nat} (h : i < sz) :
    forwardCopy m dst src sz (dst + i) = m (src + origin dst src i) := by
  unfold forwardCopy
  rw [if_pos (by omega), Nat.add_sub_cancel_left]

theorem forwardCopy_of_ne {x : Nat} (h : ¬ (dst ≤ x ∧ x < dst + sz)) : forwardCopy m dst src sz x = m x :=
  if_neg h

/-- What the source holds behind the bytes that were copied. -/
theorem forwardCopy_source {i : Nat} (hi : sz ≤ i) (hd : src < dst → i < sz + (dst - src)) :
    forwardCopy m dst src sz (src + i) = m (src + origin dst src i) := by
  unfold forwardCopy origin
  by_cases hlt : src < dst
  · have hnear := hd hlt
    by_cases hin : dst - src ≤ i
    · rw [if_pos (by omega), if_pos hlt, if_pos hlt, show src + i - dst = i - (dst - src) by omega,
        ← Nat.mod_eq_sub_mod hin]
    · rw [if_neg (by omega), if_pos hlt, Nat.mod_eq_of_lt (by omega)]
  · rw [if_neg (by omega), if_neg hlt]

/-- **A loop over words** copies like a loop over bytes when the ranges are the same or a word apart. -/
theorem copyLoop_eq (hn : 0 < n) (hd : src < dst → n ≤ dst - src) :
    copyLoop A n dst src k m = forwardCopy m dst src (k * n) := by
  induction k with
  | zero =>
    funext x
    rw [forwardCopy_of_ne (by omega)]
    rfl
  | succ k ih =>
    rw [Nat.succ_mul, copyLoop, ih]
    funext x
    by_cases hword : dst + k * n ≤ x ∧ x < dst + k * n + n
    · -- the bytes of the word that is written in this round
      obtain ⟨j, rfl⟩ : ∃ j, x = dst + k * n + j := ⟨x - (dst + k * n), by omega⟩
      have hj : j < n := by omega
      rw [putWord_word hj, Nat.add_assoc src, Nat.add_assoc dst, forwardCopy_of_mem (by omega)]
      exact forwardCopy_source (by omega) fun hlt => by
        have := hd hlt
        omega
    · rw [putWord_of_ne hword]
      unfold forwardCopy
      by_cases hin : dst ≤ x ∧ x < dst + k * n
      · rw [if_pos hin, if_pos (by omega)]
      · rw [if_neg hin, if_neg (by omega)]

theorem isAligned_iff {a : Nat} : isAligned n a = true ↔ n % a = 0 := beq_iff_eq

theorem isAligned3_iff {n1 n2 n3 a : Nat} :
    isAligned3 n1 n2 n3 a = true ↔ n1 % a = 0 ∧ n2 % a = 0 ∧ n3 % a = 0 := by
  simp only [isAligned3, Bool.and_eq_true, isAligned_iff, and_assoc]

theorem isAligned2_iff {n1 n2 a : Nat} : isAligned2 n1 n2 a = true ↔ n1 % a = 0 ∧ n2 % a = 0 := by
  simp only [isAligned2, Bool.and_eq_true, isAligned_iff]

theorem longSz_cases (A : Arch) : longSz A = 4 ∨ longSz A = 8 := by
  cases A <;> decide

/-- The word loops of `memcpy` are the byte loop. -/
theorem copyLoop_aligned (hn : 0 < n) (h : isAligned3 dst src sz n = true) :
    copyLoop A n dst src (sz / n) m = forwardCopy m dst src sz := by
  obtain ⟨hdst, hsrc, hsz⟩ := isAligned3_iff.mp h
  obtain ⟨c, rfl⟩ := Nat.dvd_of_mod_eq_zero hdst
  obtain ⟨d, rfl⟩ := Nat.dvd_of_mod_eq_zero hsrc
  rw [copyLoop_eq hn, Nat.div_mul_cancel (Nat.dvd_of_mod_eq_zero hsz)]
  intro hlt
  have hcd : d < c := Nat.lt_of_mul_lt_mul_left hlt
  obtain ⟨e, rfl⟩ := Nat.exists_eq_add_of_lt hcd
  rw [← Nat.mul_sub, show d + e + 1 - d = e + 1 by omega]
  exact Nat.le_mul_of_pos_right n (Nat.succ_pos e)

/-- **`memcpy`** goes forward on every path. -/
theorem memcpy_eq (h : sz < 0xf0000000) : memcpy A dst src sz m = .ok (forwardCopy m dst src sz) := by
  have hlong : 0 < longSz A := by
    have := longSz_cases A
    omega
  unfold memcpy
  rw [ensure_bind_of h]
  split_ifs with h64 hlongs
  · exact congrArg _ (copyLoop_aligned (by decide) h64.2)
  · exact congrArg _ (copyLoop_aligned hlong hlongs.2)
  · refine congrArg _ ?_
    rw [copyLoop_eq Nat.one_pos fun hlt => by omega, Nat.mul_one]

theorem memcpy_large (A : Arch) (m : Lib.Mem) (dst src : Nat) (h : ¬ sz < 0xf0000000) :
    ∃ e, memcpy A dst src sz m = .error e := by
  unfold memcpy ensure
  rw [if_neg h]
  exact ⟨_, rfl⟩

/-- `memmove` goes through `memcpy`. -/
def ByMemcpy (dst src sz : Nat) : Prop := 32 ≤ sz ∧ if src < dst then 8 ≤ dst - src else 8 ≤ src - dst

instance (dst src sz : Nat) : Decidable (ByMemcpy dst src sz) := by
  unfold ByMemcpy; infer_instance

theorem memmove_of_byMemcpy (h : ByMemcpy dst src sz) : memmove A dst src sz m = memcpy A dst src sz m :=
  if_pos h

theorem memmove_eq (h : ByMemcpy dst src sz → sz < 0xf0000000) :
    memmove A dst src sz m = .ok (forwardCopy m dst src sz) := by
  by_cases hby : ByMemcpy dst src sz
  · rw [memmove_of_byMemcpy hby]
    exact memcpy_eq (h hby)
  · refine (if_neg hby).trans (congrArg _ ?_)
    rw [copyLoop_eq Nat.one_pos fun hlt => by omega, Nat.mul_one]

/-- The bytes of a source that the destination begins in repeat from the beginning of the destination on. -/
def Repeats (m : Lib.Mem) (dst src sz : Nat) : Prop :=
  src < dst → ∀ i < sz, dst - src ≤ i → m (src + i) = m (src + (i - (dst - src)))

/-- A byte of a source that repeats is the one that the forward copy takes. -/
theorem Repeats.origin (h : Repeats m dst src sz) : ∀ {i : Nat}, i < sz →
    m (src + MemOps.origin dst src i) = m (src + i) := by
  intro i
  induction i using Nat.strong_induction_on with
  | _ i ih =>
    intro hi
    unfold MemOps.origin at ih ⊢
    by_cases hlt : src < dst
    · rw [if_pos hlt]
      by_cases hle : dst - src ≤ i
      · rw [h hlt i hi hle, ← ih (i - (dst - src)) (by omega) (by omega), if_pos hlt,
          ← Nat.mod_eq_sub_mod hle]
      · rw [Nat.mod_eq_of_lt (by omega)]
    · rw [if_neg hlt]

/-- The forward copy is the copy of the old source exactly when the source repeats. -/
theorem forwardCopy_eq_copy_iff : forwardCopy m dst src sz = m.copy sz dst src ↔ Repeats m dst src sz := by
  constructor
  · intro h hlt i hi hle
    have hcopy : ∀ j < sz, m (src + origin dst src j) = m (src + j) := by
      intro j hj
      have hx := congrFun h (dst + j)
      rw [forwardCopy_of_mem hj] at hx
      rw [hx, Lib.Mem.copy, if_pos (by omega), Nat.add_sub_cancel_left]
    have hmod : origin dst src i = origin dst src (i - (dst - src)) := by
      unfold origin
      rw [if_pos hlt, if_pos hlt, Nat.mod_eq_sub_mod hle]
    rw [← hcopy i hi, hmod, hcopy _ (by omega)]
  · intro h
    funext x
    unfold forwardCopy Lib.Mem.copy
    by_cases hx : dst ≤ x ∧ x < dst + sz
    · rw [if_pos hx, if_pos hx]
      exact h.origin (by omega)
    · rw [if_neg hx, if_neg hx]

/-- **`memmove` moves** unless `memcpy` refuses the size, or the destination begins inside of a source
range that does not repeat from there on. -/
theorem memmove_iff (A : Arch) (m : Lib.Mem) (dst src sz : Nat) :
    memmove A dst src sz m = .ok (m.copy sz dst src) ↔
      (ByMemcpy dst src sz → sz < 0xf0000000) ∧ Repeats m dst src sz := by
  by_cases hsz : ByMemcpy dst src sz → sz < 0xf0000000
  · rw [memmove_eq hsz, Except.ok.injEq, forwardCopy_eq_copy_iff]
    exact (and_iff_right hsz).symm
  · refine iff_of_false (fun h => ?_) fun h => hsz h.1
    obtain ⟨hby, hlarge⟩ := Classical.not_imp.mp hsz
    obtain ⟨e, he⟩ := memcpy_large A m dst src hlarge
    rw [memmove_of_byMemcpy hby, he] at h
    cases h

/-- Two bytes moved up by one: the first one is there twice. -/
theorem moveUp_lost : memmove .x86 1 0 2 UInt8.ofNat ≠ .ok (Lib.Mem.copy UInt8.ofNat 2 1 0) := by
  intro h
  have hsame := congrFun (Except.ok.inj h) 2
  exact absurd hsame (by decide)

/-! ## Fills -/

/-- The range is filled with one byte, and nothing else is changed. -/
def filled (m : Lib.Mem) (dst sz : Nat) (b : UInt8) : Lib.Mem := fun x =>
  if dst ≤ x ∧ x < dst + sz then b else m x

/-- `(unsigned char)val`. -/
def ucharOf (val : Int) : UInt8 := UInt8.ofBitVec (BitVec.ofInt 8 val)

theorem filled_of_mem {b : UInt8} {i : Nat} (h : i < sz) : filled m dst sz b (dst + i) = b :=
  if_pos (by omega)

/-- Every word of the range is the word of the loop. -/
theorem fillLoop_of_mem {v i : Nat} (hi : i < k * n) : fillLoop A n dst v k m (dst + i) =
    UInt8.ofNat (v / 256 ^ (n - 1 - Lib.Mem.rank A.bigEndian n (i % n))) := by
  induction k with
  | zero => omega
  | succ k ih =>
    rw [Nat.succ_mul] at hi
    rw [fillLoop]
    by_cases hword : k * n ≤ i
    · obtain ⟨j, rfl⟩ : ∃ j, i = k * n + j := ⟨i - k * n, by omega⟩
      rw [Nat.mul_comm k n, Nat.mul_add_mod, Nat.mod_eq_of_lt (by omega), Nat.mul_comm n k, ← Nat.add_assoc]
      unfold Lib.Mem.putWord
      rw [if_pos (by omega), Nat.add_sub_cancel_left]
    · rw [putWord_of_ne (by omega)]
      exact ih (by omega)

theorem fillLoop_of_ne {v x : Nat} (h : ¬ (dst ≤ x ∧ x < dst + k * n)) : fillLoop A n dst v k m x = m x := by
  induction k with
  | zero => rfl
  | succ k ih =>
    rw [Nat.succ_mul] at h
    rw [fillLoop, putWord_of_ne (by omega)]
    exact ih (by omega)

/-- **A loop over words** fills the range exactly when every byte of the word is the one to fill with. -/
theorem fillLoop_iff (m : Lib.Mem) (dst : Nat) {v : Nat} {b : UInt8} (hn : 0 < n) (hk : 0 < k) :
    fillLoop A n dst v k m = filled m dst (k * n) b ↔ ∀ i < n, v / 256 ^ i % 256 = b.toNat := by
  constructor
  · intro h i hi
    -- the byte of this rank in the first word
    have hr := Lib.Mem.rank_lt (n := n) (i := n - 1 - i) A.bigEndian (by omega)
    have hmul : n ≤ k * n := Nat.le_mul_of_pos_left n hk
    have hx := congrFun h (dst + Lib.Mem.rank A.bigEndian n (n - 1 - i))
    rw [fillLoop_of_mem (by omega), filled_of_mem (by omega), Nat.mod_eq_of_lt hr,
      Lib.Mem.rank_rank (by omega), show n - 1 - (n - 1 - i) = i by omega] at hx
    rw [← hx, UInt8.toNat_ofNat']
  · intro hv
    funext x
    by_cases hx : dst ≤ x ∧ x < dst + k * n
    · obtain ⟨i, rfl⟩ : ∃ i, x = dst + i := ⟨x - dst, by omega⟩
      rw [fillLoop_of_mem (by omega), filled_of_mem (by omega)]
      apply UInt8.toNat.inj
      rw [UInt8.toNat_ofNat']
      exact hv _ (by have := Nat.mod_lt i hn; omega)
    · rw [fillLoop_of_ne hx]
      exact (if_neg hx).symm

/-- The word as it is built from the byte. -/
def fillWord (b : BitVec 8) : BitVec 32 :=
  let val := b.setWidth 32
  val <<< 24 ||| val <<< 16 ||| val <<< 8 ||| val

theorem fillInt_eq (val : Int) : fillInt val = fillWord (BitVec.ofInt 8 val) := by
  have hbyte : BitVec.ofInt 32 val &&& 0xff = (BitVec.ofInt 8 val).setWidth 32 := by
    apply BitVec.eq_of_toNat_eq
    rw [BitVec.toNat_and, BitVec.toNat_setWidth, BitVec.toNat_ofInt, BitVec.toNat_ofInt,
      show (0xff : BitVec 32).toNat = 2 ^ 8 - 1 from rfl, Nat.and_two_pow_sub_one_eq_mod]
    omega
  unfold fillInt fillWord
  rw [hbyte]

/-- Where a `long` has 32 bits its word is the `int`. -/
theorem fillLong_toNat (h : longSz A = 4) : (fillLong A val).toNat = (fillInt val).toNat := by
  unfold fillLong
  rw [if_neg (by omega)]
  cases A with
  | x86_64 => exact absurd h (by decide)
  | sparc => exact congrArg BitVec.toNat (BitVec.signExtend_eq _)
  | arm => exact congrArg BitVec.toNat (BitVec.signExtend_eq _)
  | x86 => exact congrArg BitVec.toNat (BitVec.signExtend_eq _)

/-- The word of 32 bits has the byte four times. -/
theorem fillWord_bytes : ∀ b : BitVec 8, ∀ i < 4, (fillWord b).toNat / 256 ^ i % 256 = b.toNat := by
  decide +kernel

/-- The word of 64 bits has the byte eight times, unless it is negative before it is widened. -/
theorem fillWord64_bytes : ∀ b : BitVec 8,
    (∀ i < 8, ((fillWord b).signExtend 64 ||| (fillWord b).signExtend 64 <<< 32).toNat / 256 ^ i % 256 =
      b.toNat) ↔ b < 0x80 ∨ b = 0xff := by
  decide +kernel

/-- **`memset` fills** on every path but the one of 64 bits, and there the bytes below `0x80` and the byte
`0xff`. -/
theorem memset_iff (A : Arch) (m : Lib.Mem) (dst : Nat) (val : Int) (sz : Nat) :
    memset A dst val sz m = filled m dst sz (ucharOf val) ↔
      ¬ (32 ≤ sz ∧ isAligned2 dst sz u64Sz = true) ∨ ucharOf val < 0x80 ∨ ucharOf val = 0xff := by
  have hval : (ucharOf val).toNat = (BitVec.ofInt 8 val).toNat := rfl
  have hpath : ∀ {n v : Nat}, 0 < n → 32 ≤ sz ∧ isAligned2 dst sz n = true →
      (fillLoop A n dst v (sz / n) m = filled m dst sz (ucharOf val) ↔
        ∀ i < n, v / 256 ^ i % 256 = (BitVec.ofInt 8 val).toNat) := by
    rintro n v hn ⟨hsz, hal⟩
    obtain ⟨c, rfl⟩ := Nat.dvd_of_mod_eq_zero (isAligned2_iff.mp hal).2
    have hc : 0 < c := by
      rcases Nat.eq_zero_or_pos c with rfl | hc
      · omega
      · exact hc
    rw [Nat.mul_div_cancel_left c hn, Nat.mul_comm n c]
    exact fillLoop_iff m dst hn hc
  unfold memset
  by_cases h64 : 32 ≤ sz ∧ isAligned2 dst sz u64Sz = true
  · rw [if_pos h64, hpath (by decide) h64, fill64, fillInt_eq]
    have hbytes := fillWord64_bytes (BitVec.ofInt 8 val)
    rw [or_iff_right (not_not_intro h64)]
    exact hbytes.trans
      (or_congr Iff.rfl ⟨congrArg UInt8.ofBitVec, congrArg UInt8.toBitVec⟩)
  · rw [if_neg h64]
    refine iff_of_true ?_ (.inl h64)
    by_cases hlong : 32 ≤ sz ∧ isAligned2 dst sz (longSz A) = true
    · -- where a `long` has 64 bits the first path would have been taken
      have h4 : longSz A = 4 := (longSz_cases A).resolve_right fun h8 => by
        rw [h8] at hlong
        exact h64 hlong
      rw [if_pos hlong, hpath (by omega) hlong, fillLong_toNat h4, fillInt_eq, h4]
      exact fillWord_bytes _
    · rw [if_neg hlong]
      rcases Nat.eq_zero_or_pos sz with rfl | hsz
      · funext x
        exact (if_neg (by omega)).symm
      · have hone := fillLoop_iff (A := A) (b := ucharOf val)
          (v := (BitVec.ofInt 8 val).toNat) m dst Nat.one_pos hsz
        rw [Nat.mul_one] at hone
        refine hone.mpr fun i hi => ?_
        obtain rfl : i = 0 := by omega
        rw [pow_zero, Nat.div_one, hval]
        exact Nat.mod_eq_of_lt (BitVec.isLt _)

/-- The byte `0x80`: the upper half of the words is `0xff`. -/
theorem fill80_not_filled :
    memset .x86 0 0x80 32 (fun _ => 0) ≠ filled (fun _ => 0) 0 32 (ucharOf 0x80) := by
  intro h
  have hsame := congrFun h 4
  exact absurd hsame (by decide)

/-! ## Comparisons -/

variable {a b : Nat}

/-- Two ranges hold the same bytes. -/
def Same (m : Lib.Mem) (a b sz : Nat) : Prop := ∀ i < sz, m (a + i) = m (b + i)

/-- The first range is below the second one in the lexicographic order of the bytes. -/
def Less (m : Lib.Mem) (a b sz : Nat) : Prop :=
  ∃ i < sz, (∀ j < i, m (a + j) = m (b + j)) ∧ m (a + i) < m (b + i)

theorem Same.symm (h : Same m a b sz) : Same m b a sz := fun i hi => (h i hi).symm

theorem Less.not_same (h : Less m a b sz) : ¬ Same m a b sz := by
  obtain ⟨i, hi, -, hlt⟩ := h
  intro hsame
  rw [hsame i hi] at hlt
  exact UInt8.lt_irrefl _ hlt

theorem Less.asymm (h : Less m a b sz) : ¬ Less m b a sz := by
  obtain ⟨i, -, heq, hlt⟩ := h
  rintro ⟨j, -, heq', hlt'⟩
  rcases Nat.lt_trichotomy i j with hij | rfl | hij
  · rw [heq' i hij] at hlt
    exact UInt8.lt_irrefl _ hlt
  · exact UInt8.lt_asymm hlt hlt'
  · rw [heq j hij] at hlt'
    exact UInt8.lt_irrefl _ hlt'

theorem Same.cons (h0 : m a = m b) : Same m a b (sz + 1) ↔ Same m (a + 1) (b + 1) sz := by
  constructor
  · intro h i hi
    rw [Nat.add_assoc, Nat.add_assoc, Nat.add_comm 1]
    exact h (i + 1) (by omega)
  · rintro h (_ | i) hi
    · exact h0
    · have hi' := h i (by omega)
      rwa [Nat.add_assoc, Nat.add_assoc, Nat.add_comm 1] at hi'

theorem Less.cons (h0 : m a = m b) : Less m a b (sz + 1) ↔ Less m (a + 1) (b + 1) sz := by
  have hshift : ∀ {x i : Nat}, x + 1 + i = x + (i + 1) := by omega
  constructor
  · rintro ⟨_ | i, hi, heq, hlt⟩
    · rw [Nat.add_zero, Nat.add_zero, h0] at hlt
      exact absurd hlt (UInt8.lt_irrefl _)
    · refine ⟨i, by omega, fun j hj => ?_, ?_⟩
      · rw [hshift, hshift]
        exact heq (j + 1) (by omega)
      · rwa [hshift, hshift]
  · rintro ⟨i, hi, heq, hlt⟩
    refine ⟨i + 1, by omega, ?_, by rwa [hshift, hshift] at hlt⟩
    rintro (_ | j) hj
    · exact h0
    · have hj' := heq j (by omega)
      rwa [hshift, hshift] at hj'

/-- **The byte loop** decides the lexicographic order. -/
theorem cmpBytes_spec : (Same m a b sz ∧ cmpBytes m sz a b = 0) ∨ (Less m a b sz ∧ cmpBytes m sz a b < 0) ∨
    (Less m b a sz ∧ 0 < cmpBytes m sz a b) := by
  induction sz generalizing a b with
  | zero => exact .inl ⟨fun i hi => absurd hi (Nat.not_lt_zero i), rfl⟩
  | succ sz ih =>
    rw [cmpBytes]
    by_cases h0 : m a = m b
    · rw [if_neg (not_not_intro h0), Same.cons h0, Less.cons h0, Less.cons h0.symm]
      exact ih
    · rw [if_pos h0]
      have hne : (m a).toNat ≠ (m b).toNat := fun h => h0 (UInt8.toNat.inj h)
      rcases Nat.lt_or_gt_of_ne hne with hlt | hlt
      · exact .inr (.inl ⟨⟨0, by omega, fun j hj => absurd hj (Nat.not_lt_zero j), hlt⟩, by omega⟩)
      · exact .inr (.inr ⟨⟨0, by omega, fun j hj => absurd hj (Nat.not_lt_zero j), hlt⟩, by omega⟩)

theorem cmpBytes_swap : cmpBytes m sz a b = -cmpBytes m sz b a := by
  induction sz generalizing a b with
  | zero => rfl
  | succ sz ih =>
    rw [cmpBytes, cmpBytes]
    by_cases h0 : m a = m b
    · rw [if_neg (not_not_intro h0), if_neg (not_not_intro h0.symm)]
      exact ih
    · rw [if_pos h0, if_pos fun h => h0 h.symm]
      omega

/-- **The word loop** tells whether the bytes are the same, and nothing more. -/
theorem cmpLongs_spec : (Same m a b (k * longSz A) ∧ cmpLongs A m k a b = 0) ∨
    (¬ Same m a b (k * longSz A) ∧ cmpLongs A m k a b = 1) := by
  induction k generalizing a b with
  | zero => exact .inl ⟨fun i hi => absurd hi (by omega), rfl⟩
  | succ k ih =>
    rw [cmpLongs, Nat.succ_mul]
    by_cases hw : m.word A.bigEndian (longSz A) a = m.word A.bigEndian (longSz A) b
    · have hfirst := Lib.Mem.word_eq_iff.mp hw
      have hsplit : Same m a b (k * longSz A + longSz A) ↔
          Same m (a + longSz A) (b + longSz A) (k * longSz A) := by
        constructor
        · intro h i hi
          rw [Nat.add_assoc, Nat.add_assoc]
          exact h (longSz A + i) (by omega)
        · intro h i hi
          by_cases hlt : i < longSz A
          · exact hfirst i hlt
          · have hi' := h (i - longSz A) (by omega)
            rwa [show a + longSz A + (i - longSz A) = a + i by omega,
              show b + longSz A + (i - longSz A) = b + i by omega] at hi'
      rw [if_neg (not_not_intro hw), hsplit]
      exact ih
    · rw [if_pos hw, if_neg (Nat.not_lt_zero _)]
      refine .inr ⟨fun h => hw (Lib.Mem.word_eq_iff.mpr fun i hi => h i (by omega)), rfl⟩

/-- `memcmp` compares words. -/
def ByLongs (A : Arch) (a b sz : Nat) : Prop :=
  A.bigEndian = true ∧ 32 ≤ sz ∧ isAligned3 a b sz (longSz A) = true

theorem ByLongs.symm (h : ByLongs A a b sz) : ByLongs A b a sz := by
  obtain ⟨hbig, hsz, hal⟩ := h
  obtain ⟨ha, hb, hs⟩ := isAligned3_iff.mp hal
  exact ⟨hbig, hsz, isAligned3_iff.mpr ⟨hb, ha, hs⟩⟩

theorem memcmp_of_byLongs (h : ByLongs A a b sz) :
    (Same m a b sz ∧ memcmp A m a b sz = 0) ∨ (¬ Same m a b sz ∧ memcmp A m a b sz = 1) := by
  have heq : memcmp A m a b sz = cmpLongs A m (sz / longSz A) a b := if_pos h
  have hspec := cmpLongs_spec (A := A) (m := m) (a := a) (b := b) (k := sz / longSz A)
  rwa [Nat.div_mul_cancel (Nat.dvd_of_mod_eq_zero (isAligned3_iff.mp h.2.2).2.2), ← heq] at hspec

theorem memcmp_of_not_byLongs (h : ¬ ByLongs A a b sz) : memcmp A m a b sz = cmpBytes m sz a b := if_neg h

/-- **`memcmp` agrees with its byte loop** unless it compares words and the first range is the lesser one;
and the two orders of its arguments have opposite signs unless it compares words and they differ. -/
theorem memcmp_iff (A : Arch) (m : Lib.Mem) (a b sz : Nat) :
    ((memcmp A m a b sz).sign = (cmpBytes m sz a b).sign ↔ ¬ (ByLongs A a b sz ∧ Less m a b sz)) ∧
      ((memcmp A m a b sz).sign = -(memcmp A m b a sz).sign ↔ ¬ (ByLongs A a b sz ∧ ¬ Same m a b sz)) := by
  by_cases hby : ByLongs A a b sz
  · rw [and_iff_right hby, and_iff_right hby]
    have hba := memcmp_of_byLongs (m := m) hby.symm
    rcases memcmp_of_byLongs (m := m) hby with ⟨hsame, h⟩ | ⟨hdiff, h⟩
    · obtain ⟨-, hba⟩ := hba.resolve_right fun hnot => hnot.1 hsame.symm
      have hbytes := cmpBytes_spec.resolve_right
        (not_or.mpr ⟨fun hless => hless.1.not_same hsame, fun hless => hless.1.not_same hsame.symm⟩)
      rw [h, hba, hbytes.2]
      exact ⟨iff_of_true rfl fun hless => hless.not_same hsame, iff_of_true rfl (not_not_intro hsame)⟩
    · obtain ⟨-, hba⟩ := hba.resolve_left fun hsame => hdiff hsame.1.symm
      rw [h, hba]
      refine ⟨?_, iff_of_false (by decide) (not_not_intro hdiff)⟩
      rcases cmpBytes_spec.resolve_left fun hsame => hdiff hsame.1 with ⟨hless, hneg⟩ | ⟨hless, hpos⟩
      · rw [Int.sign_eq_neg_one_of_neg hneg]
        exact iff_of_false (by decide) (not_not_intro hless)
      · rw [Int.sign_eq_one_of_pos hpos]
        exact iff_of_true rfl hless.asymm
  · rw [memcmp_of_not_byLongs hby, memcmp_of_not_byLongs fun h => hby h.symm, cmpBytes_swap, Int.sign_neg]
    exact ⟨iff_of_true rfl fun h => hby h.1, iff_of_true rfl fun h => hby h.1⟩

/-- Thirty-two zeros and thirty-two ones: each range is above the other one. -/
theorem zerosOnes_above : let m : Lib.Mem := fun x => if x < 32 then 0 else 1
    (memcmp .sparc m 0 32 32).sign ≠ (cmpBytes m 32 0 32).sign := by
  decide +kernel

end MemOps
end Wrmos
