import Wrmos.BitmapSpec
import Wrmos.Lib.Slots
import Mathlib.Data.List.Find

/-!
# The bitmap as a set of positions

As long as every position is plain the bits that `1 << n` tests are those that `get` reads, so the bitmap
keeps a set: `Keeps` says which, and every call does to it what it does to the set (`act_keeps`).  All
positions are plain when words have 32 bits, and in a bitmap of at most 32 positions.

The bits above a plain position are written together with bit 31, which is the sign of the `int` that is
shifted: they are clear when it is.
-/

namespace Wrmos
namespace Bitmap

open Lib (Slots.Op Slots.least Slots.least_eq_some Slots.least_eq_none trace final)

variable {A : Arch} {b b' : Bitmap} {pos cap i n w : Nat} {S : Finset Nat}

/-- A position as the `int` that is returned. -/
def asInt (n : Nat) : Int := if n % 2 ^ 32 < 2 ^ 31 then (n % 2 ^ 32 : Nat) else (n % 2 ^ 32 : Nat) - 2 ^ 32

/-- What is returned: `-1` for none. -/
def answer (r : Option Nat) : Int := r.elim (-1) asInt

/-- The bitmap behind a call, and the position or the zero that is returned. -/
def act (A : Arch) (b : Bitmap) : Slots.Op → Bitmap × Option Nat
  | .set pos => ((b.set A pos).getD b, (b.set A pos).map fun _ => 0)
  | .clear pos => ((b.clear A pos).getD b, (b.clear A pos).map fun _ => 0)
  | .getfree => (((b.getfree A).map Prod.snd).getD b, (b.getfree A).map Prod.fst)
  | .getbusy => (((b.getbusy A).map Prod.snd).getD b, (b.getbusy A).map Prod.fst)

/-- A call, with what it returns and `count()` behind it. -/
def step (A : Arch) (b : Bitmap) (op : Slots.Op) : Bitmap × (Int × Nat) :=
  ((act A b op).1, answer (act A b op).2, (act A b op).1.count)

/-- The bits of a word that the shift writes together are set or clear together. -/
structure WordOk (A : Arch) (w : Nat) : Prop where
  lt : w < 2 ^ A.wordBits
  upper : w.testBit 31 = false → w < 2 ^ 31

/-- The bitmap keeps a set of positions. -/
structure Keeps (A : Arch) (cap : Nat) (b : Bitmap) (S : Finset Nat) : Prop where
  capacity : b.capacity = cap
  count : b.count = S.card
  sub : ∀ p ∈ S, p < cap
  bit : ∀ p < cap, (b.words (p / A.wordBits)).testBit (p % A.wordBits) = decide (p ∈ S)
  word : ∀ i, WordOk A (b.words i)

/-- Every position is plain. -/
def AllPlain (A : Arch) (cap : Nat) : Prop := A.wordBits = 32 ∨ cap ≤ 32

theorem AllPlain.plain (h : AllPlain A cap) (hpos : pos < cap) : Plain A pos := by
  unfold Plain
  rcases h with h | h
  · rw [h]
    exact Nat.mod_lt pos (by decide)
  · exact Nat.lt_of_le_of_lt (Nat.mod_le pos _) (hpos.trans_le h)

theorem Keeps.get (h : Keeps A cap b S) (hpos : pos < cap) : b.get A pos = some (decide (pos ∈ S)) := by
  unfold Bitmap.get
  rw [if_neg (by rw [h.capacity]; exact Nat.not_le.mpr hpos), h.bit pos hpos]

theorem Keeps.card_le (h : Keeps A cap b S) : S.card ≤ cap := by
  have hsub : S ⊆ Finset.range cap := fun p hp => Finset.mem_range.mpr (h.sub p hp)
  simpa using Finset.card_le_card hsub

/-! ## Words -/

/-- The bit that is tested is the bit that is read. -/
theorem and_one_eq_zero (hw : WordOk A w) (hn : n < 32) : w &&& one A n = 0 ↔ w.testBit n = false := by
  constructor
  · intro h
    have hbit := congrArg (fun x => Nat.testBit x n) h
    simpa [testBit_one hn hn] using hbit
  · intro h
    refine Nat.eq_of_testBit_eq fun m => ?_
    rw [Nat.testBit_and, Nat.zero_testBit]
    by_cases hm : m < 32
    · rw [testBit_one hn hm]
      by_cases heq : n = m
      · rw [← heq, h, Bool.false_and]
      · rw [decide_eq_false heq, Bool.and_false]
    · by_cases h31 : n = 31
      · -- the bits above the sign are clear as it is
        subst h31
        have hlt : w < 2 ^ m := (hw.upper h).trans_le (Nat.pow_le_pow_right (by decide) (by omega))
        rw [Nat.testBit_lt_two_pow hlt, Bool.false_and]
      · unfold one
        rw [Nat.mod_eq_of_lt hn, if_neg h31, Nat.testBit_two_pow, decide_eq_false (by omega), Bool.and_false]

/-- Behind `set` the word is still as it should be. -/
theorem WordOk.or (hw : WordOk A w) (hn : n < 32) : WordOk A (w ||| one A n) := by
  refine ⟨Nat.or_lt_two_pow hw.lt (one_lt n), fun h => ?_⟩
  rw [Nat.testBit_or, Bool.or_eq_false_iff, testBit_one hn (by decide)] at h
  obtain ⟨hclear, hne⟩ := h
  have hn31 : n ≠ 31 := of_decide_eq_false hne
  refine Nat.or_lt_two_pow (hw.upper hclear) ?_
  unfold one
  rw [Nat.mod_eq_of_lt hn, if_neg hn31]
  exact Nat.pow_lt_pow_right (by decide) (by omega)

/-- The mask that `clear` uses. -/
theorem testBit_mask (hn : n < 32) {m : Nat} (hm : m < 32) :
    (2 ^ A.wordBits - 1 - one A n).testBit m = !decide (n = m) := by
  have hlt : m < A.wordBits := by rcases wordBits_cases A with h | h <;> omega
  rw [Nat.sub_sub, Nat.add_comm 1, Nat.testBit_two_pow_sub_succ (one_lt n) m, testBit_one hn hm,
    decide_eq_true hlt, Bool.true_and]

/-- Behind `clear` the word is still as it should be. -/
theorem WordOk.and (hw : WordOk A w) (hn : n < 32) :
    WordOk A (w &&& (2 ^ A.wordBits - 1 - one A n)) := by
  refine ⟨Nat.and_le_left.trans_lt hw.lt, fun h => ?_⟩
  rw [Nat.testBit_and, testBit_mask hn (by decide)] at h
  by_cases h31 : n = 31
  · have hmask : 2 ^ A.wordBits - 1 - one A n < 2 ^ 31 := by
      subst h31
      unfold one
      rcases wordBits_cases A with hA | hA <;> rw [hA] <;> decide
    exact Nat.and_le_right.trans_lt hmask
  · rw [decide_eq_false h31, Bool.not_false, Bool.and_true] at h
    exact Nat.and_le_left.trans_lt (hw.upper h)

/-! ## `set` and `clear` -/

theorem div_mod_eq (hw : 0 < A.wordBits) {j : Nat} (hj : j < A.wordBits) :
    (i * A.wordBits + j) / A.wordBits = i ∧ (i * A.wordBits + j) % A.wordBits = j := by
  rw [Nat.mul_comm, Nat.mul_add_div hw, Nat.mul_add_mod, Nat.div_eq_of_lt hj, Nat.mod_eq_of_lt hj]
  exact ⟨rfl, rfl⟩

theorem wordBits_pos (A : Arch) : 0 < A.wordBits := by
  rcases wordBits_cases A with h | h <;> omega

/-- A write to the word of a position changes the set by the position. -/
theorem keeps_write {T : Finset Nat} {f : Bool → Bool} {count : Nat} (hA : AllPlain A cap)
    (h : Keeps A cap b S) (hcount : count = T.card) (hsub : ∀ p ∈ T, p < cap) (hw : WordOk A w)
    (hbit : ∀ m < 32, w.testBit m =
      if m = pos % A.wordBits then f ((b.words (pos / A.wordBits)).testBit m)
      else (b.words (pos / A.wordBits)).testBit m)
    (hT : ∀ p < cap, decide (p ∈ T) = if p = pos then f (decide (p ∈ S)) else decide (p ∈ S)) :
    Keeps A cap
      { b with
        count := count
        words := Function.update b.words (pos / A.wordBits) w } T := by
  refine ⟨h.capacity, hcount, hsub, fun p hp => ?_, fun i => ?_⟩
  · dsimp only
    rw [hT p hp, Function.update_apply, ← h.bit p hp]
    by_cases hdiv : p / A.wordBits = pos / A.wordBits
    · rw [if_pos hdiv, hbit _ (hA.plain hp)]
      by_cases hmod : p % A.wordBits = pos % A.wordBits
      · rw [if_pos hmod, if_pos (eq_of_div_mod hdiv hmod), hdiv]
      · rw [if_neg hmod, if_neg (fun heq => hmod (by rw [heq])), hdiv]
    · rw [if_neg hdiv, if_neg fun heq => hdiv (by rw [heq])]
  · dsimp only
    rw [Function.update_apply]
    split
    · exact hw
    · exact h.word i

theorem set_keeps (hA : AllPlain A cap) (hcap : cap < 2 ^ 32) (h : Keeps A cap b S) (hpos : pos < cap) :
    ∃ b', b.set A pos = some b' ∧ Keeps A cap b' (insert pos S) := by
  have hget := h.get hpos
  have hplain := hA.plain hpos
  unfold set
  rw [if_neg (by rw [h.capacity]; exact Nat.not_le.mpr hpos)]
  by_cases hin : pos ∈ S
  · rw [decide_eq_true hin] at hget
    rw [if_pos hget, Finset.insert_eq_of_mem hin]
    exact ⟨b, rfl, h⟩
  · rw [decide_eq_false hin] at hget
    rw [if_neg (by rw [hget]; decide)]
    refine ⟨_, rfl, keeps_write (f := fun _ => true) hA h ?_ ?_ ((h.word _).or hplain) ?_ ?_⟩
    · have hcard := h.card_le
      have hlt : S.card < cap := by
        have hsub : insert pos S ⊆ Finset.range cap := by
          intro p hp
          rcases Finset.mem_insert.mp hp with rfl | hp
          · exact Finset.mem_range.mpr hpos
          · exact Finset.mem_range.mpr (h.sub p hp)
        have hle := Finset.card_le_card hsub
        rw [Finset.card_insert_of_notMem hin, Finset.card_range] at hle
        exact hle
      rw [h.count, Finset.card_insert_of_notMem hin]
      exact Nat.mod_eq_of_lt (by omega)
    · intro p hp
      rcases Finset.mem_insert.mp hp with rfl | hp
      · exact hpos
      · exact h.sub p hp
    · intro m hm
      rw [Nat.testBit_or, testBit_one hplain hm]
      by_cases heq : m = pos % A.wordBits
      · simp [heq]
      · simp [heq, Ne.symm heq]
    · intro p _
      by_cases heq : p = pos <;> simp [heq]

theorem clear_keeps (hA : AllPlain A cap) (hcap : cap < 2 ^ 32) (h : Keeps A cap b S) (hpos : pos < cap) :
    ∃ b', b.clear A pos = some b' ∧ Keeps A cap b' (S.erase pos) := by
  have hget := h.get hpos
  have hplain := hA.plain hpos
  unfold clear
  rw [if_neg (by rw [h.capacity]; exact Nat.not_le.mpr hpos)]
  by_cases hin : pos ∈ S
  · rw [decide_eq_true hin] at hget
    rw [if_neg (by rw [hget]; decide)]
    refine ⟨_, rfl, keeps_write (f := fun _ => false) hA h ?_ ?_ ((h.word _).and hplain) ?_ ?_⟩
    · have hcard := h.card_le
      have hpositive := Finset.card_pos.mpr ⟨pos, hin⟩
      rw [h.count, Finset.card_erase_of_mem hin]
      omega
    · exact fun p hp => h.sub p (Finset.mem_of_mem_erase hp)
    · intro m hm
      rw [Nat.testBit_and, testBit_mask hplain hm]
      by_cases heq : m = pos % A.wordBits
      · simp [heq]
      · simp [heq, Ne.symm heq]
    · intro p _
      by_cases heq : p = pos <;> simp [heq]
  · rw [decide_eq_false hin] at hget
    rw [if_pos hget, Finset.erase_eq_of_notMem hin]
    exact ⟨b, rfl, h⟩

/-! ## `getfree` and `getbusy` -/

/-- The bits of a word below `32` that belong to the bitmap are searched as the set is. -/
theorem word_search (hA : AllPlain A cap) (h : Keeps A cap b S) (hn : n ≤ A.wordBits)
    (hin : i * A.wordBits + n ≤ cap) :
    freeBit A (b.words i) n = (List.range n).find? (fun j => decide (i * A.wordBits + j ∉ S)) ∧
      busyBit A (b.words i) n = (List.range n).find? (fun j => decide (i * A.wordBits + j ∈ S)) := by
  have hbit : ∀ j < n, j < 32 ∧ (b.words i).testBit j = decide (i * A.wordBits + j ∈ S) := by
    intro j hj
    obtain ⟨hdiv, hmod⟩ := div_mod_eq (i := i) (wordBits_pos A) (hj.trans_le hn)
    have hpos : i * A.wordBits + j < cap := by omega
    have hplain := hA.plain hpos
    have hread := h.bit _ hpos
    unfold Plain at hplain
    rw [hdiv, hmod] at hread
    rw [hmod] at hplain
    exact ⟨hplain, hread⟩
  constructor
  · refine List.find?_congr fun j hj => ?_
    obtain ⟨hlt, hread⟩ := hbit j (List.mem_range.mp hj)
    rw [Bool.eq_iff_iff, beq_iff_eq, and_one_eq_zero (h.word i) hlt, hread, decide_eq_false_iff_not,
      decide_eq_true_iff]
  · refine List.find?_congr fun j hj => ?_
    obtain ⟨hlt, hread⟩ := hbit j (List.mem_range.mp hj)
    rw [Bool.eq_iff_iff, bne_iff_ne, ne_eq, and_one_eq_zero (h.word i) hlt, hread,
      decide_eq_false_iff_not, not_not, decide_eq_true_iff]

/-- A word that is skipped has nothing to be found. -/
theorem skipped_word (hA : AllPlain A cap) (h : Keeps A cap b S) (hin : (i + 1) * A.wordBits ≤ cap) :
    (b.words i = 2 ^ A.wordBits - 1 → freeBit A (b.words i) A.wordBits = none) ∧
      (b.words i = 0 → busyBit A (b.words i) A.wordBits = none) := by
  have h32 : A.wordBits = 32 := by
    rcases hA with hA | hA
    · exact hA
    · rw [Nat.succ_mul] at hin
      rcases wordBits_cases A with hw | hw <;> omega
  constructor
  · intro hfull
    unfold freeBit
    rw [List.find?_eq_none]
    intro j hj hzero
    have hlt : j < 32 := by
      rw [← h32]
      exact List.mem_range.mp hj
    rw [beq_iff_eq, and_one_eq_zero (h.word i) hlt, hfull, h32, Nat.testBit_two_pow_sub_one,
      decide_eq_true hlt] at hzero
    cases hzero
  · intro hempty
    unfold busyBit
    rw [List.find?_eq_none]
    intro j _ hone
    rw [hempty, Nat.zero_and] at hone
    cases hone

/-- **The position that is found** is the least one that is free, or taken. -/
theorem freePos_eq (hA : AllPlain A cap) (h : Keeps A cap b S) :
    b.freePos A = Slots.least cap fun p => p ∉ S := by
  have hsplit := Nat.div_add_mod' cap A.wordBits
  have hblocks := Lib.find_blocks (fun p => decide (p ∉ S)) A.wordBits (cap % A.wordBits)
    (fun i => if b.words i = 2 ^ A.wordBits - 1 then none
      else (freeBit A (b.words i) A.wordBits).map fun j => i * A.wordBits + j)
    (cap / A.wordBits) fun i hi => by
      have hin : (i + 1) * A.wordBits ≤ cap :=
        (Nat.mul_le_mul_right _ hi).trans (Nat.div_mul_le_self cap _)
      have hword := (word_search hA h (Nat.le_refl _) (by rwa [Nat.succ_mul] at hin)).1
      split
      · rename_i hfull
        rw [← hword, (skipped_word hA h hin).1 hfull]
        rfl
      · rw [hword]
  rw [hsplit, ← (word_search hA h (Nat.mod_lt cap (wordBits_pos A)).le (Nat.le_of_eq hsplit)).1] at hblocks
  unfold Slots.least
  rw [← hblocks]
  unfold freePos
  rw [h.capacity]
  dsimp only
  split <;> rename_i hfind <;> rw [hfind] <;> rfl

theorem busyPos_eq (hA : AllPlain A cap) (h : Keeps A cap b S) :
    b.busyPos A = Slots.least cap fun p => p ∈ S := by
  have hsplit := Nat.div_add_mod' cap A.wordBits
  have hblocks := Lib.find_blocks (fun p => decide (p ∈ S)) A.wordBits (cap % A.wordBits)
    (fun i => if b.words i = 0 then none
      else (busyBit A (b.words i) A.wordBits).map fun j => i * A.wordBits + j)
    (cap / A.wordBits) fun i hi => by
      have hin : (i + 1) * A.wordBits ≤ cap :=
        (Nat.mul_le_mul_right _ hi).trans (Nat.div_mul_le_self cap _)
      have hword := (word_search hA h (Nat.le_refl _) (by rwa [Nat.succ_mul] at hin)).2
      split
      · rename_i hempty
        rw [← hword, (skipped_word hA h hin).2 hempty]
        rfl
      · rw [hword]
  rw [hsplit, ← (word_search hA h (Nat.mod_lt cap (wordBits_pos A)).le (Nat.le_of_eq hsplit)).2] at hblocks
  unfold Slots.least
  rw [← hblocks]
  unfold busyPos
  rw [h.capacity]
  dsimp only
  split <;> rename_i hfind <;> rw [hfind] <;> rfl

/-! ## Runs -/

/-- A call does to the bitmap what it does to the set, and returns the same. -/
theorem act_keeps (hA : AllPlain A cap) (hcap : cap < 2 ^ 32) (h : Keeps A cap b S) :
    ∀ op, (act A b op).2 = (Lib.Slots.act cap S op).2 ∧
      Keeps A cap (act A b op).1 (Lib.Slots.act cap S op).1
  | .set pos => by
    rw [act, Lib.Slots.act]
    by_cases hpos : pos < cap
    · obtain ⟨b', hset, hkeeps⟩ := set_keeps hA hcap h hpos
      rw [hset, if_pos hpos]
      exact ⟨rfl, hkeeps⟩
    · have hset : b.set A pos = none := by
        unfold set
        exact if_pos (by rw [h.capacity]; exact Nat.le_of_not_lt hpos)
      rw [hset, if_neg hpos]
      exact ⟨rfl, h⟩
  | .clear pos => by
    rw [act, Lib.Slots.act]
    by_cases hpos : pos < cap
    · obtain ⟨b', hclear, hkeeps⟩ := clear_keeps hA hcap h hpos
      rw [hclear, if_pos hpos]
      exact ⟨rfl, hkeeps⟩
    · have hclear : b.clear A pos = none := by
        unfold clear
        exact if_pos (by rw [h.capacity]; exact Nat.le_of_not_lt hpos)
      rw [hclear, if_neg hpos]
      exact ⟨rfl, h⟩
  | .getfree => by
    rw [act, Lib.Slots.act, getfree, freePos_eq hA h]
    cases hp : Slots.least cap fun p => p ∉ S with
    | none => exact ⟨rfl, h⟩
    | some p =>
      obtain ⟨b', hset, hkeeps⟩ := set_keeps hA hcap h (Slots.least_eq_some.mp hp).1
      refine ⟨rfl, ?_⟩
      show Keeps A cap ((b.set A p).getD b) (insert p S)
      rw [hset]
      exact hkeeps
  | .getbusy => by
    rw [act, Lib.Slots.act, getbusy, busyPos_eq hA h]
    cases hp : Slots.least cap fun p => p ∈ S with
    | none => exact ⟨rfl, h⟩
    | some p =>
      obtain ⟨b', hclear, hkeeps⟩ := clear_keeps hA hcap h (Slots.least_eq_some.mp hp).1
      refine ⟨rfl, ?_⟩
      show Keeps A cap ((b.clear A p).getD b) (S.erase p)
      rw [hclear]
      exact hkeeps

/-- The bitmap after the constructor and `init`. -/
def start (max cap : Nat) : Bitmap := initOf max empty cap

theorem start_keeps (A : Arch) {max : Nat} (hmax : cap ≤ max) : Keeps A cap (start max cap) ∅ := by
  unfold start initOf
  rw [if_neg (Nat.not_lt.mpr hmax)]
  refine ⟨rfl, rfl, fun p hp => absurd hp (Finset.notMem_empty p), fun p _ => ?_, fun i => ⟨?_, fun _ => ?_⟩⟩
  · exact Nat.zero_testBit _
  · exact Nat.two_pow_pos _
  · exact Nat.two_pow_pos _

/-- **A run of the bitmap** returns what the set returns, as an `int`. -/
theorem trace_step (hA : AllPlain A cap) (hcap : cap < 2 ^ 32) (h : Keeps A cap b S) (ops : List Slots.Op) :
    trace (step A) b ops = (trace (Lib.Slots.step cap) S ops).map fun r => (answer r.1, r.2) := by
  rw [← Lib.trace_map]
  refine (Lib.trace_simulation (R := Keeps A cap) (C := fun _ => True) (fun b S op _ h => ?_) ops
    (fun _ _ => trivial) h).1
  obtain ⟨hret, hkeeps⟩ := act_keeps hA hcap h op
  refine ⟨?_, hkeeps⟩
  unfold step Lib.Slots.step
  rw [hret, hkeeps.count]

end Bitmap
end Wrmos
