import Wrmos.BitmapSet
import Wrmos.Lib.Outcome
import Mathlib.Tactic.SplitIfs

/-!
# Pools of slots

`Static_pool_t` of `lib/containers/static_pool.h`: `N` slots of one size in an array, and a bitmap that says
which are taken.  Where the bitmap keeps a set no slot is handed out twice (`pool_nodup`).

`bitmap_refines_iff` says where a bitmap keeps a set.  On a machine with words of 64 bits one of more than 32
positions does not: taking position 31 also sets the bit that `get` reads for position 32, and to take that
one then changes nothing.  On a machine with words of 32 bits every bitmap does whose positions are numbers
of type `int`.
-/

namespace Wrmos

open Lib (ensure bind_eq_ok runAll Slots.Op Slots.held trace final)

/-- `Static_pool_t`: where the array stands, the size of a slot in bytes, their number, and the bitmap. -/
structure StaticPool where
  base : Nat
  itemBytes : Nat
  slots : Nat
  bmap : Bitmap

namespace StaticPool

/-- The constructor. -/
def init (base itemBytes n : Nat) : StaticPool := ⟨base, itemBytes, n, Bitmap.start n n⟩

/-- `alloc`; a null pointer is `0`. -/
def alloc (A : Arch) (s : StaticPool) : Except Stop (Nat × StaticPool) :=
  match s.bmap.getfree A with
  | none => pure (0, s)
  | some (pos, bmap) =>
    if Bitmap.asInt pos < 0 then pure (0, { s with bmap := bmap })
    else do
      ensure (pos < s.slots) (.assertion "(size_t)pos < N")
      pure (s.base + pos * s.itemBytes, { s with bmap := bmap })

/-- `free`; whether the pointer points into the array. -/
def free (A : Arch) (s : StaticPool) (p : Nat) : Except Stop (Bool × StaticPool) :=
  if p < s.base ∨ s.base + s.itemBytes * s.slots ≤ p then pure (false, s)
  else do
    let pos := (p - s.base) / s.itemBytes % 2 ^ 32
    ensure (s.bmap.get A pos = some true) (.assertion "bmap.get(pos) == 1")
    pure (true, { s with bmap := (s.bmap.clear A pos).getD s.bmap })

/-- What a user of the pool does: take a slot, or give back one of those it holds. -/
inductive Op where
  | alloc
  | free (i : Nat)
  deriving DecidableEq, Repr

/-- A step of the pool and its user, who notes the slots it holds. -/
def step (A : Arch) (x : StaticPool × List Nat) : Op → Except Stop (StaticPool × List Nat)
  | .alloc => do
    let r ← x.1.alloc A
    pure (r.2, if r.1 = 0 then x.2 else r.1 :: x.2)
  | .free i =>
    match x.2[i]? with
    | none => pure x
    | some p => do
      let r ← x.1.free A p
      pure (r.2, x.2.eraseIdx i)

variable {A : Arch} {s : StaticPool} {L : List Nat} {S : Finset Nat} {n : Nat}

/-- The slots that are held are different, and their positions are taken. -/
structure Holds (A : Arch) (base itemBytes n : Nat) (x : StaticPool × List Nat) : Prop where
  base_eq : x.1.base = base
  item_eq : x.1.itemBytes = itemBytes
  slots_eq : x.1.slots = n
  taken : ∃ S, Bitmap.Keeps A n x.1.bmap S ∧ ∀ a ∈ x.2, ∃ p ∈ S, a = base + p * itemBytes
  nodup : x.2.Nodup

/-- Below `2 ^ 31` a position is a number of type `int`. -/
theorem asInt_of_lt {p : Nat} (hp : p < 2 ^ 31) : Bitmap.asInt p = p := by
  unfold Bitmap.asInt
  rw [Nat.mod_eq_of_lt (hp.trans (by decide)), if_pos hp]

/-- To give back a slot clears the bit of its position. -/
theorem free_eq {p : Nat} {b : Bitmap} (hitem : 0 < s.itemBytes) (hn : s.slots ≤ 2 ^ 31) (hlt : p < s.slots)
    (hbusy : s.bmap.get A p = some true) (hclear : s.bmap.clear A p = some b) :
    s.free A (s.base + p * s.itemBytes) = .ok (true, { s with bmap := b }) := by
  have hinside : ¬ (s.base + p * s.itemBytes < s.base ∨
      s.base + s.itemBytes * s.slots ≤ s.base + p * s.itemBytes) := by
    have hmul := Nat.mul_lt_mul_of_pos_right hlt hitem
    rw [Nat.mul_comm s.slots] at hmul
    omega
  have hpos : (s.base + p * s.itemBytes - s.base) / s.itemBytes % 2 ^ 32 = p := by
    rw [Nat.add_sub_cancel_left, Nat.mul_div_cancel _ hitem, Nat.mod_eq_of_lt (by omega)]
  unfold free
  dsimp only
  rw [if_neg hinside, hpos, Lib.ensure_bind_of hbusy, hclear]
  rfl

/-- A step of the pool does not stop, and keeps the slots different. -/
theorem step_holds {base itemBytes : Nat} (hA : Bitmap.AllPlain A n) (hn : n ≤ 2 ^ 31) (hbase : base ≠ 0)
    (hitem : 0 < itemBytes) {x : StaticPool × List Nat} (h : Holds A base itemBytes n x) :
    ∀ op, ∃ y, step A x op = .ok y ∧ Holds A base itemBytes n y
  | .alloc => by
    obtain ⟨S, hkeeps, hmem⟩ := h.taken
    obtain ⟨hret, hnext⟩ := Bitmap.act_keeps hA (by omega) hkeeps .getfree
    rw [Bitmap.act, Lib.Slots.act] at hret hnext
    unfold step alloc
    cases hfree : x.1.bmap.getfree A with
    | none =>
      refine ⟨x, ?_, h⟩
      show Except.ok (x.1, if 0 = 0 then x.2 else 0 :: x.2) = Except.ok x
      rw [if_pos rfl]
    | some r =>
      obtain ⟨pos, bmap⟩ := r
      rw [hfree] at hret hnext
      cases hleast : Lib.Slots.least n fun p => p ∉ S with
      | none =>
        rw [hleast] at hret
        cases hret
      | some p =>
        rw [hleast] at hret hnext
        obtain rfl : pos = p := Option.some.inj hret
        obtain ⟨hlt, hfreepos, -⟩ := Lib.Slots.least_eq_some.mp hleast
        have hout : pos ∉ S := of_decide_eq_true hfreepos
        have haddr : base + pos * itemBytes ≠ 0 := by omega
        refine ⟨(⟨base, itemBytes, n, bmap⟩, (base + pos * itemBytes) :: x.2), ?_, rfl, rfl, rfl,
          ⟨insert pos S, hnext, fun a ha => ?_⟩, List.nodup_cons.mpr ⟨fun hin => ?_, h.nodup⟩⟩
        · dsimp only
          rw [if_neg (by rw [asInt_of_lt (by omega)]; omega), h.slots_eq, h.base_eq, h.item_eq,
            Lib.ensure_bind_of hlt]
          show Except.ok (_, if base + pos * itemBytes = 0 then x.2 else _) = _
          rw [if_neg haddr]
        · rcases List.mem_cons.mp ha with rfl | ha
          · exact ⟨pos, Finset.mem_insert_self _ _, rfl⟩
          · obtain ⟨q, hq, hqa⟩ := hmem a ha
            exact ⟨q, Finset.mem_insert_of_mem hq, hqa⟩
        · -- the slot of a taken position is another one
          obtain ⟨q, hq, hqa⟩ := hmem _ hin
          have heq : pos = q := Nat.eq_of_mul_eq_mul_right hitem (Nat.add_left_cancel hqa)
          exact hout (heq ▸ hq)
  | .free i => by
    obtain ⟨S, hkeeps, hmem⟩ := h.taken
    simp only [step]
    cases hget : x.2[i]? with
    | none => exact ⟨x, rfl, h⟩
    | some a =>
      have hin : a ∈ x.2 := List.mem_of_getElem? hget
      obtain ⟨p, hp, rfl⟩ := hmem a hin
      have hlt := hkeeps.sub p hp
      obtain ⟨b, hclear, hnext⟩ := Bitmap.clear_keeps hA (by omega) hkeeps hlt
      have hbusy : x.1.bmap.get A p = some true := by
        rw [hkeeps.get hlt, decide_eq_true hp]
      have hfree := free_eq (s := x.1) (by rw [h.item_eq]; exact hitem) (by rw [h.slots_eq]; exact hn)
        (by rw [h.slots_eq]; exact hlt) hbusy hclear
      rw [h.base_eq, h.item_eq] at hfree
      refine ⟨(⟨base, itemBytes, x.1.slots, b⟩, x.2.eraseIdx i), ?_, rfl, rfl, h.slots_eq,
        ⟨S.erase p, hnext, fun a ha => ?_⟩, h.nodup.eraseIdx i⟩
      · dsimp only
        rw [hfree]
        rfl
      · obtain ⟨q, hq, rfl⟩ := hmem a (List.mem_of_mem_eraseIdx ha)
        refine ⟨q, Finset.mem_erase.mpr ⟨?_, hq⟩, rfl⟩
        rintro rfl
        -- the slot that was given back stood in the list once
        obtain ⟨j, hne, hj⟩ := List.mem_eraseIdx_iff_getElem?.mp ha
        obtain ⟨hlen, -⟩ := List.getElem?_eq_some_iff.mp hj
        exact hne ((List.getElem?_inj hlen h.nodup).mp (hj.trans hget.symm))

/-- **Slots**: in every run those that are held are pairwise different. -/
theorem pool_nodup {base itemBytes : Nat} (hA : Bitmap.AllPlain A n) (hn : n ≤ 2 ^ 31) (hbase : base ≠ 0)
    (hitem : 0 < itemBytes) : ∀ (ops : List Op) {x : StaticPool × List Nat},
    Holds A base itemBytes n x → ∃ y, runAll (step A) x ops = .ok y ∧ y.2.Nodup
  | [], x, h => ⟨x, rfl, h.nodup⟩
  | op :: ops, x, h => by
    obtain ⟨y, hy, hnext⟩ := step_holds hA hn hbase hitem h op
    obtain ⟨z, hz, hnodup⟩ := pool_nodup hA hn hbase hitem ops hnext
    exact ⟨z, bind_eq_ok.mpr ⟨y, hy, hz⟩, hnodup⟩

theorem holds_init (A : Arch) (base itemBytes n : Nat) :
    Holds A base itemBytes n (init base itemBytes n, []) :=
  ⟨rfl, rfl, rfl, ⟨∅, Bitmap.start_keeps A (Nat.le_refl n), fun _ ha => absurd ha List.not_mem_nil⟩,
    List.nodup_nil⟩

end StaticPool

namespace Bitmap

variable {A : Arch} {cap max : Nat}

/-- What a set returns: the position, or `-1`. -/
def claimed (r : Option Nat) : Int := r.elim (-1) fun p => (p : Int)

/-- The position that was returned. -/
def position (r : Int) : Option Nat := if r < 0 then none else some r.toNat

/-- A bitmap refines a finite set of positions: every run of calls returns what the set returns, with the
number of its positions; no position is handed out that is held, and neither is a slot of a pool. -/
structure RefinesSet (A : Arch) (max cap : Nat) : Prop where
  answers : ∀ ops : List Slots.Op, trace (step A) (start max cap) ops =
    (trace (Lib.Slots.step cap) ∅ ops).map fun r => (claimed r.1, r.2)
  held : ∀ ops : List Slots.Op,
    (Slots.held [] ops ((trace (step A) (start max cap) ops).map fun r => position r.1)).Nodup
  pool : ∀ (base itemBytes : Nat) (ops : List StaticPool.Op), base ≠ 0 → 0 < itemBytes →
    ∃ y, runAll (StaticPool.step A) (StaticPool.init base itemBytes cap, []) ops = .ok y ∧ y.2.Nodup

theorem position_claimed : ∀ r, position (claimed r) = r
  | none => rfl
  | some p => by
    unfold position claimed
    rw [Option.elim_some, if_neg (by omega)]
    rfl

/-- The set returns positions below its bound. -/
theorem act_lt {S : Finset Nat} {p : Nat} : ∀ {op : Slots.Op}, (Lib.Slots.act cap S op).2 = some p → p < cap
  | .set pos, h => by
    rw [Lib.Slots.act] at h
    split_ifs at h with hpos
    obtain rfl := Option.some.inj h
    exact Nat.zero_lt_of_lt hpos
  | .clear pos, h => by
    rw [Lib.Slots.act] at h
    split_ifs at h with hpos
    obtain rfl := Option.some.inj h
    exact Nat.zero_lt_of_lt hpos
  | .getfree, h => by
    rw [Lib.Slots.act] at h
    split at h
    · rename_i q hq
      obtain rfl := Option.some.inj h
      exact (Lib.Slots.least_eq_some.mp hq).1
    · cases h
  | .getbusy, h => by
    rw [Lib.Slots.act] at h
    split at h
    · rename_i q hq
      obtain rfl := Option.some.inj h
      exact (Lib.Slots.least_eq_some.mp hq).1
    · cases h

/-- As long as the positions are numbers of type `int` they are returned as they are. -/
theorem trace_answer (hcap : cap ≤ 2 ^ 31) : ∀ (ops : List Slots.Op) (S : Finset Nat),
    ((trace (Lib.Slots.step cap) S ops).map fun r => (answer r.1, r.2)) =
      (trace (Lib.Slots.step cap) S ops).map fun r => (claimed r.1, r.2)
  | [], _ => rfl
  | op :: ops, S => by
    have hret : answer (Lib.Slots.act cap S op).2 = claimed (Lib.Slots.act cap S op).2 := by
      cases hr : (Lib.Slots.act cap S op).2 with
      | none => rfl
      | some p => exact StaticPool.asInt_of_lt (Nat.lt_of_lt_of_le (act_lt hr) hcap)
    rw [trace, List.map_cons, List.map_cons, trace_answer hcap ops]
    congr 1
    exact congrArg (fun r => (r, (Lib.Slots.act cap S op).1.card)) hret

theorem refines_of_plain (hA : AllPlain A cap) (hmax : cap ≤ max) (hcap : cap ≤ 2 ^ 31) :
    RefinesSet A max cap := by
  have htrace : ∀ ops : List Slots.Op, trace (step A) (start max cap) ops =
      (trace (Lib.Slots.step cap) ∅ ops).map fun r => (claimed r.1, r.2) := by
    intro ops
    rw [trace_step hA (by omega) (start_keeps A hmax) ops, trace_answer hcap]
  refine ⟨htrace, fun ops => ?_, fun base itemBytes ops hbase hitem =>
    StaticPool.pool_nodup hA hcap hbase hitem ops (StaticPool.holds_init A base itemBytes cap)⟩
  have hpos : ((trace (step A) (start max cap) ops).map fun r => position r.1) =
      (trace (Lib.Slots.step cap) ∅ ops).map Prod.fst := by
    rw [htrace ops, List.map_map]
    refine List.map_congr_left fun r _ => ?_
    exact position_claimed r.1
  rw [hpos]
  exact Lib.Slots.held_nodup ops ⟨List.nodup_nil, fun p hp => absurd hp List.not_mem_nil⟩

/-! ## Where it does not -/

/-- A bitmap in which position 31 was taken. -/
def taken31 (A : Arch) (cap : Nat) : Bitmap := ⟨Function.update (fun _ => 0) 0 (one A 31), cap, 1⟩

theorem act_set31 (hA : A.wordBits = 64) (hmax : cap ≤ max) (hcap : 32 < cap) :
    act A (start max cap) (.set 31) = (taken31 A cap, some 0) := by
  have hstart : start max cap = ⟨fun _ => 0, cap, 0⟩ := if_neg (Nat.not_lt.mpr hmax)
  have hget : get A ⟨fun _ => 0, cap, 0⟩ 31 = some false := by
    unfold get
    rw [if_neg (by dsimp only; omega)]
    exact congrArg some (Nat.zero_testBit _)
  have hset : set A ⟨fun _ => 0, cap, 0⟩ 31 = some (taken31 A cap) := by
    unfold set
    rw [hget, if_neg (by dsimp only; omega), if_neg (by decide), hA]
    dsimp only
    rw [Nat.zero_or]
    rfl
  rw [hstart, act, hset]
  rfl

/-- Position 32 seems to be taken when position 31 is. -/
theorem act_set32 (hA : A.wordBits = 64) (hcap : 32 < cap) :
    act A (taken31 A cap) (.set 32) = (taken31 A cap, some 0) := by
  have hbit : (one A 31).testBit 32 = true := by
    unfold one
    rw [hA]
    decide
  have hget : get A (taken31 A cap) 32 = some true := by
    unfold get taken31
    rw [if_neg (by dsimp only; omega), hA]
    dsimp only
    rw [show 32 / 64 = 0 from rfl, show 32 % 64 = 32 from rfl, Function.update_self, hbit]
  have hset : set A (taken31 A cap) 32 = some (taken31 A cap) := by
    unfold set
    rw [hget, if_neg (by unfold taken31; dsimp only; omega), if_pos rfl]
  rw [act, hset]
  rfl

/-- On a machine with words of 64 bits two positions that are taken count as one. -/
theorem not_refines_wide (hA : A.wordBits = 64) (hmax : cap ≤ max) (hcap : 32 < cap) :
    ¬ RefinesSet A max cap := by
  intro h
  have hcount := h.answers [.set 31, .set 32]
  have htwo : (insert 32 (insert 31 (∅ : Finset Nat))).card = 2 := by simp
  simp only [trace, step, act_set31 hA hmax hcap, act_set32 hA hcap, List.map_cons, List.map_nil,
    Lib.Slots.step, Lib.Slots.act, if_pos hcap, if_pos (show 31 < cap by omega), htwo] at hcount
  obtain ⟨-, hrest⟩ := List.cons.inj hcount
  obtain ⟨hlast, -⟩ := List.cons.inj hrest
  have hone : 1 = 2 := (Prod.mk.inj hlast).2
  cases hone

/-- The sets of the first positions. -/
theorem final_sets : ∀ {n : Nat}, n ≤ cap →
    final (Lib.Slots.step cap) ∅ ((List.range n).map Slots.Op.set) = Finset.range n
  | 0, _ => rfl
  | n + 1, h => by
    rw [List.range_succ, List.map_append, Lib.final_append, final_sets (Nat.le_of_succ_le h),
      Finset.range_add_one]
    show (Lib.Slots.act cap (Finset.range n) (.set n)).1 = _
    rw [Lib.Slots.act, if_pos (show n < cap from h)]

/-- Position `2 ^ 31` is returned as a negative number. -/
theorem not_refines_large (hA : A.wordBits = 32) (hmax : cap ≤ max) (hmax32 : max < 2 ^ 32)
    (hcap : 2 ^ 31 < cap) : ¬ RefinesSet A max cap := by
  intro h
  have htrace := h.answers ((List.range (2 ^ 31)).map Slots.Op.set ++ [.getfree])
  rw [trace_step (.inl hA) (by omega) (start_keeps A hmax), List.map_inj_left] at htrace
  have hleast : Lib.Slots.least cap (fun p => decide (p ∉ Finset.range (2 ^ 31))) = some (2 ^ 31) := by
    rw [Lib.Slots.least_eq_some]
    refine ⟨hcap, decide_eq_true Finset.notMem_range_self, fun q hq => decide_eq_false ?_⟩
    exact not_not.mpr (Finset.mem_range.mpr hq)
  have hmem : ((some (2 ^ 31) : Option Nat), (insert (2 ^ 31) (Finset.range (2 ^ 31))).card) ∈
      trace (Lib.Slots.step cap) ∅ ((List.range (2 ^ 31)).map Slots.Op.set ++ [.getfree]) := by
    rw [Lib.trace_append, List.mem_append, final_sets hcap.le]
    refine .inr (List.mem_singleton.mpr ?_)
    unfold Lib.Slots.step
    rw [Lib.Slots.act, hleast]
  have hneg := (Prod.mk.inj (htrace _ hmem)).1
  revert hneg
  decide

/-- **A bitmap refines a finite set** when, and only when, it has at most 32 positions, or words have 32
bits and its positions are numbers of type `int`. -/
theorem bitmap_refines_iff (hmax : cap ≤ max) (hmax32 : max < 2 ^ 32) :
    RefinesSet A max cap ↔ cap ≤ 32 ∨ A.wordBits = 32 ∧ cap ≤ 2 ^ 31 := by
  constructor
  · intro h
    by_contra hnot
    obtain ⟨hlarge, hnot⟩ := not_or.mp hnot
    rcases wordBits_cases A with hA | hA
    · exact not_refines_large hA hmax hmax32 (Nat.lt_of_not_le fun hle => hnot ⟨hA, hle⟩) h
    · exact not_refines_wide hA hmax (Nat.lt_of_not_le hlarge) h
  · rintro (h | ⟨hA, h⟩)
    · exact refines_of_plain (.inr h) hmax (h.trans (by decide))
    · exact refines_of_plain (.inl hA) hmax h

/-- The bitmap of a task on sparc. -/
theorem refines_sparc : RefinesSet .sparc maxBits 64 :=
  (bitmap_refines_iff (A := .sparc) (by decide) (by decide)).mpr (.inr ⟨rfl, by decide⟩)

/-- The bitmap of a task on a machine with words of 64 bits. -/
theorem not_refines_x86_64 : ¬ RefinesSet .x86_64 maxBits 64 :=
  not_refines_wide rfl (by decide) (by decide)

end Bitmap

end Wrmos
