import Wrmos.MemoryPool
import Wrmos.Lib.Extents
import Mathlib.Algebra.BigOperators.Group.Finset.Basic
import Mathlib.Data.Nat.Bitwise
import Mathlib.Tactic.Ring

/-!
# The memory pool is safe as long as it combines buddies

What the pool promises (`Safe`): blocks do not overlap, each lies in a region that was added, the list of
a size holds the free blocks of that size, and `_pool_sz_bytes` is the sum of the free blocks.

Nothing of this depends on the chain of regions but through `combine`, which takes the block to combine
with from the chain.  `combine` asks whether that block is free and of the same size, but not whether it
is the other half: the last block of a region is combined with the first block of the next one in the
chain, wherever that lies.  `MergesOk` says of a block that is freed that each time the block found is
the other half, in the same region; then all calls keep the promise (`run_safe`).
-/

namespace Wrmos

open Lib

namespace MemPool

variable {A : Arch} {p p' : MemPool} {a d d1 d2 lgsz n k : Nat} {x : Descr} {rs : List (Nat × Nat)}

/-! ## Blocks without their links -/

/-- The blocks: the logarithm of the size, and whether the block is in use. -/
def shape (p : MemPool) (a : Nat) : Option (Nat × Bool) := (p.descr a).map fun x => (x.lgsz, x.busy)

/-- The bytes on lists of blocks. -/
def bytes (blocks : Nat → List Nat) : Nat :=
  ∑ i ∈ Finset.range (lgszMax + 1), (blocks i).length * 2 ^ i

/-- The bytes on the free lists. -/
def total (p : MemPool) : Nat := bytes p.blocks

/-- The extents of the blocks. -/
def extents (p : MemPool) : Extents := fun a => (p.shape a).map fun s => 2 ^ s.1

/-- What the pool promises. -/
structure Safe (p : MemPool) : Prop where
  /-- Blocks do not overlap. -/
  apart : ∀ a b l m u v, p.shape a = some (l, u) → p.shape b = some (m, v) → a ≠ b →
    a + 2 ^ l ≤ b ∨ b + 2 ^ m ≤ a
  /-- Every block lies in one region. -/
  inside : ∀ a l u, p.shape a = some (l, u) → ∃ r ∈ p.added, r.1 ≤ a ∧ a + 2 ^ l ≤ r.2
  /-- The lists hold the free blocks by size. -/
  listed : ∀ i a, a ∈ p.blocks i ↔ p.shape a = some (i, false)
  nodup : ∀ i, (p.blocks i).Nodup
  /-- The recorded size is that of the free blocks. -/
  sum : p.poolSz = p.total

/-- Only links differ. -/
structure SameBlocks (p p' : MemPool) : Prop where
  shape : p'.shape = p.shape
  blocks : p'.blocks = p.blocks
  poolSz : p'.poolSz = p.poolSz
  added : p'.added = p.added

theorem SameBlocks.refl (p : MemPool) : SameBlocks p p := ⟨rfl, rfl, rfl, rfl⟩

theorem SameBlocks.trans {p₁ : MemPool} (h : SameBlocks p p₁) (h' : SameBlocks p₁ p') :
    SameBlocks p p' :=
  ⟨h'.shape.trans h.shape, h'.blocks.trans h.blocks, h'.poolSz.trans h.poolSz, h'.added.trans h.added⟩

theorem read_eq_ok : p.read a = .ok x ↔ p.descr a = some x := by
  unfold read
  cases p.descr a <;> simp

theorem write_eq_ok {f : Descr → Descr} :
    p.write a f = .ok p' ↔ ∃ x, p.descr a = some x ∧ p' = p.put a (f x) := by
  unfold write
  constructor
  · intro h
    obtain ⟨x, hx, h⟩ := bind_eq_ok.mp h
    exact ⟨x, read_eq_ok.mp hx, (Except.ok.inj h).symm⟩
  · rintro ⟨x, hx, rfl⟩
    exact bind_eq_ok.mpr ⟨x, read_eq_ok.mpr hx, rfl⟩

theorem shape_of_descr (h : p.descr a = some x) : p.shape a = some (x.lgsz, x.busy) := by
  unfold shape
  rw [h]
  rfl

theorem shape_put (p : MemPool) (a : Nat) (x : Descr) :
    (p.put a x).shape = Function.update p.shape a (some (x.lgsz, x.busy)) := by
  funext b
  by_cases hb : b = a
  · subst hb
    simp [shape, put]
  · simp [shape, put, hb]

theorem write_same {f : Descr → Descr} (hf : ∀ x, (f x).lgsz = x.lgsz ∧ (f x).busy = x.busy)
    (h : p.write a f = .ok p') : SameBlocks p p' := by
  obtain ⟨x, hx, rfl⟩ := write_eq_ok.mp h
  refine ⟨?_, rfl, rfl, rfl⟩
  rw [shape_put, (hf x).1, (hf x).2, ← shape_of_descr hx, Function.update_eq_self]

theorem insertRegionAfter_same (h : p.insertRegionAfter d d1 = .ok p') : SameBlocks p p' := by
  obtain ⟨b, -, h⟩ := bind_eq_ok.mp h
  obtain ⟨p₁, h₁, h⟩ := bind_eq_ok.mp h
  refine (write_same ?_ h₁).trans (write_same ?_ h) <;> exact fun _ => ⟨rfl, rfl⟩

theorem setNext_same {next : Nat} (h : p.setNext a next = .ok p') : SameBlocks p p' := by
  unfold setNext at h
  split_ifs at h
  · obtain rfl := Except.ok.inj h
    exact ⟨rfl, rfl, rfl, rfl⟩
  · refine write_same ?_ h
    exact fun _ => ⟨rfl, rfl⟩

theorem setPrev_same {prev : Nat} (h : p.setPrev a prev = .ok p') : SameBlocks p p' := by
  unfold setPrev at h
  split_ifs at h
  · exact Except.ok.inj h ▸ SameBlocks.refl p
  · refine write_same ?_ h
    exact fun _ => ⟨rfl, rfl⟩

theorem removeRegion_same (h : p.removeRegion d = .ok p') : SameBlocks p p' := by
  obtain ⟨x, -, h⟩ := bind_eq_ok.mp h
  obtain ⟨p₁, h₁, h⟩ := bind_eq_ok.mp h
  obtain ⟨p₂, h₂, h⟩ := bind_eq_ok.mp h
  refine ((setNext_same h₁).trans (setPrev_same h₂)).trans (write_same ?_ h)
  exact fun _ => ⟨rfl, rfl⟩

theorem shape_forget (p : MemPool) (a : Nat) : (p.forget a).shape = Function.update p.shape a none := by
  funext b
  by_cases hb : b = a
  · subst hb
    simp [shape, forget]
  · simp [shape, forget, hb]

/-! ## The bytes on the lists -/

theorem bytes_update (blocks : Nat → List Nat) {l : List Nat} (hl : lgsz ≤ lgszMax) :
    bytes (Function.update blocks lgsz l) + (blocks lgsz).length * 2 ^ lgsz =
      bytes blocks + l.length * 2 ^ lgsz := by
  have hmem : lgsz ∈ Finset.range (lgszMax + 1) := Finset.mem_range.mpr (by omega)
  have hrest : ∑ i ∈ (Finset.range (lgszMax + 1)).erase lgsz,
      (Function.update blocks lgsz l i).length * 2 ^ i =
      ∑ i ∈ (Finset.range (lgszMax + 1)).erase lgsz, (blocks i).length * 2 ^ i := by
    refine Finset.sum_congr rfl fun i hi => ?_
    rw [Function.update_of_ne (Finset.ne_of_mem_erase hi)]
  unfold bytes
  rw [← Finset.add_sum_erase _ _ hmem, ← Finset.add_sum_erase (Finset.range (lgszMax + 1)) _ hmem,
    hrest, Function.update_self]
  omega

theorem total_addBlock (hl : lgsz ≤ lgszMax) : (p.addBlock a lgsz).total = p.total + 2 ^ lgsz := by
  have h := bytes_update p.blocks (l := a :: p.blocks lgsz) hl
  rw [List.length_cons, Nat.succ_mul] at h
  change bytes (Function.update p.blocks lgsz (a :: p.blocks lgsz)) = bytes p.blocks + 2 ^ lgsz
  omega

theorem total_removeBlock (hl : lgsz ≤ lgszMax) (ha : a ∈ p.blocks lgsz) :
    (p.removeBlock a lgsz).total + 2 ^ lgsz = p.total := by
  have h := bytes_update p.blocks (l := (p.blocks lgsz).erase a) hl
  have hlen : (p.blocks lgsz).length = ((p.blocks lgsz).erase a).length + 1 := by
    rw [List.length_erase_of_mem ha]
    have := List.length_pos_of_mem ha
    omega
  rw [hlen, Nat.succ_mul] at h
  change bytes (Function.update p.blocks lgsz ((p.blocks lgsz).erase a)) + 2 ^ lgsz = bytes p.blocks
  omega

/-! ## The lists of free blocks -/

/-- The lists hold the free blocks by size, each once. -/
structure Listed (shape : Nat → Option (Nat × Bool)) (blocks : Nat → List Nat) : Prop where
  mem : ∀ i a, a ∈ blocks i ↔ shape a = some (i, false)
  nodup : ∀ i, (blocks i).Nodup

section Listed

variable {sh : Nat → Option (Nat × Bool)} {bl : Nat → List Nat}

/-- A free block leaves the pool and its list. -/
theorem Listed.remove (h : Listed sh bl) (ha : sh a = some (lgsz, false)) :
    Listed (Function.update sh a none) (Function.update bl lgsz ((bl lgsz).erase a)) := by
  refine ⟨fun i b => ?_, fun i => ?_⟩
  · by_cases hb : b = a
    · subst hb
      rw [Function.update_self]
      refine iff_of_false ?_ nofun
      by_cases hi : i = lgsz
      · subst hi
        rw [Function.update_self]
        exact (h.nodup i).not_mem_erase
      · rw [Function.update_of_ne hi, h.mem, ha]
        exact fun he => hi (Prod.mk.inj (Option.some.inj he)).1.symm
    · rw [Function.update_of_ne hb]
      by_cases hi : i = lgsz
      · subst hi
        rw [Function.update_self, List.mem_erase_of_ne hb, h.mem]
      · rw [Function.update_of_ne hi, h.mem]
  · by_cases hi : i = lgsz
    · subst hi
      rw [Function.update_self]
      exact (h.nodup i).erase a
    · rw [Function.update_of_ne hi]
      exact h.nodup i

/-- A free block comes into the pool and onto its list. -/
theorem Listed.put (h : Listed sh bl) (lgsz : Nat) (ha : ∀ i, sh a ≠ some (i, false)) :
    Listed (Function.update sh a (some (lgsz, false))) (Function.update bl lgsz (a :: bl lgsz)) := by
  have hnot : ∀ i, a ∉ bl i := fun i hm => ha i ((h.mem i a).mp hm)
  refine ⟨fun i b => ?_, fun i => ?_⟩
  · by_cases hb : b = a
    · subst hb
      rw [Function.update_self]
      by_cases hi : i = lgsz
      · subst hi
        rw [Function.update_self]
        exact iff_of_true List.mem_cons_self rfl
      · rw [Function.update_of_ne hi]
        exact iff_of_false (hnot i) fun he => hi (Prod.mk.inj (Option.some.inj he)).1.symm
    · rw [Function.update_of_ne hb]
      by_cases hi : i = lgsz
      · subst hi
        rw [Function.update_self, List.mem_cons, h.mem]
        exact or_iff_right hb
      · rw [Function.update_of_ne hi, h.mem]
  · by_cases hi : i = lgsz
    · subst hi
      rw [Function.update_self]
      exact List.nodup_cons.mpr ⟨hnot i, h.nodup i⟩
    · rw [Function.update_of_ne hi]
      exact h.nodup i

/-- A block that is not free comes into the pool. -/
theorem Listed.putBusy (h : Listed sh bl) (lgsz : Nat) (ha : sh a = none) :
    Listed (Function.update sh a (some (lgsz, true))) bl := by
  refine ⟨fun i b => ?_, h.nodup⟩
  by_cases hb : b = a
  · subst hb
    rw [Function.update_self, h.mem, ha]
    simp
  · rw [Function.update_of_ne hb, h.mem]

end Listed

/-! ## The invariant -/

/-- The invariant, in the regions `rs`, while `k` bytes of the lists are not counted yet. -/
structure Inv (A : Arch) (rs : List (Nat × Nat)) (k : Nat) (p : MemPool) : Prop where
  apart : p.extents.Apart
  inside : ∀ a l u, p.shape a = some (l, u) → ∃ r ∈ rs, r.1 ≤ a ∧ a + 2 ^ l ≤ r.2
  lists : Listed p.shape p.blocks
  sum : p.total = p.poolSz + k
  size : ∀ a l u, p.shape a = some (l, u) → lgszMin ≤ l ∧ l ≤ lgszMax ∧ one A l = 2 ^ l
  space : ∀ r ∈ rs, r.2 < 2 ^ A.wordBits

theorem extents_of_shape {l : Nat} {u : Bool} (h : p.shape a = some (l, u)) :
    p.extents a = some (2 ^ l) := by
  unfold extents
  rw [h]
  rfl

theorem shape_of_extents {s : Nat} (h : p.extents a = some s) :
    ∃ l u, p.shape a = some (l, u) ∧ s = 2 ^ l := by
  obtain ⟨⟨l, u⟩, hs, rfl⟩ := Option.map_eq_some_iff.mp h
  exact ⟨l, u, hs, rfl⟩

theorem Inv.safe (h : Inv A p.added 0 p) : Safe p where
  apart a b l m u v ha hb hne := h.apart a b _ _ (extents_of_shape ha) (extents_of_shape hb) hne
  inside := h.inside
  listed := h.lists.mem
  nodup := h.lists.nodup
  sum := by rw [h.sum, Nat.add_zero]

/-! ## Splitting -/

theorem one_of_lt (h : n < 31) : one A n = 2 ^ n := by
  unfold one
  rw [if_pos h]

theorem Inv.lt_space (h : Inv A rs k p) {l : Nat} {u : Bool} (ha : p.shape a = some (l, u)) :
    a + 2 ^ l < 2 ^ A.wordBits := by
  obtain ⟨r, hr, -, h2⟩ := h.inside a l u ha
  have := h.space r hr
  omega

theorem extents_pos (p : MemPool) : ∀ a s, p.extents a = some s → 0 < s := by
  intro a s h
  obtain ⟨l, u, -, rfl⟩ := shape_of_extents h
  exact Nat.two_pow_pos l

/-- The blocks behind `halve`. -/
theorem halve_blocks {l : Nat} {u : Bool} (hd : p.shape d = some (l, u)) (hok : p.halve A d lgsz = .ok p') :
    u = false ∧ p'.shape = Function.update (Function.update p.shape d (some (l - 1, false)))
        (A.add d (one A (l - 1))) (some (l - 1, false)) ∧
      p'.blocks = (((p.removeBlock d lgsz).addBlock d (l - 1)).addBlock
        (A.add d (one A (l - 1))) (l - 1)).blocks ∧
      p'.poolSz = p.poolSz ∧ p'.added = p.added := by
  unfold halve at hok
  obtain ⟨x, hx, hok⟩ := bind_eq_ok.mp hok
  obtain ⟨hfree, hok⟩ := ensure_bind_eq_ok.mp hok
  obtain ⟨p₁, h₁, hok⟩ := bind_eq_ok.mp hok
  obtain ⟨p₂, h₂, hok⟩ := bind_eq_ok.mp hok
  have hshape := shape_of_descr (read_eq_ok.mp hx)
  rw [hd] at hshape
  obtain ⟨rfl, rfl⟩ := Prod.mk.inj (Option.some.inj hshape)
  obtain ⟨y, hy, rfl⟩ := write_eq_ok.mp h₁
  obtain ⟨-, h₂⟩ := ensure_bind_eq_ok.mp h₂
  obtain rfl := Except.ok.inj h₂
  have hsame := insertRegionAfter_same hok
  have hyx : y = x := by
    have hx' : p.descr d = some x := read_eq_ok.mp hx
    exact Option.some.inj (hy.symm.trans hx')
  subst hyx
  refine ⟨hfree, ?_, hsame.blocks, hsame.poolSz, hsame.added⟩
  rw [hsame.shape]
  change ((((p.removeBlock d lgsz).put d { y with lgsz := y.lgsz - 1 }).put
    (A.add d (one A (y.lgsz - 1))) ⟨0, 0, y.lgsz - 1, false⟩)).shape = _
  rw [shape_put, shape_put, hfree]
  rfl

/-- A free block becomes two. -/
theorem halve_inv (h : Inv A rs k p) (hd : p.shape d = some (lgsz, false)) (hl : lgszMin < lgsz)
    (hok : p.halve A d lgsz = .ok p') : Inv A rs k p' ∧ p'.added = p.added := by
  obtain ⟨-, hshape, hblocks, hpool, hadded⟩ := halve_blocks hd hok
  obtain ⟨-, hmax, -⟩ := h.size d lgsz false hd
  obtain ⟨l, rfl⟩ : ∃ l, lgsz = l + 1 := ⟨lgsz - 1, by unfold lgszMin at hl; omega⟩
  rw [Nat.add_sub_cancel] at hshape hblocks
  have hl31 : l < 31 := by
    unfold lgszMax at hmax
    omega
  have hpow : 2 ^ (l + 1) = 2 ^ l + 2 ^ l := by rw [pow_succ]; ring
  have hpos := Nat.two_pow_pos l
  have hlt := h.lt_space hd
  have hadd : A.add d (one A l) = d + 2 ^ l := by
    rw [one_of_lt hl31]
    exact Nat.mod_eq_of_lt (by omega)
  rw [hadd] at hshape hblocks
  -- nothing begins inside the block
  have hnone : p.shape (d + 2 ^ l) = none := by
    have he := h.apart.eq_none (b := d + 2 ^ l) (extents_of_shape hd) (by omega) (by omega)
      (extents_pos p)
    exact Option.map_eq_none_iff.mp he
  refine ⟨⟨?_, ?_, ?_, ?_, ?_, h.space⟩, hadded⟩
  · have hext : p'.extents = Function.update (Function.update p.extents d (some (2 ^ l))) (d + 2 ^ l)
        (some (2 ^ l)) := by
      funext b
      unfold extents
      rw [hshape]
      by_cases hb : b = d + 2 ^ l
      · subst hb
        simp
      · by_cases hbd : b = d
        · subst hbd
          rw [Function.update_of_ne hb, Function.update_of_ne hb]
          simp
        · simp [hb, hbd]
    rw [hext]
    refine h.apart.cut ?_ hpos
    rw [extents_of_shape hd, hpow]
  · intro a m u ha
    obtain ⟨r, hr, h1, h2⟩ := h.inside d (l + 1) false hd
    rw [hshape] at ha
    by_cases hb : a = d + 2 ^ l
    · subst hb
      rw [Function.update_self] at ha
      obtain ⟨rfl, -⟩ := Prod.mk.inj (Option.some.inj ha)
      exact ⟨r, hr, by omega, by omega⟩
    · rw [Function.update_of_ne hb] at ha
      by_cases hbd : a = d
      · subst hbd
        rw [Function.update_self] at ha
        obtain ⟨rfl, -⟩ := Prod.mk.inj (Option.some.inj ha)
        exact ⟨r, hr, h1, by omega⟩
      · rw [Function.update_of_ne hbd] at ha
        exact h.inside a m u ha
  · have hlist := ((h.lists.remove hd).put (a := d) l (by simp)).put (a := d + 2 ^ l) l (by simp [hnone])
    rw [Function.update_idem] at hlist
    rw [hshape, hblocks]
    exact hlist
  · have hmem : d ∈ p.blocks (l + 1) := (h.lists.mem _ _).mpr hd
    have hrem := total_removeBlock hmax hmem
    have hl : l ≤ lgszMax := by omega
    have htot : p'.total = ((p.removeBlock d (l + 1)).addBlock d l |>.addBlock (d + 2 ^ l) l).total :=
      congrArg bytes hblocks
    rw [htot, total_addBlock hl, total_addBlock hl, hpool, ← h.sum]
    omega
  · intro a m u ha
    rw [hshape] at ha
    have hnew : lgszMin ≤ l ∧ l ≤ lgszMax ∧ one A l = 2 ^ l := ⟨by omega, by omega, one_of_lt hl31⟩
    by_cases hb : a = d + 2 ^ l
    · subst hb
      rw [Function.update_self] at ha
      obtain ⟨rfl, -⟩ := Prod.mk.inj (Option.some.inj ha)
      exact hnew
    · rw [Function.update_of_ne hb] at ha
      by_cases hbd : a = d
      · subst hbd
        rw [Function.update_self] at ha
        obtain ⟨rfl, -⟩ := Prod.mk.inj (Option.some.inj ha)
        exact hnew
      · rw [Function.update_of_ne hbd] at ha
        exact h.size a m u ha

theorem splitLoop_inv : ∀ {n lgsz : Nat} {p : MemPool} {r : Bool × MemPool}, Inv A rs k p →
    splitLoop A n p lgsz = .ok r → Inv A rs k r.2 ∧ r.2.added = p.added := by
  intro n
  induction n with
  | zero =>
    intro lgsz p r h hok
    obtain rfl := Except.ok.inj hok
    exact ⟨h, rfl⟩
  | succ n ih =>
    intro lgsz p r h hok
    unfold splitLoop at hok
    by_cases hrange : lgsz ≤ lgszMin ∨ lgszMax < lgsz
    · rw [if_pos hrange] at hok
      obtain rfl := Except.ok.inj hok
      exact ⟨h, rfl⟩
    · rw [if_neg hrange] at hok
      obtain ⟨r₁, h₁, hok⟩ := bind_eq_ok.mp hok
      have hinv : Inv A rs k r₁.2 ∧ r₁.2.added = p.added := by
        split_ifs at h₁
        · exact ih h h₁
        · obtain rfl := Except.ok.inj h₁
          exact ⟨h, rfl⟩
      split at hok
      · obtain rfl := Except.ok.inj hok
        exact hinv
      · rename_i d ds hblocks
        obtain ⟨p₂, h₂, hok⟩ := bind_eq_ok.mp hok
        obtain rfl := Except.ok.inj hok
        have hd : r₁.2.shape d = some (lgsz, false) :=
          (hinv.1.lists.mem _ _).mp (by rw [hblocks]; exact List.mem_cons_self)
        obtain ⟨hinv₂, hadded⟩ := halve_inv hinv.1 hd (by omega) h₂
        exact ⟨hinv₂, hadded.trans hinv.2⟩

/-! ## Combining -/

/-- The block that `mate` returns is free and as large as the block itself. -/
theorem mate_spec (hok : p.mate A d = .ok (some (d2, lgsz))) :
    (∃ u, p.shape d = some (lgsz, u)) ∧ p.shape d2 = some (lgsz, false) := by
  unfold mate at hok
  obtain ⟨x1, hx1, hrest⟩ := bind_eq_ok.mp hok
  dsimp only at hrest
  generalize (if isAligned A d (A.add (one A x1.lgsz) (one A x1.lgsz)) = true then x1.regionNext
    else x1.regionPrev) = e at hrest
  split_ifs at hrest
  · cases hrest
  · obtain ⟨x2, hx2, hlast⟩ := bind_eq_ok.mp hrest
    split_ifs at hlast with hdiff
    · cases hlast
    · obtain ⟨rfl, rfl⟩ := Prod.mk.inj (Option.some.inj (Except.ok.inj hlast))
      rw [not_or, not_not, Bool.not_eq_true] at hdiff
      refine ⟨⟨x1.busy, shape_of_descr (read_eq_ok.mp hx1)⟩, ?_⟩
      rw [shape_of_descr (read_eq_ok.mp hx2), hdiff.1, hdiff.2]

/-- The blocks behind `merge`. -/
theorem merge_blocks {u : Bool} (hd : p.shape d1 = some (lgsz, u)) (hok : p.merge d1 d2 lgsz = .ok p') :
    p'.shape = Function.update (Function.update p.shape d1 (some (lgsz + 1, u))) d2 none ∧
      p'.blocks = (((p.removeBlock d1 lgsz).removeBlock d2 lgsz).addBlock d1 (lgsz + 1)).blocks ∧
      p'.poolSz = p.poolSz ∧ p'.added = p.added ∧ lgsz + 1 ≤ lgszMax := by
  unfold merge at hok
  obtain ⟨p₁, h₁, hok⟩ := bind_eq_ok.mp hok
  obtain ⟨p₂, h₂, hok⟩ := bind_eq_ok.mp hok
  obtain ⟨hmax, hok⟩ := ensure_bind_eq_ok.mp hok
  obtain rfl := Except.ok.inj hok
  obtain ⟨x, hx, rfl⟩ := write_eq_ok.mp h₁
  have hsame := removeRegion_same h₂
  have hxs := shape_of_descr hx
  rw [hd] at hxs
  obtain ⟨-, rfl⟩ := Prod.mk.inj (Option.some.inj hxs)
  refine ⟨?_, ?_, hsame.poolSz, hsame.added, hmax⟩
  · rw [shape_forget]
    change Function.update p₂.shape d2 none = _
    rw [hsame.shape, shape_put]
  · have hb : p₂.blocks = p.blocks := hsame.blocks
    unfold forget addBlock removeBlock
    dsimp only
    rw [hb]

/-- Two free blocks of one size, one behind the other in one region, become one. -/
theorem merge_inv (h : Inv A rs k p) (hd1 : p.shape d1 = some (lgsz, false))
    (hd2 : p.shape d2 = some (lgsz, false)) (hnext : d2 = d1 + 2 ^ lgsz)
    (hin : ∃ r ∈ rs, r.1 ≤ d1 ∧ d2 + 2 ^ lgsz ≤ r.2) (hone : one A (lgsz + 1) = 2 ^ (lgsz + 1))
    (hok : p.merge d1 d2 lgsz = .ok p') :
    Inv A rs k p' ∧ p'.shape d1 = some (lgsz + 1, false) ∧ p'.added = p.added := by
  obtain ⟨hshape, hblocks, hpool, hadded, hmax⟩ := merge_blocks hd1 hok
  have hpow : 2 ^ (lgsz + 1) = 2 ^ lgsz + 2 ^ lgsz := by rw [pow_succ]; ring
  have hpos := Nat.two_pow_pos lgsz
  have hne : d1 ≠ d2 := by omega
  have hself : p'.shape d1 = some (lgsz + 1, false) := by
    rw [hshape, Function.update_of_ne hne, Function.update_self]
  have hlookup : ∀ a l u, p'.shape a = some (l, u) → a = d1 ∧ l = lgsz + 1 ∨ p.shape a = some (l, u) := by
    intro a l u ha
    by_cases ha1 : a = d1
    · subst ha1
      rw [hself] at ha
      exact .inl ⟨rfl, (Prod.mk.inj (Option.some.inj ha)).1.symm⟩
    · rw [hshape] at ha
      by_cases ha2 : a = d2
      · subst ha2
        rw [Function.update_self] at ha
        cases ha
      · rw [Function.update_of_ne ha2, Function.update_of_ne ha1] at ha
        exact .inr ha
  refine ⟨⟨?_, ?_, ?_, ?_, ?_, h.space⟩, hself, hadded⟩
  · have hext : p'.extents = Function.update (Function.update p.extents (d1 + 2 ^ lgsz) none) d1
        (some (2 ^ lgsz + 2 ^ lgsz)) := by
      funext b
      unfold extents
      rw [hshape, ← hnext]
      by_cases hb : b = d1
      · subst hb
        simp [hne, hpow]
      · by_cases hb2 : b = d2
        · subst hb2
          simp [hb]
        · simp [hb, hb2]
    rw [hext]
    exact h.apart.join (extents_of_shape hd1) (hnext ▸ extents_of_shape hd2)
  · intro a l u ha
    rcases hlookup a l u ha with ⟨rfl, rfl⟩ | ha
    · obtain ⟨r, hr, h1, h2⟩ := hin
      exact ⟨r, hr, h1, by omega⟩
    · exact h.inside a l u ha
  · have hd2' : Function.update p.shape d1 none d2 = some (lgsz, false) := by
      rw [Function.update_of_ne hne.symm]
      exact hd2
    have hlist := ((h.lists.remove hd1).remove hd2').put (a := d1) (lgsz + 1) ?_
    · have hsh : p'.shape = Function.update (Function.update (Function.update p.shape d1 none) d2 none)
          d1 (some (lgsz + 1, false)) := by
        rw [hshape, Function.update_comm hne]
        funext b
        by_cases hb : b = d1
        · subst hb
          simp
        · by_cases hb2 : b = d2
          · subst hb2
            simp [hb]
          · simp [hb, hb2]
      rw [hsh, hblocks]
      exact hlist
    · intro i
      rw [Function.update_of_ne hne, Function.update_self]
      exact nofun
  · have hmem1 : d1 ∈ p.blocks lgsz := (h.lists.mem _ _).mpr hd1
    have hmem2 : d2 ∈ (p.removeBlock d1 lgsz).blocks lgsz := by
      change d2 ∈ Function.update p.blocks lgsz _ lgsz
      rw [Function.update_self, List.mem_erase_of_ne hne.symm]
      exact (h.lists.mem _ _).mpr hd2
    have hrem1 := total_removeBlock (by omega) hmem1
    have hrem2 := total_removeBlock (by omega) hmem2
    have htot : p'.total = (((p.removeBlock d1 lgsz).removeBlock d2 lgsz).addBlock d1 (lgsz + 1)).total :=
      congrArg bytes hblocks
    rw [htot, total_addBlock hmax, hpool, ← h.sum]
    omega
  · intro a l u ha
    rcases hlookup a l u ha with ⟨rfl, rfl⟩ | ha
    · obtain ⟨hmin, -, -⟩ := h.size _ _ _ hd1
      exact ⟨by omega, hmax, hone⟩
    · exact h.size a l u ha

/-- Each time the block is combined, the block it is combined with is the other half of a larger one in
one region, and the size of that is still right. -/
def MergesOk (A : Arch) : Nat → MemPool → Nat → Prop
  | 0, _, _ => True
  | n + 1, p, d => ∀ d2 lgsz, p.mate A d = .ok (some (d2, lgsz)) →
    (max d d2 = min d d2 + 2 ^ lgsz ∧
      (∃ r ∈ p.added, r.1 ≤ min d d2 ∧ max d d2 + 2 ^ lgsz ≤ r.2) ∧
      one A (lgsz + 1) = 2 ^ (lgsz + 1)) ∧
    ∀ p', p.merge (min d d2) (max d d2) lgsz = .ok p' → MergesOk A n p' (min d d2)

theorem combineLoop_inv : ∀ {n d l : Nat} {p p' : MemPool}, Inv A p.added k p →
    p.shape d = some (l, false) → MergesOk A n p d → combineLoop A n p d = .ok p' →
    Inv A p'.added k p' ∧ p'.added = p.added := by
  intro n
  induction n with
  | zero =>
    intro d l p p' _ _ _ hok
    cases hok
  | succ n ih =>
    intro d l p p' h hd hm hok
    unfold combineLoop at hok
    obtain ⟨r, hr, hrest⟩ := bind_eq_ok.mp hok
    split at hrest
    · obtain rfl := Except.ok.inj hrest
      exact ⟨h, rfl⟩
    · rename_i d2 lgsz
      obtain ⟨p₁, h₁, hlast⟩ := bind_eq_ok.mp hrest
      obtain ⟨⟨hnext, hin, hone⟩, hm⟩ := hm d2 lgsz hr
      obtain ⟨⟨u, hdu⟩, hd2⟩ := mate_spec hr
      rw [hd] at hdu
      obtain ⟨rfl, -⟩ := Prod.mk.inj (Option.some.inj hdu)
      -- both blocks are free and of the same size, whichever is the left one
      have hboth : p.shape (min d d2) = some (l, false) ∧ p.shape (max d d2) = some (l, false) := by
        rcases Nat.le_total d d2 with hle | hle
        · rw [min_eq_left hle, max_eq_right hle]
          exact ⟨hd, hd2⟩
        · rw [min_eq_right hle, max_eq_left hle]
          exact ⟨hd2, hd⟩
      obtain ⟨hinv, hself, hadded⟩ := merge_inv h hboth.1 hboth.2 hnext hin hone h₁
      rw [← hadded] at hinv
      obtain ⟨hinv', hadded'⟩ := ih hinv hself (hm p₁ h₁) hlast
      exact ⟨hinv', hadded'.trans hadded⟩

/-! ## Adding a region -/

/-- The logarithm that the loop of `find_max_block` returns. -/
theorem findMaxFrom_spec {addr sz : Nat} : ∀ {n : Nat}, findMaxFrom A addr sz n ≠ 0 →
    ∃ i < n, findMaxFrom A addr sz n = lgszMin + i ∧ one A (lgszMin + i) ≤ sz ∧
      isAligned A addr (one A (lgszMin + i)) = true
  | 0, h => absurd rfl h
  | n + 1, h => by
    unfold findMaxFrom at h ⊢
    dsimp only at h ⊢
    split_ifs at h ⊢ with hc
    · exact ⟨n, Nat.lt_succ_self n, rfl, hc.1, hc.2.1⟩
    · obtain ⟨i, hi, hspec⟩ := findMaxFrom_spec h
      exact ⟨i, Nat.lt_succ_of_lt hi, hspec⟩

theorem land_low {a b m : Nat} (h : a &&& b = 0) (hb : b % 2 ^ m = 2 ^ m - 1) : a % 2 ^ m = 0 := by
  have hmod : (a % 2 ^ m) &&& (b % 2 ^ m) = 0 := by rw [← Nat.and_mod_two_pow, h, Nat.zero_mod]
  rwa [hb, Nat.and_two_pow_sub_one_eq_mod, Nat.mod_mod] at hmod

/-- A block that `find_max_block` finds is one: the size with the sign in it is never chosen. -/
theorem findMaxBlock_spec {start stop : Nat} (h0 : 0 < start) (hle : start ≤ stop)
    (hstop : stop < 2 ^ A.wordBits) (h : findMaxBlock A start (A.sub stop start) ≠ 0) :
    lgszMin ≤ findMaxBlock A start (A.sub stop start) ∧
      findMaxBlock A start (A.sub stop start) ≤ lgszMax ∧
      one A (findMaxBlock A start (A.sub stop start)) = 2 ^ findMaxBlock A start (A.sub stop start) ∧
      start + 2 ^ findMaxBlock A start (A.sub stop start) ≤ stop := by
  have hsub : A.sub stop start = stop - start := by
    unfold Arch.sub
    have he : stop + (2 ^ A.wordBits - start) = stop - start + 2 ^ A.wordBits := by omega
    rw [he, Nat.add_mod_right, Nat.mod_eq_of_lt (by omega)]
  rw [hsub] at h ⊢
  unfold findMaxBlock at h ⊢
  obtain ⟨i, hi, hmax, hsz, hal⟩ := findMaxFrom_spec h
  rw [hmax]
  have hrange : lgszMin + i ≤ lgszMax := by
    unfold lgszMin lgszMax at *
    omega
  have hone : one A (lgszMin + i) = 2 ^ (lgszMin + i) := by
    by_cases hlt : lgszMin + i < 31
    · exact one_of_lt hlt
    · have hi31 : lgszMin + i = 31 := by
        unfold lgszMax at hrange
        omega
      rw [hi31] at hsz hal ⊢
      -- with 64 bits the size is so large that the start, which is aligned to it, would be 0
      cases A with
      | x86_64 =>
        exfalso
        have hval : one .x86_64 31 = 2 ^ 64 - 2 ^ 31 := rfl
        rw [hval] at hsz hal
        have hstart : start % 2 ^ 31 = 0 := land_low (beq_iff_eq.mp hal) (by decide)
        change stop < 2 ^ 64 at hstop
        omega
      | sparc => rfl
      | arm => rfl
      | x86 => rfl
  refine ⟨Nat.le_add_right _ _, hrange, hone, ?_⟩
  rw [hone] at hsz
  omega

/-- The blocks behind one round of `add`. -/
theorem addOne_blocks {prev start : Nat} (hok : p.addOne A prev start lgsz = .ok p') :
    p'.shape = Function.update p.shape start (some (lgsz, false)) ∧
      p'.blocks = (p.addBlock start lgsz).blocks ∧ p'.poolSz = p.poolSz + one A lgsz ∧
      p'.added = p.added := by
  unfold addOne at hok
  obtain ⟨p₁, h₁, hrest⟩ := bind_eq_ok.mp hok
  obtain ⟨p₂, h₂, hlast⟩ := bind_eq_ok.mp hrest
  obtain ⟨-, hput⟩ := ensure_bind_eq_ok.mp h₁
  obtain rfl := Except.ok.inj hput
  have hsame : SameBlocks (p.put start ⟨0, 0, lgsz, false⟩) p₂ := by
    split_ifs at h₂
    · obtain rfl := Except.ok.inj h₂
      exact ⟨rfl, rfl, rfl, rfl⟩
    · exact insertRegionAfter_same h₂
  obtain rfl := Except.ok.inj hlast
  refine ⟨?_, ?_, ?_, hsame.added⟩
  · change p₂.shape = _
    rw [hsame.shape, shape_put]
  · change (p₂.addBlock start lgsz).blocks = _
    unfold addBlock
    dsimp only
    rw [hsame.blocks]
    rfl
  · change p₂.poolSz + _ = _
    rw [hsame.poolSz]
    rfl

/-- A block is put into a gap of the regions. -/
theorem addOne_inv {prev start : Nat} (h : Inv A rs k p) (hmin : lgszMin ≤ lgsz) (hmax : lgsz ≤ lgszMax)
    (hone : one A lgsz = 2 ^ lgsz) (hin : ∃ r ∈ rs, r.1 ≤ start ∧ start + 2 ^ lgsz ≤ r.2)
    (hgap : ∀ a l u, p.shape a = some (l, u) → a + 2 ^ l ≤ start ∨ start + 2 ^ lgsz ≤ a)
    (hok : p.addOne A prev start lgsz = .ok p') : Inv A rs k p' := by
  obtain ⟨hshape, hblocks, hpool, -⟩ := addOne_blocks hok
  have hnone : p.shape start = none := by
    cases hs : p.shape start with
    | none => rfl
    | some t =>
      have h1 := Nat.two_pow_pos t.1
      have h2 := Nat.two_pow_pos lgsz
      rcases hgap start t.1 t.2 hs with h3 | h3 <;> omega
  have hlookup : ∀ a l u, p'.shape a = some (l, u) → a = start ∧ l = lgsz ∨ p.shape a = some (l, u) := by
    intro a l u ha
    rw [hshape] at ha
    by_cases has : a = start
    · subst has
      rw [Function.update_self] at ha
      exact .inl ⟨rfl, (Prod.mk.inj (Option.some.inj ha)).1.symm⟩
    · rw [Function.update_of_ne has] at ha
      exact .inr ha
  refine ⟨?_, ?_, ?_, ?_, ?_, h.space⟩
  · have hext : p'.extents = Function.update p.extents start (some (2 ^ lgsz)) := by
      funext b
      unfold extents
      rw [hshape]
      by_cases hb : b = start
      · subst hb
        simp
      · simp [hb]
    rw [hext]
    refine h.apart.insert fun b t hb _ => ?_
    obtain ⟨l, u, hs, rfl⟩ := shape_of_extents hb
    exact (hgap b l u hs).symm
  · intro a l u ha
    rcases hlookup a l u ha with ⟨rfl, rfl⟩ | ha
    · exact hin
    · exact h.inside a l u ha
  · rw [hshape, hblocks]
    exact h.lists.put _ (by simp [hnone])
  · have htot : p'.total = (p.addBlock start lgsz).total := congrArg bytes hblocks
    rw [htot, total_addBlock hmax, h.sum, hpool, hone]
    omega
  · intro a l u ha
    rcases hlookup a l u ha with ⟨rfl, rfl⟩ | ha
    · exact ⟨hmin, hmax, hone⟩
    · exact h.size a l u ha

theorem addLoop_inv {stop : Nat} {r : Nat × Nat} (hr : r ∈ rs) (hstop : stop ≤ r.2) :
    ∀ {n prev start : Nat} {p p' : MemPool}, Inv A rs k p → 0 < start → start ≤ stop → r.1 ≤ start →
    (∀ a l u, p.shape a = some (l, u) → a + 2 ^ l ≤ start ∨ stop ≤ a) →
    addLoop A stop n p prev start = .ok p' → Inv A rs k p' ∧ p'.added = p.added := by
  intro n
  induction n with
  | zero =>
    intro prev start p p' _ _ _ _ _ hok
    cases hok
  | succ n ih =>
    intro prev start p p' h h0 hle hbelow hgap hok
    have hspace : stop < 2 ^ A.wordBits := Nat.lt_of_le_of_lt hstop (h.space r hr)
    unfold addLoop at hok
    dsimp only at hok
    split_ifs at hok with hzero
    · obtain rfl := Except.ok.inj hok
      exact ⟨h, rfl⟩
    · obtain ⟨p₁, h₁, hok⟩ := bind_eq_ok.mp hok
      obtain ⟨hmin, hmax, hone, hend⟩ := findMaxBlock_spec h0 hle hspace hzero
      set lgsz := findMaxBlock A start (A.sub stop start)
      have hpos := Nat.two_pow_pos lgsz
      obtain ⟨hshape, -, -, hadded⟩ := addOne_blocks h₁
      have hinv : Inv A rs k p₁ := by
        refine addOne_inv h hmin hmax hone ⟨r, hr, hbelow, by omega⟩ (fun a l u ha => ?_) h₁
        rcases hgap a l u ha with h1 | h1
        · exact .inl h1
        · exact .inr (by omega)
      have hadd : A.add start (one A lgsz) = start + 2 ^ lgsz := by
        rw [hone]
        exact Nat.mod_eq_of_lt (by omega)
      rw [hadd] at hok
      have hgap₁ : ∀ a l u, p₁.shape a = some (l, u) → a + 2 ^ l ≤ start + 2 ^ lgsz ∨ stop ≤ a := by
        intro a l u ha
        rw [hshape] at ha
        by_cases has : a = start
        · subst has
          rw [Function.update_self] at ha
          obtain ⟨rfl, -⟩ := Prod.mk.inj (Option.some.inj ha)
          exact .inl (Nat.le_refl _)
        · rw [Function.update_of_ne has] at ha
          rcases hgap a l u ha with h1 | h1
          · exact .inl (by omega)
          · exact .inr h1
      obtain ⟨hinv', hadded'⟩ := ih hinv (by omega) hend (by omega) hgap₁ hok
      exact ⟨hinv', hadded'.trans hadded⟩

/-- The region is not empty, ends before the end of the address space, and meets no region that was
added before. -/
def AddOk (A : Arch) (p : MemPool) (buf sz : Nat) : Prop :=
  0 < buf ∧ buf + sz + 2 ^ lgszMin ≤ 2 ^ A.wordBits ∧
    ∀ r ∈ p.added, r.2 ≤ buf ∨ buf + sz ≤ r.1

theorem add_inv {buf sz : Nat} {r : Bool × MemPool} (h : Inv A p.added 0 p) (hcond : AddOk A p buf sz)
    (hok : p.add A buf sz = .ok r) : Inv A r.2.added 0 r.2 := by
  obtain ⟨h0, hend, hdisj⟩ := hcond
  unfold add at hok
  dsimp only at hok
  split_ifs at hok with hempty
  · obtain rfl := Except.ok.inj hok
    exact h
  · obtain ⟨place, -, hrest⟩ := bind_eq_ok.mp hok
    obtain ⟨p₁, hloop, hlast⟩ := bind_eq_ok.mp hrest
    obtain rfl := Except.ok.inj hlast
    -- the rounded region lies in the region
    have hmin : 2 ^ lgszMin = 32 := rfl
    have hstart : roundUp A buf = (buf + 31) / 32 * 32 := by
      unfold roundUp Arch.add
      rw [hmin, Nat.mod_eq_of_lt (by omega)]
    have hstop : roundDown (A.add buf sz) = (buf + sz) / 32 * 32 := by
      unfold roundDown Arch.add
      rw [hmin, Nat.mod_eq_of_lt (by omega)]
    rw [hstart, hstop] at hempty hloop
    have hinv : Inv A ((buf, buf + sz) :: p.added) 0 p := by
      refine ⟨h.apart, fun a l u ha => ?_, h.lists, h.sum, h.size, fun r hr => ?_⟩
      · obtain ⟨r, hr, hin⟩ := h.inside a l u ha
        exact ⟨r, List.mem_cons_of_mem _ hr, hin⟩
      · rcases List.mem_cons.mp hr with rfl | hr
        · dsimp only
          omega
        · exact h.space r hr
    have hgap : ∀ a l u, p.shape a = some (l, u) →
        a + 2 ^ l ≤ (buf + 31) / 32 * 32 ∨ (buf + sz) / 32 * 32 ≤ a := by
      intro a l u ha
      obtain ⟨r, hr, h1, h2⟩ := h.inside a l u ha
      rcases hdisj r hr with h3 | h3
      · exact .inl (by omega)
      · exact .inr (by omega)
    obtain ⟨hinv', hadded⟩ := addLoop_inv (r := (buf, buf + sz)) List.mem_cons_self
      (by dsimp only; omega) hinv (by omega) (by omega) (by dsimp only; omega) hgap hloop
    have hfinal : Inv A ((buf, buf + sz) :: p₁.added) 0 p₁ := hadded ▸ hinv'
    exact ⟨hfinal.apart, hfinal.inside, hfinal.lists, hfinal.sum, hfinal.size, hfinal.space⟩

/-! ## Allocating and freeing -/

/-- A free block is taken. -/
theorem take_inv (h : Inv A rs 0 p) (hd : p.shape d = some (lgsz, false))
    (hok : p.take A d lgsz = .ok p') : Inv A rs 0 p' ∧ p'.added = p.added := by
  unfold take at hok
  obtain ⟨p₁, h₁, hrest⟩ := bind_eq_ok.mp hok
  obtain ⟨y, hy, hlast⟩ := bind_eq_ok.mp hrest
  obtain ⟨x, hx, rfl⟩ := write_eq_ok.mp h₁
  have hxs := shape_of_descr (p := p) hx
  rw [hd] at hxs
  obtain ⟨hxl, -⟩ := Prod.mk.inj (Option.some.inj hxs)
  obtain rfl : y = { x with busy := true } := by
    have hy' := read_eq_ok.mp hy
    have hself : ((p.removeBlock d lgsz).put d { x with busy := true }).descr d =
        some { x with busy := true } := Function.update_self d _ _
    exact Option.some.inj (hy'.symm.trans hself)
  obtain rfl := Except.ok.inj hlast
  obtain ⟨hmin, hmax, hone⟩ := h.size d lgsz false hd
  have hmem : d ∈ p.blocks lgsz := (h.lists.mem _ _).mpr hd
  have hrem := total_removeBlock hmax hmem
  have hsum := h.sum
  have hshape : ((p.removeBlock d lgsz).put d { x with busy := true }).shape =
      Function.update p.shape d (some (lgsz, true)) := by
    rw [shape_put, ← hxl]
    rfl
  have hlookup : ∀ a l u, Function.update p.shape d (some (lgsz, true)) a = some (l, u) →
      ∃ v, p.shape a = some (l, v) := by
    intro a l u ha
    by_cases had : a = d
    · subst had
      rw [Function.update_self] at ha
      obtain ⟨rfl, -⟩ := Prod.mk.inj (Option.some.inj ha)
      exact ⟨false, hd⟩
    · rw [Function.update_of_ne had] at ha
      exact ⟨u, ha⟩
  refine ⟨⟨?_, fun a l u ha => ?_, ?_, ?_, fun a l u ha => ?_, h.space⟩, rfl⟩
  · have hext : ((p.removeBlock d lgsz).put d { x with busy := true }).extents = p.extents := by
      funext b
      unfold extents
      rw [hshape]
      by_cases hb : b = d
      · subst hb
        simp [hd]
      · simp [hb]
    change ((p.removeBlock d lgsz).put d { x with busy := true }).extents.Apart
    rw [hext]
    exact h.apart
  · change ((p.removeBlock d lgsz).put d { x with busy := true }).shape a = some (l, u) at ha
    rw [hshape] at ha
    obtain ⟨v, hv⟩ := hlookup a l u ha
    exact h.inside a l v hv
  · change Listed ((p.removeBlock d lgsz).put d { x with busy := true }).shape _
    rw [hshape]
    have hlist := (h.lists.remove hd).putBusy (a := d) lgsz (Function.update_self d _ _)
    rwa [Function.update_idem] at hlist
  · change (p.removeBlock d lgsz).total = p.poolSz - one A x.lgsz + 0
    rw [← hxl, hone]
    omega
  · change ((p.removeBlock d lgsz).put d { x with busy := true }).shape a = some (l, u) at ha
    rw [hshape] at ha
    obtain ⟨v, hv⟩ := hlookup a l u ha
    exact h.size a l v hv

theorem allocBlock_inv {r : Option Nat × MemPool} (h : Inv A p.added 0 p)
    (hok : p.allocBlock A lgsz = .ok r) : Inv A r.2.added 0 r.2 := by
  unfold allocBlock at hok
  dsimp only at hok
  by_cases hlarge : lgszMax < lgsz
  · rw [if_pos hlarge] at hok
    obtain rfl := Except.ok.inj hok
    exact h
  rw [if_neg hlarge] at hok
  by_cases hnomem : p.poolSz < one A (max lgsz lgszMin)
  · rw [if_pos hnomem] at hok
    obtain rfl := Except.ok.inj hok
    exact h
  · rw [if_neg hnomem] at hok
    obtain ⟨r₁, h₁, hrest⟩ := bind_eq_ok.mp hok
    have hinv : Inv A p.added 0 r₁.2 ∧ r₁.2.added = p.added := by
      split_ifs at h₁
      · exact splitLoop_inv h h₁
      · obtain rfl := Except.ok.inj h₁
        exact ⟨h, rfl⟩
    split at hrest
    · obtain rfl := Except.ok.inj hrest
      exact hinv.2 ▸ hinv.1
    · rename_i d ds hblocks
      obtain ⟨p₂, h₂, hlast⟩ := bind_eq_ok.mp hrest
      obtain rfl := Except.ok.inj hlast
      have hd : r₁.2.shape d = some (max lgsz lgszMin, false) :=
        (hinv.1.lists.mem _ _).mp (by rw [hblocks]; exact List.mem_cons_self)
      obtain ⟨hinv₂, hadded⟩ := take_inv hinv.1 hd h₂
      exact (hadded.trans hinv.2) ▸ hinv₂

theorem alloc_inv {sz : Nat} {r : Option Nat × MemPool} (h : Inv A p.added 0 p)
    (hok : p.alloc A sz = .ok r) : Inv A r.2.added 0 r.2 := by
  unfold alloc at hok
  split_ifs at hok
  · obtain rfl := Except.ok.inj hok
    exact h
  · obtain ⟨r₁, h₁, hrest⟩ := bind_eq_ok.mp hok
    obtain rfl := Except.ok.inj hrest
    exact allocBlock_inv (r := r₁) h h₁

/-- A block in use is freed: before it is combined its bytes are on the lists, but not counted. -/
theorem release_inv {l : Nat} (h : Inv A rs 0 p) (hx : p.descr d = some x) (hbusy : x.busy = true)
    (hl : x.lgsz = l) (hok : p.release d x = .ok p') :
    Inv A rs (2 ^ l) p' ∧ p'.shape d = some (l, false) ∧ p'.added = p.added := by
  unfold release at hok
  obtain ⟨y, hy, rfl⟩ := write_eq_ok.mp hok
  obtain rfl : y = x := Option.some.inj (hy.symm.trans hx)
  have hd : p.shape d = some (l, true) := by rw [shape_of_descr hx, hbusy, hl]
  obtain ⟨hmin, hmax, hone⟩ := h.size d l true hd
  have hsum := h.sum
  have hshape : ((p.addBlock d y.lgsz).put d { y with busy := false }).shape =
      Function.update p.shape d (some (l, false)) := by
    rw [shape_put, ← hl]
    rfl
  have hlookup : ∀ a m u, Function.update p.shape d (some (l, false)) a = some (m, u) →
      ∃ v, p.shape a = some (m, v) := by
    intro a m u ha
    by_cases had : a = d
    · subst had
      rw [Function.update_self] at ha
      obtain ⟨rfl, -⟩ := Prod.mk.inj (Option.some.inj ha)
      exact ⟨true, hd⟩
    · rw [Function.update_of_ne had] at ha
      exact ⟨u, ha⟩
  refine ⟨⟨?_, fun a m u ha => ?_, ?_, ?_, fun a m u ha => ?_, h.space⟩, ?_, rfl⟩
  · have hext : ((p.addBlock d y.lgsz).put d { y with busy := false }).extents = p.extents := by
      funext b
      unfold extents
      rw [hshape]
      by_cases hb : b = d
      · subst hb
        simp [hd]
      · simp [hb]
    rw [hext]
    exact h.apart
  · rw [hshape] at ha
    obtain ⟨v, hv⟩ := hlookup a m u ha
    exact h.inside a m v hv
  · rw [hshape]
    subst hl
    exact h.lists.put _ (by simp [hd])
  · change (p.addBlock d y.lgsz).total = p.poolSz + 2 ^ l
    rw [hl, total_addBlock hmax]
    omega
  · rw [hshape] at ha
    obtain ⟨v, hv⟩ := hlookup a m u ha
    exact h.size a m v hv
  · rw [hshape, Function.update_self]

/-- The pointer is that of a block in use, and what `combine` combines it with is the other half each
time. -/
def FreeOk (A : Arch) (p : MemPool) (ptr : Nat) : Prop :=
  ptr = 0 ∨ ∃ x, p.descr (A.sub ptr (descrSz A)) = some x ∧ x.busy = true ∧
    ∀ p', p.release (A.sub ptr (descrSz A)) x = .ok p' →
      MergesOk A (lgszMax + 1) p' (A.sub ptr (descrSz A))

theorem free_inv {ptr : Nat} {r : Nat × MemPool} (h : Inv A p.added 0 p) (hcond : FreeOk A p ptr)
    (hok : p.free A ptr = .ok r) : Inv A r.2.added 0 r.2 ∧ r.2.added = p.added := by
  unfold free at hok
  by_cases hnull : ptr = 0
  · rw [if_pos hnull] at hok
    obtain rfl := Except.ok.inj hok
    exact ⟨h, rfl⟩
  rw [if_neg hnull] at hok
  obtain ⟨x, hx, hbusy, hmerges⟩ := hcond.resolve_left hnull
  unfold freeBlock at hok
  obtain ⟨y, hy, hrest⟩ := bind_eq_ok.mp hok
  obtain rfl : y = x := Option.some.inj ((read_eq_ok.mp hy).symm.trans hx)
  obtain ⟨-, hrest⟩ := ensure_bind_eq_ok.mp hrest
  by_cases hrange : y.lgsz < lgszMin ∨ lgszMax < y.lgsz
  · rw [if_pos hrange] at hrest
    obtain rfl := Except.ok.inj hrest
    exact ⟨h, rfl⟩
  rw [if_neg hrange] at hrest
  obtain ⟨p₁, hrel, hrest⟩ := bind_eq_ok.mp hrest
  obtain ⟨p₂, hcomb, hlast⟩ := bind_eq_ok.mp hrest
  obtain rfl := Except.ok.inj hlast
  obtain ⟨hinv₁, hfree, hadded⟩ := release_inv h hx hbusy rfl hrel
  rw [← hadded] at hinv₁
  obtain ⟨hinv₂, hadded₂⟩ := combineLoop_inv hinv₁ hfree (hmerges p₁ hrel) hcomb
  have hone := (h.size _ _ _ (shape_of_descr hx)).2.2
  refine ⟨⟨hinv₂.apart, hinv₂.inside, hinv₂.lists, ?_, hinv₂.size, hinv₂.space⟩, hadded₂.trans hadded⟩
  have hsum := hinv₂.sum
  change p₂.total = p₂.poolSz + one A y.lgsz + 0
  omega

/-! ## Runs -/

/-- How the pool is used: the regions that are added are disjoint, and the blocks that are freed are in
use and combined with their other halves. -/
def UsedWell (A : Arch) (p : MemPool) : Op → Prop
  | .add buf sz => AddOk A p buf sz
  | .alloc _ => True
  | .free ptr => FreeOk A p ptr

theorem step_inv {op : Op} (h : Inv A p.added 0 p) (hcond : UsedWell A p op)
    (hok : p.step A op = .ok p') : Inv A p'.added 0 p' := by
  cases op with
  | add buf sz =>
    obtain ⟨r, hr, rfl⟩ := map_eq_ok hok
    exact add_inv h hcond hr
  | alloc sz =>
    obtain ⟨r, hr, rfl⟩ := map_eq_ok hok
    exact alloc_inv h hr
  | free ptr =>
    obtain ⟨r, hr, rfl⟩ := map_eq_ok hok
    exact (free_inv h hcond hr).1

theorem inv_init (A : Arch) : Inv A init.added 0 init where
  apart := nofun
  inside := nofun
  lists := ⟨fun _ _ => iff_of_false List.not_mem_nil nofun, fun _ => List.nodup_nil⟩
  sum := by decide
  size := nofun
  space := nofun

/-- **The memory pool**, after any sequence of calls in which blocks are combined with their other
halves only: blocks in use and free blocks do not overlap, each lies in one region, the lists hold
exactly the free blocks by their sizes, and the recorded size is their sum. -/
theorem run_safe {es : List Op} (hcond : Meets (step A) (UsedWell A) init es)
    (hok : runAll (step A) init es = .ok p) : Safe p := by
  have hinv : Inv A p.added 0 p :=
    runAll_invariant (I := fun p => Inv A p.added 0 p)
      (fun _ _ _ h hc ho => step_inv h hc ho) (inv_init A) hcond hok
  exact hinv.safe

instance decidableMergesOk (A : Arch) : ∀ n p d, Decidable (MergesOk A n p d)
  | 0, _, _ => isTrue trivial
  | n + 1, p, d =>
    match hmate : p.mate A d with
    | .error _ => isTrue fun _ _ h => nomatch hmate.symm.trans h
    | .ok none => isTrue fun _ _ h => nomatch hmate.symm.trans h
    | .ok (some (d2, lgsz)) =>
      match hmerge : p.merge (min d d2) (max d d2) lgsz with
      | .error _ =>
        decidable_of_iff (max d d2 = min d d2 + 2 ^ lgsz ∧
            (∃ r ∈ p.added, r.1 ≤ min d d2 ∧ max d d2 + 2 ^ lgsz ≤ r.2) ∧
            one A (lgsz + 1) = 2 ^ (lgsz + 1)) <| by
          constructor
          · rintro h _ _ hm
            obtain ⟨rfl, rfl⟩ := Prod.mk.inj (Option.some.inj (Except.ok.inj (hmate.symm.trans hm)))
            exact ⟨h, fun _ hp => nomatch hmerge.symm.trans hp⟩
          · exact fun h => (h d2 lgsz hmate).1
      | .ok p' =>
        have := decidableMergesOk A n p' (min d d2)
        decidable_of_iff ((max d d2 = min d d2 + 2 ^ lgsz ∧
            (∃ r ∈ p.added, r.1 ≤ min d d2 ∧ max d d2 + 2 ^ lgsz ≤ r.2) ∧
            one A (lgsz + 1) = 2 ^ (lgsz + 1)) ∧ MergesOk A n p' (min d d2)) <| by
          constructor
          · rintro ⟨h, hrec⟩ _ _ hm
            obtain ⟨rfl, rfl⟩ := Prod.mk.inj (Option.some.inj (Except.ok.inj (hmate.symm.trans hm)))
            refine ⟨h, fun q hq => ?_⟩
            obtain rfl := Except.ok.inj (hmerge.symm.trans hq)
            exact hrec
          · exact fun h => ⟨(h d2 lgsz hmate).1, (h d2 lgsz hmate).2 p' hmerge⟩

instance (A : Arch) (p : MemPool) (ptr : Nat) : Decidable (FreeOk A p ptr) :=
  match hx : p.descr (A.sub ptr (descrSz A)) with
  | none => decidable_of_iff (ptr = 0) ⟨.inl, fun h => h.resolve_right fun ⟨_, hx', _⟩ =>
      nomatch hx.symm.trans hx'⟩
  | some x =>
    match hrel : p.release (A.sub ptr (descrSz A)) x with
    | .error _ => decidable_of_iff (ptr = 0 ∨ x.busy = true) <| by
        refine or_congr_right ⟨fun hb => ⟨x, hx, hb, fun _ h => nomatch hrel.symm.trans h⟩, ?_⟩
        rintro ⟨y, hy, hb, -⟩
        obtain rfl := Option.some.inj (hx.symm.trans hy)
        exact hb
    | .ok p' => decidable_of_iff
        (ptr = 0 ∨ x.busy = true ∧ MergesOk A (lgszMax + 1) p' (A.sub ptr (descrSz A))) <| by
        refine or_congr_right ⟨?_, ?_⟩
        · rintro ⟨hb, hm⟩
          refine ⟨x, hx, hb, fun q hq => ?_⟩
          obtain rfl := Except.ok.inj (hrel.symm.trans hq)
          exact hm
        · rintro ⟨y, hy, hb, hm⟩
          obtain rfl := Option.some.inj (hx.symm.trans hy)
          exact ⟨hb, hm p' hrel⟩

instance (A : Arch) (p : MemPool) (buf sz : Nat) : Decidable (AddOk A p buf sz) := by
  unfold AddOk
  infer_instance

instance (A : Arch) (p : MemPool) : ∀ op, Decidable (UsedWell A p op)
  | .add buf sz => inferInstanceAs (Decidable (AddOk A p buf sz))
  | .alloc _ => isTrue trivial
  | .free ptr => inferInstanceAs (Decidable (FreeOk A p ptr))

/-- One region: two blocks are cut out of it and combined again. -/
theorem oneRegion_safe : ∃ p, runAll (step .sparc) init
    [.add 0x2000 0x1000, .alloc 40, .alloc 40, .free 0x2fd8, .free 0x2f98] = .ok p ∧
      p.blocks 12 = [0x2000] ∧ Safe p := by
  have hrun : (match runAll (step .sparc) init
      [.add 0x2000 0x1000, .alloc 40, .alloc 40, .free 0x2fd8, .free 0x2f98] with
      | .ok p => decide (p.blocks 12 = [0x2000])
      | .error _ => false) = true := by decide +kernel
  split at hrun
  · rename_i p hp
    exact ⟨p, hp, of_decide_eq_true hrun, run_safe (by decide +kernel) hp⟩
  · cases hrun

/-- Two regions of one page: the page of the second is taken and freed, and combined with the page of
the first, although the two do not touch.  The free block then ends behind the region. -/
theorem twoRegions_combined : ∃ p, runAll (step .sparc) init
    [.add 0x2000 0x1000, .add 0x5000 0x1000, .alloc 4000, .free 0x5018] = .ok p ∧ ¬ Safe p := by
  have hrun : (match runAll (step .sparc) init
      [.add 0x2000 0x1000, .add 0x5000 0x1000, .alloc 4000, .free 0x5018] with
      | .ok p => decide (p.shape 0x2000 = some (13, false) ∧
          p.added = [(0x5000, 0x6000), (0x2000, 0x3000)])
      | .error _ => false) = true := by decide +kernel
  split at hrun
  · rename_i p hp
    obtain ⟨hshape, hadded⟩ := of_decide_eq_true hrun
    refine ⟨p, hp, fun h => ?_⟩
    obtain ⟨r, hr, h1, h2⟩ := h.inside _ _ _ hshape
    rw [hadded] at hr
    rcases List.mem_cons.mp hr with rfl | hr
    · omega
    · obtain rfl := List.mem_singleton.mp hr
      omega
  · cases hrun

end MemPool

end Wrmos
