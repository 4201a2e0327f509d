import Wrmos.MemoryPoolSpec

/-!
# What an allocation of the memory pool returns

`alloc_block` answers with a block exactly when there is a free block of the size or of a larger one
(`Offers`): `split` then leaves one in the list, and the size of the pool is at least that of the block.
The block was free or is cut out of one that was (`Within`).  Nothing changes when there is none.

That the call ends at all needs the descriptor to fit into the blocks that are made: the size that `alloc`
asks for is large enough unless its sum wraps around.
-/

namespace Wrmos
namespace MemPool

open Lib (bind_eq_ok ensure_bind_eq_ok ensure_bind_of)

variable {A : Arch} {p p' : MemPool} {rs : List (Nat × Nat)} {a d k l lgsz n : Nat} {x : Descr}

/-- There is a free block of at least `2 ^ lgsz` bytes. -/
def Offers (p : MemPool) (lgsz : Nat) : Prop := ∃ j, lgsz ≤ j ∧ p.blocks j ≠ []

/-- The block of `2 ^ l` bytes at `a` lies in a free block. -/
def Within (p : MemPool) (a l : Nat) : Prop :=
  ∃ b m, p.shape b = some (m, false) ∧ b ≤ a ∧ a + 2 ^ l ≤ b + 2 ^ m

theorem within_self (h : p.shape a = some (l, false)) : p.Within a l := ⟨a, l, h, le_rfl, le_rfl⟩

/-- Every free block of `p'` lies in a free block of `p`. -/
def Cut (p p' : MemPool) : Prop := ∀ a l, p'.shape a = some (l, false) → p.Within a l

theorem Cut.refl (p : MemPool) : Cut p p := fun _ _ => within_self

theorem Cut.trans {p₁ : MemPool} (h : Cut p p₁) (h' : Cut p₁ p') : Cut p p' := by
  intro a l ha
  obtain ⟨b, m, hb, hlo, hhi⟩ := h' a l ha
  obtain ⟨c, n, hc, hlo', hhi'⟩ := h b m hb
  exact ⟨c, n, hc, hlo'.trans hlo, hhi.trans hhi'⟩

theorem exists_descr {u : Bool} (h : p.shape a = some (l, u)) :
    ∃ x, p.descr a = some x ∧ x.lgsz = l ∧ x.busy = u := by
  obtain ⟨x, hx, hxl⟩ := Option.map_eq_some_iff.mp h
  obtain ⟨hl, hu⟩ := Prod.mk.inj hxl
  exact ⟨x, hx, hl, hu⟩

/-! ## The sizes on offer -/

/-- The block at the head of a list. -/
theorem Inv.head (h : Inv A rs k p) (hj : p.blocks n ≠ []) : ∃ d, p.shape d = some (n, false) := by
  obtain ⟨d, hd⟩ := List.exists_mem_of_ne_nil _ hj
  exact ⟨d, (h.lists.mem n d).mp hd⟩

/-- A list that is not empty counts. -/
theorem two_pow_le_total (hn : n ≤ lgszMax) (hj : p.blocks n ≠ []) : 2 ^ n ≤ p.total := by
  have hlen : 1 ≤ (p.blocks n).length := List.length_pos_of_ne_nil hj
  have hmem : n ∈ Finset.range (lgszMax + 1) := Finset.mem_range.mpr (by omega)
  unfold total bytes
  rw [← Finset.add_sum_erase _ _ hmem]
  exact (Nat.le_mul_of_pos_left _ hlen).trans (Nat.le_add_right _ _)

/-- A pool that has a block on offer is as large as the block asked for. -/
theorem Inv.one_le_poolSz (h : Inv A rs 0 p) (hoff : p.Offers lgsz) :
    lgsz ≤ lgszMax ∧ one A lgsz ≤ p.poolSz := by
  obtain ⟨j, hj, hne⟩ := hoff
  obtain ⟨d, hd⟩ := h.head hne
  obtain ⟨-, hmax, hone⟩ := h.size d j false hd
  have hsum : p.total = p.poolSz := h.sum
  have htotal := two_pow_le_total hmax hne
  have hle : one A lgsz ≤ 2 ^ j := by
    rcases Nat.eq_or_lt_of_le hj with rfl | hlt
    · rw [hone]
    · rw [one_of_lt (by unfold lgszMax at hmax; omega)]
      exact Nat.pow_le_pow_right (by decide) hj
  exact ⟨hj.trans hmax, by omega⟩

/-! ## Splitting -/

/-- What `halve` leaves in the lists. -/
theorem halve_cut (h : Inv A rs k p) (hd : p.shape d = some (lgsz, false)) (hl : lgszMin < lgsz)
    (hok : p.halve A d lgsz = .ok p') : Cut p p' ∧ p'.blocks (lgsz - 1) ≠ [] := by
  obtain ⟨-, hshape, hblocks, -, -⟩ := halve_blocks hd hok
  obtain ⟨-, hmax, -⟩ := h.size d lgsz false hd
  obtain ⟨l, rfl⟩ : ∃ l, lgsz = l + 1 := ⟨lgsz - 1, by omega⟩
  rw [Nat.add_sub_cancel] at hshape hblocks ⊢
  have hlt := h.lt_space hd
  have hpow : 2 ^ (l + 1) = 2 ^ l + 2 ^ l := by rw [pow_succ, Nat.mul_two]
  have hpos := Nat.two_pow_pos l
  have hadd : A.add d (one A l) = d + 2 ^ l := by
    rw [one_of_lt (by unfold lgszMax at hmax; omega)]
    exact Nat.mod_eq_of_lt (by omega)
  rw [hadd] at hshape hblocks
  constructor
  · intro a m ha
    rw [hshape] at ha
    by_cases hright : a = d + 2 ^ l
    · subst hright
      rw [Function.update_self] at ha
      obtain ⟨rfl, -⟩ := Prod.mk.inj (Option.some.inj ha)
      exact ⟨d, _, hd, by omega, by omega⟩
    · rw [Function.update_of_ne hright] at ha
      by_cases hleft : a = d
      · subst hleft
        rw [Function.update_self] at ha
        obtain ⟨rfl, -⟩ := Prod.mk.inj (Option.some.inj ha)
        exact ⟨a, _, hd, le_rfl, by omega⟩
      · rw [Function.update_of_ne hleft] at ha
        exact within_self ha
  · rw [hblocks]
    unfold addBlock
    dsimp only
    rw [Function.update_self]
    exact List.cons_ne_nil _ _

/-- Two descriptors can be linked. -/
theorem insertRegionAfter_ok {y : Descr} (hd : p.descr d = some x) (ha : p.descr a = some y) :
    ∃ p', p.insertRegionAfter d a = .ok p' := by
  set q := p.put d { x with
    regionNext := y.regionNext
    regionPrev := a } with hq
  obtain ⟨z, hz⟩ : ∃ z, q.descr a = some z := by
    by_cases had : a = d
    · subst had
      exact ⟨_, Function.update_self a _ _⟩
    · exact ⟨y, (Function.update_of_ne had _ _).trans ha⟩
  refine ⟨_, bind_eq_ok.mpr ⟨y, read_eq_ok.mpr ha, bind_eq_ok.mpr ⟨q, ?_, write_eq_ok.mpr ⟨z, hz, rfl⟩⟩⟩⟩
  exact write_eq_ok.mpr ⟨x, hd, rfl⟩

/-- A free block can be halved when the halves have room for the descriptor. -/
theorem halve_ok (hd : p.shape d = some (lgsz, false)) (hfit : descrSz A ≤ 2 ^ (lgsz - 1)) :
    ∃ p', p.halve A d lgsz = .ok p' := by
  obtain ⟨x, hx, hxl, hxb⟩ := exists_descr hd
  set d2 := A.add d (one A (x.lgsz - 1)) with hd2
  set p₁ := (p.removeBlock d lgsz).put d { x with lgsz := x.lgsz - 1 } with hp₁
  set p₂ := p₁.put d2 ⟨0, 0, x.lgsz - 1, false⟩ with hp₂
  set p₃ := (p₂.addBlock d (x.lgsz - 1)).addBlock d2 (x.lgsz - 1) with hp₃
  have hwrite : (p.removeBlock d lgsz).write d (fun y => { y with lgsz := x.lgsz - 1 }) = .ok p₁ :=
    write_eq_ok.mpr ⟨x, hx, rfl⟩
  have hinit : p₁.initDescr A d2 (x.lgsz - 1) = .ok p₂ :=
    ensure_bind_eq_ok.mpr ⟨hxl ▸ hfit, rfl⟩
  have hright : p₃.descr d2 = some ⟨0, 0, x.lgsz - 1, false⟩ := Function.update_self d2 _ _
  obtain ⟨z, hleft⟩ : ∃ z, p₃.descr d = some z := by
    by_cases hdd : d = d2
    · exact ⟨_, hdd ▸ hright⟩
    · exact ⟨_, (Function.update_of_ne hdd _ _).trans (Function.update_self d _ _)⟩
  obtain ⟨p', hlink⟩ := insertRegionAfter_ok hright hleft
  refine ⟨p', bind_eq_ok.mpr ⟨x, read_eq_ok.mpr hx, ensure_bind_eq_ok.mpr ⟨hxb, ?_⟩⟩⟩
  exact bind_eq_ok.mpr ⟨p₁, hwrite, bind_eq_ok.mpr ⟨p₂, hinit, hlink⟩⟩

/-- `split` changes nothing when there is nothing to split. -/
theorem splitLoop_none : ∀ {n lgsz : Nat}, (∀ j, lgsz ≤ j → p.blocks j = []) →
    splitLoop A n p lgsz = .ok (false, p)
  | 0, _, _ => rfl
  | n + 1, lgsz, h => by
    have hrec : splitLoop A n p (lgsz + 1) = .ok (false, p) :=
      splitLoop_none fun j hj => h j (by omega)
    unfold splitLoop
    rw [if_pos (h lgsz le_rfl), hrec]
    split_ifs
    · rfl
    · refine bind_eq_ok.mpr ⟨(false, p), rfl, ?_⟩
      dsimp only
      rw [h lgsz le_rfl]
      rfl

/-- **Splitting** leaves a block in the list below when there is one on offer. -/
theorem splitLoop_spec : ∀ {n lgsz : Nat} {p : MemPool} {r : Bool × MemPool}, Inv A rs k p →
    n + lgsz = lgszMax + 1 → lgszMin < lgsz → splitLoop A n p lgsz = .ok r →
    Cut p r.2 ∧ (p.Offers lgsz → r.2.blocks (lgsz - 1) ≠ []) := by
  intro n
  induction n with
  | zero =>
    intro lgsz p r h hn _ hok
    obtain rfl := Except.ok.inj hok
    refine ⟨.refl p, ?_⟩
    rintro ⟨j, hj, hne⟩
    obtain ⟨d, hd⟩ := h.head hne
    have hmax := (h.size d j false hd).2.1
    omega
  | succ n ih =>
    intro lgsz p r h hn hmin hok
    unfold splitLoop at hok
    rw [if_neg (by omega)] at hok
    obtain ⟨r₁, h₁, hok⟩ := bind_eq_ok.mp hok
    -- after the recursive call there is a block in the list if one is on offer
    have hready : Inv A rs k r₁.2 ∧ Cut p r₁.2 ∧ (p.Offers lgsz → r₁.2.blocks lgsz ≠ []) := by
      split_ifs at h₁ with hempty
      · obtain ⟨hcut, hoff⟩ := ih h (by omega) (by omega) h₁
        refine ⟨(splitLoop_inv h h₁).1, hcut, ?_⟩
        rintro ⟨j, hj, hne⟩
        refine hoff ⟨j, ?_, hne⟩
        rcases Nat.eq_or_lt_of_le hj with rfl | hlt
        · exact absurd hempty hne
        · exact hlt
      · obtain rfl := Except.ok.inj h₁
        exact ⟨h, .refl p, fun _ => hempty⟩
    obtain ⟨hinv, hcut, hoff⟩ := hready
    split at hok
    · rename_i hnil
      obtain rfl := Except.ok.inj hok
      exact ⟨hcut, fun hp => absurd hnil (hoff hp)⟩
    · rename_i d ds hblocks
      obtain ⟨p₂, h₂, hok⟩ := bind_eq_ok.mp hok
      obtain rfl := Except.ok.inj hok
      have hd : r₁.2.shape d = some (lgsz, false) :=
        (hinv.lists.mem _ _).mp (by rw [hblocks]; exact List.mem_cons_self)
      obtain ⟨hcut₂, hne⟩ := halve_cut hinv hd hmin h₂
      exact ⟨hcut.trans hcut₂, fun _ => hne⟩

/-- `split` ends when the halves have room for the descriptor. -/
theorem splitLoop_ok : ∀ {n lgsz : Nat} {p : MemPool}, Inv A rs k p →
    descrSz A ≤ 2 ^ (lgsz - 1) → ∃ r, splitLoop A n p lgsz = .ok r := by
  intro n
  induction n with
  | zero => exact fun _ _ => ⟨_, rfl⟩
  | succ n ih =>
    intro lgsz p h hfit
    unfold splitLoop
    by_cases hrange : lgsz ≤ lgszMin ∨ lgszMax < lgsz
    · rw [if_pos hrange]
      exact ⟨_, rfl⟩
    rw [if_neg hrange]
    obtain ⟨r₁, h₁, hinv⟩ : ∃ r₁, (if p.blocks lgsz = [] then splitLoop A n p (lgsz + 1)
        else .ok (false, p)) = Except.ok r₁ ∧ Inv A rs k r₁.2 := by
      split_ifs
      · have hup : descrSz A ≤ 2 ^ (lgsz + 1 - 1) :=
          hfit.trans (Nat.pow_le_pow_right (by decide) (by omega))
        obtain ⟨r₁, h₁⟩ := ih h hup
        exact ⟨r₁, h₁, (splitLoop_inv h h₁).1⟩
      · exact ⟨_, rfl, h⟩
    cases hblocks : r₁.2.blocks lgsz with
    | nil =>
      refine ⟨(false, r₁.2), bind_eq_ok.mpr ⟨r₁, h₁, ?_⟩⟩
      rw [hblocks]
      rfl
    | cons d ds =>
      have hd : r₁.2.shape d = some (lgsz, false) :=
        (hinv.lists.mem _ _).mp (by rw [hblocks]; exact List.mem_cons_self)
      obtain ⟨p', hp'⟩ := halve_ok hd hfit
      refine ⟨(true, p'), bind_eq_ok.mpr ⟨r₁, h₁, ?_⟩⟩
      rw [hblocks]
      exact bind_eq_ok.mpr ⟨p', hp', rfl⟩

/-! ## Taking a block -/

/-- The block that is taken is in use. -/
theorem take_shape (hd : p.shape d = some (lgsz, false)) (hok : p.take A d lgsz = .ok p') :
    p'.shape d = some (lgsz, true) := by
  unfold take at hok
  obtain ⟨p₁, h₁, hrest⟩ := bind_eq_ok.mp hok
  obtain ⟨y, -, hlast⟩ := bind_eq_ok.mp hrest
  obtain ⟨x, hx, rfl⟩ := write_eq_ok.mp h₁
  obtain rfl := Except.ok.inj hlast
  have hxs := shape_of_descr (p := p) hx
  rw [hd] at hxs
  obtain ⟨hxl, -⟩ := Prod.mk.inj (Option.some.inj hxs)
  show ((p.removeBlock d lgsz).put d { x with busy := true }).shape d = _
  rw [shape_put, Function.update_self, hxl]

theorem take_ok (hd : p.shape d = some (lgsz, false)) : ∃ p', p.take A d lgsz = .ok p' := by
  obtain ⟨x, hx, -, -⟩ := exists_descr hd
  refine ⟨_, bind_eq_ok.mpr ⟨(p.removeBlock d lgsz).put d { x with busy := true },
    write_eq_ok.mpr ⟨x, hx, rfl⟩, bind_eq_ok.mpr ⟨{ x with busy := true }, ?_, rfl⟩⟩⟩
  exact read_eq_ok.mpr (Function.update_self d _ _)

/-- There is nothing on offer, and nothing changes. -/
theorem allocBlock_none (hno : ¬ p.Offers (max lgsz lgszMin)) : p.allocBlock A lgsz = .ok (none, p) := by
  have hempty : ∀ j, max lgsz lgszMin ≤ j → p.blocks j = [] := fun j hj =>
    by_contra fun hne => hno ⟨j, hj, hne⟩
  unfold allocBlock
  dsimp only
  split_ifs
  · rfl
  · rfl
  · refine bind_eq_ok.mpr ⟨(false, p), splitLoop_none fun j hj => hempty j (by omega), ?_⟩
    dsimp only
    rw [hempty _ le_rfl]
    rfl
  · exact absurd (hempty _ le_rfl) ‹_›

/-- The block that is returned: it is in use, of the size asked for, and was free. -/
structure Given (A : Arch) (rs : List (Nat × Nat)) (p : MemPool) (lgsz d : Nat) (p' : MemPool) : Prop where
  inv : Inv A rs 0 p'
  added : p'.added = p.added
  shape : p'.shape d = some (lgsz, true)
  within : p.Within d lgsz

/-- **`alloc_block`** returns a block when one is on offer. -/
theorem allocBlock_spec {r : Option Nat × MemPool} (h : Inv A rs 0 p) (hoff : p.Offers (max lgsz lgszMin))
    (hok : p.allocBlock A lgsz = .ok r) :
    ∃ d, r.1 = some d ∧ Given A rs p (max lgsz lgszMin) d r.2 := by
  obtain ⟨hmax, hpool⟩ := h.one_le_poolSz hoff
  unfold allocBlock at hok
  dsimp only at hok
  rw [if_neg (by omega), if_neg (by omega)] at hok
  obtain ⟨r₁, h₁, hrest⟩ := bind_eq_ok.mp hok
  have hready : (Inv A rs 0 r₁.2 ∧ r₁.2.added = p.added) ∧ Cut p r₁.2 ∧
      r₁.2.blocks (max lgsz lgszMin) ≠ [] := by
    split_ifs at h₁ with hempty
    · obtain ⟨hcut, hne⟩ := splitLoop_spec h (by omega) (by omega) h₁
      rw [Nat.add_sub_cancel] at hne
      refine ⟨splitLoop_inv h h₁, hcut, hne ?_⟩
      obtain ⟨j, hj, hjne⟩ := hoff
      refine ⟨j, ?_, hjne⟩
      rcases Nat.eq_or_lt_of_le hj with rfl | hlt
      · exact absurd hempty hjne
      · exact hlt
    · obtain rfl := Except.ok.inj h₁
      exact ⟨⟨h, rfl⟩, .refl p, hempty⟩
  obtain ⟨⟨hinv, hadded⟩, hcut, hne⟩ := hready
  split at hrest
  · exact absurd ‹_› hne
  · rename_i d ds hblocks
    obtain ⟨p₂, h₂, hlast⟩ := bind_eq_ok.mp hrest
    obtain rfl := Except.ok.inj hlast
    have hd : r₁.2.shape d = some (max lgsz lgszMin, false) :=
      (hinv.lists.mem _ _).mp (by rw [hblocks]; exact List.mem_cons_self)
    obtain ⟨hinv₂, hadded₂⟩ := take_inv hinv hd h₂
    exact ⟨d, rfl, hinv₂, hadded₂.trans hadded, take_shape hd h₂, hcut d _ hd⟩

/-- `alloc_block` ends when a block has room for the descriptor. -/
theorem allocBlock_ok (h : Inv A rs 0 p) (hfit : descrSz A ≤ 2 ^ max lgsz lgszMin) :
    ∃ r, p.allocBlock A lgsz = .ok r := by
  unfold allocBlock
  dsimp only
  by_cases hlarge : lgszMax < lgsz
  · rw [if_pos hlarge]
    exact ⟨_, rfl⟩
  rw [if_neg hlarge]
  by_cases hnomem : p.poolSz < one A (max lgsz lgszMin)
  · rw [if_pos hnomem]
    exact ⟨_, rfl⟩
  rw [if_neg hnomem]
  obtain ⟨r₁, h₁, hinv⟩ : ∃ r₁, (if p.blocks (max lgsz lgszMin) = [] then p.split A (max lgsz lgszMin + 1)
      else .ok (false, p)) = Except.ok r₁ ∧ Inv A rs 0 r₁.2 := by
    split_ifs
    · have hsplit : ∃ r, p.split A (max lgsz lgszMin + 1) = .ok r := splitLoop_ok h hfit
      obtain ⟨r₁, h₁⟩ := hsplit
      exact ⟨r₁, h₁, (splitLoop_inv h h₁).1⟩
    · exact ⟨_, rfl, h⟩
  cases hblocks : r₁.2.blocks (max lgsz lgszMin) with
  | nil =>
    refine ⟨(none, r₁.2), bind_eq_ok.mpr ⟨r₁, h₁, ?_⟩⟩
    rw [hblocks]
    rfl
  | cons d ds =>
    have hd : r₁.2.shape d = some (max lgsz lgszMin, false) :=
      (hinv.lists.mem _ _).mp (by rw [hblocks]; exact List.mem_cons_self)
    obtain ⟨p', hp'⟩ := take_ok hd
    refine ⟨(some d, p'), bind_eq_ok.mpr ⟨r₁, h₁, ?_⟩⟩
    rw [hblocks]
    exact bind_eq_ok.mpr ⟨p', hp', rfl⟩

/-! ## Allocating bytes -/

/-- The binary logarithm of the size of the block that `alloc` looks for. -/
def wanted (A : Arch) (n : Nat) : Nat := max (log2szTop (A.add n (descrSz A))) lgszMin

theorem le_two_pow_log2szTop (n : Nat) : n ≤ 2 ^ log2szTop n := by
  unfold log2szTop
  split_ifs with h0 hpow
  · omega
  · exact Nat.lt_log2_self.le
  · exact (not_not.mp hpow).ge

/-- The block is large enough for the bytes and the descriptor when their sum is a `size_t`. -/
theorem le_two_pow_wanted (h : n + descrSz A < 2 ^ A.wordBits) : n + descrSz A ≤ 2 ^ wanted A n := by
  have hadd : A.add n (descrSz A) = n + descrSz A := Nat.mod_eq_of_lt h
  unfold wanted
  rw [hadd]
  exact (le_two_pow_log2szTop _).trans (Nat.pow_le_pow_right (by decide) (le_max_left _ _))

/-- The memory at `ptr` is behind the descriptor of a block in use, with room for `n` bytes in the block,
and the block was free or part of a free block. -/
def Usable (A : Arch) (p p' : MemPool) (ptr n : Nat) : Prop :=
  ∃ d l, ptr = d + descrSz A ∧ p'.shape d = some (l, true) ∧ descrSz A + n ≤ 2 ^ l ∧ p.Within d l

/-- No block has room for as many bytes as there are addresses. -/
theorem Inv.not_usable {ptr : Nat} (h : Inv A rs k p') (hn : 2 ^ 31 < descrSz A + n) :
    ¬ Usable A p p' ptr n := by
  rintro ⟨d, l, -, hd, hle, -⟩
  have hmax := (h.size d l true hd).2.1
  have hpow : 2 ^ l ≤ 2 ^ 31 := Nat.pow_le_pow_right (by decide) hmax
  omega

/-- `alloc` answers with null when nothing is on offer. -/
theorem alloc_none (hno : n ≠ 0 → ¬ p.Offers (wanted A n)) : p.alloc A n = .ok (none, p) := by
  unfold alloc
  split_ifs with h0
  · rfl
  · exact bind_eq_ok.mpr ⟨(none, p), allocBlock_none (hno h0), rfl⟩

/-- **`alloc`** answers with a block when one is on offer. -/
theorem alloc_spec {r : Option Nat × MemPool} (h : Inv A rs 0 p) (hn : n ≠ 0)
    (hoff : p.Offers (wanted A n)) (hok : p.alloc A n = .ok r) :
    ∃ d, r.1 = some (A.add d (descrSz A)) ∧ Given A rs p (wanted A n) d r.2 := by
  unfold alloc at hok
  rw [if_neg hn] at hok
  obtain ⟨r₁, h₁, hlast⟩ := bind_eq_ok.mp hok
  obtain rfl := Except.ok.inj hlast
  obtain ⟨d, hd, hgiven⟩ := allocBlock_spec h hoff h₁
  refine ⟨d, ?_, hgiven⟩
  show r₁.1.map _ = _
  rw [hd]
  rfl

theorem alloc_ok (h : Inv A rs 0 p) (hfit : descrSz A ≤ 2 ^ wanted A n) : ∃ r, p.alloc A n = .ok r := by
  unfold alloc
  split_ifs
  · exact ⟨_, rfl⟩
  · have hblock : ∃ r, p.allocBlock A (log2szTop (A.add n (descrSz A))) = .ok r := allocBlock_ok h hfit
    obtain ⟨r, hr⟩ := hblock
    exact ⟨_, bind_eq_ok.mpr ⟨r, hr, rfl⟩⟩

/-- The memory is usable when the sum is a `size_t`. -/
theorem Given.usable (h : Given A rs p (wanted A n) d p') (hn : n + descrSz A < 2 ^ A.wordBits) :
    Usable A p p' (A.add d (descrSz A)) n := by
  have hle := le_two_pow_wanted hn
  have hlt := h.inv.lt_space h.shape
  exact ⟨d, wanted A n, Nat.mod_eq_of_lt (by omega), h.shape, by omega, h.within⟩

/-- `alloc` keeps the invariant, whatever the regions are. -/
theorem alloc_keeps {r : Option Nat × MemPool} (h : Inv A rs 0 p) (hok : p.alloc A n = .ok r) :
    Inv A rs 0 r.2 ∧ r.2.added = p.added := by
  by_cases hoff : n ≠ 0 ∧ p.Offers (wanted A n)
  · obtain ⟨d, -, hgiven⟩ := alloc_spec h hoff.1 hoff.2 hok
    exact ⟨hgiven.inv, hgiven.added⟩
  · have hnone := alloc_none (A := A) fun hn => not_and.mp hoff hn
    obtain rfl := Except.ok.inj (hnone.symm.trans hok)
    exact ⟨h, rfl⟩

/-- `alloc` answers with a block exactly when one is on offer. -/
theorem alloc_isSome {r : Option Nat × MemPool} (h : Inv A rs 0 p) (hok : p.alloc A n = .ok r) :
    r.1 ≠ none ↔ n ≠ 0 ∧ p.Offers (wanted A n) := by
  constructor
  · intro hne
    by_contra hoff
    have hnone := alloc_none (A := A) fun hn => not_and.mp hoff hn
    obtain rfl := Except.ok.inj (hnone.symm.trans hok)
    exact hne rfl
  · rintro ⟨hn, hoff⟩
    obtain ⟨d, hd, -⟩ := alloc_spec h hn hoff hok
    rw [hd]
    exact nofun

/-! ## Adding a naturally aligned block -/

/-- A range that is one block: as long as it is aligned, with an end that is an address. -/
structure Natural (A : Arch) (start k : Nat) : Prop where
  min : lgszMin ≤ k
  max : k ≤ lgszMax
  one : one A k = 2 ^ k
  pos : 0 < start
  stop : start + 2 ^ k < 2 ^ A.wordBits
  aligned : 2 ^ k ∣ start

variable {start : Nat}

theorem Natural.isAligned (h : Natural A start k) : isAligned A start (2 ^ k) = true := by
  have hpos := Nat.two_pow_pos k
  have hstop := h.stop
  have hsub : A.sub (2 ^ k) 1 = 2 ^ k - 1 := by
    unfold Arch.sub
    rw [show 2 ^ k + (2 ^ A.wordBits - 1) = 2 ^ k - 1 + 2 ^ A.wordBits by omega, Nat.add_mod_right]
    exact Nat.mod_eq_of_lt (by omega)
  unfold MemPool.isAligned
  rw [hsub, Nat.and_two_pow_sub_one_eq_mod, Nat.mod_eq_zero_of_dvd h.aligned]
  rfl

/-- A larger block is longer than the range. -/
theorem Natural.lt_one (h : Natural A start k) (hn : k < n) (hmax : n ≤ lgszMax) : 2 ^ k < MemPool.one A n := by
  have hk : 2 ^ k ≤ 2 ^ 30 := Nat.pow_le_pow_right (by decide) (by unfold lgszMax at hmax; omega)
  unfold MemPool.one
  split_ifs with hn31
  · exact Nat.pow_lt_pow_right (by decide) hn
  · have hw : 2 ^ 32 ≤ 2 ^ A.wordBits := Nat.pow_le_pow_right (by decide) (by cases A <;> decide)
    omega

/-- `find_max_block` finds the whole range. -/
theorem Natural.findMax (h : Natural A start k) : findMaxBlock A start (2 ^ k) = k := by
  have hfrom : ∀ m, k < lgszMin + m → lgszMin + m ≤ lgszMax + 1 → findMaxFrom A start (2 ^ k) m = k := by
    intro m
    induction m with
    | zero =>
      intro hk
      have := h.min
      omega
    | succ m ih =>
      intro hk hm
      unfold findMaxFrom
      dsimp only
      rcases Nat.eq_or_lt_of_le (show k ≤ lgszMin + m by omega) with heq | hlt
      · rw [← heq, h.one, if_pos ⟨le_rfl, h.isAligned, le_rfl⟩]
      · rw [if_neg fun hle => absurd hle.1 (Nat.not_le.mpr (h.lt_one hlt (by omega)))]
        exact ih hlt (by omega)
  exact hfrom _ (by have := h.max; unfold lgszMax lgszMin at *; omega) (by decide)

/-- `find_max_block` finds nothing in an empty range. -/
theorem findMaxBlock_zero (addr : Nat) : findMaxBlock A addr 0 = 0 := by
  have hfrom : ∀ m, lgszMin + m ≤ lgszMax + 1 → findMaxFrom A addr 0 m = 0 := by
    intro m
    induction m with
    | zero => exact fun _ => rfl
    | succ m ih =>
      intro hm
      unfold findMaxFrom
      dsimp only
      rw [if_neg fun hle => ?_]
      · exact ih (by omega)
      · have hpos : 0 < MemPool.one A (lgszMin + m) := by
          unfold MemPool.one
          split_ifs
          · exact Nat.two_pow_pos _
          · have hw : 2 ^ 32 ≤ 2 ^ A.wordBits := Nat.pow_le_pow_right (by decide) (by cases A <;> decide)
            omega
        omega
  exact hfrom _ (by decide)

/-- **`add`** makes one block of such a range. -/
theorem add_natural {r : Bool × MemPool} (h : Inv A rs 0 p) (hnat : Natural A start k)
    (hgap : ∀ a l u, p.shape a = some (l, u) → a + 2 ^ l ≤ start ∨ start + 2 ^ k ≤ a) (hok : p.add A start (2 ^ k) = .ok r) :
    r.1 = true ∧ Inv A ((start, start + 2 ^ k) :: rs) 0 r.2 ∧
      r.2.blocks = Function.update p.blocks k (start :: p.blocks k) ∧
      r.2.added = (start, start + 2 ^ k) :: p.added := by
  have hmin := hnat.min
  have hpos := hnat.pos
  have hstop := hnat.stop
  have hsize := Nat.two_pow_pos k
  have hdvd : 2 ^ lgszMin ∣ 2 ^ k := Nat.pow_dvd_pow 2 hmin
  have hstart : roundUp A start = start := by
    have hle : 2 ^ lgszMin ≤ 2 ^ k := Nat.pow_le_pow_right (by decide) hmin
    have hlt : start + (2 ^ lgszMin - 1) < 2 ^ A.wordBits := by omega
    obtain ⟨c, hc⟩ := hdvd.trans hnat.aligned
    unfold roundUp Arch.add
    rw [Nat.mod_eq_of_lt hlt, hc, Nat.mul_add_div (Nat.two_pow_pos _),
      Nat.div_eq_of_lt (by decide), Nat.add_zero, Nat.mul_comm]
  have hend : roundDown (A.add start (2 ^ k)) = start + 2 ^ k := by
    unfold roundDown Arch.add
    rw [Nat.mod_eq_of_lt hstop]
    exact Nat.div_mul_cancel ((Nat.dvd_add_right (hdvd.trans hnat.aligned)).mpr hdvd)
  have hlen : A.sub (start + 2 ^ k) start = 2 ^ k := by
    unfold Arch.sub
    rw [show start + 2 ^ k + (2 ^ A.wordBits - start) = 2 ^ k + 2 ^ A.wordBits by omega, Nat.add_mod_right]
    exact Nat.mod_eq_of_lt (by omega)
  have hnone : A.sub (start + 2 ^ k) (start + 2 ^ k) = 0 := by
    unfold Arch.sub
    rw [show start + 2 ^ k + (2 ^ A.wordBits - (start + 2 ^ k)) = 2 ^ A.wordBits by omega, Nat.mod_self]
  have hnext : A.add start (one A k) = start + 2 ^ k := by
    rw [hnat.one]
    exact Nat.mod_eq_of_lt hstop
  unfold add at hok
  dsimp only at hok
  have hlonger : ¬ start + 2 ^ k ≤ start := by omega
  rw [hstart, hend, if_neg hlonger] at hok
  obtain ⟨place, -, hrest⟩ := bind_eq_ok.mp hok
  obtain ⟨p₁, hloop, hlast⟩ := bind_eq_ok.mp hrest
  obtain rfl := Except.ok.inj hlast
  -- the loop makes one block and ends in the second round
  obtain ⟨m, hm⟩ : ∃ m, 2 ^ A.wordBits = m + 2 := by
    have hlen := Nat.one_lt_two_pow (n := k) (by unfold lgszMin at hmin; omega)
    exact ⟨2 ^ A.wordBits - 2, by omega⟩
  rw [hm] at hloop
  unfold addLoop at hloop
  dsimp only at hloop
  rw [hlen, hnat.findMax, if_neg (by unfold lgszMin at hmin; omega)] at hloop
  obtain ⟨p₂, hone, hloop⟩ := bind_eq_ok.mp hloop
  unfold addLoop at hloop
  dsimp only at hloop
  rw [hnext, hnone, findMaxBlock_zero, if_pos rfl] at hloop
  obtain rfl := Except.ok.inj hloop
  obtain ⟨-, hblocks, -, hadded⟩ := addOne_blocks hone
  have hrs : Inv A ((start, start + 2 ^ k) :: rs) 0 p := by
    refine ⟨h.apart, fun a l u ha => ?_, h.lists, h.sum, h.size, fun t ht => ?_⟩
    · obtain ⟨t, ht, hin⟩ := h.inside a l u ha
      exact ⟨t, List.mem_cons_of_mem _ ht, hin⟩
    · rcases List.mem_cons.mp ht with rfl | ht
      · exact hstop
      · exact h.space t ht
  have hinv := addOne_inv hrs hmin hnat.max hnat.one ⟨_, List.mem_cons_self, le_rfl, le_rfl⟩ hgap hone
  exact ⟨rfl, ⟨hinv.apart, hinv.inside, hinv.lists, hinv.sum, hinv.size, hinv.space⟩, hblocks,
    congrArg _ hadded⟩

end MemPool
end Wrmos
