import Wrmos.Kmem
import Wrmos.RegionRuns

/-!
# The kernel heap conserves its pool

`Conserved` is the invariant of the heap together with the blocks that are in use (`live`, which the
code does not store): the regions are in order and cover exactly the pool, no two free regions touch,
`pool_sz` is the sum of the free sizes, and the busy regions are the live blocks.

`alloc` cuts a block out of a free region (`alloc_eq`) and `free` joins it with the free regions that
touch it (`free_eq`); both are rewritten as equations on the list, so that freeing a block right after
its allocation gives the old list back (`free_alloc`).  A heap without live blocks is one free region
(`memory_of_noLive`).

`run_conserved` needs one condition: the rounding of a requested size must not wrap.  A size in the
last 63 bytes below the word size is rounded up to `0`, and `alloc` then hands out an empty block
(`hugeBlock_not_conserved`).
-/

namespace Wrmos
namespace Kmem

open Lib Region

variable {A : Arch} {lo hi va : Nat} {l l' b a : List (Desc KmemType)}

/-! ## The pool as a list of regions -/

/-- The sum of the free sizes. -/
def freeSz (l : List (Desc KmemType)) : Nat :=
  (l.map fun d => if d.type = .free then d.sz else 0).sum

@[simp] theorem freeSz_nil : freeSz [] = 0 := rfl

@[simp] theorem freeSz_cons (d : Desc KmemType) :
    freeSz (d :: l) = (if d.type = .free then d.sz else 0) + freeSz l := by
  simp [freeSz]

@[simp] theorem freeSz_append : freeSz (l ++ l') = freeSz l + freeSz l' := by
  simp [freeSz]

@[simp] theorem freeSz_join : freeSz (join b a) = freeSz b + freeSz a := by
  unfold join
  rw [freeSz_append]
  simp [freeSz, List.sum_reverse]

/-- The regions are in order, cover exactly the addresses of the pool, and no two free ones touch. -/
structure Tiles (A : Arch) (lo hi : Nat) (l : List (Desc KmemType)) : Prop where
  wf : Wf A l
  covers : ∀ v, (∃ t, Covers l v t) ↔ lo ≤ v ∧ v < hi
  spread : ∀ d ∈ l, ∀ e ∈ l, d.type = .free → e.type = .free → d.addr + d.sz ≠ e.addr

/-- A region of the pool lies inside it. -/
theorem Tiles.inside (h : Tiles A lo hi l) {d : Desc KmemType} (hd : d ∈ l) :
    lo ≤ d.addr ∧ d.addr + d.sz ≤ hi := by
  have hpos := (h.wf.proper d hd).1
  have hfirst := (h.covers d.addr).mp ⟨d.type, d, hd, ⟨le_rfl, by omega⟩, rfl⟩
  have hlast := (h.covers (d.addr + d.sz - 1)).mp ⟨d.type, d, hd, ⟨by omega, by omega⟩, rfl⟩
  omega

/-- Regions in order between two addresses have no more bytes than lie there. -/
theorem freeSz_le (hsort : l.Pairwise Before) (hlo : lo ≤ hi) (hin : ∀ d ∈ l, lo ≤ d.addr ∧ d.addr + d.sz ≤ hi) :
    freeSz l ≤ hi - lo := by
  induction l generalizing lo with
  | nil => simp
  | cons d l ih =>
    rw [List.pairwise_cons] at hsort
    have hd := hin d List.mem_cons_self
    have hrest : freeSz l ≤ hi - (d.addr + d.sz) := ih hsort.2 hd.2
      (fun e he => ⟨hsort.1 e he, (hin e (List.mem_cons_of_mem d he)).2⟩)
    rw [freeSz_cons]
    split_ifs <;> omega

/-- **A pool without busy regions is one free region.** -/
theorem Tiles.eq_singleton (h : Tiles A lo hi l) (hlt : lo < hi) (hfree : ∀ d ∈ l, d.type = .free) :
    l = [⟨lo, hi - lo, .free⟩] := by
  obtain ⟨t, d, hd, hdlo, -⟩ := (h.covers lo).mpr ⟨le_rfl, hlt⟩
  have hdin := h.inside hd
  unfold Holds at hdlo
  -- behind the region that begins the pool there is no other
  have hend : d.addr + d.sz = hi := by
    by_contra hne
    obtain ⟨t', e, he, hev, -⟩ := (h.covers (d.addr + d.sz)).mpr ⟨by omega, by omega⟩
    have hde : d.addr + d.sz ≠ e.addr := h.spread d hd e he (hfree d hd) (hfree e he)
    unfold Holds at hev
    have hepos := h.wf.proper e he
    have hdpos := (h.wf.proper d hd).1
    have heq : d = e := h.wf.holds_unique (v := d.addr + d.sz - 1) hd he
      ⟨by omega, by omega⟩ ⟨by omega, by omega⟩
    rw [← heq] at hev
    omega
  have hall : ∀ e ∈ l, e = d := by
    intro e he
    have hin := h.inside he
    have hpos := (h.wf.proper e he).1
    exact h.wf.holds_unique (v := e.addr) he hd ⟨le_rfl, by omega⟩ ⟨by omega, by omega⟩
  have hd' : d = ⟨lo, hi - lo, .free⟩ := by
    have h1 : d.addr = lo := by omega
    have h2 : d.sz = hi - lo := by omega
    have h3 := hfree d hd
    cases d
    simp_all
  -- and the list has it once
  have hlen : l.length = 1 := by
    cases l with
    | nil => cases hd
    | cons x l =>
      cases l with
      | nil => rfl
      | cons y l =>
        have hx := hall x List.mem_cons_self
        have hy := hall y (List.mem_cons_of_mem x List.mem_cons_self)
        have hb := (List.pairwise_cons.mp h.wf.sorted).1 y List.mem_cons_self
        have hp := (h.wf.proper x List.mem_cons_self).1
        rw [hx, hy] at hb
        rw [hx] at hp
        unfold Before at hb
        omega
  obtain ⟨x, rfl⟩ := List.length_eq_one_iff.mp hlen
  rw [hall x List.mem_cons_self, hd']

/-! ## `alloc` -/

/-- Rounding up that does not fall below its argument has not wrapped. -/
theorem roundUp_of_le {n align : Nat} (halign : 0 < align) (hle : align ≤ 2 ^ A.wordBits)
    (hn : n < 2 ^ A.wordBits) (h : n ≤ roundUp A n align) :
    align ∣ roundUp A n align ∧ roundUp A n align < n + align := by
  refine ⟨Nat.dvd_mul_left _ _, ?_⟩
  by_cases hwrap : n + (align - 1) < 2 ^ A.wordBits
  · exact (roundUp_bounds halign (by omega)).2
  · exfalso
    have hadd : A.add n (align - 1) = n + (align - 1) - 2 ^ A.wordBits := by
      unfold Arch.add
      rw [Nat.mod_eq_sub_mod (by omega), Nat.mod_eq_of_lt (by omega)]
    have := Nat.div_mul_le_self (A.add n (align - 1)) align
    unfold roundUp at h
    omega

theorem roundUp_lt {n align : Nat} : roundUp A n align < 2 ^ A.wordBits :=
  (Nat.div_mul_le_self _ _).trans_lt (Nat.mod_lt _ (Nat.two_pow_pos _))

/-- A block is cut out of a free region: what stands around it stays free. -/
structure Carved (A : Arch) (l : List (Desc KmemType)) (addr sz : Nat) (b : List (Desc KmemType))
    (pos : Desc KmemType) (a l' : List (Desc KmemType)) : Prop where
  before : l = join b (pos :: a)
  free : pos.type = .free
  inside : pos.addr ≤ addr ∧ addr + sz ≤ pos.addr + pos.sz
  after : l' = join (headPiece pos addr ++ b) (⟨addr, sz, .busy⟩ :: (tailPiece pos (addr + sz) ++ a))
  room : l'.length ≤ room
  wf : Wf A l'
  sets : Sets l l' addr sz .busy

/-- `add` without joining needs room for one more descriptor. -/
theorem addAt_room {addr sz : Nat} {type : KmemType}
    (h : addAt A room b a addr sz type .notCombine = .ok l) : b.length + a.length < room := by
  unfold addAt at h
  obtain ⟨-, h⟩ := ensure_bind_eq_ok.mp h
  obtain ⟨-, h⟩ := ensure_bind_eq_ok.mp h
  unfold insertBefore checkForAlloc at h
  exact (ensure_bind_eq_ok.mp h).1

/-- `set_type` of a piece of a free region to `Busy`. -/
theorem setTypeAt_carved {pos : Desc KmemType} {addr sz : Nat} (hwf : Wf A (join b (pos :: a)))
    (hsz : 0 < sz) (hfree : pos.type = .free)
    (hin : pos.addr ≤ addr ∧ addr + sz ≤ pos.addr + pos.sz)
    (h : setTypeAt A room b addr sz .busy .notCombine (pos :: a) = .ok l') :
    Carved A (join b (pos :: a)) addr sz b pos a l' := by
  have hp := hwf.proper pos (mem_join.mpr (.inr List.mem_cons_self))
  have hend : addr + sz < 2 ^ A.wordBits := by
    have := hp.2
    omega
  obtain ⟨-, h⟩ := ensure_bind_eq_ok.mp h
  obtain ⟨-, h⟩ := ensure_bind_eq_ok.mp h
  obtain ⟨r, hr, h⟩ := bind_eq_ok.mp h
  obtain ⟨hwf', hsets, -⟩ := removeAt_addAt_puts hwf hsz hend hin hr h
  obtain rfl := removeAt_eq hp hin hr
  have hroom := addAt_room h
  have hl := addAt_notCombine h
  refine ⟨rfl, hfree, hin, hl, ?_, hwf', hsets⟩
  rw [hl]
  simp only [join, List.length_append, List.length_reverse, List.length_cons] at hroom ⊢
  omega

/-- **The loop of `alloc`** cuts an aligned block out of a free region. -/
theorem allocFrom_carved {sz align addr : Nat} (hsz : 0 < sz) (halign : align.isPowerOfTwo)
    (halign' : align < 2 ^ A.wordBits) (hpool : hi < lo + 2 ^ (A.wordBits - 1)) :
    ∀ {a b : List (Desc KmemType)}, Tiles A lo hi (join b a) →
      allocFrom A sz align b a = .ok (l', addr) →
      (∃ b' pos a', Carved A (join b a) addr sz b' pos a' l') ∧ align ∣ addr := by
  intro a
  induction a with
  | nil => intro b _ h; cases h
  | cons pos a ih =>
    intro b ht h
    have hmem : pos ∈ join b (pos :: a) := mem_join.mpr (.inr List.mem_cons_self)
    have hp : Proper A pos := ht.wf.proper pos hmem
    have hin := ht.inside hmem
    rw [allocFrom] at h
    dsimp only at h
    split_ifs at h with hfit hroom
    · obtain ⟨l₁, hset, h⟩ := bind_eq_ok.mp h
      obtain ⟨rfl, rfl⟩ := Prod.mk.inj (Except.ok.inj h)
      obtain ⟨k, rfl⟩ := halign
      have hlow := (ensure_bind_eq_ok.mp hset).1.1
      obtain ⟨hdvd, hup⟩ := roundUp_of_le (A := A) (Nat.two_pow_pos k) (by omega)
        (by have := hp.2; omega) hlow
      -- a power of two below the word size is at most half of it
      have hk : 2 ^ k ≤ 2 ^ (A.wordBits - 1) := by
        have := (Nat.pow_lt_pow_iff_right (by decide)).mp halign'
        exact Nat.pow_le_pow_right (by decide) (by omega)
      have hword : 2 ^ A.wordBits = 2 ^ (A.wordBits - 1) + 2 ^ (A.wordBits - 1) := by
        cases A <;> decide
      have h2 := hp.2
      rw [Arch.sub_of_le hlow roundUp_lt, Arch.add_of_lt (by omega)] at hroom
      exact ⟨⟨b, pos, a, setTypeAt_carved ht.wf hsz hfit.1 ⟨hlow, by omega⟩ hset⟩, hdvd⟩
    · rw [← join_cons] at ht ⊢
      exact ih ht h
    · rw [← join_cons] at ht ⊢
      exact ih ht h

namespace Carved

variable {pos : Desc KmemType} {addr sz : Nat}

/-- The pieces and the block are the region. -/
theorem freeSz_eq (h : Carved A l addr sz b pos a l') : freeSz l = freeSz l' + sz := by
  have hin := h.inside
  have hhead : freeSz (headPiece pos addr) = addr - pos.addr := by
    unfold headPiece
    split_ifs
    · simp [h.free]
    · simp
      omega
  have htail : freeSz (tailPiece pos (addr + sz)) = pos.addr + pos.sz - (addr + sz) := by
    unfold tailPiece
    split_ifs
    · simp [h.free]
    · simp
      omega
  rw [h.before, h.after]
  simp only [freeSz_join, freeSz_append, freeSz_cons, h.free, hhead, htail, if_pos,
    reduceCtorEq, if_false]
  omega

/-- The busy regions are those of before and the block. -/
theorem busy_iff (h : Carved A l addr sz b pos a l') {d : Desc KmemType} (hd : d.type = .busy) :
    d ∈ l' ↔ d = ⟨addr, sz, .busy⟩ ∨ d ∈ l := by
  have hpos : d ≠ pos := by
    rintro rfl
    rw [h.free] at hd
    cases hd
  have hhead : d ∉ headPiece pos addr := by
    rw [mem_headPiece]
    rintro ⟨-, rfl⟩
    rw [h.free] at hd
    cases hd
  have htail : d ∉ tailPiece pos (addr + sz) := by
    rw [mem_tailPiece]
    rintro ⟨-, rfl⟩
    rw [h.free] at hd
    cases hd
  rw [h.before, h.after]
  simp only [mem_join, List.mem_append, List.mem_cons, hhead, htail, hpos, false_or]
  tauto

/-- The pool stays tiled. -/
theorem tiles (h : Carved A l addr sz b pos a l') (ht : Tiles A lo hi l) (hsz : 0 < sz) :
    Tiles A lo hi l' := by
  have hin := h.inside
  have hpos : pos ∈ l := by
    rw [h.before]
    exact mem_join.mpr (.inr List.mem_cons_self)
  refine ⟨h.wf, fun v => ?_, ?_⟩
  · rw [← ht.covers v]
    constructor
    · rintro ⟨t, hv⟩
      rcases (h.sets v t).mp hv with ⟨hr, -⟩ | ⟨-, hv⟩
      · exact ⟨pos.type, pos, hpos, ⟨by omega, by omega⟩, rfl⟩
      · exact ⟨t, hv⟩
    · rintro ⟨t, hv⟩
      by_cases hr : addr ≤ v ∧ v < addr + sz
      · exact ⟨.busy, (h.sets v .busy).mpr (.inl ⟨hr, rfl⟩)⟩
      · exact ⟨t, (h.sets v t).mpr (.inr ⟨hr, hv⟩)⟩
  · -- a free region of the new list lies in one of the old list
    have hold : ∀ d ∈ l', d.type = .free →
        d ∈ b ∨ d ∈ a ∨ (d.addr = pos.addr ∧ d.addr + d.sz = addr) ∨
          d.addr = addr + sz ∧ d.addr + d.sz = pos.addr + pos.sz := by
      intro d hd hfree
      rw [h.after, mem_join, List.mem_append, List.mem_cons, List.mem_append, mem_headPiece,
        mem_tailPiece] at hd
      rcases hd with (⟨hlt, rfl⟩ | hd) | rfl | ⟨hlt, rfl⟩ | hd
      · exact .inr (.inr (.inl ⟨rfl, by dsimp only; omega⟩))
      · exact .inl hd
      · cases hfree
      · exact .inr (.inr (.inr ⟨rfl, by dsimp only; omega⟩))
      · exact .inr (.inl hd)
    have hwf := ht.wf
    rw [h.before] at hwf
    obtain ⟨-, hsort, hba, -, -⟩ := wf_join.mp hwf
    have hb : ∀ p ∈ b, p.addr + p.sz ≤ pos.addr := fun p hp => hba p hp pos List.mem_cons_self
    have ha : ∀ p ∈ a, pos.addr + pos.sz ≤ p.addr := (List.pairwise_cons.mp hsort).1
    have hbl : ∀ p ∈ b, p ∈ l := fun p hp => h.before ▸ mem_join.mpr (.inl hp)
    have hal : ∀ p ∈ a, p ∈ l := fun p hp =>
      h.before ▸ mem_join.mpr (.inr (List.mem_cons_of_mem pos hp))
    intro d hd e he hdf hef htouch
    have hdp := (h.wf.proper d hd).1
    have hep := (h.wf.proper e he).1
    have hfree := h.free
    -- two old regions do not touch, and none touches the one that is cut
    have hdpos : d ∈ l → d.addr + d.sz ≠ pos.addr := fun hd => ht.spread d hd pos hpos hdf hfree
    have hepos : e ∈ l → pos.addr + pos.sz ≠ e.addr := fun he => ht.spread pos hpos e he hfree hef
    rcases hold d hd hdf with hd | hd | hd | hd <;> rcases hold e he hef with he | he | he | he
    · exact ht.spread d (hbl d hd) e (hbl e he) hdf hef htouch
    · exact ht.spread d (hbl d hd) e (hal e he) hdf hef htouch
    · exact hdpos (hbl d hd) (by omega)
    · have := hb d hd
      omega
    · exact ht.spread d (hal d hd) e (hbl e he) hdf hef htouch
    · exact ht.spread d (hal d hd) e (hal e he) hdf hef htouch
    · have := ha d hd
      omega
    · have := ha d hd
      omega
    · have := hb e he
      omega
    · have := ha e he
      omega
    · omega
    · omega
    · have := hb e he
      omega
    · exact hepos (hal e he) (by omega)
    · omega
    · omega

end Carved

/-! ## `free` -/

/-- `find(addr)` passes the regions before the one that starts there. -/
theorem findAddrFrom_append {pos : Desc KmemType} :
    ∀ {c b : List (Desc KmemType)}, (∀ d ∈ c, d.addr < pos.addr) →
      findAddrFrom pos.addr b (c ++ pos :: a) = some (c.reverse ++ b, pos, a) := by
  intro c
  induction c with
  | nil =>
    intro b _
    simp [findAddrFrom]
  | cons d c ih =>
    intro b h
    have hd := h d List.mem_cons_self
    rw [List.cons_append, findAddrFrom, if_neg (by omega), if_neg (by omega),
      ih fun e he => h e (List.mem_cons_of_mem d he)]
    simp

theorem findAddrFrom_join {pos : Desc KmemType} (hwf : Wf A (join b (pos :: a))) :
    findAddrFrom pos.addr [] (join b (pos :: a)) = some (b, pos, a) := by
  obtain ⟨-, -, hba, hb, -⟩ := wf_join.mp hwf
  have hlt : ∀ d ∈ b.reverse, d.addr < pos.addr := by
    intro d hd
    rw [List.mem_reverse] at hd
    have h1 := hba d hd pos List.mem_cons_self
    have h2 := (hb d hd).1
    unfold Before at h1
    omega
  have := findAddrFrom_append (a := a) (b := []) hlt
  rwa [List.reverse_reverse, List.append_nil] at this

/-- `find(addr)` returns a region of the list that starts at the address. -/
theorem findAddrFrom_some {pos : Desc KmemType} :
    ∀ {a b b' a' : List (Desc KmemType)}, findAddrFrom va b a = some (b', pos, a') →
      pos ∈ a ∧ pos.addr = va := by
  intro a
  induction a with
  | nil => intro b b' a' h; cases h
  | cons d a ih =>
    intro b b' a' h
    rw [findAddrFrom] at h
    split_ifs at h with heq
    · obtain ⟨-, hr⟩ := Prod.mk.inj (Option.some.inj h)
      obtain ⟨rfl, -⟩ := Prod.mk.inj hr
      exact ⟨List.mem_cons_self, heq.symm⟩
    · obtain ⟨hmem, haddr⟩ := ih h
      exact ⟨List.mem_cons_of_mem d hmem, haddr⟩

/-- What `free` accepts is the start of a busy region. -/
theorem busy_of_free {s r : Kmem} (h : s.free A va = .ok r) :
    ∃ pos ∈ s.memory, pos.type = .busy ∧ pos.addr = va := by
  unfold free at h
  cases hf : findAddrFrom va [] s.memory with
  | none =>
    rw [hf] at h
    cases h
  | some p =>
    obtain ⟨b, pos, a⟩ := p
    rw [hf] at h
    obtain ⟨hmem, haddr⟩ := findAddrFrom_some hf
    exact ⟨pos, hmem, (ensure_bind_eq_ok.mp h).1, haddr⟩

/-- `remove` of a whole region. -/
theorem removeAt_whole {pos : Desc KmemType} :
    removeAt A room b pos a pos.addr pos.sz = .ok (b, a) := by
  unfold removeAt
  rw [ensure_bind_of ⟨le_rfl, le_rfl⟩]
  dsimp only
  rw [if_pos ⟨rfl, rfl⟩]
  rfl

theorem insertBefore_ok {d : Desc KmemType} (h : b.length + a.length < room) :
    insertBefore room b a d = .ok (join b (d :: a)) := by
  unfold insertBefore checkForAlloc
  rw [ensure_bind_of h]
  rfl

/-- `add` between two regions succeeds while there is room for a descriptor. -/
theorem addAt_ok {addr sz : Nat} {type : KmemType} (hwf : Wf A (join b a))
    (hend : addr + sz < 2 ^ A.wordBits) (hb : ∀ p ∈ b, p.addr + p.sz ≤ addr)
    (ha : ∀ p ∈ a, addr + sz ≤ p.addr) (hroom : b.length + a.length < room) :
    addAt A room b a addr sz type .combine = .ok (merged b ⟨addr, sz, type⟩ a) := by
  have hok : ∃ l, addAt A room b a addr sz type .combine = .ok l := by
    unfold addAt
    rw [ensure_bind_of (fun p hp => by
        rw [Arch.add_of_lt hend]
        exact ha p (List.mem_of_mem_head? hp)),
      ensure_bind_of (fun p hp => by
        have hp := List.mem_of_mem_head? hp
        rw [endOf, Arch.add_of_lt ((wf_join.mp hwf).2.2.2.1 p hp).2]
        exact hb p hp)]
    cases b with
    | nil =>
      cases a with
      | nil => exact ⟨_, insertBefore_ok hroom⟩
      | cons pos a =>
        dsimp only
        split_ifs
        · exact ⟨_, rfl⟩
        · exact ⟨_, insertBefore_ok hroom⟩
    | cons prev b =>
      cases a with
      | nil =>
        dsimp only
        split_ifs
        · exact ⟨_, rfl⟩
        · exact ⟨_, insertBefore_ok hroom⟩
      | cons pos a =>
        dsimp only
        split_ifs
        · exact ⟨_, rfl⟩
        · exact ⟨_, rfl⟩
        · exact ⟨_, rfl⟩
        · exact ⟨_, insertBefore_ok hroom⟩
  obtain ⟨l, hl⟩ := hok
  rw [hl, addAt_combine hwf hend hl]

/-- `set_type` of a whole busy region to `Free`. -/
theorem setTypeAt_free {pos : Desc KmemType} (hwf : Wf A (join b (pos :: a)))
    (hbusy : pos.type = .busy) (hroom : (join b (pos :: a)).length ≤ room) :
    setTypeAt A room b pos.addr pos.sz .free .combine (pos :: a) =
      .ok (merged b ⟨pos.addr, pos.sz, .free⟩ a) := by
  obtain ⟨h1, h2, h3, h4, h5⟩ := wf_join.mp hwf
  have hp : Proper A pos := h5 pos List.mem_cons_self
  have hwf' : Wf A (join b a) := wf_join.mpr ⟨h1, (List.pairwise_cons.mp h2).2,
    fun d hd e he => h3 d hd e (List.mem_cons_of_mem pos he), h4,
    fun e he => h5 e (List.mem_cons_of_mem pos he)⟩
  have hlen : b.length + a.length < room := by
    simp only [join, List.length_append, List.length_reverse, List.length_cons] at hroom
    omega
  rw [setTypeAt, ensure_bind_of ⟨le_rfl, le_rfl⟩, ensure_bind_of (by rw [hbusy]; decide),
    removeAt_whole]
  exact addAt_ok hwf' hp.2 (fun p hp => h3 p hp pos List.mem_cons_self)
    (List.pairwise_cons.mp h2).1 hlen

/-- **`free` of a busy region** puts a free one in its place, joined with the free regions that touch
it. -/
theorem free_eq {s : Kmem} {pos : Desc KmemType} (hmem : s.memory = join b (pos :: a))
    (hbusy : pos.type = .busy) (hwf : Wf A s.memory) (hroom : s.memory.length ≤ room) :
    s.free A pos.addr =
      .ok ⟨merged b ⟨pos.addr, pos.sz, .free⟩ a, A.add s.poolSz pos.sz⟩ := by
  rw [hmem] at hwf hroom
  unfold free
  rw [hmem, findAddrFrom_join hwf]
  dsimp only
  rw [ensure_bind_of hbusy, setTypeAt_free hwf hbusy hroom]
  rfl

section Merged

variable {d : Desc KmemType}

theorem mem_cons_of_busy {p q : Desc KmemType} (hp : p.type = .busy) (hq : q.type = .free) :
    p ∈ q :: l ↔ p ∈ l := by
  rw [List.mem_cons, or_iff_right]
  rintro rfl
  rw [hp] at hq
  cases hq

/-- The region before a freed one is kept, or free and joined. -/
theorem absorbPrev_cases (b : List (Desc KmemType)) (hd : d.type = .free) :
    (∀ p, p.type = .busy → (p ∈ (absorbPrev b d).1 ↔ p ∈ b)) ∧
      (∀ p ∈ (absorbPrev b d).1, p ∈ b) ∧ (absorbPrev b d).1.length ≤ b.length ∧
      freeSz (absorbPrev b d).1 + (absorbPrev b d).2.sz = freeSz b + d.sz ∧
      (absorbPrev b d).2.type = .free ∧
      (absorbPrev b d).2.addr + (absorbPrev b d).2.sz = d.addr + d.sz ∧
      ((absorbPrev b d).2.addr = d.addr ∨
        ∃ p ∈ b, p.type = .free ∧ p.addr = (absorbPrev b d).2.addr) := by
  cases b with
  | nil => exact ⟨fun _ _ => Iff.rfl, fun _ h => h, le_rfl, rfl, hd, rfl, .inl rfl⟩
  | cons q b =>
    by_cases h : q.addr + q.sz = d.addr ∧ q.type = d.type
    · have hq : q.type = .free := h.2.trans hd
      rw [absorbPrev_touch h, freeSz_cons, if_pos hq]
      refine ⟨fun p hp => ?_, fun p hp => List.mem_cons_of_mem q hp, by simp, by dsimp only; omega, hd,
        by dsimp only; omega, .inr ⟨q, List.mem_cons_self, hq, rfl⟩⟩
      exact (mem_cons_of_busy hp hq).symm
    · rw [absorbPrev_apart h]
      exact ⟨fun _ _ => Iff.rfl, fun _ h => h, le_rfl, rfl, hd, rfl, .inl rfl⟩

/-- So is the region after it. -/
theorem absorbNext_cases (a : List (Desc KmemType)) (hd : d.type = .free) :
    (∀ p, p.type = .busy → (p ∈ (absorbNext d a).2 ↔ p ∈ a)) ∧
      (∀ p ∈ (absorbNext d a).2, p ∈ a) ∧ (absorbNext d a).2.length ≤ a.length ∧
      (absorbNext d a).1.sz + freeSz (absorbNext d a).2 = d.sz + freeSz a ∧
      (absorbNext d a).1.type = .free ∧ (absorbNext d a).1.addr = d.addr ∧
      ((absorbNext d a).1.addr + (absorbNext d a).1.sz = d.addr + d.sz ∨
        ∃ p ∈ a, p.type = .free ∧
          p.addr + p.sz = (absorbNext d a).1.addr + (absorbNext d a).1.sz) := by
  cases a with
  | nil => exact ⟨fun _ _ => Iff.rfl, fun _ h => h, le_rfl, rfl, hd, rfl, .inl rfl⟩
  | cons q a =>
    by_cases h : d.addr + d.sz = q.addr ∧ d.type = q.type
    · have hq : q.type = .free := h.2.symm.trans hd
      rw [absorbNext_touch h, freeSz_cons, if_pos hq]
      refine ⟨fun p hp => ?_, fun p hp => List.mem_cons_of_mem q hp, by simp, by dsimp only; omega, hd,
        rfl, .inr ⟨q, List.mem_cons_self, hq, by dsimp only; omega⟩⟩
      exact (mem_cons_of_busy hp hq).symm
    · rw [absorbNext_apart h]
      exact ⟨fun _ _ => Iff.rfl, fun _ h => h, le_rfl, rfl, hd, rfl, .inl rfl⟩

/-- A freed region in its list: the region it became, and what stands around that. -/
theorem merged_cases (b a : List (Desc KmemType)) (hd : d.type = .free) :
    ∃ b' m a', merged b d a = join b' (m :: a') ∧
      (∀ p, p.type = .busy → (p ∈ b' ∨ p ∈ a' ↔ p ∈ b ∨ p ∈ a)) ∧ (∀ p ∈ b', p ∈ b) ∧ (∀ p ∈ a', p ∈ a) ∧
      b'.length + a'.length ≤ b.length + a.length ∧
      freeSz b' + m.sz + freeSz a' = freeSz b + d.sz + freeSz a ∧ m.type = .free ∧
      (m.addr = d.addr ∨ ∃ p ∈ b, p.type = .free ∧ p.addr = m.addr) ∧
      (m.addr + m.sz = d.addr + d.sz ∨ ∃ p ∈ a, p.type = .free ∧ p.addr + p.sz = m.addr + m.sz) := by
  obtain ⟨hb0, hb1, hb2, hb3, hb4, hb5, hb6⟩ := absorbPrev_cases b hd
  obtain ⟨ha0, ha1, ha2, ha3, ha4, ha5, ha6⟩ := absorbNext_cases a hb4
  rw [← ha5] at hb6
  rw [hb5] at ha6
  exact ⟨_, _, _, rfl, fun p hp => or_congr (hb0 p hp) (ha0 p hp), hb1, ha1, by omega, by omega, ha4, hb6, ha6⟩

end Merged

/-- The list behind `free` of a busy region. -/
structure Freed (A : Arch) (l : List (Desc KmemType)) (b : List (Desc KmemType))
    (pos : Desc KmemType) (a l' : List (Desc KmemType)) : Prop where
  before : l = join b (pos :: a)
  busy : pos.type = .busy
  after : l' = merged b ⟨pos.addr, pos.sz, .free⟩ a
  wf : Wf A l'
  puts : Puts l l' pos.addr pos.sz .free .combine

namespace Freed

variable {pos : Desc KmemType}

theorem length_le (h : Freed A l b pos a l') : l'.length ≤ l.length := by
  obtain ⟨b', m, a', hm, -, -, -, hlen, -⟩ := merged_cases (d := ⟨pos.addr, pos.sz, .free⟩) b a rfl
  rw [h.before, h.after, hm]
  simp only [join, List.length_append, List.length_reverse, List.length_cons]
  omega

theorem freeSz_eq (h : Freed A l b pos a l') : freeSz l' = freeSz l + pos.sz := by
  obtain ⟨b', m, a', hm, -, -, -, -, hsz, hmt, -⟩ :=
    merged_cases (d := ⟨pos.addr, pos.sz, .free⟩) b a rfl
  dsimp only at hsz
  rw [h.before, h.after, hm]
  simp only [freeSz_join, freeSz_cons, hmt, h.busy, if_pos, reduceCtorEq, if_false]
  omega

/-- The busy regions are those of before without the freed one. -/
theorem busy_iff (h : Freed A l b pos a l') (hwf : Wf A l) {d : Desc KmemType}
    (hd : d.type = .busy) : d ∈ l' ↔ d ∈ l ∧ d ≠ pos := by
  obtain ⟨b', m, a', hm, hkept, -, -, -, -, hmt, -⟩ :=
    merged_cases (d := ⟨pos.addr, pos.sz, .free⟩) b a rfl
  have hne : d ≠ m := by
    rintro rfl
    rw [hd] at hmt
    cases hmt
  rw [h.before] at hwf
  obtain ⟨-, hsort, hba, hpb, hpa⟩ := wf_join.mp hwf
  have hpp := (hpa pos List.mem_cons_self).1
  -- the freed region stands once in the list
  have hbp : pos ∉ b := by
    intro hp
    have := hba pos hp pos List.mem_cons_self
    unfold Before at this
    omega
  have hap : pos ∉ a := by
    intro hp
    have := (List.pairwise_cons.mp hsort).1 pos hp
    unfold Before at this
    omega
  rw [h.before, h.after, hm, mem_join, mem_join, List.mem_cons, List.mem_cons, or_iff_right hne,
    hkept d hd]
  constructor
  · intro hmem
    refine ⟨hmem.imp_right .inr, ?_⟩
    rintro rfl
    exact hmem.elim hbp hap
  · rintro ⟨hmem | rfl | hmem, hdp⟩
    · exact .inl hmem
    · exact absurd rfl hdp
    · exact .inr hmem

/-- The pool stays tiled. -/
theorem tiles (h : Freed A l b pos a l') (ht : Tiles A lo hi l) : Tiles A lo hi l' := by
  have hpos : pos ∈ l := by
    rw [h.before]
    exact mem_join.mpr (.inr List.mem_cons_self)
  have hpp := (ht.wf.proper pos hpos).1
  refine ⟨h.wf, fun v => ?_, ?_⟩
  · rw [← ht.covers v]
    constructor
    · rintro ⟨t, hv⟩
      rcases (h.puts.1 v t).mp hv with ⟨hr, -⟩ | ⟨-, hv⟩
      · exact ⟨pos.type, pos, hpos, hr, rfl⟩
      · exact ⟨t, hv⟩
    · rintro ⟨t, hv⟩
      by_cases hr : pos.addr ≤ v ∧ v < pos.addr + pos.sz
      · exact ⟨.free, (h.puts.1 v .free).mpr (.inl ⟨hr, rfl⟩)⟩
      · exact ⟨t, (h.puts.1 v t).mpr (.inr ⟨hr, hv⟩)⟩
  · obtain ⟨b', m, a', hm, -, hb', ha', -, -, hmt, hstart, hstop⟩ :=
      merged_cases (d := ⟨pos.addr, pos.sz, .free⟩) b a rfl
    dsimp only at hstart hstop
    have hwf := ht.wf
    rw [h.before] at hwf
    obtain ⟨-, hsort, hba, -, -⟩ := wf_join.mp hwf
    have hb : ∀ p ∈ b, p.addr + p.sz ≤ pos.addr := fun p hp => hba p hp pos List.mem_cons_self
    have ha : ∀ p ∈ a, pos.addr + pos.sz ≤ p.addr := (List.pairwise_cons.mp hsort).1
    have hbl : ∀ p ∈ b, p ∈ l := fun p hp => h.before ▸ mem_join.mpr (.inl hp)
    have hal : ∀ p ∈ a, p ∈ l := fun p hp =>
      h.before ▸ mem_join.mpr (.inr (List.mem_cons_of_mem pos hp))
    -- a free region that is left does not touch the freed one
    have hnot : ∀ d ∈ l', d ∈ l → d.type = .free → d.addr + d.sz ≤ pos.addr ∨
        pos.addr + pos.sz ≤ d.addr → ¬ Touches d pos.addr pos.sz := by
      intro d hd hdl hdf hout htouch
      obtain ⟨D, hD, -, hDpos, hall⟩ := h.puts.2 rfl
      have hDd := hall d hdl hdf htouch
      have hdp := (h.wf.proper d hd).1
      simp only [Contains] at hDd hDpos
      have heq : D = d := h.wf.holds_unique (v := d.addr) hD hd ⟨by omega, by omega⟩
        ⟨le_rfl, by omega⟩
      rw [heq] at hDpos
      omega
    have hm' : m ∈ l' := by
      rw [h.after, hm]
      exact mem_join.mpr (.inr List.mem_cons_self)
    have hmp := (h.wf.proper m hm').1
    intro d hd e he hdf hef htouch
    have hdp := (h.wf.proper d hd).1
    have hep := (h.wf.proper e he).1
    have hdnot := hnot d hd
    have henot := hnot e he
    unfold Touches at hdnot henot
    rw [h.after, hm, mem_join, List.mem_cons] at hd he
    have hold : ∀ x, x ∈ b' ∨ x ∈ a' → x ∈ l := fun x hx =>
      hx.elim (fun hx => hbl x (hb' x hx)) (fun hx => hal x (ha' x hx))
    rcases hd with hd | rfl | hd <;> rcases he with he | rfl | he
    · exact ht.spread d (hold d (.inl hd)) e (hold e (.inl he)) hdf hef htouch
    · have hdl := hold d (.inl hd)
      have := hb d (hb' d hd)
      rcases hstart with hs | ⟨p, hp, hpf, hpe⟩
      · exact hdnot hdl hdf (.inl this) (by omega)
      · exact ht.spread d hdl p (hbl p hp) hdf hpf (by omega)
    · exact ht.spread d (hold d (.inl hd)) e (hold e (.inr he)) hdf hef htouch
    · have := hb e (hb' e he)
      rcases hstop with hs | ⟨p, hp, hpf, hpe⟩
      · omega
      · have := ha p hp
        omega
    · omega
    · have hel := hold e (.inr he)
      have := ha e (ha' e he)
      rcases hstop with hs | ⟨p, hp, hpf, hpe⟩
      · exact henot hel hef (.inr this) (by omega)
      · exact ht.spread p (hal p hp) e hel hpf hef (by omega)
    · exact ht.spread d (hold d (.inr hd)) e (hold e (.inl he)) hdf hef htouch
    · have := ha d (ha' d hd)
      rcases hstart with hs | ⟨p, hp, hpf, hpe⟩
      · omega
      · have := hb p hp
        omega
    · exact ht.spread d (hold d (.inr hd)) e (hold e (.inr he)) hdf hef htouch

end Freed

/-! ## Freeing what was just allocated -/

/-- The pieces around a block and the block, freed, are the region the block was cut out of. -/
theorem Carved.merged_eq {pos : Desc KmemType} {addr sz : Nat} (h : Carved A l addr sz b pos a l')
    (ht : Tiles A lo hi l) :
    merged (headPiece pos addr ++ b) ⟨addr, sz, .free⟩ (tailPiece pos (addr + sz) ++ a) = l := by
  have hin := h.inside
  have hpos : pos ∈ l := by
    rw [h.before]
    exact mem_join.mpr (.inr List.mem_cons_self)
  have hprev : absorbPrev (headPiece pos addr ++ b) ⟨addr, sz, .free⟩ =
      (b, ⟨pos.addr, addr + sz - pos.addr, .free⟩) := by
    unfold headPiece
    split_ifs with hlt
    · rw [List.singleton_append, absorbPrev_touch ⟨by dsimp only; omega, h.free⟩]
      dsimp only
      rw [show addr - pos.addr + sz = addr + sz - pos.addr by omega]
    · obtain rfl : addr = pos.addr := by omega
      have hsame : (⟨pos.addr, sz, .free⟩ : Desc KmemType) =
          ⟨pos.addr, pos.addr + sz - pos.addr, .free⟩ := by simp
      rw [List.nil_append, ← hsame]
      cases b with
      | nil => rfl
      | cons p b =>
        -- a free region does not touch the one the block is cut out of
        refine absorbPrev_apart fun ⟨htouch, hp⟩ => ?_
        exact ht.spread p (h.before ▸ mem_join.mpr (.inl List.mem_cons_self)) pos hpos hp h.free htouch
  have hnext : absorbNext ⟨pos.addr, addr + sz - pos.addr, .free⟩ (tailPiece pos (addr + sz) ++ a) =
      (pos, a) := by
    have hfree := h.free
    unfold tailPiece
    split_ifs with hlt
    · rw [List.singleton_append, absorbNext_touch ⟨by dsimp only; omega, hfree.symm⟩]
      dsimp only
      rw [show addr + sz - pos.addr + (pos.addr + pos.sz - (addr + sz)) = pos.sz by omega, ← hfree]
    · have hsame : (⟨pos.addr, addr + sz - pos.addr, .free⟩ : Desc KmemType) = pos := by
        rw [show addr + sz - pos.addr = pos.sz by omega, ← hfree]
      rw [List.nil_append, hsame]
      cases a with
      | nil => rfl
      | cons n a =>
        refine absorbNext_apart fun ⟨htouch, hn⟩ => ?_
        have hmem : n ∈ l := h.before ▸ mem_join.mpr (.inr (by simp))
        exact ht.spread pos hpos n hmem hfree (hn ▸ hfree) htouch
  unfold merged
  rw [hprev, hnext, h.before]

/-! ## Runs -/

/-- A block in use: its address, and the size and alignment it was asked for with. -/
structure Block where
  addr : Nat
  sz : Nat
  align : Nat
  deriving DecidableEq, Repr

/-- The heap and the blocks in use, the latest first. -/
structure State where
  heap : Kmem
  live : List Block
  deriving DecidableEq, Repr

/-- The calls. -/
inductive Call where
  | alloc (sz align : Nat)
  | free (va : Nat)

/-- The state after a call. -/
def State.step (A : Arch) (s : State) : Call → Except Stop State
  | .alloc sz align => do
    let r ← s.heap.alloc A sz align
    pure ⟨r.1, ⟨r.2, sz, align⟩ :: s.live⟩
  | .free va => do
    let h ← s.heap.free A va
    pure ⟨h, s.live.filter fun b => b.addr ≠ va⟩

/-- The heap at the start: the pool at `va`. -/
def State.start (A : Arch) (va : Nat) : Except Stop State := do
  let h ← setupPremapped A va
  pure ⟨h, []⟩

/-- The arguments of `alloc` are words, the alignment is a power of two, and rounding up the size does
not wrap. -/
def Call.Fits (A : Arch) : Call → Prop
  | .alloc sz align =>
    align.isPowerOfTwo ∧ align < 2 ^ A.wordBits ∧ sz + (allocMinSz - 1) < 2 ^ A.wordBits
  | .free _ => True

/-- **The invariant of the heap** whose pool begins at `va`. -/
structure Conserved (A : Arch) (va : Nat) (s : State) : Prop where
  tiles : Tiles A va (va + poolInitSz) s.heap.memory
  poolSz : s.heap.poolSz = freeSz s.heap.memory
  room : s.heap.memory.length ≤ room
  blocks : ∀ b ∈ s.live, b.align ∣ b.addr ∧
    ∃ d ∈ s.heap.memory, d.type = .busy ∧ d.addr = b.addr ∧ b.sz ≤ d.sz
  busy : ∀ d ∈ s.heap.memory, d.type = .busy → ∃ b ∈ s.live, b.addr = d.addr
  apart : s.live.Pairwise fun b c => b.addr + b.sz ≤ c.addr ∨ c.addr + c.sz ≤ b.addr

/-- **`alloc`** cuts an aligned block that is large enough out of a free region. -/
theorem Conserved.alloc_carved {s : State} {sz align : Nat} {r : Kmem × Nat}
    (h : Conserved A va s) (hfits : (Call.alloc sz align).Fits A)
    (hr : s.heap.alloc A sz align = .ok r) :
    ∃ n b pos a, Carved A s.heap.memory r.2 n b pos a r.1.memory ∧ 0 < n ∧ sz ≤ n ∧ align ∣ r.2 ∧
      r.1.poolSz = A.sub s.heap.poolSz n := by
  obtain ⟨hpow, halign, hround⟩ := hfits
  obtain ⟨⟨hsz, -⟩, hr⟩ := ensure_bind_eq_ok.mp hr
  obtain ⟨q, hq, hr⟩ := bind_eq_ok.mp hr
  obtain rfl := Except.ok.inj hr
  have hle : sz ≤ roundUp A sz allocMinSz :=
    (roundUp_bounds (by decide) (by have : allocMinSz - 1 + 1 = allocMinSz := rfl; omega)).1
  have hpool : va + poolInitSz < va + 2 ^ (A.wordBits - 1) := by
    have : poolInitSz < 2 ^ (A.wordBits - 1) := by cases A <;> decide
    omega
  obtain ⟨⟨b, pos, a, hc⟩, hdvd⟩ := allocFrom_carved (b := []) (a := s.heap.memory) (by omega) hpow halign
    hpool h.tiles hq
  exact ⟨_, b, pos, a, hc, by omega, hle, hdvd, rfl⟩

/-- **`free`** of a busy region. -/
theorem Conserved.free_freed {s : State} {pos : Desc KmemType} (h : Conserved A va s)
    (hmem : pos ∈ s.heap.memory) (hbusy : pos.type = .busy) :
    ∃ b a r, s.heap.free A pos.addr = .ok r ∧ Freed A s.heap.memory b pos a r.memory ∧
      r.poolSz = A.add s.heap.poolSz pos.sz := by
  obtain ⟨c, a, hsplit⟩ := List.append_of_mem hmem
  have hjoin : s.heap.memory = join c.reverse (pos :: a) := by
    rw [hsplit, join, List.reverse_reverse]
  have hwf := h.tiles.wf
  have hp := hwf.proper pos hmem
  refine ⟨c.reverse, a, _, free_eq hjoin hbusy hwf h.room, ?_, rfl⟩
  rw [hjoin] at hwf
  have hroom := h.room
  rw [hjoin] at hroom
  have hset := setTypeAt_free hwf hbusy hroom
  rw [setTypeAt, ensure_bind_of ⟨le_rfl, le_rfl⟩, ensure_bind_of (by rw [hbusy]; decide)] at hset
  obtain ⟨q, hq, hadd⟩ := bind_eq_ok.mp hset
  obtain ⟨hwf', hputs⟩ := removeAt_addAt_puts hwf hp.1 hp.2 ⟨le_rfl, le_rfl⟩ hq hadd
  exact ⟨hjoin, hbusy, rfl, hwf', hjoin ▸ hputs⟩

/-- `pool_sz` is a number of bytes of the pool. -/
theorem Conserved.poolSz_le {s : State} (h : Conserved A va s) : s.heap.poolSz ≤ poolInitSz := by
  rw [h.poolSz]
  exact (freeSz_le h.tiles.wf.sorted (by omega) fun d hd => h.tiles.inside hd).trans (by omega)

/-- The word size is beyond the size of the pool. -/
theorem poolInitSz_lt (A : Arch) : poolInitSz < 2 ^ A.wordBits := by
  cases A <;> decide

/-- A call of `alloc` keeps the invariant. -/
theorem Conserved.alloc {s : State} {sz align : Nat} {r : Kmem × Nat} (h : Conserved A va s)
    (hfits : (Call.alloc sz align).Fits A) (hr : s.heap.alloc A sz align = .ok r) :
    Conserved A va ⟨r.1, ⟨r.2, sz, align⟩ :: s.live⟩ := by
  obtain ⟨n, b, pos, a, hc, hn, hsz, hdvd, hpool⟩ := h.alloc_carved hfits hr
  have hsum := hc.freeSz_eq
  have hle := h.poolSz_le
  have hlt := poolInitSz_lt A
  have hnew : (⟨r.2, n, .busy⟩ : Desc KmemType) ∈ r.1.memory := (hc.busy_iff rfl).mpr (.inl rfl)
  have hpos : pos ∈ s.heap.memory := by
    rw [hc.before]
    exact mem_join.mpr (.inr List.mem_cons_self)
  have hin := hc.inside
  refine ⟨hc.tiles h.tiles hn, ?_, hc.room, ?_, ?_, ?_⟩
  · have := h.poolSz
    show r.1.poolSz = freeSz r.1.memory
    rw [hpool, Arch.sub_of_le (by omega) (by omega)]
    omega
  · intro c hc'
    rcases List.mem_cons.mp hc' with rfl | hc'
    · exact ⟨hdvd, _, hnew, rfl, rfl, hsz⟩
    · obtain ⟨hal, d, hd, hbusy, haddr⟩ := h.blocks c hc'
      exact ⟨hal, d, (hc.busy_iff hbusy).mpr (.inr hd), hbusy, haddr⟩
  · intro d hd hbusy
    rcases (hc.busy_iff hbusy).mp hd with rfl | hd
    · exact ⟨_, List.mem_cons_self, rfl⟩
    · obtain ⟨c, hc', haddr⟩ := h.busy d hd hbusy
      exact ⟨c, List.mem_cons_of_mem _ hc', haddr⟩
  · refine List.pairwise_cons.mpr ⟨fun c hc' => ?_, h.apart⟩
    -- the region of another block and the free one share no address
    obtain ⟨-, d, hd, hbusy, haddr, hdsz⟩ := h.blocks c hc'
    have hdp := (h.tiles.wf.proper d hd).1
    have hpp := (h.tiles.wf.proper pos hpos).1
    have hne : ∀ v, Holds d v → ¬ Holds pos v := by
      intro v hdv hpv
      obtain rfl := h.tiles.wf.holds_unique hd hpos hdv hpv
      rw [hc.free] at hbusy
      cases hbusy
    have hapart : d.addr + d.sz ≤ pos.addr ∨ pos.addr + pos.sz ≤ d.addr :=
      (apart_iff hdp hpp).mp fun v h1 h2 => hne v ⟨h1, h2⟩
    dsimp only
    omega

/-- A call of `free` keeps the invariant. -/
theorem Conserved.free {s : State} {va' : Nat} {r : Kmem} (h : Conserved A va s)
    (hr : s.heap.free A va' = .ok r) :
    Conserved A va ⟨r, s.live.filter fun b => b.addr ≠ va'⟩ := by
  obtain ⟨pos, hmem, hbusy, rfl⟩ := busy_of_free hr
  obtain ⟨b, a, r', hr', hf, hpool⟩ := h.free_freed hmem hbusy
  obtain rfl := Except.ok.inj (hr'.symm.trans hr)
  have hsum := hf.freeSz_eq
  have hlt := poolInitSz_lt A
  have hwf := h.tiles.wf
  have hsame : ∀ d ∈ s.heap.memory, d.addr = pos.addr → d = pos := by
    intro d hd haddr
    have hdp := (hwf.proper d hd).1
    have hpp := (hwf.proper pos hmem).1
    exact hwf.holds_unique (v := pos.addr) hd hmem ⟨by omega, by omega⟩ ⟨le_rfl, by omega⟩
  have htiles := hf.tiles h.tiles
  have hle : freeSz r'.memory ≤ poolInitSz :=
    (freeSz_le htiles.wf.sorted (by omega) fun d hd => htiles.inside hd).trans (by omega)
  refine ⟨htiles, ?_, hf.length_le.trans h.room, ?_, ?_, h.apart.filter _⟩
  · have := h.poolSz
    show r'.poolSz = freeSz r'.memory
    rw [hpool, Arch.add_of_lt (by omega)]
    omega
  · intro c hc
    obtain ⟨hc, hne⟩ := List.mem_filter.mp hc
    obtain ⟨hal, d, hd, hdb, haddr, hsz⟩ := h.blocks c hc
    refine ⟨hal, d, (hf.busy_iff hwf hdb).mpr ⟨hd, ?_⟩, hdb, haddr, hsz⟩
    rintro rfl
    exact absurd haddr.symm (by simpa using hne)
  · intro d hd hdb
    obtain ⟨hd, hne⟩ := (hf.busy_iff hwf hdb).mp hd
    obtain ⟨c, hc, haddr⟩ := h.busy d hd hdb
    refine ⟨c, List.mem_filter.mpr ⟨hc, ?_⟩, haddr⟩
    simpa using fun heq => hne (hsame d hd (haddr.symm.trans heq))

/-- **Freeing a block right after its allocation** gives the old heap back. -/
theorem Conserved.free_alloc {s : State} {sz align : Nat} {r : Kmem × Nat} (h : Conserved A va s)
    (hfits : (Call.alloc sz align).Fits A) (hr : s.heap.alloc A sz align = .ok r) :
    r.1.free A r.2 = .ok s.heap := by
  obtain ⟨n, b, pos, a, hc, hn, hsz, hdvd, hpool⟩ := h.alloc_carved hfits hr
  have hle := h.poolSz_le
  have hlt := poolInitSz_lt A
  have hsum := hc.freeSz_eq
  have hps := h.poolSz
  have hfree := free_eq hc.after rfl hc.wf hc.room
  have hmerge := hc.merged_eq h.tiles
  dsimp only at hfree
  rw [hfree, hmerge, hpool, Arch.sub_of_le (by omega) (by omega), Arch.add_of_lt (by omega),
    show s.heap.poolSz - n + n = s.heap.poolSz by omega]

/-- The heap at the start. -/
theorem start_conserved {s : State} (hva : va + poolInitSz < 2 ^ A.wordBits)
    (h : State.start A va = .ok s) : Conserved A va s := by
  obtain ⟨k, hk, h⟩ := bind_eq_ok.mp h
  obtain rfl := Except.ok.inj h
  obtain ⟨-, hk⟩ := ensure_bind_eq_ok.mp hk
  obtain ⟨-, hk⟩ := ensure_bind_eq_ok.mp hk
  obtain ⟨l, hl, hk⟩ := bind_eq_ok.mp hk
  obtain rfl := Except.ok.inj hk
  have hl : l = [⟨va, poolInitSz, .free⟩] := addAt_notCombine (b := []) (a := []) hl
  subst hl
  have hpool : 0 < poolInitSz := by decide
  refine ⟨⟨⟨by simp, ?_⟩, fun v => ?_, ?_⟩, by simp, by simp [room], by simp, by simp,
    List.Pairwise.nil⟩
  · intro d hd
    obtain rfl := List.mem_singleton.mp hd
    exact ⟨hpool, hva⟩
  · simp [Covers, Holds]
  · intro d hd e he _ _
    obtain rfl := List.mem_singleton.mp hd
    obtain rfl := List.mem_singleton.mp he
    dsimp only
    omega

/-- **The heap conserves its pool.**  After every run of calls whose rounded sizes do not wrap, the
regions tile the pool, the live blocks are aligned, large enough and apart, and `pool_sz` is the sum of
the free sizes; without live blocks the pool is one free region; a block that is freed right after its
allocation leaves no trace; and every live block can be freed. -/
theorem run_conserved {cs : List Call} {s₀ s : State} (hva : va + poolInitSz < 2 ^ A.wordBits)
    (h₀ : State.start A va = .ok s₀) (hcs : ∀ c ∈ cs, c.Fits A)
    (h : runAll (State.step A) s₀ cs = .ok s) :
    Conserved A va s ∧
      (s.live = [] → s.heap.memory = [⟨va, poolInitSz, .free⟩]) ∧
      (∀ sz align r, (Call.alloc sz align).Fits A → s.heap.alloc A sz align = .ok r →
        r.1.free A r.2 = .ok s.heap) ∧
      ∀ b ∈ s.live, ∃ r, s.heap.free A b.addr = .ok r := by
  have hs : Conserved A va s := by
    refine runAll_invariant (I := Conserved A va) (C := fun _ c => c.Fits A) ?_
      (start_conserved hva h₀) (meets_of_forall fun c hc _ => hcs c hc) h
    intro s c s' hs hc hstep
    cases c with
    | alloc sz align =>
      obtain ⟨r, hr, hstep⟩ := bind_eq_ok.mp hstep
      obtain rfl := Except.ok.inj hstep
      exact hs.alloc hc hr
    | free va' =>
      obtain ⟨r, hr, hstep⟩ := bind_eq_ok.mp hstep
      obtain rfl := Except.ok.inj hstep
      exact hs.free hr
  refine ⟨hs, fun hlive => ?_, fun sz align r hfits hr => hs.free_alloc hfits hr, fun b hb => ?_⟩
  · have hpool : 0 < poolInitSz := by decide
    have hfree : ∀ d ∈ s.heap.memory, d.type = .free := by
      intro d hd
      cases hdt : d.type with
      | free => rfl
      | busy =>
        obtain ⟨b, hb, -⟩ := hs.busy d hd hdt
        rw [hlive] at hb
        cases hb
    have := hs.tiles.eq_singleton (by omega) hfree
    rwa [Nat.add_sub_cancel_left] at this
  · obtain ⟨-, d, hd, hbusy, haddr, -⟩ := hs.blocks b hb
    obtain ⟨_, _, r, hr, -⟩ := hs.free_freed hd hbusy
    exact ⟨r, haddr ▸ hr⟩

/-- Two blocks are allocated and the first is freed again. -/
theorem twoBlocks_conserved :
    Conserved .sparc 0x10000 ⟨⟨[⟨0x10000, 0x1000, .free⟩, ⟨0x11000, 0x100, .busy⟩,
      ⟨0x11100, 0xfef00, .free⟩], 0xfff00⟩, [⟨0x11000, 0x100, 0x1000⟩]⟩ :=
  (@run_conserved _ _ [.alloc 0x10 0x40, .alloc 0x100 0x1000, .free 0x10000]
    ⟨⟨[⟨0x10000, 0x100000, .free⟩], 0x100000⟩, []⟩ _ (by decide) (by decide)
    (by simp [Call.Fits, Nat.isPowerOfTwo]
        exact ⟨⟨⟨6, rfl⟩, by decide⟩, ⟨12, rfl⟩, by decide⟩) (by decide)).1

/-- **A size that wraps when it is rounded up.**  The block has no bytes, and the next block begins at
the same address. -/
theorem hugeBlock_not_conserved :
    let s : State := ⟨⟨[⟨0x10000, 0, .busy⟩, ⟨0x10000, 0x40, .busy⟩, ⟨0x10040, 0xfffc0, .free⟩],
      0xfffc0⟩, [⟨0x10000, 0x40, 0x40⟩, ⟨0x10000, 0xffffffff, 0x40⟩]⟩
    (do let s ← State.start .sparc 0x10000
        runAll (State.step .sparc) s [.alloc 0xffffffff 0x40, .alloc 0x40 0x40]) = .ok s ∧
      ¬ Conserved .sparc 0x10000 s := by
  intro s
  refine ⟨by decide, fun h => ?_⟩
  have := (List.pairwise_cons.mp h.apart).1 _ List.mem_cons_self
  revert this
  decide

end Kmem
end Wrmos
