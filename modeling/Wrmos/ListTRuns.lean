import Wrmos.ListTSpec

/-!
# Every run of the list container is one of the abstract list

`Pool` is what `list_t` is for: a sequence of elements, each in an item of its own, and the items that
are not in use.  It also remembers all items it was ever given.  A run of calls on it is valid if every
position is one of the list, no memory is given twice, and there is room for a new element, be it that the
allocator has some.
-/

namespace Wrmos
namespace ListT

open Lib

/-- A sequence over a pool of items, and all items that were added to the pool. -/
structure Pool (T : Type) where
  list : NodeList T
  added : List Nat

variable {T : Type} {k : ItemType T} {s s' : State T} {p p' : Pool T} {op : Op T} {r : Nat}

namespace Pool

variable (k : ItemType T) (p : Pool T)

/-- The items of a block are added. -/
def addMem (base sz : Nat) : Pool T :=
  ⟨p.list.addNodes (k.blockItems base sz), p.added ++ k.blockItems base sz⟩

/-- The allocator is asked when no item is free. -/
def grow (mem : Option Block) : Pool T :=
  match p.list.free, mem with
  | [], some (base, sz) => p.addMem k base sz
  | _, _ => p

/-- One of the insertions. -/
def insert (f : NodeList T → Option (NodeList T × Nat)) : Except Stop (Pool T × Nat) :=
  match f p.list with
  | none => throw (.panic "list is full")
  | some (L, n) => pure ({ p with list := L }, n)

variable {p} in
/-- What is inserted matters, not how it is said. -/
theorem insert_congr {f g : NodeList T → Option (NodeList T × Nat)} (h : f p.list = g p.list) :
    p.insert f = p.insert g := by
  unfold insert
  rw [h]

variable {p} in
theorem insert_eq_ok {f : NodeList T → Option (NodeList T × Nat)} {p' : Pool T} {n : Nat}
    (h : p.insert f = .ok (p', n)) : f p.list = some (p'.list, n) := by
  unfold insert at h
  split at h
  · cases h
  · rename_i L m hL
    obtain ⟨rfl, rfl⟩ := Prod.mk.inj (Except.ok.inj h)
    exact hL

variable {p k} in
theorem busy_grow {mem : Option Block} : (p.grow k mem).list.busy = p.list.busy := by
  unfold grow
  split <;> rfl

variable {p k} in
theorem mem_grow {mem : Option Block} {e : Nat × T} :
    e ∈ (p.grow k mem).list.busy ↔ e ∈ p.list.busy := by
  rw [busy_grow]

/-- A call on the abstract list. -/
def call : Op T → Except Stop (Pool T × Nat)
  | .addMemory base sz => pure (p.addMem k base sz, 0)
  | .pushBack val mem => ((p.grow k mem).insert (·.pushBack val)).map fun r => (r.1, 0)
  | .insertBefore pos val mem => (p.grow k mem).insert (·.insertBefore pos val)
  | .insertAfter pos val mem => (p.grow k mem).insert (·.insertAfter pos val)
  | .insertSort val mem => (p.grow k mem).insert (·.insertWhere (fun e => !k.less e val) val)
  | .erase pos => pure ({ p with list := p.list.erase pos }, p.list.behind pos)
  | .clear => pure ({ p with list := p.list.clear }, 0)

def step (op : Op T) : Except Stop (Pool T) := (p.call k op).map Prod.fst

/-- The empty list with `n` items of its own. -/
def new (localBuf n : Nat) : Pool T := (⟨⟨[], []⟩, []⟩ : Pool T).addMem k localBuf (k.itemSize * n)

/-- The block is no null pointer and does not overlap an item. -/
def Fresh (base sz : Nat) : Prop :=
  base ≠ 0 ∧ ∀ n ∈ p.added, n + k.itemSize ≤ base ∨ base + sz ≤ n

/-- There is room for one more element, if need be from the allocator. -/
def Room (mem : Option Block) : Prop :=
  p.list.free = [] → ∃ b ∈ mem, k.itemSize ≤ b.2 ∧ p.Fresh k b.1 b.2

/-- An iterator of the list, `end()` of the empty one included. -/
def IsPos (pos : Nat) : Prop := pos ∈ p.list.nodes ∨ p.list.nodes = [] ∧ pos = 0

/-- The call is made at a valid position and within the capacity. -/
def Valid : Op T → Prop
  | .addMemory base sz => p.Fresh k base sz
  | .pushBack _ mem => p.Room k mem
  | .insertBefore pos _ mem => p.Room k mem ∧ p.IsPos pos
  | .insertAfter pos _ mem => p.Room k mem ∧ p.IsPos pos
  | .insertSort _ mem => p.Room k mem
  | .erase pos => pos ∈ p.list.nodes
  | .clear => True

instance (mem : Option Block) : Decidable (p.Room k mem) :=
  match mem with
  | none => decidable_of_iff (p.list.free ≠ []) (by simp [Room])
  | some b => decidable_of_iff (p.list.free = [] → k.itemSize ≤ b.2 ∧ b.1 ≠ 0 ∧
      ∀ n ∈ p.added, n + k.itemSize ≤ b.1 ∨ b.1 + b.2 ≤ n) (by simp [Room, Fresh])

instance : DecidablePred (p.Valid k)
  | .addMemory base _ => inferInstanceAs (Decidable (base ≠ 0 ∧ _))
  | .pushBack _ mem => inferInstanceAs (Decidable (p.Room k mem))
  | .insertBefore _ _ mem => inferInstanceAs (Decidable (p.Room k mem ∧ (_ ∨ _)))
  | .insertAfter _ _ mem => inferInstanceAs (Decidable (p.Room k mem ∧ (_ ∨ _)))
  | .insertSort _ mem => inferInstanceAs (Decidable (p.Room k mem))
  | .erase _ => inferInstanceAs (Decidable (_ ∈ _))
  | .clear => isTrue trivial

end Pool

/-! ## One call -/

/-- The items of a block lie apart and inside it. -/
theorem blockItems_bounds {base sz n : Nat} (h : n ∈ k.blockItems base sz) :
    base ≤ n ∧ n + k.itemSize ≤ base + sz := by
  obtain ⟨i, hi, rfl⟩ := List.mem_map.mp h
  have hlt : i + 1 ≤ sz / k.itemSize := List.mem_range.mp hi
  have hle : (i + 1) * k.itemSize ≤ sz :=
    (Nat.mul_le_mul_right _ hlt).trans (Nat.div_mul_le_self sz k.itemSize)
  rw [Nat.succ_mul] at hle
  omega

theorem blockItems_nodup {base sz : Nat} : (k.blockItems base sz).Nodup := by
  refine List.nodup_range.map fun i j hij => ?_
  exact Nat.eq_of_mul_eq_mul_right k.itemSize_pos (Nat.add_left_cancel hij)

theorem blockItems_ne_nil {base sz : Nat} (h : k.itemSize ≤ sz) : k.blockItems base sz ≠ [] := by
  have hpos : 0 < sz / k.itemSize := Nat.div_pos h k.itemSize_pos
  unfold ItemType.blockItems
  rw [Ne, List.map_eq_nil_iff, List.range_eq_nil]
  exact Nat.ne_of_gt hpos

/-- The state is a representation of the abstract list, whose items are the ones it was given. -/
structure Refines (s : State T) (p : Pool T) : Prop where
  rep : Rep s p.list
  all : (p.list.nodes ++ p.list.free).Perm p.added

namespace Refines

theorem addMem (h : Refines s p) {base sz : Nat} (hfresh : p.Fresh k base sz) :
    ∃ s', s.addMem k base sz = .ok s' ∧ Refines s' (p.addMem k base sz) := by
  obtain ⟨hbase, hapart⟩ := hfresh
  have hout : ∀ y ∈ k.blockItems base sz, y ∉ p.list.nodes ∧ y ∉ p.list.free := by
    intro y hy
    obtain ⟨h1, h2⟩ := blockItems_bounds hy
    have hadded : y ∉ p.added := fun hmem => by
      have hsize := k.itemSize_pos
      rcases hapart y hmem with h3 | h3 <;> omega
    rw [← h.all.mem_iff, List.mem_append, not_or] at hadded
    exact hadded
  have h0 : 0 ∉ k.blockItems base sz := fun h0 => by
    have := (blockItems_bounds h0).1
    omega
  obtain ⟨s', hrun, -, hrep⟩ := h.rep.addItems (k := k) blockItems_nodup h0 hout
  refine ⟨s', ?_, hrep, ?_⟩
  · unfold State.addMem
    rw [hrun]
    show (s'.check k >>= fun _ => _) = _
    rw [hrep.check]
    rfl
  · show (p.list.nodes ++ (p.list.free ++ k.blockItems base sz)).Perm
      (p.added ++ k.blockItems base sz)
    rw [← List.append_assoc]
    exact h.all.append_right _

/-- `check_for_alloc` leaves a free item. -/
theorem checkForAlloc (h : Refines s p) {mem : Option Block} (hroom : p.Room k mem) :
    ∃ s', s.checkForAlloc k mem = .ok s' ∧ Refines s' (p.grow k mem) ∧
      (p.grow k mem).list.free ≠ [] := by
  unfold State.checkForAlloc
  by_cases hfree : p.list.free = []
  · obtain ⟨⟨base, sz⟩, hmem, hsz, hfresh⟩ := hroom hfree
    obtain rfl : mem = some (base, sz) := hmem
    have hgrow : p.grow k (some (base, sz)) = p.addMem k base sz := by
      unfold Pool.grow
      rw [hfree]
    obtain ⟨s', hrun, hrep⟩ := h.addMem hfresh
    rw [if_pos (h.rep.free.sz_eq_zero.mpr hfree), hgrow]
    refine ⟨s', hrun, hrep, ?_⟩
    show p.list.free ++ k.blockItems base sz ≠ []
    rw [hfree]
    exact blockItems_ne_nil hsz
  · have hgrow : p.grow k mem = p := by
      unfold Pool.grow
      split
      · exact absurd ‹_› hfree
      · rfl
    rw [if_neg fun hsz => hfree (h.rep.free.sz_eq_zero.mp hsz), hgrow]
    exact ⟨s, rfl, h, hfree⟩

/-- An insertion, once there is a free item. -/
theorem insertItem (h : Refines s p) (hfree : p.list.free ≠ []) {i pos : Nat} {w : Where} {x : T}
    (hat : Xlist.At (p.list.nodes.take i) (p.list.nodes.drop i) pos w) :
    ∃ s' p' n, s.insertItem k pos w x = .ok (s', n) ∧ p.insert (·.insertAt i x) = .ok (p', n) ∧
      Refines s' p' := by
  obtain ⟨n, fs, hcons⟩ := List.exists_cons_of_ne_nil hfree
  have hins := NodeList.insertAt_of_free (i := i) (x := x) hcons
  obtain ⟨s', hrun, hrep⟩ := h.rep.insertItem (k := k) hins hat
  refine ⟨s', { p with list := ⟨p.list.busy.take i ++ (n, x) :: p.list.busy.drop i, fs⟩ }, n, hrun,
    ?_, hrep, (NodeList.all_insertAt hins).trans h.all⟩
  unfold Pool.insert
  dsimp only
  rw [hins]
  rfl

/-- A position stays one when the allocator has been asked. -/
theorem isPos_grow {mem : Option Block} {pos : Nat} (hpos : p.IsPos pos) :
    (p.grow k mem).IsPos pos := by
  unfold Pool.IsPos NodeList.nodes
  rw [Pool.busy_grow]
  exact hpos

section

variable {val : T} {mem : Option Block} {pos : Nat}

theorem pushBack (val : T) (h : Refines s p) (hroom : p.Room k mem) :
    ∃ s' p' n, s.pushBack k val mem = .ok (s', n) ∧
      (p.grow k mem).insert (·.pushBack val) = .ok (p', n) ∧ Refines s' p' := by
  obtain ⟨s₁, hrun₁, h₁, hfree⟩ := h.checkForAlloc hroom
  have hlen : (p.grow k mem).list.nodes.length ≤ (p.grow k mem).list.busy.length :=
    (List.length_map _).le
  obtain ⟨s', p', n, hrun, habs, h'⟩ := h₁.insertItem (k := k) (x := val) hfree (h₁.rep.at_last hlen)
  refine ⟨s', p', n, ?_, (Pool.insert_congr NodeList.pushBack_eq_insertAt).trans habs, h'⟩
  unfold State.pushBack
  rw [hrun₁]
  exact hrun

theorem insertBefore (h : Refines s p) (hroom : p.Room k mem) (hpos : p.IsPos pos) :
    ∃ s' p' n, s.insertBefore k pos val mem = .ok (s', n) ∧
      (p.grow k mem).insert (·.insertBefore pos val) = .ok (p', n) ∧ Refines s' p' := by
  obtain ⟨s₁, hrun₁, h₁, hfree⟩ := h.checkForAlloc hroom
  obtain ⟨s', p', n, hrun, habs, h'⟩ := h₁.insertItem (k := k) (x := val) hfree
    (Rep.at_before (isPos_grow hpos))
  refine ⟨s', p', n, ?_, habs, h'⟩
  unfold State.insertBefore
  rw [hrun₁]
  exact hrun

theorem insertAfter (h : Refines s p) (hroom : p.Room k mem) (hpos : p.IsPos pos) :
    ∃ s' p' n, s.insertAfter k pos val mem = .ok (s', n) ∧
      (p.grow k mem).insert (·.insertAfter pos val) = .ok (p', n) ∧ Refines s' p' := by
  obtain ⟨s₁, hrun₁, h₁, hfree⟩ := h.checkForAlloc hroom
  obtain ⟨s', p', n, hrun, habs, h'⟩ := h₁.insertItem (k := k) (x := val) hfree
    (Rep.at_after (isPos_grow hpos))
  refine ⟨s', p', n, ?_, habs, h'⟩
  unfold State.insertAfter
  rw [hrun₁]
  exact hrun

/-- `insert_sort` adds before the item that `find_pos` yields, at the end when it yields none. -/
theorem insertSort (h : Refines s p) (hroom : p.Room k mem) :
    ∃ s' p' n, s.insertSort k val mem = .ok (s', n) ∧
      (p.grow k mem).insert (·.insertWhere (fun e => !k.less e val) val) = .ok (p', n) ∧
        Refines s' p' := by
  obtain ⟨s₁, hrun₁, h₁, hfree⟩ := h.checkForAlloc hroom
  have hplace := h₁.rep.findPos (k := k) val
  set i := (p.grow k mem).list.busy.findIdx fun e => !k.less e.2 val
  have hins : (p.grow k mem).insert (·.insertWhere (fun e => !k.less e val) val) =
      (p.grow k mem).insert (·.insertAt i val) :=
    Pool.insert_congr NodeList.insertWhere_eq_insertAt
  by_cases hend : s₁.busy.findPos s₁.links k.less s₁.data val = 0
  · have hdrop : (p.grow k mem).list.nodes.drop i = [] := by
      rcases headD_mem_or ((p.grow k mem).list.nodes.drop i) 0 with hmem | hnil
      · rw [← hplace, hend] at hmem
        exact absurd (List.mem_of_mem_drop hmem) h₁.rep.busy.nonzero
      · exact hnil
    obtain ⟨s', p', n, hrun, habs, h'⟩ := h₁.insertItem (k := k) (x := val) hfree
      (h₁.rep.at_last (List.drop_eq_nil_iff.mp hdrop))
    refine ⟨s', p', n, ?_, hins.trans habs, h'⟩
    unfold State.insertSort
    rw [hrun₁]
    exact (if_neg fun hne => hne hend).trans hrun
  · have hat : Xlist.At ((p.grow k mem).list.nodes.take i) ((p.grow k mem).list.nodes.drop i)
        (s₁.busy.findPos s₁.links k.less s₁.data val) .prev :=
      ⟨hplace, fun hnil => absurd (hplace.trans (by rw [hnil]; rfl)) hend⟩
    obtain ⟨s', p', n, hrun, habs, h'⟩ := h₁.insertItem (k := k) (x := val) hfree hat
    refine ⟨s', p', n, ?_, hins.trans habs, h'⟩
    unfold State.insertSort
    rw [hrun₁]
    exact (if_pos hend).trans hrun

end

/-- **One call.**  What the code does is what the abstract list does, and it returns the same. -/
theorem call (op : Op T) (h : Refines s p) (hvalid : p.Valid k op) :
    ∃ s' p' r, s.call k op = .ok (s', r) ∧ p.call k op = .ok (p', r) ∧ Refines s' p' := by
  cases op with
  | addMemory base sz =>
    obtain ⟨s', hrun, hrep⟩ := h.addMem hvalid
    refine ⟨s', p.addMem k base sz, 0, ?_, rfl, hrep⟩
    show (s.addMem k base sz >>= fun s => pure (s, 0)) = _
    rw [hrun]
    rfl
  | pushBack val mem =>
    obtain ⟨s', p', n, hrun, habs, h'⟩ := h.pushBack val hvalid
    refine ⟨s', p', 0, ?_, ?_, h'⟩
    · show (s.pushBack k val mem >>= fun q => pure (q.1, 0)) = _
      rw [hrun]
      rfl
    · show ((p.grow k mem).insert (·.pushBack val)).map (fun r => (r.1, 0)) = _
      rw [habs]
      rfl
  | insertBefore pos val mem => exact h.insertBefore hvalid.1 hvalid.2
  | insertAfter pos val mem => exact h.insertAfter hvalid.1 hvalid.2
  | insertSort val mem => exact h.insertSort hvalid
  | erase pos =>
    obtain ⟨s', hrun, hrep⟩ := h.rep.erase (k := k) hvalid
    exact ⟨s', { p with list := p.list.erase pos }, p.list.behind pos, hrun, rfl, hrep,
      (NodeList.all_erase h.rep.wf hvalid).trans h.all⟩
  | clear =>
    obtain ⟨s', hrun, hrep⟩ := h.rep.clear (k := k)
    refine ⟨s', { p with list := p.list.clear }, 0, ?_, rfl, hrep, NodeList.all_clear.trans h.all⟩
    show (s.clear k >>= fun s => pure (s, 0)) = _
    rw [hrun]
    rfl

theorem step (h : Refines s p) (hvalid : p.Valid k op) :
    ∃ s' p', s.step k op = .ok s' ∧ p.step k op = .ok p' ∧ Refines s' p' := by
  obtain ⟨s', p', r, hrun, habs, h'⟩ := h.call op hvalid
  refine ⟨s', p', ?_, ?_, h'⟩
  · unfold State.step
    rw [hrun]
    rfl
  · unfold Pool.step
    rw [habs]
    rfl

/-- **The run.**  The code follows the abstract list from call to call. -/
theorem run : ∀ {ops : List (Op T)} {s : State T} {p : Pool T}, Refines s p →
    Meets (Pool.step k) (fun p => p.Valid k) p ops →
    ∃ s' p', runAll (State.step k) s ops = .ok s' ∧ runAll (Pool.step k) p ops = .ok p' ∧
      Refines s' p'
  | [], s, p, h, _ => ⟨s, p, rfl, rfl, h⟩
  | op :: ops, s, p, h, hvalid => by
    obtain ⟨s₁, p₁, hrun₁, habs₁, h₁⟩ := h.step hvalid.1
    obtain ⟨s', p', hrun, habs, h'⟩ := h₁.run (hvalid.2 p₁ habs₁)
    refine ⟨s', p', ?_, ?_, h'⟩
    · unfold runAll
      rw [hrun₁]
      exact hrun
    · unfold runAll
      rw [habs₁]
      exact habs

end Refines

/-- A list with items of its own refines the empty list over them. -/
theorem new_refines (m : Links) (data : Nat → T) {localBuf n : Nat} (hbuf : localBuf ≠ 0) :
    ∃ s, State.new k m data localBuf n = .ok s ∧ Refines s (Pool.new k localBuf n) := by
  have hzero : Refines (State.zero m data) (⟨⟨[], []⟩, []⟩ : Pool T) :=
    ⟨⟨Xlist.holds_empty, Xlist.holds_empty, nofun, nofun⟩, List.Perm.refl _⟩
  exact hzero.addMem ⟨hbuf, nofun⟩

/-! ## What a state shows -/

/-- What walking the chains and asking for the size shows is the abstract list. -/
structure Denotes (s : State T) (p : Pool T) : Prop where
  /-- From `begin` along `next`, and from `last` along `prev`. -/
  forth : ∀ n, s.size ≤ n → Links.follow s.links.next n s.busy.begin = p.list.nodes
  back : ∀ n, s.size ≤ n → Links.follow s.links.prev n s.busy.last = p.list.nodes.reverse
  elems : p.list.nodes.map s.data = p.list.elems
  size : s.size = p.list.elems.length
  free : ∀ n, s.free.sz ≤ n → Links.follow s.links.next n s.free.begin = p.list.free
  freeBack : ∀ n, s.free.sz ≤ n → Links.follow s.links.prev n s.free.last = p.list.free.reverse
  /-- The two chains share no item, and their items are all items that were added, each once. -/
  disjoint : p.list.nodes.Disjoint p.list.free
  all : (p.list.nodes ++ p.list.free).Perm p.added
  added : p.added.Nodup

theorem Refines.denotes (h : Refines s p) : Denotes s p where
  forth _ hn := h.rep.busy.follow_next hn
  back _ hn := h.rep.busy.follow_prev hn
  elems := by
    unfold NodeList.nodes NodeList.elems
    rw [List.map_map]
    exact List.map_congr_left fun e he => h.rep.data e he
  size := h.rep.busy.sz.trans (by simp [NodeList.nodes, NodeList.elems])
  free _ hn := h.rep.free.follow_next hn
  freeBack _ hn := h.rep.free.follow_prev hn
  disjoint _ hb hf := h.rep.disjoint _ hb hf
  all := h.all
  added := h.all.nodup_iff.mp h.rep.wf

/-! ## Iterators of elements that stay -/

/-- The call does not take the element of the item out. -/
def Op.Keeps (n : Nat) : Op T → Prop
  | .erase pos => pos ≠ n
  | .clear => False
  | _ => True

/-- An element that is not taken out stays in its item. -/
theorem Pool.mem_of_call {n : Nat} {x : T} (h : p.call k op = .ok (p', r)) (hkeep : op.Keeps n)
    (hx : (n, x) ∈ p.list.busy) : (n, x) ∈ p'.list.busy := by
  cases op with
  | addMemory base sz =>
    obtain ⟨rfl, -⟩ := Prod.mk.inj (Except.ok.inj h)
    exact hx
  | pushBack val mem =>
    obtain ⟨⟨q, i⟩, hins, hq⟩ := map_eq_ok h
    obtain ⟨rfl, -⟩ := Prod.mk.inj hq
    exact (NodeList.mem_insertWhere (Pool.insert_eq_ok hins)).mpr (.inl (Pool.mem_grow.mpr hx))
  | insertBefore pos val mem =>
    exact (NodeList.mem_insertAt (Pool.insert_eq_ok h)).mpr (.inl (Pool.mem_grow.mpr hx))
  | insertAfter pos val mem =>
    exact (NodeList.mem_insertAt (Pool.insert_eq_ok h)).mpr (.inl (Pool.mem_grow.mpr hx))
  | insertSort val mem =>
    exact (NodeList.mem_insertWhere (Pool.insert_eq_ok h)).mpr (.inl (Pool.mem_grow.mpr hx))
  | erase pos =>
    obtain ⟨rfl, -⟩ := Prod.mk.inj (Except.ok.inj h)
    exact NodeList.mem_erase.mpr ⟨hx, fun heq => hkeep heq.symm⟩
  | clear => exact absurd hkeep not_false

theorem Pool.mem_of_run {n : Nat} {x : T} {ops : List (Op T)}
    (h : runAll (Pool.step k) p ops = .ok p') (hkeep : ∀ op ∈ ops, op.Keeps n)
    (hx : (n, x) ∈ p.list.busy) : (n, x) ∈ p'.list.busy := by
  induction ops generalizing p with
  | nil =>
    obtain rfl := Except.ok.inj h
    exact hx
  | cons op ops ih =>
    obtain ⟨q, hq, hrest⟩ := bind_eq_ok.mp h
    obtain ⟨⟨q', i⟩, hcall, rfl⟩ := map_eq_ok hq
    exact ih hrest (fun op hop => hkeep op (List.mem_cons_of_mem _ hop))
      (Pool.mem_of_call hcall (hkeep op List.mem_cons_self) hx)

/-! ## Sorted lists -/

/-- The comparison is a strict weak order. -/
structure StrictWeak (less : T → T → Bool) : Prop where
  asymm : ∀ {a b}, less a b = true → less b a = false
  negTrans : ∀ {a b c}, less a b = false → less b c = false → less a c = false

/-- No element is below one before it. -/
def Sorted (less : T → T → Bool) (es : List T) : Prop := es.Pairwise fun a b => less b a = false

theorem sorted_insertWhere (hless : StrictWeak k.less) {val : T} {L L' : NodeList T} {n : Nat}
    (hsorted : Sorted k.less L.elems)
    (h : L.insertWhere (fun e => !k.less e val) val = some (L', n)) : Sorted k.less L'.elems := by
  rw [NodeList.elems_insertWhere h]
  refine NodeList.pairwise_insert_of_trans (R := fun a b => k.less b a = false)
    (fun hab hbc => hless.negTrans hbc hab) hsorted ?_ ?_
  · intro e _ he
    simpa using he
  · intro e _ he
    refine hless.asymm ?_
    simpa using he

/-- The last element of a sorted list is a maximum. -/
theorem Refines.back_max (h : Refines s p) (hless : StrictWeak k.less)
    (hsorted : Sorted k.less p.list.elems) (hne : p.list.busy ≠ []) :
    ∃ v, s.back = .ok v ∧ v ∈ p.list.elems ∧ ∀ y ∈ p.list.elems, k.less v y = false := by
  obtain ⟨init, e, hbusy⟩ := List.eq_nil_or_concat' p.list.busy |>.resolve_left hne
  have hnodes : p.list.nodes = init.map Prod.fst ++ [e.1] := by
    simp [NodeList.nodes, hbusy]
  have helems : p.list.elems = init.map Prod.snd ++ [e.2] := by
    simp [NodeList.elems, hbusy]
  have hlast : s.busy.last = e.1 := by
    rw [h.rep.busy.last, hnodes, List.getLastD_concat]
  have hsz : s.busy.sz ≠ 0 := by
    rw [Ne, h.rep.busy.sz_eq_zero, hnodes]
    exact List.append_ne_nil_of_right_ne_nil _ (List.cons_ne_nil _ _)
  have hirrefl : k.less e.2 e.2 = false := by
    cases hle : k.less e.2 e.2 with
    | false => rfl
    | true => exact (hless.asymm hle).symm.trans hle |>.symm
  refine ⟨e.2, ?_, ?_, ?_⟩
  · unfold State.back
    rw [ensure_bind_of hsz, hlast, h.rep.data e (hbusy ▸ List.mem_append_right _ List.mem_cons_self)]
    rfl
  · rw [helems]
    exact List.mem_append_right _ List.mem_cons_self
  · intro y hy
    rw [helems] at hy hsorted
    rcases List.mem_append.mp hy with hy | hy
    · exact (List.pairwise_append.mp hsorted).2.2 y hy e.2 List.mem_cons_self
    · rw [List.mem_singleton.mp hy]
      exact hirrefl

/-- **The container is a sequence over a pool of items.**  Every valid run of calls from a new list
returns, and leaves a state that denotes the abstract list the same calls lead to.  From there every valid
call returns what it returns on the abstract list, an iterator denotes the same element for as long as the
element is not taken out, and `insert_sort` keeps a sorted list sorted, with a maximum at the back. -/
theorem run_denotes (k : ItemType T) (m : Links) (data : Nat → T) {localBuf n : Nat}
    (hbuf : localBuf ≠ 0) {ops : List (Op T)}
    (hvalid : Meets (Pool.step k) (fun p => p.Valid k) (Pool.new k localBuf n) ops) :
    ∃ s p, (State.new k m data localBuf n >>= fun s => runAll (State.step k) s ops) = .ok s ∧
      runAll (Pool.step k) (Pool.new k localBuf n) ops = .ok p ∧ Denotes s p ∧
      (∀ op, p.Valid k op → ∃ s' p' r, s.call k op = .ok (s', r) ∧ p.call k op = .ok (p', r) ∧
        Denotes s' p') ∧
      (∀ item x, (item, x) ∈ p.list.busy → ∀ later, (∀ op ∈ later, op.Keeps item) →
        Meets (Pool.step k) (fun p => p.Valid k) p later →
        ∃ s' p', runAll (State.step k) s later = .ok s' ∧ runAll (Pool.step k) p later = .ok p' ∧
          Denotes s' p' ∧ (item, x) ∈ p'.list.busy ∧ s.data item = x ∧ s'.data item = x) ∧
      (StrictWeak k.less → Sorted k.less p.list.elems → ∀ val mem, p.Room k mem →
        ∃ s' p' r, s.call k (.insertSort val mem) = .ok (s', r) ∧
          p.call k (.insertSort val mem) = .ok (p', r) ∧ Sorted k.less p'.list.elems ∧
          ∃ v, s'.back = .ok v ∧ v ∈ p'.list.elems ∧ ∀ y ∈ p'.list.elems, k.less v y = false) := by
  obtain ⟨s₀, hnew, h₀⟩ := new_refines (k := k) m data (n := n) hbuf
  obtain ⟨s, p, hrun, habs, h⟩ := h₀.run hvalid
  refine ⟨s, p, ?_, habs, h.denotes, ?_, ?_, ?_⟩
  · rw [hnew]
    exact hrun
  · intro op hop
    obtain ⟨s', p', r, hcall, hcall', h'⟩ := h.call op hop
    exact ⟨s', p', r, hcall, hcall', h'.denotes⟩
  · intro item x hx later hkeep hlater
    obtain ⟨s', p', hrun', habs', h'⟩ := h.run hlater
    have hx' := Pool.mem_of_run habs' hkeep hx
    exact ⟨s', p', hrun', habs', h'.denotes, hx', h.rep.data _ hx, h'.rep.data _ hx'⟩
  · intro hless hsorted val mem hroom
    obtain ⟨s', p', r, hcall, hcall', h'⟩ := h.call (.insertSort val mem) hroom
    have hins := Pool.insert_eq_ok hcall'
    have hsorted' : Sorted k.less p'.list.elems := by
      refine sorted_insertWhere hless ?_ hins
      unfold NodeList.elems
      rw [Pool.busy_grow]
      exact hsorted
    have hne : p'.list.busy ≠ [] :=
      List.ne_nil_of_mem ((NodeList.mem_insertWhere hins).mpr (.inr ⟨rfl, rfl⟩))
    exact ⟨s', p', r, hcall, hcall', hsorted', h'.back_max hless hsorted' hne⟩

/-- Items of 24 bytes with numbers in them, and the usual order. -/
def natItem : ItemType Nat := ⟨24, by decide, fun a b => decide (a < b), true⟩

theorem run_denotes_natItem :
    ∃ s p, (State.new natItem ⟨fun _ => 0, fun _ => 0⟩ (fun _ => 0) 0x1000 2 >>= fun s =>
        runAll (State.step natItem) s [.insertSort 5 none, .insertBefore 0x1000 3 none, .erase 0x1000,
          .insertAfter 0x1018 9 none, .pushBack 4 (some (0x2000, 48)), .clear, .addMemory 0x3000 24]) =
        .ok s ∧
      runAll (Pool.step natItem) (Pool.new natItem 0x1000 2) [.insertSort 5 none,
        .insertBefore 0x1000 3 none, .erase 0x1000, .insertAfter 0x1018 9 none,
        .pushBack 4 (some (0x2000, 48)), .clear, .addMemory 0x3000 24] = .ok p ∧ Denotes s p := by
  have hvalid : Meets (Pool.step natItem) (fun p => p.Valid natItem) (Pool.new natItem 0x1000 2)
      [.insertSort 5 none, .insertBefore 0x1000 3 none, .erase 0x1000, .insertAfter 0x1018 9 none,
        .pushBack 4 (some (0x2000, 48)), .clear, .addMemory 0x3000 24] := by
    decide
  obtain ⟨s, p, hrun, habs, hden, -⟩ := run_denotes natItem ⟨fun _ => 0, fun _ => 0⟩ (fun _ => 0)
    (by decide) hvalid
  exact ⟨s, p, hrun, habs, hden⟩

end ListT
end Wrmos
