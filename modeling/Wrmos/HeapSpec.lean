import Wrmos.Heap
import Wrmos.MemoryPoolAlloc
import Wrmos.PagePoolSpec

/-!
# What `malloc` and `calloc` return, and whether growing the heap helps

`Heap.Ok` is the state of the heap between two calls: the memory pool keeps its invariant, the pages of the
page pool are aligned and apart, and lie outside of the regions that the memory pool was given, away from
both ends of the address space.  Every call of an application keeps it (`run_ok`).

Two sums decide what is returned.  `alloc` adds the descriptor to the request as a `size_t`, and `calloc`
multiplies one: where either wraps around, a small block is returned for a large request as soon as one is
on offer (`alloc_guarantee`).  `wrm_malloc_empty_default_callback` leaves the descriptor out of what it asks
for: the retried allocation succeeds exactly when there is room for both in what it got (`regrown_alloc`).
-/

namespace Wrmos

open Lib (bind_eq_ok map_eq_ok mapError_eq_ok runAll runAll_invariant Meets Span)

namespace Heap

open MemPool (Inv descrSz wanted Offers Usable Natural lgszMin lgszMax log2szTop one one_of_lt)
open PagePool (PageSize spans)
open Fpage (Page span)

variable {A : Arch} {s s' : Heap} {rs : List (Nat × Nat)} {k n : Nat} {r : Option Nat}

/-- The heap between two calls, with the regions `rs` in the memory pool. -/
structure Ok (A : Arch) (rs : List (Nat × Nat)) (s : Heap) : Prop where
  mem : Inv A rs 0 s.mem
  pages : PagePool.Ok A s.pages
  sized : PagePool.Sized A s.pages
  apart : Span.Apart (spans A s.pages)
  /-- The pages are no part of the memory pool, nor are the first and the last address. -/
  clear : ∀ x ∈ Span.union (spans A s.pages), 0 < x ∧ x + 1 < 2 ^ A.wordBits ∧
    ∀ r ∈ rs, x < r.1 ∨ r.2 ≤ x

theorem Ok.total_lt (h : Ok A rs s) : Span.total (spans A s.pages) < 2 ^ A.wordBits := by
  have hpos := Nat.two_pow_pos A.wordBits
  have hle : Span.total (spans A s.pages) ≤ 2 ^ A.wordBits - 1 :=
    Span.total_le h.apart fun x hx => by
      have hx := (h.clear x hx).2.1
      omega
  omega

/-! ## The size of the growth -/

/-- The page pool has a page of the size that the callback asks for. -/
def Grows (A : Arch) (s : Heap) (n : Nat) : Prop :=
  PageSize (grown A n) ∧ ∃ t ∈ spans A s.pages, grown A n ≤ t.size

theorem one_eq (hk : k ≤ 31) (h : k = 31 → A.wordBits = 32) : one A k = 2 ^ k := by
  rcases Nat.eq_or_lt_of_le hk with rfl | hlt
  · unfold MemPool.one
    rw [h rfl]
    rfl
  · exact one_of_lt hlt

/-- `1 << 31` is negative. -/
theorem wordBits_of_one (h : one A k = 2 ^ 31) : A.wordBits = 32 := by
  unfold MemPool.one at h
  split_ifs at h with hk
  · have hlt := Nat.pow_lt_pow_right (a := 2) (by decide) hk
    omega
  · cases A
    all_goals first
      | rfl
      | exact absurd h (by decide)

theorem wordBits_of_grown (h : grown A n = 2 ^ 31) : A.wordBits = 32 := by
  unfold grown shiftInt at h
  split_ifs at h
  · exact absurd h (by decide)
  · exact wordBits_of_one h
  · cases A with
    | arm => rfl
    | sparc => rfl
    | x86 => rfl
    | x86_64 => exact wordBits_of_one h

theorem log2szTop_le (h : n ≤ 2 ^ k) : log2szTop n ≤ k := by
  unfold MemPool.log2szTop
  split_ifs with h0 hpow
  · exact Nat.zero_le k
  · have hle := Nat.log2_self_le h0
    have hlt : 2 ^ Nat.log2 n < 2 ^ k := by omega
    exact (Nat.pow_lt_pow_iff_right (by decide)).mp hlt
  · have hn := not_not.mp hpow
    rw [← hn] at h
    exact (Nat.pow_le_pow_iff_right (by decide)).mp h

/-- A request that is too large to hold a descriptor beside it makes the callback shift by the width of a
word: what it asks for is no page. -/
theorem lt_of_pageSize (hn : n < 2 ^ A.wordBits) (h : PageSize (grown A n)) :
    n + descrSz A < 2 ^ A.wordBits := by
  by_contra hwrap
  have hdescr : descrSz A ≤ 40 := by cases A <;> decide
  have hw : A.wordBits = 32 ∨ A.wordBits = 64 := by cases A <;> decide
  have hhalf : 2 ^ (A.wordBits - 1) < n ∧ pageSz < n := by
    unfold pageSz
    rcases hw with hw | hw <;> rw [hw] at hn hwrap ⊢ <;> omega
  have hlog : log2szTop n = A.wordBits := by
    refine Nat.le_antisymm (log2szTop_le hn.le) ?_
    by_contra hlt
    have hle := MemPool.le_two_pow_log2szTop n
    have hpow : 2 ^ log2szTop n ≤ 2 ^ (A.wordBits - 1) := Nat.pow_le_pow_right (by decide) (by omega)
    omega
  have hgrown : grown A n = shiftInt A A.wordBits := by
    unfold grown
    rw [if_neg (by omega), hlog]
  obtain ⟨j, hmin, -, hj⟩ := h
  have hle : shiftInt A A.wordBits ≤ 1 := by cases A <;> decide
  have hpos : 2 ^ 12 ≤ 2 ^ j := Nat.pow_le_pow_right (by decide) hmin
  omega

/-! ## Growing the heap -/

theorem mpoolAlloc_eq_ok {t : Option Nat × Heap} :
    mpoolAlloc A s n = .ok t ↔ s.mem.alloc A n = .ok (t.1, t.2.mem) ∧ t.2.pages = s.pages := by
  unfold mpoolAlloc
  constructor
  · intro h
    obtain ⟨u, hu, h⟩ := bind_eq_ok.mp h
    obtain rfl := Except.ok.inj h
    exact ⟨mapError_eq_ok.mp hu, rfl⟩
  · rintro ⟨h, hpages⟩
    refine bind_eq_ok.mpr ⟨_, mapError_eq_ok.mpr h, ?_⟩
    obtain ⟨r, m, pages⟩ := t
    obtain rfl := hpages
    rfl

/-- `alloc` keeps the heap as it should be. -/
theorem Ok.mpoolAlloc {t : Option Nat × Heap} (h : Ok A rs s) (hok : mpoolAlloc A s n = .ok t) :
    Ok A rs t.2 ∧ t.2.mem.added = s.mem.added := by
  obtain ⟨halloc, hpages⟩ := mpoolAlloc_eq_ok.mp hok
  obtain ⟨hinv, hadded⟩ := MemPool.alloc_keeps h.mem halloc
  refine ⟨⟨hinv, ?_, ?_, ?_, ?_⟩, hadded⟩
  · rw [hpages]
    exact h.pages
  · rw [hpages]
    exact h.sized
  · rw [hpages]
    exact h.apart
  · rw [hpages]
    exact h.clear

/-- The heap after a page of `2 ^ k` bytes went from the page pool to the memory pool. -/
structure Extended (A : Arch) (rs : List (Nat × Nat)) (s : Heap) (k start : Nat) (s' : Heap) : Prop where
  ok : Ok A ((start, start + 2 ^ k) :: rs) s'
  min : lgszMin ≤ k
  blocks : s'.mem.blocks = Function.update s.mem.blocks k (start :: s.mem.blocks k)
  added : s'.mem.added = (start, start + 2 ^ k) :: s.mem.added

theorem Extended.offers {start lgsz : Nat} (h : Extended A rs s k start s') :
    s'.mem.Offers lgsz ↔ s.mem.Offers lgsz ∨ lgsz ≤ k := by
  unfold MemPool.Offers
  rw [h.blocks]
  constructor
  · rintro ⟨j, hj, hne⟩
    by_cases hjk : j = k
    · exact .inr (hjk ▸ hj)
    · rw [Function.update_of_ne hjk] at hne
      exact .inl ⟨j, hj, hne⟩
  · rintro (⟨j, hj, hne⟩ | hk)
    · refine ⟨j, hj, ?_⟩
      by_cases hjk : j = k
      · subst hjk
        rw [Function.update_self]
        exact List.cons_ne_nil _ _
      · rwa [Function.update_of_ne hjk]
    · refine ⟨k, hk, ?_⟩
      rw [Function.update_self]
      exact List.cons_ne_nil _ _

/-- A page that the page pool gives is added as one block. -/
theorem Ok.extend {q : PagePool} {fp : Nat} {t : Bool × MemPool} (h : Ok A rs s) (hpage : Page A k fp)
    (hk : k = 31 → A.wordBits = 32) (hq : PagePool.Ok A q) (hsized : PagePool.Sized A q)
    (hrecut : Span.Recut (spans A s.pages) (span A fp :: spans A q))
    (hadd : s.mem.add A (Fpage.addr A fp) (Fpage.size A fp) = .ok t) :
    t.1 = true ∧ Extended A rs s k (Fpage.addr A fp) ⟨t.2, q⟩ := by
  have hsize := Nat.two_pow_pos k
  have hunion : Span.union (spans A s.pages) =
      (⟨Fpage.addr A fp, 2 ^ k⟩ : Span).points ∪ Span.union (spans A q) := by
    rw [hrecut.union_eq, Span.union_cons, hpage.span_eq]
  have hclear : ∀ x, Fpage.addr A fp ≤ x → x < Fpage.addr A fp + 2 ^ k →
      0 < x ∧ x + 1 < 2 ^ A.wordBits ∧ ∀ r ∈ rs, x < r.1 ∨ r.2 ≤ x := fun x hlo hhi =>
    h.clear x (hunion ▸ .inl ⟨hlo, hhi⟩)
  have hnat : Natural A (Fpage.addr A fp) k := by
    refine ⟨?_, hpage.max, one_eq hpage.max hk, ?_, ?_, hpage.aligned⟩
    · exact le_trans (by decide) hpage.min
    · exact (hclear _ le_rfl (by omega)).1
    · have hlast := (hclear (Fpage.addr A fp + 2 ^ k - 1) (by omega) (by omega)).2.1
      omega
  -- no block shares an address with the page
  have hgap : ∀ a l u, s.mem.shape a = some (l, u) →
      a + 2 ^ l ≤ Fpage.addr A fp ∨ Fpage.addr A fp + 2 ^ k ≤ a := by
    intro a l u ha
    obtain ⟨r, hr, hlo, hhi⟩ := h.mem.inside a l u ha
    have hlen := Nat.two_pow_pos l
    by_contra hover
    rcases (hclear (max a (Fpage.addr A fp)) (by omega) (by omega)).2.2 r hr with hbefore | hbehind
    · omega
    · omega
  rw [hpage.size_eq] at hadd
  obtain ⟨htrue, hinv, hblocks, hadded⟩ := MemPool.add_natural h.mem hnat hgap hadd
  have hall := hrecut.apart h.apart
  rw [hpage.span_eq] at hall
  obtain ⟨hdisjoint, hapart⟩ := Span.apart_cons.mp hall
  refine ⟨htrue, ⟨hinv, hq, hsized, hapart, fun x hx => ?_⟩, hnat.min, hblocks, hadded⟩
  obtain ⟨hpos, hlt, hrs⟩ := h.clear x (hunion ▸ .inr hx)
  refine ⟨hpos, hlt, fun r hr => ?_⟩
  rcases List.mem_cons.mp hr with rfl | hr
  · by_contra hin
    have hlo : Fpage.addr A fp ≤ x := by omega
    have hhi : x < Fpage.addr A fp + 2 ^ k := by omega
    exact Set.disjoint_left.mp hdisjoint (Span.mem_points.mpr ⟨hlo, hhi⟩) hx
  · exact hrs r hr

/-- The page pool cuts its memory anew. -/
theorem Ok.recut {q : PagePool} (h : Ok A rs s) (hq : PagePool.Ok A q) (hsized : PagePool.Sized A q)
    (hrecut : Span.Recut (spans A s.pages) (spans A q)) : Ok A rs { s with pages := q } :=
  ⟨h.mem, hq, hsized, hrecut.apart h.apart, fun x hx => h.clear x (hrecut.union_eq ▸ hx)⟩

/-- **`wrm_malloc_empty_default_callback`** reports success when the page pool has a page to give. -/
theorem mallocEmpty_spec {t : Int × Heap} (h : Ok A rs s) (hok : mallocEmpty A s n = .ok t) :
    (t.1 = 0 ∧ Grows A s n ∧ ∃ k start, grown A n = 2 ^ k ∧ Extended A rs s k start t.2) ∨
      (t.1 ≠ 0 ∧ ¬ Grows A s n ∧ Ok A rs t.2 ∧ t.2.mem = s.mem) := by
  obtain ⟨q, fp, halloc, hgiven, hiff⟩ := PagePool.alloc_given (grown A n) h.pages h.sized
  have hgrows := hiff h.total_lt (or_iff_not_imp_right.mpr fun hsz => wordBits_of_grown (not_not.mp hsz))
  unfold mallocEmpty at hok
  obtain ⟨u, hu, hok⟩ := bind_eq_ok.mp hok
  have hpg : pgpoolAlloc A s (grown A n) = .ok (fp, { s with pages := q }) :=
    bind_eq_ok.mpr ⟨(q, fp), mapError_eq_ok.mpr halloc, rfl⟩
  obtain rfl := Except.ok.inj (hpg.symm.trans hu)
  by_cases hnil : fp = Fpage.nil
  · have hisNil : Fpage.isNil fp = true := beq_iff_eq.mpr hnil
    dsimp only at hok
    rw [if_pos hisNil] at hok
    obtain rfl := Except.ok.inj hok
    refine .inr ⟨Int.neg_ne_zero.mpr Int.one_ne_zero, fun hg => hgrows.mpr hg hnil, ?_, rfl⟩
    exact h.recut hgiven.ok hgiven.sized (hgiven.nil hnil)
  · have hisNil : ¬ Fpage.isNil fp = true := fun hb => hnil (beq_iff_eq.mp hb)
    dsimp only at hok
    rw [if_neg hisNil] at hok
    obtain ⟨e, he, hok⟩ := bind_eq_ok.mp hok
    obtain ⟨v, hv, he⟩ := bind_eq_ok.mp he
    obtain rfl := Except.ok.inj he
    obtain ⟨hpage, hsize, hrecut⟩ := hgiven.page hnil
    have hpow : grown A n = 2 ^ PagePool.lgsz (grown A n) := hsize ▸ hpage.size_eq
    have h31 : PagePool.lgsz (grown A n) = 31 → A.wordBits = 32 := fun hlg =>
      wordBits_of_grown (hlg ▸ hpow)
    obtain ⟨htrue, hext⟩ := h.extend hpage h31 hgiven.ok hgiven.sized hrecut (mapError_eq_ok.mp hv)
    rw [htrue] at hok
    obtain rfl := Except.ok.inj hok
    exact .inl ⟨rfl, hgrows.mp hnil, _, _, hpow, hext⟩

/-! ## What is returned -/

/-- The first attempt of `malloc` fails and the callback reports success. -/
def Regrown (A : Arch) (s : Heap) (n : Nat) (s' : Heap) : Prop :=
  n ≠ 0 ∧ ∃ m, s.mem.alloc A n = .ok (none, m) ∧ mallocEmpty A { s with mem := m } n = .ok (0, s')

/-- The pools at an attempt of `malloc`. -/
def Attempt (A : Arch) (s : Heap) (n : Nat) (q : MemPool) : Prop :=
  q = s.mem ∨ ∃ s₁, Regrown A s n s₁ ∧ q = s₁.mem

/-- What is returned for a request of `n` bytes, of which `alloc` was asked for `asked`, is null or memory
of a block with that much room, which was free at an attempt. -/
def Sound (A : Arch) (s : Heap) (asked n : Nat) (r : Option Nat) (s' : Heap) : Prop :=
  ∀ ptr, r = some ptr → ∃ q, Attempt A s asked q ∧ Usable A q s'.mem ptr n

/-- The request is not null, and there is a block for it, or the callback makes one that is large enough. -/
def Served (A : Arch) (s : Heap) (n : Nat) : Prop :=
  n ≠ 0 ∧ (s.mem.Offers (wanted A n) ∨ Grows A s n ∧ 2 ^ wanted A n ≤ grown A n)

/-- The first attempt fails without a change to the pool. -/
theorem Regrown.spec (h : Ok A rs s) (hg : Regrown A s n s') :
    ¬ s.mem.Offers (wanted A n) ∧ Grows A s n ∧
      ∃ k start, grown A n = 2 ^ k ∧ Extended A rs s k start s' := by
  obtain ⟨hn, m, halloc, hempty⟩ := hg
  have hno : ¬ s.mem.Offers (wanted A n) := fun hoff =>
    (MemPool.alloc_isSome h.mem halloc).mpr ⟨hn, hoff⟩ rfl
  obtain ⟨-, rfl⟩ := Prod.mk.inj
    (Except.ok.inj ((MemPool.alloc_none fun _ => hno).symm.trans halloc))
  rcases mallocEmpty_spec h hempty with ⟨-, hgrows, hext⟩ | ⟨hne, -⟩
  · exact ⟨hno, hgrows, hext⟩
  · exact absurd rfl hne

/-- The class of the block that is wanted, when the sum is a `size_t`. -/
theorem wanted_le_iff (hn : n + descrSz A < 2 ^ A.wordBits) (hk : lgszMin ≤ k) :
    wanted A n ≤ k ↔ n + descrSz A ≤ 2 ^ k := by
  constructor
  · intro hle
    exact (MemPool.le_two_pow_wanted hn).trans (Nat.pow_le_pow_right (by decide) hle)
  · intro hle
    refine max_le (log2szTop_le ?_) hk
    rwa [show A.add n (descrSz A) = n + descrSz A from Nat.mod_eq_of_lt hn]

/-- **Growing the heap** helps exactly when what the callback asked for has room for the request and the
descriptor. -/
theorem regrown_alloc (h : Ok A rs s) (hn : n < 2 ^ A.wordBits) (hg : Regrown A s n s') :
    (∃ ptr m, s'.mem.alloc A n = .ok (some ptr, m)) ↔ n + descrSz A ≤ grown A n := by
  obtain ⟨hno, hgrows, k, start, hpow, hext⟩ := hg.spec h
  have hsum := lt_of_pageSize hn hgrows.1
  rw [hpow, ← wanted_le_iff hsum hext.min]
  have hoff : s'.mem.Offers (wanted A n) ↔ wanted A n ≤ k := hext.offers.trans (or_iff_right hno)
  have hle := MemPool.le_two_pow_wanted hsum
  obtain ⟨⟨r, m⟩, hr⟩ := MemPool.alloc_ok (n := n) hext.ok.mem (by omega)
  have hsome := MemPool.alloc_isSome hext.ok.mem hr
  constructor
  · rintro ⟨ptr, m', halloc⟩
    obtain ⟨rfl, -⟩ := Prod.mk.inj (Except.ok.inj (hr.symm.trans halloc))
    exact hoff.mp (hsome.mp nofun).2
  · intro hwanted
    obtain ⟨ptr, rfl⟩ := Option.ne_none_iff_exists'.mp (hsome.mpr ⟨hg.1, hoff.mpr hwanted⟩)
    exact ⟨ptr, m, hr⟩

/-- How a call of `malloc` goes: the first attempt is answered, or the callback fails, or there is a second
attempt. -/
theorem malloc_cases {t : Option Nat × Heap} (hok : malloc A s n = .ok t) :
    (mpoolAlloc A s n = .ok t ∧ (t.1 = none → n = 0)) ∨
      (n ≠ 0 ∧ t.1 = none ∧ ∃ m rc, s.mem.alloc A n = .ok (none, m) ∧ rc ≠ 0 ∧
        mallocEmpty A { s with mem := m } n = .ok (rc, t.2)) ∨
      ∃ s₁, Regrown A s n s₁ ∧ mpoolAlloc A s₁ n = .ok t := by
  unfold malloc Callbacks.mallocWith callbacks at hok
  dsimp only at hok
  obtain ⟨⟨r, s₁⟩, hfirst, hok⟩ := bind_eq_ok.mp hok
  dsimp only at hok
  by_cases hretry : r = none ∧ n ≠ 0
  · obtain ⟨rfl, hn⟩ := hretry
    rw [if_pos ⟨rfl, hn⟩] at hok
    obtain ⟨⟨rc, s₂⟩, hempty, hok⟩ := bind_eq_ok.mp hok
    dsimp only at hok
    obtain ⟨halloc, hpages⟩ := mpoolAlloc_eq_ok.mp hfirst
    have hs₁ : s₁ = { s with mem := s₁.mem } := by
      rw [← hpages]
    rw [hs₁] at hempty
    by_cases hrc : rc = 0
    · rw [if_pos hrc] at hok
      subst hrc
      exact .inr (.inr ⟨s₂, ⟨hn, s₁.mem, halloc, hempty⟩, hok⟩)
    · rw [if_neg hrc] at hok
      obtain rfl := Except.ok.inj hok
      exact .inr (.inl ⟨hn, rfl, s₁.mem, rc, halloc, hrc, hempty⟩)
  · rw [if_neg hretry] at hok
    obtain rfl := Except.ok.inj hok
    exact .inl ⟨hfirst, fun hr => by_contra fun hn => hretry ⟨hr, hn⟩⟩

/-- What is returned at an attempt, in a state in which the pools are as they should be. -/
theorem usable_of_alloc {q : MemPool} {t : Option Nat × Heap} (hq : Inv A rs 0 q)
    (halloc : q.alloc A n = .ok (t.1, t.2.mem)) (hsum : n + descrSz A < 2 ^ A.wordBits) {ptr : Nat}
    (hptr : t.1 = some ptr) : Usable A q t.2.mem ptr n := by
  have hsome : t.1 ≠ none := by
    rw [hptr]
    exact nofun
  obtain ⟨hn, hoff⟩ := (MemPool.alloc_isSome hq halloc).mp hsome
  obtain ⟨d, hd, hgiven⟩ := MemPool.alloc_spec hq hn hoff halloc
  obtain rfl := Option.some.inj (hptr.symm.trans hd)
  exact hgiven.usable hsum

/-- **`malloc`** returns memory exactly when the request can be served, and the heap is as it should be
afterwards. -/
theorem malloc_spec {t : Option Nat × Heap} (h : Ok A rs s) (hok : malloc A s n = .ok t) :
    (t.1 ≠ none ↔ Served A s n) ∧ (n + descrSz A < 2 ^ A.wordBits → Sound A s n n t.1 t.2) ∧
      ∃ rs', Ok A rs' t.2 ∧ (rs = s.mem.added → rs' = t.2.mem.added) := by
  rcases malloc_cases hok with ⟨hfirst, hnull⟩ | ⟨hn0, hnone, m, rc, halloc, hrc, hempty⟩ |
    ⟨s₁, hgrown, hsecond⟩
  · obtain ⟨halloc, -⟩ := mpoolAlloc_eq_ok.mp hfirst
    have hiff := MemPool.alloc_isSome h.mem halloc
    refine ⟨⟨fun hsome => ⟨(hiff.mp hsome).1, .inl (hiff.mp hsome).2⟩, ?_⟩, ?_, rs, ?_⟩
    · exact fun hserved hr => hserved.1 (hnull hr)
    · exact fun hsum ptr hptr => ⟨s.mem, .inl rfl, usable_of_alloc h.mem halloc hsum hptr⟩
    · obtain ⟨hok', hadded⟩ := h.mpoolAlloc hfirst
      exact ⟨hok', fun hrs => hrs.trans hadded.symm⟩
  · have hno : ¬ s.mem.Offers (wanted A n) := fun hoff =>
      (MemPool.alloc_isSome h.mem halloc).mpr ⟨hn0, hoff⟩ rfl
    obtain ⟨-, rfl⟩ := Prod.mk.inj
      (Except.ok.inj ((MemPool.alloc_none fun _ => hno).symm.trans halloc))
    rcases mallocEmpty_spec h hempty with ⟨hzero, -⟩ | ⟨-, hgrows, hok', hmem⟩
    · exact absurd hzero hrc
    · refine ⟨iff_of_false (fun hne => hne hnone) ?_, fun _ ptr hptr => ?_, rs, hok', fun hrs => ?_⟩
      · rintro ⟨-, hoff | ⟨hg, -⟩⟩
        · exact hno hoff
        · exact hgrows hg
      · rw [hnone] at hptr
        cases hptr
      · rw [hrs, hmem]
  · obtain ⟨hno, hgrows, k, start, hpow, hext⟩ := hgrown.spec h
    obtain ⟨halloc, -⟩ := mpoolAlloc_eq_ok.mp hsecond
    have hiff := MemPool.alloc_isSome hext.ok.mem halloc
    have hoff : s₁.mem.Offers (wanted A n) ↔ wanted A n ≤ k := hext.offers.trans (or_iff_right hno)
    have hle : wanted A n ≤ k ↔ 2 ^ wanted A n ≤ grown A n := by
      rw [hpow]
      exact (Nat.pow_le_pow_iff_right (by decide)).symm
    refine ⟨hiff.trans (and_congr_right fun _ => ?_), fun hsum ptr hptr => ?_, _, (hext.ok.mpoolAlloc hsecond).1, ?_⟩
    · rw [hoff, hle]
      exact ⟨fun hr => .inr ⟨hgrows, hr⟩, fun hr => (hr.resolve_left hno).2⟩
    · exact ⟨s₁.mem, .inr ⟨s₁, hgrown, rfl⟩, usable_of_alloc hext.ok.mem halloc hsum hptr⟩
    · intro hrs
      rw [(hext.ok.mpoolAlloc hsecond).2, hext.added, hrs]

/-- Memory for more bytes than a block can have is never usable. -/
theorem not_sound {q : MemPool} {ptr : Nat} (h : Ok A rs s') (hn : 2 ^ A.wordBits ≤ n + descrSz A) :
    ¬ Usable A q s'.mem ptr n := by
  have hw : 2 ^ 32 ≤ 2 ^ A.wordBits := Nat.pow_le_pow_right (by decide) (by cases A <;> decide)
  exact h.mem.not_usable (by omega)

/-- `malloc`, asked for fewer bytes than are wanted when the product does not fit into a word. -/
theorem sound_iff {asked : Nat} {t : Option Nat × Heap} (h : Ok A rs s) (hok : malloc A s asked = .ok t)
    (hasked : n + descrSz A < 2 ^ A.wordBits → asked = n) :
    Sound A s asked n t.1 t.2 ↔ n + descrSz A < 2 ^ A.wordBits ∨ ¬ Served A s asked := by
  obtain ⟨hserved, hsound, rs', hok', -⟩ := malloc_spec h hok
  constructor
  · intro hs
    by_contra hnot
    obtain ⟨hwrap, hsv⟩ := not_or.mp hnot
    obtain ⟨ptr, hptr⟩ := Option.ne_none_iff_exists'.mp (hserved.mpr (not_not.mp hsv))
    obtain ⟨q, -, husable⟩ := hs ptr hptr
    exact not_sound hok' (Nat.not_lt.mp hwrap) husable
  · rintro (hsum | hno) ptr hptr
    · obtain rfl := hasked hsum
      exact hsound hsum ptr hptr
    · refine absurd (hserved.mp ?_) hno
      rw [hptr]
      exact nofun

/-- `alloc` returns, and what it returns is null or usable memory of a block that was free. -/
def Guaranteed (A : Arch) (p : MemPool) (n : Nat) : Prop :=
  ∃ r p', p.alloc A n = .ok (r, p') ∧ ∀ ptr, r = some ptr → Usable A p p' ptr n

theorem guaranteed_iff {p : MemPool} (h : Inv A rs 0 p) (hn : n < 2 ^ A.wordBits) :
    Guaranteed A p n ↔ n + descrSz A < 2 ^ A.wordBits ∨ ¬ p.Offers (wanted A n) := by
  constructor
  · rintro ⟨r, p', halloc, husable⟩
    by_contra hnot
    obtain ⟨hwrap, hoff⟩ := not_or.mp hnot
    have hdescr : descrSz A ≤ 40 := by cases A <;> decide
    have hw : 2 ^ 32 ≤ 2 ^ A.wordBits := Nat.pow_le_pow_right (by decide) (by cases A <;> decide)
    have hn0 : n ≠ 0 := by omega
    obtain ⟨d, hd, hgiven⟩ := MemPool.alloc_spec h hn0 (not_not.mp hoff) halloc
    exact hgiven.inv.not_usable (by omega) (husable _ hd)
  · rintro (hsum | hno)
    · have hle := MemPool.le_two_pow_wanted hsum
      obtain ⟨⟨r, p'⟩, halloc⟩ := MemPool.alloc_ok (n := n) h (by omega)
      refine ⟨r, p', halloc, fun ptr hptr => ?_⟩
      exact usable_of_alloc (t := (r, ⟨p', PagePool.empty⟩)) h halloc hsum hptr
    · exact ⟨none, p, MemPool.alloc_none fun _ => hno, nofun⟩

/-- **What is returned** by `alloc`, `malloc` and `calloc` is null or as large as the request, unless a sum
or a product wraps around and there is something on offer for what is left of it. -/
theorem alloc_guarantee (h : Ok A rs s) :
    (∀ n < 2 ^ A.wordBits,
      Guaranteed A s.mem n ↔ n + descrSz A < 2 ^ A.wordBits ∨ ¬ s.mem.Offers (wanted A n)) ∧
    (∀ n < 2 ^ A.wordBits, ∀ r s', malloc A s n = .ok (r, s') →
      (Sound A s n n r s' ↔ n + descrSz A < 2 ^ A.wordBits ∨ ¬ Served A s n)) ∧
    ∀ num < 2 ^ A.wordBits, ∀ size < 2 ^ A.wordBits, ∀ r s', calloc A s num size = .ok (r, s') →
      (Sound A s (num * size % 2 ^ A.wordBits) (num * size) r s' ↔
        num * size + descrSz A < 2 ^ A.wordBits ∨ ¬ Served A s (num * size % 2 ^ A.wordBits)) := by
  refine ⟨fun n hn => guaranteed_iff h.mem hn, fun n _ r s' hok => ?_, fun num _ size _ r s' hok => ?_⟩
  · exact sound_iff (t := (r, s')) h hok fun _ => rfl
  · refine sound_iff (t := (r, s')) h hok fun hsum => Nat.mod_eq_of_lt ?_
    omega

/-! ## Runs -/

/-- The calls of an application. -/
inductive Op where
  | pgpoolAdd (fp : Nat)
  | pgpoolAlloc (sz : Nat)
  | malloc (sz : Nat)
  | calloc (num size : Nat)
  | free (ptr : Nat)
  deriving DecidableEq, Repr

def step (A : Arch) (s : Heap) : Op → Except HeapFault Heap
  | .pgpoolAdd fp => s.pgpoolAdd A fp
  | .pgpoolAlloc sz => Prod.snd <$> s.pgpoolAlloc A sz
  | .malloc sz => Prod.snd <$> s.malloc A sz
  | .calloc num size => Prod.snd <$> s.calloc A num size
  | .free ptr => s.mpoolFree A ptr

/-- How the heap is used: the pages that are added are aligned and new, and the blocks that are freed are in
use and combined with their other halves. -/
def UsedWell (A : Arch) (s : Heap) : Op → Prop
  | .pgpoolAdd fp => fp < 2 ^ A.wordBits ∧ Fpage.size A fp ∣ Fpage.addr A fp ∧
      Disjoint (span A fp).points (Span.union (spans A s.pages)) ∧
      ∀ x ∈ (span A fp).points, 0 < x ∧ x + 1 < 2 ^ A.wordBits ∧ ∀ r ∈ s.mem.added, x < r.1 ∨ r.2 ≤ x
  | .free ptr => MemPool.FreeOk A s.mem ptr
  | _ => True

theorem step_ok {op : Op} (h : Ok A s.mem.added s) (hcond : UsedWell A s op) (hok : step A s op = .ok s') :
    Ok A s'.mem.added s' := by
  cases op with
  | pgpoolAdd fp =>
    obtain ⟨hword, hdvd, hdisjoint, hclear⟩ := hcond
    obtain ⟨q, hq, hlast⟩ := bind_eq_ok.mp hok
    obtain rfl := Except.ok.inj hlast
    -- the page pool on its own, with nothing handed out
    have hconserved : PagePool.History.Conserved A ⟨s.pages, [], spans A s.pages⟩ :=
      ⟨h.apart, rfl, h.sized⟩
    have hfresh : PagePool.Fresh A ⟨s.pages, [], spans A s.pages⟩ (.add fp) := ⟨hword, hdvd, hdisjoint⟩
    have hadd : PagePool.step A ⟨s.pages, [], spans A s.pages⟩ (.add fp) =
        .ok ⟨q, [], span A fp :: spans A s.pages⟩ :=
      bind_eq_ok.mpr ⟨q, mapError_eq_ok.mp hq, rfl⟩
    obtain ⟨hpages, hafter⟩ := PagePool.step_conserved h.pages hconserved hfresh hadd
    refine ⟨h.mem, hpages, hafter.sized, hafter.apart, fun x hx => ?_⟩
    have hunion : x ∈ Span.union (span A fp :: spans A s.pages) := hafter.union_eq ▸ hx
    rw [Span.union_cons] at hunion
    rcases hunion with hnew | hold
    · exact hclear x hnew
    · exact h.clear x hold
  | pgpoolAlloc sz =>
    obtain ⟨q, fp, halloc, hgiven, -⟩ := PagePool.alloc_given sz h.pages h.sized
    obtain ⟨r, hr, rfl⟩ := map_eq_ok hok
    have hpg : pgpoolAlloc A s sz = .ok (fp, { s with pages := q }) :=
      bind_eq_ok.mpr ⟨(q, fp), mapError_eq_ok.mpr halloc, rfl⟩
    obtain rfl := Except.ok.inj (hpg.symm.trans hr)
    by_cases hnil : fp = Fpage.nil
    · exact h.recut hgiven.ok hgiven.sized (hgiven.nil hnil)
    · obtain ⟨-, -, hrecut⟩ := hgiven.page hnil
      refine ⟨h.mem, hgiven.ok, hgiven.sized, (Span.apart_cons.mp (hrecut.apart h.apart)).2, fun x hx => ?_⟩
      refine h.clear x ?_
      rw [hrecut.union_eq, Span.union_cons]
      exact .inr hx
  | malloc sz =>
    obtain ⟨t, ht, rfl⟩ := map_eq_ok hok
    obtain ⟨-, -, rs', hrs, hadded⟩ := malloc_spec h ht
    exact hadded rfl ▸ hrs
  | calloc num size =>
    obtain ⟨t, ht, rfl⟩ := map_eq_ok hok
    obtain ⟨-, -, rs', hrs, hadded⟩ := malloc_spec h ht
    exact hadded rfl ▸ hrs
  | free ptr =>
    obtain ⟨r, hr, hlast⟩ := bind_eq_ok.mp hok
    obtain rfl := Except.ok.inj hlast
    obtain ⟨hinv, hadded⟩ := MemPool.free_inv h.mem hcond (mapError_eq_ok.mp hr)
    refine ⟨hinv, h.pages, h.sized, h.apart, ?_⟩
    show ∀ x ∈ _, _ ∧ _ ∧ ∀ t ∈ r.2.added, _
    rw [hadded]
    exact h.clear

theorem start_ok (A : Arch) : Ok A start.mem.added start := by
  obtain ⟨hpages, hconserved⟩ := PagePool.start_conserved A
  have hempty : Span.union (spans A PagePool.empty) = ∅ := hconserved.union_eq.trans Span.union_nil
  refine ⟨MemPool.inv_init A, hpages, hconserved.sized, hconserved.apart, fun x hx => ?_⟩
  have hmem : x ∈ Span.union (spans A PagePool.empty) := hx
  rw [hempty] at hmem
  cases hmem

/-- **The heap** is as it should be after any sequence of calls. -/
theorem run_ok {es : List Op} (hcond : Meets (step A) (UsedWell A) start es)
    (hok : runAll (step A) start es = .ok s) : Ok A s.mem.added s :=
  runAll_invariant (I := fun s => Ok A s.mem.added s) (fun _ _ _ h hc ho => step_ok h hc ho)
    (start_ok A) hcond hok

/-- The heap gets a page of 256 kilobytes. -/
def onePage : List Op := [.pgpoolAdd (Fpage.create .sparc 0xe0000000 0x40000 6)]

theorem onePage_usedWell : UsedWell .sparc start (.pgpoolAdd (Fpage.create .sparc 0xe0000000 0x40000 6)) := by
  have hspan : span .sparc (Fpage.create .sparc 0xe0000000 0x40000 6) = ⟨0xe0000000, 0x40000⟩ := by decide
  have hempty : spans .sparc start.pages = [] := by decide
  refine ⟨by decide, by decide, ?_, fun x hx => ?_⟩
  · rw [hempty, Span.union_nil]
    exact Set.disjoint_empty _
  · rw [hspan, Span.mem_points] at hx
    dsimp only at hx
    have hw : 2 ^ Arch.sparc.wordBits = 0x100000000 := by decide
    exact ⟨by omega, by omega, nofun⟩

theorem onePage_ok : runAll (step .sparc) start onePage = .ok s → Ok .sparc s.mem.added s :=
  run_ok ⟨onePage_usedWell, fun _ _ => trivial⟩

/-- The first page of the memory pool is taken for 100 bytes. -/
theorem oneBlock_ok : runAll (step .sparc) start (onePage ++ [.malloc 100]) = .ok s →
    Ok .sparc s.mem.added s :=
  run_ok ⟨onePage_usedWell, fun _ _ => ⟨trivial, fun _ _ => trivial⟩⟩

/-- Requests that are served as they should be. -/
theorem oneBlock_guarantee : ∃ s, runAll (step .sparc) start (onePage ++ [.malloc 100]) = .ok s ∧
    Guaranteed .sparc s.mem 1000 := by
  have hrun : (runAll (step .sparc) start (onePage ++ [.malloc 100])).map (fun _ => true) = .ok true := by
    decide +kernel
  obtain ⟨s, hs, -⟩ := map_eq_ok hrun
  exact ⟨s, hs, ((alloc_guarantee (oneBlock_ok hs)).1 1000 (by decide)).mpr (.inl (by decide))⟩

/-- A request for all but one of the addresses, and one for a product just above a word: both get a block of
a few bytes. -/
theorem oneBlock_wraps : ∃ s, Ok .sparc s.mem.added s ∧ ¬ Guaranteed .sparc s.mem 0xffffffff ∧
    ∃ r s', calloc .sparc s 0x40000001 4 = .ok (r, s') ∧
      ¬ Sound .sparc s (0x40000001 * 4 % 2 ^ 32) (0x40000001 * 4) r s' := by
  have hrun : (runAll (step .sparc) start (onePage ++ [.malloc 100]) >>= fun s =>
      (s.mpoolAlloc .sparc 0xffffffff) >>= fun a =>
      (s.calloc .sparc 0x40000001 4).map fun c => decide (a.1 ≠ none ∧ c.1 ≠ none)) = .ok true := by
    decide +kernel
  obtain ⟨s, hs, hrun⟩ := bind_eq_ok.mp hrun
  obtain ⟨a, ha, hrun⟩ := bind_eq_ok.mp hrun
  obtain ⟨c, hc, hboth⟩ := map_eq_ok hrun
  obtain ⟨ha0, hc0⟩ := of_decide_eq_true hboth
  have hok := oneBlock_ok hs
  refine ⟨s, hok, ?_, c.1, c.2, hc, fun hsound => ?_⟩
  · rintro ⟨r, p', halloc, husable⟩
    obtain ⟨halloc', -⟩ := mpoolAlloc_eq_ok.mp ha
    obtain ⟨rfl, rfl⟩ := Prod.mk.inj (Except.ok.inj (halloc'.symm.trans halloc))
    obtain ⟨ptr, hptr⟩ := Option.ne_none_iff_exists'.mp ha0
    exact (MemPool.alloc_keeps hok.mem halloc).1.not_usable (by decide) (husable ptr hptr)
  · obtain ⟨-, -, rs', hok', -⟩ := malloc_spec hok hc
    obtain ⟨ptr, hptr⟩ := Option.ne_none_iff_exists'.mp hc0
    obtain ⟨q, -, husable⟩ := hsound ptr hptr
    exact not_sound hok' (by decide) husable

/-- A hundred bytes: the page that is added has room for them. -/
theorem onePage_helps : ∃ s s', Regrown .sparc s 100 s' ∧
    ∃ ptr m, s'.mem.alloc .sparc 100 = .ok (some ptr, m) := by
  have hrun : (runAll (step .sparc) start onePage >>= fun s => s.mpoolAlloc .sparc 100 >>= fun a =>
      (mallocEmpty .sparc a.2 100).map fun e => decide (a.1 = none ∧ e.1 = 0)) = .ok true := by
    decide +kernel
  obtain ⟨s, hs, hrun⟩ := bind_eq_ok.mp hrun
  obtain ⟨⟨r, s₁⟩, ha, hrun⟩ := bind_eq_ok.mp hrun
  obtain ⟨⟨rc, s'⟩, he, hboth⟩ := map_eq_ok hrun
  obtain ⟨hr, hrc⟩ := of_decide_eq_true hboth
  obtain ⟨halloc, hpages⟩ := mpoolAlloc_eq_ok.mp ha
  dsimp only at hr hrc halloc hpages he
  rw [hr] at halloc
  rw [hrc] at he
  have hs₁ : s₁ = { s with mem := s₁.mem } := by rw [← hpages]
  rw [hs₁] at he
  have hgrown : Regrown .sparc s 100 s' := ⟨by decide, s₁.mem, halloc, he⟩
  exact ⟨s, s', hgrown, (regrown_alloc (onePage_ok hs) (by decide) hgrown).mpr (by decide)⟩

/-- A whole page: the callback adds a page, and the retried allocation needs two. -/
theorem onePage_fails : ∃ s s', Ok .sparc s.mem.added s ∧ Regrown .sparc s 4096 s' ∧
    ¬ ∃ ptr m, s'.mem.alloc .sparc 4096 = .ok (some ptr, m) := by
  have hrun : (runAll (step .sparc) start onePage >>= fun s => s.mpoolAlloc .sparc 4096 >>= fun a =>
      mallocEmpty .sparc a.2 4096 >>= fun e => (e.2.mpoolAlloc .sparc 4096).map fun b =>
        decide (a.1 = none ∧ e.1 = 0 ∧ b.1 = none)) = .ok true := by
    decide +kernel
  obtain ⟨s, hs, hrun⟩ := bind_eq_ok.mp hrun
  obtain ⟨⟨r, s₁⟩, ha, hrun⟩ := bind_eq_ok.mp hrun
  obtain ⟨⟨rc, s'⟩, he, hrun⟩ := bind_eq_ok.mp hrun
  obtain ⟨b, hb, hall⟩ := map_eq_ok hrun
  obtain ⟨hr, hrc, hnone⟩ := of_decide_eq_true hall
  obtain ⟨halloc, hpages⟩ := mpoolAlloc_eq_ok.mp ha
  obtain ⟨hsecond, -⟩ := mpoolAlloc_eq_ok.mp hb
  dsimp only at hr hrc halloc hpages he hsecond
  rw [hr] at halloc
  rw [hrc] at he
  have hs₁ : s₁ = { s with mem := s₁.mem } := by rw [← hpages]
  rw [hs₁] at he
  refine ⟨s, s', onePage_ok hs, ⟨by decide, s₁.mem, halloc, he⟩, ?_⟩
  rintro ⟨ptr, m, hsome⟩
  rw [hnone] at hsecond
  cases hsecond.symm.trans hsome

end Heap
end Wrmos
