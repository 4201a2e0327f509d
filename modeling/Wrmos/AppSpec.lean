import Wrmos.App
import Wrmos.RegionSpec
import Mathlib.Data.Set.Lattice
import Mathlib.Data.List.Pairwise
import Mathlib.Data.List.TakeDrop

/-!
# When the regions of an application stay apart

A region covers the addresses that follow its start, modulo the word size.  `find`, by which
`add_vspace` and `add_location` test for a crossing, only sees a region that contains the whole new
range: a range that meets a region without lying in it is added.  And `split_to_smaller_regions`
computes the size of the first part as the page of the request minus the start of the region, which
wraps when the region starts inside that page.  `Clear` is the condition on a call that neither
happens; under it every call keeps the regions apart (`App.sound_step`).
-/

namespace Wrmos

open Lib (bind_eq_ok ensure_bind_eq_ok runAll Meets runAll_invariant)

namespace App

variable {A : Arch} {s s' : App}

/-- The addresses of the `sz` bytes from `va` on. -/
def points (A : Arch) (va sz : Nat) : Set ℕ := {x | x < 2 ^ A.wordBits ∧ A.sub x va < sz}

/-- Two regions share no address. -/
def Distinct (A : Arch) (r t : AppRegion) : Prop :=
  Disjoint (points A r.remote r.sz) (points A t.remote t.sz)

/-- No two regions share an address. -/
def Apart (A : Arch) (s : App) : Prop := s.regions.Pairwise (Distinct A)

/-- The range meets no region. -/
def Free (A : Arch) (s : App) (va sz : Nat) : Prop :=
  ∀ r ∈ s.regions, Disjoint (points A r.remote r.sz) (points A va sz)

/-- If the request makes `get_location` cut a region, the region does not start inside the page of
the request and the request does not run out of it. -/
def Proper (A : Arch) (s : App) (va sz acc : Nat) : Prop :=
  ∀ pre reg post, s.find A va sz acc = (pre, reg :: post) → reg.loc = 0 → sz < reg.sz →
    reg.remote ≤ roundPgDown va ∧ va - reg.remote + sz ≤ reg.sz

/-- The condition on a call.  A range that is added meets no region, whether one contains it or
not; a request that cuts a region is proper. -/
def Clear (A : Arch) (s : App) : Call → Prop
  | .addVspace va sz _ => sz ≠ 0 → (s.find A va sz 0).2 = [] → Free A s va sz
  | .addLocation va fp =>
    (s.find A va (Fpage.size A fp) 0).2 = [] → Free A s va (Fpage.size A fp)
  | .getLocation va sz acc => Proper A s va sz acc
  | .memoryRequest va reqSz =>
    reqSz ≤ s.heapSz → (∀ pool, s.pool.alloc A reqSz ≠ .ok (pool, Fpage.nil)) →
      (s.find A va reqSz 0).2 = [] → Free A s va reqSz
  | .setLocationFromElf _ _ _ => True

/-- The arguments of a call are machine words. -/
def Call.Words (A : Arch) : Call → Prop
  | .addVspace va sz _ => va < 2 ^ A.wordBits ∧ sz < 2 ^ A.wordBits
  | .addLocation va _ => va < 2 ^ A.wordBits
  | .getLocation va sz _ => va < 2 ^ A.wordBits ∧ sz < 2 ^ A.wordBits
  | .memoryRequest va _ => va < 2 ^ A.wordBits
  | .setLocationFromElf _ _ _ => True

/-! ## Ranges of addresses -/

theorem word_cases (A : Arch) : 2 ^ A.wordBits = 2 ^ 32 ∨ 2 ^ A.wordBits = 2 ^ 64 := by
  cases A <;> decide

/-- A part of a range, by the distance from its start. -/
theorem mem_points_add {x va n m sz : Nat} (hva : va < 2 ^ A.wordBits) (hsz : sz < 2 ^ A.wordBits)
    (h : n + m ≤ sz) :
    x ∈ points A (A.add va n) m ↔ x < 2 ^ A.wordBits ∧ n ≤ A.sub x va ∧ A.sub x va < n + m := by
  unfold points Arch.sub Arch.add
  simp only [Set.mem_ofPred_eq]
  rcases word_cases A with hw | hw <;> rw [hw] at hva hsz ⊢ <;> omega

/-- Two parts of a range that follow each other share no address. -/
theorem disjoint_points_add {va n m n' m' sz : Nat} (hva : va < 2 ^ A.wordBits)
    (hsz : sz < 2 ^ A.wordBits) (h : n + m ≤ n') (h' : n' + m' ≤ sz) :
    Disjoint (points A (A.add va n) m) (points A (A.add va n') m') := by
  rw [Set.disjoint_left]
  intro x hx hx'
  rw [mem_points_add hva hsz (by omega)] at hx
  rw [mem_points_add hva hsz h'] at hx'
  omega

theorem points_add_subset {va n m sz : Nat} (hva : va < 2 ^ A.wordBits) (hsz : sz < 2 ^ A.wordBits)
    (h : n + m ≤ sz) : points A (A.add va n) m ⊆ points A va sz := by
  intro x hx
  rw [mem_points_add hva hsz h] at hx
  exact ⟨hx.1, by omega⟩

/-- The end of a request and the end of its region, `e` and `r`, both computed modulo the word size:
if they do not end in one page, the distance from the next page to the end of the region is not
affected by the wrapping. -/
theorem after_spec {w e r : Nat} (hw : w = 2 ^ 32 ∨ w = 2 ^ 64) (her : e ≤ r)
    (hne : (e % w + (w - 1)) % w / 4096 * 4096 ≠ (r % w + (w - 1)) % w / 4096 * 4096) :
    (e + 4095) / 4096 * 4096 ≤ r ∧
      (r % w + (w - (e % w + (4096 - 1)) % w / 4096 * 4096)) % w =
        (r - (e + 4095) / 4096 * 4096) % w := by
  rcases hw with rfl | rfl
  · constructor <;> omega
  · constructor <;> omega

/-- The sizes that a proper split computes. -/
theorem sizes_spec {reg : AppRegion} {va sz : Nat} (hsz : reg.sz < 2 ^ A.wordBits)
    (hva : va < 2 ^ A.wordBits) (hpage : reg.remote ≤ roundPgDown va)
    (hin : va - reg.remote + sz ≤ reg.sz) :
    ∃ before after, before + after ≤ reg.sz ∧
      sizes A reg va sz = (before, reg.sz - before - after, after) := by
  have hle : roundPgDown va ≤ va := Nat.div_mul_le_self _ _
  have hpages : roundPgDown va ≤ (va + sz + 4095) / 4096 * 4096 := by
    unfold roundPgDown pageSz
    omega
  have hbefore : A.sub (roundPgDown va) reg.remote = roundPgDown va - reg.remote :=
    Arch.sub_of_le hpage (by omega)
  have hmid : ∀ a, roundPgDown va - reg.remote + a ≤ reg.sz →
      A.sub (A.sub reg.sz (roundPgDown va - reg.remote)) a =
        reg.sz - (roundPgDown va - reg.remote) - a := fun a ha => by
    rw [Arch.sub_of_le (by omega) hsz, Arch.sub_of_le (by omega) (by omega)]
  unfold sizes
  simp only [hbefore]
  split_ifs with ht
  · exact ⟨roundPgDown va - reg.remote, 0, by omega, by rw [hmid 0 (by omega)]⟩
  · have her : va + sz ≤ reg.remote + reg.sz := by omega
    simp only [roundPgDown, Arch.sub, Arch.add, AppRegion.remoteEnd, pageSz] at ht
    obtain ⟨hup, hafter⟩ := after_spec (word_cases A) her ht
    clear ht
    have hsub : A.sub (reg.remoteEnd A) (roundPgUp A (A.add va sz)) =
        reg.remote + reg.sz - (va + sz + 4095) / 4096 * 4096 := by
      simp only [roundPgUp, Region.roundUp, Arch.sub, Arch.add, AppRegion.remoteEnd, pageSz]
      rw [hafter]
      exact Nat.mod_eq_of_lt (by omega)
    rw [hsub, hmid _ (by omega)]
    exact ⟨_, _, by omega, rfl⟩

/-! ## Lists of regions -/

instance : Std.Symm (Distinct A) := ⟨fun _ _ h => Disjoint.symm h⟩

/-- A region of the list is replaced by parts of it. -/
theorem distinct_replace {pre post news l : List AppRegion} {reg : AppRegion}
    (h : (pre ++ reg :: post).Pairwise (Distinct A)) (hl : l.Perm (news ++ (pre ++ post)))
    (hnews : news.Pairwise (Distinct A))
    (hsub : ∀ t ∈ news, points A t.remote t.sz ⊆ points A reg.remote reg.sz) :
    l.Pairwise (Distinct A) := by
  have hsymm : ∀ {r t : AppRegion}, Distinct A r t → Distinct A t r := fun h => Disjoint.symm h
  rw [List.perm_middle.pairwise_iff hsymm, List.pairwise_cons] at h
  rw [hl.pairwise_iff hsymm, List.pairwise_append]
  refine ⟨hnews, h.2, fun t ht r hr => ?_⟩
  exact Set.disjoint_of_subset_left (hsub t ht) (h.1 r hr)

/-- What holds of the regions, their list and the page pool. -/
structure Sound (A : Arch) (s : App) : Prop where
  words : ∀ r ∈ s.regions, r.remote < 2 ^ A.wordBits ∧ r.sz < 2 ^ A.wordBits
  apart : Apart A s
  pool : s.pool.Wf

/-- Nothing changed but the free nodes, the heap and the page pool. -/
structure SameRegions (s s' : App) : Prop where
  regions : s'.regions = s.regions
  pool : s.pool.Wf → s'.pool.Wf

theorem SameRegions.trans {s₁ s₂ s₃ : App} (h : SameRegions s₁ s₂) (h' : SameRegions s₂ s₃) :
    SameRegions s₁ s₃ := ⟨h'.regions.trans h.regions, fun hp => h'.pool (h.pool hp)⟩

theorem sameRegions_takeNode (h : s.takeNode A = .ok s') : SameRegions s s' := by
  obtain ⟨t, ht, h⟩ := bind_eq_ok.mp h
  obtain rfl := Except.ok.inj h
  unfold checkForAlloc at ht
  split at ht
  · obtain ⟨⟨pool, fp⟩, hp, ht⟩ := bind_eq_ok.mp ht
    obtain ⟨_, ht⟩ := ensure_bind_eq_ok.mp ht
    obtain rfl := Except.ok.inj ht
    exact ⟨rfl, fun hw => (PagePool.alloc_spec hw hp).1⟩
  · obtain rfl := Except.ok.inj ht
    exact ⟨rfl, id⟩

theorem sameRegions_takeNodes : ∀ {news : List AppRegion} {s s' : App},
    news.foldlM (fun s _ => s.takeNode A) s = .ok s' → SameRegions s s'
  | [], _, _, h => Except.ok.inj h ▸ ⟨rfl, id⟩
  | _ :: _, _, _, h => by
    obtain ⟨t, ht, h⟩ := bind_eq_ok.mp h
    exact (sameRegions_takeNode ht).trans (sameRegions_takeNodes h)

/-- A range that meets no region can be added. -/
theorem sound_pushBack {r : AppRegion} (hs : Sound A s) (hva : r.remote < 2 ^ A.wordBits)
    (hsz : r.sz < 2 ^ A.wordBits) (hfree : Free A s r.remote r.sz) (h : s.pushBack A r = .ok s') :
    Sound A s' := by
  obtain ⟨t, ht, h⟩ := bind_eq_ok.mp h
  obtain rfl := Except.ok.inj h
  have hsame := sameRegions_takeNode ht
  refine ⟨fun r' hr' => ?_, ?_, hsame.pool hs.pool⟩
  · have hr' : r' ∈ t.regions ++ [r] := hr'
    rw [hsame.regions, List.mem_append, List.mem_singleton] at hr'
    rcases hr' with hr' | rfl
    · exact hs.words r' hr'
    · exact ⟨hva, hsz⟩
  · show (t.regions ++ [r]).Pairwise _
    rw [hsame.regions, List.pairwise_append]
    refine ⟨hs.apart, List.pairwise_singleton _ _, fun r' hr' t' ht' => ?_⟩
    rw [List.mem_singleton.mp ht']
    exact hfree r' hr'

/-- Regions with the same ranges are as sound. -/
theorem sound_of_ranges (hs : Sound A s) (hp : s'.pool = s.pool)
    (h : s'.regions.map (fun r => (r.remote, r.sz)) = s.regions.map (fun r => (r.remote, r.sz))) :
    Sound A s' := by
  refine ⟨fun r hr => ?_, ?_, hp ▸ hs.pool⟩
  · have hmem : (r.remote, r.sz) ∈ s'.regions.map fun r => (r.remote, r.sz) :=
      List.mem_map_of_mem hr
    rw [h] at hmem
    obtain ⟨t, ht, hrt⟩ := List.mem_map.mp hmem
    obtain ⟨h1, h2⟩ := Prod.mk.inj hrt
    rw [← h1, ← h2]
    exact hs.words t ht
  · have hrel : ∀ l : List AppRegion, l.Pairwise (Distinct A) ↔
        (l.map fun r => (r.remote, r.sz)).Pairwise fun a b =>
          Disjoint (points A a.1 a.2) (points A b.1 b.2) := fun l => by
      rw [List.pairwise_map]
      rfl
    exact (hrel _).mpr (h ▸ (hrel _).mp hs.apart)

theorem find_append (s : App) (va sz acc : Nat) :
    (s.find A va sz acc).1 ++ (s.find A va sz acc).2 = s.regions := by
  unfold find
  rw [List.span_eq_takeWhile_dropWhile]
  exact List.takeWhile_append_dropWhile

/-! ## The calls -/

/-- A proper split replaces the region by its parts. -/
theorem split_spec {pre post pre' post' : List AppRegion} {reg reg' : AppRegion} {va sz : Nat}
    (hsz : reg.sz < 2 ^ A.wordBits) (hremote : reg.remote < 2 ^ A.wordBits)
    (hva : va < 2 ^ A.wordBits) (hpage : reg.remote ≤ roundPgDown va)
    (hin : va - reg.remote + sz ≤ reg.sz)
    (h : s.splitToSmallerRegions A pre reg post va sz = .ok (s', pre', reg', post')) :
    SameRegions s s' ∧ ∃ news, (pre' ++ reg' :: post').Perm (news ++ (pre ++ post)) ∧
      news.Pairwise (Distinct A) ∧
      ∀ t ∈ news, points A t.remote t.sz ⊆ points A reg.remote reg.sz ∧
        t.remote < 2 ^ A.wordBits ∧ t.sz < 2 ^ A.wordBits := by
  obtain ⟨before, after, hsum, hsizes⟩ := sizes_spec hsz hva hpage hin
  unfold splitToSmallerRegions at h
  rw [hsizes] at h
  obtain ⟨_, h⟩ := ensure_bind_eq_ok.mp h
  obtain ⟨t, ht, h⟩ := bind_eq_ok.mp h
  obtain ⟨_, h⟩ := ensure_bind_eq_ok.mp h
  replace h := Except.ok.inj h
  simp only [Prod.mk.injEq] at h
  obtain ⟨rfl, rfl, rfl, rfl⟩ := h
  have hsame := sameRegions_takeNodes ht
  refine ⟨⟨hsame.regions, hsame.pool⟩, biteBefore reg before ++
    biteMiddle A reg before (reg.sz - before - after) ::
      biteAfter A reg before (reg.sz - before - after) after, ?_, ?_⟩
  · rw [List.append_assoc]
    exact List.perm_append_comm
  -- the parts stand one after another, at these distances from the start of the region
  have hzero : reg.remote = A.add reg.remote 0 := (Nat.mod_eq_of_lt hremote).symm
  have hadd : A.add (A.add reg.remote before) (reg.sz - before - after) =
      A.add reg.remote (reg.sz - after) := by
    unfold Arch.add
    rw [Nat.mod_add_mod]
    congr 1
    omega
  have hb : ∀ t ∈ biteBefore reg before, t.remote = A.add reg.remote 0 ∧ t.sz = before := by
    intro t ht
    unfold biteBefore at ht
    split at ht
    · cases ht
    · rw [List.mem_singleton.mp ht]
      exact ⟨hzero, rfl⟩
  have ha : ∀ t ∈ biteAfter A reg before (reg.sz - before - after) after,
      t.remote = A.add reg.remote (reg.sz - after) ∧ t.sz = after := by
    intro t ht
    unfold biteAfter at ht
    split at ht
    · cases ht
    · rw [List.mem_singleton.mp ht]
      exact ⟨hadd, rfl⟩
  have hm : (biteMiddle A reg before (reg.sz - before - after)).remote = A.add reg.remote before ∧
      (biteMiddle A reg before (reg.sz - before - after)).sz = reg.sz - before - after := ⟨rfl, rfl⟩
  have hword : ∀ n, A.add reg.remote n < 2 ^ A.wordBits := fun n => Nat.mod_lt _ (Nat.two_pow_pos _)
  constructor
  · rw [List.pairwise_append, List.pairwise_cons]
    refine ⟨?_, ⟨fun t ht => ?_, ?_⟩, fun r hr t ht => ?_⟩
    · unfold biteBefore
      split <;> simp
    · obtain ⟨h1, h2⟩ := ha t ht
      unfold Distinct
      rw [h1, h2, hm.1, hm.2]
      exact disjoint_points_add hremote hsz (by omega) (by omega)
    · unfold biteAfter
      split <;> simp
    · obtain ⟨h1, h2⟩ := hb r hr
      unfold Distinct
      rw [h1, h2]
      rcases List.mem_cons.mp ht with rfl | ht
      · rw [hm.1, hm.2]
        exact disjoint_points_add hremote hsz (by omega) (by omega)
      · obtain ⟨h3, h4⟩ := ha t ht
        rw [h3, h4]
        exact disjoint_points_add hremote hsz (by omega) (by omega)
  · intro t ht
    rcases List.mem_append.mp ht with ht | ht
    · obtain ⟨h1, h2⟩ := hb t ht
      rw [h1, h2]
      exact ⟨points_add_subset hremote hsz (by omega), hword _, by omega⟩
    · rcases List.mem_cons.mp ht with rfl | ht
      · rw [hm.1, hm.2]
        exact ⟨points_add_subset hremote hsz (by omega), hword _, by omega⟩
      · obtain ⟨h1, h2⟩ := ha t ht
        rw [h1, h2]
        exact ⟨points_add_subset hremote hsz (by omega), hword _, by omega⟩

/-- A region gets memory. -/
theorem locate_spec {pre post : List AppRegion} {reg reg' : AppRegion} {va sz : Nat}
    (hs : Sound A s) (hl : pre ++ reg :: post = s.regions) (hva : va < 2 ^ A.wordBits)
    (hproper : sz < reg.sz → reg.remote ≤ roundPgDown va ∧ va - reg.remote + sz ≤ reg.sz)
    (h : s.locate A pre reg post va sz = .ok (s', reg')) : Sound A s' := by
  have hmem : ∀ r ∈ pre ++ reg :: post, r.remote < 2 ^ A.wordBits ∧ r.sz < 2 ^ A.wordBits :=
    fun r hr => hs.words r (hl ▸ hr)
  have hreg := hmem reg (by simp)
  have hapart : (pre ++ reg :: post).Pairwise (Distinct A) := hl ▸ hs.apart
  obtain ⟨⟨t, pre', reg₁, post'⟩, ht, h⟩ := bind_eq_ok.mp h
  obtain ⟨⟨pool, fp⟩, hp, h⟩ := bind_eq_ok.mp h
  obtain ⟨_, h⟩ := ensure_bind_eq_ok.mp h
  obtain ⟨rfl, rfl⟩ := Prod.mk.inj (Except.ok.inj h)
  -- the regions after the split are apart, with the same words and pool
  have hsplit : (pre' ++ reg₁ :: post').Pairwise (Distinct A) ∧
      (∀ r ∈ pre' ++ reg₁ :: post', r.remote < 2 ^ A.wordBits ∧ r.sz < 2 ^ A.wordBits) ∧
      t.pool.Wf := by
    unfold splitIfNeed at ht
    split at ht
    · obtain ⟨hpage, hin⟩ := hproper ‹_›
      obtain ⟨hsame, news, hperm, hnews, hsub⟩ := split_spec hreg.2 hreg.1 hva hpage hin ht
      refine ⟨distinct_replace hapart hperm hnews fun r hr => (hsub r hr).1, fun r hr => ?_,
        hsame.pool hs.pool⟩
      rw [hperm.mem_iff, List.mem_append] at hr
      rcases hr with hr | hr
      · exact (hsub r hr).2
      · refine hmem r ?_
        rw [List.perm_middle.mem_iff]
        exact List.mem_cons_of_mem _ hr
    · replace ht := Except.ok.inj ht
      simp only [Prod.mk.injEq] at ht
      obtain ⟨rfl, rfl, rfl, rfl⟩ := ht
      exact ⟨hapart, hmem, hs.pool⟩
  obtain ⟨hpw, hwords, hpool⟩ := hsplit
  have hsound : Sound A { t with regions := pre' ++ reg₁ :: post', pool := pool } :=
    ⟨hwords, hpw, (PagePool.alloc_spec hpool hp).1⟩
  exact sound_of_ranges hsound rfl (by simp)

theorem sound_getLocation {va sz acc : Nat} {r : Nat × Nat} (hs : Sound A s)
    (hva : va < 2 ^ A.wordBits) (hproper : Proper A s va sz acc)
    (h : s.getLocation A va sz acc = .ok (s', r)) : Sound A s' := by
  unfold getLocation at h
  have hsplit := find_append (A := A) s va sz acc
  cases hf : s.find A va sz acc with
  | mk pre l =>
    rw [hf] at h hsplit
    cases l with
    | nil =>
      obtain ⟨rfl, rfl⟩ := Prod.mk.inj (Except.ok.inj h)
      exact hs
    | cons reg post =>
      obtain ⟨_, h⟩ := ensure_bind_eq_ok.mp h
      obtain ⟨⟨t, reg'⟩, ht, h⟩ := bind_eq_ok.mp h
      obtain ⟨_, h⟩ := ensure_bind_eq_ok.mp h
      obtain ⟨rfl, rfl⟩ := Prod.mk.inj (Except.ok.inj h)
      by_cases hloc : reg.loc = 0
      · rw [if_pos hloc] at ht
        exact locate_spec hs hsplit hva (hproper pre reg post hf hloc) ht
      · rw [if_neg hloc] at ht
        obtain ⟨rfl, rfl⟩ := Prod.mk.inj (Except.ok.inj ht)
        exact hs

theorem size_lt (A : Arch) (fp : Nat) : Fpage.size A fp < 2 ^ A.wordBits := by
  unfold Fpage.size Fpage.shiftOne
  split
  · exact Nat.pow_lt_pow_right (by decide) ‹_›
  · cases A
    all_goals first
      | exact Nat.two_pow_pos _
      | exact Nat.pow_lt_pow_right (by decide) (Nat.mod_lt _ (by decide))

theorem sound_addLocation {va fp : Nat} {rc : Int} (hs : Sound A s) (hva : va < 2 ^ A.wordBits)
    (hfree : (s.find A va (Fpage.size A fp) 0).2 = [] → Free A s va (Fpage.size A fp))
    (h : s.addLocation A va fp = .ok (s', rc)) : Sound A s' := by
  unfold addLocation at h
  by_cases hf : (s.find A va (Fpage.size A fp) 0).2 = []
  · rw [if_neg (not_not.mpr hf)] at h
    obtain ⟨t, ht, h⟩ := bind_eq_ok.mp h
    obtain ⟨rfl, rfl⟩ := Prod.mk.inj (Except.ok.inj h)
    exact sound_pushBack hs hva (size_lt A fp) (hfree hf) ht
  · rw [if_pos hf] at h
    obtain ⟨rfl, rfl⟩ := Prod.mk.inj (Except.ok.inj h)
    exact hs

theorem sound_usualMemoryRequest {va reqSz : Nat} {r : Nat × Nat} (hs : Sound A s)
    (hva : va < 2 ^ A.wordBits) (hclear : Clear A s (.memoryRequest va reqSz))
    (h : s.usualMemoryRequest A va reqSz = .ok (s', r)) : Sound A s' := by
  unfold usualMemoryRequest at h
  by_cases hheap : s.heapSz < reqSz
  · rw [if_pos hheap] at h
    obtain ⟨rfl, rfl⟩ := Prod.mk.inj (Except.ok.inj h)
    exact hs
  · rw [if_neg hheap] at h
    obtain ⟨⟨pool, fp⟩, hp, h⟩ := bind_eq_ok.mp h
    obtain ⟨hpool, hsize⟩ := PagePool.alloc_spec hs.pool hp
    have hs₁ : Sound A { s with pool := pool } := ⟨hs.words, hs.apart, hpool⟩
    by_cases hfp : fp = Fpage.nil
    · simp only [if_pos hfp] at h
      obtain ⟨rfl, rfl⟩ := Prod.mk.inj (Except.ok.inj h)
      exact hs₁
    · simp only [if_neg hfp] at h
      obtain ⟨⟨t, rc⟩, ht, h⟩ := bind_eq_ok.mp h
      have hsz : Fpage.size A fp = reqSz := hsize.resolve_left hfp
      have hnil : ∀ pool', s.pool.alloc A reqSz ≠ .ok (pool', Fpage.nil) := fun pool' h' =>
        hfp (Prod.mk.inj (Except.ok.inj (hp.symm.trans h'))).2
      have hst : Sound A t := by
        refine sound_addLocation hs₁ hva (fun hf => ?_) ht
        rw [hsz] at hf ⊢
        exact hclear (by omega) hnil hf
      by_cases hrc : rc ≠ 0
      · simp only [if_pos hrc] at h
        obtain ⟨q, hq, h⟩ := bind_eq_ok.mp h
        obtain ⟨rfl, rfl⟩ := Prod.mk.inj (Except.ok.inj h)
        exact ⟨hst.words, hst.apart, PagePool.wf_add hst.pool hq⟩
      · simp only [if_neg hrc] at h
        obtain ⟨rfl, rfl⟩ := Prod.mk.inj (Except.ok.inj h)
        exact ⟨hst.words, hst.apart, hst.pool⟩

/-- `set_location_from_elf` leaves the ranges of the regions as they are. -/
theorem setLocations_spec {va sz location : Nat} : ∀ {l l' : List AppRegion},
    l.mapM (setLocationOf A va sz location) = .ok l' →
      l'.map (fun r => (r.remote, r.sz)) = l.map (fun r => (r.remote, r.sz))
  | [], _, h => by
    rw [List.mapM_nil] at h
    exact Except.ok.inj h ▸ rfl
  | it :: l, _, h => by
    rw [List.mapM_cons] at h
    obtain ⟨it', hit, h⟩ := bind_eq_ok.mp h
    obtain ⟨m, hm, h⟩ := bind_eq_ok.mp h
    obtain rfl := Except.ok.inj h
    have hsame : (it'.remote, it'.sz) = (it.remote, it.sz) := by
      unfold setLocationOf at hit
      split at hit
      · obtain ⟨_, hit⟩ := ensure_bind_eq_ok.mp hit
        obtain ⟨_, hit⟩ := ensure_bind_eq_ok.mp hit
        obtain ⟨_, hit⟩ := ensure_bind_eq_ok.mp hit
        obtain ⟨_, hit⟩ := ensure_bind_eq_ok.mp hit
        obtain ⟨_, hit⟩ := ensure_bind_eq_ok.mp hit
        split at hit
        · exact Except.ok.inj hit ▸ rfl
        · exact Except.ok.inj hit ▸ rfl
      · exact Except.ok.inj hit ▸ rfl
    rw [List.map_cons, List.map_cons, hsame, setLocations_spec hm]

/-- **A clear call keeps the regions apart.** -/
theorem sound_step {c : Call} (hs : Sound A s) (hw : c.Words A) (hc : Clear A s c)
    (h : step A s c = .ok s') : Sound A s' := by
  cases c with
  | addVspace va sz acc =>
    obtain ⟨_, h⟩ := ensure_bind_eq_ok.mp h
    obtain ⟨_, h⟩ := ensure_bind_eq_ok.mp h
    by_cases hsz : sz = 0
    · rw [if_pos hsz] at h
      exact Except.ok.inj h ▸ hs
    · rw [if_neg hsz] at h
      obtain ⟨hf, h⟩ := ensure_bind_eq_ok.mp h
      exact sound_pushBack hs hw.1 hw.2 (hc hsz hf) h
  | addLocation va fp =>
    obtain ⟨r, hr, rfl⟩ := Lib.map_eq_ok h
    exact sound_addLocation hs hw hc hr
  | getLocation va sz acc =>
    obtain ⟨r, hr, rfl⟩ := Lib.map_eq_ok h
    exact sound_getLocation hs hw.1 hc hr
  | memoryRequest va reqSz =>
    obtain ⟨r, hr, rfl⟩ := Lib.map_eq_ok h
    exact sound_usualMemoryRequest hs hw hc hr
  | setLocationFromElf va sz location =>
    obtain ⟨l, hl, h⟩ := bind_eq_ok.mp h
    obtain rfl := Except.ok.inj h
    exact sound_of_ranges hs rfl (setLocations_spec hl)

/-- An application as its constructor leaves it. -/
def create (heapSz : Nat) (pool : PagePool) : App := ⟨[], 0, heapSz, pool⟩

/-- **In every run of clear calls the regions stay apart**: every address has one region at most,
and so one location and one access. -/
theorem run_apart {heapSz : Nat} {pool : PagePool} (hpool : pool.Wf) {cs : List Call}
    (hw : ∀ c ∈ cs, c.Words A) (hc : Meets (step A) (Clear A) (create heapSz pool) cs)
    (h : runAll (step A) (create heapSz pool) cs = .ok s) :
    Apart A s ∧ ∀ x, ∀ r ∈ s.regions, ∀ t ∈ s.regions, x ∈ points A r.remote r.sz →
      x ∈ points A t.remote t.sz → r = t := by
  have hstart : Sound A (create heapSz pool) :=
    ⟨fun r hr => (by cases hr), List.Pairwise.nil, hpool⟩
  have hs : Sound A s := runAll_invariant (I := Sound A)
    (fun s c s' hi hcl hst => sound_step hi hcl.1 hcl.2 hst) hstart (hc.and hw) h
  refine ⟨hs.apart, fun x r hr t ht hx hxt => ?_⟩
  by_contra hne
  exact Set.disjoint_left.mp (List.Pairwise.forall hs.apart hr ht hne) hx hxt

/-- A pool of one page, which the list of regions takes. -/
def onePage : PagePool := ⟨fun i => if i = 0 then [Fpage.create .x86 0x100000 0x1000 7] else [], 0x1000⟩

theorem wf_onePage : onePage.Wf := by
  intro i fp hfp
  unfold onePage at hfp
  simp only at hfp
  split at hfp
  · subst i
    rw [List.mem_singleton.mp hfp]
    decide
  · cases hfp

/-- The regions after a run of calls on a new application. -/
def regionsAfter (cs : List Call) : Option (List AppRegion) :=
  (runAll (step .x86) (create 0 onePage) cs).toOption.map App.regions

theorem exists_of_regionsAfter {c : List Call} {l : List AppRegion} (h : regionsAfter c = some l) :
    ∃ s, runAll (step .x86) (create 0 onePage) c = .ok s ∧ s.regions = l := by
  unfold regionsAfter at h
  cases hr : runAll (step .x86) (create 0 onePage) c with
  | error e =>
    rw [hr] at h
    cases h
  | ok s =>
    rw [hr] at h
    exact ⟨s, rfl, Option.some.inj h⟩

/-- Two sections one after the other: the second call is clear in the state the first one leads
to. -/
theorem twoSections_apart : ∃ s, runAll (step .x86) (create 0 onePage)
    [.addVspace 0x2000 0x1000 6, .addVspace 0x3000 0x1000 4] = .ok s ∧ Apart .x86 s := by
  obtain ⟨t, ht, htr⟩ := exists_of_regionsAfter (c := [.addVspace 0x2000 0x1000 6])
    (l := [⟨0x2000, 0x1000, 6, 0, 0⟩]) (by decide +kernel)
  obtain ⟨s, hs, _⟩ := exists_of_regionsAfter
    (c := [.addVspace 0x2000 0x1000 6, .addVspace 0x3000 0x1000 4])
    (l := [⟨0x2000, 0x1000, 6, 0, 0⟩, ⟨0x3000, 0x1000, 4, 0, 0⟩]) (by decide +kernel)
  refine ⟨s, hs, (run_apart wf_onePage (by simp [Call.Words, Arch.wordBits]) ?_ hs).1⟩
  refine ⟨fun _ _ r hr => (by cases hr), fun t' ht' => ⟨fun _ _ r hr => ?_, fun _ _ => trivial⟩⟩
  obtain ⟨t₁, ht₁, hnil⟩ := bind_eq_ok.mp ht
  obtain rfl := Except.ok.inj hnil
  obtain rfl := Except.ok.inj (ht₁.symm.trans ht')
  rw [htr] at hr
  rw [List.mem_singleton.mp hr, Set.disjoint_left]
  intro x hx hx'
  have hx : (x + (2 ^ 32 - 0x2000)) % 2 ^ 32 < 0x1000 := hx.2
  have hx' : (x + (2 ^ 32 - 0x3000)) % 2 ^ 32 < 0x1000 := hx'.2
  omega

/-- A range around an existing region is added without an error: the address `0x2000` has two
regions, with different access. -/
theorem enclosing_not_apart : ∃ s, runAll (step .x86) (create 0 onePage)
    [.addVspace 0x2000 0x1000 6, .addVspace 0x1000 0x3000 4] = .ok s ∧ ¬ Apart .x86 s ∧
      ∃ r ∈ s.regions, ∃ t ∈ s.regions, r.acc ≠ t.acc ∧ 0x2000 ∈ points .x86 r.remote r.sz ∧
        0x2000 ∈ points .x86 t.remote t.sz := by
  obtain ⟨s, hs, hl⟩ := exists_of_regionsAfter
    (c := [.addVspace 0x2000 0x1000 6, .addVspace 0x1000 0x3000 4])
    (l := [⟨0x2000, 0x1000, 6, 0, 0⟩, ⟨0x1000, 0x3000, 4, 0, 0⟩]) (by decide +kernel)
  have h1 : 0x2000 ∈ points .x86 0x2000 0x1000 := ⟨by decide, by decide⟩
  have h2 : 0x2000 ∈ points .x86 0x1000 0x3000 := ⟨by decide, by decide⟩
  refine ⟨s, hs, fun hapart => ?_, ⟨0x2000, 0x1000, 6, 0, 0⟩, by simp [hl],
    ⟨0x1000, 0x3000, 4, 0, 0⟩, by simp [hl], by decide, h1, h2⟩
  unfold Apart at hapart
  rw [hl, List.pairwise_cons] at hapart
  exact Set.disjoint_left.mp (hapart.1 _ List.mem_cons_self) h1 h2

end App

end Wrmos
