import Wrmos.Ldr
import Wrmos.HandoverSpec
import Wrmos.Lib.NodeList
import Mathlib.Order.Interval.Set.Disjoint

/-!
# When the memory map of the boot loader is safe

Three regions become conventional memory: the loader's own, what RAM has below the first region, and what it
has behind the last one.  A descriptor counts in kilobytes, so the range that is read back from it reaches
from the start rounded down to the end rounded up (`range_points`).  The file system image is no region: it
is not looked at when the free regions are made, and neither is it in the check for overlaps.

`Collected` follows `insert_sort` through the program headers.  From it `addFreeMem_perm` says which regions
get descriptors of conventional memory, and `below_iff`, `behind_iff` and `own_iff` say for each of the three
what the promise asks of the placement.  Addresses wrap: a segment may run past the end of the address
space, and where the last region does, the check for overlaps stops the loader or the loader's own memory is
overwritten (`loader_before`, `last_end`).
-/

namespace Wrmos
namespace Ldr

open Lib
open MemDesc (conventional conventionalSpans)

variable {A : Arch} {img : Image} {r r' : Region} {l l' used regions : List Region} {n a b c d : Nat}

/-- An address rounded to a kilobyte, down and up. -/
def down (n : Nat) : Nat := n / 1024 * 1024
def up (n : Nat) : Nat := (n + 1023) / 1024 * 1024

/-! ## The lists -/

/-- A later region in the order of the list, the one that was there first of two that start together. -/
def later (r : Region) (b : Option Region) : Option Region :=
  some (match b with
    | none => r
    | some b => if b.start < r.start then r else b)

/-- An earlier one. -/
def earlier (r : Region) (b : Option Region) : Option Region :=
  some (match b with
    | none => r
    | some b => if b.start < r.start then b else r)

/-- The list is in the order of the starts. -/
def InOrder (l : List Region) : Prop := l.Pairwise fun a b => a.start ≤ b.start

theorem place_perm : (place r l).Perm (r :: l) := by
  unfold place
  refine List.perm_middle.trans (List.Perm.cons r ?_)
  rw [List.takeWhile_append_dropWhile]

theorem place_inOrder (h : InOrder l) : InOrder (place r l) := by
  have hins := NodeList.pairwise_insert (f := Region.start) (x := r)
    (p := fun e => !decide (e.start < r.start)) h
    (fun e _ he => by simpa using he) (fun e _ he => by
      have hlt : e.start < r.start := by simpa using he
      exact Nat.le_of_lt hlt)
  simp only [Bool.not_not] at hins
  exact hins

theorem head?_place : (place r l).head? = earlier r l.head? := by
  unfold place earlier
  cases l with
  | nil => rfl
  | cons b l =>
    by_cases hb : b.start < r.start
    · simp [hb]
    · simp [hb]

theorem getLast?_place (h : InOrder l) : (place r l).getLast? = later r l.getLast? := by
  unfold place later
  rcases List.eq_nil_or_concat' l with rfl | ⟨l, b, rfl⟩
  · rfl
  · have hle : ∀ e ∈ l, e.start ≤ b.start := fun e he =>
      (List.pairwise_append.mp h).2.2 e he b List.mem_cons_self
    rw [List.getLast?_concat]
    dsimp only
    by_cases hb : b.start < r.start
    · have hall : ∀ e ∈ l ++ [b], decide (e.start < r.start) = true := by
        intro e he
        rw [decide_eq_true_iff]
        rcases List.mem_append.mp he with he | he
        · exact Nat.lt_of_le_of_lt (hle e he) hb
        · exact List.mem_singleton.mp he ▸ hb
      rw [List.dropWhile_eq_nil_iff.mpr hall, List.getLast?_concat, if_pos hb]
    · have hdrop : ((l ++ [b]).dropWhile fun e => decide (e.start < r.start)).getLast? = some b := by
        rw [List.dropWhile_append]
        split
        · simp [hb]
        · rw [List.getLast?_concat]
      rw [List.getLast?_append, List.getLast?_cons, hdrop, if_neg hb]
      rfl

/-- Below all of the list a region is put in front. -/
theorem place_below (h : ∀ b ∈ l.head?, r.start < b.start) : place r l = r :: l := by
  unfold place
  cases l with
  | nil => rfl
  | cons b l =>
    have hb : ¬ b.start < r.start := Nat.not_lt.mpr (Nat.le_of_lt (h b rfl))
    simp [hb]

theorem insertSort_eq_ok (h : insertSort r l = .ok l') : l' = place r l :=
  (Except.ok.inj (ensure_bind_eq_ok.mp h).2).symm

theorem insertOpt_eq_ok {o : Option Region} (h : insertOpt o l = .ok l') :
    l' = o.elim l fun r => place r l := by
  cases o with
  | none => exact (Except.ok.inj h).symm
  | some r => exact insertSort_eq_ok h

/-! ## The regions of the ELF files and of the loader -/

/-- The segments of an ELF file that are loaded. -/
def loadsOf (app : Owner) (cs : List Elf.PhCall) : List Region :=
  (cs.filter Elf.PhCall.isLoad).map fun c => ⟨c.paddr, c.memsz, app⟩

/-- The segments that are loaded. -/
def loads (img : Image) : List Region :=
  loadsOf .kernel img.kernel.segments ++ loadsOf .sigma0 img.sigma0.segments ++
    loadsOf .roottask img.roottask.segments

/-- The region of the segments and the loader that starts first, and the one that starts last. -/
def firstRegion (A : Arch) (img : Image) : Option Region :=
  (loads img ++ [bootloader A img]).foldl (fun b r => earlier r b) none
def lastRegion (A : Arch) (img : Image) : Option Region :=
  (loads img ++ [bootloader A img]).foldl (fun b r => later r b) none

/-- What the list is once the regions of `rs` are in. -/
structure Collected (rs l : List Region) : Prop where
  perm : l.Perm rs
  order : InOrder l
  head : l.head? = rs.foldl (fun b r => earlier r b) none
  last : l.getLast? = rs.foldl (fun b r => later r b) none

theorem Collected.place {rs : List Region} (h : Collected rs l) : Collected (rs ++ [r]) (place r l) where
  perm := place_perm.trans ((h.perm.cons r).trans (List.perm_append_singleton r rs).symm)
  order := place_inOrder h.order
  head := by
    rw [head?_place, h.head, List.foldl_append]
    rfl
  last := by
    rw [getLast?_place h.order, h.last, List.foldl_append]
    rfl

theorem Collected.segments {app : Owner} {cs : List Elf.PhCall} :
    ∀ {rs l l' : List Region}, Collected rs l → runAll (processElfPhdr app) l cs = .ok l' →
      Collected (rs ++ loadsOf app cs) l' := by
  induction cs with
  | nil =>
    intro rs l l' h hrun
    obtain rfl := Except.ok.inj hrun
    rw [show loadsOf app [] = [] from rfl, List.append_nil]
    exact h
  | cons c cs ih =>
    intro rs l l' h hrun
    obtain ⟨l₁, hstep, hrest⟩ := bind_eq_ok.mp hrun
    unfold processElfPhdr at hstep
    cases hc : c.isLoad with
    | true =>
      rw [if_pos hc] at hstep
      obtain rfl := insertSort_eq_ok hstep
      have hcons : rs ++ loadsOf app (c :: cs) =
          rs ++ [⟨c.paddr, c.memsz, app⟩] ++ loadsOf app cs := by
        unfold loadsOf
        rw [List.filter_cons_of_pos hc, List.map_cons, List.append_assoc]
        rfl
      rw [hcons]
      exact ih h.place hrest
    | false =>
      rw [if_neg (by rw [hc]; nofun)] at hstep
      obtain rfl := Except.ok.inj hstep
      have hcons : loadsOf app (c :: cs) = loadsOf app cs := by
        unfold loadsOf
        rw [List.filter_cons_of_neg (by rw [hc]; nofun)]
      rw [hcons]
      exact ih h hrest

theorem collected_nil : Collected [] [] := ⟨List.Perm.refl _, List.Pairwise.nil, rfl, rfl⟩

/-- The list before RAM is looked at. -/
theorem usedRegions_spec (h : usedRegions A img = .ok used) :
    Collected (loads img ++ [bootloader A img]) used := by
  obtain ⟨l₁, h₁, h⟩ := bind_eq_ok.mp h
  obtain ⟨l₂, h₂, h⟩ := bind_eq_ok.mp h
  obtain ⟨l₃, h₃, h⟩ := bind_eq_ok.mp h
  obtain rfl := insertSort_eq_ok h
  exact (((collected_nil.segments h₁).segments h₂).segments h₃).place

/-! ## The free regions -/

/-- The free regions that are added. -/
def freeRegions (A : Arch) (img : Image) : List Region :=
  (((firstRegion A img).bind (freeBelow A img)).toList ++
    ((lastRegion A img).bind (freeBehind A img)).toList)

theorem freeBelow_eq_some (h : freeBelow A img r = some r') :
    img.ramStart < r.start ∧ r' = ⟨img.ramStart, A.sub r.start img.ramStart, .free⟩ := by
  unfold freeBelow at h
  split at h
  · exact ⟨‹_›, (Option.some.inj h).symm⟩
  · cases h

theorem freeBehind_eq_some (h : freeBehind A img r = some r') :
    r.endOf A < ramEnd A img ∧
      r' = ⟨r.endOf A, A.sub (ramEnd A img) (r.endOf A), .free⟩ := by
  unfold freeBehind at h
  split at h
  · exact ⟨‹_›, (Option.some.inj h).symm⟩
  · cases h

/-- What `add_free_mem_to_regions` makes of the list: a region in front, and one put behind the last. -/
theorem addFreeMem_spec (h : addFreeMem A img used = .ok regions)
    (hused : Collected (loads img ++ [bootloader A img]) used) :
    regions = (((lastRegion A img).bind (freeBehind A img)).elim id place)
      (((firstRegion A img).bind (freeBelow A img)).toList ++ used) := by
  obtain ⟨l₁, h₁, h₂⟩ := bind_eq_ok.mp h
  have hfirst : used.head? = firstRegion A img := hused.head
  have hlast : used.getLast? = lastRegion A img := hused.last
  have hl₁ : l₁ = ((firstRegion A img).bind (freeBelow A img)).toList ++ used := by
    have h₁ := insertOpt_eq_ok h₁
    rw [hfirst] at h₁
    rw [h₁]
    cases hb : (firstRegion A img).bind (freeBelow A img) with
    | none => rfl
    | some r =>
      obtain ⟨f, hf, hfr⟩ := Option.bind_eq_some_iff.mp hb
      obtain ⟨hlt, rfl⟩ := freeBelow_eq_some hfr
      refine place_below fun b hb => ?_
      rw [hfirst, hf] at hb
      obtain rfl := Option.some.inj hb
      exact hlt
  have hne : used ≠ [] := by
    intro hnil
    have hperm := hused.perm.length_eq
    rw [hnil, List.length_append] at hperm
    simp at hperm
  have hlast₁ : l₁.getLast? = lastRegion A img := by
    rw [hl₁, List.getLast?_append_of_ne_nil _ hne, hlast]
  have h₂ := insertOpt_eq_ok h₂
  rw [hlast₁] at h₂
  rw [h₂, ← hl₁]
  cases (lastRegion A img).bind (freeBehind A img) <;> rfl

/-- The free regions are those of RAM below and behind, and the loader's. -/
theorem addFreeMem_perm (h : addFreeMem A img used = .ok regions)
    (hused : Collected (loads img ++ [bootloader A img]) used) :
    (regions.filter isFree).Perm (bootloader A img :: freeRegions A img) := by
  have hregions : regions.Perm (freeRegions A img ++ used) := by
    rw [addFreeMem_spec h hused]
    unfold freeRegions
    cases (lastRegion A img).bind (freeBehind A img) with
    | none => simp
    | some r =>
      refine place_perm.trans ?_
      simp only [Option.toList_some, List.append_assoc]
      exact List.perm_middle.symm
  have hfree : (freeRegions A img).filter isFree = freeRegions A img := by
    refine List.filter_eq_self.mpr fun r hr => ?_
    rcases List.mem_append.mp hr with hr | hr
    · obtain ⟨f, -, hf⟩ := Option.bind_eq_some_iff.mp (Option.mem_toList.mp hr)
      obtain ⟨-, rfl⟩ := freeBelow_eq_some hf
      rfl
    · obtain ⟨f, -, hf⟩ := Option.bind_eq_some_iff.mp (Option.mem_toList.mp hr)
      obtain ⟨-, rfl⟩ := freeBehind_eq_some hf
      rfl
  have hloads : (loads img).filter isFree = [] := by
    refine List.filter_eq_nil_iff.mpr fun r hr => ?_
    unfold loads loadsOf at hr
    simp only [List.mem_append, List.mem_map] at hr
    rcases hr with (⟨c, -, rfl⟩ | ⟨c, -, rfl⟩) | ⟨c, -, rfl⟩ <;> exact nofun
  have hboot : isFree (bootloader A img) = true := rfl
  calc (regions.filter isFree).Perm ((freeRegions A img ++ used).filter isFree) := hregions.filter _
    List.Perm _ (freeRegions A img ++ (loads img ++ [bootloader A img]).filter isFree) := by
        rw [List.filter_append, hfree]
        exact (hused.perm.filter _).append_left _
    _ = freeRegions A img ++ [bootloader A img] := by
        rw [List.filter_append, hloads]
        rfl
    List.Perm _ (bootloader A img :: freeRegions A img) := List.perm_append_singleton _ _

/-! ## The descriptors -/

/-- The section of the file system image. -/
def ramfs (A : Arch) (img : Image) : Section :=
  ⟨img.ramfsStart, A.sub img.ramfsEnd img.ramfsStart, bldrRamfs⟩

/-- The file system image comes first, and no section of an application has its type. -/
theorem allSections_spec {sections : List Section} (h : allSections A img = .ok sections) :
    ∃ rest, sections = ramfs A img :: rest ∧ ∀ s ∈ rest, s.type ≠ bldrRamfs := by
  have hstep : ∀ (app : Owner) (ss : List Section) (c : Elf.ShCall × Bool) (ss' : List Section),
      (∃ rest, ss = ramfs A img :: rest ∧ ∀ s ∈ rest, s.type ≠ bldrRamfs) →
      processElfShdr app ss c = .ok ss' →
      ∃ rest, ss' = ramfs A img :: rest ∧ ∀ s ∈ rest, s.type ≠ bldrRamfs := by
    rintro app ss c ss' ⟨rest, rfl, hrest⟩ hrun
    unfold processElfShdr at hrun
    split at hrun
    · obtain ⟨-, hrun⟩ := ensure_bind_eq_ok.mp hrun
      obtain ⟨-, hrun⟩ := ensure_bind_eq_ok.mp hrun
      split at hrun
      · rename_i type htype
        obtain ⟨-, hrun⟩ := ensure_bind_eq_ok.mp hrun
        obtain rfl := Except.ok.inj hrun
        refine ⟨rest ++ [⟨c.1.addr, c.1.size, type⟩], rfl, fun s hs => ?_⟩
        rcases List.mem_append.mp hs with hs | hs
        · exact hrest s hs
        · rw [List.mem_singleton.mp hs]
          rintro rfl
          unfold sectionType at htype
          split_ifs at htype <;> cases app <;> exact absurd htype (by decide)
      · obtain rfl := Except.ok.inj hrun
        exact ⟨rest, rfl, hrest⟩
    · obtain rfl := Except.ok.inj hrun
      exact ⟨rest, rfl, hrest⟩
  obtain ⟨s₁, h₁, h⟩ := bind_eq_ok.mp h
  obtain ⟨s₂, h₂, h₃⟩ := bind_eq_ok.mp h
  obtain ⟨-, h₁⟩ := ensure_bind_eq_ok.mp h₁
  obtain rfl := Except.ok.inj h₁
  exact runAll_invariant_of_step (hstep .roottask)
    (runAll_invariant_of_step (hstep .sigma0) ⟨[], rfl, by simp⟩ h₂) h₃

/-- The memory map is safe: the conventional ranges share no address with each other, with a byte of a
segment that was loaded, or with the range of the file system image. -/
structure Safe (A : Arch) (img : Image) (ds : List MemDesc) : Prop where
  apart : Span.Apart (conventionalSpans ds)
  segments : ∀ r ∈ loads img, ∀ i < r.sz, A.add r.start i ∉ Span.union (conventionalSpans ds)
  ramfs : ∀ d ∈ ds, d.type = MemDesc.bootloader → d.typeExact = bldrRamfs →
    Disjoint d.span.points (Span.union (conventionalSpans ds))

/-- What is promised, in terms of the ranges of some regions. -/
structure Divided (A : Arch) (img : Image) (rs : List Region) : Prop where
  apart : rs.Pairwise fun r r' => Disjoint (convDesc A r).span.points (convDesc A r').span.points
  segments : ∀ r ∈ rs, ∀ seg ∈ loads img, ∀ i < seg.sz, A.add seg.start i ∉ (convDesc A r).span.points
  ramfs : ∀ r ∈ rs, Disjoint (sectionDesc A (ramfs A img)).span.points (convDesc A r).span.points

/-- The promise is about the loader's region and the free ones. -/
theorem safe_iff_divided {ds : List MemDesc} (h : main A img = .ok ds) :
    Safe A img ds ↔ Divided A img (bootloader A img :: freeRegions A img) := by
  obtain ⟨sections, hsections, h⟩ := bind_eq_ok.mp h
  obtain ⟨used, hused, h⟩ := bind_eq_ok.mp h
  obtain ⟨regions, hregions, h⟩ := bind_eq_ok.mp h
  obtain ⟨u, -, h⟩ := bind_eq_ok.mp h
  obtain ⟨-, h⟩ := ensure_bind_eq_ok.mp h
  obtain rfl := Except.ok.inj h
  obtain ⟨rest, rfl, hrest⟩ := allSections_spec hsections
  have hperm := addFreeMem_perm hregions (usedRegions_spec hused)
  set R := bootloader A img :: freeRegions A img
  have hspans : (conventionalSpans ((regions.filter isFree).map (convDesc A) ++
      (ramfs A img :: rest).map (sectionDesc A))).Perm (R.map fun r => (convDesc A r).span) := by
    unfold conventionalSpans
    rw [List.filter_append]
    have h1 : ((regions.filter isFree).map (convDesc A)).filter (fun d => d.type = conventional) =
        (regions.filter isFree).map (convDesc A) := by
      refine List.filter_eq_self.mpr fun d hd => ?_
      obtain ⟨r, -, rfl⟩ := List.mem_map.mp hd
      rfl
    have h2 : ((ramfs A img :: rest).map (sectionDesc A)).filter (fun d => d.type = conventional) =
        [] := by
      refine List.filter_eq_nil_iff.mpr fun d hd => ?_
      obtain ⟨r, -, rfl⟩ := List.mem_map.mp hd
      exact nofun
    rw [h1, h2, List.append_nil, List.map_map]
    exact hperm.map _
  have hunion : ∀ x, x ∈ Span.union (conventionalSpans ((regions.filter isFree).map (convDesc A) ++
      (ramfs A img :: rest).map (sectionDesc A))) ↔ ∃ r ∈ R, x ∈ (convDesc A r).span.points := by
    intro x
    rw [Span.union_perm hspans]
    constructor
    · rintro ⟨s, hs, hx⟩
      obtain ⟨r, hr, rfl⟩ := List.mem_map.mp hs
      exact ⟨r, hr, hx⟩
    · rintro ⟨r, hr, hx⟩
      exact ⟨_, List.mem_map_of_mem hr, hx⟩
  have hramfs : ∀ d ∈ (regions.filter isFree).map (convDesc A) ++
      (ramfs A img :: rest).map (sectionDesc A), d.type = MemDesc.bootloader →
      d.typeExact = bldrRamfs → d = sectionDesc A (ramfs A img) := by
    intro d hd htype hexact
    rcases List.mem_append.mp hd with hd | hd
    · obtain ⟨r, -, rfl⟩ := List.mem_map.mp hd
      exact absurd htype (by show ¬ conventional = MemDesc.bootloader; decide)
    · obtain ⟨s, hs, rfl⟩ := List.mem_map.mp hd
      rcases List.mem_cons.mp hs with rfl | hs
      · rfl
      · exact absurd hexact (hrest s hs)
  constructor
  · intro hsafe
    refine ⟨?_, ?_, ?_⟩
    · have hapart := (Span.apart_perm hspans).mp hsafe.apart
      rw [Span.Apart, List.pairwise_map] at hapart
      exact hapart
    · exact fun r hr seg hseg i hi hx => hsafe.segments seg hseg i hi ((hunion _).mpr ⟨r, hr, hx⟩)
    · intro r hr
      have hdisj := hsafe.ramfs (sectionDesc A (ramfs A img))
        (List.mem_append_right _ List.mem_cons_self) rfl rfl
      exact Set.disjoint_of_subset_right (fun x hx => (hunion x).mpr ⟨r, hr, hx⟩) hdisj
  · intro hdiv
    refine ⟨?_, ?_, ?_⟩
    · rw [Span.apart_perm hspans, Span.Apart, List.pairwise_map]
      exact hdiv.apart
    · intro seg hseg i hi hx
      obtain ⟨r, hr, hx⟩ := (hunion _).mp hx
      exact hdiv.segments r hr seg hseg i hi hx
    · intro d hd htype hexact
      obtain rfl := hramfs d hd htype hexact
      refine Set.disjoint_left.mpr fun x hx hx' => ?_
      obtain ⟨r, hr, hx'⟩ := (hunion x).mp hx'
      exact Set.disjoint_left.mp (hdiv.ramfs r hr) hx hx'

/-! ## Ranges of whole kilobytes -/

/-- The range of a descriptor reaches from the start rounded down to the end rounded up. -/
theorem range_points (start : Nat) {sz : Nat} {d : MemDesc} (hsz : 0 < sz) (hend : start + sz ≤ 2 ^ A.wordBits)
    (hlow : d.low = start / 2 ^ 10) (hheigh : d.heigh = A.sub (A.add start sz) 1 / 2 ^ 10) :
    d.span.points = Set.Ico (down start) (up (start + sz)) := by
  have hW : 1 < 2 ^ A.wordBits := by cases A <;> decide
  have hlast : A.sub (A.add start sz) 1 = start + sz - 1 := by
    unfold Arch.sub Arch.add
    rcases Nat.lt_or_eq_of_le hend with hlt | heq
    · rw [Nat.mod_eq_of_lt hlt, show start + sz + (2 ^ A.wordBits - 1) =
        start + sz - 1 + 2 ^ A.wordBits by omega, Nat.add_mod_right, Nat.mod_eq_of_lt (by omega)]
    · rw [heq, Nat.mod_self, Nat.zero_add, Nat.mod_eq_of_lt (by omega)]
  rw [hlast] at hheigh
  unfold Span.points Span.stop MemDesc.span down up
  rw [hlow, hheigh]
  have hstop : start / 2 ^ 10 * 2 ^ 10 + ((start + sz - 1) / 2 ^ 10 + 1 - start / 2 ^ 10) * 2 ^ 10 =
      (start + sz + 1023) / 1024 * 1024 := by omega
  simp only [hstop]
  norm_num

theorem down_le : down n ≤ n := Nat.div_mul_le_self n 1024

theorem le_up : n ≤ up n := by
  unfold up
  omega

/-- Between numbers of whole kilobytes rounding changes nothing. -/
theorem le_down_iff : up a ≤ down b ↔ a ≤ down b := by
  unfold up down
  omega

theorem up_le_iff : up a ≤ down b ↔ up a ≤ b := by
  unfold up down
  omega

theorem disjoint_Ico_iff (hab : a < b) (hcd : c < d) :
    Disjoint (Set.Ico a b) (Set.Ico c d) ↔ b ≤ c ∨ d ≤ a := by
  rw [Set.Ico_disjoint_Ico]
  omega

/-- The bytes of a segment, which may wrap, are outside of an interval. -/
theorem bytes_outside_iff {W start sz lo hi : Nat} (hstart : start < W) (hsz : 0 < sz) (hlt : sz < W)
    (hlo : lo < hi) (hloW : lo < W) : (∀ i < sz, (start + i) % W ∉ Set.Ico lo hi) ↔
      start + sz ≤ lo ∨ hi ≤ start ∧ start + sz ≤ W + lo := by
  constructor
  · intro h
    by_contra hnot
    rcases Nat.lt_or_ge start lo with hbelow | habove
    · -- the segment reaches the first byte of the interval
      refine h (lo - start) (by omega) ?_
      rw [show start + (lo - start) = lo by omega, Nat.mod_eq_of_lt hloW]
      exact ⟨Nat.le_refl _, hlo⟩
    · rcases Nat.lt_or_ge start hi with hin | hbehind
      · refine h 0 hsz ?_
        rw [Nat.add_zero, Nat.mod_eq_of_lt hstart]
        exact ⟨habove, hin⟩
      · -- it wraps and reaches the first byte from below
        refine h (W + lo - start) (by omega) ?_
        rw [show start + (W + lo - start) = lo + W by omega, Nat.add_mod_right,
          Nat.mod_eq_of_lt hloW]
        exact ⟨Nat.le_refl _, hlo⟩
  · rintro h i hi ⟨h1, h2⟩
    rcases Nat.lt_or_ge (start + i) W with hnowrap | hwrap
    · rw [Nat.mod_eq_of_lt hnowrap] at h1 h2
      omega
    · rw [Nat.mod_eq_sub_mod hwrap, Nat.mod_eq_of_lt (by omega)] at h1 h2
      omega

/-! ## Placements -/

/-- The file system image and the loader are in RAM, which ends in the address space; addresses and sizes of
segments are words. -/
structure Placed (A : Arch) (img : Image) : Prop where
  ram : img.ramStart + img.ramSz ≤ 2 ^ A.wordBits
  ramfs_ge : img.ramStart ≤ img.ramfsStart
  ramfs_lt : img.ramfsStart < img.ramfsEnd
  ramfs_le : img.ramfsEnd ≤ img.ramStart + img.ramSz
  ramfs_word : img.ramfsEnd < 2 ^ A.wordBits
  loader_ge : img.ramStart ≤ img.bootloaderStart
  loader_lt : img.bootloaderStart < img.bootloaderEnd
  loader_le : img.bootloaderEnd ≤ img.ramStart + img.ramSz
  loader_word : img.bootloaderEnd < 2 ^ A.wordBits
  words : ∀ r ∈ loads img, r.start < 2 ^ A.wordBits ∧ r.sz < 2 ^ A.wordBits

/-- When the memory map is safe: what is free starts and ends in a kilobyte of its own. -/
structure Clear (A : Arch) (img : Image) : Prop where
  /-- Where RAM starts below the first region, everything starts behind the kilobyte in which that region
  starts, or with it, and nothing wraps into RAM. -/
  below : ∀ f, firstRegion A img = some f → img.ramStart < f.start →
    up f.start ≤ img.bootloaderStart ∧ up f.start ≤ img.ramfsStart ∧
      ∀ r ∈ loads img, 0 < r.sz →
        up f.start ≤ r.start ∧ r.start + r.sz ≤ 2 ^ A.wordBits + down img.ramStart
  /-- Where RAM ends behind the last region, everything ends before the kilobyte in which that region
  ends, or with the one before. -/
  behind : ∀ l, lastRegion A img = some l → l.endOf A < ramEnd A img →
    img.bootloaderEnd ≤ down (l.endOf A) ∧ img.ramfsEnd ≤ down (l.endOf A) ∧
      ∀ r ∈ loads img, 0 < r.sz → r.start + r.sz ≤ down (l.endOf A)
  /-- Nothing is in the kilobytes of the loader. -/
  own : (img.ramfsEnd ≤ down img.bootloaderStart ∨ up img.bootloaderEnd ≤ img.ramfsStart) ∧
    ∀ r ∈ loads img, 0 < r.sz → r.start + r.sz ≤ down img.bootloaderStart ∨
      up img.bootloaderEnd ≤ r.start ∧ r.start + r.sz ≤ 2 ^ A.wordBits + down img.bootloaderStart

/-! ## The ranges of the regions -/

theorem sub_of_le {x y : Nat} (hxy : y < x) (hx : x < 2 ^ A.wordBits) : A.sub x y = x - y := by
  unfold Arch.sub
  rw [show x + (2 ^ A.wordBits - y) = x - y + 2 ^ A.wordBits by omega, Nat.add_mod_right,
    Nat.mod_eq_of_lt (by omega)]

theorem sub_pos_of_lt {x y : Nat} (hxy : y < x) (hx : x < 2 ^ A.wordBits) :
    0 < A.sub x y ∧ y + A.sub x y = x := by
  rw [sub_of_le hxy hx]
  omega

theorem loader_points (h : Placed A img) : (convDesc A (bootloader A img)).span.points =
    Set.Ico (down img.bootloaderStart) (up img.bootloaderEnd) := by
  obtain ⟨hpos, hend⟩ := sub_pos_of_lt h.loader_lt h.loader_word
  have hpoints := range_points (A := A) img.bootloaderStart (d := convDesc A (bootloader A img))
    hpos (by rw [hend]; exact Nat.le_of_lt h.loader_word) rfl rfl
  rwa [hend] at hpoints

theorem ramfs_points (h : Placed A img) : (sectionDesc A (ramfs A img)).span.points =
    Set.Ico (down img.ramfsStart) (up img.ramfsEnd) := by
  obtain ⟨hpos, hend⟩ := sub_pos_of_lt h.ramfs_lt h.ramfs_word
  have hpoints := range_points (A := A) img.ramfsStart (d := sectionDesc A (ramfs A img))
    hpos (by rw [hend]; exact Nat.le_of_lt h.ramfs_word) rfl rfl
  rwa [hend] at hpoints

theorem below_points {f : Region} (hf : f.start < 2 ^ A.wordBits) (h : freeBelow A img f = some r) :
    (convDesc A r).span.points = Set.Ico (down img.ramStart) (up f.start) := by
  obtain ⟨hlt, rfl⟩ := freeBelow_eq_some h
  obtain ⟨hpos, hend⟩ := sub_pos_of_lt hlt hf
  have hpoints := range_points (A := A) img.ramStart
    (d := convDesc A ⟨img.ramStart, A.sub f.start img.ramStart, .free⟩)
    hpos (by rw [hend]; exact Nat.le_of_lt hf) rfl rfl
  rwa [hend] at hpoints

theorem ramEnd_lt : ramEnd A img < 2 ^ A.wordBits := Nat.mod_lt _ (Nat.two_pow_pos _)

theorem behind_points {l : Region} (h : freeBehind A img l = some r) :
    (convDesc A r).span.points = Set.Ico (down (l.endOf A)) (up (ramEnd A img)) := by
  obtain ⟨hlt, rfl⟩ := freeBehind_eq_some h
  obtain ⟨hpos, hend⟩ := sub_pos_of_lt hlt ramEnd_lt
  have hpoints := range_points (A := A) (l.endOf A)
    (d := convDesc A ⟨l.endOf A, A.sub (ramEnd A img) (l.endOf A), .free⟩)
    hpos (by rw [hend]; exact Nat.le_of_lt ramEnd_lt) rfl rfl
  rwa [hend] at hpoints

/-- The regions in the order of their starts. -/
theorem Collected.first_le {rs : List Region} {f : Region} (h : Collected rs l)
    (hf : rs.foldl (fun b r => earlier r b) none = some f) (hr : r ∈ rs) : f ∈ rs ∧ f.start ≤ r.start := by
  rw [← h.head] at hf
  have horder := h.order
  have hr' := h.perm.mem_iff.mpr hr
  cases l with
  | nil => cases hf
  | cons b l =>
    obtain rfl := Option.some.inj hf
    refine ⟨h.perm.mem_iff.mp List.mem_cons_self, ?_⟩
    rcases List.mem_cons.mp hr' with rfl | hr'
    · exact Nat.le_refl _
    · exact (List.pairwise_cons.mp horder).1 r hr'

theorem Collected.le_last {rs : List Region} {b : Region} (h : Collected rs l)
    (hb : rs.foldl (fun b r => later r b) none = some b) (hr : r ∈ rs) : b ∈ rs ∧ r.start ≤ b.start := by
  rw [← h.last] at hb
  have horder := h.order
  have hr' := h.perm.mem_iff.mpr hr
  refine ⟨h.perm.mem_iff.mp (List.mem_of_getLast? hb), ?_⟩
  obtain ⟨init, rfl⟩ := List.getLast?_eq_some_iff.mp hb
  rcases List.mem_append.mp hr' with hr' | hr'
  · exact (List.pairwise_append.mp horder).2.2 r hr' b List.mem_cons_self
  · rw [List.mem_singleton.mp hr']

theorem mem_freeRegions : r ∈ freeRegions A img ↔
    (∃ f, firstRegion A img = some f ∧ freeBelow A img f = some r) ∨
      ∃ l, lastRegion A img = some l ∧ freeBehind A img l = some r := by
  unfold freeRegions
  rw [List.mem_append, Option.mem_toList, Option.mem_toList, Option.bind_eq_some_iff,
    Option.bind_eq_some_iff]

/-- Neighbours in the list do not overlap. -/
theorem checkOverlaps_append {l₁ l₂ : List Region} (h : checkOverlaps A (l₁ ++ r :: r' :: l₂) = .ok ()) :
    r.endOf A ≤ r'.start := by
  induction l₁ with
  | nil => exact (ensure_bind_eq_ok.mp h).1
  | cons b l₁ ih =>
    cases l₁ with
    | nil => exact ih (ensure_bind_eq_ok.mp h).2
    | cons b' l₁ => exact ih (ensure_bind_eq_ok.mp h).2

/-- The end of RAM is one, unless RAM ends with the address space. -/
theorem ramEnd_eq (hplaced : Placed A img) (hlt : n < ramEnd A img) :
    ramEnd A img = img.ramStart + img.ramSz := by
  rcases Nat.lt_or_eq_of_le hplaced.ram with hram | hram
  · exact Nat.mod_eq_of_lt hram
  · have hzero : ramEnd A img = 0 := by
      unfold ramEnd Arch.add
      rw [hram, Nat.mod_self]
    rw [hzero] at hlt
    exact absurd hlt (Nat.not_lt_zero _)

/-- Where RAM has memory behind the last region and the check for overlaps finds nothing, the loader's
memory starts before the end of that region. -/
theorem loader_before (hplaced : Placed A img) (hused : Collected (loads img ++ [bootloader A img]) used)
    (hregions : addFreeMem A img used = .ok regions) (hcheck : checkOverlaps A regions = .ok ())
    {b : Region} (hb : lastRegion A img = some b) (hlt : b.endOf A < ramEnd A img) :
    img.bootloaderStart < b.endOf A := by
  by_contra hge
  have hfree : freeBehind A img b =
      some ⟨b.endOf A, A.sub (ramEnd A img) (b.endOf A), .free⟩ := if_pos hlt
  have hlist := addFreeMem_spec hregions hused
  rw [hb, Option.bind_some, hfree, Option.elim_some] at hlist
  set front := ((firstRegion A img).bind (freeBelow A img)).toList with hfront
  have horder : InOrder (front ++ used) := by
    cases hbelow : (firstRegion A img).bind (freeBelow A img) with
    | none =>
      rw [hfront, hbelow]
      exact hused.order
    | some r =>
      rw [hfront, hbelow]
      obtain ⟨f, hf, hfr⟩ := Option.bind_eq_some_iff.mp hbelow
      obtain ⟨hltf, rfl⟩ := freeBelow_eq_some hfr
      refine List.pairwise_cons.mpr ⟨fun x hx => ?_, hused.order⟩
      have hle := (hused.first_le hf (hused.perm.mem_iff.mp hx)).2
      exact Nat.le_of_lt (Nat.lt_of_lt_of_le hltf hle)
  have hboot : bootloader A img ∈ front ++ used :=
    List.mem_append_right _ (hused.perm.mem_iff.mpr (List.mem_append_right _ List.mem_cons_self))
  -- the loader is among the regions behind the new one
  unfold place at hlist
  set p : Region → Bool := fun e => decide (e.start < b.endOf A)
  have hsplit : (front ++ used).takeWhile p ++ (front ++ used).dropWhile p = front ++ used :=
    List.takeWhile_append_dropWhile
  have hbehind : bootloader A img ∈ (front ++ used).dropWhile p := by
    rw [← hsplit, List.mem_append] at hboot
    refine hboot.resolve_left fun hmem => hge ?_
    have hp := List.mem_takeWhile_imp hmem
    exact of_decide_eq_true hp
  cases hdrop : (front ++ used).dropWhile p with
  | nil =>
    rw [hdrop] at hbehind
    cases hbehind
  | cons next rest =>
    rw [hdrop] at hbehind hlist hsplit
    have hnext : next.start ≤ img.bootloaderStart := by
      rw [← hsplit] at horder
      rcases List.mem_cons.mp hbehind with heq | hmem
      · exact Nat.le_of_eq (congrArg Region.start heq).symm
      · exact (List.pairwise_cons.mp (List.pairwise_append.mp horder).2.1).1 _ hmem
    rw [hlist] at hcheck
    have hgap := checkOverlaps_append hcheck
    -- the new region ends with RAM, in which the loader is
    have hend : Region.endOf A ⟨b.endOf A, A.sub (ramEnd A img) (b.endOf A), .free⟩ = ramEnd A img := by
      show (b.endOf A + A.sub (ramEnd A img) (b.endOf A)) % 2 ^ A.wordBits = _
      rw [(sub_pos_of_lt hlt ramEnd_lt).2, Nat.mod_eq_of_lt ramEnd_lt]
    rw [hend] at hgap
    have hram := ramEnd_eq hplaced hlt
    have h1 := hplaced.loader_lt
    have h2 := hplaced.loader_le
    omega

/-- The range of the loader against the bytes of a segment. -/
theorem outside_iff (hplaced : Placed A img) {lo hi : Nat} {seg : Region} (hseg : seg ∈ loads img)
    (hpos : 0 < seg.sz) (hlo : lo < hi) (hW : lo < 2 ^ A.wordBits) :
    (∀ i < seg.sz, A.add seg.start i ∉ Set.Ico lo hi) ↔
      seg.start + seg.sz ≤ lo ∨ hi ≤ seg.start ∧ seg.start + seg.sz ≤ 2 ^ A.wordBits + lo :=
  bytes_outside_iff (hplaced.words seg hseg).1 hpos (hplaced.words seg hseg).2 hlo hW

theorem down_lt_up (h : a < b) : down a < up b :=
  Nat.lt_of_le_of_lt down_le (Nat.lt_of_lt_of_le h le_up)

/-- Two ranges of whole kilobytes. -/
theorem disjoint_iff (hab : a < b) (hcd : c < d) :
    Disjoint (Set.Ico (down a) (up b)) (Set.Ico (down c) (up d)) ↔ b ≤ down c ∨ up d ≤ a := by
  rw [disjoint_Ico_iff (down_lt_up hab) (down_lt_up hcd), le_down_iff, up_le_iff]

/-- What the loader's own range has to be apart from. -/
theorem own_iff (hplaced : Placed A img) :
    (Disjoint (sectionDesc A (ramfs A img)).span.points (convDesc A (bootloader A img)).span.points ∧
      ∀ seg ∈ loads img, ∀ i < seg.sz, A.add seg.start i ∉ (convDesc A (bootloader A img)).span.points) ↔
    (img.ramfsEnd ≤ down img.bootloaderStart ∨ up img.bootloaderEnd ≤ img.ramfsStart) ∧
      ∀ r ∈ loads img, 0 < r.sz → r.start + r.sz ≤ down img.bootloaderStart ∨
        up img.bootloaderEnd ≤ r.start ∧
          r.start + r.sz ≤ 2 ^ A.wordBits + down img.bootloaderStart := by
  have hW : down img.bootloaderStart < 2 ^ A.wordBits :=
    Nat.lt_of_le_of_lt down_le (Nat.lt_trans hplaced.loader_lt hplaced.loader_word)
  rw [ramfs_points hplaced, loader_points hplaced, disjoint_iff hplaced.ramfs_lt hplaced.loader_lt]
  refine and_congr_right fun _ => forall₂_congr fun seg hseg => ?_
  rcases Nat.eq_zero_or_pos seg.sz with hz | hpos
  · rw [hz]
    exact iff_of_true nofun nofun
  · rw [outside_iff hplaced hseg hpos (down_lt_up hplaced.loader_lt) hW]
    exact ⟨fun h _ => h, fun h => h hpos⟩

/-- The last region does not reach the end of the address space. -/
theorem last_end (hplaced : Placed A img) {used : List Region}
    (hused : Collected (loads img ++ [bootloader A img]) used) {b : Region}
    (hb : lastRegion A img = some b) (hbefore : img.bootloaderStart < b.endOf A)
    (hsegs : ∀ seg ∈ loads img, ∀ i < seg.sz,
      A.add seg.start i ∉ (convDesc A (bootloader A img)).span.points) :
    b.endOf A = b.start + b.sz := by
  have hmem := (hused.le_last hb (List.mem_append_right _ List.mem_cons_self)).1
  rcases List.mem_append.mp hmem with hseg | hboot
  · obtain ⟨hstart, hsz⟩ := hplaced.words b hseg
    refine Nat.mod_eq_of_lt (Nat.lt_of_not_le fun hwrap => ?_)
    have hend : b.endOf A = b.start + b.sz - 2 ^ A.wordBits := by
      unfold Region.endOf Arch.add
      rw [Nat.mod_eq_sub_mod hwrap, Nat.mod_eq_of_lt (by omega)]
    -- it wraps, and its bytes from address 0 on reach the loader's first byte
    refine hsegs b hseg (img.bootloaderStart + 2 ^ A.wordBits - b.start) (by omega) ?_
    have hbyte : A.add b.start (img.bootloaderStart + 2 ^ A.wordBits - b.start) =
        img.bootloaderStart := by
      unfold Arch.add
      rw [show b.start + (img.bootloaderStart + 2 ^ A.wordBits - b.start) =
        img.bootloaderStart + 2 ^ A.wordBits by omega, Nat.add_mod_right,
        Nat.mod_eq_of_lt (Nat.lt_trans hplaced.loader_lt hplaced.loader_word)]
    rw [hbyte, loader_points hplaced]
    exact ⟨down_le, Nat.lt_of_lt_of_le hplaced.loader_lt le_up⟩
  · obtain rfl := List.mem_singleton.mp hboot
    obtain ⟨-, hend⟩ := sub_pos_of_lt hplaced.loader_lt hplaced.loader_word
    refine Nat.mod_eq_of_lt ?_
    show img.bootloaderStart + A.sub img.bootloaderEnd img.bootloaderStart < _
    rw [hend]
    exact hplaced.loader_word

/-- What a free range has to be apart from. -/
structure Apart (A : Arch) (img : Image) (points : Set ℕ) : Prop where
  loader : Disjoint (convDesc A (bootloader A img)).span.points points
  ramfs : Disjoint (sectionDesc A (ramfs A img)).span.points points
  segments : ∀ seg ∈ loads img, ∀ i < seg.sz, A.add seg.start i ∉ points

/-- The range below the first region. -/
theorem below_iff (hplaced : Placed A img) {f : Region} (hlt : img.ramStart < f.start)
    (hfirst : ∀ r ∈ loads img, f.start ≤ r.start) (hf : f.start < 2 ^ A.wordBits) :
    Apart A img (Set.Ico (down img.ramStart) (up f.start)) ↔
      up f.start ≤ img.bootloaderStart ∧ up f.start ≤ img.ramfsStart ∧
        ∀ r ∈ loads img, 0 < r.sz →
          up f.start ≤ r.start ∧ r.start + r.sz ≤ 2 ^ A.wordBits + down img.ramStart := by
  have hlo : down img.ramStart < up f.start := down_lt_up hlt
  have hdown : down img.ramStart ≤ img.ramStart := down_le
  have hrs := hplaced.ramfs_ge
  have hls := hplaced.loader_ge
  have hrlt := hplaced.ramfs_lt
  have hllt := hplaced.loader_lt
  have hsegs : ∀ seg ∈ loads img, 0 < seg.sz → ((∀ i < seg.sz, A.add seg.start i ∉
      Set.Ico (down img.ramStart) (up f.start)) ↔
        up f.start ≤ seg.start ∧ seg.start + seg.sz ≤ 2 ^ A.wordBits + down img.ramStart) := by
    intro seg hseg hpos
    rw [outside_iff hplaced hseg hpos hlo (by omega)]
    have hstart := hfirst seg hseg
    exact or_iff_right (by omega)
  constructor
  · rintro ⟨h1, h2, h3⟩
    rw [loader_points hplaced, disjoint_iff hllt hlt] at h1
    rw [ramfs_points hplaced, disjoint_iff hrlt hlt] at h2
    refine ⟨h1.resolve_left (by omega), h2.resolve_left (by omega), fun r hr hpos => ?_⟩
    exact (hsegs r hr hpos).mp (h3 r hr)
  · rintro ⟨h1, h2, h3⟩
    refine ⟨?_, ?_, fun seg hseg i hi => ?_⟩
    · rw [loader_points hplaced, disjoint_iff hllt hlt]
      exact .inr h1
    · rw [ramfs_points hplaced, disjoint_iff hrlt hlt]
      exact .inr h2
    · have hpos := Nat.zero_lt_of_lt hi
      exact (hsegs seg hseg hpos).mpr (h3 seg hseg hpos) i hi

/-- The range behind the last region. -/
theorem behind_iff (hplaced : Placed A img) {b : Region} (hlt : b.endOf A < ramEnd A img)
    (hend : b.endOf A = b.start + b.sz) (hlast : ∀ r ∈ loads img, r.start ≤ b.start) :
    Apart A img (Set.Ico (down (b.endOf A)) (up (ramEnd A img))) ↔
      img.bootloaderEnd ≤ down (b.endOf A) ∧ img.ramfsEnd ≤ down (b.endOf A) ∧
        ∀ r ∈ loads img, 0 < r.sz → r.start + r.sz ≤ down (b.endOf A) := by
  have hlo : down (b.endOf A) < up (ramEnd A img) := down_lt_up hlt
  have hdown : down (b.endOf A) ≤ b.endOf A := down_le
  have hup : ramEnd A img ≤ up (ramEnd A img) := le_up
  have hram := ramEnd_eq hplaced hlt
  have hW : ramEnd A img < 2 ^ A.wordBits := ramEnd_lt
  have hre := hplaced.ramfs_le
  have hle := hplaced.loader_le
  have hrlt := hplaced.ramfs_lt
  have hllt := hplaced.loader_lt
  have hsegs : ∀ seg ∈ loads img, 0 < seg.sz → ((∀ i < seg.sz, A.add seg.start i ∉
      Set.Ico (down (b.endOf A)) (up (ramEnd A img))) ↔ seg.start + seg.sz ≤ down (b.endOf A)) := by
    intro seg hseg hpos
    rw [outside_iff hplaced hseg hpos hlo (by omega)]
    have hstart := hlast seg hseg
    exact or_iff_left (by omega)
  constructor
  · rintro ⟨h1, h2, h3⟩
    rw [loader_points hplaced, disjoint_iff hllt hlt] at h1
    rw [ramfs_points hplaced, disjoint_iff hrlt hlt] at h2
    refine ⟨h1.resolve_right (by omega), h2.resolve_right (by omega), fun r hr hpos => ?_⟩
    exact (hsegs r hr hpos).mp (h3 r hr)
  · rintro ⟨h1, h2, h3⟩
    refine ⟨?_, ?_, fun seg hseg i hi => ?_⟩
    · rw [loader_points hplaced, disjoint_iff hllt hlt]
      exact .inl h1
    · rw [ramfs_points hplaced, disjoint_iff hrlt hlt]
      exact .inl h2
    · have hpos := Nat.zero_lt_of_lt hi
      exact (hsegs seg hseg hpos).mpr (h3 seg hseg hpos) i hi

/-- **The memory map of the loader is safe exactly when what is free starts and ends in a kilobyte of its
own.**  For every placement in RAM and all ELF files with which the loader does not panic. -/
theorem main_safe_iff {ds : List MemDesc} (hplaced : Placed A img) (h : main A img = .ok ds) :
    Safe A img ds ↔ Clear A img := by
  rw [safe_iff_divided h]
  obtain ⟨sections, -, h⟩ := bind_eq_ok.mp h
  obtain ⟨used, hused, h⟩ := bind_eq_ok.mp h
  obtain ⟨regions, hregions, h⟩ := bind_eq_ok.mp h
  obtain ⟨u, hcheck, -⟩ := bind_eq_ok.mp h
  have hused := usedRegions_spec hused
  have hboot : bootloader A img ∈ loads img ++ [bootloader A img] :=
    List.mem_append_right _ List.mem_cons_self
  have hfirst : ∀ f, firstRegion A img = some f → f.start < 2 ^ A.wordBits ∧
      ∀ r ∈ loads img, f.start ≤ r.start := by
    intro f hf
    refine ⟨Nat.lt_of_le_of_lt (hused.first_le hf hboot).2
      (Nat.lt_trans hplaced.loader_lt hplaced.loader_word), fun r hr => ?_⟩
    exact (hused.first_le hf (List.mem_append_left _ hr)).2
  have hlast : ∀ b, lastRegion A img = some b → ∀ r ∈ loads img, r.start ≤ b.start :=
    fun b hb r hr => (hused.le_last hb (List.mem_append_left _ hr)).2
  have hbefore : ∀ b, lastRegion A img = some b → b.endOf A < ramEnd A img →
      img.bootloaderStart < b.endOf A :=
    fun b hb hlt => loader_before hplaced hused hregions hcheck hb hlt
  constructor
  · intro hdiv
    have hown := (own_iff hplaced).mp ⟨hdiv.ramfs _ List.mem_cons_self,
      hdiv.segments _ List.mem_cons_self⟩
    have hapart : ∀ r ∈ freeRegions A img, Apart A img (convDesc A r).span.points := fun r hr =>
      ⟨(List.pairwise_cons.mp hdiv.apart).1 r hr, hdiv.ramfs r (List.mem_cons_of_mem _ hr),
        hdiv.segments r (List.mem_cons_of_mem _ hr)⟩
    refine ⟨fun f hf hlt => ?_, fun b hb hlt => ?_, hown⟩
    · obtain ⟨hfW, hle⟩ := hfirst f hf
      have hfree : freeBelow A img f = some _ := if_pos hlt
      have hr := hapart _ (mem_freeRegions.mpr (.inl ⟨f, hf, hfree⟩))
      rw [below_points hfW hfree] at hr
      exact (below_iff hplaced hlt hle hfW).mp hr
    · have hend := last_end hplaced hused hb (hbefore b hb hlt) (hdiv.segments _ List.mem_cons_self)
      have hfree : freeBehind A img b = some _ := if_pos hlt
      have hr := hapart _ (mem_freeRegions.mpr (.inr ⟨b, hb, hfree⟩))
      rw [behind_points hfree] at hr
      exact (behind_iff hplaced hlt hend (hlast b hb)).mp hr
  · intro hclear
    obtain ⟨hramfs, hsegs⟩ := (own_iff hplaced).mpr hclear.own
    have hapart : ∀ r ∈ freeRegions A img, Apart A img (convDesc A r).span.points := by
      intro r hr
      rcases mem_freeRegions.mp hr with ⟨f, hf, hfree⟩ | ⟨b, hb, hfree⟩
      · obtain ⟨hfW, hle⟩ := hfirst f hf
        have hlt := (freeBelow_eq_some hfree).1
        rw [below_points hfW hfree]
        exact (below_iff hplaced hlt hle hfW).mpr (hclear.below f hf hlt)
      · have hlt := (freeBehind_eq_some hfree).1
        have hend := last_end hplaced hused hb (hbefore b hb hlt) hsegs
        rw [behind_points hfree]
        exact (behind_iff hplaced hlt hend (hlast b hb)).mpr (hclear.behind b hb hlt)
    refine ⟨List.pairwise_cons.mpr ⟨fun r hr => (hapart r hr).loader, ?_⟩, fun r hr => ?_, fun r hr => ?_⟩
    · unfold freeRegions
      refine List.pairwise_append.mpr ⟨?_, ?_, fun r hr r' hr' => ?_⟩
      · cases (firstRegion A img).bind (freeBelow A img) <;> simp
      · cases (lastRegion A img).bind (freeBehind A img) <;> simp
      · obtain ⟨f, hf, hfree⟩ := Option.bind_eq_some_iff.mp (Option.mem_toList.mp hr)
        obtain ⟨b, hb, hfree'⟩ := Option.bind_eq_some_iff.mp (Option.mem_toList.mp hr')
        have hlt := (freeBelow_eq_some hfree).1
        have hlt' := (freeBehind_eq_some hfree').1
        rw [below_points (hfirst f hf).1 hfree, behind_points hfree', disjoint_iff hlt hlt']
        have h1 := (hclear.below f hf hlt).1
        have h2 := (hclear.behind b hb hlt').1
        have h3 := hplaced.loader_lt
        have h4 : f.start ≤ up f.start := le_up
        exact .inl (by omega)
    · rcases List.mem_cons.mp hr with rfl | hr
      · exact hsegs
      · exact (hapart r hr).segments
    · rcases List.mem_cons.mp hr with rfl | hr
      · exact hramfs
      · exact (hapart r hr).ramfs

/-- An ELF file of one segment that is loaded. -/
def oneSegment (paddr memsz : Nat) : ElfFile := ⟨[], [⟨paddr, paddr, memsz, 0x1000, true⟩]⟩

/-- An image in 64 megabytes of RAM whose file system takes two of them from `start` on and is followed by the
loader.  The kernel, sigma0 and the root task are linked to addresses sixteen megabytes up. -/
def imageAt (start : Nat) : Image where
  ramStart := 0x40000000
  ramSz := 0x4000000
  ramfsStart := start
  ramfsEnd := start + 0x200000
  bootloaderStart := start + 0x200000
  bootloaderEnd := start + 0x210000
  kernel := oneSegment 0x41000000 0x100000
  sigma0 := oneSegment 0x41100000 0x20000
  roottask := oneSegment 0x41120000 0x40000
  kipMagic a := a == 0x41000000

theorem imageAt_placed {start : Nat} (hstart : 0x40000000 ≤ start) (hend : start ≤ 0x43000000) :
    Placed .sparc (imageAt start) where
  ram := show 0x40000000 + 0x4000000 ≤ 4294967296 by decide
  ramfs_ge := hstart
  ramfs_lt := Nat.lt_add_of_pos_right (by decide)
  ramfs_le := by
    show start + 0x200000 ≤ 0x40000000 + 0x4000000
    omega
  ramfs_word := by
    show start + 0x200000 < 4294967296
    omega
  loader_ge := by
    show 0x40000000 ≤ start + 0x200000
    omega
  loader_lt := by
    show start + 0x200000 < start + 0x210000
    omega
  loader_le := by
    show start + 0x210000 ≤ 0x40000000 + 0x4000000
    omega
  loader_word := by
    show start + 0x210000 < 4294967296
    omega
  words := by
    have hwords : ∀ r ∈ [(⟨0x41000000, 0x100000, .kernel⟩ : Region), ⟨0x41100000, 0x20000, .sigma0⟩,
        ⟨0x41120000, 0x40000, .roottask⟩], r.start < 2 ^ 32 ∧ r.sz < 2 ^ 32 := by decide
    exact hwords

/-- The build puts the image behind the segments. -/
theorem imageAt_behind : ∃ ds, main .sparc (imageAt 0x41160000) = .ok ds ∧
    (Safe .sparc (imageAt 0x41160000) ds ↔ Clear .sparc (imageAt 0x41160000)) :=
  ⟨_, rfl, main_safe_iff (imageAt_placed (by decide) (by decide)) rfl⟩

/-- In front of them the file system image is in the memory that is free. -/
theorem imageAt_front : ∃ ds, main .sparc (imageAt 0x40000000) = .ok ds ∧
    Placed .sparc (imageAt 0x40000000) ∧ ¬ Safe .sparc (imageAt 0x40000000) ds := by
  refine ⟨_, rfl, imageAt_placed (by decide) (by decide), fun h => ?_⟩
  have hdisj := h.ramfs ⟨0x100000, 0x1007ff, MemDesc.bootloader, bldrRamfs⟩ (by decide) rfl rfl
  have hramfs : 0x40100000 ∈ (MemDesc.span ⟨0x100000, 0x1007ff, MemDesc.bootloader, bldrRamfs⟩).points :=
    ⟨by decide, by decide⟩
  have hfree : 0x40100000 ∈ (MemDesc.span ⟨0x100000, 0x1007ff, conventional, 0⟩).points :=
    ⟨by decide, by decide⟩
  exact Set.disjoint_left.mp hdisj hramfs ⟨_, by decide, hfree⟩

end Ldr
end Wrmos
