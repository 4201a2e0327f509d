import Wrmos.AppSpec
import Wrmos.Lib.Span

/-!
# Cutting a region

`split_to_smaller_regions` cuts the pages of a request out of a region.  When the region begins no later than
the first page of the request, the parts are that page up to the end of the last one, or of the region, and
the remnants on both sides.  The parts are given the place of the region as it is: only the origin is moved
on.  `get_location` makes the call for regions that have no place yet.

`Fits` is when the call does all that it is to do (`splits_iff_fits`).
-/

namespace Wrmos
namespace App

open Lib (bind_eq_ok ensure_bind_eq_ok ensure_bind_of Span)

/-- The addresses of a region. -/
def span (reg : AppRegion) : Span := ⟨reg.remote, reg.sz⟩

/-- An address moved on, where there is one. -/
def shifted (A : Arch) (base n : Nat) : Nat := if base = 0 then 0 else A.add base n

/-- The regions after the call are those before it with `reg` replaced by at most three parts, which are not
empty, share no address and have the addresses of `reg`; the returned one has the request, and all have the
access of `reg` and its place and origin moved on. -/
structure Cut (A : Arch) (pre : List AppRegion) (reg : AppRegion) (post : List AppRegion) (va sz : Nat)
    (pre' : List AppRegion) (reg' : AppRegion) (post' parts : List AppRegion) : Prop where
  replaced : (pre' ++ reg' :: post').Perm (pre ++ post ++ parts)
  count : parts.length ≤ 3
  mem : reg' ∈ parts
  apart : Span.Apart (parts.map span)
  nonempty : ∀ t ∈ parts, 0 < t.sz
  union : Span.union (parts.map span) = (span reg).points
  request : Span.Within ⟨va, sz⟩ (span reg')
  acc : ∀ t ∈ parts, t.acc = reg.acc
  loc : ∀ t ∈ parts, t.loc = shifted A reg.loc (t.remote - reg.remote)
  origin : ∀ t ∈ parts, t.localOrigin = shifted A reg.localOrigin (t.remote - reg.remote)

/-- The call cuts the region as it is to, and stops only when there is no memory for three nodes. -/
def Splits (A : Arch) (s : App) (pre : List AppRegion) (reg : AppRegion) (post : List AppRegion)
    (va sz : Nat) : Prop :=
  (∀ s' pre' reg' post', s.splitToSmallerRegions A pre reg post va sz = .ok (s', pre', reg', post') →
    ∃ parts, Cut A pre reg post va sz pre' reg' post' parts) ∧
  ∀ e, s.splitToSmallerRegions A pre reg post va sz = .error e →
    ∃ l : List AppRegion, l.length ≤ 3 ∧ l.foldlM (fun s _ => s.takeNode A) s = .error e

/-- There is memory for three nodes. -/
def Room (A : Arch) (s : App) : Prop :=
  ∀ l : List AppRegion, l.length ≤ 3 → ∃ t, l.foldlM (fun s _ => s.takeNode A) s = .ok t

/-- The request ends in the last page of the region. -/
def Tails (A : Arch) (reg : AppRegion) (va sz : Nat) : Prop :=
  roundPgDown (A.sub (A.add va sz) 1) = roundPgDown (A.sub (reg.remoteEnd A) 1)

instance (A : Arch) (reg : AppRegion) (va sz : Nat) : Decidable (Tails A reg va sz) :=
  inferInstanceAs (Decidable (_ = _))

/-- The region is not empty and begins no later than the page of the request; an empty request does not stand
at the start of a page; and a region with a place is not cut. -/
structure Fits (A : Arch) (reg : AppRegion) (va sz : Nat) : Prop where
  nonempty : 0 < reg.sz
  start : reg.remote ≤ roundPgDown va
  empty : sz = 0 → va % pageSz = 0 → va = 0 ∧ Tails A reg va sz
  place : reg.loc = 0 ∨ reg.remote = roundPgDown va ∧ Tails A reg va sz

/-- A region and a request inside it, in machine words. -/
structure Inside (A : Arch) (reg : AppRegion) (va sz : Nat) : Prop where
  remote : reg.remote < 2 ^ A.wordBits
  size : reg.sz < 2 ^ A.wordBits
  bound : reg.remote + reg.sz ≤ 2 ^ A.wordBits
  loc : reg.loc < 2 ^ A.wordBits
  origin : reg.localOrigin < 2 ^ A.wordBits
  word : va < 2 ^ A.wordBits
  start : reg.remote ≤ va
  stop : va + sz ≤ reg.remote + reg.sz

variable {A : Arch} {s s' : App} {reg reg' : AppRegion} {pre post pre' post' parts : List AppRegion}
  {va sz : Nat}

/-! ## The sizes -/

/-- Where the part with the request ends. -/
def cutEnd (A : Arch) (reg : AppRegion) (va sz : Nat) : Nat :=
  if Tails A reg va sz then reg.remote + reg.sz else (va + sz + 4095) / 4096 * 4096

theorem roundPgDown_le (va : Nat) : roundPgDown va ≤ va := Nat.div_mul_le_self _ _

/-- A request that does not end in the last page of its region. -/
theorem Inside.end_lt (h : Inside A reg va sz) (ht : ¬Tails A reg va sz) :
    (va + sz + 4095) / 4096 * 4096 < reg.remote + reg.sz := by
  obtain ⟨h1, h2, h3, -, -, h4, h5, h6⟩ := h
  unfold Tails roundPgDown AppRegion.remoteEnd Arch.sub Arch.add pageSz at ht
  rcases word_cases A with hw | hw <;> rw [hw] at h1 h2 h3 h4 ht <;> omega

theorem Inside.cutEnd_spec (h : Inside A reg va sz) :
    va + sz ≤ cutEnd A reg va sz ∧ cutEnd A reg va sz ≤ reg.remote + reg.sz ∧
      (cutEnd A reg va sz = reg.remote + reg.sz ↔ Tails A reg va sz) := by
  unfold cutEnd
  split_ifs with ht
  · exact ⟨h.stop, le_rfl, iff_of_true rfl ht⟩
  · have hlt := h.end_lt ht
    exact ⟨by omega, hlt.le, iff_of_false hlt.ne ht⟩

/-- The part with the request is empty for an empty request at the start of a page. -/
theorem Inside.lt_cutEnd (h : Inside A reg va sz) (hsize : 0 < reg.sz) :
    roundPgDown va < cutEnd A reg va sz ↔ (sz = 0 → va % pageSz = 0 → va = 0 ∧ Tails A reg va sz) := by
  have hstart := h.start
  have hstop := h.stop
  unfold cutEnd roundPgDown pageSz
  constructor
  · intro hlt h0 hpage
    subst h0
    split_ifs at hlt with ht
    · refine ⟨?_, ht⟩
      by_contra hva
      obtain ⟨h1, h2, h3, -, -, h4, h5, h6⟩ := h
      unfold Tails roundPgDown AppRegion.remoteEnd Arch.sub Arch.add pageSz at ht
      rcases word_cases A with hw | hw <;> rw [hw] at h1 h2 h3 h4 ht <;> omega
    · omega
  · intro hempty
    split_ifs with ht
    · by_contra hlt
      have hva := hempty (by omega) (by omega)
      omega
    · by_contra hlt
      exact ht (hempty (by omega) (by omega)).2

/-- The sizes of the parts when the region begins no later than the page of the request. -/
theorem Inside.sizes_eq (h : Inside A reg va sz) (hpage : reg.remote ≤ roundPgDown va) :
    sizes A reg va sz = (roundPgDown va - reg.remote, cutEnd A reg va sz - roundPgDown va,
      reg.remote + reg.sz - cutEnd A reg va sz) := by
  obtain ⟨hend, hbound, -⟩ := h.cutEnd_spec
  have hle := roundPgDown_le va
  have hva := h.word
  have hsz := h.size
  have hbefore : A.sub (roundPgDown va) reg.remote = roundPgDown va - reg.remote :=
    Arch.sub_of_le hpage (by omega)
  have hafter : (if Tails A reg va sz then 0 else A.sub (reg.remoteEnd A) (roundPgUp A (A.add va sz))) =
      reg.remote + reg.sz - cutEnd A reg va sz := by
    unfold cutEnd
    split_ifs with ht
    · exact (Nat.sub_self _).symm
    · have hne := ht
      unfold Tails at hne
      simp only [roundPgDown, Arch.sub, Arch.add, AppRegion.remoteEnd, pageSz] at hne
      obtain ⟨-, hsub⟩ := after_spec (word_cases A) h.stop hne
      simp only [roundPgUp, Region.roundUp, Arch.sub, Arch.add, AppRegion.remoteEnd, pageSz]
      rw [hsub]
      exact Nat.mod_eq_of_lt (by omega)
  show (_, A.sub (A.sub reg.sz _) (if Tails A reg va sz then 0 else _),
    (if Tails A reg va sz then 0 else _)) = _
  rw [hbefore, hafter, Arch.sub_of_le (by omega) hsz, Arch.sub_of_le (by omega) (by omega)]
  congr 2
  omega

/-! ## The parts -/

/-- The parts of the call. -/
def partsOf (A : Arch) (reg : AppRegion) (va sz : Nat) : List AppRegion :=
  biteBefore reg (sizes A reg va sz).1 ++
    biteMiddle A reg (sizes A reg va sz).1 (sizes A reg va sz).2.1 ::
      biteAfter A reg (sizes A reg va sz).1 (sizes A reg va sz).2.1 (sizes A reg va sz).2.2

theorem length_partsOf : (partsOf A reg va sz).length ≤ 3 := by
  unfold partsOf biteBefore biteAfter
  split_ifs <;> simp

/-- What the call returns. -/
theorem of_split (h : s.splitToSmallerRegions A pre reg post va sz = .ok (s', pre', reg', post')) :
    reg' = biteMiddle A reg (sizes A reg va sz).1 (sizes A reg va sz).2.1 ∧
      reg'.remote = roundPgDown va ∧
      (pre' ++ reg' :: post').Perm (pre ++ post ++ partsOf A reg va sz) := by
  unfold splitToSmallerRegions at h
  unfold partsOf
  generalize sizes A reg va sz = p at h ⊢
  obtain ⟨before, middle, after⟩ := p
  obtain ⟨-, h⟩ := ensure_bind_eq_ok.mp h
  obtain ⟨t, -, h⟩ := bind_eq_ok.mp h
  obtain ⟨hremote, h⟩ := ensure_bind_eq_ok.mp h
  have hout := Except.ok.inj h
  simp only [Prod.mk.injEq] at hout
  obtain ⟨-, rfl, rfl, rfl⟩ := hout
  refine ⟨rfl, hremote, ?_⟩
  rw [List.append_assoc, List.append_assoc]

/-- The sizes add up and the new region begins at the page of the request: the call stops only when there is
no memory for the nodes. -/
theorem split_error {e : Stop} {before middle after : Nat}
    (hsizes : sizes A reg va sz = (before, middle, after))
    (hsum : A.add (A.add before middle) after = reg.sz) (hremote : A.add reg.remote before = roundPgDown va)
    (h : s.splitToSmallerRegions A pre reg post va sz = .error e) :
    (partsOf A reg va sz).foldlM (fun s _ => s.takeNode A) s = .error e := by
  unfold splitToSmallerRegions at h
  unfold partsOf
  rw [hsizes] at h ⊢
  dsimp only at h
  rw [ensure_bind_of hsum] at h
  cases hnodes : (biteBefore reg before ++ biteMiddle A reg before middle ::
      biteAfter A reg before middle after).foldlM (fun s _ => s.takeNode A) s with
  | error e' =>
    rw [hnodes] at h
    have he :
        (Except.error e' : Except Stop (App × List AppRegion × AppRegion × List AppRegion)) = .error e := h
    rw [Except.error.inj he]
  | ok t =>
    have hremote' : (biteMiddle A reg before middle).remote = roundPgDown va := hremote
    rw [hnodes, Lib.ok_bind, ensure_bind_of hremote'] at h
    cases h

/-- The part of the region from `a` to `b`. -/
def part (A : Arch) (reg : AppRegion) (a b : Nat) : AppRegion :=
  ⟨a, b - a, reg.acc, reg.loc, shifted A reg.localOrigin (a - reg.remote)⟩

theorem Inside.add_remote (h : Inside A reg va sz) (hpage : reg.remote ≤ roundPgDown va) :
    A.add reg.remote (roundPgDown va - reg.remote) = roundPgDown va := by
  unfold Arch.add
  rw [Nat.add_sub_cancel' hpage]
  exact Nat.mod_eq_of_lt ((roundPgDown_le va).trans_lt h.word)

theorem Inside.biteMiddle_eq (h : Inside A reg va sz) (hpage : reg.remote ≤ roundPgDown va) :
    biteMiddle A reg (sizes A reg va sz).1 (sizes A reg va sz).2.1 =
      part A reg (roundPgDown va) (cutEnd A reg va sz) := by
  rw [h.sizes_eq hpage]
  unfold biteMiddle
  rw [h.add_remote hpage]
  rfl

/-- The parts when the region begins no later than the page of the request. -/
theorem Inside.partsOf_eq (h : Inside A reg va sz) (hpage : reg.remote ≤ roundPgDown va) :
    partsOf A reg va sz =
      (if reg.remote < roundPgDown va then [part A reg reg.remote (roundPgDown va)] else []) ++
        part A reg (roundPgDown va) (cutEnd A reg va sz) ::
          if cutEnd A reg va sz < reg.remote + reg.sz
            then [part A reg (cutEnd A reg va sz) (reg.remote + reg.sz)] else [] := by
  obtain ⟨hend, hbound, -⟩ := h.cutEnd_spec
  have hle := roundPgDown_le va
  have hva := h.word
  have hw := h.bound
  have hadd := h.add_remote hpage
  have hmiddle := h.biteMiddle_eq hpage
  unfold partsOf
  rw [hmiddle, h.sizes_eq hpage]
  dsimp only
  congr 1
  · unfold biteBefore
    by_cases hlt : reg.remote < roundPgDown va
    · rw [if_neg (by omega), if_pos hlt]
      have horigin : shifted A reg.localOrigin (reg.remote - reg.remote) = reg.localOrigin := by
        unfold shifted Arch.add
        rw [Nat.sub_self, Nat.add_zero, Nat.mod_eq_of_lt h.origin, ite_eq_right_iff]
        exact Eq.symm
      unfold part
      rw [horigin]
    · rw [if_pos (by omega), if_neg hlt]
  · congr 1
    unfold biteAfter
    by_cases hlt : cutEnd A reg va sz < reg.remote + reg.sz
    · have hsum : A.add (roundPgDown va) (cutEnd A reg va sz - roundPgDown va) = cutEnd A reg va sz := by
        unfold Arch.add
        rw [Nat.add_sub_cancel' (by omega)]
        exact Nat.mod_eq_of_lt (by omega)
      have hoff : A.add (roundPgDown va - reg.remote) (cutEnd A reg va sz - roundPgDown va) =
          cutEnd A reg va sz - reg.remote := by
        unfold Arch.add
        rw [Nat.mod_eq_of_lt (by omega)]
        omega
      have hne : reg.remote + reg.sz - cutEnd A reg va sz ≠ 0 := by omega
      rw [if_neg hne, if_pos hlt, hadd, hsum, hoff]
      rfl
    · rw [if_pos (by omega), if_neg hlt]

/-- The parts are the pages of the request and the remnants of the region. -/
theorem Inside.span_partsOf (h : Inside A reg va sz) (hpage : reg.remote ≤ roundPgDown va) :
    ((partsOf A reg va sz).map span).Perm
      (span (part A reg (roundPgDown va) (cutEnd A reg va sz)) ::
        Span.remnants (span reg) (span (part A reg (roundPgDown va) (cutEnd A reg va sz)))) := by
  have hle := roundPgDown_le va
  have hend := h.cutEnd_spec.1
  have hstop : (span (part A reg (roundPgDown va) (cutEnd A reg va sz))).stop = cutEnd A reg va sz := by
    show roundPgDown va + (cutEnd A reg va sz - roundPgDown va) = _
    omega
  rw [h.partsOf_eq hpage, List.map_append, List.map_cons]
  refine List.perm_middle.trans (List.Perm.cons _ (List.Perm.of_eq ?_))
  unfold Span.remnants
  rw [hstop, apply_ite (List.map span), apply_ite (List.map span)]
  rfl

theorem Inside.mem_partsOf {t : AppRegion} (h : Inside A reg va sz) (hpage : reg.remote ≤ roundPgDown va)
    (ht : t ∈ partsOf A reg va sz) : ∃ a b, t = part A reg a b ∧
      (a = reg.remote ∧ b = roundPgDown va ∧ a < b ∨ a = roundPgDown va ∧ b = cutEnd A reg va sz ∨
        a = cutEnd A reg va sz ∧ b = reg.remote + reg.sz ∧ a < b) := by
  rw [h.partsOf_eq hpage, List.mem_append, List.mem_cons] at ht
  rcases ht with ht | rfl | ht
  · split_ifs at ht with hlt
    · exact ⟨_, _, List.mem_singleton.mp ht, .inl ⟨rfl, rfl, hlt⟩⟩
    · cases ht
  · exact ⟨_, _, rfl, .inr (.inl ⟨rfl, rfl⟩)⟩
  · split_ifs at ht with hlt
    · exact ⟨_, _, List.mem_singleton.mp ht, .inr (.inr ⟨rfl, rfl, hlt⟩)⟩
    · cases ht

/-! ## When it fits -/

theorem Inside.splits_of_fits (h : Inside A reg va sz) (hf : Fits A reg va sz) :
    Splits A s pre reg post va sz := by
  obtain ⟨hend, hbound, htails⟩ := h.cutEnd_spec
  have hpage := hf.start
  have hle := roundPgDown_le va
  have hlt := (h.lt_cutEnd hf.nonempty).mpr hf.empty
  have hw := h.bound
  have hsz := h.size
  refine ⟨fun s' pre' reg' post' hout => ⟨partsOf A reg va sz, ?_⟩, fun e he =>
    ⟨partsOf A reg va sz, length_partsOf, ?_⟩⟩
  · obtain ⟨hreg', hremote, hperm⟩ := of_split hout
    have hspan := h.span_partsOf hpage
    have hpart := hreg'.trans (h.biteMiddle_eq hpage)
    have hwithin : Span.Within (span reg') (span reg) := by
      rw [hpart]
      refine ⟨hpage, ?_⟩
      show roundPgDown va + (cutEnd A reg va sz - roundPgDown va) ≤ reg.remote + reg.sz
      omega
    rw [← hpart] at hspan
    refine ⟨hperm, length_partsOf, ?_, ?_, ?_, ?_, ?_, ?_, ?_, ?_⟩
    · rw [h.partsOf_eq hpage, hpart]
      exact List.mem_append_right _ List.mem_cons_self
    · rw [Span.apart_perm hspan, Span.apart_cons]
      exact ⟨Span.disjoint_remnants, Span.apart_remnants⟩
    · intro t ht
      obtain ⟨a, b, rfl, hab⟩ := h.mem_partsOf hpage ht
      show 0 < b - a
      omega
    · rw [Span.union_perm hspan, Span.union_cons]
      exact Span.points_eq_remnants hwithin
    · rw [hpart]
      refine ⟨hle, ?_⟩
      show va + sz ≤ roundPgDown va + (cutEnd A reg va sz - roundPgDown va)
      omega
    · intro t ht
      obtain ⟨a, b, rfl, -⟩ := h.mem_partsOf hpage ht
      rfl
    · intro t ht
      obtain ⟨a, b, rfl, hab⟩ := h.mem_partsOf hpage ht
      show reg.loc = shifted A reg.loc (a - reg.remote)
      unfold shifted
      split_ifs with hloc
      · exact hloc
      · obtain ⟨hstart, htail⟩ := hf.place.resolve_left hloc
        have hc := htails.mpr htail
        have ha : a - reg.remote = 0 := by omega
        rw [ha]
        exact (Nat.mod_eq_of_lt h.loc).symm
    · intro t ht
      obtain ⟨a, b, rfl, -⟩ := h.mem_partsOf hpage ht
      rfl
  · refine split_error (h.sizes_eq hpage) ?_ ?_ he
    · unfold Arch.add
      rw [Nat.mod_add_mod, Nat.mod_eq_of_lt (by omega)]
      omega
    · exact h.add_remote hpage

theorem shifted_eq_self {base n : Nat} (hne : base ≠ 0) (hn : n < 2 ^ A.wordBits)
    (h : base = shifted A base n) : n = 0 := by
  unfold shifted Arch.add at h
  rw [if_neg hne] at h
  rcases word_cases A with hw | hw <;> rw [hw] at h hn <;> omega

/-- What a right cut says of the region and the request. -/
theorem Inside.fits_of_cut (h : Inside A reg va sz)
    (hout : s.splitToSmallerRegions A pre reg post va sz = .ok (s', pre', reg', post'))
    (hcut : Cut A pre reg post va sz pre' reg' post' parts) : Fits A reg va sz := by
  obtain ⟨hreg', hremote, hperm⟩ := of_split hout
  have hparts : parts.Perm (partsOf A reg va sz) :=
    (List.perm_append_left_iff _).mp (hcut.replaced.symm.trans hperm)
  -- The returned part is not empty and begins at the page of the request.
  have hmem : roundPgDown va ∈ (span reg).points := by
    rw [← hcut.union, ← hremote]
    exact ⟨_, List.mem_map_of_mem hcut.mem, le_rfl, Nat.lt_add_of_pos_right (hcut.nonempty _ hcut.mem)⟩
  have hpage : reg.remote ≤ roundPgDown va := hmem.1
  have hsize : 0 < reg.sz := by
    have hlt : roundPgDown va < reg.remote + reg.sz := hmem.2
    omega
  have hpart := hreg'.trans (h.biteMiddle_eq hpage)
  have hlt : roundPgDown va < cutEnd A reg va sz := by
    have hpos := hcut.nonempty _ hcut.mem
    rw [hpart] at hpos
    exact Nat.lt_of_sub_pos hpos
  refine ⟨hsize, hpage, (h.lt_cutEnd hsize).mp hlt, ?_⟩
  rcases eq_or_ne reg.loc 0 with hloc | hloc
  · exact .inl hloc
  have hbound := h.bound
  obtain ⟨-, hend, htails⟩ := h.cutEnd_spec
  have hplace : ∀ a b, part A reg a b ∈ parts → a < 2 ^ A.wordBits → a - reg.remote = 0 := fun a b hmem ha =>
    shifted_eq_self hloc (by omega) (hcut.loc _ hmem)
  right
  constructor
  · have hzero := hplace _ _ (hpart ▸ hcut.mem) ((roundPgDown_le va).trans_lt h.word)
    omega
  · refine htails.mp (le_antisymm hend (Nat.not_lt.mp fun hlast => ?_))
    have hmem : part A reg (cutEnd A reg va sz) (reg.remote + reg.sz) ∈ parts := by
      rw [hparts.mem_iff, h.partsOf_eq hpage, if_pos hlast]
      exact List.mem_append_right _ (List.mem_cons_of_mem _ List.mem_cons_self)
    have hzero := hplace _ _ hmem (by omega)
    omega

/-- **Cutting a region.**  For a region and a request inside it, a call that fits cuts the region as it is to,
whatever the other regions and the memory for nodes are; one that does not fit does not, when there is memory
for the nodes. -/
theorem splits_iff_fits (h : Inside A reg va sz) :
    (Fits A reg va sz → ∀ s pre post, Splits A s pre reg post va sz) ∧
      ∀ s pre post, Room A s → (Splits A s pre reg post va sz ↔ Fits A reg va sz) := by
  refine ⟨fun hf s pre post => h.splits_of_fits hf, fun s pre post hroom => ⟨fun hs => ?_, fun hf =>
    h.splits_of_fits hf⟩⟩
  cases hout : s.splitToSmallerRegions A pre reg post va sz with
  | error e =>
    obtain ⟨l, hl, he⟩ := hs.2 e hout
    obtain ⟨t, ht⟩ := hroom l hl
    rw [ht] at he
    cases he
  | ok out =>
    obtain ⟨s', pre', reg', post'⟩ := out
    obtain ⟨parts, hcut⟩ := hs.1 _ _ _ _ hout
    exact h.fits_of_cut hout hcut

theorem takeNode_of_nodes (hn : s.nodes ≠ 0) : s.takeNode A = .ok { s with nodes := s.nodes - 1 } := by
  unfold takeNode checkForAlloc
  rw [if_neg hn]
  rfl

theorem takeNodes_of_nodes (l : List AppRegion) :
    ∀ {s : App}, l.length ≤ s.nodes → ∃ t, l.foldlM (fun s _ => s.takeNode A) s = .ok t := by
  induction l with
  | nil => exact fun {s} _ => ⟨s, rfl⟩
  | cons r l ih =>
    intro s hn
    rw [List.length_cons] at hn
    rw [List.foldlM_cons, takeNode_of_nodes (by omega)]
    exact ih (Nat.le_sub_one_of_lt hn)

/-- Three free nodes are enough. -/
theorem room_of_nodes (hn : 3 ≤ s.nodes) : Room A s := fun l hl => takeNodes_of_nodes l (hl.trans hn)

/-- A page in the middle of a region of three pages. -/
theorem middlePage_splits : Splits .x86 ⟨[⟨0x10000, 0x3000, 3, 0, 0x2000000⟩], 3, 0, onePage⟩ []
    ⟨0x10000, 0x3000, 3, 0, 0x2000000⟩ [] 0x11008 4 :=
  ((splits_iff_fits ⟨by decide, by decide, by decide, by decide, by decide, by decide, by decide,
    by decide⟩).2 _ _ _ (room_of_nodes (by decide))).mpr ⟨by decide, by decide, by decide, by decide⟩

/-- The region begins inside the page of the request: the size of the first part wraps, and the part goes
around the address space. -/
theorem unaligned_not_splits :
    (∃ s, splitToSmallerRegions .x86 ⟨[⟨0x10234, 0x3000, 3, 0, 0x2000234⟩], 3, 0, onePage⟩ []
        ⟨0x10234, 0x3000, 3, 0, 0x2000234⟩ [] 0x10300 4 =
      .ok (s, [⟨0x10234, 0xfffffdcc, 3, 0, 0x2000234⟩], ⟨0x10000, 0x1000, 3, 0, 0x2000000⟩,
        [⟨0x11000, 0x2234, 3, 0, 0x2001000⟩])) ∧
    ¬Splits .x86 ⟨[⟨0x10234, 0x3000, 3, 0, 0x2000234⟩], 3, 0, onePage⟩ []
      ⟨0x10234, 0x3000, 3, 0, 0x2000234⟩ [] 0x10300 4 := by
  have hout : ∃ s, splitToSmallerRegions .x86 ⟨[⟨0x10234, 0x3000, 3, 0, 0x2000234⟩], 3, 0, onePage⟩ []
      ⟨0x10234, 0x3000, 3, 0, 0x2000234⟩ [] 0x10300 4 =
        .ok (s, [⟨0x10234, 0xfffffdcc, 3, 0, 0x2000234⟩], ⟨0x10000, 0x1000, 3, 0, 0x2000000⟩,
          [⟨0x11000, 0x2234, 3, 0, 0x2001000⟩]) := ⟨_, rfl⟩
  refine ⟨hout, fun hs => ?_⟩
  obtain ⟨s', hout⟩ := hout
  obtain ⟨parts, hcut⟩ := hs.1 _ _ _ _ hout
  have hinside : Inside .x86 ⟨0x10234, 0x3000, 3, 0, 0x2000234⟩ 0x10300 4 :=
    ⟨by decide, by decide, by decide, by decide, by decide, by decide, by decide, by decide⟩
  exact absurd (hinside.fits_of_cut hout hcut).start (by decide)

end App
end Wrmos
