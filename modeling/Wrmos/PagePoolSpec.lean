import Wrmos.PagePool
import Wrmos.Lib.Span

/-!
# What the page pool conserves

The pages of the pool and the pages it handed out are spans of addresses.  To halve a page carves its first
half out of it, so `split` only cuts the memory of the pool anew (`Span.Recut`), and every page stays
aligned to its size.  `split` finds a page whenever a larger one is in the pool, and it never finds a list
full: it puts two pages into a list that was empty (`split_spec`).

So in every run the pages are apart and cover what was added (`History.Conserved`).  `alloc` compares the
recorded size, a word, with `1 << lgsz`, a shift of `int`: what holds where neither is out of range is
`pagePool_conserved`.
-/

namespace Wrmos

open Lib (bits ensure bind_eq_ok map_eq_ok ensure_bind_eq_ok ensure_bind_of runAll runAll_invariant Meets Span)

namespace Fpage

variable {A : Arch} {fp k v : Nat}

/-- A flexpage of a naturally aligned range of `2 ^ k` bytes. -/
structure Page (A : Arch) (k fp : Nat) : Prop where
  word : fp < 2 ^ A.wordBits
  log : log2sz fp = k
  min : 12 ≤ k
  max : k ≤ 31
  aligned : 2 ^ k ∣ addr A fp

theorem lt_wordBits {k : Nat} (hk : k ≤ 31) : k < A.wordBits :=
  Nat.lt_of_le_of_lt hk (by cases A <;> decide)

theorem Page.size_eq (h : Page A k fp) : size A fp = 2 ^ k := by
  unfold Fpage.size shiftOne
  rw [h.log, if_pos (lt_wordBits h.max)]

theorem Page.ne_nil (h : Page A k fp) : fp ≠ nil := by
  rintro rfl
  have hmin := h.min
  rw [← h.log] at hmin
  exact absurd hmin (by decide)

theorem addr_eq (h : fp < 2 ^ A.wordBits) : addr A fp = fp / 2 ^ 10 * 2 ^ 10 :=
  Nat.mod_eq_of_lt ((Nat.div_mul_le_self fp _).trans_lt h)

/-- A page ends inside of the address space. -/
theorem Page.stop_le (h : Page A k fp) : addr A fp + 2 ^ k ≤ 2 ^ A.wordBits := by
  have hlt : addr A fp < 2 ^ A.wordBits := Nat.mod_lt _ (Nat.two_pow_pos _)
  obtain ⟨u, hu⟩ := h.aligned
  obtain ⟨v, hv⟩ := Nat.pow_dvd_pow 2 (lt_wordBits (A := A) h.max).le
  rw [hu, hv] at hlt ⊢
  have huv : u + 1 ≤ v := Nat.lt_of_mul_lt_mul_left hlt
  calc 2 ^ k * u + 2 ^ k = 2 ^ k * (u + 1) := (Nat.mul_succ _ _).symm
    _ ≤ 2 ^ k * v := Nat.mul_le_mul_left _ huv

/-- The addresses of a flexpage. -/
def span (A : Arch) (fp : Nat) : Span := ⟨addr A fp, Fpage.size A fp⟩

theorem Page.span_eq (h : Page A k fp) : span A fp = ⟨addr A fp, 2 ^ k⟩ := by
  unfold Fpage.span
  rw [h.size_eq]

/-- The first half of a page. -/
theorem Page.lower (h : Page A (k + 1) fp) (hk : 12 ≤ k) :
    Page A k (setLog2sz fp k) ∧ addr A (setLog2sz fp k) = addr A fp := by
  have hmax := h.max
  have hw : 2 ^ A.wordBits = 2 ^ (A.wordBits - 10) * 2 ^ 10 := by cases A <;> rfl
  have hhigh : setLog2sz fp k / 2 ^ 10 = fp / 2 ^ 10 := by
    unfold setLog2sz bits
    omega
  have hword : setLog2sz fp k < 2 ^ A.wordBits := by
    have hfp := h.word
    rw [hw, ← Nat.div_lt_iff_lt_mul (by decide)] at hfp ⊢
    rwa [hhigh]
  have haddr : addr A (setLog2sz fp k) = addr A fp := by
    rw [addr_eq hword, addr_eq h.word, hhigh]
  refine ⟨⟨hword, ?_, hk, by omega, ?_⟩, haddr⟩
  · rw [log2sz_setLog2sz]
    exact Nat.mod_eq_of_lt (by omega)
  · rw [haddr]
    exact (Nat.pow_dvd_pow 2 (Nat.le_succ k)).trans h.aligned

theorem floor_of_dvd {x : Nat} (h : 2 ^ 10 ∣ x) (r : Nat) :
    (x / 2 ^ 10 * 2 ^ 10 + r % 2 ^ 10) / 2 ^ 10 * 2 ^ 10 = x := by
  have hr := Nat.mod_lt r (Nat.two_pow_pos 10)
  rw [Nat.div_mul_cancel h, Nat.add_div_of_dvd_right h, Nat.div_eq_of_lt hr, Nat.add_zero,
    Nat.div_mul_cancel h]

/-- The second half of a page. -/
theorem Page.upper {pg : Nat} (h : Page A k pg) (hstop : addr A pg + 2 ^ (k + 1) ≤ 2 ^ A.wordBits) :
    Page A k (setAddr A pg (A.add (addr A pg) (Fpage.size A pg))) ∧
      addr A (setAddr A pg (A.add (addr A pg) (Fpage.size A pg))) = addr A pg + 2 ^ k := by
  have hw : 2 ^ A.wordBits = 2 ^ (A.wordBits - 10) * 2 ^ 10 := by cases A <;> rfl
  have hpos := Nat.two_pow_pos k
  have hsum : A.add (addr A pg) (Fpage.size A pg) = addr A pg + 2 ^ k := by
    rw [h.size_eq]
    rw [pow_succ] at hstop
    exact Nat.mod_eq_of_lt (by omega)
  have hlt : addr A pg + 2 ^ k < 2 ^ A.wordBits := by
    rw [pow_succ] at hstop
    omega
  have hdvd : 2 ^ k ∣ addr A pg + 2 ^ k := (Nat.dvd_add_right h.aligned).mpr (Nat.dvd_refl _)
  have hten : 2 ^ 10 ∣ addr A pg + 2 ^ k := (Nat.pow_dvd_pow 2 (by have := h.min; omega)).trans hdvd
  rw [hsum]
  have hbase : (addr A pg + 2 ^ k) / 2 ^ 10 < 2 ^ (A.wordBits - 10) := by
    rw [Nat.div_lt_iff_lt_mul (by decide), ← hw]
    exact hlt
  have hset : setAddr A pg (addr A pg + 2 ^ k) = (addr A pg + 2 ^ k) / 2 ^ 10 * 2 ^ 10 + pg % 2 ^ 10 := by
    unfold setAddr
    rw [Nat.mod_eq_of_lt hbase]
  have hword : setAddr A pg (addr A pg + 2 ^ k) < 2 ^ A.wordBits := by
    rw [hw, ← Nat.div_lt_iff_lt_mul (by decide), hset]
    omega
  have haddr : addr A (setAddr A pg (addr A pg + 2 ^ k)) = addr A pg + 2 ^ k := by
    rw [addr_eq hword, hset]
    exact floor_of_dvd hten pg
  refine ⟨⟨hword, ?_, h.min, h.max, ?_⟩, haddr⟩
  · rw [log2sz_setAddr, h.log]
  · rw [haddr]
    exact hdvd

end Fpage

namespace PagePool

open Fpage (Page span)

variable {A : Arch} {p q : PagePool} {i k n fp : Nat} {l : List Nat}

/-! ## The lists -/

/-- The pages of the pool as spans. -/
def spans (A : Arch) (p : PagePool) : List Span := (List.range 20).flatMap fun i => (p.fpages i).map (span A)

/-- Every page stands in the list of its size, and is aligned. -/
structure Ok (A : Arch) (p : PagePool) : Prop where
  page : ∀ i, ∀ fp ∈ p.fpages i, Page A (i + 12) fp

/-- The pages of one list come first. -/
theorem spans_perm (hi : i < 20) : (spans A p).Perm
    ((p.fpages i).map (span A) ++ ((List.range 20).erase i).flatMap fun j => (p.fpages j).map (span A)) := by
  have hperm := (List.perm_cons_erase (List.mem_range.mpr hi)).flatMap_right
    fun j => (p.fpages j).map (span A)
  rwa [List.flatMap_cons] at hperm

/-- The other lists do not change with one. -/
theorem others_update :
    (((List.range 20).erase i).flatMap fun j => ((Function.update p.fpages i l) j).map (span A)) =
      ((List.range 20).erase i).flatMap fun j => (p.fpages j).map (span A) := by
  refine List.flatMap_congr fun j hj => ?_
  have hne : j ≠ i := (List.nodup_range.mem_erase_iff.mp hj).1
  rw [Function.update_of_ne hne]

/-- A list is replaced. -/
theorem spans_update (n : Nat) (hi : i < 20) :
    (spans A ⟨Function.update p.fpages i l, n⟩).Perm
      (l.map (span A) ++ ((List.range 20).erase i).flatMap fun j => (p.fpages j).map (span A)) := by
  have hperm := spans_perm (A := A) (p := ⟨Function.update p.fpages i l, n⟩) hi
  dsimp only at hperm
  rwa [Function.update_self, others_update] at hperm

/-- The first page of a list is taken. -/
theorem spans_take (n : Nat) (hi : i < 20) (hl : p.fpages i = fp :: l) :
    (spans A p).Perm (span A fp :: spans A ⟨Function.update p.fpages i l, n⟩) := by
  have hperm := spans_perm (A := A) (p := p) hi
  rw [hl, List.map_cons, List.cons_append] at hperm
  exact hperm.trans ((spans_update n hi).symm.cons _)

/-- A page is added at the end of a list. -/
theorem spans_append (n fp : Nat) (hi : i < 20) :
    (spans A ⟨Function.update p.fpages i (p.fpages i ++ [fp]), n⟩).Perm (span A fp :: spans A p) := by
  refine (spans_update n hi).trans ?_
  rw [List.map_append, List.map_singleton, List.append_assoc]
  exact (List.perm_middle).trans ((spans_perm hi).symm.cons _)

theorem Ok.update {sz : Nat} (h : Ok A p) (hl : ∀ fp ∈ l, Page A (i + 12) fp) :
    Ok A ⟨Function.update p.fpages i l, sz⟩ := by
  refine ⟨fun j fp hfp => ?_⟩
  dsimp only at hfp
  rw [Function.update_apply] at hfp
  split at hfp
  · rename_i hj
    rw [hj]
    exact hl fp hfp
  · exact h.page j fp hfp

/-- Above the largest size the lists are empty. -/
theorem Ok.nil (h : Ok A p) (hi : 20 ≤ i) : p.fpages i = [] := by
  by_contra hne
  obtain ⟨fp, hfp⟩ := List.exists_mem_of_ne_nil _ hne
  have hmax := (h.page i fp hfp).max
  omega

/-! ## Halving a page -/

/-- The pages were cut, and those of sizes below `2 ^ (k + 12)` were left alone. -/
structure Cut (A : Arch) (k : Nat) (p q : PagePool) : Prop where
  ok : Ok A q
  recut : Span.Recut (spans A p) (spans A q)
  size : q.sizeBytes = p.sizeBytes
  low : ∀ j < k, q.fpages j = p.fpages j

theorem Cut.refl (h : Ok A p) : Cut A k p p := ⟨h, .refl _, rfl, fun _ _ => rfl⟩

/-- A page of a list that was empty is pushed without a panic. -/
theorem pushBack_eq (h : (p.fpages i).length < 32) :
    p.pushBack i fp = .ok { p with fpages := Function.update p.fpages i (p.fpages i ++ [fp]) } := by
  unfold pushBack
  rw [ensure_bind_of h]
  rfl

/-- The first page of a list becomes two pages of the list below, which was empty. -/
theorem halve_spec (h : Ok A p) (hk : k < 19) (hempty : p.fpages k = []) :
    ∃ q, p.halve A (k + 13) = .ok q ∧ Cut A k p q ∧ (q.fpages k ≠ [] ↔ p.fpages (k + 1) ≠ []) := by
  unfold halve
  rw [show k + 13 - 12 = k + 1 by omega, show k + 13 - 1 - 12 = k by omega, show k + 13 - 1 = k + 12 by omega]
  cases hl : p.fpages (k + 1) with
  | nil => exact ⟨p, rfl, .refl h, iff_of_false (fun hne => hne hempty) fun hne => hne rfl⟩
  | cons fp rest =>
    have hpage : Page A (k + 12 + 1) fp := by
      have hin := h.page (k + 1) fp (by rw [hl]; exact List.mem_cons_self)
      rwa [show k + 12 + 1 = k + 1 + 12 by omega]
    obtain ⟨hlow, hlowaddr⟩ := hpage.lower (by omega)
    obtain ⟨hup, hupaddr⟩ := hlow.upper (by rw [hlowaddr]; exact hpage.stop_le)
    set pg1 := Fpage.setLog2sz fp (k + 12)
    set pg2 := Fpage.setAddr A pg1 (A.add (Fpage.addr A pg1) (Fpage.size A pg1))
    -- the pool without the page, with its first half, and with both
    set p₀ : PagePool := { p with fpages := Function.update p.fpages (k + 1) rest } with hp₀
    have hp₀k : p₀.fpages k = [] := by
      rw [hp₀]
      dsimp only
      rwa [Function.update_of_ne (by omega)]
    have hp₀ok : Ok A p₀ := h.update fun fp' hfp' => by
      rw [show k + 1 + 12 = k + 1 + 12 from rfl]
      exact h.page (k + 1) fp' (by rw [hl]; exact List.mem_cons_of_mem fp hfp')
    set p₁ : PagePool := { p₀ with fpages := Function.update p₀.fpages k (p₀.fpages k ++ [pg1]) } with hp₁
    have hp₁k : p₁.fpages k = [pg1] := by
      rw [hp₁]
      dsimp only
      rw [Function.update_self, hp₀k]
      rfl
    have hp₁ok : Ok A p₁ := hp₀ok.update fun fp' hfp' => by
      rw [hp₀k] at hfp'
      rw [List.mem_singleton.mp hfp']
      exact hlow
    set p₂ : PagePool := { p₁ with fpages := Function.update p₁.fpages k (p₁.fpages k ++ [pg2]) } with hp₂
    have hp₂ok : Ok A p₂ := hp₁ok.update fun fp' hfp' => by
      rw [hp₁k] at hfp'
      rcases List.mem_cons.mp hfp' with rfl | hfp'
      · exact hlow
      · rw [List.mem_singleton.mp hfp']
        exact hup
    have hpush₁ : p₀.pushBack k pg1 = .ok p₁ := pushBack_eq (by rw [hp₀k]; decide)
    have hpush₂ : p₁.pushBack k pg2 = .ok p₂ := pushBack_eq (by rw [hp₁k]; exact Nat.one_lt_ofNat)
    refine ⟨p₂, ?_, ⟨hp₂ok, ?_, rfl, fun j hj => ?_⟩, iff_of_true ?_ (List.cons_ne_nil _ _)⟩
    · show p₀.pushBack k pg1 >>= (fun p => p.pushBack k pg2) = _
      rw [hpush₁]
      exact hpush₂
    · have htake : (spans A p).Perm (span A fp :: spans A p₀) := spans_take _ (by omega) hl
      have happ₁ : (spans A p₁).Perm (span A pg1 :: spans A p₀) := spans_append _ _ (by omega)
      have happ₂ : (spans A p₂).Perm (span A pg2 :: spans A p₁) := spans_append _ _ (by omega)
      have hhalf : Span.Recut (spans A p) (span A pg1 :: span A pg2 :: spans A p₀) := by
        rw [hpage.span_eq, pow_succ 2 (k + 12), Nat.mul_two] at htake
        rw [hlow.span_eq, hup.span_eq, hupaddr, hlowaddr]
        exact .halve htake (Nat.two_pow_pos _)
      refine hhalf.trans (.of_perm ?_)
      exact (List.Perm.swap _ _ _).trans ((happ₁.symm.cons _).trans happ₂.symm)
    · rw [hp₂, hp₁, hp₀]
      dsimp only
      rw [Function.update_of_ne (by omega), Function.update_of_ne (by omega), Function.update_of_ne (by omega)]
    · rw [hp₂]
      dsimp only
      rw [Function.update_self]
      exact List.append_ne_nil_of_right_ne_nil _ (List.cons_ne_nil _ _)

/-- **Splitting** finds a page when there is a larger one. -/
theorem split_spec : ∀ {n : Nat} {p : PagePool}, n ≤ 19 → Ok A p → p.fpages (19 - n) = [] →
    ∃ q, split A n p = .ok q ∧ Cut A (19 - n) p q ∧
      (q.fpages (19 - n) ≠ [] ↔ ∃ j, 20 - n ≤ j ∧ p.fpages j ≠ [])
  | 0, p, _, h, hempty => by
    refine ⟨p, rfl, .refl h, iff_of_false (fun hne => hne hempty) ?_⟩
    rintro ⟨j, hj, hne⟩
    exact hne (h.nil hj)
  | n + 1, p, hn, h, hempty => by
    -- a page of the size above, if need be from a larger one
    have habove : ∃ r, (if p.fpages (19 - n) = [] then split A n p else pure p) = Except.ok r ∧
        Cut A (19 - n) p r ∧ (r.fpages (19 - n) ≠ [] ↔ ∃ j, 19 - n ≤ j ∧ p.fpages j ≠ []) := by
      by_cases hnil : p.fpages (19 - n) = []
      · obtain ⟨r, hr, hcut, hiff⟩ := split_spec (by omega) h hnil
        rw [if_pos hnil]
        refine ⟨r, hr, hcut, hiff.trans ⟨?_, ?_⟩⟩
        · rintro ⟨j, hj, hne⟩
          exact ⟨j, by omega, hne⟩
        · rintro ⟨j, hj, hne⟩
          refine ⟨j, ?_, hne⟩
          by_contra hlt
          exact hne (show j = 19 - n by omega ▸ hnil)
      · rw [if_neg hnil]
        exact ⟨p, rfl, .refl h, iff_of_true hnil ⟨19 - n, Nat.le_refl _, hnil⟩⟩
    obtain ⟨r, hr, hcut, hiff⟩ := habove
    have hk : 19 - (n + 1) + 1 = 19 - n := by omega
    obtain ⟨q, hq, hcut', hiff'⟩ := halve_spec hcut.ok (k := 19 - (n + 1)) (by omega)
      (by rw [hcut.low _ (by omega)]; exact hempty)
    refine ⟨q, ?_, ⟨hcut'.ok, hcut.recut.trans hcut'.recut, hcut'.size.trans hcut.size,
      fun j hj => (hcut'.low j hj).trans (hcut.low j (by omega))⟩, ?_⟩
    · unfold split
      dsimp only
      rw [show 32 - (n + 1) - 12 = 19 - n by omega, hr,
        show 32 - (n + 1) = 19 - (n + 1) + 13 by omega]
      exact hq
    · rw [hiff', hk, hiff, show 20 - (n + 1) = 19 - n by omega]

/-! ## Handing out a page -/

theorem mem_spans (h : Ok A p) {s : Span} : s ∈ spans A p ↔ ∃ i, ∃ fp ∈ p.fpages i, span A fp = s := by
  unfold spans
  rw [List.mem_flatMap]
  constructor
  · rintro ⟨i, -, hs⟩
    exact ⟨i, List.mem_map.mp hs⟩
  · rintro ⟨i, fp, hfp, hs⟩
    have hmax := (h.page i fp hfp).max
    exact ⟨i, List.mem_range.mpr (by omega), List.mem_map.mpr ⟨fp, hfp, hs⟩⟩

/-- A page of at least `2 ^ (i + 12)` bytes stands in the list of this size or of a larger one. -/
theorem exists_large (h : Ok A p) :
    (∃ s ∈ spans A p, 2 ^ (i + 12) ≤ s.size) ↔ ∃ j, i ≤ j ∧ p.fpages j ≠ [] := by
  constructor
  · rintro ⟨s, hs, hle⟩
    obtain ⟨j, fp, hfp, rfl⟩ := (mem_spans h).mp hs
    rw [(h.page j fp hfp).span_eq] at hle
    have hij := (Nat.pow_le_pow_iff_right (by decide)).mp hle
    exact ⟨j, by omega, List.ne_nil_of_mem hfp⟩
  · rintro ⟨j, hij, hne⟩
    obtain ⟨fp, hfp⟩ := List.exists_mem_of_ne_nil _ hne
    refine ⟨span A fp, (mem_spans h).mpr ⟨j, fp, hfp, rfl⟩, ?_⟩
    rw [(h.page j fp hfp).span_eq]
    exact Nat.pow_le_pow_right (by decide) (by omega)

/-- The sizes of pages. -/
def PageSize (sz : Nat) : Prop := ∃ k, 12 ≤ k ∧ k ≤ 31 ∧ sz = 2 ^ k

theorem pageSize_iff {sz : Nat} : PageSize sz ↔ 12 ≤ lgsz sz ∧ lgsz sz ≤ 31 := by
  constructor
  · rintro ⟨k, h12, h31, rfl⟩
    have hlg : lgsz (2 ^ k) = k := by
      unfold lgsz
      rw [Nat.log2_two_pow, if_pos rfl]
    rw [hlg]
    exact ⟨h12, h31⟩
  · rintro ⟨h12, h31⟩
    refine ⟨lgsz sz, h12, h31, ?_⟩
    unfold lgsz at h12 ⊢
    split_ifs at h12 ⊢ with hpow
    · exact hpow
    · omega

theorem eq_two_pow_lgsz {sz : Nat} (h : 12 ≤ lgsz sz) : sz = 2 ^ lgsz sz := by
  unfold lgsz at h ⊢
  split_ifs at h ⊢ with hpow
  · exact hpow
  · omega

/-- The list of a size after `split` was called for it if it was empty. -/
theorem ready_spec {lg : Nat} (h : Ok A p) (h12 : 12 ≤ lg) (h31 : lg ≤ 31) :
    ∃ r, (if p.fpages (lg - 12) = [] then split A (32 - (lg + 1)) p else pure p) = Except.ok r ∧
      Cut A (lg - 12) p r ∧ (r.fpages (lg - 12) ≠ [] ↔ ∃ s ∈ spans A p, 2 ^ lg ≤ s.size) := by
  have hlarge := exists_large (i := lg - 12) h
  rw [Nat.sub_add_cancel h12] at hlarge
  by_cases hnil : p.fpages (lg - 12) = []
  · obtain ⟨r, hr, hcut, hiff⟩ := split_spec (n := 32 - (lg + 1)) (by omega) h
      (by rw [show 19 - (32 - (lg + 1)) = lg - 12 by omega]; exact hnil)
    rw [show 19 - (32 - (lg + 1)) = lg - 12 by omega] at hcut hiff
    rw [if_pos hnil, hlarge]
    refine ⟨r, hr, hcut, hiff.trans ⟨?_, ?_⟩⟩
    · rintro ⟨j, hj, hne⟩
      exact ⟨j, by omega, hne⟩
    · rintro ⟨j, hj, hne⟩
      refine ⟨j, ?_, hne⟩
      by_contra hlt
      exact hne (show j = lg - 12 by omega ▸ hnil)
  · rw [if_neg hnil, hlarge]
    exact ⟨p, rfl, .refl h, iff_of_true hnil ⟨lg - 12, Nat.le_refl _, hnil⟩⟩

/-- The recorded size is the sum of the pages, as a word. -/
def Sized (A : Arch) (p : PagePool) : Prop := p.sizeBytes = Span.total (spans A p) % 2 ^ A.wordBits

/-- What `alloc` gives: nil, with the memory of the pool cut anew, or a page taken out of it. -/
structure Given (A : Arch) (p : PagePool) (sz fp : Nat) (q : PagePool) : Prop where
  ok : Ok A q
  sized : Sized A q
  nil : fp = Fpage.nil → Span.Recut (spans A p) (spans A q)
  page : fp ≠ Fpage.nil → Page A (lgsz sz) fp ∧ Fpage.size A fp = sz ∧
    Span.Recut (spans A p) (span A fp :: spans A q)

theorem sub_size {x s t : Nat} (hx : x = (s + t) % 2 ^ A.wordBits) (hs : s ≤ 2 ^ A.wordBits) :
    A.sub x s = t % 2 ^ A.wordBits := by
  have hw : A.wordBits = 32 ∨ A.wordBits = 64 := by cases A <;> decide
  unfold Arch.sub
  rcases hw with hw | hw <;> rw [hw] at hx hs ⊢ <;> omega

/-- **`alloc`** never stops.  It gives a page of the size asked for when, and only when, there is a page at
least as large, unless the comparison of the sizes goes wrong. -/
theorem alloc_given (sz : Nat) (h : Ok A p) (hsized : Sized A p) :
    ∃ q fp, p.alloc A sz = .ok (q, fp) ∧ Given A p sz fp q ∧
      (Span.total (spans A p) < 2 ^ A.wordBits → A.wordBits = 32 ∨ sz ≠ 2 ^ 31 →
        (fp ≠ Fpage.nil ↔ PageSize sz ∧ ∃ s ∈ spans A p, sz ≤ s.size)) := by
  have hnone : Given A p sz Fpage.nil p :=
    ⟨h, hsized, fun _ => .refl _, fun hne => absurd rfl hne⟩
  unfold alloc
  dsimp only
  by_cases hout : lgsz sz < 12 ∨ 31 < lgsz sz ∨ p.sizeBytes < required A (lgsz sz)
  · rw [if_pos hout]
    refine ⟨p, Fpage.nil, rfl, hnone, fun htotal hsz => iff_of_false (fun hne => hne rfl) ?_⟩
    rintro ⟨hpage, s, hs, hle⟩
    obtain ⟨h12, h31⟩ := pageSize_iff.mp hpage
    have hpow := eq_two_pow_lgsz h12
    rcases hout with hlow | hhigh | hsmall
    · omega
    · omega
    · -- the sum of the pages is at least as large as one of them
      have hreq : required A (lgsz sz) = sz := by
        unfold required
        by_cases h31' : lgsz sz = 31
        · rw [if_pos h31']
          rw [h31'] at hpow
          rcases hsz with hw | hne
          · rw [hw, hpow]
            rfl
          · exact absurd hpow hne
        · rw [if_neg h31', ← hpow]
      have hsum := Span.size_le_total hs
      rw [hreq, hsized, Nat.mod_eq_of_lt htotal] at hsmall
      omega
  · obtain ⟨h12, hout⟩ := not_or.mp hout
    obtain ⟨h31, -⟩ := not_or.mp hout
    have h12 := Nat.le_of_not_lt h12
    have h31 := Nat.le_of_not_lt h31
    have hpow := eq_two_pow_lgsz h12
    have hsize : PageSize sz := pageSize_iff.mpr ⟨h12, h31⟩
    rw [if_neg (not_or.mpr ⟨Nat.not_lt.mpr h12, hout⟩)]
    obtain ⟨r, hr, hcut, hiff⟩ := ready_spec h h12 h31
    rw [← hpow] at hiff
    have hrsized : Sized A r := by
      unfold Sized
      rw [hcut.size, hsized, hcut.recut.total_eq]
    cases hl : r.fpages (lgsz sz - 12) with
    | nil =>
      refine ⟨r, Fpage.nil, bind_eq_ok.mpr ⟨r, hr, ?_⟩, ⟨hcut.ok, hrsized, fun _ => hcut.recut, fun hne => absurd rfl hne⟩,
        fun _ _ => iff_of_false (fun hne => hne rfl) ?_⟩
      · rw [hl]
        rfl
      · rintro ⟨-, hex⟩
        exact hiff.mpr hex hl
    | cons fp rest =>
      have hpage : Page A (lgsz sz) fp := by
        have hin := hcut.ok.page _ fp (by rw [hl]; exact List.mem_cons_self)
        rwa [Nat.sub_add_cancel h12] at hin
      have htake := spans_take (A := A) (A.sub r.sizeBytes (Fpage.size A fp))
        (show lgsz sz - 12 < 20 by omega) hl
      refine ⟨⟨Function.update r.fpages (lgsz sz - 12) rest, A.sub r.sizeBytes (Fpage.size A fp)⟩, fp,
        bind_eq_ok.mpr ⟨r, hr, ?_⟩, ⟨hcut.ok.update fun fp' hfp' => hcut.ok.page _ fp' (by rw [hl]; exact List.mem_cons_of_mem _ hfp'),
          ?_, fun hnil => absurd hnil hpage.ne_nil,
          fun _ => ⟨hpage, hpage.size_eq.trans hpow.symm, hcut.recut.trans (.of_perm htake)⟩⟩,
        fun _ _ => iff_of_true hpage.ne_nil ⟨hsize, hiff.mp (by rw [hl]; exact List.cons_ne_nil _ _)⟩⟩
      · rw [hl]
        rfl
      · refine sub_size ?_ ?_
        · rw [hrsized, Span.total_perm htake, Span.total_cons]
          rfl
        · rw [hpage.size_eq]
          exact Nat.pow_le_pow_right (by decide) (Fpage.lt_wordBits h31).le

/-! ## Runs -/

/-- The calls of the pool. -/
inductive Op where
  | add (fp : Nat)
  | alloc (sz : Nat)
  deriving DecidableEq, Repr

/-- The pool, the pages it handed out, and the memory that was added to it. -/
structure History where
  pool : PagePool
  granted : List Span
  added : List Span

/-- A call; a page that is handed out is noted. -/
def step (A : Arch) (s : History) : Op → Except Stop History
  | .add fp => do
    let p ← s.pool.add A fp
    pure { s with pool := p, added := span A fp :: s.added }
  | .alloc sz => do
    let r ← s.pool.alloc A sz
    pure
      { s with
        pool := r.1
        granted := if r.2 = Fpage.nil then s.granted else span A r.2 :: s.granted }

/-- The pool before the first call. -/
def History.start : History := ⟨empty, [], []⟩

/-- What is added is a naturally aligned page, apart from all that was added before. -/
def Fresh (A : Arch) (s : History) : Op → Prop
  | .add fp => fp < 2 ^ A.wordBits ∧ Fpage.size A fp ∣ Fpage.addr A fp ∧
      Disjoint (span A fp).points (Span.union s.added)
  | .alloc _ => True

/-- The pages of the pool and those handed out are apart, and cover what was added. -/
structure History.Conserved (A : Arch) (s : History) : Prop where
  apart : Span.Apart (s.granted ++ spans A s.pool)
  union_eq : Span.union (s.granted ++ spans A s.pool) = Span.union s.added
  sized : Sized A s.pool

/-- **A call keeps the memory.** -/
theorem step_conserved {s s' : History} {op : Op} (hok : Ok A s.pool) (h : s.Conserved A)
    (hfresh : Fresh A s op) (hstep : step A s op = .ok s') : Ok A s'.pool ∧ s'.Conserved A := by
  cases op with
  | add fp =>
    obtain ⟨hword, hdvd, hdisjoint⟩ := hfresh
    obtain ⟨p, hp, hstep⟩ := bind_eq_ok.mp hstep
    obtain rfl := Except.ok.inj hstep
    obtain ⟨h12, hp⟩ := ensure_bind_eq_ok.mp hp
    obtain ⟨h31, hp⟩ := ensure_bind_eq_ok.mp hp
    obtain ⟨r, hr, hp⟩ := bind_eq_ok.mp hp
    obtain rfl := Except.ok.inj hp
    obtain ⟨-, hr⟩ := ensure_bind_eq_ok.mp hr
    obtain rfl := Except.ok.inj hr
    have hsize : Fpage.size A fp = 2 ^ Fpage.log2sz fp := by
      unfold Fpage.size Fpage.shiftOne
      rw [if_pos (Fpage.lt_wordBits h31)]
    have hpage : Page A (Fpage.log2sz fp) fp := ⟨hword, rfl, h12, h31, hsize ▸ hdvd⟩
    have hperm := spans_append (A := A) (p := s.pool) (i := Fpage.log2sz fp - 12)
      (A.add s.pool.sizeBytes (Fpage.size A fp)) fp (by omega)
    have hall := (hperm.append_left s.granted).trans List.perm_middle
    refine ⟨hok.update fun fp' hfp' => ?_, ⟨?_, ?_, ?_⟩⟩
    · rw [Nat.sub_add_cancel h12]
      rcases List.mem_append.mp hfp' with hin | hin
      · have hold := hok.page _ fp' hin
        rwa [Nat.sub_add_cancel h12] at hold
      · rwa [List.mem_singleton.mp hin]
    · exact (Span.apart_perm hall).mpr (Span.apart_cons.mpr ⟨h.union_eq ▸ hdisjoint, h.apart⟩)
    · refine (Span.union_perm hall).trans ?_
      rw [Span.union_cons, h.union_eq, Span.union_cons]
    · unfold Sized
      rw [Span.total_perm hperm, Span.total_cons]
      show (s.pool.sizeBytes + Fpage.size A fp) % 2 ^ A.wordBits = _
      rw [h.sized, Nat.mod_add_mod, Nat.add_comm]
      rfl
  | alloc sz =>
    obtain ⟨q, fp, halloc, hgiven, -⟩ := alloc_given sz hok h.sized
    obtain ⟨r, hr, hstep⟩ := bind_eq_ok.mp hstep
    obtain rfl := Except.ok.inj (halloc.symm.trans hr)
    obtain rfl := Except.ok.inj hstep
    refine ⟨hgiven.ok, ?_⟩
    by_cases hnil : fp = Fpage.nil
    · have hrecut := hgiven.nil hnil
      dsimp only
      rw [if_pos hnil]
      refine ⟨hrecut.apart_append h.apart, ?_, hgiven.sized⟩
      rw [← h.union_eq, Span.union_append, Span.union_append, hrecut.union_eq]
    · obtain ⟨-, -, hrecut⟩ := hgiven.page hnil
      dsimp only
      rw [if_neg hnil]
      have hmove : (span A fp :: s.granted ++ spans A q).Perm (s.granted ++ span A fp :: spans A q) :=
        List.perm_middle.symm
      refine ⟨(Span.apart_perm hmove).mpr (hrecut.apart_append h.apart), ?_, hgiven.sized⟩
      rw [Span.union_perm hmove, ← h.union_eq, Span.union_append, Span.union_append, hrecut.union_eq]

theorem start_conserved (A : Arch) : Ok A History.start.pool ∧ History.start.Conserved A := by
  have hspans : spans A empty = [] := by
    unfold spans
    rw [List.flatMap_eq_nil_iff]
    exact fun _ _ => rfl
  refine ⟨⟨fun i fp hfp => absurd hfp List.not_mem_nil⟩, ?_, ?_, ?_⟩
  · show Span.Apart ([] ++ spans A empty)
    rw [hspans]
    exact List.Pairwise.nil
  · show Span.union ([] ++ spans A empty) = _
    rw [hspans]
    rfl
  · show 0 = Span.total (spans A empty) % 2 ^ A.wordBits
    rw [hspans]
    rfl

/-- What `alloc` answers in a state: a page of the size asked for, aligned to it, when there is a page at
least as large and the size is that of a page, and nil otherwise. -/
def Serves (A : Arch) (p : PagePool) (sz : Nat) : Prop :=
  ∃ q fp, p.alloc A sz = .ok (q, fp) ∧
    (fp ≠ Fpage.nil ↔ PageSize sz ∧ ∃ s ∈ spans A p, sz ≤ s.size) ∧
    (fp ≠ Fpage.nil → Fpage.size A fp = sz ∧ sz ∣ Fpage.addr A fp)

/-- **The page pool** conserves the memory in every run, and serves every request as long as the sizes it
compares are in range. -/
theorem pagePool_conserved {ops : List Op} {s : History} (hfresh : Meets (step A) (Fresh A) .start ops)
    (hrun : runAll (step A) .start ops = .ok s) :
    s.Conserved A ∧ ∀ sz, Span.total (spans A s.pool) < 2 ^ A.wordBits →
      A.wordBits = 32 ∨ sz ≠ 2 ^ 31 → Serves A s.pool sz := by
  obtain ⟨hok, hcons⟩ := runAll_invariant (I := fun s : History => Ok A s.pool ∧ s.Conserved A)
    (fun s op s' hs hf hstep => step_conserved hs.1 hs.2 hf hstep) (start_conserved A) hfresh hrun
  refine ⟨hcons, fun sz htotal hsz => ?_⟩
  obtain ⟨q, fp, halloc, hgiven, hiff⟩ := alloc_given sz hok hcons.sized
  refine ⟨q, fp, halloc, hiff htotal hsz, fun hne => ?_⟩
  obtain ⟨hpage, hsize, -⟩ := hgiven.page hne
  exact ⟨hsize, hsize ▸ hpage.size_eq ▸ hpage.aligned⟩

/-- A page of 64 kilobytes is added, and one of four taken out of it. -/
def oneTaken : List Op := [.add (Fpage.create .x86 0x100000 0x10000 7), .alloc 0x1000]

theorem oneTaken_fresh : Meets (step .x86) (Fresh .x86) .start oneTaken := by
  refine ⟨⟨by decide, by decide, ?_⟩, fun s' _ => ⟨trivial, fun s'' _ => trivial⟩⟩
  show Disjoint _ (Span.union [])
  rw [Span.union_nil]
  exact Set.disjoint_empty _

theorem oneTaken_conserved : ∃ s, runAll (step .x86) .start oneTaken = .ok s ∧ s.Conserved .x86 ∧
    Serves .x86 s.pool 0x8000 := by
  have hrun : (runAll (step .x86) .start oneTaken).map
      (fun s => decide (Span.total (spans .x86 s.pool) < 2 ^ 32)) = .ok true := by decide +kernel
  obtain ⟨s, hs, htotal⟩ := map_eq_ok hrun
  obtain ⟨hcons, hserves⟩ := pagePool_conserved oneTaken_fresh hs
  exact ⟨s, hs, hcons, hserves 0x8000 (of_decide_eq_true htotal) (.inl rfl)⟩

/-- A request that is no power of two gets no page, though there is one as large. -/
theorem threePages_refused : ∃ s, Meets (step .x86) (Fresh .x86) .start oneTaken ∧
    runAll (step .x86) .start oneTaken = .ok s ∧
    ¬ ∃ q fp, s.pool.alloc .x86 0x3000 = .ok (q, fp) ∧
      (fp ≠ Fpage.nil ↔ ∃ t ∈ spans .x86 s.pool, 0x3000 ≤ t.size) := by
  have hrun : (runAll (step .x86) .start oneTaken).map
      (fun s => (spans .x86 s.pool).any fun t => decide (0x3000 ≤ t.size)) = .ok true := by decide +kernel
  obtain ⟨s, hs, hlarge⟩ := map_eq_ok hrun
  refine ⟨s, oneTaken_fresh, hs, ?_⟩
  rintro ⟨q, fp, halloc, hiff⟩
  have hnone : s.pool.alloc .x86 0x3000 = .ok (s.pool, Fpage.nil) := by
    unfold alloc
    exact if_pos (.inl (by decide))
  obtain ⟨rfl, rfl⟩ := Prod.mk.inj (Except.ok.inj (hnone.symm.trans halloc))
  obtain ⟨t, ht, hle⟩ := List.any_eq_true.mp hlarge
  exact hiff.mpr ⟨t, ht, of_decide_eq_true hle⟩ rfl

end PagePool

end Wrmos
