import Wrmos.PtableWalk

/-!
# What `Ptable::walk` reads back after `Ptable::map`

`Ptable::map` records a block at the topmost level at which it is whole (`windowLevel`), and looks only
at the virtual address and the size for that.  The record has a field of its own width for the physical
address, and `mmu_get_map_pa` reads it back through an `int` on arm and x86.  `ReadsBack` are the
addresses that survive both at a level, and `BlockReadsBack` says so for the block around an offset of
a range.

`mapTb_walk_iff` is the result: walking each page of the mapped range gives its offset into the physical
range if and only if every block of the range is read back.
-/

namespace Wrmos

open Lib

/-! ## Single records -/

/-- How `mmu_get_map_pa` reads an address field. -/
def mmuReadField : Arch → Nat → Nat → Nat
  | .sparc, _, addr => addr % 2 ^ 32
  | .arm, _, addr => sext32 addr
  | .x86, level, addr =>
    if level = 1 then orHigh (addr / 2 ^ 32) (addr % 2 ^ 32) else sext32 addr
  | .x86_64, level, addr =>
    if level = 2 then sext32 (addr % 2 ^ 32)
    else if level = 3 then orHigh (addr / 2 ^ 32) (addr % 2 ^ 32)
    else addr

/-- The addresses that a record of the level holds and the kernel reads back. -/
def ReadsBack : Arch → Nat → Nat → Prop
  | .sparc, _, p => p < 2 ^ 32
  | .arm, _, p => p < 2 ^ 31 ∨ 2 ^ 64 - 2 ^ 31 ≤ p
  | .x86, level, p =>
    if level = 1 then p < 2 ^ 36 ∧ p / 2 ^ 31 % 2 = 0 ∨ 2 ^ 64 - 2 ^ 31 ≤ p
    else p < 2 ^ 31 ∨ 2 ^ 64 - 2 ^ 31 ≤ p
  | .x86_64, level, p =>
    if level = 1 then False
    else if level = 2 then p = 0
    else if level = 3 then p < 2 ^ 52 ∧ p / 2 ^ 31 % 2 = 0 ∨ 2 ^ 64 - 2 ^ 31 ≤ p
    else p < 2 ^ 52

/-- The block that begins at offset `x` of a range is read back: its physical address is, and on x86,
whose large pages keep four bits above bit 31, the block does not lie beyond the address `0`. -/
def BlockReadsBack (A : Arch) (level va pa x : Nat) : Prop :=
  ReadsBack A level (padd pa x) ∧
    (A = .x86 → level = 1 → va + x < 2 ^ 32 ∨ 2 ^ 64 - 2 ^ 31 ≤ padd pa x)

/-- `mmu_get_map_pa` reads the address field. -/
theorem mmuGetMapPa_eq (A : Arch) (level w : Nat) :
    mmuGetMapPa A level w = mmuReadField A level (mmuAddrField A level w) := by
  -- a part below bit 32 and a part above it are told apart
  have hsplit : ∀ hi lo : Nat, lo < 2 ^ 32 →
      (hi * 2 ^ 32 + lo) / 2 ^ 32 = hi ∧ (hi * 2 ^ 32 + lo) % 2 ^ 32 = lo := by omega
  cases A with
  | sparc => rfl
  | arm =>
    simp only [mmuGetMapPa, mmuReadField, mmuAddrField]
    split_ifs <;> rfl
  | x86 =>
    simp only [mmuGetMapPa, mmuReadField, mmuAddrField]
    split_ifs
    · have hlo : bits w 22 10 * 2 ^ 22 < 2 ^ 32 := by
        have := bits_lt w 22 10
        omega
      obtain ⟨hdiv, hmod⟩ := hsplit (bits w 13 4) _ hlo
      rw [hdiv, hmod]
    · rfl
  | x86_64 =>
    simp only [mmuGetMapPa, mmuReadField, mmuAddrField]
    split_ifs
    · rfl
    · have hlo : bits w 21 11 * 2 ^ 21 < 2 ^ 32 := by
        have := bits_lt w 21 11
        omega
      obtain ⟨hdiv, hmod⟩ := hsplit (bits w 32 20) _ hlo
      rw [hdiv, hmod]
    · rfl

/-- What the kernel reads back from a record that `mmu_set_map` stored. -/
theorem mmuGetMapPa_setMap {A : Arch} {level p acc cachable w : Nat}
    (h : mmuSetMap A level p acc cachable = .ok (some w)) :
    p % mmuMapAlign A level = 0 ∧
      mmuGetMapPa A level w = mmuReadField A level (mmuHeldAddr A level p) := by
  rcases mmuSetMap_eq_ok.mp h with ⟨-, hal, hacc, hc, hw⟩ | ⟨-, hw⟩
  · rw [mmuGetMapPa_eq, mmuAddrField_mapWord hacc hc hw.symm]
    exact ⟨hal, rfl⟩
  · cases hw

/-- The physical address handed to the record of a block: it falls behind by `2 ^ 32` when a 32-bit
virtual address comes round. -/
theorem paddrAt_cases {A : Arch} {va x : Nat} (pa : Nat) (hva : va < 2 ^ A.wordBits)
    (hx : x < 2 ^ A.wordBits) :
    va + x < 2 ^ A.wordBits ∧ paddrAt pa (A.add va x) va = padd pa x ∨
      2 ^ A.wordBits ≤ va + x ∧
        paddrAt pa (A.add va x) va = (padd pa x + (2 ^ 64 - 2 ^ A.wordBits)) % 2 ^ 64 := by
  unfold paddrAt Arch.add padd
  by_cases hlt : va + x < 2 ^ A.wordBits
  · refine .inl ⟨hlt, ?_⟩
    cases A <;> simp only [Arch.wordBits] at * <;> omega
  · refine .inr ⟨Nat.le_of_not_lt hlt, ?_⟩
    cases A <;> simp only [Arch.wordBits] at * <;> omega

/-- **What is read back of a block.** -/
theorem readField_iff {A : Arch} {level va pa x : Nat} (hva : va < 2 ^ A.wordBits)
    (hx : x < 2 ^ A.wordBits) (hmap : mmuHasMap A level = true)
    (hal : paddrAt pa (A.add va x) va % mmuMapAlign A level = 0) :
    mmuReadField A level (mmuHeldAddr A level (paddrAt pa (A.add va x) va)) = padd pa x ↔
      BlockReadsBack A level va pa x := by
  have hlt : padd pa x < 2 ^ 64 := Nat.mod_lt _ (Nat.two_pow_pos _)
  have hp := paddrAt_cases pa hva hx
  unfold BlockReadsBack
  generalize paddrAt pa (A.add va x) va = p at hp hal ⊢
  generalize padd pa x = q at hp hlt ⊢
  cases A with
  | sparc =>
    simp only [Arch.wordBits] at hp
    simp only [mmuMapAlign] at hal
    simp only [mmuReadField, mmuHeldAddr, ReadsBack, reduceCtorEq, false_imp_iff, and_true]
    omega
  | arm =>
    simp only [Arch.wordBits] at hp
    simp only [mmuMapAlign] at hal
    simp only [mmuReadField, mmuHeldAddr, ReadsBack, reduceCtorEq, false_imp_iff, and_true, sext32]
    by_cases h1 : level = 1
    · simp only [if_pos h1] at hal ⊢
      split_ifs <;> omega
    · simp only [if_neg h1] at hal ⊢
      split_ifs <;> omega
  | x86 =>
    simp only [Arch.wordBits] at hp
    simp only [mmuMapAlign] at hal
    simp only [mmuReadField, mmuHeldAddr, ReadsBack, true_imp_iff, sext32, orHigh]
    by_cases h1 : level = 1
    · simp only [if_pos h1] at hal ⊢
      split_ifs <;> omega
    · simp only [if_neg h1] at hal ⊢
      split_ifs <;> omega
  | x86_64 =>
    simp only [Arch.wordBits] at hp
    simp only [mmuMapAlign] at hal
    simp only [mmuHasMap, bne_iff_ne, ne_eq] at hmap
    simp only [mmuReadField, mmuHeldAddr, ReadsBack, reduceCtorEq, false_imp_iff, and_true, sext32,
      orHigh, if_neg hmap]
    by_cases h2 : level = 2
    · simp only [if_pos h2] at hal ⊢
      split_ifs <;> omega
    · simp only [if_neg h2] at hal ⊢
      by_cases h3 : level = 3
      · simp only [if_pos h3] at hal ⊢
        split_ifs <;> omega
      · simp only [if_neg h3] at hal ⊢
        omega

namespace Arch

variable {A : Arch}

/-! ## A whole range -/

section WindowLevel

variable {va pa size o rest d : Nat} {l m : PtLevel} {ls : List PtLevel}

theorem whole_of_windowLevel (h : windowLevel va size ls d = some l) : l ∈ ls ∧ Whole l va size d := by
  induction ls with
  | nil => cases h
  | cons m ls ih =>
    rw [windowLevel] at h
    split_ifs at h with hw
    · obtain rfl := Option.some.inj h
      exact ⟨List.mem_cons_self, hw⟩
    · exact ⟨List.mem_cons_of_mem m (ih h).1, (ih h).2⟩

/-- The part of the range in a block that it does not fill is recorded at the levels of a range of its
own. -/
theorem windowLevel_sub (hl : l.low ≤ A.vaBits) (hsz : o + rest = size)
    (ho : o = 0 ∨ (va + o) % l.pageSz = 0)
    (hd : d < min rest (l.pageSz - A.add va o % l.pageSz)) (hls : ∀ m ∈ ls, m.low ≤ l.low) :
    windowLevel va size ls (o + d) =
      windowLevel (A.add va o) (min rest (l.pageSz - A.add va o % l.pageSz)) ls d := by
  induction ls with
  | nil => rfl
  | cons m ls ih =>
    have hwhole := whole_sub (hls m List.mem_cons_self) hl hsz ho hd
    rw [windowLevel, windowLevel, ih fun n hn => hls n (List.mem_cons_of_mem m hn)]
    by_cases hw : Whole m va size (o + d)
    · rw [if_pos hw, if_pos (hwhole.mp hw)]
    · rw [if_neg hw, if_neg (fun h => hw (hwhole.mpr h))]

/-- The offset at which the block around an offset begins. -/
def blockStart (l : PtLevel) (va d : Nat) : Nat := d - (va + d) % l.pageSz

/-- The checks of `mmu_set_map` held for the record of every block. -/
def Checked (A : Arch) (acc cachable : Nat) (ls : List PtLevel) (va pa size o : Nat) : Prop :=
  ∀ d < o, ∀ l, windowLevel va size ls d = some l →
    ∃ w, mmuSetMap A l.level (paddrAt pa (A.add va (blockStart l va d)) va) acc cachable = .ok w

/-- The checks of a part of the range, from the offset `o` on, are those of the range. -/
theorem Checked.sub {acc cachable len : Nat} (h : A.Checked acc cachable ls (A.add va o)
      (paddrAt pa (A.add va o) va) len len) (hml : m.low ≤ l.low) (hl : l.low ≤ A.vaBits)
    (hd : d < len) (hm : windowLevel (A.add va o) len ls d = some m) :
    ∃ w, mmuSetMap A m.level (paddrAt pa (A.add va (blockStart m va (o + d))) va) acc cachable =
      .ok w := by
  obtain ⟨-, hw⟩ := whole_of_windowLevel hm
  have hr : (A.add va o + d) % m.pageSz = (va + (o + d)) % m.pageSz := by
    rw [Nat.add_mod, add_mod (hml.trans hl), ← Nat.add_mod, Nat.add_assoc]
  have hle : (va + (o + d)) % m.pageSz ≤ d := hr ▸ hw.1
  obtain ⟨w, hset⟩ := h d hd m hm
  rw [blockStart, hr, add_add, paddrAt_paddrAt (A.add_lt_two_pow va o).le] at hset
  refine ⟨w, ?_⟩
  rw [blockStart, show o + d - (va + (o + d)) % m.pageSz = o + (d - (va + (o + d)) % m.pageSz)
    by omega]
  exact hset

/-- **`Ptable::map` checks every record it stores.** -/
theorem mapTb_checked {acc cachable : Nat} {allow : Bool} :
    ∀ {ls : List PtLevel} {c c' : Cells} {va pa size : Nat}, PtChain A.vaBits ls →
      va < 2 ^ A.wordBits → A.mapTb acc cachable allow ls c va pa size = .ok c' →
      A.Checked acc cachable ls va pa size size := by
  intro ls
  induction ls with
  | nil => intro c c' va pa size _ _ h; cases h
  | cons l ls ih =>
    intro c c' va pa size hc hva h
    obtain ⟨-, -, -, -, -, -, hloop⟩ := mapTb_cons_ok h
    have hl : l.low ≤ A.vaBits := hc.low_le_hi.trans hc.hi_lt.le
    let Inv : Cells → Nat → Nat → Prop := fun _ cur rest =>
      ∃ o, o + rest = size ∧ cur = A.add va o ∧ (o = 0 ∨ (va + o) % l.pageSz = 0 ∨ rest = 0) ∧
        A.Checked acc cachable (l :: ls) va pa size o
    have hstep : ∀ s cur rest s' len, Inv s cur rest → rest ≠ 0 →
        A.mapStep l ls.head? (A.mapTb acc cachable allow ls) va pa acc cachable allow s cur rest =
          .ok (s', len) → Inv s' (A.add cur len) (rest - len) := by
      rintro s cur rest s' len ⟨o, ho, rfl, hbound, hI⟩ hrest hs
      have hb : o = 0 ∨ (va + o) % l.pageSz = 0 := by tauto
      -- the offsets seen so far, and those of this round
      have hnext : (∀ d < len, ∀ m, windowLevel va size (l :: ls) (o + d) = some m →
          ∃ w, mmuSetMap A m.level (paddrAt pa (A.add va (blockStart m va (o + d))) va) acc cachable =
            .ok w) → A.Checked acc cachable (l :: ls) va pa size (o + len) := by
        intro hnew d hd m hm
        by_cases hdo : d < o
        · exact hI d hdo m hm
        · have := hnew (d - o) (by omega) m
          rw [show o + (d - o) = d by omega] at this
          exact this hm
      rcases mapStep_cases hs with ⟨hal, hle, -, rfl, w, hset, -⟩ | ⟨hnw, rfl, c₁, -, hchild⟩
      · refine ⟨o + l.pageSz, by omega, by rw [add_add], .inr (.inl ?_), hnext ?_⟩
        · rw [add_mod hl] at hal
          rw [← Nat.add_assoc, Nat.add_mod_right, hal]
        · intro d hd m hm
          rw [add_mod hl] at hal
          have hsum : (va + (o + d)) % l.pageSz = d := by
            rw [← Nat.add_assoc, Nat.add_mod, hal, Nat.zero_add, Nat.mod_mod, Nat.mod_eq_of_lt hd]
          have hw : Whole l va size (o + d) := by
            unfold Whole
            rw [hsum]
            omega
          rw [windowLevel, if_pos hw] at hm
          obtain rfl := Option.some.inj hm
          rw [blockStart, hsum, Nat.add_sub_cancel]
          exact ⟨w, hset⟩
      · set len := min rest (l.pageSz - A.add va o % l.pageSz) with hlendef
        refine ⟨o + len, by omega, by rw [add_add], ?_, hnext ?_⟩
        · by_cases hfin : rest ≤ l.pageSz - A.add va o % l.pageSz
          · exact .inr (.inr (by omega))
          · refine .inr (.inl ?_)
            have hlt := Nat.mod_lt (A.add va o) l.pageSz_pos
            rw [add_mod hl] at hlt hfin hlendef
            have hda := Nat.div_add_mod (va + o) l.pageSz
            rw [show va + (o + len) = l.pageSz * ((va + o) / l.pageSz + 1) by
              rw [Nat.mul_add, Nat.mul_one]; omega]
            exact Nat.mul_mod_right _ _
        · intro d hd m hm
          have hlow : ∀ n ∈ ls, n.low ≤ l.low := fun n hn => (hc.lt_of_mem hn).2.le
          rw [windowLevel, if_neg (not_whole_sub hl ho hb hnw hd), windowLevel_sub hl ho hb hd hlow] at hm
          exact (ih hc.tail (A.add_lt va o) hchild).sub (hlow m (whole_of_windowLevel hm).1) hl hd hm
    have hinit : Inv c va size :=
      ⟨0, by omega, by rw [add, Nat.add_zero, Nat.mod_eq_of_lt hva], .inl rfl,
        fun _ hd => absurd hd (Nat.not_lt_zero _)⟩
    obtain ⟨cur, o, ho, -, -, hI⟩ := rangeLoop_invariant hstep hinit hloop
    obtain rfl : o = size := by omega
    exact hI

end WindowLevel

/-! ## Walking one page -/

/-- A page lies in one block of every level. -/
theorem page_le_rest {l : PtLevel} {v : Nat} (hlow : 12 ≤ l.low) (hv : v % pageSz = 0) :
    pageSz ≤ l.pageSz - v % l.pageSz := by
  have hdvd := pageSz_dvd_pageSz hlow
  have hlt := Nat.mod_lt v l.pageSz_pos
  refine Nat.le_of_dvd (Nat.sub_pos_of_lt hlt) (Nat.dvd_sub hdvd ?_)
  exact Nat.dvd_of_mod_eq_zero (by rw [Nat.mod_mod_of_dvd _ hdvd, hv])

theorem checkRange_page {l : PtLevel} {ls : List PtLevel} {v : Nat} (hc : PtChain A.vaBits (l :: ls))
    (hv : v % pageSz = 0) : checkRange l v pageSz = .ok () := by
  have hhi : 12 ≤ l.hi + 1 := by
    have h1 := hc.twelve_le_low
    have h2 := hc.low_le_hi
    omega
  have hsz : pageSz ≤ l.aspaceSz := Nat.pow_le_pow_right Nat.two_pos hhi
  unfold checkRange
  rw [ensure_bind_of hv, ensure_bind_of (Nat.mod_self _)]
  exact ensure_eq_ok.mpr hsz

/-- **A mapped page is walked to what its record gives for it.** -/
theorem walkTb_page {c : Cells} {v w : Nat} {l : PtLevel} (hv : v % pageSz = 0) :
    ∀ {ls : List PtLevel}, PtChain A.vaBits ls → A.lookup ls c v = some (l, w) →
      A.walkTb c ls v pageSz = .ok (A.readPa l w v) := by
  intro ls
  induction ls with
  | nil => intro _ h; cases h
  | cons m ls ih =>
    intro hc h
    have hlen : min pageSz (m.pageSz - v % m.pageSz) = pageSz :=
      Nat.min_eq_left (page_le_rest hc.twelve_le_low hv)
    have hpage : pageSz ≠ 0 := by decide
    rw [walkTb, checkRange_page hc hv]
    dsimp only [bind, Except.bind]
    simp only [lookup] at h
    cases hcell : A.cellAt c m v with
    | inv =>
      rw [hcell] at h
      cases h
    | map w' =>
      rw [hcell] at h
      obtain ⟨rfl, rfl⟩ := Prod.mk.inj (Option.some.inj h)
      have hround : A.walkStep m (A.walkTb c ls) c 0 v pageSz = .ok (A.readPa m w' v, pageSz) := by
        simp only [walkStep, hcell, hlen, if_true, readPa]
      rw [rangeLoop_last hpage hround]
      rfl
    | dir =>
      rw [hcell] at h
      have hchild := ih hc.tail h
      cases hres : A.readPa l w v with
      | zero =>
        have hround : A.walkStep m (A.walkTb c ls) c 0 v pageSz = .error .notMapped := by
          simp only [walkStep, hcell, hlen, hchild, hres]
        rw [rangeLoop_stop hpage hround]
        rfl
      | succ n =>
        have hround : A.walkStep m (A.walkTb c ls) c 0 v pageSz = .ok (n + 1, pageSz) := by
          simp only [walkStep, hcell, hlen, hchild, hres, if_true]
        rw [rangeLoop_last hpage hround]
        rfl

/-- A whole number of pages is left, and then at least one. -/
theorem pageSz_le_rest {o rest size : Nat} (ho : o + rest = size) (hsize : size % pageSz = 0)
    (hop : o % pageSz = 0) (hrest : rest ≠ 0) : rest % pageSz = 0 ∧ pageSz ≤ rest := by
  have hdvd : pageSz ∣ rest := by
    rw [show rest = size - o by omega]
    exact Nat.dvd_sub (Nat.dvd_of_mod_eq_zero hsize) (Nat.dvd_of_mod_eq_zero hop)
  exact ⟨Nat.mod_eq_zero_of_dvd hdvd, Nat.le_of_dvd (Nat.pos_of_ne_zero hrest) hdvd⟩

/-- Every page of the range is mapped and walked to an address other than `0`. -/
def ReadsNonzero (A : Arch) (ls : List PtLevel) (c : Cells) (va size : Nat) : Prop :=
  ∀ d < size, d % pageSz = 0 →
    ∃ l w, A.lookup ls c (va + d) = some (l, w) ∧ A.readPa l w (va + d) ≠ 0

theorem readPa_canon {l : PtLevel} {w x y : Nat} (hl : l.low ≤ A.vaBits) (h : A.canon x = A.canon y) :
    A.readPa l w x = A.readPa l w y :=
  readPa_congr (by rw [← canon_mod hl x, h, canon_mod hl])

/-- The part of the range in the child table of a directory record. -/
theorem ReadsNonzero.child {l : PtLevel} {ls : List PtLevel} {c : Cells} {va size o len : Nat}
    (hc : PtChain A.vaBits (l :: ls)) (h : A.ReadsNonzero (l :: ls) c va size)
    (hdir : A.cellAt c l (A.add va o) = .dir) (hop : o % pageSz = 0) (ho : o + len ≤ size)
    (hlen : len ≤ l.pageSz - A.add va o % l.pageSz) : A.ReadsNonzero ls c (A.add va o) len := by
  have hl : l.low ≤ A.vaBits := hc.low_le_hi.trans hc.hi_lt.le
  intro d hd hdp
  obtain ⟨m, w, hlook, hne⟩ := h (o + d) (by omega) (by rw [Nat.add_mod, hop, hdp]; rfl)
  have hcanon : A.canon (va + (o + d)) = A.canon (A.add va o + d) := by
    rw [← Nat.add_assoc]
    exact (canon_add_right (A.canon_add va o) d).symm
  have hk : A.key l (A.add va o + d) = A.key l (A.add va o) := key_add hl (by omega)
  rw [lookup_congr hcanon, lookup_cons_of_dir (by rw [cellAt_congr hk, hdir])] at hlook
  have hm := (hc.lt_of_mem (lookup_mem hlook)).2.le.trans hl
  exact ⟨m, w, hlook, readPa_canon hm hcanon ▸ hne⟩

/-- The range is walked to the address of its first page when no page is walked to `0`. -/
theorem walkTb_of_reads {c : Cells} :
    ∀ {ls : List PtLevel} {va size : Nat}, PtChain A.vaBits ls → va < 2 ^ A.wordBits →
      va % pageSz = 0 → size % pageSz = 0 → 0 < size → (∀ l ∈ ls.head?, size ≤ l.aspaceSz) →
      A.ReadsNonzero ls c va size → ∀ {l : PtLevel} {w : Nat}, A.lookup ls c va = some (l, w) →
      A.walkTb c ls va size = .ok (A.readPa l w va) := by
  intro ls
  induction ls with
  | nil => intro va size _ _ _ _ _ _ _ l w h; cases h
  | cons m ls ih =>
    intro va size hc hva hvap hszp hpos hsz hreads l w hfirst
    have hm : m.low ≤ A.vaBits := hc.low_le_hi.trans hc.hi_lt.le
    have hPp : m.pageSz % pageSz = 0 :=
      Nat.mod_eq_zero_of_dvd (pageSz_dvd_pageSz hc.twelve_le_low)
    have hpage : 0 < pageSz := by decide
    -- a round reads the page it stands at, and takes whole pages
    have hround : ∀ x o rest, o + rest = size → o % pageSz = 0 → rest ≠ 0 →
        ∃ len, len % pageSz = 0 ∧ pageSz ≤ len ∧ len ≤ rest ∧
          ∀ n w', A.lookup (m :: ls) c (A.add va o) = some (n, w') →
            A.walkStep m (A.walkTb c ls) c x (A.add va o) rest =
              .ok (if x = 0 then A.readPa n w' (A.add va o) else x, len) := by
      intro x o rest ho hop hrest
      obtain ⟨hrp, hle⟩ := pageSz_le_rest ho hszp hop hrest
      have hcurp : A.add va o % pageSz = 0 := by
        have hdvd : pageSz ∣ 2 ^ A.wordBits :=
          Nat.pow_dvd_pow 2 (A.twelve_le_vaBits.trans A.vaBits_le_wordBits)
        rw [add, Nat.mod_mod_of_dvd _ hdvd, Nat.add_mod, hvap, hop]
        rfl
      have hblock := page_le_rest hc.twelve_le_low hcurp
      set len := min rest (m.pageSz - A.add va o % m.pageSz) with hlendef
      have hlenp : len % pageSz = 0 := by
        rcases Nat.le_total rest (m.pageSz - A.add va o % m.pageSz) with hmin | hmin
        · rw [hlendef, Nat.min_eq_left hmin, hrp]
        · rw [hlendef, Nat.min_eq_right hmin]
          refine Nat.mod_eq_zero_of_dvd (Nat.dvd_sub (Nat.dvd_of_mod_eq_zero hPp) ?_)
          exact Nat.dvd_of_mod_eq_zero
            (by rw [Nat.mod_mod_of_dvd _ (Nat.dvd_of_mod_eq_zero hPp), hcurp])
      refine ⟨len, hlenp, Nat.le_min.mpr ⟨hle, hblock⟩, Nat.min_le_left _ _, fun n w' hlook => ?_⟩
      have hcase := hlook
      simp only [lookup] at hcase
      cases hcell : A.cellAt c m (A.add va o) with
      | inv =>
        rw [hcell] at hcase
        cases hcase
      | map w'' =>
        rw [hcell] at hcase
        obtain ⟨rfl, rfl⟩ := Prod.mk.inj (Option.some.inj hcase)
        simp only [walkStep, hcell, ← hlendef, readPa]
      | dir =>
        rw [hcell] at hcase
        dsimp only at hcase
        have hsub := hreads.child hc hcell hop (by omega) (Nat.min_le_right rest _)
        have hfit : ∀ n ∈ ls.head?, len ≤ n.aspaceSz := by
          intro n hn
          cases ls with
          | nil => cases hn
          | cons n' ls =>
            obtain rfl := Option.some.inj hn
            have hblk : len ≤ m.pageSz := (Nat.min_le_right _ _).trans (Nat.sub_le _ _)
            rwa [PtLevel.aspaceSz, hc.2.1]
        have hchild := ih hc.tail (A.add_lt va o) hcurp hlenp (by omega) hfit hsub hcase
        obtain ⟨n', w'', hlook', hne⟩ := hsub 0 (by omega) rfl
        rw [Nat.add_zero, hcase] at hlook'
        obtain ⟨rfl, rfl⟩ := Prod.mk.inj (Option.some.inj hlook')
        obtain ⟨r, hr⟩ := Nat.exists_eq_succ_of_ne_zero hne
        rw [Nat.add_zero] at hr
        simp only [walkStep, hcell, ← hlendef, hchild, hr]
    -- an address once found stays
    have hrun : ∀ k x o rest, x ≠ 0 → o + rest = size → o % pageSz = 0 → rest ≤ k * pageSz →
        rangeLoop A.add (.stop .outOfRounds) (A.walkStep m (A.walkTb c ls) c) k x (A.add va o) rest =
          .ok x := by
      intro k
      induction k with
      | zero =>
        intro x o rest _ _ _ hle
        obtain rfl : rest = 0 := by omega
        exact rangeLoop_zero ..
      | succ k ihk =>
        intro x o rest hx ho hop hle
        by_cases hrest : rest = 0
        · subst hrest
          exact rangeLoop_zero ..
        obtain ⟨len, hlenp, hge, hlenle, hstep⟩ := hround x o rest ho hop hrest
        obtain ⟨n, w', hlook, -⟩ := hreads o (by omega) hop
        rw [rangeLoop_succ hrest, hstep n w' (by rw [lookup_congr (A.canon_add va o), hlook]), if_neg hx]
        rw [Nat.succ_mul] at hle
        have hnext := ihk x (o + len) (rest - len) hx (by omega)
          (by rw [Nat.add_mod, hop, hlenp]; rfl) (by omega)
        rwa [← add_add] at hnext
    obtain ⟨len, hlenp, hge, hlenle, hstep⟩ := hround 0 0 size (by omega) rfl (by omega)
    have hva0 : A.add va 0 = va := Nat.mod_eq_of_lt hva
    obtain ⟨n, w', hlook, hne⟩ := hreads 0 hpos rfl
    rw [Nat.add_zero] at hlook hne
    rw [hfirst] at hlook
    obtain ⟨rfl, rfl⟩ := Prod.mk.inj (Option.some.inj hlook)
    rw [hva0] at hstep
    have hloop : rangeLoop A.add (.stop .outOfRounds) (A.walkStep m (A.walkTb c ls) c)
        (size / pageSz + 1) 0 va size = .ok (A.readPa l w va) := by
      rw [rangeLoop_succ (by omega), hstep l w hfirst, if_pos rfl]
      have hsize := Nat.div_mul_cancel (Nat.dvd_of_mod_eq_zero hszp)
      have hnext := hrun (size / pageSz) _ len (size - len) hne (by omega) hlenp (by omega)
      exact hnext
    have hcheck : checkRange m va size = .ok () := by
      unfold checkRange
      rw [ensure_bind_of hvap, ensure_bind_of hszp]
      exact ensure_eq_ok.mpr (hsz m rfl)
    rw [walkTb, hcheck]
    dsimp only [bind, Except.bind]
    rw [hloop]
    rfl

/-! ## The whole range -/

/-- Every page of a range of whole pages has a level. -/
theorem exists_windowLevel {va size d : Nat} (hva : va % pageSz = 0) (hsize : size % pageSz = 0)
    (hd : d < size) : ∀ {l : PtLevel} {ls : List PtLevel}, PtChain A.vaBits (l :: ls) →
      ∃ m, windowLevel va size (l :: ls) d = some m := by
  intro l ls
  induction ls generalizing l with
  | nil =>
    intro hc
    have hP : l.pageSz = pageSz := by rw [PtLevel.pageSz, hc.1]; rfl
    have hw : Whole l va size d := by
      have hd' := Nat.div_add_mod d pageSz
      have hle : pageSz ≤ size - (d - d % pageSz) := by
        refine Nat.le_of_dvd (by omega) (Nat.dvd_sub (Nat.dvd_of_mod_eq_zero hsize) ?_)
        exact Nat.dvd_sub_mod d
      unfold Whole
      rw [hP, Nat.add_mod, hva, Nat.zero_add, Nat.mod_mod]
      omega
    exact ⟨l, by rw [windowLevel, if_pos hw]⟩
  | cons m ls ih =>
    intro hc
    rw [windowLevel]
    split_ifs
    · exact ⟨l, rfl⟩
    · exact ih hc.tail

theorem exists_level {va size d : Nat} (hva : va % pageSz = 0) (hsize : size % pageSz = 0)
    (hd : d < size) : ∃ m, windowLevel va size A.levels d = some m := by
  have hc := ptChain_levels A
  cases hls : A.levels with
  | nil => cases A <;> cases hls
  | cons l ls => exact exists_windowLevel hva hsize hd (hls ▸ hc)

/-- The checks of a call that does not stop. -/
theorem mapTb_checks {acc cachable : Nat} {allow : Bool} {ls : List PtLevel} {c c' : Cells}
    {va pa size : Nat} (hc : PtChain A.vaBits ls)
    (h : A.mapTb acc cachable allow ls c va pa size = .ok c') :
    va % pageSz = 0 ∧ size % pageSz = 0 ∧ size ≤ 2 ^ A.vaBits := by
  cases ls with
  | nil => cases h
  | cons l ls =>
    obtain ⟨hva, -, hsize, hsz, -⟩ := mapTb_cons_ok h
    exact ⟨hva, hsize, hsz.trans (Nat.pow_le_pow_right Nat.two_pos hc.hi_lt)⟩

theorem readField_lt (A : Arch) (level p : Nat) :
    mmuReadField A level (mmuHeldAddr A level p) < 2 ^ 64 := by
  cases A with
  | sparc =>
    simp only [mmuReadField, mmuHeldAddr]
    omega
  | arm =>
    simp only [mmuReadField, mmuHeldAddr, sext32]
    split_ifs <;> omega
  | x86 =>
    simp only [mmuReadField, mmuHeldAddr, sext32, orHigh]
    split_ifs <;> omega
  | x86_64 =>
    simp only [mmuReadField, mmuHeldAddr, sext32, orHigh]
    split_ifs <;> omega

/-- A page of a level with map records is translated by the checked record of its block. -/
theorem mapped_lookup {acc cachable : Nat} {ls : List PtLevel} {c c' : Cells} {va pa size d : Nat}
    {l : PtLevel} (hw : A.Writes ls va size (A.mapSpec acc cachable va pa size ls) c c')
    (hck : A.Checked acc cachable ls va pa size size) (hd : d < size)
    (hl : windowLevel va size ls d = some l) (hmap : mmuHasMap A l.level = true) :
    ∃ w, mmuSetMap A l.level (paddrAt pa (A.add va (blockStart l va d)) va) acc cachable =
        .ok (some w) ∧ A.lookup ls c' (va + d) = some (l, w) := by
  obtain ⟨r, hset⟩ := hck d hd l hl
  have hword := mmuSetMap_word hset
  cases r with
  | none =>
    rw [mmuMapWord_eq_none_iff.mp hword.symm] at hmap
    cases hmap
  | some w =>
    refine ⟨w, hset, ?_⟩
    rw [hw.inside d hd, mapSpec_windowLevel, hl]
    change (mmuMapWord A l.level (paddrAt pa (A.add va (blockStart l va d)) va) acc cachable).map
      (fun w => (l, w)) = _
    rw [← hword]
    rfl

/-- A page whose record is stored is walked to its offset exactly when its block is read back. -/
theorem page_walk_iff {acc cachable : Nat} {ls : List PtLevel} {c c' : Cells} {va pa size d : Nat}
    {l : PtLevel} (hc : PtChain A.vaBits ls) (hva : va < 2 ^ A.wordBits)
    (hw : A.Writes ls va size (A.mapSpec acc cachable va pa size ls) c c')
    (hck : A.Checked acc cachable ls va pa size size) (hsz : size ≤ 2 ^ A.vaBits)
    (hd : d < size) (hvd : A.add va d % pageSz = 0)
    (hl : windowLevel va size ls d = some l) (hmap : mmuHasMap A l.level = true) :
    A.walkTb c' ls (A.add va d) pageSz = .ok (padd pa d) ↔
      BlockReadsBack A l.level va pa (blockStart l va d) := by
  obtain ⟨hmem, hwhole⟩ := whole_of_windowLevel hl
  have hlow : l.low ≤ A.vaBits := hc.low_le_of_mem hmem
  obtain ⟨w, hset, hlook⟩ := mapped_lookup hw hck hd hl hmap
  rw [← lookup_congr (A.canon_add va d)] at hlook
  obtain ⟨hal, hread⟩ := mmuGetMapPa_setMap hset
  have hx : blockStart l va d < 2 ^ A.wordBits := by
    have := Nat.pow_le_pow_right Nat.two_pos A.vaBits_le_wordBits
    unfold blockStart
    omega
  rw [walkTb_page hvd hc hlook, ← readField_iff hva hx hmap hal, readPa, hread, add_mod hlow]
  have hlt := readField_lt A l.level (paddrAt pa (A.add va (blockStart l va d)) va)
  have hoff : blockStart l va d + (va + d) % l.pageSz = d := Nat.sub_add_cancel hwhole.1
  generalize mmuReadField A l.level
    (mmuHeldAddr A l.level (paddrAt pa (A.add va (blockStart l va d)) va)) = g at *
  rw [Except.ok.injEq]
  unfold padd
  omega

/-- The only level without map records is the root of x86-64. -/
theorem eq_root_of_noMap {l : PtLevel} (hmap : mmuHasMap A l.level = false) (hmem : l ∈ A.levels) :
    A = .x86_64 ∧ l = ⟨1, 47, 39⟩ := by
  cases A with
  | x86_64 =>
    simp only [mmuHasMap, bne_eq_false_iff_eq] at hmap
    simp only [levels, List.mem_cons, List.not_mem_nil, or_false] at hmem
    rcases hmem with rfl | rfl | rfl | rfl
    · exact ⟨rfl, rfl⟩
    all_goals cases hmap
  | _ => cases hmap

/-- On a block whose level has no map records some page is not walked to its offset. -/
theorem noMap_walk_ne {acc cachable : Nat} {allow : Bool} {c c' : Cells} {va pa size d : Nat}
    {l : PtLevel} (hva : va < 2 ^ A.wordBits)
    (h : A.mapTb acc cachable allow A.levels c va pa size = .ok c')
    (hvap : va % pageSz = 0) (hdp : d % pageSz = 0) (hl : windowLevel va size A.levels d = some l)
    (hmap : mmuHasMap A l.level = false) :
    ¬ ∀ e < size, e % pageSz = 0 → A.walkTb c' A.levels (A.add va e) pageSz = .ok (padd pa e) := by
  intro hwalk
  have hc := ptChain_levels A
  obtain ⟨-, hw⟩ := mapTb_spec hc hva h
  obtain ⟨hmem, hwhole⟩ := whole_of_windowLevel hl
  obtain ⟨rfl, rfl⟩ := eq_root_of_noMap hmap hmem
  set l : PtLevel := ⟨1, 47, 39⟩
  -- a page of the block other than one at the address `0` is not mapped
  have hzero : ∀ e < size, e % pageSz = 0 → Whole l va size e → padd pa e = 0 := by
    intro e he hep hew
    by_contra hne
    obtain ⟨hsome, -⟩ := walkTb_spec hc (x86_64.add_lt va e) (hwalk e he hep) hne
    have hnone : x86_64.lookup x86_64.levels c' (x86_64.add va e) = none := by
      have hlev : windowLevel va size x86_64.levels e = some l := by
        rw [levels, windowLevel, if_pos hew]
      rw [lookup_congr (x86_64.canon_add va e), hw.inside e he, mapSpec_windowLevel, hlev]
      rfl
    have := hsome 0 (by decide)
    rw [Nat.add_zero, hnone] at this
    cases this
  have hP : l.pageSz = 2 ^ 39 := rfl
  have hvap' : va % 2 ^ 12 = 0 := hvap
  have hdp' : d % 2 ^ 12 = 0 := hdp
  unfold Whole at hzero hwhole
  rw [hP] at hzero hwhole
  rw [show pageSz = 2 ^ 12 from rfl] at hzero
  have hfirst := hzero (d - (va + d) % 2 ^ 39) (by omega) (by omega) (by omega)
  have hsecond := hzero (d - (va + d) % 2 ^ 39 + 2 ^ 12) (by omega) (by omega) (by omega)
  unfold padd at hfirst hsecond
  omega

/-- **When `Ptable::walk` finds what `Ptable::map` was given.**  After a call that does not stop every
translation outside the range is the old one, and every page of the range is walked to its offset into
the physical range if and only if the block of every page is read back. -/
theorem mapTb_walk_iff {acc cachable : Nat} {allow : Bool} {c c' : Cells} {va pa size : Nat}
    (hva : va < 2 ^ A.wordBits)
    (h : A.mapTb acc cachable allow A.levels c va pa size = .ok c') :
    ((∀ d < size, d % pageSz = 0 →
        A.walkTb c' A.levels (A.add va d) pageSz = .ok (padd pa d)) ∧
      ∀ v, ¬ A.Touch va size v → A.lookup A.levels c' v = A.lookup A.levels c v) ↔
    ∀ d < size, d % pageSz = 0 → ∀ l, windowLevel va size A.levels d = some l →
      BlockReadsBack A l.level va pa (blockStart l va d) := by
  have hc := ptChain_levels A
  obtain ⟨-, hw⟩ := mapTb_spec hc hva h
  have hck := mapTb_checked hc hva h
  obtain ⟨hvap, hsizep, hsz⟩ := mapTb_checks hc h
  have hvd : ∀ d, d % pageSz = 0 → A.add va d % pageSz = 0 := by
    intro d hd
    have hdvd : pageSz ∣ 2 ^ A.wordBits :=
      Nat.pow_dvd_pow 2 (A.twelve_le_vaBits.trans A.vaBits_le_wordBits)
    rw [add, Nat.mod_mod_of_dvd _ hdvd, Nat.add_mod, hvap, hd]
    rfl
  constructor
  · rintro ⟨hwalk, -⟩ d hd hdp l hl
    cases hmap : mmuHasMap A l.level with
    | true => exact (page_walk_iff hc hva hw hck hsz hd (hvd d hdp) hl hmap).mp (hwalk d hd hdp)
    | false => exact absurd hwalk (noMap_walk_ne hva h hvap hdp hl hmap)
  · intro hread
    refine ⟨fun d hd hdp => ?_, hw.outside⟩
    obtain ⟨l, hl⟩ := exists_level hvap hsizep hd
    have hblock := hread d hd hdp l hl
    have hmap : mmuHasMap A l.level = true := by
      by_contra hno
      obtain ⟨rfl, rfl⟩ := eq_root_of_noMap (by simpa using hno) (whole_of_windowLevel hl).1
      exact hblock.1
    exact (page_walk_iff hc hva hw hck hsz hd (hvd d hdp) hl hmap).mpr hblock

/-- A page is mapped and walked. -/
theorem page_readBack :
    ∃ c', arm.mapTb 3 1 false arm.levels Cells.empty 0x1000 0x5000 0x1000 = .ok c' ∧
      ∀ d < 0x1000, d % pageSz = 0 →
        arm.walkTb c' arm.levels (arm.add 0x1000 d) pageSz = .ok (padd 0x5000 d) := by
  have hrun : (arm.mapTb 3 1 false arm.levels Cells.empty 0x1000 0x5000 0x1000).map (fun _ => ()) =
      .ok () := by decide
  obtain ⟨c', hc', -⟩ := map_eq_ok hrun
  refine ⟨c', hc', ((mapTb_walk_iff (by decide) hc').mpr fun d hd hdp l hl => ?_).1⟩
  obtain rfl : d = 0 := Nat.eq_zero_of_dvd_of_lt (Nat.dvd_of_mod_eq_zero hdp) hd
  have hlevel : windowLevel 0x1000 0x1000 arm.levels 0 = some ⟨2, 19, 12⟩ := by decide
  rw [hlevel] at hl
  obtain rfl := Option.some.inj hl
  exact ⟨.inl (by decide), fun h => by cases h⟩

/-- **A page of 1 GB.**  The record keeps `pa >> 21` in a field that begins at bit 30, and what the
kernel reads back is `0`. -/
theorem hugePage_not_readBack :
    ∃ c', x86_64.mapTb 3 1 false x86_64.levels Cells.empty 0x40000000 0x40000000 0x40000000 = .ok c' ∧
      ¬ ∀ d < 0x40000000, d % pageSz = 0 →
        x86_64.walkTb c' x86_64.levels (x86_64.add 0x40000000 d) pageSz = .ok (padd 0x40000000 d) := by
  have hrun : (x86_64.mapTb 3 1 false x86_64.levels Cells.empty 0x40000000 0x40000000 0x40000000).map
      (fun c' => x86_64.walkTb c' x86_64.levels 0x40000000 pageSz) = .ok (.ok 0) := by decide
  obtain ⟨c', hc', hwalk⟩ := map_eq_ok hrun
  refine ⟨c', hc', fun h => ?_⟩
  have hpage := h 0 (by decide) rfl
  rw [show x86_64.add 0x40000000 0 = 0x40000000 from rfl, hwalk] at hpage
  cases hpage

end Arch

end Wrmos
