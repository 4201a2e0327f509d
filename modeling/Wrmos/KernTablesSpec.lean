import Wrmos.KernTables
import Wrmos.PtableExact
import Wrmos.PtableReadBack

/-!
# The kernel window as one map

`Pgtab::kmap` is one map of its range (`kmap_writes`): what it does table by table is what one traversal
of the whole range would do.  `Pgtab::kunmap` and `Pgtab::kwalk` are the traversals of one table, and on
a range inside one table they are those of the range (`unmapKerntb_eq`, `walkKerntb_eq`).  A range that
crosses into the next table is another matter: what lies beyond the boundary is not looked at, and the
pages at the start of the first table are looked at in its place.

`kernWindow_flat_iff` puts this together: when the three operations are those of one flat map.
-/

namespace Wrmos

open Lib

namespace Arch

variable {A : Arch} {va pa sz : Nat} {c c' : Cells}

/-! ## The window -/

/-- The level above the shared tables: one of its records covers one table. -/
def ktabParent : Arch → PtLevel
  | .sparc => ⟨1, 31, 24⟩
  | .arm => ⟨1, 31, 20⟩
  | .x86 => ⟨1, 31, 22⟩
  | .x86_64 => ⟨3, 29, 21⟩

@[simp] theorem ktabParent_pageSz (A : Arch) : A.ktabParent.pageSz = A.ktabSz := by
  cases A <;> rfl

theorem ktabParent_suffix (A : Arch) : A.ktabParent :: A.ktabLevels <:+ A.levels := by
  cases A <;> decide

theorem ptChain_ktabParent (A : Arch) : PtChain A.vaBits (A.ktabParent :: A.ktabLevels) :=
  (ptChain_levels A).of_suffix A.ktabParent_suffix

theorem ptChain_ktabLevels (A : Arch) : PtChain A.vaBits A.ktabLevels := A.ptChain_ktabParent.tail

theorem ktabLevels_suffix (A : Arch) : A.ktabLevels <:+ A.levels :=
  (List.suffix_cons _ _).trans A.ktabParent_suffix

/-- The window is a whole number of tables and ends inside the address space. -/
theorem window_bounds (A : Arch) : 0 < A.ktabSz ∧ A.kernVa + kspaceSz < 2 ^ A.wordBits ∧
    A.ktabSz ≤ kspaceSz ∧ 2 * kspaceSz < 2 ^ A.vaBits ∧ A.ktabSz % pageSz = 0 := by
  cases A <;> decide

/-- `va` lies in the kernel window. -/
def InWindow (A : Arch) (va : Nat) : Prop := A.kernVa ≤ va ∧ va < A.kernVa + kspaceSz

/-- The table chosen for `va`, read at an address `d` further on: the offset in the table goes round. -/
theorem tbAddr_index (h : A.InWindow va) (d : Nat) :
    A.tbAddr (A.tbIndex va) (va + d) = va - va % A.ktabSz + (va + d) % A.ktabSz := by
  obtain ⟨hlo, hhi⟩ := h
  unfold tbAddr tbIndex sub
  unfold kernVa kspaceSz at *
  cases A <;> simp only [krnVaddr, ktabSz, wordBits] at * <;> omega

theorem tbIndex_lt_iff (hva : va < 2 ^ A.wordBits) (hlo : A.kernVa ≤ va) :
    A.tbIndex va < A.ktbs ↔ va < A.kernVa + kspaceSz := by
  unfold tbIndex ktbs sub
  unfold kernVa kspaceSz at *
  cases A <;> simp only [krnVaddr, ktabSz, wordBits] at * <;> omega

/-- From an address of the window to the end of its table is inside the window. -/
theorem table_end_le (h : A.InWindow va) :
    va + (A.ktabSz - va % A.ktabSz) ≤ A.kernVa + kspaceSz := by
  obtain ⟨hlo, hhi⟩ := h
  unfold kernVa kspaceSz at *
  cases A <;> simp only [krnVaddr, ktabSz] at * <;> omega

theorem checkKern_bind_eq_ok {α : Type} {f : Unit → Except Stop α} {r : α} :
    (Mem.checkKern A va sz >>= f) = .ok r ↔
      (A.InWindow va ∧ A.kernVa < A.add va sz ∧ A.add va sz ≤ A.kernVa + kspaceSz) ∧
        f () = .ok r := by
  have hcheck : ∀ u, Mem.checkKern A va sz = .ok u ↔
      A.InWindow va ∧ A.kernVa < A.add va sz ∧ A.add va sz ≤ A.kernVa + kspaceSz := by
    intro u
    unfold Mem.checkKern InWindow
    simp only [ensure_bind_eq_ok, ensure_eq_ok]
  rw [bind_eq_ok]
  simp only [hcheck]
  exact ⟨fun ⟨_, h⟩ => h, fun h => ⟨(), h⟩⟩

/-! ## `Pgtab::kmap` -/

/-- What a round of `Pgtab::kmap` does. -/
theorem kmapStep_eq_ok {acc cachable rest len : Nat} {s s' : Cells × Nat} {cur : Nat}
    (h : A.kmapStep acc cachable s cur rest = .ok (s', len)) :
    A.tbIndex cur < A.ktbs ∧ len = min rest (A.ktabSz - cur % A.ktabSz) ∧
      A.mapTb acc cachable false A.ktabLevels s.1 cur s.2 len = .ok s'.1 ∧ s'.2 = padd s.2 len := by
  unfold kmapStep at h
  obtain ⟨hidx, h⟩ := ensure_bind_eq_ok.mp h
  have hlen : (if cur % A.ktabSz = 0 then min rest A.ktabSz
      else min rest (A.ktabSz - cur % A.ktabSz)) = min rest (A.ktabSz - cur % A.ktabSz) := by
    split_ifs with h0
    · rw [h0, Nat.sub_zero]
    · rfl
  dsimp only at h
  rw [hlen] at h
  obtain ⟨c₁, hmap, h⟩ := bind_eq_ok.mp h
  obtain ⟨rfl, rfl⟩ := Prod.mk.inj (Except.ok.inj h)
  exact ⟨hidx, rfl, hmap, rfl⟩

/-- What the records hold when `Pgtab::kmap` has come to the offset `o`. -/
structure MappedTo (A : Arch) (acc cachable va pa sz : Nat) (c c' : Cells) (o : Nat) : Prop where
  writes : A.Writes A.ktabLevels va o (A.mapSpec acc cachable va pa sz A.ktabLevels) c c'
  checked : A.Checked acc cachable A.ktabLevels va pa sz o
  inWindow : va + o ≤ A.kernVa + kspaceSz
  aligned : o % pageSz = 0 ∧ (o = 0 ∨ va % pageSz = 0)

/-- One table more. -/
theorem MappedTo.step {acc cachable o rest len : Nat} {c₁ c₂ : Cells}
    (h : A.MappedTo acc cachable va pa sz c c₁ o) (hlo : A.kernVa ≤ va) (ho : o + rest = sz)
    (hb : o = 0 ∨ (va + o) % A.ktabSz = 0)
    (hlen : len = min rest (A.ktabSz - A.add va o % A.ktabSz)) (hcur : va + o < A.kernVa + kspaceSz)
    (hmap : A.mapTb acc cachable false A.ktabLevels c₁ (A.add va o) (padd pa o) len = .ok c₂) :
    A.MappedTo acc cachable va pa sz c c₂ (o + len) := by
  obtain ⟨hpos, hend, -, hroom, hpage⟩ := A.window_bounds
  have hpar := A.ptChain_ktabParent
  have hl : A.ktabParent.low ≤ A.vaBits := hpar.low_le_hi.trans hpar.hi_lt.le
  have hlow : ∀ m ∈ A.ktabLevels, m.low ≤ A.ktabParent.low := fun m hm => (hpar.lt_of_mem hm).2.le
  have hadd : A.add va o = va + o := Nat.mod_eq_of_lt (by omega)
  have hlt := Nat.mod_lt (va + o) hpos
  have hpaddr : padd pa o = paddrAt pa (A.add va o) va := by
    have hsum : pa + (va + o) + (2 ^ 64 - va) = pa + o + 2 ^ 64 := by
      have := A.two_pow_wordBits_dvd
      have := Nat.le_of_dvd (Nat.two_pow_pos _) this
      omega
    rw [hadd, paddrAt, hsum, Nat.add_mod_right, padd]
  have hb' : o = 0 ∨ (va + o) % A.ktabParent.pageSz = 0 := by rwa [ktabParent_pageSz]
  have hlenP : len = min rest (A.ktabParent.pageSz - A.add va o % A.ktabParent.pageSz) := by
    rw [ktabParent_pageSz, hlen]
  obtain ⟨hvap, hlenp, -⟩ := mapTb_checks A.ptChain_ktabLevels hmap
  obtain ⟨-, hw⟩ := mapTb_spec A.ptChain_ktabLevels (A.add_lt va o) hmap
  have hck := mapTb_checked A.ptChain_ktabLevels (A.add_lt va o) hmap
  rw [hadd] at hlen
  have hte : va + o + (A.ktabSz - (va + o) % A.ktabSz) ≤ A.kernVa + kspaceSz :=
    table_end_le ⟨by omega, hcur⟩
  constructor
  · refine h.writes.append (by omega) ((hw.congr_start (A.canon_add va o)).congr_fun fun d hd => ?_)
    rw [hlenP] at hd
    rw [mapSpec_sub hl ho hb' hd A.ktabLevels hlow, hpaddr, ← hlenP]
  · intro d hd l hlev
    by_cases hdo : d < o
    · exact h.checked d hdo l hlev
    · obtain ⟨e, rfl⟩ := Nat.exists_eq_add_of_le (Nat.le_of_not_lt hdo)
      have he : e < len := by omega
      rw [hlenP] at he
      rw [windowLevel_sub hl ho hb' he hlow, ← hlenP] at hlev
      rw [← hlenP] at he
      rw [hpaddr] at hck
      exact hck.sub (hlow l (whole_of_windowLevel hlev).1) hl he hlev
  · omega
  · refine ⟨?_, .inr ?_⟩
    · rw [Nat.add_mod, h.aligned.1, hlenp]
      rfl
    · rcases h.aligned.2 with rfl | hva
      · rwa [hadd] at hvap
      · exact hva

/-- **`Pgtab::kmap` is one map of its range.** -/
theorem kmap_mappedTo {acc cachable : Nat} (hva : va < 2 ^ A.wordBits) (hpa : pa < 2 ^ 64)
    (h : A.kmap acc cachable c va pa sz = .ok c') :
    A.InWindow va ∧ A.MappedTo acc cachable va pa sz c c' sz := by
  obtain ⟨⟨hin, -, -⟩, h⟩ := checkKern_bind_eq_ok.mp h
  obtain ⟨s', hloop, h⟩ := bind_eq_ok.mp h
  obtain rfl := Except.ok.inj h
  obtain ⟨hpos, hend, -, -, -⟩ := A.window_bounds
  have hin' := hin
  obtain ⟨hlo, hhi⟩ := hin'
  let Inv : Cells × Nat → Nat → Nat → Prop := fun s cur rest =>
    ∃ o, o + rest = sz ∧ cur = A.add va o ∧ s.2 = padd pa o ∧
      (o = 0 ∨ (va + o) % A.ktabSz = 0 ∨ rest = 0) ∧ A.MappedTo acc cachable va pa sz c s.1 o
  have hstep : ∀ s cur rest s' len, Inv s cur rest → rest ≠ 0 →
      A.kmapStep acc cachable s cur rest = .ok (s', len) → Inv s' (A.add cur len) (rest - len) := by
    rintro s cur rest s' len ⟨o, ho, rfl, hpad, hbound, hm⟩ hrest hs
    obtain ⟨hidx, hlen, hmap, hpad'⟩ := kmapStep_eq_ok hs
    have hb : o = 0 ∨ (va + o) % A.ktabSz = 0 := by tauto
    have hle := hm.inWindow
    have hadd : A.add va o = va + o := Nat.mod_eq_of_lt (by omega)
    have hcur : va + o < A.kernVa + kspaceSz :=
      (tbIndex_lt_iff (by omega) (by omega)).mp (hadd ▸ hidx)
    rw [hpad] at hmap
    refine ⟨o + len, by omega, by rw [add_add], ?_, ?_, hm.step hlo ho hb hlen hcur hmap⟩
    · rw [hpad', hpad]
      unfold padd
      omega
    · by_cases hfin : rest ≤ A.ktabSz - A.add va o % A.ktabSz
      · exact .inr (.inr (by omega))
      · refine .inr (.inl ?_)
        rw [hadd] at hlen hfin
        have hlt := Nat.mod_lt (va + o) hpos
        have hda := Nat.div_add_mod (va + o) A.ktabSz
        rw [show va + (o + len) = A.ktabSz * ((va + o) / A.ktabSz + 1) by
          rw [Nat.mul_add, Nat.mul_one]; omega]
        exact Nat.mul_mod_right _ _
  have hinit : Inv (c, pa) va sz :=
    ⟨0, by omega, by rw [add, Nat.add_zero, Nat.mod_eq_of_lt hva],
      by rw [padd, Nat.add_zero, Nat.mod_eq_of_lt hpa], .inl rfl,
      .zero, fun _ hd => absurd hd (Nat.not_lt_zero _), by omega, rfl, .inl rfl⟩
  obtain ⟨cur, o, ho, -, -, -, hm⟩ := rangeLoop_invariant hstep hinit hloop
  obtain rfl : o = sz := by omega
  exact ⟨hin, hm⟩

/-! ## A range inside one table -/

theorem tbAddr_add (i o : Nat) : A.tbAddr i (A.add va o) = A.tbAddr i (va + o) := by
  have hmod : A.add va o % A.ktabSz = (va + o) % A.ktabSz := by
    rw [← ktabParent_pageSz]
    exact add_mod (A.ptChain_ktabParent.low_le_of_mem List.mem_cons_self) va o
  unfold tbAddr
  rw [hmod]

/-- Before the end of the table an address is read as itself. -/
theorem tbAddr_inside (h : A.InWindow va) {d : Nat} (hd : va % A.ktabSz + d < A.ktabSz) :
    A.tbAddr (A.tbIndex va) (va + d) = va + d := by
  have hle := Nat.mod_le va A.ktabSz
  rw [tbAddr_index h, Nat.add_mod, Nat.mod_eq_of_lt (show d < A.ktabSz by omega),
    Nat.mod_eq_of_lt hd]
  omega

/-- Beyond the end of the table the address one table below is read. -/
theorem tbAddr_beyond (h : A.InWindow va) {d : Nat} (hd : A.ktabSz ≤ va % A.ktabSz + d)
    (hlt : d < A.ktabSz) : A.tbAddr (A.tbIndex va) (va + d) = va + d - A.ktabSz := by
  have hmod := Nat.mod_lt va A.window_bounds.1
  have hle := Nat.mod_le va A.ktabSz
  have hround : (va % A.ktabSz + d) % A.ktabSz = va % A.ktabSz + d - A.ktabSz := by
    rw [Nat.mod_eq_sub_mod hd, Nat.mod_eq_of_lt (by omega)]
  rw [tbAddr_index h, Nat.add_mod, Nat.mod_eq_of_lt hlt, hround]
  omega

/-- The positions of a loop that stays inside the table of `va`. -/
def Inside (va sz pos rest : Nat) : Prop := rest = 0 ∨ va ≤ pos ∧ pos + rest = va + sz

/-- A round that takes no more than is left keeps the loop inside. -/
theorem Inside.next (hin : va % A.ktabSz + sz ≤ A.ktabSz) (hw : A.InWindow va) {pos rest len : Nat}
    (h : Inside va sz pos rest) (hrest : rest ≠ 0) (hlen : len ≤ rest) :
    Inside va sz (A.add pos len) (rest - len) := by
  obtain ⟨-, hend, -⟩ := A.window_bounds
  have hte := table_end_le hw
  rcases h with h | ⟨h1, h2⟩
  · exact absurd h hrest
  · by_cases h0 : rest - len = 0
    · exact .inl h0
    · have hadd : A.add pos len = pos + len := Nat.mod_eq_of_lt (by omega)
      exact .inr ⟨by omega, by omega⟩

/-- Inside the table the record of a position is that of the address. -/
theorem Inside.tbAddr_eq (hin : va % A.ktabSz + sz ≤ A.ktabSz) (hw : A.InWindow va) {pos rest : Nat}
    (h : Inside va sz pos rest) (hrest : rest ≠ 0) : A.tbAddr (A.tbIndex va) pos = pos := by
  rcases h with h | ⟨h1, h2⟩
  · exact absurd h hrest
  · obtain ⟨d, rfl⟩ := Nat.exists_eq_add_of_le h1
    exact tbAddr_inside hw (by omega)

theorem unmapStep_len_le {l : PtLevel} {childUnmap : Cells → Nat → Nat → Except Stop Cells}
    {s s' : Cells} {cur rest len : Nat} (h : A.unmapStep l childUnmap s cur rest = .ok (s', len)) :
    len ≤ rest := by
  rcases unmapStep_cases h with ⟨-, rfl, -⟩ | ⟨w, -, hle, rfl, -⟩ | ⟨-, rfl, -⟩
  · exact Nat.min_le_left _ _
  · exact hle
  · exact Nat.min_le_left _ _

/-- **Inside one table `Pgtab::kunmap` is the traversal of the range.** -/
theorem unmapKerntb_eq (hw : A.InWindow va) (hin : va % A.ktabSz + sz ≤ A.ktabSz)
    (ls : List PtLevel) : A.unmapKerntb (A.tbIndex va) ls c va sz = A.unmapTb ls c va sz := by
  cases ls with
  | nil => rfl
  | cons l ls =>
    rw [unmapKerntb, unmapTb]
    congr 1
    funext u
    refine rangeLoop_congr (Inside va sz) ?_ ?_ (.inr ⟨Nat.le_refl va, rfl⟩)
    · intro s pos rest hG hrest
      rw [hG.tbAddr_eq hin hw hrest]
    · intro s pos rest s' len hG hrest hs
      exact hG.next hin hw hrest (unmapStep_len_le hs)

/-- **Inside one table `Pgtab::kwalk` is the traversal of the range.** -/
theorem walkKerntb_eq (hw : A.InWindow va) (hin : va % A.ktabSz + sz ≤ A.ktabSz)
    (ls : List PtLevel) : A.walkKerntb c (A.tbIndex va) ls va sz = A.walkTb c ls va sz := by
  cases ls with
  | nil => rfl
  | cons l ls =>
    have hloop : ∀ n, rangeLoop A.add (.stop .outOfRounds)
        (fun pa cur rest => A.walkStep l (A.walkTb c ls) c pa (A.tbAddr (A.tbIndex va) cur) rest)
          n 0 va sz =
        rangeLoop A.add (.stop .outOfRounds) (A.walkStep l (A.walkTb c ls) c) n 0 va sz := by
      intro n
      refine rangeLoop_congr (Inside va sz) ?_ ?_ (.inr ⟨Nat.le_refl va, rfl⟩)
      · intro s pos rest hG hrest
        rw [hG.tbAddr_eq hin hw hrest]
      · intro s pos rest s' len hG hrest hs
        refine hG.next hin hw hrest ?_
        rw [(walkStep_cases hs).1]
        exact Nat.min_le_left _ _
    simp only [walkKerntb, hloop]
    rfl

/-- A page is walked in its own table. -/
theorem kwalk_page (hw : A.InWindow va) (hva : va % pageSz = 0) :
    A.kwalk c va pageSz = A.walkTb c A.ktabLevels va pageSz := by
  obtain ⟨hpos, hend, -, -, hpage⟩ := A.window_bounds
  have hte := table_end_le hw
  have hfit : pageSz ≤ A.ktabSz - va % A.ktabSz := by
    have := page_le_rest (A.ptChain_ktabParent.twelve_le_of_mem List.mem_cons_self) hva
    rwa [ktabParent_pageSz] at this
  have hlt := Nat.mod_lt va hpos
  have hpos' : 0 < pageSz := by decide
  have hadd : A.add va pageSz = va + pageSz := Nat.mod_eq_of_lt (by omega)
  have hcheck : Mem.checkKern A va pageSz = .ok () := by
    unfold Mem.checkKern
    rw [ensure_bind_of (show A.kernVa ≤ va ∧ va < A.kernVa + kspaceSz from hw), hadd]
    exact ensure_eq_ok.mpr ⟨by have := hw.1; omega, by omega⟩
  rw [kwalk, hcheck]
  exact walkKerntb_eq hw (by omega) _

/-! ## A range over a table boundary -/

section Pages

variable {l : PtLevel}

/-- But on sparc, where the window is one table, the shared tables have pages only. -/
theorem ktabLevels_page (hA : A ≠ .sparc) :
    ∃ l, A.ktabLevels = [l] ∧ l.pageSz = pageSz ∧ l.aspaceSz = A.ktabSz ∧ mmuHasMap A l.level = true := by
  cases A with
  | sparc => exact absurd rfl hA
  | arm => exact ⟨⟨2, 19, 12⟩, rfl, rfl, rfl, rfl⟩
  | x86 => exact ⟨⟨2, 21, 12⟩, rfl, rfl, rfl, rfl⟩
  | x86_64 => exact ⟨⟨4, 20, 12⟩, rfl, rfl, rfl, rfl⟩

/-- One record of the last level is one page. -/
theorem lookup_page (h : A.key l va = A.key l pa) : A.lookup [l] c va = A.lookup [l] c pa := by
  simp only [lookup, cellAt_congr h]

theorem tbAddr_page (hva : va % pageSz = 0) (i : Nat) : A.tbAddr i va % pageSz = 0 := by
  have hpage := A.window_bounds.2.2.2.2
  have hkern : A.kernVa % pageSz = 0 := by cases A <;> decide
  have hdvd := Nat.dvd_of_mod_eq_zero hpage
  unfold tbAddr
  rw [Nat.add_mod, Nat.mod_mod_of_dvd _ hdvd, hva, Nat.add_zero, Nat.mod_mod, Nat.add_mod, hkern,
    Nat.mul_mod, hpage]
  rfl

/-- `v` is in a page that the loop over the table `i` comes to before the offset `o`. -/
def Visited (A : Arch) (l : PtLevel) (i va o v : Nat) : Prop :=
  ∃ d < o, d % pageSz = 0 ∧ A.key l v = A.key l (A.tbAddr i (va + d))

/-- One page more. -/
theorem visited_step {i o v : Nat} (hop : o % pageSz = 0) :
    A.Visited l i va (o + pageSz) v ↔
      A.Visited l i va o v ∨ A.key l v = A.key l (A.tbAddr i (va + o)) := by
  have hpos : 0 < pageSz := by decide
  constructor
  · rintro ⟨d, hd, hdp, hk⟩
    rcases Nat.lt_or_ge d o with hlt | hge
    · exact .inl ⟨d, hlt, hdp, hk⟩
    · have hdvd := Nat.dvd_sub (Nat.dvd_of_mod_eq_zero hdp) (Nat.dvd_of_mod_eq_zero hop)
      have hzero := Nat.eq_zero_of_dvd_of_lt hdvd (by omega)
      obtain rfl : d = o := by omega
      exact .inr hk
  · rintro (⟨d, hd, hdp, hk⟩ | hk)
    · exact ⟨d, by omega, hdp, hk⟩
    · exact ⟨o, by omega, hop, hk⟩

/-- **`Pgtab::kunmap` clears the pages it comes to**, and no others. -/
theorem unmapKerntb_pages {i : Nat} (hva : va < 2 ^ A.wordBits) (hP : l.pageSz = pageSz)
    (h : A.unmapKerntb i [l] c va sz = .ok c') :
    (va % pageSz = 0 ∧ sz % pageSz = 0 ∧ sz ≤ l.aspaceSz) ∧
      (∀ v, A.Visited l i va sz v → A.lookup [l] c' v = none) ∧
      ∀ v, ¬ A.Visited l i va sz v → A.lookup [l] c' v = A.lookup [l] c v := by
  rw [unmapKerntb] at h
  obtain ⟨⟨hvap, hszp, hsz⟩, hloop⟩ := checkRange_bind_eq_ok.mp h
  let Inv : Cells → Nat → Nat → Prop := fun s cur rest =>
    ∃ o, o + rest = sz ∧ cur = A.add va o ∧ o % pageSz = 0 ∧
      (∀ v, A.Visited l i va o v → A.lookup [l] s v = none) ∧
      ∀ v, ¬ A.Visited l i va o v → A.lookup [l] s v = A.lookup [l] c v
  have hstep : ∀ s cur rest s' len, Inv s cur rest → rest ≠ 0 →
      A.unmapStep l (A.unmapTb []) s (A.tbAddr i cur) rest = .ok (s', len) →
      Inv s' (A.add cur len) (rest - len) := by
    rintro s cur rest s' len ⟨o, ho, rfl, hop, hgone, hkept⟩ hrest hs
    obtain ⟨hrp, hle⟩ := pageSz_le_rest ho hszp hop hrest
    rw [tbAddr_add] at hs
    have hdir : A.cellAt s l (A.tbAddr i (va + o)) ≠ .dir := by
      intro hd
      rcases unmapStep_cases hs with ⟨-, -, hchild⟩ | ⟨w, hmap, -⟩ | ⟨hinv, -⟩
      · cases hchild
      · rw [hd] at hmap
        cases hmap
      · rw [hd] at hinv
        cases hinv
    obtain ⟨hlen, -, -, hclear, hsame⟩ := unmapStep_passes hs hdir
    rw [hP, Nat.min_eq_right hle] at hlen
    subst hlen
    have hnew : ∀ v, A.key l v ≠ A.key l (A.tbAddr i (va + o)) →
        A.lookup [l] s' v = A.lookup [l] s v := fun v hv =>
      lookup_cons_congr (hsame v hv) rfl
    refine ⟨o + pageSz, by omega, by rw [add_add], ?_, fun v hv => ?_, fun v hv => ?_⟩
    · rw [Nat.add_mod_right, hop]
    · by_cases hk : A.key l v = A.key l (A.tbAddr i (va + o))
      · exact lookup_cons_of_inv (hclear v hk)
      · rw [hnew v hk]
        exact hgone v (((visited_step hop).mp hv).resolve_right hk)
    · rw [visited_step hop, not_or] at hv
      rw [hnew v hv.2, hkept v hv.1]
  have hinit : Inv c va sz :=
    ⟨0, by omega, by rw [add, Nat.add_zero, Nat.mod_eq_of_lt hva], rfl,
      fun v ⟨_, hd, _⟩ => absurd hd (Nat.not_lt_zero _), fun _ _ => rfl⟩
  obtain ⟨cur, o, ho, -, -, hgone, hkept⟩ := rangeLoop_invariant hstep hinit hloop
  obtain rfl : o = sz := by omega
  exact ⟨⟨hvap, hszp, hsz⟩, hgone, hkept⟩

/-- What a round over a page of the last level does in `Pgtab::kwalk`. -/
theorem walkStep_page {p v rest w : Nat} (hP : l.pageSz = pageSz) (hv : v % pageSz = 0)
    (hle : pageSz ≤ rest) (hcell : A.cellAt c l v = .map w) :
    A.walkStep l (A.walkTb c []) c p v rest =
      .ok (if p = 0 then A.readPa l w v else p, pageSz) := by
  have hlen : min rest (l.pageSz - v % l.pageSz) = pageSz := by
    rw [hP, hv, Nat.sub_zero, Nat.min_eq_right hle]
  simp only [walkStep, hcell, hlen, readPa]

/-- `Pgtab::kwalk` with a non-zero answer came to mapped pages only. -/
theorem walkKerntb_mapped {i p : Nat} (hva : va < 2 ^ A.wordBits) (hP : l.pageSz = pageSz)
    (hp : p ≠ 0) (h : A.walkKerntb c i [l] va sz = .ok p) :
    (va % pageSz = 0 ∧ sz % pageSz = 0 ∧ sz ≤ l.aspaceSz) ∧
      ∀ d < sz, d % pageSz = 0 → (A.lookup [l] c (A.tbAddr i (va + d))).isSome := by
  rw [walkKerntb] at h
  obtain ⟨⟨hvap, hszp, hsz⟩, h⟩ := checkRange_bind_eq_ok.mp h
  refine ⟨⟨hvap, hszp, hsz⟩, ?_⟩
  let Inv : Nat → Nat → Nat → Prop := fun _ cur rest =>
    ∃ o, o + rest = sz ∧ cur = A.add va o ∧ o % pageSz = 0 ∧
      ∀ d < o, d % pageSz = 0 → (A.lookup [l] c (A.tbAddr i (va + d))).isSome
  have hstep : ∀ x cur rest x' len, Inv x cur rest → rest ≠ 0 →
      A.walkStep l (A.walkTb c []) c x (A.tbAddr i cur) rest = .ok (x', len) →
      Inv x' (A.add cur len) (rest - len) := by
    rintro x cur rest x' len ⟨o, ho, rfl, hop, hmapped⟩ hrest hs
    obtain ⟨-, hle⟩ := pageSz_le_rest ho hszp hop hrest
    have hvo : (va + o) % pageSz = 0 := by
      rw [Nat.add_mod, hvap, hop]
      rfl
    rw [tbAddr_add] at hs
    obtain ⟨hlen, hcase⟩ := walkStep_cases hs
    rw [hP, tbAddr_page hvo i, Nat.sub_zero, Nat.min_eq_right hle] at hlen
    subst hlen
    refine ⟨o + pageSz, by omega, by rw [add_add], by rw [Nat.add_mod_right, hop], ?_⟩
    intro d hd hdp
    rcases Nat.lt_or_ge d o with hlt | hge
    · exact hmapped d hlt hdp
    · have hdvd := Nat.dvd_sub (Nat.dvd_of_mod_eq_zero hdp) (Nat.dvd_of_mod_eq_zero hop)
      have hzero := Nat.eq_zero_of_dvd_of_lt hdvd (by omega)
      obtain rfl : d = o := by omega
      rcases hcase with ⟨-, res, -, hchild, -⟩ | ⟨w, hmap, -⟩
      · cases hchild
      · simp only [lookup, hmap, Option.isSome_some]
  have hinit : Inv 0 va sz :=
    ⟨0, by omega, by rw [add, Nat.add_zero, Nat.mod_eq_of_lt hva], rfl,
      fun d hd => absurd hd (Nat.not_lt_zero _)⟩
  split at h
  · next x hloop =>
    obtain ⟨cur, o, ho, -, -, hmapped⟩ := rangeLoop_invariant hstep hinit hloop
    obtain rfl : o = sz := by omega
    exact hmapped
  · exact absurd (Except.ok.inj h).symm hp
  · cases h

/-- `Pgtab::kwalk` over mapped pages answers with the address of the first one. -/
theorem walkKerntb_first {i p w : Nat} (hP : l.pageSz = pageSz)
    (hvap : va % pageSz = 0) (hszp : sz % pageSz = 0) (hsz : sz ≤ l.aspaceSz) (hpos : 0 < sz)
    (hmapped : ∀ d < sz, d % pageSz = 0 → (A.lookup [l] c (A.tbAddr i (va + d))).isSome)
    (hp : p ≠ 0) (hfirst : A.lookup [l] c (A.tbAddr i va) = some (l, w))
    (hread : A.readPa l w (A.tbAddr i va) = p) :
    A.walkKerntb c i [l] va sz = .ok p := by
  set step := fun pa cur rest => A.walkStep l (A.walkTb c []) c pa (A.tbAddr i cur) rest with hstepdef
  -- once an address is found it stays
  have hrun : ∀ n o rest, o + rest = sz → o % pageSz = 0 → rest ≤ n * pageSz →
      rangeLoop A.add (.stop .outOfRounds) step n p (A.add va o) rest = .ok p := by
    intro n
    induction n with
    | zero =>
      intro o rest _ _ hle
      obtain rfl : rest = 0 := by omega
      exact rangeLoop_zero ..
    | succ n ih =>
      intro o rest ho hop hle
      by_cases hrest : rest = 0
      · subst hrest
        exact rangeLoop_zero ..
      obtain ⟨-, hge⟩ := pageSz_le_rest ho hszp hop hrest
      have hvo : (va + o) % pageSz = 0 := by
        rw [Nat.add_mod, hvap, hop]
        rfl
      obtain ⟨⟨m, w'⟩, hlook⟩ := Option.isSome_iff_exists.mp (hmapped o (by omega) hop)
      have hm := List.mem_singleton.mp (lookup_mem hlook)
      subst hm
      have hround : step p (A.add va o) rest = .ok (p, pageSz) := by
        rw [hstepdef]
        dsimp only
        rw [tbAddr_add, walkStep_page hP (tbAddr_page hvo i) hge (cellAt_of_lookup hlook), if_neg hp]
      rw [rangeLoop_succ hrest, hround]
      rw [Nat.succ_mul] at hle
      have hnext := ih (o + pageSz) (rest - pageSz) (by omega)
        (by rw [Nat.add_mod_right, hop]) (by omega)
      rwa [← add_add] at hnext
  have hge : pageSz ≤ sz := Nat.le_of_dvd hpos (Nat.dvd_of_mod_eq_zero hszp)
  have hround : step 0 va sz = .ok (p, pageSz) := by
    rw [hstepdef]
    dsimp only
    rw [walkStep_page hP (tbAddr_page hvap i) hge (cellAt_of_lookup hfirst), if_pos rfl, hread]
  have hloop : rangeLoop A.add (.stop .outOfRounds) step (sz / pageSz + 1) 0 va sz = .ok p := by
    rw [rangeLoop_succ (by omega), hround]
    refine hrun _ pageSz (sz - pageSz) (by omega) (Nat.mod_self _) ?_
    have := Nat.div_mul_cancel (Nat.dvd_of_mod_eq_zero hszp)
    omega
  have hcheck : checkRange l va sz = .ok () := by
    unfold checkRange
    rw [ensure_bind_of hvap, ensure_bind_of hszp]
    exact ensure_eq_ok.mpr hsz
  rw [walkKerntb, hcheck]
  dsimp only [bind, Except.bind]
  rw [hloop]
  rfl

end Pages

/-! ## The three operations -/

/-- Page `d` of the range lies beyond the end of the table of its first page. -/
def Beyond (A : Arch) (va sz d : Nat) : Prop :=
  d < sz ∧ d % pageSz = 0 ∧ A.ktabSz ≤ va % A.ktabSz + d

/-- The page that the table of the first page is read at in the place of such a page is not in the
range. -/
theorem not_touch_beyond (hsz : sz ≤ A.ktabSz) {d : Nat}
    (hd : A.ktabSz ≤ va % A.ktabSz + d) (hlt : d < sz) : ¬ A.Touch va sz (va + d - A.ktabSz) := by
  obtain ⟨hpos, -, hle, hroom, -⟩ := A.window_bounds
  have hmod := Nat.mod_le va A.ktabSz
  rintro ⟨e, he, hcan⟩
  have hsum : va + e = va + d - A.ktabSz + (A.ktabSz - d + e) := by omega
  have hzero : va + d - A.ktabSz = va + d - A.ktabSz + 0 := rfl
  rw [hsum, hzero] at hcan
  have := offset_inj (by omega) (by omega) hcan
  omega

theorem hasMap_ktabLevels {l : PtLevel} (hl : l ∈ A.ktabLevels) : mmuHasMap A l.level = true := by
  by_contra hno
  obtain ⟨rfl, rfl⟩ := eq_root_of_noMap (by simpa using hno) (A.ktabLevels_suffix.subset hl)
  revert hl
  decide

theorem exists_ktabLevel {d : Nat} (hva : va % pageSz = 0) (hsz : sz % pageSz = 0) (hd : d < sz) :
    ∃ l, windowLevel va sz A.ktabLevels d = some l := by
  have hc := A.ptChain_ktabLevels
  cases hls : A.ktabLevels with
  | nil => cases A <;> cases hls
  | cons l ls => exact exists_windowLevel hva hsz hd (hls ▸ hc)

/-- On sparc the window is one table. -/
theorem sparc_inside {va sz : Nat} (hlo : sparc.kernVa ≤ va) (hhi : va + sz ≤ sparc.kernVa + kspaceSz) :
    va % sparc.ktabSz + sz ≤ sparc.ktabSz := by
  unfold kernVa kspaceSz at *
  simp only [krnVaddr, ktabSz] at *
  omega

section Kwalk

variable {acc cachable : Nat}

/-- Each page of the mapped range is walked to its offset when its block is read back. -/
theorem kwalk_page_iff (hva : va < 2 ^ A.wordBits) (hw : A.InWindow va) (hvap : va % pageSz = 0)
    (hszp : sz % pageSz = 0) (hm : A.MappedTo acc cachable va pa sz c c' sz) {d : Nat} (hd : d < sz)
    (hdp : d % pageSz = 0) :
    A.kwalk c' (A.add va d) pageSz = .ok (padd pa d) ↔
      ∀ l, windowLevel va sz A.ktabLevels d = some l →
        BlockReadsBack A l.level va pa (blockStart l va d) := by
  obtain ⟨-, hend, -, hroom, -⟩ := A.window_bounds
  have hin := hm.inWindow
  have hlo := hw.1
  have hadd : A.add va d = va + d := Nat.mod_eq_of_lt (by omega)
  have hvd : (va + d) % pageSz = 0 := by
    rw [Nat.add_mod, hvap, hdp]
    rfl
  have hpage : A.kwalk c' (A.add va d) pageSz = A.walkTb c' A.ktabLevels (A.add va d) pageSz := by
    rw [hadd]
    exact kwalk_page ⟨by omega, by omega⟩ hvd
  obtain ⟨l, hl⟩ := exists_ktabLevel (A := A) hvap hszp hd
  rw [hpage, page_walk_iff A.ptChain_ktabLevels hva hm.writes hm.checked (by omega) hd (hadd ▸ hvd) hl
    (hasMap_ktabLevels (whole_of_windowLevel hl).1)]
  constructor
  · intro h m hlm
    rw [hl] at hlm
    obtain rfl := Option.some.inj hlm
    exact h
  · exact fun h => h l hl

/-- The answer for the whole range, when the pages are walked to their offsets. -/
theorem kwalk_range_iff (hva : va < 2 ^ A.wordBits) (hw : A.InWindow va) (hvap : va % pageSz = 0)
    (hszp : sz % pageSz = 0) (hpos : 0 < sz) (hpa0 : pa ≠ 0) (hpa : pa < 2 ^ 64)
    (hm : A.MappedTo acc cachable va pa sz c c' sz)
    (hpages : ∀ d < sz, d % pageSz = 0 → A.kwalk c' (A.add va d) pageSz = .ok (padd pa d)) :
    A.kwalk c' va sz = .ok pa ↔
      sz ≤ A.ktabSz ∧ ∀ d, A.Beyond va sz d →
        (A.lookup A.ktabLevels c (va + d - A.ktabSz)).isSome := by
  obtain ⟨hK, hend, hKle, hroom, hpage⟩ := A.window_bounds
  have hin := hm.inWindow
  have hlo := hw.1
  have hpos' : 0 < pageSz := by decide
  have hadd : ∀ d ≤ sz, A.add va d = va + d := fun d hd => Nat.mod_eq_of_lt (by omega)
  have hcheck : A.kwalk c' va sz = A.walkKerntb c' (A.tbIndex va) A.ktabLevels va sz := by
    have hok : Mem.checkKern A va sz = .ok () := by
      unfold Mem.checkKern
      rw [ensure_bind_of (show A.kernVa ≤ va ∧ va < A.kernVa + kspaceSz from hw), hadd sz le_rfl]
      exact ensure_eq_ok.mpr ⟨by omega, hin⟩
    rw [kwalk, hok]
    rfl
  -- every page of the range is mapped, and read as its offset
  have hlook : ∀ d < sz, d % pageSz = 0 → ∃ l w, A.lookup A.ktabLevels c' (va + d) = some (l, w) ∧
      A.readPa l w (va + d) = padd pa d := by
    intro d hd hdp
    have hc := A.ptChain_ktabLevels
    obtain ⟨l, hl⟩ := exists_ktabLevel hvap hszp hd
    obtain ⟨w, -, hlook⟩ := mapped_lookup hm.writes hm.checked hd hl
      (hasMap_ktabLevels (whole_of_windowLevel hl).1)
    have hvd : (va + d) % pageSz = 0 := by
      rw [Nat.add_mod, hvap, hdp]
      rfl
    have hwalk := hpages d hd hdp
    rw [hadd d hd.le, kwalk_page ⟨by omega, by omega⟩ hvd, walkTb_page hvd hc hlook] at hwalk
    exact ⟨l, w, hlook, Except.ok.inj hwalk⟩
  have hpad0 : padd pa 0 = pa := Nat.mod_eq_of_lt hpa
  obtain ⟨l, w, hfirst, hread⟩ := hlook 0 hpos rfl
  rw [Nat.add_zero] at hfirst hread
  rw [hpad0] at hread
  rw [hcheck]
  by_cases hA : A = .sparc
  · subst hA
    have hinside := sparc_inside hlo hin
    rw [walkKerntb_eq hw hinside]
    have hlt : pa < 2 ^ 32 := by
      obtain ⟨l', hl'⟩ := exists_ktabLevel (A := .sparc) hvap hszp hpos
      have hb := (kwalk_page_iff hva hw hvap hszp hm hpos rfl).mp (hpages 0 hpos rfl) l' hl'
      have hb1 : padd pa (blockStart l' va 0) < 2 ^ 32 := hb.1
      rw [blockStart, Nat.zero_sub, hpad0] at hb1
      exact hb1
    have hreads : sparc.ReadsNonzero sparc.ktabLevels c' va sz := by
      intro d hd hdp
      obtain ⟨m, w', hl, hr⟩ := hlook d hd hdp
      refine ⟨m, w', hl, ?_⟩
      rw [hr, padd]
      unfold kspaceSz at *
      omega
    have hfit : ∀ m ∈ sparc.ktabLevels.head?, sz ≤ m.aspaceSz := by
      intro m hmem
      obtain rfl := Option.some.inj hmem
      exact (Nat.le_add_left _ _).trans hinside
    have hans := walkTb_of_reads sparc.ptChain_ktabLevels hva hvap hszp hpos hfit hreads hfirst
    rw [hans, hread]
    refine ⟨fun _ => ⟨by omega, fun d hd => ?_⟩, fun _ => rfl⟩
    have h1 := hd.1
    have h2 := hd.2.2
    omega
  · obtain ⟨m, hlev, hP, hsp, -⟩ := ktabLevels_page hA
    have hbase : A.tbAddr (A.tbIndex va) va = va := by
      have hlt := Nat.mod_lt va hK
      exact tbAddr_inside (d := 0) hw (by omega)
    rw [hlev] at hfirst hlook ⊢
    constructor
    · intro h
      obtain ⟨⟨-, -, hsz⟩, hmapped⟩ := walkKerntb_mapped hva hP hpa0 h
      rw [hsp] at hsz
      refine ⟨hsz, fun d hd => ?_⟩
      obtain ⟨hd1, hd2, hd3⟩ := hd
      have hsome := hmapped d hd1 hd2
      rw [tbAddr_beyond hw hd3 (by omega)] at hsome
      rwa [← hlev, hm.writes.outside _ (not_touch_beyond hsz hd3 hd1), hlev] at hsome
    · rintro ⟨hsz, hbeyond⟩
      have hl : l = m := List.mem_singleton.mp (lookup_mem hfirst)
      subst hl
      refine walkKerntb_first hP hvap hszp (hsp ▸ hsz) hpos (fun d hd hdp => ?_) hpa0
        (by rw [hbase, hfirst]) (by rw [hbase, hread])
      by_cases hinside : va % A.ktabSz + d < A.ktabSz
      · obtain ⟨_, _, hsome, -⟩ := hlook d hd hdp
        rw [tbAddr_inside hw hinside, hsome]
        rfl
      · have hd3 := Nat.le_of_not_lt hinside
        rw [tbAddr_beyond hw hd3 (by omega), ← hlev,
          hm.writes.outside _ (not_touch_beyond hsz hd3 hd), hlev]
        exact hbeyond d ⟨hd, hdp, hd3⟩

end Kwalk

/-- **When `Pgtab::kunmap` is exact.** -/
theorem kunmap_iff (hva : va < 2 ^ A.wordBits) (h : A.kunmap c va sz = .ok c') :
    A.Writes A.ktabLevels va sz (fun _ => none) c c' ↔
      (∀ d, A.Beyond va sz d → A.lookup A.ktabLevels c (va + d) = none ∧
        A.lookup A.ktabLevels c (va + d - A.ktabSz) = none) ∧
      (∀ d < sz, A.Missed A.ktabLevels c va sz d → A.lookup A.ktabLevels c (va + d) = none) ∧
      (0 < sz → ∀ m w, A.lookup A.ktabLevels c va = some (m, w) → va % m.pageSz = 0) := by
  obtain ⟨hK, hend, hKle, hroom, hpage⟩ := A.window_bounds
  obtain ⟨⟨hw, hpast, hin⟩, h⟩ := checkKern_bind_eq_ok.mp h
  have hw' := hw
  obtain ⟨hlo, hhi⟩ := hw'
  by_cases hA : A = .sparc
  · subst hA
    have hsz : sz ≤ sparc.ktabSz := by
      rw [show sparc.ktabLevels = [⟨2, 23, 18⟩, ⟨3, 17, 12⟩] from rfl, unmapKerntb] at h
      exact (checkRange_bind_eq_ok.mp h).1.2.2
    have hsum : va + sz ≤ sparc.kernVa + kspaceSz := by
      unfold add at hpast hin
      unfold kernVa kspaceSz at *
      simp only [krnVaddr, ktabSz, wordBits] at *
      omega
    have hinside := sparc_inside hlo hsum
    rw [unmapKerntb_eq hw hinside] at h
    rw [unmapTb_exact_iff sparc.ktabLevels_suffix hva h]
    constructor
    · rintro ⟨hmissed, hstart⟩
      refine ⟨fun d hd => ?_, hmissed, fun hpos m w hlook => (hstart hpos m w hlook).resolve_right ?_⟩
      · obtain ⟨h1, -, h3⟩ := hd
        omega
      · omega
    · rintro ⟨-, hmissed, hstart⟩
      exact ⟨hmissed, fun hpos m w hlook => .inl (hstart hpos m w hlook)⟩
  · obtain ⟨l, hlev, hP, hsp, -⟩ := ktabLevels_page hA
    have hl : l.low ≤ A.vaBits := A.ptChain_ktabLevels.low_le_of_mem (hlev ▸ List.mem_singleton_self l)
    rw [hlev] at h ⊢
    obtain ⟨⟨hvap, hszp, hsz⟩, hgone, hkept⟩ := unmapKerntb_pages hva hP h
    rw [hsp] at hsz
    have hvd : ∀ d, d % pageSz = 0 → (va + d) % l.pageSz = 0 := by
      intro d hd
      rw [hP, Nat.add_mod, hvap, hd]
      rfl
    constructor
    · intro hwr
      refine ⟨fun d hd => ?_, fun d _ hmiss => ?_, fun _ m w hlook => ?_⟩
      · obtain ⟨hlt, hdp, hge⟩ := hd
        have htb := tbAddr_beyond hw hge (by omega)
        have hout := not_touch_beyond hsz hge hlt
        constructor
        · -- the page itself is not visited
          rw [← hwr.inside d hlt, hkept]
          rintro ⟨e, he, hep, hk⟩
          have htbp : A.tbAddr (A.tbIndex va) (va + e) % l.pageSz = 0 := by
            rw [hP]
            exact tbAddr_page (hP ▸ hvd e hep) _
          have hcan := (canon_eq_iff hl).mpr ⟨hk, (hvd d hdp).trans htbp.symm⟩
          by_cases hin : va % A.ktabSz + e < A.ktabSz
          · rw [tbAddr_inside hw hin] at hcan
            have := offset_inj (by omega) (by omega) hcan
            omega
          · rw [tbAddr_beyond hw (by omega) (by omega)] at hcan
            exact not_touch_beyond hsz (by omega) he ⟨d, hlt, hcan.symm⟩
        · rw [← hwr.outside _ hout]
          exact hgone _ ⟨d, hlt, hdp, by rw [htb]⟩
      · exact absurd (by rw [hP, hvap]) hmiss.1
      · obtain rfl := List.mem_singleton.mp (lookup_mem hlook)
        rw [hP, hvap]
    · rintro ⟨hbeyond, -, -⟩
      constructor
      · intro d hd
        -- the page of the address
        have hpos : 0 < pageSz := by decide
        have hlt := Nat.mod_lt d hpos
        have hop : (d - d % pageSz) % pageSz = 0 := Nat.mod_eq_zero_of_dvd (Nat.dvd_sub_mod d)
        have hk : A.key l (va + d) = A.key l (va + (d - d % pageSz)) := by
          have hin : (va + (d - d % pageSz)) % l.pageSz + d % pageSz < l.pageSz := by
            rw [hvd _ hop, hP]
            omega
          rw [← key_add hl hin, Nat.add_assoc]
          congr 1
          have := Nat.mod_le d pageSz
          omega
        by_cases hv : A.Visited l (A.tbIndex va) va sz (va + d)
        · exact hgone _ hv
        · rw [hkept _ hv, lookup_page hk]
          by_cases hin : va % A.ktabSz + (d - d % pageSz) < A.ktabSz
          · exact absurd ⟨d - d % pageSz, by omega, hop, by rw [tbAddr_inside hw hin, hk]⟩ hv
          · exact (hbeyond _ ⟨by omega, hop, by omega⟩).1
      · intro v hv
        by_cases hvis : A.Visited l (A.tbIndex va) va sz v
        · obtain ⟨d, hd, hdp, hk⟩ := hvis
          by_cases hin : va % A.ktabSz + d < A.ktabSz
          · exfalso
            rw [tbAddr_inside hw hin] at hk
            obtain ⟨e, he, hcan⟩ := touch_block hl (hvd d hdp) hk
            obtain ⟨-, hge⟩ := pageSz_le_rest (Nat.add_sub_cancel' hd.le) hszp hdp (by omega)
            exact hv ⟨d + e, by omega, by rw [hcan, Nat.add_assoc]⟩
          · have hge := Nat.le_of_not_lt hin
            have hnone := (hbeyond d ⟨hd, hdp, hge⟩).2
            rw [tbAddr_beyond hw hge (by omega)] at hk
            rw [hgone v ⟨d, hd, hdp, by rw [tbAddr_beyond hw hge (by omega), hk]⟩, lookup_page hk, hnone]
        · exact hkept v hvis

/-- **When the kernel-window operations are those of one flat map.**  After `kmap` of a range, `kwalk`
gives its physical address and those of all its pages if and only if the blocks of the range are read
back, the range is no longer than a table and the pages that are read in the place of those beyond the
boundary were mapped.  `kunmap` clears exactly the range if and only if nothing beyond the boundary and
nothing in its place was mapped, and the traversal of the first table is exact. -/
theorem kernWindow_flat_iff {acc cachable : Nat} (hva : va < 2 ^ A.wordBits) (hpa0 : pa ≠ 0)
    (hpa : pa < 2 ^ 64) (hsz : sz ≠ 0) :
    (∀ c', A.kmap acc cachable c va pa sz = .ok c' →
      ((A.kwalk c' va sz = .ok pa ∧
          ∀ d < sz, d % pageSz = 0 → A.kwalk c' (A.add va d) pageSz = .ok (padd pa d)) ↔
        (∀ d < sz, d % pageSz = 0 → ∀ l, windowLevel va sz A.ktabLevels d = some l →
          BlockReadsBack A l.level va pa (blockStart l va d)) ∧
        sz ≤ A.ktabSz ∧ ∀ d, A.Beyond va sz d →
          (A.lookup A.ktabLevels c (va + d - A.ktabSz)).isSome)) ∧
    (∀ c', A.kunmap c va sz = .ok c' →
      (A.Writes A.ktabLevels va sz (fun _ => none) c c' ↔
        (∀ d, A.Beyond va sz d → A.lookup A.ktabLevels c (va + d) = none ∧
          A.lookup A.ktabLevels c (va + d - A.ktabSz) = none) ∧
        (∀ d < sz, A.Missed A.ktabLevels c va sz d → A.lookup A.ktabLevels c (va + d) = none) ∧
        ∀ m w, A.lookup A.ktabLevels c va = some (m, w) → va % m.pageSz = 0)) := by
  have hpos : 0 < sz := Nat.pos_of_ne_zero hsz
  constructor
  · intro c' h
    obtain ⟨hw, hm⟩ := kmap_mappedTo hva hpa h
    obtain ⟨hszp, hvap⟩ := hm.aligned
    have hvap := hvap.resolve_left hsz
    have hiff : (∀ d < sz, d % pageSz = 0 → A.kwalk c' (A.add va d) pageSz = .ok (padd pa d)) ↔
        ∀ d < sz, d % pageSz = 0 → ∀ l, windowLevel va sz A.ktabLevels d = some l →
          BlockReadsBack A l.level va pa (blockStart l va d) :=
      forall₂_congr fun d hd => forall_congr' fun hdp => kwalk_page_iff hva hw hvap hszp hm hd hdp
    rw [← hiff]
    constructor
    · rintro ⟨hrange, hpages⟩
      exact ⟨hpages, (kwalk_range_iff hva hw hvap hszp hpos hpa0 hpa hm hpages).mp hrange⟩
    · rintro ⟨hpages, hrest⟩
      exact ⟨(kwalk_range_iff hva hw hvap hszp hpos hpa0 hpa hm hpages).mpr hrest, hpages⟩
  · intro c' h
    rw [kunmap_iff hva h]
    exact ⟨fun ⟨h1, h2, h3⟩ => ⟨h1, h2, h3 hpos⟩, fun ⟨h1, h2, h3⟩ => ⟨h1, h2, fun _ => h3⟩⟩

/-- One page is mapped in the window and walked. -/
theorem windowPage_flat :
    ∃ c', arm.kmap 1 1 Cells.empty 0xf0000000 0x1000 0x1000 = .ok c' ∧
      arm.kwalk c' 0xf0000000 0x1000 = .ok 0x1000 := by
  have hrun : (arm.kmap 1 1 Cells.empty 0xf0000000 0x1000 0x1000).map (fun _ => ()) = .ok () := by
    decide
  obtain ⟨c', hc', -⟩ := map_eq_ok hrun
  refine ⟨c', hc', (((kernWindow_flat_iff (by decide) (by decide) (by decide) (by decide)).1 c'
    hc').mpr ⟨fun d hd hdp l hl => ?_, by decide, fun d hd => ?_⟩).1⟩
  · obtain rfl : d = 0 := Nat.eq_zero_of_dvd_of_lt (Nat.dvd_of_mod_eq_zero hdp) hd
    have hlevel : windowLevel 0xf0000000 0x1000 arm.ktabLevels 0 = some ⟨2, 19, 12⟩ := by decide
    rw [hlevel] at hl
    obtain rfl := Option.some.inj hl
    exact ⟨.inl (by decide), fun h => by cases h⟩
  · have h1 := hd.1
    have h2 : 0x100000 ≤ 0xf0000000 % 0x100000 + d := hd.2.2
    omega

/-- **Two pages around a table boundary.**  `kmap` maps both; `kwalk` reads the start of the first table in
the place of the second page and finds nothing, and `kunmap` leaves that page mapped. -/
theorem boundary_not_flat :
    ∃ c₁, arm.kmap 1 1 Cells.empty 0xf00ff000 0x1000 0x2000 = .ok c₁ ∧
      arm.kwalk c₁ 0xf00ff000 0x2000 ≠ .ok 0x1000 ∧
      ∃ c₂, arm.kunmap c₁ 0xf00ff000 0x2000 = .ok c₂ ∧
        ¬ arm.Writes arm.ktabLevels 0xf00ff000 0x2000 (fun _ => none) c₁ c₂ := by
  have hrun : (arm.kmap 1 1 Cells.empty 0xf00ff000 0x1000 0x2000).map (fun c₁ =>
      (arm.kwalk c₁ 0xf00ff000 0x2000, (arm.kunmap c₁ 0xf00ff000 0x2000).map fun c₂ =>
        (arm.lookup arm.ktabLevels c₂ 0xf0100000).isSome)) = .ok (.ok 0, .ok true) := by
    decide
  obtain ⟨c₁, hc₁, hpair⟩ := map_eq_ok hrun
  obtain ⟨hwalk, hun⟩ := Prod.mk.inj hpair
  obtain ⟨c₂, hc₂, hleft⟩ := map_eq_ok hun
  refine ⟨c₁, hc₁, by rw [hwalk]; decide, c₂, hc₂, fun hw => ?_⟩
  have hnone := hw.inside 0x1000 (by decide)
  rw [hnone] at hleft
  cases hleft

end Arch

end Wrmos
