import Wrmos.Aspace
import Wrmos.PtableUnmap
import Wrmos.PtableWalk
import Wrmos.RegionSpec

/-!
# Mapping and unmapping in one of several address spaces

The kernel window is made of whole blocks on the levels of the shared tables (`saturated_inKern`), so
an address outside it is translated by the records of its own address space only, and an operation on
one address space leaves the translation of such an address in every other alone
(`lookup_putCells_other`).  With that, what `Ptable::map` and `Ptable::unmap` do to a tree of tables is
what `Aspace::map` and `Aspace::unmap` do to the memory state: `map_writes`, `unmap_writes`,
`unmap_spares`.
-/

namespace Wrmos

open Lib

namespace Arch

variable {A : Arch}

theorem levelSz_of_mem {l : PtLevel} (hl : l ∈ A.levels) : A.levelSz l.level = l.pageSz := by
  cases A <;> simp only [levels, List.mem_cons, List.not_mem_nil, or_false] at hl <;>
    rcases hl with rfl | rfl | rfl | rfl <;> rfl

theorem low_le_vaBits {l : PtLevel} (hl : l ∈ A.levels) : l.low ≤ A.vaBits := by
  cases A <;> simp only [levels, List.mem_cons, List.not_mem_nil, or_false] at hl <;>
    rcases hl with rfl | rfl | rfl | rfl <;> decide

/-- Levels are told apart by their numbers. -/
theorem level_inj {l m : PtLevel} (hl : l ∈ A.levels) (hm : m ∈ A.levels)
    (h : l.level = m.level) : l = m := by
  cases A <;> simp only [levels, List.mem_cons, List.not_mem_nil, or_false] at hl hm <;>
    rcases hl with rfl | rfl | rfl | rfl <;> rcases hm with rfl | rfl | rfl | rfl <;>
    first | rfl | exact absurd h (by decide)

theorem inKern_congr {v v' : Nat} (h : A.canon v = A.canon v') (hv : A.InKern v) :
    A.InKern v' := by
  unfold InKern at *
  rwa [← h]

/-- **The kernel window is made of whole blocks** on the levels of the shared tables and on the level
above. -/
theorem saturated_inKern {l : PtLevel} (hl : l ∈ A.levels) (hlev : A.ktabLevel ≤ l.level + 1) :
    A.Saturated l A.InKern := by
  intro v v' hk
  unfold InKern key at *
  generalize A.canon v = x at *
  generalize A.canon v' = y at *
  cases A <;> simp only [levels, List.mem_cons, List.not_mem_nil, or_false] at hl <;>
    rcases hl with rfl | rfl | rfl | rfl <;>
    simp [ktabLevel, kernVa, krnVaddr, ktabSz, canon, vaBits, kspaceSz, PtLevel.pageSz] at * <;>
    omega

/-- The record of `v` at level `l` is shared exactly in the kernel window. -/
theorem shared_key {l : PtLevel} (hl : l ∈ A.levels) (v : Nat) :
    A.Shared l.level (A.key l v) ↔ A.ktabLevel ≤ l.level ∧ A.InKern v := by
  unfold Shared
  rw [levelSz_of_mem hl]
  refine and_congr_right fun hlev => ?_
  have hkey : A.key l (A.key l v * l.pageSz) = A.key l v := by
    rw [key_eq (low_le_vaBits hl), Nat.mul_div_cancel _ l.pageSz_pos, key_eq (low_le_vaBits hl),
      Nat.mod_mod]
  have hsat := saturated_inKern hl (by omega : A.ktabLevel ≤ l.level + 1)
  exact ⟨hsat _ _ hkey, hsat _ _ hkey.symm⟩

/-- Taking a view apart and putting it together again. -/
theorem view_parts (kern root c : Cells) :
    A.view (A.kernPart kern c) (A.rootPart root c) = c := by
  funext n k
  unfold view kernPart rootPart
  by_cases h : A.Shared n k <;> simp [h]

end Arch

namespace Mem

variable {A : Arch} {m m' : Mem} {t u v : Nat}

@[simp] theorem cells_putUspace (l : List (Desc AccType)) :
    (m.putUspace t l).cells A u = m.cells A u := by
  unfold cells putUspace
  by_cases h : u = t
  · subst h
    simp
  · simp [h]

@[simp] theorem lookup_putUspace (l : List (Desc AccType)) :
    (m.putUspace t l).lookup A u v = m.lookup A u v := by
  unfold lookup
  rw [cells_putUspace]

theorem cells_putCells_self (c : Cells) : (m.putCells A t c).cells A t = c := by
  simp only [cells, putCells, Function.update_self]
  exact Arch.view_parts _ _ _

@[simp] theorem lookup_putCells_self (c : Cells) :
    (m.putCells A t c).lookup A t v = A.lookup A.levels c v := by
  unfold lookup
  rw [cells_putCells_self]

/-- Outside the kernel window an operation on one address space leaves the translations of the others
alone. -/
theorem lookup_putCells_other (hu : u ≠ t) (hv : ¬ A.InKern v) (c : Cells) :
    (m.putCells A t c).lookup A u v = m.lookup A u v := by
  unfold lookup
  apply Arch.lookup_of_cells
  intro l hl
  have hns : ¬ A.Shared l.level (A.key l v) := fun h => hv ((Arch.shared_key hl v).mp h).2
  simp only [cells, putCells, Function.update_of_ne hu]
  unfold Arch.cellAt Arch.view
  rw [if_neg hns, if_neg hns]

@[simp] theorem uspace_putCells (c : Cells) :
    ((m.putCells A t c).space u).uspace = (m.space u).uspace := by
  unfold putCells
  by_cases h : u = t
  · subst h
    simp
  · simp [h]

theorem uspace_putUspace_self (l : List (Desc AccType)) :
    ((m.putUspace t l).space t).uspace = l := by
  simp [putUspace]

theorem uspace_putUspace_other (hu : u ≠ t) (l : List (Desc AccType)) :
    ((m.putUspace t l).space u).uspace = (m.space u).uspace := by
  simp [putUspace, hu]

/-- The checks of `Aspace::map`, and the three steps behind them. -/
theorem map_eq_ok {va pa sz acc cachable : Nat} :
    m.map A t va pa sz acc cachable = .ok m' ↔
      (va % pageSz = 0 ∧ pa % pageSz = 0 ∧ sz % pageSz = 0 ∧ va ≠ 0 ∧ pa ≠ 0 ∧ sz ≠ 0) ∧
      ∃ l ty code c, Region.insert A aspaceRoom (m.space t).uspace va sz
          ⟨mapAcc A acc, decide (cachable = 1)⟩ .combine = .ok (l, ty) ∧
        acc2mmuacc A ty.acc = .ok code ∧
        A.mapTb code cachable true A.levels (m.cells A t) va pa sz = .ok c ∧
        m' = (m.putUspace t l).putCells A t c := by
  unfold map
  simp only [ensure_bind_eq_ok]
  simp only [bind_eq_ok, Prod.exists, pure, Except.pure, Except.ok.injEq,
    and_assoc, exists_and_left, eq_comm (a := m')]

/-- The checks of `Aspace::unmap`, and the two steps behind them. -/
theorem unmap_eq_ok {va sz : Nat} :
    m.unmap A t va sz = .ok m' ↔
      (va % pageSz = 0 ∧ sz % pageSz = 0 ∧ sz ≠ 0) ∧
      ∃ l c, Region.free A aspaceRoom (m.space t).uspace va sz = .ok l ∧
        A.unmapTb A.levels (m.cells A t) va sz = .ok c ∧
        m' = (m.putUspace t l).putCells A t c := by
  unfold unmap
  simp only [ensure_bind_eq_ok]
  simp only [bind_eq_ok, pure, Except.pure, Except.ok.injEq, and_assoc,
    exists_and_left, eq_comm (a := m')]

/-- The checks of `Aspace::walk`. -/
theorem walk_eq_ok {va sz pa : Nat} :
    m.walk A t va sz = .ok pa ↔
      (va % pageSz = 0 ∧ sz % pageSz = 0 ∧ va ≠ 0 ∧ sz ≠ 0) ∧
      A.walkTb (m.cells A t) A.levels va sz = .ok pa := by
  unfold walk
  simp only [ensure_bind_eq_ok, and_assoc]

/-- The translations in task `t` after `Aspace::map`. -/
theorem map_writes {va pa sz acc cachable : Nat} (hva : va < 2 ^ A.wordBits)
    (h : m.map A t va pa sz acc cachable = .ok m') :
    ∃ l ty code, Region.insert A aspaceRoom (m.space t).uspace va sz
        ⟨mapAcc A acc, decide (cachable = 1)⟩ .combine = .ok (l, ty) ∧
      acc2mmuacc A ty.acc = .ok code ∧ (m'.space t).uspace = l ∧
      (∀ d < sz, m'.lookup A t (va + d) = A.mapSpec code cachable va pa sz A.levels d) ∧
      ∀ v, ¬ A.Touch va sz v → m'.lookup A t v = m.lookup A t v := by
  obtain ⟨-, l, ty, code, c, hins, hcode, hmap, rfl⟩ := map_eq_ok.mp h
  obtain ⟨-, hw⟩ := Arch.mapTb_spec (ptChain_levels A) hva hmap
  refine ⟨l, ty, code, hins, hcode, ?_, ?_, ?_⟩
  · rw [uspace_putCells, uspace_putUspace_self]
  · intro d hd
    rw [lookup_putCells_self, hw.inside d hd]
  · intro v hv
    rw [lookup_putCells_self, hw.outside v hv]
    rfl

/-- The other address spaces after `Aspace::map`. -/
theorem map_other {va pa sz acc cachable : Nat} (hu : u ≠ t)
    (h : m.map A t va pa sz acc cachable = .ok m') :
    (m'.space u).uspace = (m.space u).uspace ∧
      ∀ v, ¬ A.InKern v → m'.lookup A u v = m.lookup A u v := by
  obtain ⟨-, l, ty, code, c, -, -, -, rfl⟩ := map_eq_ok.mp h
  refine ⟨by rw [uspace_putCells, uspace_putUspace_other hu], fun v hv => ?_⟩
  rw [lookup_putCells_other hu hv, lookup_putUspace]

/-- The other address spaces after `Aspace::unmap`. -/
theorem unmap_other {va sz : Nat} (hu : u ≠ t) (h : m.unmap A t va sz = .ok m') :
    (m'.space u).uspace = (m.space u).uspace ∧
      ∀ v, ¬ A.InKern v → m'.lookup A u v = m.lookup A u v := by
  obtain ⟨-, l, c, -, -, rfl⟩ := unmap_eq_ok.mp h
  refine ⟨by rw [uspace_putCells, uspace_putUspace_other hu], fun v hv => ?_⟩
  rw [lookup_putCells_other hu hv, lookup_putUspace]

/-- The translations in task `t` after `Aspace::unmap` of a good range. -/
theorem unmap_writes {va sz : Nat} (hva : va < 2 ^ A.wordBits)
    (hgood : Arch.GoodRange A.levels va sz) (h : m.unmap A t va sz = .ok m') :
    ∃ l, Region.free A aspaceRoom (m.space t).uspace va sz = .ok l ∧ (m'.space t).uspace = l ∧
      (∀ d < sz, m'.lookup A t (va + d) = none) ∧
      ∀ v, ¬ A.Touch va sz v → m'.lookup A t v = m.lookup A t v := by
  obtain ⟨-, l, c, hfree, hunmap, rfl⟩ := unmap_eq_ok.mp h
  obtain ⟨-, hw⟩ := Arch.unmapTb_spec (ptChain_levels A) hva hgood hunmap
  refine ⟨l, hfree, ?_, ?_, ?_⟩
  · rw [uspace_putCells, uspace_putUspace_self]
  · intro d hd
    rw [lookup_putCells_self, hw.inside d hd]
  · intro v hv
    rw [lookup_putCells_self, hw.outside v hv]
    rfl

/-- A translation in task `t` survives `Aspace::unmap` of any range when its record covers no address
of it. -/
theorem unmap_spares {va sz w : Nat} {l : PtLevel} (hva : va < 2 ^ A.wordBits)
    (h : m.unmap A t va sz = .ok m') (hv : m.lookup A t v = some (l, w))
    (hout : ∀ d < sz, A.key l v ≠ A.key l (va + d)) : m'.lookup A t v = some (l, w) := by
  obtain ⟨-, l', c, -, hunmap, rfl⟩ := unmap_eq_ok.mp h
  rw [lookup_putCells_self]
  exact Arch.lookup_of_cleared (fun p hp q hq => Arch.level_inj hp hq)
    (Arch.unmapTb_footprint hva hunmap) hv hout

/-- No translation comes into being by `Aspace::unmap`. -/
theorem unmap_some {va sz : Nat} {r : PtLevel × Nat} (hva : va < 2 ^ A.wordBits)
    (h : m.unmap A t va sz = .ok m') (hv : m'.lookup A t v = some r) : m.lookup A t v = some r := by
  obtain ⟨-, l', c, -, hunmap, rfl⟩ := unmap_eq_ok.mp h
  rw [lookup_putCells_self] at hv
  exact Arch.lookup_some_of_cleared (Arch.unmapTb_footprint hva hunmap) hv

/-- A non-zero answer of `Aspace::walk`. -/
theorem walk_spec {va sz pa : Nat} (hva : va < 2 ^ A.wordBits) (h : m.walk A t va sz = .ok pa)
    (hpa : pa ≠ 0) :
    (∀ d < sz, (m.lookup A t (va + d)).isSome) ∧
      pa = A.firstAddr A.levels (m.cells A t) va sz := by
  obtain ⟨-, hw⟩ := walk_eq_ok.mp h
  exact Arch.walkTb_spec (ptChain_levels A) hva hw hpa

end Mem

end Wrmos
