import Wrmos.AspaceSpec

/-!
# The memory states that can occur

Whatever the kernel does to its memory state it does by `Aspace::map` and `Aspace::unmap` on some
address space, by making the address space of a new task, and by its own use of the shared tables.
`Mem.Reach` collects these.  In every state so reached the directories over the kernel window stand in
every root (`Reach.kernDirs`): a directory record is never replaced, neither by `Ptable::map`
(`mapTb_dirs`) nor by `Ptable::unmap` (`unmapTb_dirs`).  So all address spaces translate the kernel
window alike (`Reach.lookup_kern`).
-/

namespace Wrmos

open Lib

namespace Arch

variable {A : Arch}

theorem eq_dir_of_cellAt {c : Cells} {l : PtLevel} {v : Nat} (h : A.cellAt c l v = .dir) :
    c l.level (A.key l v) = .dir := by
  unfold cellAt at h
  cases hcell : c l.level (A.key l v) with
  | inv => simp [hcell] at h
  | dir => rfl
  | map w =>
    rw [hcell] at h
    dsimp only at h
    split_ifs at h

theorem cellAt_of_eq_dir {c : Cells} {l : PtLevel} {v : Nat}
    (h : c l.level (A.key l v) = .dir) : A.cellAt c l v = .dir := by
  unfold cellAt
  rw [h]

/-- A new table below an invalid record leaves a path of directories alone. -/
theorem newTable_dirs {K v va : Nat} {l : PtLevel} {ls : List PtLevel} {c : Cells}
    (hc : PtChain A.vaBits (l :: ls)) (hinv : A.cellAt c l va = .inv)
    (h : ∀ m ∈ l :: ls, m.level < K → A.cellAt c m v = .dir) :
    ∀ m ∈ l :: ls, m.level < K → A.cellAt (A.newTable c l ls.head? va) m v = .dir := by
  intro m hm hmK
  have hl := h l List.mem_cons_self
  have hle : l.level ≤ m.level := by
    rcases List.mem_cons.mp hm with rfl | hm
    · exact Nat.le_refl _
    · exact (hc.lt_of_mem hm).1.le
  -- the record of `v` is a directory, so the new table is not on its path
  have hne : A.key l v ≠ A.key l va := by
    intro hk
    have hdir := hl (by omega)
    rw [cellAt_congr hk, hinv] at hdir
    cases hdir
  have hold := eq_dir_of_cellAt (h m hm hmK)
  apply cellAt_of_eq_dir
  unfold newTable
  rw [if_neg ?_]
  · cases ls with
    | nil => exact hold
    | cons n ls =>
      simp only [List.head?_cons]
      rw [if_neg ?_]
      · exact hold
      · rintro ⟨hmn, hk⟩
        rcases List.mem_cons.mp hm with rfl | hm
        · exact (hc.lt_of_mem List.mem_cons_self).1.ne hmn
        · rcases List.mem_cons.mp hm with rfl | hm
          · rw [key_div (hc.lt_of_mem List.mem_cons_self).2.le] at hk
            exact hne hk
          · exact (hc.tail.lt_of_mem hm).1.ne' hmn
  · rintro ⟨hml, hk⟩
    rcases List.mem_cons.mp hm with rfl | hm
    · exact hne hk
    · exact (hc.lt_of_mem hm).1.ne' hml

/-- `Ptable::map` keeps a path of directories. -/
theorem mapTb_dirs {acc cachable K v : Nat} {allow : Bool} :
    ∀ {ls : List PtLevel} {c c' : Cells} {va pa size : Nat}, PtChain A.vaBits ls →
      va < 2 ^ A.wordBits → (∀ m ∈ ls, m.level < K → A.cellAt c m v = .dir) →
      A.mapTb acc cachable allow ls c va pa size = .ok c' →
      ∀ m ∈ ls, m.level < K → A.cellAt c' m v = .dir := by
  intro ls
  induction ls with
  | nil => intro c c' va pa size _ _ _ h; cases h
  | cons l ls ih =>
    intro c c' va pa size hc hva hdir h
    obtain ⟨-, -, -, -, -, -, hloop⟩ := mapTb_cons_ok h
    let Inv : Cells → Nat → Nat → Prop := fun s cur _ =>
      cur < 2 ^ A.wordBits ∧ ∀ m ∈ l :: ls, m.level < K → A.cellAt s m v = .dir
    have hstep : ∀ s cur rest s' len, Inv s cur rest → rest ≠ 0 →
        A.mapStep l ls.head? (A.mapTb acc cachable allow ls) va pa acc cachable allow s cur rest =
          .ok (s', len) → Inv s' (A.add cur len) (rest - len) := by
      rintro s cur rest s' len ⟨hcur, hI⟩ - hs
      refine ⟨A.add_lt _ _, ?_⟩
      rcases mapStep_cases hs with ⟨-, -, hne, -, w, -, rfl⟩ | ⟨-, -, c₁, hc₁, hchild⟩
      · intro m hm hmK
        cases w with
        | none => exact hI m hm hmK
        | some w =>
          rw [storeMap, cellAt_setCell_ne, hI m hm hmK]
          rcases List.mem_cons.mp hm with rfl | hm
          · exact .inr fun hk => hne ((cellAt_congr hk).symm.trans (hI m List.mem_cons_self hmK))
          · exact .inl (hc.lt_of_mem hm).1.ne'
      · have hI₁ : ∀ m ∈ l :: ls, m.level < K → A.cellAt c₁ m v = .dir := by
          rcases childTable_eq_ok.mp hc₁ with ⟨hinv, rfl⟩ | ⟨-, rfl⟩
          · exact newTable_dirs hc hinv hI
          · exact hI
        intro m hm hmK
        rcases List.mem_cons.mp hm with rfl | hm'
        · obtain ⟨hlev, -⟩ := mapTb_spec hc.tail hcur hchild
          rw [cellAt_of_level (hlev m.level fun n hn => (hc.lt_of_mem hn).1.ne'), hI₁ m hm hmK]
        · exact ih hc.tail hcur (fun n hn => hI₁ n (List.mem_cons_of_mem l hn)) hchild m hm' hmK
    obtain ⟨-, -, hI⟩ := rangeLoop_invariant hstep ⟨hva, hdir⟩ hloop
    exact hI

/-- `Ptable::unmap` keeps every directory. -/
theorem unmapTb_dirs {ls : List PtLevel} {c c' : Cells} {va size v : Nat} {l : PtLevel}
    (hva : va < 2 ^ A.wordBits) (h : A.unmapTb ls c va size = .ok c')
    (hdir : A.cellAt c l v = .dir) : A.cellAt c' l v = .dir := by
  have hold := eq_dir_of_cellAt hdir
  rcases unmapTb_footprint hva h l.level (A.key l v) with hsame | ⟨⟨w, hw⟩, -⟩
  · exact cellAt_of_eq_dir (hsame.trans hold)
  · rw [hold] at hw
    cases hw

/-- Above the shared tables, the kernel window is reached through directories. -/
def KernDirs (A : Arch) (c : Cells) : Prop :=
  ∀ v, A.InKern v → ∀ l ∈ A.levels, l.level < A.ktabLevel → A.cellAt c l v = .dir

theorem levels_pos {l : PtLevel} (hl : l ∈ A.levels) : 0 < l.level := by
  cases A <;> simp only [levels, List.mem_cons, List.not_mem_nil, or_false] at hl <;>
    rcases hl with rfl | rfl | rfl | rfl <;> decide

/-- The constructor of `Pgtab` makes them. -/
theorem kernDirs_freshRoot (kern : Cells) : A.KernDirs (A.view kern A.freshRoot) := by
  intro v hv l hl hlev
  have hns : ¬ A.Shared l.level (A.key l v) := fun h => Nat.not_lt.mpr h.1 hlev
  apply cellAt_of_eq_dir
  unfold view freshRoot
  rw [if_neg hns, levelSz_of_mem hl]
  refine if_pos ⟨hlev, ?_, ?_, levels_pos hl⟩
  · exact (Nat.div_mul_le_self _ _).trans_lt hv.2
  · exact hv.1.trans_lt (Nat.lt_mul_of_div_lt (Nat.lt_succ_self _) l.pageSz_pos)

end Arch

namespace Mem

variable {A : Arch} {m m' : Mem}

/-- The memory states that can occur. -/
inductive Reach (A : Arch) : Mem → Prop
  | fresh (kern : Cells) (kspace : List (Desc AccType)) :
      Reach A ⟨kern, kspace, fun _ => ⟨A.freshRoot, []⟩⟩
  | map {m m' : Mem} {t va pa sz acc cachable : Nat} : Reach A m → va < 2 ^ A.wordBits →
      m.map A t va pa sz acc cachable = .ok m' → Reach A m'
  | unmap {m m' : Mem} {t va sz : Nat} : Reach A m → va < 2 ^ A.wordBits →
      m.unmap A t va sz = .ok m' → Reach A m'
  | newTask {m : Mem} (t : Nat) : Reach A m →
      Reach A { m with space := Function.update m.space t ⟨A.freshRoot, []⟩ }
  | kernel {m : Mem} (kern : Cells) (kspace : List (Desc AccType)) : Reach A m →
      Reach A { m with kern := kern, kspace := kspace }

/-- Records above the shared tables belong to one root. -/
theorem cellAt_private {l : PtLevel} (hlev : l.level < A.ktabLevel) (t v : Nat) :
    A.cellAt (m.cells A t) l v = A.cellAt (m.space t).root l v := by
  have hns : ¬ A.Shared l.level (A.key l v) := fun h => Nat.not_lt.mpr h.1 hlev
  unfold Arch.cellAt cells Arch.view
  rw [if_neg hns]

/-- A traversal from one root that keeps the directories over the kernel window keeps them in all. -/
theorem kernDirs_putCells {t : Nat} {c : Cells} {l : List (Desc AccType)}
    (h : ∀ u, A.KernDirs (m.cells A u)) (hc : A.KernDirs c) (u : Nat) :
    A.KernDirs (((m.putUspace t l).putCells A t c).cells A u) := by
  by_cases hu : u = t
  · subst hu
    rw [cells_putCells_self]
    exact hc
  · intro v hv p hp hlev
    rw [cellAt_private hlev]
    have hold := h u v hv p hp hlev
    rw [cellAt_private hlev] at hold
    simpa [putCells, putUspace, hu] using hold

theorem Reach.kernDirs (h : Reach A m) : ∀ t, A.KernDirs (m.cells A t) := by
  induction h with
  | fresh kern kspace => exact fun _ => Arch.kernDirs_freshRoot kern
  | map _ hva hmap ih =>
    obtain ⟨-, l, ty, code, c, -, -, htb, rfl⟩ := map_eq_ok.mp hmap
    refine kernDirs_putCells ih fun v hv p hp hlev => ?_
    exact Arch.mapTb_dirs (ptChain_levels A) hva (fun q hq hK => ih _ v hv q hq hK) htb p hp hlev
  | unmap _ hva hunmap ih =>
    obtain ⟨-, l, c, -, htb, rfl⟩ := unmap_eq_ok.mp hunmap
    refine kernDirs_putCells ih fun v hv p hp hlev => ?_
    exact Arch.unmapTb_dirs hva htb (ih _ v hv p hp hlev)
  | @newTask m t _ ih =>
    intro u
    by_cases hu : u = t
    · subst hu
      have hcells : cells A { m with space := Function.update m.space u ⟨A.freshRoot, []⟩ } u =
          A.view m.kern A.freshRoot := by simp [cells]
      rw [hcells]
      exact Arch.kernDirs_freshRoot m.kern
    · have hcells : cells A { m with space := Function.update m.space t ⟨A.freshRoot, []⟩ } u =
          m.cells A u := by simp [cells, hu]
      rw [hcells]
      exact ih u
  | kernel kern kspace _ ih =>
    intro u v hv p hp hlev
    rw [cellAt_private hlev]
    have hold := ih u v hv p hp hlev
    rwa [cellAt_private hlev] at hold

/-- **All address spaces translate the kernel window alike.** -/
theorem Reach.lookup_kern (h : Reach A m) {v : Nat} (hv : A.InKern v) (t u : Nat) :
    m.lookup A t v = m.lookup A u v := by
  apply Arch.lookup_of_cells
  intro l hl
  by_cases hlev : l.level < A.ktabLevel
  · rw [h.kernDirs t v hv l hl hlev, h.kernDirs u v hv l hl hlev]
  · have hs : A.Shared l.level (A.key l v) := (Arch.shared_key hl v).mpr ⟨by omega, hv⟩
    unfold Arch.cellAt cells Arch.view
    rw [if_pos hs, if_pos hs]

end Mem

end Wrmos
