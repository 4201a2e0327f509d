import Wrmos.Transfer

/-!
# The two descriptions of an address space

`Aspace` describes its user part twice, in the page tables and in the list `_uspace`, and the checks of
later map items trust the list.  `Agree` says that the two say the same of every user address: it is
mapped exactly when a region covers it, with the access of that region.

`Aspace::map` keeps them in agreement on a window that ends inside the address space and falls on
levels with map records.  `Aspace::unmap` does so on a range that lies in one region or meets none, if
no block of it is entered in the middle (`GoodRange`): the list frees a range only when one region
holds all of it, the page tables clear any range.  The two conditions are `Tame`, and `run_agree` is
the result for whole runs over any number of address spaces.
-/

namespace Wrmos

open Lib

namespace Mem

variable {A : Arch} {m m' : Mem}

/-- A call of `Aspace::map` or `Aspace::unmap` on the address space of a task. -/
inductive AspaceOp where
  | map (t va pa sz acc cachable : Nat)
  | unmap (t va sz : Nat)
  deriving DecidableEq, Repr

/-- Carry out a call. -/
def doOp (A : Arch) (m : Mem) : AspaceOp → Except Stop Mem
  | .map t va pa sz acc cachable => m.map A t va pa sz acc cachable
  | .unmap t va sz => m.unmap A t va sz

/-- An address of the user part: a page table translates it, and not by the shared tables. -/
def UserVa (A : Arch) (v : Nat) : Prop := v < 2 ^ A.vaBits ∧ ¬ A.InKern v

/-- The page tables and the regions of task `t` agree. -/
structure Agree (A : Arch) (m : Mem) (t : Nat) : Prop where
  mapped : ∀ v, UserVa A v →
    ((m.lookup A t v).isSome ↔ ∃ ty, Region.Covers (m.space t).uspace v ty)
  access : ∀ v, UserVa A v → ∀ l w ty, m.lookup A t v = some (l, w) →
    Region.Covers (m.space t).uspace v ty → acc2mmuacc A ty.acc = .ok (mmuGetAcc A l.level w)

/-- The range does not reach the end of the address space, nor the addresses that no table
translates. -/
def Fits (A : Arch) (va sz : Nat) : Prop := va + sz < 2 ^ A.wordBits ∧ va + sz ≤ 2 ^ A.vaBits

/-- The calls that keep the descriptions in agreement. -/
def Tame (A : Arch) (m : Mem) : AspaceOp → Prop
  | .map _ va _ sz _ _ => Fits A va sz ∧ A.Recordable va sz
  | .unmap t va sz => Fits A va sz ∧ Arch.GoodRange A.levels va sz ∧
      ((∃ d ∈ (m.space t).uspace, Region.Contains d va sz) ∨
        ∀ v ty, va ≤ v → v < va + sz → ¬ Region.Covers (m.space t).uspace v ty)

/-- What a run of tame calls keeps. -/
def Sound (A : Arch) (m : Mem) : Prop :=
  ∀ t, Region.Wf A (m.space t).uspace ∧ Agree A m t

/-- The user addresses that a range touches. -/
theorem touch_iff {va sz v : Nat} (hfit : Fits A va sz) (hv : v < 2 ^ A.vaBits) :
    A.Touch va sz v ↔ va ≤ v ∧ v < va + sz := by
  have hcanon : ∀ x < 2 ^ A.vaBits, A.canon x = x := fun _ hx => Nat.mod_eq_of_lt hx
  constructor
  · rintro ⟨d, hd, he⟩
    rw [hcanon v hv, hcanon _ (by have := hfit.2; omega)] at he
    omega
  · rintro ⟨h1, h2⟩
    exact ⟨v - va, by omega, by rw [Nat.add_sub_cancel' h1]⟩

theorem lt_of_fits {va sz : Nat} (hfit : Fits A va sz) : va < 2 ^ A.wordBits :=
  (Nat.le_add_right va sz).trans_lt hfit.1

/-- An address space that nothing was done to stays in agreement. -/
theorem Agree.of_same {t : Nat} (h : Agree A m t)
    (hus : (m'.space t).uspace = (m.space t).uspace)
    (hl : ∀ v, ¬ A.InKern v → m'.lookup A t v = m.lookup A t v) : Agree A m' t := by
  constructor
  · intro v hv
    rw [hus, hl v hv.2]
    exact h.mapped v hv
  · intro v hv l w ty hw
    rw [hus]
    exact h.access v hv l w ty (hl v hv.2 ▸ hw)

theorem map_cachable_le {t va pa sz acc cachable : Nat}
    (h : m.map A t va pa sz acc cachable = .ok m') : cachable ≤ 1 := by
  obtain ⟨-, l, ty, code, c, -, -, htb, -⟩ := map_eq_ok.mp h
  have hlt : ∀ {ls : List PtLevel}, A.mapTb code cachable true ls (m.cells A t) va pa sz = .ok c →
      cachable < 2 := by
    intro ls hls
    cases ls with
    | nil => cases hls
    | cons p ls => exact (Arch.mapTb_cons_ok hls).2.2.2.2.2.1
  exact Nat.le_of_lt_succ (hlt htb)

/-- `Aspace::map` of a fitting, recordable window. -/
theorem map_agree {t va pa sz acc cachable : Nat} (hwf : Region.Wf A (m.space t).uspace)
    (hag : Agree A m t) (hfit : Fits A va sz) (hrec : A.Recordable va sz)
    (h : m.map A t va pa sz acc cachable = .ok m') :
    Region.Wf A (m'.space t).uspace ∧ Agree A m' t := by
  have hsz : 0 < sz := Nat.pos_of_ne_zero (map_eq_ok.mp h).1.2.2.2.2.2
  obtain ⟨l', ty, code, hins, hcode, hus, hin, hout⟩ := map_writes (lt_of_fits hfit) h
  obtain ⟨hwf', hcov⟩ := Region.insert_spec hwf hsz hfit.1 hins
  rw [hus]
  refine ⟨hwf', ?_, ?_⟩
  · intro v hv
    rw [hus]
    by_cases ht : va ≤ v ∧ v < va + sz
    · obtain ⟨d, hd⟩ := hrec (v - va) (by omega)
      have hsome : (m'.lookup A t v).isSome := by
        rw [← Nat.add_sub_cancel' ht.1, hin (v - va) (by omega)]
        exact Arch.mapSpec_isSome.mpr ⟨d, hd⟩
      exact iff_of_true hsome ⟨ty, (hcov v ty).mpr (.inl ⟨ht, rfl⟩)⟩
    · rw [hout v (fun h => ht ((touch_iff hfit hv.1).mp h)), hag.mapped v hv]
      refine exists_congr fun ty' => ?_
      rw [hcov]
      tauto
  · intro v hv l w ty' hl hc
    rw [hus, hcov] at hc
    rcases hc with ⟨ht, rfl⟩ | ⟨ht, hc⟩
    · rw [← Nat.add_sub_cancel' ht.1, hin (v - va) (by omega), Arch.mapSpec_windowLevel] at hl
      obtain ⟨l'', -, hl⟩ := Option.bind_eq_some_iff.mp hl
      obtain ⟨w', hword, he⟩ := Option.map_eq_some_iff.mp hl
      obtain ⟨rfl, rfl⟩ := Prod.mk.inj he
      rw [hcode, mmuGetAcc_mapWord (acc2mmuacc_le hcode) (map_cachable_le h) hword]
    · rw [hout v (fun h => ht ((touch_iff hfit hv.1).mp h))] at hl
      exact hag.access v hv l w ty' hl hc

/-- `Aspace::unmap` of a fitting, good range that lies in one region or meets none. -/
theorem unmap_agree {t va sz : Nat} (hwf : Region.Wf A (m.space t).uspace) (hag : Agree A m t)
    (hfit : Fits A va sz) (hgood : Arch.GoodRange A.levels va sz)
    (hone : (∃ d ∈ (m.space t).uspace, Region.Contains d va sz) ∨
      ∀ v ty, va ≤ v → v < va + sz → ¬ Region.Covers (m.space t).uspace v ty)
    (h : m.unmap A t va sz = .ok m') : Region.Wf A (m'.space t).uspace ∧ Agree A m' t := by
  have hsz : 0 < sz := Nat.pos_of_ne_zero (unmap_eq_ok.mp h).1.2.2
  obtain ⟨l', hfree, hus, hin, hout⟩ := unmap_writes (lt_of_fits hfit) hgood h
  -- in both cases the list covers afterwards what it covered outside the range
  have hcov : Region.Wf A l' ∧ ∀ v ty, Region.Covers l' v ty ↔
      ¬ (va ≤ v ∧ v < va + sz) ∧ Region.Covers (m.space t).uspace v ty := by
    rcases hone with ⟨d, hd, hcon⟩ | hnone
    · exact Region.free_spec_inside hwf hsz hfit.1 hd hcon hfree
    · obtain rfl := Region.free_spec_outside hwf hsz hfit.1 hnone hfree
      exact ⟨hwf, fun v ty => ⟨fun hc => ⟨fun ht => hnone v ty ht.1 ht.2 hc, hc⟩, fun hc => hc.2⟩⟩
  rw [hus]
  refine ⟨hcov.1, ?_, ?_⟩
  · intro v hv
    rw [hus]
    by_cases ht : va ≤ v ∧ v < va + sz
    · have hnone : m'.lookup A t v = none := by
        rw [← Nat.add_sub_cancel' ht.1, hin (v - va) (by omega)]
      rw [hnone]
      refine iff_of_false (by simp) ?_
      rintro ⟨ty, hc⟩
      exact ((hcov.2 v ty).mp hc).1 ht
    · rw [hout v (fun h => ht ((touch_iff hfit hv.1).mp h)), hag.mapped v hv]
      refine exists_congr fun ty => ?_
      rw [hcov.2]
      tauto
  · intro v hv l w ty hl hc
    rw [hus, hcov.2] at hc
    rw [hout v (fun h => hc.1 ((touch_iff hfit hv.1).mp h))] at hl
    exact hag.access v hv l w ty hl hc.2

/-- One call: the address space it is made on, and the others. -/
theorem doOp_sound {op : AspaceOp} (hs : Sound A m) (htame : Tame A m op)
    (h : m.doOp A op = .ok m') : Sound A m' := by
  intro u
  cases op with
  | map t va pa sz acc cachable =>
    by_cases hu : u = t
    · subst hu
      exact map_agree (hs u).1 (hs u).2 htame.1 htame.2 h
    · obtain ⟨hus, hl⟩ := map_other hu h
      exact ⟨hus ▸ (hs u).1, (hs u).2.of_same hus hl⟩
  | unmap t va sz =>
    by_cases hu : u = t
    · subst hu
      exact unmap_agree (hs u).1 (hs u).2 htame.1 htame.2.1 htame.2.2 h
    · obtain ⟨hus, hl⟩ := unmap_other hu h
      exact ⟨hus ▸ (hs u).1, (hs u).2.of_same hus hl⟩

/-- A fresh address space has nothing in either description. -/
theorem sound_fresh (A : Arch) (kern : Cells) (kspace : List (Desc AccType)) :
    Sound A (fresh A kern kspace) := by
  intro t
  have hnone : ∀ v, ¬ A.InKern v → (fresh A kern kspace).lookup A t v = none := by
    intro v hv
    have hcell : ∀ l ∈ A.levels, ∀ w,
        A.cellAt ((fresh A kern kspace).cells A t) l v ≠ .map w := by
      intro l hl w hmap
      have hns : ¬ A.Shared l.level (A.key l v) := fun h => hv ((Arch.shared_key hl v).mp h).2
      have hword := Arch.eq_map_of_cellAt hmap
      simp only [cells, fresh, Arch.view, if_neg hns, Arch.freshRoot] at hword
      split_ifs at hword
    cases hl : (fresh A kern kspace).lookup A t v with
    | none => rfl
    | some r =>
      obtain ⟨l, w⟩ := r
      exact absurd (Arch.cellAt_of_lookup hl) (hcell l (Arch.lookup_mem hl) w)
  refine ⟨⟨List.Pairwise.nil, fun d hd => by cases hd⟩, fun v hv => ?_, fun v hv l w ty hl => ?_⟩
  · rw [hnone v hv.2]
    refine iff_of_false (by simp) ?_
    rintro ⟨ty, d, hd, -⟩
    cases hd
  · rw [hnone v hv.2] at hl
    cases hl

/-- **The region list and the page table agree** in every state that a run of tame calls reaches. -/
theorem run_agree {kern : Cells} {kspace : List (Desc AccType)} {ops : List AspaceOp}
    (htame : Meets (doOp A) (Tame A) (fresh A kern kspace) ops)
    (h : runAll (doOp A) (fresh A kern kspace) ops = .ok m) : ∀ t, Agree A m t := by
  have hsound : Sound A m :=
    runAll_invariant (fun _ _ _ hs ht he => doOp_sound hs ht he) (sound_fresh A kern kspace) htame h
  exact fun t => (hsound t).2

/-- A page is mapped and unmapped again. -/
def mapUnmap : List AspaceOp :=
  [.map 2 0x10000 0x40005000 0x1000 Acc.urw 1, .unmap 2 0x10000 0x1000]

theorem mapUnmap_agree :
    ∃ m, runAll (doOp .sparc) (fresh .sparc Cells.empty []) mapUnmap = .ok m ∧
      ∀ t, Agree .sparc m t := by
  have hregion : ((fresh .sparc Cells.empty []).doOp .sparc
      (.map 2 0x10000 0x40005000 0x1000 Acc.urw 1)).map (fun m => (m.space 2).uspace) =
        .ok [⟨0x10000, 0x1000, ⟨Acc.urw, true⟩⟩] := by decide +kernel
  have hrun : okAnd (runAll (doOp .sparc) (fresh .sparc Cells.empty []) mapUnmap) (fun _ => true) =
      true := by decide +kernel
  have hfit : Fits .sparc 0x10000 0x1000 := by
    unfold Fits
    decide
  obtain ⟨m, h, -⟩ := okAnd_iff.mp hrun
  have htame : Meets (doOp .sparc) (Tame .sparc) (fresh .sparc Cells.empty []) mapUnmap := by
    refine ⟨⟨hfit, Arch.recordable_of_hasMap (fun _ _ => rfl) rfl rfl⟩, fun m₁ h₁ => ?_⟩
    refine ⟨⟨hfit, by decide, .inl ?_⟩, fun _ _ => trivial⟩
    rw [h₁] at hregion
    have hus : (m₁.space 2).uspace = _ := Except.ok.inj hregion
    rw [hus]
    exact ⟨_, List.mem_singleton.mpr rfl, Nat.le_refl _, Nat.le_refl _⟩
  exact ⟨m, h, run_agree htame h⟩

/-- Two neighbouring pages with different access, and a flexpage over both that is unmapped. -/
def unmapAcross : List AspaceOp :=
  [.map 2 0x10000 0x40005000 0x1000 Acc.urw 1, .map 2 0x11000 0x40009000 0x1000 Acc.ur 1,
    .unmap 2 (Fpage.addr .sparc (Fpage.create .sparc 0x10000 0x2000 7))
      (Fpage.size .sparc (Fpage.create .sparc 0x10000 0x2000 7))]

/-- Both regions stay in the list, and neither page is mapped. -/
theorem unmapAcross_not_agree :
    ∃ m, runAll (doOp .sparc) (fresh .sparc Cells.empty []) unmapAcross = .ok m ∧
      ¬ Agree .sparc m 2 := by
  have hrun : okAnd (runAll (doOp .sparc) (fresh .sparc Cells.empty []) unmapAcross) (fun m =>
      decide (m.lookup .sparc 2 0x10000 = none ∧
        (m.space 2).uspace = [⟨0x10000, 0x1000, ⟨Acc.urw, true⟩⟩, ⟨0x11000, 0x1000, ⟨Acc.ur, true⟩⟩])) =
      true := by decide +kernel
  obtain ⟨m, h, hm⟩ := okAnd_iff.mp hrun
  obtain ⟨hnone, hus⟩ := of_decide_eq_true hm
  refine ⟨m, h, fun hag => ?_⟩
  have huser : UserVa .sparc 0x10000 := ⟨by decide, by decide⟩
  have hcov : ∃ ty, Region.Covers (m.space 2).uspace 0x10000 ty := by
    rw [hus]
    exact ⟨_, _, List.mem_cons_self, ⟨by decide, by decide⟩, rfl⟩
  have hsome := (hag.mapped 0x10000 huser).mpr hcov
  rw [hnone] at hsome
  cases hsome

end Mem

end Wrmos
