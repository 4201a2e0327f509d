import Wrmos.SyscallsSpec
import Wrmos.Transfer

/-!
# What MemoryControl does to a list of flexpages

The control word of `MemoryControl` names the last flexpage of a list, `k` in its low six bits, and each
flexpage selects one of four attributes.  The call should give every page of `mr[0]` to `mr[k]` the
attribute that is selected for it, and change neither the frame nor the access of a page, nor any other
mapping (`Applied`).

The mask of `syscall_memory_control` keeps the other bits of the word: a call that succeeds has worked on
`mr[0]` and on nothing else.  It maps that flexpage to its own address and with the access of the region
around it, which changes nothing but the attribute when the page was mapped so before.  The list is
done when the pages of the other flexpages have their attribute already (`Settled`);
`memoryControl_applied_iff` says that the call does what it should in these states and in no others.
-/

namespace Wrmos

open Lib

/-- A window on levels with map records has frames. -/
theorem Arch.heldFrame_isSome {A : Arch} {va pa size : Nat} (h : A.Recordable va size) :
    ∀ d < size, (A.heldFrame va pa size d).isSome := by
  intro d hd
  obtain ⟨l, hl, hmap⟩ := h d hd
  rw [heldFrame, hl, Option.bind_some, if_pos hmap]
  rfl

namespace Mem

variable {A : Arch} {m m' : Mem}

/-- The cache attribute of the record of an address in task `t`. -/
def cachedAt (A : Arch) (m : Mem) (t v : Nat) : Option Nat :=
  (m.lookup A t v).map fun r => mmuGetMapCached A r.2

/-- The access code of the record of an address in task `t`. -/
def accAt (A : Arch) (m : Mem) (t v : Nat) : Option Nat :=
  (m.lookup A t v).map fun r => mmuGetAcc A r.1.level r.2

/-- The access code for the region of task `t` that contains the range. -/
def regionCode (A : Arch) (m : Mem) (t va sz : Nat) : Option Nat :=
  (Region.find A (m.space t).uspace va sz).bind fun d => (acc2mmuacc A d.type.acc).toOption

theorem lookup_canon {t x y : Nat} (h : A.canon x = A.canon y) : m.lookup A t x = m.lookup A t y :=
  Arch.lookup_congr h

theorem cachedAt_canon {t x y : Nat} (h : A.canon x = A.canon y) :
    m.cachedAt A t x = m.cachedAt A t y := by
  simp only [cachedAt, lookup_canon h]

theorem accAt_canon {t x y : Nat} (h : A.canon x = A.canon y) : m.accAt A t x = m.accAt A t y := by
  simp only [accAt, lookup_canon h]

theorem frame_canon {t x y : Nat} (h : A.canon x = A.canon y) : m.frame A t x = m.frame A t y := by
  simp only [frame, lookup_canon h]
  cases hl : m.lookup A t y with
  | none => rfl
  | some r =>
    obtain ⟨l, w⟩ := r
    have hlow := Arch.low_le_vaBits (Arch.lookup_mem hl)
    simp only [Option.map_some, mmuFrame]
    rw [← Arch.canon_mod hlow x, h, Arch.canon_mod hlow]

/-- A range inside a region that is mapped to its own address without any access of its own: every page
has the attribute and the access of the region, wherever it has a record. -/
theorem map_own {t va sz cachable : Nat} {reg : Desc AccType} (hva : va < 2 ^ A.wordBits)
    (hc : cachable ≤ 1) (hfind : Region.find A (m.space t).uspace va sz = some reg)
    (h : m.map A t va va sz 0 cachable = .ok m') {d : Nat} (hd : d < sz) :
    m'.frame A t (va + d) = A.heldFrame va va sz d ∧
      ((m'.frame A t (va + d)).isSome → m'.cachedAt A t (va + d) = some cachable ∧
        m'.accAt A t (va + d) = m.regionCode A t va sz) := by
  refine ⟨map_frame hva hc h d hd, fun hsome => ?_⟩
  obtain ⟨l, ty, code, hins, hcode, -, hin, -⟩ := map_writes hva h
  -- the region gives its access to the range
  obtain ⟨⟨b, pos, a⟩, hpos, rfl⟩ := Option.map_eq_some_iff.mp hfind
  have hty : ty.acc = pos.type.acc := by
    rw [Region.insertFrom_of_find hpos hins]
    have hzero : mapAcc A 0 = 0 := by cases A <;> rfl
    simp only [hzero]
    exact Nat.zero_or _
  have hreg : m.regionCode A t va sz = some code := by
    rw [regionCode, hfind, Option.bind_some, ← hty, hcode]
    rfl
  rw [frame, Option.isSome_map] at hsome
  obtain ⟨⟨l', w⟩, hl⟩ := Option.isSome_iff_exists.mp hsome
  have hspec := (hin d hd).symm.trans hl
  rw [Arch.mapSpec_windowLevel] at hspec
  obtain ⟨l'', -, hspec⟩ := Option.bind_eq_some_iff.mp hspec
  obtain ⟨w', hword, hrec⟩ := Option.map_eq_some_iff.mp hspec
  obtain ⟨rfl, rfl⟩ := Prod.mk.inj hrec
  have hle := acc2mmuacc_le hcode
  rw [cachedAt, accAt, hl, hreg, Option.map_some, Option.map_some, mmuGetMapCached_mapWord hle hc hword,
    mmuGetAcc_mapWord hle hc hword]
  exact ⟨rfl, rfl⟩

end Mem

namespace Sys

variable {A : Arch} {σ σ' : Sys} {attr : Nat → Nat} {control k : Nat}

/-- The attribute that a flexpage selects: `NotCachable` is 0 and `Cachable` is 1. -/
def selected (attr : Nat → Nat) (fp : Nat) : Nat := if attr (fp % 4) = 1 then 0 else 1

/-- The address lies in flexpage `i` of the message registers of the caller. -/
def Listed (A : Arch) (σ : Sys) (i v : Nat) : Prop :=
  A.Touch (Fpage.addr A (σ.cur.utcb.mr i)) (Fpage.size A (σ.cur.utcb.mr i)) v

/-- What the call should do to the flexpages `mr[0]` to `mr[k]`.  The kernel window is common to all
address spaces. -/
structure Applied (A : Arch) (attr : Nat → Nat) (k : Nat) (σ σ' : Sys) : Prop where
  cached : ∀ i ≤ k, ∀ v, σ.Listed A i v →
    σ'.k.mem.cachedAt A σ.cur.task v = some (selected attr (σ.cur.utcb.mr i))
  frames : ∀ i ≤ k, ∀ v, σ.Listed A i v →
    σ'.k.mem.frame A σ.cur.task v = σ.k.mem.frame A σ.cur.task v
  access : ∀ i ≤ k, ∀ v, σ.Listed A i v →
    σ'.k.mem.accAt A σ.cur.task v = σ.k.mem.accAt A σ.cur.task v
  others : ∀ t v, (t = σ.cur.task ∨ A.InKern v → ∀ i ≤ k, ¬ σ.Listed A i v) →
    σ'.k.mem.lookup A t v = σ.k.mem.lookup A t v

/-- The states before the call in which nothing is left to do but the attribute of the first flexpage:
it is mapped to its own address, with the access of its region, and where it does not overlap them the
others have their attribute. -/
structure Settled (A : Arch) (attr : Nat → Nat) (k : Nat) (σ : Sys) : Prop where
  own : ∀ d < Fpage.size A (σ.cur.utcb.mr 0),
    (σ.k.mem.frame A σ.cur.task (Fpage.addr A (σ.cur.utcb.mr 0) + d)).isSome ∧
      σ.k.mem.frame A σ.cur.task (Fpage.addr A (σ.cur.utcb.mr 0) + d) =
        A.heldFrame (Fpage.addr A (σ.cur.utcb.mr 0)) (Fpage.addr A (σ.cur.utcb.mr 0))
          (Fpage.size A (σ.cur.utcb.mr 0)) d
  access : ∀ v, σ.Listed A 0 v → σ.k.mem.accAt A σ.cur.task v =
    σ.k.mem.regionCode A σ.cur.task (Fpage.addr A (σ.cur.utcb.mr 0)) (Fpage.size A (σ.cur.utcb.mr 0))
  shared : ∀ i ≤ k, ∀ v, σ.Listed A i v → σ.Listed A 0 v →
    selected attr (σ.cur.utcb.mr i) = selected attr (σ.cur.utcb.mr 0)
  rest : ∀ i ≤ k, ∀ v, σ.Listed A i v → ¬ σ.Listed A 0 v →
    σ.k.mem.cachedAt A σ.cur.task v = some (selected attr (σ.cur.utcb.mr i))

theorem selected_le (attr : Nat → Nat) (fp : Nat) : selected attr fp ≤ 1 := by
  unfold selected
  split_ifs <;> decide

/-- The first flexpage after a call that succeeded, and all else. -/
theorem memoryControl_effect (hm : Mem.Reach A σ.k.mem)
    (hok : σ.memoryControl A control attr = .ok (1, σ')) :
    (∀ d < Fpage.size A (σ.cur.utcb.mr 0),
      σ'.k.mem.frame A σ.cur.task (Fpage.addr A (σ.cur.utcb.mr 0) + d) =
        A.heldFrame (Fpage.addr A (σ.cur.utcb.mr 0)) (Fpage.addr A (σ.cur.utcb.mr 0))
          (Fpage.size A (σ.cur.utcb.mr 0)) d) ∧
    (∀ v, σ.Listed A 0 v → (σ'.k.mem.frame A σ.cur.task v).isSome →
      σ'.k.mem.cachedAt A σ.cur.task v = some (selected attr (σ.cur.utcb.mr 0)) ∧
      σ'.k.mem.accAt A σ.cur.task v = σ.k.mem.regionCode A σ.cur.task
        (Fpage.addr A (σ.cur.utcb.mr 0)) (Fpage.size A (σ.cur.utcb.mr 0))) ∧
    ∀ t v, (t = σ.cur.task ∨ A.InKern v → ¬ σ.Listed A 0 v) →
      σ'.k.mem.lookup A t v = σ.k.mem.lookup A t v := by
  rcases memoryControl_eq_ok hok with ⟨e, he⟩ | ⟨-, reg, m, hfind, hmap, rfl⟩
  · exact absurd (Prod.mk.inj he).1 (by decide)
  have hva := Mem.fpage_addr_lt A (σ.cur.utcb.mr 0)
  have hc := selected_le attr (σ.cur.utcb.mr 0)
  have hm' : Mem.Reach A m := hm.map hva hmap
  obtain ⟨l, ty, code, -, -, -, -, hout⟩ := Mem.map_writes hva hmap
  refine ⟨fun d hd => (Mem.map_own hva hc hfind hmap hd).1, ?_, fun t v hv => ?_⟩
  · rintro v ⟨d, hd, hcanon⟩ hsome
    rw [Mem.frame_canon hcanon] at hsome
    rw [Mem.cachedAt_canon hcanon, Mem.accAt_canon hcanon]
    exact (Mem.map_own hva hc hfind hmap hd).2 hsome
  · show m.lookup A t v = σ.k.mem.lookup A t v
    by_cases ht : t = σ.cur.task
    · subst ht
      exact hout v (hv (.inl rfl))
    by_cases hk : A.InKern v
    · rw [hm'.lookup_kern hk t σ.cur.task, hm.lookup_kern hk t σ.cur.task]
      exact hout v (hv (.inr hk))
    · exact (Mem.map_other ht hmap).2 v hk

/-- **MemoryControl and its list.**  A call that succeeds does what it should for every flexpage that its
control word counts exactly when the first one is mapped to its own address, with the access of its
region, and the others have their attributes already. -/
theorem memoryControl_applied_iff (hm : Mem.Reach A σ.k.mem)
    (hok : σ.memoryControl A control attr = .ok (1, σ')) :
    Applied A attr (control % 64) σ σ' ↔ Settled A attr (control % 64) σ := by
  obtain ⟨hframe, hrec, hout⟩ := memoryControl_effect hm hok
  have hsome : ∀ {m : Mem} {v c : Nat}, m.cachedAt A σ.cur.task v = some c →
      (m.frame A σ.cur.task v).isSome := by
    intro m v c h
    obtain ⟨r, hr, -⟩ := Option.map_eq_some_iff.mp h
    rw [Mem.frame, hr]
    rfl
  -- outside the first flexpage nothing of the caller changes
  have hsame : ∀ v, ¬ σ.Listed A 0 v →
      σ'.k.mem.lookup A σ.cur.task v = σ.k.mem.lookup A σ.cur.task v :=
    fun v hv => hout _ v fun _ => hv
  constructor
  · intro h
    have h0 : ∀ v, σ.Listed A 0 v → (σ'.k.mem.frame A σ.cur.task v).isSome :=
      fun v hv => hsome (h.cached 0 (Nat.zero_le _) v hv)
    refine ⟨fun d hd => ?_, fun v hv => ?_, fun i hi v hv hv0 => ?_, fun i hi v hv hv0 => ?_⟩
    · have hl : σ.Listed A 0 (Fpage.addr A (σ.cur.utcb.mr 0) + d) := Arch.touch_offset hd
      rw [← h.frames 0 (Nat.zero_le _) _ hl]
      exact ⟨h0 _ hl, hframe d hd⟩
    · rw [← h.access 0 (Nat.zero_le _) v hv]
      exact (hrec v hv (h0 v hv)).2
    · have hi' := h.cached i hi v hv
      rw [(hrec v hv0 (h0 v hv0)).1] at hi'
      exact (Option.some.inj hi').symm
    · rw [← h.cached i hi v hv, Mem.cachedAt, Mem.cachedAt, hsame v hv0]
  · intro h
    -- the first flexpage has its frames, and so it has records
    have hfr : ∀ v, σ.Listed A 0 v →
        σ'.k.mem.frame A σ.cur.task v = σ.k.mem.frame A σ.cur.task v ∧
          (σ'.k.mem.frame A σ.cur.task v).isSome := by
      rintro v ⟨d, hd, hcanon⟩
      obtain ⟨hs, hown⟩ := h.own d hd
      rw [Mem.frame_canon hcanon, Mem.frame_canon hcanon, hframe d hd, ← hown]
      exact ⟨rfl, hs⟩
    refine ⟨fun i hi v hv => ?_, fun i hi v hv => ?_, fun i hi v hv => ?_, fun t v hv => ?_⟩
    · by_cases hv0 : σ.Listed A 0 v
      · rw [(hrec v hv0 (hfr v hv0).2).1, h.shared i hi v hv hv0]
      · rw [← h.rest i hi v hv hv0, Mem.cachedAt, Mem.cachedAt, hsame v hv0]
    · by_cases hv0 : σ.Listed A 0 v
      · exact (hfr v hv0).1
      · rw [Mem.frame, Mem.frame, hsame v hv0]
    · by_cases hv0 : σ.Listed A 0 v
      · rw [(hrec v hv0 (hfr v hv0).2).2, h.access v hv0]
      · rw [Mem.accAt, Mem.accAt, hsame v hv0]
    · exact hout t v fun ht => hv ht 0 (Nat.zero_le _)

/-! ## Two pages -/

/-- A call of the root task, in task 1, with these flexpages. -/
def asked (A : Arch) (m : Mem) (fps : List Nat) : Sys where
  k := { Kern.start A (Threads.init A) 0 with
    ts := (Threads.init A).upd 0 fun th =>
      { th with
        task := 1
        globid := Thrid.roottask A
        utcb := { th.utcb with mr := fun i => fps.getD i 0 } }
    mem := m }
  slot := fun _ => Slot.fresh A
  task := fun _ => Task.fresh
  tasks := NodeList.init tasksMax

/-- Two pages of task 1, cached, and the call with both. -/
def pagePair (A : Arch) : Sys :=
  asked A
    (match (Mem.fresh A Cells.empty []).map A 1 0x40000000 0x40000000 0x2000 Acc.urwx 1 with
      | .ok m => m
      | .error _ => Mem.fresh A Cells.empty [])
    [Fpage.create A 0x40000000 0x1000 0, Fpage.create A 0x40001000 0x1000 0]

/-- All attributes are the usual one. -/
def allCached : Nat → Nat := fun _ => 0

/-- Attribute 0 is not to be cached. -/
def notCached : Nat → Nat := fun i => if i = 0 then 1 else 0

theorem reach_pagePair (A : Arch) : Mem.Reach A (pagePair A).k.mem := by
  unfold pagePair asked
  split
  · rename_i m h
    exact (Mem.Reach.fresh Cells.empty []).map (by cases A <;> decide) h
  · exact Mem.Reach.fresh Cells.empty []

/-- The first page alone, cached by one call and not cached by the next. -/
theorem firstPage_applied : ∃ σ₁ σ₂,
    (pagePair .sparc).memoryControl .sparc 0 allCached = .ok (1, σ₁) ∧
      σ₁.memoryControl .sparc 0 notCached = .ok (1, σ₂) ∧
      Applied .sparc notCached (0 % 64) σ₁ σ₂ := by
  have hrun : ((pagePair .sparc).memoryControl .sparc 0 allCached).bind (fun r₁ =>
      (r₁.2.memoryControl .sparc 0 notCached).map fun r₂ => (r₁.1, r₂.1,
        r₁.2.k.mem.regionCode .sparc r₁.2.cur.task (Fpage.addr .sparc (r₁.2.cur.utcb.mr 0))
          (Fpage.size .sparc (r₁.2.cur.utcb.mr 0)))) = .ok (1, 1, some 3) := by decide +kernel
  obtain ⟨⟨r₁, σ₁⟩, hok₁, hrun⟩ := bind_eq_ok.mp hrun
  obtain ⟨⟨r₂, σ₂⟩, hok₂, he⟩ := map_eq_ok hrun
  obtain ⟨rfl, he⟩ := Prod.mk.inj he
  obtain ⟨rfl, hregion⟩ := Prod.mk.inj he
  have hregion₀ : (pagePair .sparc).k.mem.regionCode .sparc (pagePair .sparc).cur.task
      (Fpage.addr .sparc ((pagePair .sparc).cur.utcb.mr 0))
      (Fpage.size .sparc ((pagePair .sparc).cur.utcb.mr 0)) = some 3 := by decide +kernel
  -- the first call has left the page as the second one wants it
  obtain ⟨hframe, hrec, -⟩ := memoryControl_effect (reach_pagePair .sparc) hok₁
  rcases memoryControl_eq_ok hok₁ with ⟨e, he⟩ | ⟨-, reg, m, -, hmap, rfl⟩
  · exact absurd (Prod.mk.inj he).1 (by decide)
  have hm : Mem.Reach .sparc m := (reach_pagePair .sparc).map (Mem.fpage_addr_lt _ _) hmap
  have hrecord : Arch.Recordable .sparc (Fpage.addr .sparc ((pagePair .sparc).cur.utcb.mr 0))
      (Fpage.size .sparc ((pagePair .sparc).cur.utcb.mr 0)) :=
    Arch.recordable_of_hasMap (by decide) (by decide +kernel) (by decide +kernel)
  have hsome : ∀ d < Fpage.size .sparc ((pagePair .sparc).cur.utcb.mr 0),
      (m.frame .sparc (pagePair .sparc).cur.task
        (Fpage.addr .sparc ((pagePair .sparc).cur.utcb.mr 0) + d)).isSome := by
    intro d hd
    exact (congrArg Option.isSome (hframe d hd)).trans (Arch.heldFrame_isSome hrecord d hd)
  refine ⟨_, σ₂, hok₁, hok₂, (memoryControl_applied_iff hm hok₂).mpr ⟨?_, ?_, ?_, ?_⟩⟩
  · exact fun d hd => ⟨hsome d hd, hframe d hd⟩
  · rintro v ⟨d, hd, hcanon⟩
    have hv : (m.frame .sparc (pagePair .sparc).cur.task v).isSome := by
      rw [Mem.frame_canon hcanon]
      exact hsome d hd
    refine ((hrec v ⟨d, hd, hcanon⟩ hv).2.trans ?_).trans hregion.symm
    exact hregion₀
  · rintro i hi v - -
    rw [Nat.le_zero.mp hi]
  · rintro i hi v hv hv0
    rw [Nat.le_zero.mp hi] at hv
    exact absurd hv hv0

/-- Of two cached pages that should not be cached, both in a region of the caller, the call leaves the
second one cached. -/
theorem bothPages_not_applied :
    (∀ i ≤ 1, (Region.find .sparc ((pagePair .sparc).k.mem.space 1).uspace
        (Fpage.addr .sparc ((pagePair .sparc).cur.utcb.mr i))
        (Fpage.size .sparc ((pagePair .sparc).cur.utcb.mr i))).isSome) ∧
    ∃ σ', (pagePair .sparc).memoryControl .sparc 1 notCached = .ok (1, σ') ∧
      ¬ Applied .sparc notCached (1 % 64) (pagePair .sparc) σ' := by
  have hrun : ((pagePair .sparc).memoryControl .sparc 1 notCached).map
      (fun r => (r.1, r.2.k.mem.cachedAt .sparc 1 0x40001000)) = .ok (1, some 1) := by decide +kernel
  obtain ⟨⟨r, σ'⟩, hok, he⟩ := map_eq_ok hrun
  obtain ⟨rfl, hcached⟩ := Prod.mk.inj he
  refine ⟨by decide +kernel, σ', hok, fun h => ?_⟩
  have hnew := h.cached 1 (by decide) 0x40001000 ⟨0, by decide +kernel, by decide +kernel⟩
  have hsel : selected notCached ((pagePair .sparc).cur.utcb.mr 1) = 0 := by decide +kernel
  rw [hsel] at hnew
  exact absurd (hcached.symm.trans hnew) (by decide)

end Sys

end Wrmos
