import Wrmos.AspaceReach
import Wrmos.MapItemSpec

/-!
# Map copies, grant transfers

A map item should leave the sender's mappings as they are, a grant item should take the granted pages
away from the sender, and both should change nothing of the receiver but the window (`Transferred`).
A map item does this, unless its window reaches into the kernel window, which the sender sees too, or
covers a block of a level without map records (`handover_transferred`).  A grant item never does: the
code unmaps from the receiver what it should unmap from the sender.
-/

namespace Wrmos

open Lib

namespace Arch

/-- Every address of the window falls on a level with map records. -/
def Recordable (A : Arch) (va size : Nat) : Prop :=
  ∀ d < size, ∃ l, windowLevel va size A.levels d = some l ∧ mmuHasMap A l.level = true

variable {A : Arch}

theorem mapSpec_isSome {code cachable va pa size d : Nat} :
    (A.mapSpec code cachable va pa size A.levels d).isSome ↔
      ∃ l, windowLevel va size A.levels d = some l ∧ mmuHasMap A l.level = true := by
  rw [mapSpec_windowLevel]
  cases windowLevel va size A.levels d with
  | none => simp
  | some l =>
    have hword : ∀ pa, (mmuMapWord A l.level pa code cachable).isSome ↔
        mmuHasMap A l.level = true := by
      intro pa
      rw [← Option.ne_none_iff_isSome, Ne, mmuMapWord_eq_none_iff, Bool.not_eq_false]
    simp [hword]

/-- Where all levels have map records, every window of whole pages is recordable. -/
theorem recordable_of_hasMap {va size : Nat} (hmap : ∀ l ∈ A.levels, mmuHasMap A l.level = true)
    (hva : va % pageSz = 0) (hsz : size % pageSz = 0) : A.Recordable va size := by
  intro d hd
  -- the last level takes every page
  have hlast : ∀ l : PtLevel, l.low = 12 → Whole l va size d := by
    intro l hl
    unfold Whole PtLevel.pageSz
    rw [hl]
    unfold pageSz at hva hsz
    omega
  have hsome : ∀ ls : List PtLevel, (∃ l ∈ ls, l.low = 12) →
      ∃ l ∈ ls, windowLevel va size ls d = some l := by
    intro ls
    induction ls with
    | nil => rintro ⟨l, hl, -⟩; cases hl
    | cons l ls ih =>
      rintro ⟨p, hp, hlow⟩
      simp only [windowLevel]
      split_ifs with hw
      · exact ⟨l, List.mem_cons_self, rfl⟩
      · rcases List.mem_cons.mp hp with rfl | hp
        · exact absurd (hlast p hlow) hw
        · obtain ⟨q, hq, hql⟩ := ih ⟨p, hp, hlow⟩
          exact ⟨q, List.mem_cons_of_mem l hq, hql⟩
  obtain ⟨l, hl, hwl⟩ := hsome A.levels (by cases A <;> decide)
  exact ⟨l, hwl, hmap l hl⟩

end Arch

namespace Mem

variable {A : Arch} {m m' : Mem}

/-- The record that a mapping writes at offset `d`, by the regions before it. -/
def newRecord (A : Arch) (m : Mem) (t va pa sz acc cachable d : Nat) : Option (PtLevel × Nat) :=
  match Region.insert A aspaceRoom (m.space t).uspace va sz
    ⟨mapAcc A acc, decide (cachable = 1)⟩ .combine with
  | .error _ => none
  | .ok (_, ty) =>
    match acc2mmuacc A ty.acc with
    | .error _ => none
    | .ok code => A.mapSpec code cachable va pa sz A.levels d

/-- What a handover should do: a map item leaves the sender's mappings, a grant item ends those of the
flexpage; the receiver has the window, and outside it what it had. -/
structure Transferred (A : Arch) (m m' : Mem) (snd rcv : Nat) (grant : Bool)
    (sva rva size : Nat) : Prop where
  copied : grant = false → ∀ v, m'.lookup A snd v = m.lookup A snd v
  moved : grant = true → ∀ d < size, m'.lookup A snd (sva + d) = none
  window : ∀ d < size, (m'.lookup A rcv (rva + d)).isSome
  outside : ∀ v, ¬ A.Touch rva size v → m'.lookup A rcv v = m.lookup A rcv v

/-- The translations after `Aspace::map`, by the records it writes. -/
theorem map_newRecord {t va pa sz acc cachable : Nat} (hva : va < 2 ^ A.wordBits)
    (h : m.map A t va pa sz acc cachable = .ok m') :
    (∀ d < sz, m'.lookup A t (va + d) = m.newRecord A t va pa sz acc cachable d) ∧
      (∀ d, (m.newRecord A t va pa sz acc cachable d).isSome ↔
        ∃ l, Arch.windowLevel va sz A.levels d = some l ∧ mmuHasMap A l.level = true) ∧
      ∀ v, ¬ A.Touch va sz v → m'.lookup A t v = m.lookup A t v := by
  obtain ⟨l, ty, code, hins, hcode, -, hin, hout⟩ := map_writes hva h
  have hrec : ∀ d, m.newRecord A t va pa sz acc cachable d =
      A.mapSpec code cachable va pa sz A.levels d := by
    intro d
    simp only [newRecord, hins, hcode]
  refine ⟨fun d hd => (hin d hd).trans (hrec d).symm, fun d => ?_, hout⟩
  rw [hrec]
  exact Arch.mapSpec_isSome

/-- A grant item takes nothing from the sender that the receiver does not lose as well. -/
theorem not_transferred_grant {m₁ : Mem} {snd rcv sva rva size pa acc cachable ua ulen : Nat}
    (hm : Reach A m) (hne : snd ≠ rcv) (hsva : sva < 2 ^ A.wordBits) (hrva : rva < 2 ^ A.wordBits)
    (hua : ua < 2 ^ A.wordBits) (hwalk : m.walk A snd sva size = .ok pa) (hpa : pa ≠ 0)
    (hmap : m.map A rcv rva pa size acc cachable = .ok m₁)
    (hunmap : m₁.unmap A rcv ua ulen = .ok m') :
    ¬ Transferred A m m' snd rcv true sva rva size := by
  intro ht
  obtain ⟨hmapped, -⟩ := walk_spec hsva hwalk hpa
  have hpos : 0 < size := Nat.pos_of_ne_zero (walk_eq_ok.mp hwalk).1.2.2.2
  have hnone : m'.lookup A snd sva = none := ht.moved rfl 0 hpos
  have hsome : (m.lookup A snd sva).isSome := hmapped 0 hpos
  by_cases hk : A.InKern sva
  · -- what the sender loses of the kernel window the receiver loses too
    have hm' : Reach A m' := (hm.map hrva hmap).unmap hua hunmap
    rw [hm'.lookup_kern hk snd rcv] at hnone
    rw [hm.lookup_kern hk snd rcv] at hsome
    by_cases ht' : A.Touch rva size sva
    · obtain ⟨d, hd, he⟩ := ht'
      have hwin := ht.window d hd
      rw [show m'.lookup A rcv (rva + d) = m'.lookup A rcv sva from
        Arch.lookup_congr he.symm, hnone] at hwin
      cases hwin
    · rw [← ht.outside sva ht', hnone] at hsome
      cases hsome
  · rw [(unmap_other hne hunmap).2 sva hk, (map_other hne hmap).2 sva hk] at hnone
    rw [hnone] at hsome
    cases hsome

/-- When a map item leaves the sender alone and fills its window. -/
theorem transferred_map_iff {snd rcv sva rva size pa acc cachable : Nat} (hm : Reach A m)
    (hne : snd ≠ rcv) (hrva : rva < 2 ^ A.wordBits)
    (hmap : m.map A rcv rva pa size acc cachable = .ok m') :
    Transferred A m m' snd rcv false sva rva size ↔ A.Recordable rva size ∧
      ∀ d < size, A.InKern (rva + d) →
        m.lookup A rcv (rva + d) = m.newRecord A rcv rva pa size acc cachable d := by
  obtain ⟨hin, hrec, hout⟩ := map_newRecord hrva hmap
  have hm' : Reach A m' := hm.map hrva hmap
  constructor
  · intro ht
    constructor
    · intro d hd
      have hwin := ht.window d hd
      rw [hin d hd] at hwin
      exact (hrec d).mp hwin
    · intro d hd hk
      rw [← hin d hd, hm'.lookup_kern hk rcv snd, ht.copied rfl, hm.lookup_kern hk snd rcv]
  · rintro ⟨hr, hkern⟩
    refine ⟨fun _ v => ?_, fun h => absurd h (by decide), fun d hd => ?_, hout⟩
    · by_cases hk : A.InKern v
      · rw [hm'.lookup_kern hk snd rcv, hm.lookup_kern hk snd rcv]
        by_cases ht : A.Touch rva size v
        · obtain ⟨d, hd, he⟩ := ht
          have h' : m'.lookup A rcv v = m'.lookup A rcv (rva + d) := Arch.lookup_congr he
          have h₀ : m.lookup A rcv v = m.lookup A rcv (rva + d) := Arch.lookup_congr he
          rw [h', h₀, hin d hd, hkern d hd (Arch.inKern_congr he hk)]
        · exact hout v ht
      · exact (map_other hne hmap).2 v hk
    · rw [hin d hd]
      exact (hrec d).mpr (hr d hd)

/-- A walk, a map and the unmapping of a grant, together. -/
theorem transferred_iff {m₁ : Mem} {snd rcv sva rva size pa acc cachable w0 ua ulen : Nat}
    (hm : Reach A m) (hne : snd ≠ rcv) (hsva : sva < 2 ^ A.wordBits) (hrva : rva < 2 ^ A.wordBits)
    (hua : ua < 2 ^ A.wordBits) (hwalk : m.walk A snd sva size = .ok pa) (hpa : pa ≠ 0)
    (hmap : m.map A rcv rva pa size acc cachable = .ok m₁)
    (hgrant : (if Item.isGrant A w0 then m₁.unmap A rcv ua ulen else pure m₁) = .ok m') :
    Transferred A m m' snd rcv (Item.isGrant A w0) sva rva size ↔
      Item.isGrant A w0 = false ∧ A.Recordable rva size ∧ ∀ d < size, A.InKern (rva + d) →
        m.lookup A rcv (rva + d) = m.newRecord A rcv rva
          (A.firstAddr A.levels (m.cells A snd) sva size) size acc cachable d := by
  obtain ⟨-, hfirst⟩ := walk_spec hsva hwalk hpa
  rw [← hfirst]
  split_ifs at hgrant with hg
  · rw [hg]
    simp only [Bool.true_eq_false, false_and, iff_false]
    exact not_transferred_grant hm hne hsva hrva hua hwalk hpa hmap hgrant
  · obtain rfl := Except.ok.inj hgrant
    rw [Bool.not_eq_true] at hg
    rw [hg, transferred_map_iff hm hne hrva hmap]
    simp only [true_and]

/-- **Map copies, grant transfers**: for items of `do_normal_ipc` and for page-fault replies, between
two address spaces. -/
theorem handover_transferred {snd rcv : Nat} (w0 fp : Nat) (hm : Reach A m) (hne : snd ≠ rcv) :
    (∀ acceptor win m', m.ownItem A snd rcv w0 fp acceptor = some (.ok (m', win)) →
      ∀ cached, m.cached A snd fp = some cached →
      (Transferred A m m' snd rcv (Item.isGrant A w0) (Fpage.addr A fp) win.va win.sz ↔
        Item.isGrant A w0 = false ∧ A.Recordable win.va win.sz ∧
        ∀ d < win.sz, A.InKern (win.va + d) →
          m.lookup A rcv (win.va + d) = m.newRecord A rcv win.va
            (A.firstAddr A.levels (m.cells A snd) (Fpage.addr A fp) (Fpage.size A fp)) win.sz
            (uacc win.acc) cached d)) ∧
    ∀ sigma0, ∀ pfAddr < 2 ^ A.wordBits, ∀ m',
      m.ownReply A snd rcv sigma0 w0 fp pfAddr = some (.ok m') →
      (Transferred A m m' snd rcv (Item.isGrant A w0) (Fpage.addr A fp)
          (pfAddr / pageSz * pageSz) (Fpage.size A fp) ↔
        Item.isGrant A w0 = false ∧ A.Recordable (pfAddr / pageSz * pageSz) (Fpage.size A fp) ∧
        ∀ d < Fpage.size A fp, A.InKern (pfAddr / pageSz * pageSz + d) →
          m.lookup A rcv (pfAddr / pageSz * pageSz + d) =
            m.newRecord A rcv (pfAddr / pageSz * pageSz)
              (A.firstAddr A.levels (m.cells A snd) (Fpage.addr A fp) (Fpage.size A fp))
              (Fpage.size A fp) (uacc (Fpage.access fp)) 1 d) := by
  have hfp := fpage_addr_lt A fp
  constructor
  · intro acceptor win m' h cached hcached
    obtain ⟨cached', pa, m₁, hcached', hwalk, hpa, hwin, hmap, hgrant⟩ := ownItem_eq_ok h
    obtain rfl : cached' = cached := Option.some.inj (hcached'.symm.trans hcached)
    obtain ⟨hsz, -, hva⟩ := rcvWindow_spec hwin
    rw [hsz] at hmap ⊢
    exact transferred_iff hm hne hfp hva hfp hwalk hpa hmap hgrant
  · intro sigma0 pfAddr hpf m' h
    obtain ⟨pa, m₁, hwalk, hpa, hmap, hgrant⟩ := ownReply_eq_ok h
    have hva : pfAddr / pageSz * pageSz < 2 ^ A.wordBits :=
      (Nat.div_mul_le_self _ _).trans_lt hpf
    exact transferred_iff hm hne hfp hva hfp hwalk hpa hmap hgrant

theorem reach_started (A : Arch) : Reach A (started A) := by
  unfold started
  split
  · rename_i m h
    exact (Reach.fresh Cells.empty []).map (by cases A <;> decide) h
  · exact Reach.fresh Cells.empty []

theorem onePage_transferred :
    ∃ m' win, (started .sparc).ownItem .sparc 1 2 (onePage .sparc).w0 (onePage .sparc).fp
        (onePage .sparc).acceptor = some (.ok (m', win)) ∧
      Transferred .sparc (started .sparc) m' 1 2 false 0x40005000 win.va win.sz := by
  have hrun : ((started .sparc).ownItem .sparc 1 2 (onePage .sparc).w0 (onePage .sparc).fp
      (onePage .sparc).acceptor).any (fun x => okAnd x fun r =>
        decide (r.2.va = 0x40005000 ∧ r.2.sz = 0x1000)) = true := by decide +kernel
  have hcached : (started .sparc).cached .sparc 1 (onePage .sparc).fp = some 1 := by decide +kernel
  obtain ⟨⟨m', win⟩, h, hwin⟩ := any_okAnd_iff.mp hrun
  obtain ⟨hva, hsz⟩ : win.va = 0x40005000 ∧ win.sz = 0x1000 := of_decide_eq_true hwin
  refine ⟨m', win, h, ?_⟩
  refine ((handover_transferred (onePage .sparc).w0 (onePage .sparc).fp (reach_started .sparc)
    (by decide)).1 _ _ _ h 1 hcached).mpr ⟨by decide +kernel, ?_, ?_⟩
  · rw [hva, hsz]
    exact Arch.recordable_of_hasMap (fun _ _ => rfl) rfl rfl
  · rw [hva, hsz]
    intro d hd hk
    simp [Arch.InKern, Arch.canon, Arch.kernVa, Arch.krnVaddr, Arch.ktabSz, Arch.vaBits,
      Arch.kspaceSz] at hk
    omega

/-- A grant item of one page for another address of task 2. -/
def grantedPage (A : Arch) : Handover :=
  ⟨1, 2, Item.grantWord0 A, Fpage.create A 0x40005000 0x1000 6, Fpage.create A 0x10000 0x1000 0⟩

/-- Task 1 still has the page it granted. -/
theorem grantedPage_not_transferred :
    ∃ m' win, (started .sparc).ownItem .sparc 1 2 (grantedPage .sparc).w0 (grantedPage .sparc).fp
        (grantedPage .sparc).acceptor = some (.ok (m', win)) ∧
      Item.isGrant .sparc (grantedPage .sparc).w0 = true ∧
      ¬ Transferred .sparc (started .sparc) m' 1 2 (Item.isGrant .sparc (grantedPage .sparc).w0)
        (Fpage.addr .sparc (grantedPage .sparc).fp) win.va win.sz := by
  have hrun : ((started .sparc).ownItem .sparc 1 2 (grantedPage .sparc).w0
      (grantedPage .sparc).fp (grantedPage .sparc).acceptor).any (fun x => okAnd x fun r =>
        decide (0 < r.2.sz ∧
          r.1.lookup .sparc 1 (Fpage.addr .sparc (grantedPage .sparc).fp + 0) ≠ none)) = true := by
    decide +kernel
  have hgrant : Item.isGrant .sparc (grantedPage .sparc).w0 = true := by decide +kernel
  obtain ⟨⟨m', win⟩, h, hwin⟩ := any_okAnd_iff.mp hrun
  obtain ⟨hpos, hsome⟩ : 0 < win.sz ∧ m'.lookup .sparc 1 _ ≠ none := of_decide_eq_true hwin
  exact ⟨m', win, h, hgrant, fun ht => hsome (ht.moved hgrant 0 hpos)⟩

end Mem

end Wrmos
