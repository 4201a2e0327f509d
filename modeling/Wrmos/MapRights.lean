import Wrmos.MapItemSpec

/-!
# The rights that come with a map item

A send flexpage names rights, and the receiver should get no others.  Two things stand between the
name and the page table.  The access codes of the hardware are coarser than the names: on sparc there
is no write access without read access, and on arm and x86 every user page can be read and executed
(`hwAcc`).  And `Address_space_t::insert` joins the type of a region that already contains the window
to the new one.  When no such region adds anything, the receiver gets what the hardware has for the
name (`item_rights`).
-/

namespace Wrmos

open Lib

/-- The first set of rights has no right that the second lacks. -/
def Subrights (r s : Nat) : Prop := r &&& s = r

instance (r s : Nat) : Decidable (Subrights r s) := by
  unfold Subrights; infer_instance

/-- The least user rights of the hardware that hold the given ones. -/
def hwAcc : Arch → Nat → Nat
  | .sparc, acc => if acc = Acc.uw then Acc.urw else acc
  | _, acc => acc ||| Acc.urx

/-- The access code for a set of user rights gives the least rights of the hardware. -/
theorem acc2mmuacc_hwAcc {A : Arch} {acc code : Nat} (hacc : acc < 8)
    (h : acc2mmuacc A (Mem.mapAcc A acc) = .ok code) : mmuUserAcc A code = hwAcc A acc := by
  have hall : ∀ A : Arch, ∀ acc < 8, acc2mmuacc A (Mem.mapAcc A acc) = .error (.assertion "false") ∨
      (acc2mmuacc A (Mem.mapAcc A acc)).map (mmuUserAcc A) = .ok (hwAcc A acc) := by
    intro A
    cases A <;> decide
  rcases hall A acc hacc with he | he
  · rw [he] at h
    cases h
  · rw [h] at he
    exact Except.ok.inj he

theorem access_lt (fp : Nat) : Fpage.access fp < 8 := bits_lt fp 0 3

theorem uacc_access (fp : Nat) : Mem.uacc (Fpage.access fp) = Fpage.access fp := by
  have hall : ∀ acc < 8, Mem.uacc acc = acc := by decide
  exact hall _ (access_lt fp)

namespace Mem

variable {A : Arch} {m m' : Mem}

/-- The user rights the hardware gives for an address of task `t`. -/
def userAcc (A : Arch) (m : Mem) (t v : Nat) : Nat :=
  match m.lookup A t v with
  | some (l, w) => mmuUserAcc A (mmuGetAcc A l.level w)
  | none => 0

/-- A region of task `t` that passes the test of `insert` for containing the range. -/
def Overlaid (A : Arch) (m : Mem) (t va sz : Nat) (d : Desc AccType) : Prop :=
  d ∈ (m.space t).uspace ∧ d.addr ≤ va ∧ A.add va sz ≤ Region.endOf A d

/-- The rights of a window that was mapped over regions that add nothing to the new access. -/
theorem map_userAcc {t va pa sz acc cachable : Nat} (hva : va < 2 ^ A.wordBits) (hc : cachable ≤ 1)
    (hacc : acc < 8) (hold : ∀ d, m.Overlaid A t va sz d → mapAcc A acc ||| d.type.acc = mapAcc A acc)
    (h : m.map A t va pa sz acc cachable = .ok m') {i w : Nat} {l : PtLevel} (hi : i < sz)
    (hl : m'.lookup A t (va + i) = some (l, w)) :
    mmuUserAcc A (mmuGetAcc A l.level w) = hwAcc A acc := by
  obtain ⟨l', ty, code, hins, hcode, -, hin, -⟩ := map_writes hva h
  have hty : ty.acc = mapAcc A acc := by
    rcases Region.insertFrom_type hins with rfl | ⟨d, hd, h1, h2, rfl⟩
    · rfl
    · exact hold d ⟨hd, h1, h2⟩
  rw [hty] at hcode
  rw [hin i hi, Arch.mapSpec_windowLevel] at hl
  obtain ⟨l'', -, hw⟩ := Option.bind_eq_some_iff.mp hl
  obtain ⟨w', hword, he⟩ := Option.map_eq_some_iff.mp hw
  obtain ⟨rfl, rfl⟩ := Prod.mk.inj he
  rw [mmuGetAcc_mapWord (acc2mmuacc_le hcode) hc hword, acc2mmuacc_hwAcc hacc hcode]

/-- **The rights of a map item.**  When no region of the receiver that contains the window has a right
beyond the named ones, the receiver's rights in the window are within the least rights of the hardware
that hold the named ones. -/
theorem item_rights {snd rcv w0 fp acceptor : Nat} {win : Window}
    (h : m.ownItem A snd rcv w0 fp acceptor = some (.ok (m', win)))
    (hold : ∀ d, m.Overlaid A rcv win.va win.sz d →
      mapAcc A (Fpage.access fp) ||| d.type.acc = mapAcc A (Fpage.access fp)) :
    ∀ i < win.sz, Subrights (m'.userAcc A rcv (win.va + i)) (hwAcc A (Fpage.access fp)) := by
  obtain ⟨cached, pa, m₁, hcached, -, -, hwin, hmap, hgrant⟩ := ownItem_eq_ok h
  obtain ⟨-, hacc, hva⟩ := rcvWindow_spec hwin
  rw [hacc, uacc_access] at hmap
  intro i hi
  unfold userAcc
  cases hl : m'.lookup A rcv (win.va + i) with
  | none => exact Nat.zero_and _
  | some r =>
    obtain ⟨l, w⟩ := r
    -- the unmapping of a grant makes no record
    have hl₁ : m₁.lookup A rcv (win.va + i) = some (l, w) := by
      split_ifs at hgrant
      · exact unmap_some (fpage_addr_lt A fp) hgrant hl
      · rwa [Except.ok.inj hgrant]
    dsimp only
    rw [map_userAcc hva (cached_le hcached) (access_lt fp) hold hmap hi hl₁]
    exact Nat.and_self _

/-- A read-only page of task 1, taken by task 2 at its own address. -/
def readOnlyPage (A : Arch) : Handover :=
  ⟨1, 2, Item.mapWord0 A, Fpage.create A 0x40005000 0x1000 Acc.ur, Fpage.complete⟩

theorem readOnlyPage_rights :
    ∃ m' win, (started .sparc).ownItem .sparc 1 2 (readOnlyPage .sparc).w0 (readOnlyPage .sparc).fp
        Fpage.complete = some (.ok (m', win)) ∧
      Subrights (m'.userAcc .sparc 2 (win.va + 0)) (hwAcc .sparc Acc.ur) := by
  have hrun : ((started .sparc).ownItem .sparc 1 2 (readOnlyPage .sparc).w0
      (readOnlyPage .sparc).fp Fpage.complete).any (fun x => okAnd x fun r => decide (0 < r.2.sz)) =
      true := by decide +kernel
  have hempty : ((started .sparc).space 2).uspace = [] := by decide +kernel
  obtain ⟨⟨m', win⟩, h, hsz⟩ := any_okAnd_iff.mp hrun
  refine ⟨m', win, h, item_rights h ?_ 0 (of_decide_eq_true hsz)⟩
  rintro d ⟨hd, -⟩
  rw [hempty] at hd
  cases hd

/-- Two pages of task 1 for the same page of task 2, the second one read-only. -/
def overlaidPages (A : Arch) : List Handover :=
  [⟨1, 2, Item.mapWord0 A, Fpage.create A 0x40005000 0x1000 Acc.urw, Fpage.create A 0x10000 0x1000 0⟩,
    ⟨1, 2, Item.mapWord0 A, Fpage.create A 0x40009000 0x1000 Acc.ur, Fpage.create A 0x10000 0x1000 0⟩]

/-- On arm a read-only item gives the right to execute; on sparc a read-only item gives the right to
write another frame that stood at the same address before. -/
theorem item_rights_beyond_named :
    (∃ m', (started .arm).ownItems .arm [readOnlyPage .arm] = some m' ∧
      ¬ Subrights (m'.userAcc .arm 2 0x40005000) (Fpage.access (readOnlyPage .arm).fp)) ∧
    ∃ m', (started .sparc).ownItems .sparc (overlaidPages .sparc) = some m' ∧
      m'.frame .sparc 2 0x10000 = some 0x40009000 ∧
      ¬ Subrights (m'.userAcc .sparc 2 0x10000) Acc.ur := by
  have harm : (match (started .arm).ownItems .arm [readOnlyPage .arm] with
      | some m' => decide (¬ Subrights (m'.userAcc .arm 2 0x40005000)
          (Fpage.access (readOnlyPage .arm).fp))
      | none => false) = true := by decide +kernel
  have hsparc : (match (started .sparc).ownItems .sparc (overlaidPages .sparc) with
      | some m' => decide (m'.frame .sparc 2 0x10000 = some 0x40009000 ∧
          ¬ Subrights (m'.userAcc .sparc 2 0x10000) Acc.ur)
      | none => false) = true := by decide +kernel
  constructor
  · split at harm
    · rename_i m' h
      exact ⟨m', h, of_decide_eq_true harm⟩
    · cases harm
  · split at hsparc
    · rename_i m' h
      exact ⟨m', h, of_decide_eq_true hsparc⟩
    · cases hsparc

end Mem

end Wrmos
