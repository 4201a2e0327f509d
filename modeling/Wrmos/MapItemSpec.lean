import Wrmos.MapItem
import Wrmos.AspaceSpec

/-!
# What a receiver gets

The claim behind a map item is that page `i` of the receiver's window shows the frame that page `i` of
the send flexpage shows to the sender.  The kernel walks the send flexpage to *one* address and maps
the window as one block from there, so this holds exactly when the sender's frames lie as such a block
would (`Consecutive`): page `i` of the flexpage lies in the frame that a record of the window holds for
the address `i` pages above the first one.
-/

namespace Wrmos

open Lib

namespace Arch

/-- The frame the address at offset `d` of a window is translated to when the window is mapped to the
physical block at `pa`; `none` where the level has no map records. -/
def heldFrame (A : Arch) (va pa size d : Nat) : Option Nat :=
  (windowLevel va size A.levels d).bind fun l =>
    if mmuHasMap A l.level then
      some (mmuHeldAddr A l.level (paddrAt pa (A.add va (d - (va + d) % l.pageSz)) va) / l.pageSz *
        l.pageSz + (va + d) % l.pageSz)
    else none

variable {A : Arch}

/-- The frame of a recorded address does not depend on the access. -/
theorem mapSpec_frame {code cachable : Nat} (hcode : code ≤ mmuAccMax A) (hc : cachable ≤ 1)
    (va pa size d : Nat) :
    (A.mapSpec code cachable va pa size A.levels d).map (fun r => mmuFrame A r.1 r.2 (va + d)) =
      A.heldFrame va pa size d := by
  rw [mapSpec_windowLevel]
  unfold heldFrame
  cases windowLevel va size A.levels d with
  | none => rfl
  | some l =>
    simp only [Option.bind_some]
    cases hw : mmuMapWord A l.level (paddrAt pa (A.add va (d - (va + d) % l.pageSz)) va) code
      cachable with
    | none =>
      rw [mmuMapWord_eq_none_iff.mp hw]
      rfl
    | some w =>
      have hm : mmuHasMap A l.level = true := by
        by_contra hm
        rw [mmuMapWord_eq_none_iff.mpr (by simpa using hm)] at hw
        cases hw
      simp only [Option.map_some, mmuFrame, mmuAddrField_mapWord hcode hc hw, hm, if_true]

end Arch

namespace Mem

variable {A : Arch} {m m' : Mem}

/-- The physical address that `v` is translated to in task `t`. -/
def frame (A : Arch) (m : Mem) (t v : Nat) : Option Nat :=
  (m.lookup A t v).map fun r => mmuFrame A r.1 r.2 v

/-- Page `i` of the window at `rva` shows task `rcv` afterwards what page `i` from `sva` on shows task
`snd` before. -/
def FrameFidelity (A : Arch) (m m' : Mem) (snd rcv sva rva size : Nat) : Prop :=
  ∀ i < size / pageSz, m'.frame A rcv (rva + i * pageSz) = m.frame A snd (sva + i * pageSz)

instance (A : Arch) (m m' : Mem) (snd rcv sva rva size : Nat) :
    Decidable (FrameFidelity A m m' snd rcv sva rva size) := by
  unfold FrameFidelity; infer_instance

/-- The frames of task `snd` from `sva` on lie as in the physical block that starts at the first
non-zero address of their records, read back from the records of a window at `rva`. -/
def Consecutive (A : Arch) (m : Mem) (snd sva rva size : Nat) : Prop :=
  ∀ i < size / pageSz, m.frame A snd (sva + i * pageSz) =
    A.heldFrame rva (A.firstAddr A.levels (m.cells A snd) sva size) size (i * pageSz)

instance (A : Arch) (m : Mem) (snd sva rva size : Nat) :
    Decidable (Consecutive A m snd sva rva size) := by
  unfold Consecutive; infer_instance

/-- No record of the window covers an address of the range from `ua`. -/
def Spared (A : Arch) (rva size ua ulen : Nat) : Prop :=
  ∀ i < size / pageSz, ∀ l, Arch.windowLevel rva size A.levels (i * pageSz) = some l →
    ∀ d < ulen, A.key l (rva + i * pageSz) ≠ A.key l (ua + d)

/-- The window of `mapItem` has the size of the send flexpage. -/
theorem rcvWindow_spec {w0 fp acceptor : Nat} {win : Window}
    (h : rcvWindow A w0 fp acceptor = .ok win) :
    win.sz = Fpage.size A fp ∧ win.acc = Fpage.access fp ∧ win.va < 2 ^ A.wordBits := by
  have hlt : ∀ fp, Fpage.addr A fp < 2 ^ A.wordBits := fun _ => Nat.mod_lt _ (Nat.two_pow_pos _)
  unfold rcvWindow at h
  split_ifs at h with h1 h2 h3
  · obtain rfl := Except.ok.inj h
    exact ⟨rfl, rfl, hlt fp⟩
  · obtain rfl := Except.ok.inj h
    exact ⟨not_not.mp h3, rfl, hlt acceptor⟩

/-- Mapping a window to a physical block gives each address of it the frame of the block. -/
theorem map_frame {t va pa sz acc cachable : Nat} (hva : va < 2 ^ A.wordBits) (hc : cachable ≤ 1)
    (h : m.map A t va pa sz acc cachable = .ok m') :
    ∀ d < sz, m'.frame A t (va + d) = A.heldFrame va pa sz d := by
  obtain ⟨l, ty, code, -, hcode, -, hin, -⟩ := map_writes hva h
  intro d hd
  unfold frame
  rw [hin d hd, Arch.mapSpec_frame (acc2mmuacc_le hcode) hc]

/-- The offsets of the pages of a range of whole pages. -/
theorem page_lt {i size : Nat} (hi : i < size / pageSz) : i * pageSz < size := by
  have h1 := Nat.div_mul_le_self size pageSz
  have h2 : (i + 1) * pageSz ≤ size / pageSz * pageSz := Nat.mul_le_mul_right _ hi
  rw [Nat.add_mul, Nat.one_mul] at h2
  have h3 : 0 < pageSz := by decide
  omega

/-- **The walk and the map together**: after the window is mapped to the address the walk returned,
fidelity is consecutiveness. -/
theorem walk_map_fidelity {snd rcv sva rva size pa acc cachable : Nat}
    (hsva : sva < 2 ^ A.wordBits) (hrva : rva < 2 ^ A.wordBits) (hc : cachable ≤ 1)
    (hwalk : m.walk A snd sva size = .ok pa) (hpa : pa ≠ 0)
    (hmap : m.map A rcv rva pa size acc cachable = .ok m') :
    FrameFidelity A m m' snd rcv sva rva size ↔ Consecutive A m snd sva rva size := by
  obtain ⟨-, rfl⟩ := walk_spec hsva hwalk hpa
  refine forall₂_congr fun i hi => ?_
  rw [map_frame hrva hc hmap _ (page_lt hi), eq_comm]

/-- The unmapping that ends a grant can only take pages of the window away, it takes none that it
spares, and on a good range it takes all others. -/
theorem unmap_fidelity {m₁ : Mem} {snd rcv sva rva size pa acc cachable ua ulen : Nat}
    (hsva : sva < 2 ^ A.wordBits) (hrva : rva < 2 ^ A.wordBits) (hua : ua < 2 ^ A.wordBits)
    (hwalk : m.walk A snd sva size = .ok pa) (hpa : pa ≠ 0)
    (hmap : m.map A rcv rva pa size acc cachable = .ok m₁)
    (hunmap : m₁.unmap A rcv ua ulen = .ok m') :
    (FrameFidelity A m m' snd rcv sva rva size → FrameFidelity A m m₁ snd rcv sva rva size ∧
      (Arch.GoodRange A.levels ua ulen → Spared A rva size ua ulen)) ∧
      (Spared A rva size ua ulen → FrameFidelity A m m₁ snd rcv sva rva size →
        FrameFidelity A m m' snd rcv sva rva size) := by
  obtain ⟨hmapped, -⟩ := walk_spec hsva hwalk hpa
  obtain ⟨-, -, code, -, -, -, hin, -⟩ := map_writes hrva hmap
  -- a page of the sender is mapped, so a faithful window has a record for it
  have hrecord : ∀ {n : Mem}, FrameFidelity A m n snd rcv sva rva size → ∀ i < size / pageSz,
      ∃ r, n.lookup A rcv (rva + i * pageSz) = some r := by
    intro n h i hi
    obtain ⟨r, hr⟩ := Option.isSome_iff_exists.mp (hmapped _ (page_lt hi))
    have hn := h i hi
    rw [frame, frame, hr, Option.map_some] at hn
    obtain ⟨r', hr', -⟩ := Option.map_eq_some_iff.mp hn
    exact ⟨r', hr'⟩
  have hlevel : ∀ {i l w}, i < size / pageSz → m₁.lookup A rcv (rva + i * pageSz) = some (l, w) →
      Arch.windowLevel rva size A.levels (i * pageSz) = some l := by
    intro i l w hi hr
    rw [hin _ (page_lt hi)] at hr
    exact Arch.mapSpec_level hr
  refine ⟨fun h => ⟨fun i hi => ?_, fun hgood i hi l hl d hd hk => ?_⟩, fun hsp h i hi => ?_⟩
  · obtain ⟨r, hr⟩ := hrecord h i hi
    rw [← h i hi, frame, frame, hr, unmap_some hua hunmap hr]
  · obtain ⟨⟨l', w⟩, hr⟩ := hrecord h i hi
    obtain rfl : l' = l := Option.some.inj ((hlevel hi (unmap_some hua hunmap hr)).symm.trans hl)
    obtain ⟨-, -, -, hnone, -⟩ := unmap_writes hua hgood hunmap
    have hsome : m'.lookup A rcv (ua + d) = some (l', w) :=
      Arch.lookup_of_key (ptChain_levels A) hr hk
    rw [hnone d hd] at hsome
    cases hsome
  · obtain ⟨⟨l, w⟩, hr⟩ := hrecord h i hi
    rw [← h i hi, frame, frame, hr, unmap_spares hua hunmap hr (hsp i hi l (hlevel hi hr))]

/-- A walk, a map and the unmapping of a grant: the window is faithful when the frames of the sender
are consecutive and the unmapping spares the window, and only then on a good range. -/
theorem handover_fidelity {m₁ : Mem} {snd rcv sva rva size pa acc cachable w0 ua ulen : Nat}
    (hsva : sva < 2 ^ A.wordBits) (hrva : rva < 2 ^ A.wordBits) (hua : ua < 2 ^ A.wordBits)
    (hc : cachable ≤ 1) (hwalk : m.walk A snd sva size = .ok pa) (hpa : pa ≠ 0)
    (hmap : m.map A rcv rva pa size acc cachable = .ok m₁)
    (hgrant : (if Item.isGrant A w0 then m₁.unmap A rcv ua ulen else pure m₁) = .ok m') :
    (FrameFidelity A m m' snd rcv sva rva size → Consecutive A m snd sva rva size ∧
      (Item.isGrant A w0 = true → Arch.GoodRange A.levels ua ulen → Spared A rva size ua ulen)) ∧
      (Consecutive A m snd sva rva size →
        (Item.isGrant A w0 = true → Spared A rva size ua ulen) →
        FrameFidelity A m m' snd rcv sva rva size) := by
  have hiff := walk_map_fidelity hsva hrva hc hwalk hpa hmap
  split_ifs at hgrant with hg
  · obtain ⟨h1, h2⟩ := unmap_fidelity hsva hrva hua hwalk hpa hmap hgrant
    exact ⟨fun h => ⟨hiff.mp (h1 h).1, fun _ => (h1 h).2⟩, fun hcons hsp => h2 (hsp hg) (hiff.mpr hcons)⟩
  · obtain rfl := Except.ok.inj hgrant
    exact ⟨fun h => ⟨hiff.mp h, fun h' => absurd h' hg⟩, fun hcons _ => hiff.mpr hcons⟩

theorem fpage_addr_lt (A : Arch) (fp : Nat) : Fpage.addr A fp < 2 ^ A.wordBits :=
  Nat.mod_lt _ (Nat.two_pow_pos _)

theorem cached_le {t fp cached : Nat} (h : m.cached A t fp = some cached) : cached ≤ 1 := by
  obtain ⟨d, -, rfl⟩ := Option.map_eq_some_iff.mp h
  split <;> omega

/-- The parts of an item that is carried out. -/
theorem ownItem_eq_ok {snd rcv w0 fp acceptor : Nat} {win : Window}
    (h : m.ownItem A snd rcv w0 fp acceptor = some (.ok (m', win))) :
    ∃ cached pa m₁, m.cached A snd fp = some cached ∧
      m.walk A snd (Fpage.addr A fp) (Fpage.size A fp) = .ok pa ∧ pa ≠ 0 ∧
      rcvWindow A w0 fp acceptor = .ok win ∧
      m.map A rcv win.va pa win.sz (uacc win.acc) cached = .ok m₁ ∧
      (if Item.isGrant A w0 then m₁.unmap A rcv (Fpage.addr A fp) (Fpage.addr A fp) else pure m₁) =
        .ok m' := by
  obtain ⟨cached, hcached, h⟩ := Option.map_eq_some_iff.mp h
  obtain ⟨pa, hwalk, h⟩ := bind_eq_ok.mp h
  obtain ⟨hpa, h⟩ := ensure_bind_eq_ok.mp h
  obtain ⟨win', hwin, h⟩ := bind_eq_ok.mp h
  obtain ⟨m₁, hmap, h⟩ := bind_eq_ok.mp h
  refine ⟨cached, pa, m₁, hcached, hwalk, hpa, ?_⟩
  split_ifs at h ⊢ with hg
  · obtain ⟨m₂, hunmap, h⟩ := bind_eq_ok.mp h
    obtain ⟨rfl, rfl⟩ := Prod.mk.inj (Except.ok.inj h)
    exact ⟨hwin, hmap, hunmap⟩
  · obtain ⟨rfl, rfl⟩ := Prod.mk.inj (Except.ok.inj h)
    exact ⟨hwin, hmap, rfl⟩

/-- The parts of a page-fault reply that is carried out. -/
theorem ownReply_eq_ok {cur dst w0 fp pfAddr : Nat} {sigma0 : Bool}
    (h : m.ownReply A cur dst sigma0 w0 fp pfAddr = some (.ok m')) :
    ∃ pa m₁, m.walk A cur (Fpage.addr A fp) (Fpage.size A fp) = .ok pa ∧ pa ≠ 0 ∧
      m.map A dst (pfAddr / pageSz * pageSz) pa (Fpage.size A fp) (uacc (Fpage.access fp)) 1 =
        .ok m₁ ∧
      (if Item.isGrant A w0 then m₁.unmap A dst (Fpage.addr A fp) (Fpage.size A fp) else pure m₁) =
        .ok m' := by
  unfold ownReply at h
  split_ifs at h with hin
  have h := Option.some.inj h
  obtain ⟨pa, hwalk, h⟩ := bind_eq_ok.mp h
  obtain ⟨hpa, h⟩ := ensure_bind_eq_ok.mp h
  obtain ⟨-, h⟩ := ensure_bind_eq_ok.mp h
  obtain ⟨m₁, hmap, hgrant⟩ := bind_eq_ok.mp h
  exact ⟨pa, m₁, hwalk, hpa, hmap, hgrant⟩

/-- **Frame fidelity of map items and page-fault replies.**  The window is faithful exactly when the
frames of the send flexpage lie consecutively; of a grant item, the unmapping at its end must spare the
window besides. -/
theorem handover_frameFidelity (A : Arch) (m m' : Mem) (snd rcv w0 fp : Nat) :
    (∀ acceptor win, m.ownItem A snd rcv w0 fp acceptor = some (.ok (m', win)) →
      (FrameFidelity A m m' snd rcv (Fpage.addr A fp) win.va win.sz →
        Consecutive A m snd (Fpage.addr A fp) win.va win.sz ∧
        (Item.isGrant A w0 = true → Arch.GoodRange A.levels (Fpage.addr A fp) (Fpage.addr A fp) →
          Spared A win.va win.sz (Fpage.addr A fp) (Fpage.addr A fp))) ∧
      (Consecutive A m snd (Fpage.addr A fp) win.va win.sz →
        (Item.isGrant A w0 = true → Spared A win.va win.sz (Fpage.addr A fp) (Fpage.addr A fp)) →
        FrameFidelity A m m' snd rcv (Fpage.addr A fp) win.va win.sz)) ∧
    ∀ sigma0, ∀ pfAddr < 2 ^ A.wordBits,
      m.ownReply A snd rcv sigma0 w0 fp pfAddr = some (.ok m') →
      (FrameFidelity A m m' snd rcv (Fpage.addr A fp) (pfAddr / pageSz * pageSz)
          (Fpage.size A fp) →
        Consecutive A m snd (Fpage.addr A fp) (pfAddr / pageSz * pageSz) (Fpage.size A fp) ∧
        (Item.isGrant A w0 = true → Arch.GoodRange A.levels (Fpage.addr A fp) (Fpage.size A fp) →
          Spared A (pfAddr / pageSz * pageSz) (Fpage.size A fp) (Fpage.addr A fp)
            (Fpage.size A fp))) ∧
      (Consecutive A m snd (Fpage.addr A fp) (pfAddr / pageSz * pageSz) (Fpage.size A fp) →
        (Item.isGrant A w0 = true → Spared A (pfAddr / pageSz * pageSz) (Fpage.size A fp)
          (Fpage.addr A fp) (Fpage.size A fp)) →
        FrameFidelity A m m' snd rcv (Fpage.addr A fp) (pfAddr / pageSz * pageSz)
          (Fpage.size A fp)) := by
  have hfp := fpage_addr_lt A fp
  constructor
  · intro acceptor win h
    obtain ⟨cached, pa, m₁, hcached, hwalk, hpa, hwin, hmap, hgrant⟩ := ownItem_eq_ok h
    obtain ⟨hsz, -, hva⟩ := rcvWindow_spec hwin
    rw [hsz] at hmap ⊢
    exact handover_fidelity hfp hva hfp (cached_le hcached) hwalk hpa hmap hgrant
  · intro sigma0 pfAddr hpf h
    obtain ⟨pa, m₁, hwalk, hpa, hmap, hgrant⟩ := ownReply_eq_ok h
    have hva : pfAddr / pageSz * pageSz < 2 ^ A.wordBits :=
      (Nat.div_mul_le_self _ _).trans_lt hpf
    exact handover_fidelity hfp hva hfp (Nat.le_refl 1) hwalk hpa hmap hgrant

/-- A map item of one page, taken at its own address. -/
def onePage (A : Arch) : Handover :=
  ⟨1, 2, Item.mapWord0 A, Fpage.create A 0x40005000 0x1000 6, Fpage.complete⟩

theorem onePage_frameFidelity :
    ∃ m' win, (started .sparc).ownItem .sparc (onePage .sparc).snd (onePage .sparc).rcv
        (onePage .sparc).w0 (onePage .sparc).fp (onePage .sparc).acceptor = some (.ok (m', win)) ∧
      FrameFidelity .sparc (started .sparc) m' 1 2 0x40005000 win.va win.sz := by
  have hrun : ((started .sparc).ownItem .sparc 1 2 (onePage .sparc).w0 (onePage .sparc).fp
      (onePage .sparc).acceptor).any (fun x => okAnd x fun r =>
        decide (Consecutive .sparc (started .sparc) 1 0x40005000 r.2.va r.2.sz)) = true := by
    decide +kernel
  obtain ⟨⟨m', win⟩, h, hcons⟩ := any_okAnd_iff.mp hrun
  refine ⟨m', win, h, ?_⟩
  exact ((handover_frameFidelity .sparc (started .sparc) m' 1 2 (onePage .sparc).w0
    (onePage .sparc).fp).1 _ _ h).2 (of_decide_eq_true hcons)
      (fun hg => absurd hg (by decide +kernel))

/-- Two pages of task 1 that are not neighbours, sent to neighbouring pages of task 2. -/
def scatteredPages (A : Arch) : List Handover :=
  [⟨1, 2, Item.mapWord0 A, Fpage.create A 0x40005000 0x1000 6, Fpage.create A 0x10000 0x1000 0⟩,
    ⟨1, 2, Item.mapWord0 A, Fpage.create A 0x40009000 0x1000 6, Fpage.create A 0x11000 0x1000 0⟩]

/-- Task 2 passes both on in one item, and task 3 gets a frame that task 2 never had. -/
theorem scatteredPages_not_frameFidelity :
    ∃ m m' win, (started .sparc).ownItems .sparc (scatteredPages .sparc) = some m ∧
      m.ownItem .sparc 2 3 (Item.mapWord0 .sparc) (Fpage.create .sparc 0x10000 0x2000 6)
        Fpage.complete = some (.ok (m', win)) ∧
      ¬ FrameFidelity .sparc m m' 2 3
        (Fpage.addr .sparc (Fpage.create .sparc 0x10000 0x2000 6)) win.va win.sz ∧
      m'.frame .sparc 3 0x11000 = some 0x40006000 ∧
      m.frame .sparc 2 0x10000 = some 0x40005000 ∧ m.frame .sparc 2 0x11000 = some 0x40009000 := by
  have hrun : ((started .sparc).ownItems .sparc (scatteredPages .sparc)).any (fun m =>
      (m.ownItem .sparc 2 3 (Item.mapWord0 .sparc) (Fpage.create .sparc 0x10000 0x2000 6)
        Fpage.complete).any fun x => okAnd x fun r => decide (¬ FrameFidelity .sparc m r.1 2 3
          (Fpage.addr .sparc (Fpage.create .sparc 0x10000 0x2000 6)) r.2.va r.2.sz ∧
          r.1.frame .sparc 3 0x11000 = some 0x40006000 ∧
          m.frame .sparc 2 0x10000 = some 0x40005000 ∧
          m.frame .sparc 2 0x11000 = some 0x40009000)) = true := by decide +kernel
  obtain ⟨m, hm, hrun⟩ := (Option.any_eq_true _ _).mp hrun
  obtain ⟨⟨m', win⟩, h, hframes⟩ := any_okAnd_iff.mp hrun
  exact ⟨m, m', win, hm, h, of_decide_eq_true hframes⟩

end Mem

end Wrmos
