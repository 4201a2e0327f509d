import Wrmos.MemCall
import Wrmos.MapItemSpec
import Wrmos.AspaceReach

/-!
# The kernel window

The tables of the kernel window are shared, so a system call that enters a record there enters it in
every address space.  Neither `Aspace::map` nor `Aspace::unmap` asks whether its range is a user range
(`TODO:  check that region is User`): what keeps a call out of the window is only the range it is
called with.  `MemCall.Clears` says of a call that the ranges it hands to them stay clear of the
window, and `run_kernWindow` that a run of such calls leaves every record of the window as it was.

The copying of string items is the one case in which the kernel maps something in the window itself.
It needs no condition: the page is a free one of the kernel heap, and it is unmapped again
(`memcpyPhysDst_sameKern`).
-/

namespace Wrmos

open Lib

/-! ## Addresses read from the tables are addresses of pages -/

section PageAligned

variable {A : Arch}

theorem mul_two_pow_mod {n : Nat} (hn : 12 ≤ n) (x : Nat) : x * 2 ^ n % pageSz = 0 :=
  Nat.mod_eq_zero_of_dvd ((Nat.pow_dvd_pow 2 hn).mul_left x)

theorem sext32_mod {x : Nat} (hx : x % pageSz = 0) : sext32 x % pageSz = 0 := by
  unfold sext32 pageSz at *
  split_ifs <;> omega

theorem orHigh_mod {hi lo : Nat} (hlo : lo % pageSz = 0) : orHigh hi lo % pageSz = 0 := by
  unfold orHigh
  split_ifs
  · unfold pageSz at *
    omega
  · exact sext32_mod hlo

theorem mmuGetMapPa_mod (A : Arch) (level w : Nat) : mmuGetMapPa A level w % pageSz = 0 := by
  have hcut : ∀ {x : Nat}, x % pageSz = 0 → x % 2 ^ 32 % pageSz = 0 := by
    intro x hx
    rw [Nat.mod_mod_of_dvd _ (show pageSz ∣ 2 ^ 32 by decide), hx]
  cases A with
  | sparc => exact hcut (mul_two_pow_mod (by decide) _)
  | arm =>
    simp only [mmuGetMapPa]
    split_ifs
    · exact sext32_mod (mul_two_pow_mod (by decide) _)
    · exact sext32_mod (mul_two_pow_mod (by decide) _)
  | x86 =>
    simp only [mmuGetMapPa]
    split_ifs
    · exact orHigh_mod (mul_two_pow_mod (by decide) _)
    · exact sext32_mod (mul_two_pow_mod (by decide) _)
  | x86_64 =>
    simp only [mmuGetMapPa]
    split_ifs
    · exact sext32_mod (hcut (mul_two_pow_mod (by decide) _))
    · exact orHigh_mod (mul_two_pow_mod (by decide) _)
    · exact mul_two_pow_mod (by decide) _

theorem twelve_le_low_of_mem {l : PtLevel} (hl : l ∈ A.levels) : 12 ≤ l.low := by
  cases A <;> simp only [Arch.levels, List.mem_cons, List.not_mem_nil, or_false] at hl <;>
    rcases hl with rfl | rfl | rfl | rfl <;> decide

theorem readPa_mod {l : PtLevel} {w v : Nat} (hl : 12 ≤ l.low) (hv : v % pageSz = 0) :
    A.readPa l w v % pageSz = 0 := by
  have h1 := mmuGetMapPa_mod A l.level w
  have h2 : v % l.pageSz % pageSz = 0 := by
    rw [Nat.mod_mod_of_dvd _ (Arch.pageSz_dvd_pageSz hl), hv]
  unfold Arch.readPa padd
  rw [Nat.mod_mod_of_dvd _ (show pageSz ∣ 2 ^ 64 by decide), Nat.add_mod, h1, h2,
    Nat.zero_mod]

theorem firstNonzero_mod {f : Nat → Nat} {n k : Nat} (h : ∀ i < n, f i % k = 0) :
    firstNonzero f n % k = 0 := by
  induction n with
  | zero => exact Nat.zero_mod k
  | succ n ih =>
    unfold firstNonzero
    split_ifs
    · exact h n (by omega)
    · exact ih fun i hi => h i (by omega)

/-- What `Aspace::walk` answers is the address of a page. -/
theorem Mem.walk_mod {m : Mem} {t va sz pa : Nat} (hva : va < 2 ^ A.wordBits)
    (h : m.walk A t va sz = .ok pa) (hpa : pa ≠ 0) : pa % pageSz = 0 := by
  obtain ⟨-, rfl⟩ := walk_spec hva h hpa
  obtain ⟨⟨hal, -, -, -⟩, -⟩ := walk_eq_ok.mp h
  refine firstNonzero_mod fun i _ => ?_
  unfold Arch.recordStart
  split
  · next l w hlook =>
    split_ifs
    · have hlow : 12 ≤ l.low := twelve_le_low_of_mem (Arch.lookup_mem hlook)
      exact readPa_mod hlow (by rw [Nat.add_mul_mod_self_right, hal])
    · rfl
  · rfl

end PageAligned

/-! ## Calls that stay clear of the window -/

namespace Arch

variable {A : Arch} {va sz v : Nat}

/-- No address of the range lies in the kernel window. -/
def Clear (A : Arch) (va sz : Nat) : Prop := ∀ d < sz, ¬ A.InKern (va + d)

theorem Clear.not_touch (h : A.Clear va sz) (hv : A.InKern v) : ¬ A.Touch va sz v :=
  fun ⟨d, hd, hcanon⟩ => h d hd (inKern_congr hcanon hv)

/-- The range that `Unmap` of everything uses ends below the window. -/
theorem clear_user (A : Arch) : A.Clear 0 0xf0000000 := by
  intro d hd hin
  unfold InKern canon at hin
  have h := hin.1
  cases A <;> simp only [kernVa, krnVaddr, ktabSz, vaBits] at h <;> omega

end Arch

namespace Mem

variable {A : Arch} {kioSz : Nat} {m m' m'' : Mem} {t va pa sz acc cachable : Nat}

/-- The kernel window is translated as before, by the same records, in every address space. -/
def SameKern (A : Arch) (m m' : Mem) : Prop :=
  ∀ t v, A.InKern v → m'.lookup A t v = m.lookup A t v

theorem SameKern.refl (m : Mem) : SameKern A m m := fun _ _ _ => rfl

theorem SameKern.trans (h1 : SameKern A m m') (h2 : SameKern A m' m'') : SameKern A m m'' :=
  fun t v hv => (h2 t v hv).trans (h1 t v hv)

/-- It is enough to look from one address space. -/
theorem sameKern_of_one (hm : Reach A m) (hm' : Reach A m')
    (h : ∀ v, A.InKern v → m'.lookup A t v = m.lookup A t v) : SameKern A m m' := by
  intro u v hv
  rw [hm'.lookup_kern hv u t, h v hv, hm.lookup_kern hv t u]

/-- **`Aspace::map` of a clear range.** -/
theorem map_sameKern (hm : Reach A m) (hva : va < 2 ^ A.wordBits) (hclear : A.Clear va sz)
    (h : m.map A t va pa sz acc cachable = .ok m') : SameKern A m m' := by
  obtain ⟨-, -, -, -, -, -, -, hout⟩ := map_writes hva h
  exact sameKern_of_one hm (hm.map hva h) fun v hv => hout v (hclear.not_touch hv)

/-- The record that translates an address of the window is a shared one. -/
theorem Reach.lookup_shared (hm : Reach A m) {v w : Nat} {l : PtLevel} (hv : A.InKern v)
    (h : m.lookup A t v = some (l, w)) :
    A.ktabLevel ≤ l.level ∧ m.kern l.level (A.key l v) = .map w := by
  have hl : l ∈ A.levels := Arch.lookup_mem h
  have hcell := Arch.cellAt_of_lookup h
  have hlev : A.ktabLevel ≤ l.level := by
    by_contra hlt
    have hdir := hm.kernDirs t v hv l hl (by omega)
    rw [hcell] at hdir
    cases hdir
  have hrec := Arch.eq_map_of_cellAt hcell
  unfold cells Arch.view at hrec
  rw [if_pos ((Arch.shared_key hl v).mpr ⟨hlev, hv⟩)] at hrec
  exact ⟨hlev, hrec⟩

/-- **`Aspace::unmap` of a clear range.**  The range may cut records of any size: a record that
translates an address of the window covers addresses of the window only. -/
theorem unmap_sameKern (hm : Reach A m) (hva : va < 2 ^ A.wordBits) (hclear : A.Clear va sz)
    (h : m.unmap A t va sz = .ok m') : SameKern A m m' := by
  refine sameKern_of_one (t := t) hm (hm.unmap hva h) fun v hv => ?_
  cases hlook : m.lookup A t v with
  | none =>
    cases hlook' : m'.lookup A t v with
    | none => rfl
    | some r =>
      rw [unmap_some hva h hlook'] at hlook
      cases hlook
  | some r =>
    obtain ⟨l, w⟩ := r
    have hlev := (hm.lookup_shared hv hlook).1
    refine unmap_spares hva h hlook fun d hd hk => hclear d hd ?_
    exact Arch.saturated_inKern (Arch.lookup_mem hlook) (by omega) v _ hk hv

/-! ## The page of a string item -/

/-- What the kernel keeps of its own part of the window: its regions are in order and inside it, and
nothing is mapped in the heap between two calls. -/
structure KernSpace (A : Arch) (kioSz : Nat) (m : Mem) : Prop where
  wf : Region.Wf A m.kspace
  below : ∀ d ∈ m.kspace, d.addr + d.sz ≤ A.kernVa + Arch.kspaceSz
  unmapped : ∀ t, ∀ d < kheapSz, m.lookup A t (kheapVa A kioSz + d) = none

/-- The heap lies in the window. -/
theorem heap_bounds (hkio : kioSz ≤ 0x700000) :
    A.kernVa ≤ kheapVa A kioSz ∧ kheapVa A kioSz + kheapSz ≤ A.kernVa + Arch.kspaceSz := by
  unfold kheapVa kheapSz Arch.kspaceSz Arch.kernVa pageSz
  cases A <;> simp only [Arch.krnVaddr, Arch.ktabSz] <;> omega

theorem inKern_heap (hkio : kioSz ≤ 0x700000) {d : Nat} (hd : d < kheapSz) :
    A.InKern (kheapVa A kioSz + d) := by
  obtain ⟨h1, h2⟩ := heap_bounds (A := A) hkio
  revert h1 h2
  generalize kheapVa A kioSz = x
  unfold Arch.InKern Arch.canon kheapSz Arch.kspaceSz Arch.kernVa at *
  cases A <;> simp only [Arch.krnVaddr, Arch.ktabSz, Arch.vaBits] <;> omega

theorem KernSpace.of_sameKern (hkio : kioSz ≤ 0x700000) (hk : KernSpace A kioSz m)
    (h : SameKern A m m') (hks : m'.kspace = m.kspace) : KernSpace A kioSz m' where
  wf := hks ▸ hk.wf
  below := hks ▸ hk.below
  unmapped := fun t d hd => by rw [h t _ (inKern_heap hkio hd), hk.unmapped t d hd]

/-- A page at a page boundary is inside one block at every level. -/
theorem goodRange_page (hva : va % pageSz = 0) : Arch.GoodRange A.levels va pageSz := by
  intro l hl
  refine .inr ?_
  obtain ⟨k, hk⟩ := Arch.pageSz_dvd_pageSz (twelve_le_low_of_mem hl)
  have hlt := Nat.mod_lt va l.pageSz_pos
  have hmod : va % l.pageSz % pageSz = 0 := by
    rw [Nat.mod_mod_of_dvd _ ⟨k, hk⟩, hva]
  rw [hk] at hlt hmod ⊢
  obtain ⟨q, hq⟩ := Nat.dvd_of_mod_eq_zero hmod
  rw [hq] at hlt ⊢
  have := Nat.lt_of_mul_lt_mul_left hlt
  calc pageSz * q + pageSz = pageSz * (q + 1) := by ring
    _ ≤ pageSz * k := Nat.mul_le_mul_left _ this

/-- A page that is mapped where nothing was and unmapped again leaves all translations alone. -/
theorem map_unmap_page {cur : Nat} (hva : va < 2 ^ A.wordBits)
    (hfree : ∀ d < pageSz, m.lookup A cur (va + d) = none)
    (hmap : m.map A cur va pa pageSz acc cachable = .ok m')
    (hunmap : m'.unmap A cur va pageSz = .ok m'') (v : Nat) :
    m''.lookup A cur v = m.lookup A cur v := by
  obtain ⟨⟨hal, -⟩, -⟩ := map_eq_ok.mp hmap
  obtain ⟨-, -, -, -, -, -, -, hmout⟩ := map_writes hva hmap
  obtain ⟨-, -, -, huin, huout⟩ := unmap_writes hva (goodRange_page hal) hunmap
  by_cases htouch : A.Touch va pageSz v
  · obtain ⟨d, hd, hcanon⟩ := htouch
    have hcongr : ∀ n : Mem, n.lookup A cur v = n.lookup A cur (va + d) :=
      fun n => Arch.lookup_congr hcanon
    rw [hcongr, hcongr, huin d hd, hfree d hd]
  · rw [huout v htouch, hmout v htouch]

/-- The part of a page is copied to one page: the bounds of `memcpy_phys_dst` are a page apart. -/
theorem copy_size {pa off len : Nat} (hpa : pa % pageSz = 0) (hoff : off < pageSz) (hlen : 0 < len)
    (hfit : off + len ≤ pageSz) :
    A.sub (Region.roundUp A (A.add (A.add pa off) len) pageSz) (A.add pa off / pageSz * pageSz) =
      pageSz := by
  rw [Arch.add_add]
  unfold Region.roundUp Arch.sub Arch.add
  obtain ⟨q, rfl⟩ := Nat.dvd_of_mod_eq_zero hpa
  cases A <;> simp only [Arch.wordBits, pageSz] at * <;> omega

/-- A list of regions that covers nothing from `bound` on ends below it. -/
theorem below_of_covers {l : List (Desc AccType)} {bound : Nat} (hwf : Region.Wf A l)
    (h : ∀ v ty, Region.Covers l v ty → v < bound) : ∀ d ∈ l, d.addr + d.sz ≤ bound := by
  intro d hd
  have hpos := (hwf.proper d hd).1
  have := h (d.addr + d.sz - 1) d.type ⟨d, hd, ⟨by omega, by omega⟩, rfl⟩
  omega

theorem covers_below {l : List (Desc AccType)} {bound : Nat}
    (h : ∀ d ∈ l, d.addr + d.sz ≤ bound) (v : Nat) (ty : AccType) (hv : Region.Covers l v ty) :
    v < bound := by
  obtain ⟨d, hd, ⟨-, hlt⟩, -⟩ := hv
  have := h d hd
  omega

theorem pageSz_pos : 0 < pageSz := by decide

theorem window_end (A : Arch) : A.kernVa + Arch.kspaceSz + 2 * pageSz ≤ 2 ^ A.wordBits := by
  cases A <;> decide

/-- `alloc_kspace` takes a page of the heap. -/
theorem allocKspace_spec {kva : Nat} (hkio : kioSz ≤ 0x700000) (hk : KernSpace A kioSz m)
    (h : m.allocKspace A kioSz pageSz = .ok (m', kva)) :
    (kheapVa A kioSz ≤ kva ∧ kva + pageSz ≤ kheapVa A kioSz + kheapSz) ∧
      ∃ l, m' = { m with kspace := l } ∧ Region.Wf A l ∧
        ∀ d ∈ l, d.addr + d.sz ≤ A.kernVa + Arch.kspaceSz := by
  obtain ⟨-, h⟩ := ensure_bind_eq_ok.mp h
  obtain ⟨-, h⟩ := ensure_bind_eq_ok.mp h
  obtain ⟨⟨l, addr⟩, halloc, h⟩ := bind_eq_ok.mp h
  obtain ⟨hne, h⟩ := ensure_bind_eq_ok.mp h
  obtain ⟨rfl, rfl⟩ := Prod.mk.inj (Except.ok.inj h)
  have htop := window_end A
  obtain ⟨-, hspace⟩ := heap_bounds (A := A) hkio
  unfold Region.alloc at halloc
  dsimp only at halloc hne
  split_ifs at halloc with h0
  · obtain ⟨rfl, rfl⟩ := Prod.mk.inj (Except.ok.inj halloc)
    exact absurd rfl hne
  obtain ⟨l', hadd, halloc⟩ := bind_eq_ok.mp halloc
  obtain ⟨rfl, rfl⟩ := Prod.mk.inj (Except.ok.inj halloc)
  obtain ⟨hlo, hhi⟩ := Region.findFree_spec (by decide) hk.wf hk.below (Nat.le_refl _) htop hspace h0
  have hpage := pageSz_pos
  obtain ⟨hwf, hcov⟩ := Region.addFrom_spec (b := []) hpage (by omega) hk.wf hadd
  refine ⟨⟨hlo, hhi⟩, l', rfl, hwf, below_of_covers hwf fun v ty hv => ?_⟩
  rcases (hcov v ty).mp hv with ⟨⟨-, hv⟩, -⟩ | hv
  · omega
  · exact covers_below hk.below v ty hv

theorem freeKspace_spec {kva : Nat} (hend : kva + pageSz < 2 ^ A.wordBits)
    (hwf : Region.Wf A m.kspace) (hbelow : ∀ d ∈ m.kspace, d.addr + d.sz ≤ A.kernVa + Arch.kspaceSz)
    (h : m.freeKspace A kva pageSz = .ok m') :
    ∃ l, m' = { m with kspace := l } ∧ Region.Wf A l ∧
      ∀ d ∈ l, d.addr + d.sz ≤ A.kernVa + Arch.kspaceSz := by
  obtain ⟨l, hfree, h⟩ := bind_eq_ok.mp h
  obtain ⟨hwf', hcov⟩ := Region.free_wf hwf (by decide) hend hfree
  exact ⟨l, (Except.ok.inj h).symm, hwf',
    below_of_covers hwf' fun v ty hv => covers_below hbelow v ty (hcov v ty hv)⟩

theorem map_kspace (h : m.map A t va pa sz acc cachable = .ok m') : m'.kspace = m.kspace := by
  obtain ⟨-, l, ty, code, c, -, -, -, rfl⟩ := map_eq_ok.mp h
  rfl

theorem unmap_kspace (h : m.unmap A t va sz = .ok m') : m'.kspace = m.kspace := by
  obtain ⟨-, l, c, -, -, rfl⟩ := unmap_eq_ok.mp h
  rfl

/-- **The copy of a string item to another address space.** -/
theorem memcpyPhysDst_sameKern {cur pa off len : Nat} (hkio : kioSz ≤ 0x700000) (hm : Reach A m)
    (hk : KernSpace A kioSz m) (hpa : pa % pageSz = 0) (hoff : off < pageSz) (hlen : 0 < len)
    (hfit : off + len ≤ pageSz) (h : m.memcpyPhysDst A kioSz cur (A.add pa off) len = .ok m') :
    Reach A m' ∧ KernSpace A kioSz m' ∧ SameKern A m m' := by
  unfold memcpyPhysDst at h
  split_ifs at h
  · obtain rfl := Except.ok.inj h
    exact ⟨hm, hk, SameKern.refl m⟩
  dsimp only at h
  rw [copy_size hpa hoff hlen hfit] at h
  obtain ⟨⟨m₁, kva⟩, halloc, h⟩ := bind_eq_ok.mp h
  obtain ⟨m₂, hmap, h⟩ := bind_eq_ok.mp h
  obtain ⟨m₃, hunmap, hfree⟩ := bind_eq_ok.mp h
  obtain ⟨⟨hlo, hhi⟩, l₁, rfl, hwf₁, hbelow₁⟩ := allocKspace_spec hkio hk halloc
  have hend := heap_bounds (A := A) hkio
  have htop := window_end A
  have hpage := pageSz_pos
  have hkva : kva < 2 ^ A.wordBits := by omega
  have hkspace : m₃.kspace = l₁ := (unmap_kspace hunmap).trans (map_kspace hmap)
  rw [← hkspace] at hwf₁ hbelow₁
  obtain ⟨l₂, rfl, hwf₂, hbelow₂⟩ :=
    freeKspace_spec (by omega) hwf₁ hbelow₁ hfree
  have hm₁ : Reach A { m with kspace := l₁ } := hm.kernel m.kern l₁
  have hm₃ : Reach A m₃ := (hm₁.map hkva hmap).unmap hkva hunmap
  have hlook : ∀ v, lookup A { m with kspace := l₁ } cur v = m.lookup A cur v := fun _ => rfl
  have hfreePage : ∀ d < pageSz, lookup A { m with kspace := l₁ } cur (kva + d) = none := by
    intro d hd
    have := hk.unmapped cur (kva - kheapVa A kioSz + d) (by omega)
    rwa [show kheapVa A kioSz + (kva - kheapVa A kioSz + d) = kva + d by omega, ← hlook] at this
  have hsame : SameKern A m m₃ :=
    sameKern_of_one hm hm₃ fun v _ => (map_unmap_page hkva hfreePage hmap hunmap v).trans (hlook v)
  refine ⟨hm₃.kernel m₃.kern l₂, ⟨hwf₂, hbelow₂, fun t d hd => ?_⟩, hsame⟩
  exact (hsame t _ (inKern_heap hkio hd)).trans (hk.unmapped t d hd)

theorem length_lt (A : Arch) (w0 : Nat) : Item.length A w0 < 2 ^ (A.wordBits - 1) := by
  unfold Item.length Arch.field bits
  cases A with
  | x86_64 => exact (Nat.mod_lt _ (by decide)).trans (by decide)
  | sparc => exact ((Nat.mod_le _ _).trans_lt (Nat.mod_lt _ (by decide))).trans (by decide)
  | arm => exact ((Nat.mod_le _ _).trans_lt (Nat.mod_lt _ (by decide))).trans (by decide)
  | x86 => exact ((Nat.mod_le _ _).trans_lt (Nat.mod_lt _ (by decide))).trans (by decide)

/-- What `copy_thread_buf` does not take for page crossed is not. -/
theorem fit_of_same_page {addr len : Nat} (haddr : addr < 2 ^ A.wordBits) (hpos : 0 < len)
    (hlen : len < 2 ^ (A.wordBits - 1)) (h : addr / pageSz = A.add addr (len - 1) / pageSz) :
    addr % pageSz + len ≤ pageSz := by
  unfold Arch.add pageSz at *
  cases A <;> simp only [Arch.wordBits] at * <;> omega

theorem copyThreadBuf_sameKern {cur snd rcv src dst len : Nat} (hkio : kioSz ≤ 0x700000)
    (hm : Reach A m) (hk : KernSpace A kioSz m) (hdst : dst < 2 ^ A.wordBits)
    (hlen : len < 2 ^ (A.wordBits - 1))
    (h : m.copyThreadBuf A kioSz cur snd rcv src dst len = .ok m') :
    Reach A m' ∧ KernSpace A kioSz m' ∧ SameKern A m m' := by
  unfold copyThreadBuf at h
  split_ifs at h with h0 hsame hsnd
  · obtain rfl := Except.ok.inj h
    exact ⟨hm, hk, SameKern.refl m⟩
  · obtain ⟨-, h⟩ := ensure_bind_eq_ok.mp h
    obtain rfl := Except.ok.inj h
    exact ⟨hm, hk, SameKern.refl m⟩
  · obtain ⟨hpage, h⟩ := ensure_bind_eq_ok.mp h
    obtain ⟨pa, hwalk, h⟩ := bind_eq_ok.mp h
    obtain ⟨hpa, h⟩ := ensure_bind_eq_ok.mp h
    have hlt : dst / pageSz * pageSz < 2 ^ A.wordBits := (Nat.div_mul_le_self _ _).trans_lt hdst
    have hpos : 0 < len := by omega
    exact memcpyPhysDst_sameKern hkio hm hk (walk_mod hlt hwalk hpa) (Nat.mod_lt _ pageSz_pos) hpos
      (fit_of_same_page hdst hpos hlen hpage) h
  · -- from another address space: only where physical copies are supported, and nothing is mapped
    obtain ⟨-, h⟩ := ensure_bind_eq_ok.mp h
    obtain ⟨-, h⟩ := ensure_bind_eq_ok.mp h
    obtain ⟨pa, -, h⟩ := bind_eq_ok.mp h
    obtain ⟨-, h⟩ := ensure_bind_eq_ok.mp h
    obtain ⟨-, h⟩ := ensure_bind_eq_ok.mp h
    obtain rfl := Except.ok.inj h
    exact ⟨hm, hk, SameKern.refl m⟩

/-! ## Runs -/

/-- The words of a call are machine words. -/
def MemCall.Words (A : Arch) : MemCall → Prop
  | .item _ => True
  | .reply _ _ _ _ _ pfAddr => pfAddr < 2 ^ A.wordBits
  | .string _ _ _ _ src _ dst => src < 2 ^ A.wordBits ∧ dst < 2 ^ A.wordBits
  | .unmap _ _ utcbs => ∀ u ∈ utcbs, u.2 < 2 ^ A.wordBits

/-- The ranges that a call hands to `Aspace::map` and `Aspace::unmap` are clear of the window. -/
def MemCall.Clears (A : Arch) (m : Mem) : MemCall → Prop
  | .item h => (m.cached A h.snd h.fp).isSome →
    (∀ win, rcvWindow A h.w0 h.fp h.acceptor = .ok win → A.Clear win.va win.sz) ∧
      (Item.isGrant A h.w0 = true → A.Clear (Fpage.addr A h.fp) (Fpage.addr A h.fp))
  | .reply cur _ _ w0 fp pfAddr => m.isInsideAcc A cur fp = true →
    A.Clear (pfAddr / pageSz * pageSz) (Fpage.size A fp) ∧
      (Item.isGrant A w0 = true → A.Clear (Fpage.addr A fp) (Fpage.size A fp))
  | .string _ _ _ _ _ _ _ => True
  | .unmap _ fp utcbs =>
    if Fpage.isComplete A fp then ∀ u ∈ utcbs, A.Clear u.2 pageSz
    else Fpage.isNil fp = false → A.Clear (Fpage.addr A fp) (Fpage.size A fp)

/-- What a run keeps: the state can occur, the kernel's own part is in order, and the window is
translated as in `m₀`. -/
structure KeepsKern (A : Arch) (kioSz : Nat) (m₀ m : Mem) : Prop where
  reach : Reach A m
  space : KernSpace A kioSz m
  same : SameKern A m₀ m

section Runs

variable {m₀ : Mem} (hkio : kioSz ≤ 0x700000)

include hkio

theorem KeepsKern.map (hk : KeepsKern A kioSz m₀ m) (hva : va < 2 ^ A.wordBits)
    (hclear : A.Clear va sz) (h : m.map A t va pa sz acc cachable = .ok m') :
    KeepsKern A kioSz m₀ m' :=
  have hsame := map_sameKern hk.reach hva hclear h
  ⟨hk.reach.map hva h, hk.space.of_sameKern hkio hsame (map_kspace h), hk.same.trans hsame⟩

theorem KeepsKern.unmap (hk : KeepsKern A kioSz m₀ m) (hva : va < 2 ^ A.wordBits)
    (hclear : A.Clear va sz) (h : m.unmap A t va sz = .ok m') : KeepsKern A kioSz m₀ m' :=
  have hsame := unmap_sameKern hk.reach hva hclear h
  ⟨hk.reach.unmap hva h, hk.space.of_sameKern hkio hsame (unmap_kspace h), hk.same.trans hsame⟩

/-- The map and the unmap of an item. -/
theorem KeepsKern.handover {rcv rva size w0 ua ulen : Nat} {m₁ : Mem} (hk : KeepsKern A kioSz m₀ m)
    (hrva : rva < 2 ^ A.wordBits) (hua : ua < 2 ^ A.wordBits) (hclear : A.Clear rva size)
    (hclear' : Item.isGrant A w0 = true → A.Clear ua ulen)
    (hmap : m.map A rcv rva pa size acc cachable = .ok m₁)
    (hgrant : (if Item.isGrant A w0 then m₁.unmap A rcv ua ulen else pure m₁) = .ok m') :
    KeepsKern A kioSz m₀ m' := by
  have hk₁ := hk.map hkio hrva hclear hmap
  split_ifs at hgrant with hg
  · exact hk₁.unmap hkio hua (hclear' hg) hgrant
  · obtain rfl := Except.ok.inj hgrant
    exact hk₁

theorem KeepsKern.remapUserUtcb {utcbs : List (Nat × Nat)}
    (hwords : ∀ u ∈ utcbs, u.2 < 2 ^ A.wordBits) (hclear : ∀ u ∈ utcbs, A.Clear u.2 pageSz) :
    ∀ {m : Mem}, KeepsKern A kioSz m₀ m → m.remapUserUtcb A t utcbs = .ok m' →
      KeepsKern A kioSz m₀ m' := by
  induction utcbs with
  | nil =>
    intro m hk h
    obtain rfl := Except.ok.inj h
    exact hk
  | cons u utcbs ih =>
    intro m hk h
    obtain ⟨pa, -, h⟩ := bind_eq_ok.mp h
    obtain ⟨m₁, hmap, h⟩ := bind_eq_ok.mp h
    have hk₁ := hk.map hkio (hwords u List.mem_cons_self) (hclear u List.mem_cons_self) hmap
    exact ih (fun v hv => hwords v (List.mem_cons_of_mem u hv))
      (fun v hv => hclear v (List.mem_cons_of_mem u hv)) hk₁ h

/-- A flexpage of `Unmap`. -/
theorem KeepsKern.unmapFpage {fp : Nat} {utcbs : List (Nat × Nat)} (hk : KeepsKern A kioSz m₀ m)
    (hwords : (MemCall.unmap t fp utcbs).Words A) (hclear : (MemCall.unmap t fp utcbs).Clears A m)
    (h : m.unmapFpage A t fp utcbs = .ok m') : KeepsKern A kioSz m₀ m' := by
  simp only [MemCall.Clears] at hclear
  unfold Mem.unmapFpage at h
  split_ifs at h hclear with hio hcomplete hnil
  · obtain ⟨m₁, hunmap, h⟩ := bind_eq_ok.mp h
    have hk₁ := hk.unmap hkio (Nat.two_pow_pos _) A.clear_user hunmap
    exact KeepsKern.remapUserUtcb hkio hwords hclear hk₁ h
  · obtain rfl := Except.ok.inj h
    exact hk
  · exact hk.unmap hkio (fpage_addr_lt A fp) (hclear (by simpa using hnil)) h

/-- One call. -/
theorem KeepsKern.memCall {c : MemCall} (hk : KeepsKern A kioSz m₀ m) (hwords : c.Words A)
    (hclear : c.Clears A m) (h : m.memCall A kioSz c = .ok m') : KeepsKern A kioSz m₀ m' := by
  cases c with
  | item i =>
    simp only [Mem.memCall] at h
    split at h
    · rename_i r hr
      obtain ⟨⟨m₁, win⟩, rfl, h⟩ := bind_eq_ok.mp h
      obtain rfl := Except.ok.inj h
      obtain ⟨cached, pa, m₂, hcached, -, -, hwin, hmap, hgrant⟩ := ownItem_eq_ok hr
      obtain ⟨hc, hc'⟩ := hclear (by rw [hcached]; rfl)
      exact hk.handover hkio (rcvWindow_spec hwin).2.2 (fpage_addr_lt A i.fp) (hc win hwin) hc' hmap
        hgrant
    · obtain rfl := Except.ok.inj h
      exact hk
  | reply cur dst sigma0 w0 fp pfAddr =>
    simp only [Mem.memCall] at h
    split at h
    · rename_i r hr
      rw [h] at hr
      obtain ⟨pa, m₁, -, -, hmap, hgrant⟩ := ownReply_eq_ok hr
      have hin : m.isInsideAcc A cur fp = true := by
        by_contra hin
        simp [ownReply, hin] at hr
      obtain ⟨hc, hc'⟩ := hclear hin
      exact hk.handover hkio ((Nat.div_mul_le_self _ _).trans_lt hwords) (fpage_addr_lt A fp) hc hc'
        hmap hgrant
    · obtain rfl := Except.ok.inj h
      exact hk
  | string cur snd rcv w0 src b0 dst =>
    have hlen : min (Item.length A w0) (Item.length A b0) < 2 ^ (A.wordBits - 1) :=
      (Nat.min_le_left _ _).trans_lt (length_lt A w0)
    obtain ⟨hr, hs, hsame⟩ := copyThreadBuf_sameKern hkio hk.reach hk.space hwords.2 hlen h
    exact ⟨hr, hs, hk.same.trans hsame⟩
  | unmap t fp utcbs => exact hk.unmapFpage hkio hwords hclear h

/-- **Integrity of the kernel window.**  A run of calls whose ranges stay clear of the window changes
none of its records. -/
theorem run_kernWindow (hm₀ : Reach A m₀) (hspace : KernSpace A kioSz m₀) {cs : List MemCall}
    (hC : Meets (fun m c => Mem.memCall A kioSz m c) (fun m c => c.Words A ∧ c.Clears A m) m₀ cs)
    (h : runAll (fun m c => Mem.memCall A kioSz m c) m₀ cs = .ok m) :
    ∀ t v, A.InKern v → m.lookup A t v = m₀.lookup A t v :=
  (runAll_invariant (I := KeepsKern A kioSz m₀)
    (fun _ _ _ hk hc hstep => hk.memCall hkio hc.1 hc.2 hstep) ⟨hm₀, hspace, SameKern.refl m₀⟩ hC
    h).same

end Runs

/-! ## A state with a page of the kernel -/

/-- The first page of the window of arm, mapped for the kernel. -/
def kernPage : Cells := fun n k => if n = 2 ∧ k = 0xf0000 then .map 0x6000045e else .inv

/-- `started`, with that page. -/
def startedKern : Mem :=
  match (fresh .arm kernPage []).map .arm 1 0x40000000 0x40000000 0x100000 Acc.urwx 1 with
  | .ok m => m
  | .error _ => fresh .arm kernPage []

theorem clear_arm {va sz : Nat} (h : va + sz ≤ 0xf0000000) : Arch.Clear .arm va sz := by
  intro d hd hin
  simp only [Arch.InKern, Arch.canon, Arch.kernVa, Arch.krnVaddr, Arch.ktabSz, Arch.vaBits] at hin
  omega

theorem kernSpace_fresh : KernSpace .arm 0x6000 (fresh .arm kernPage []) where
  wf := ⟨List.Pairwise.nil, fun _ hd => absurd hd List.not_mem_nil⟩
  below := fun _ hd => absurd hd List.not_mem_nil
  unmapped := by
    intro t d hd
    have hin : Arch.InKern .arm (kheapVa .arm 0x6000 + d) := inKern_heap (by decide) hd
    cases hlook : (fresh .arm kernPage []).lookup .arm t (kheapVa .arm 0x6000 + d) with
    | none => rfl
    | some r =>
      obtain ⟨l, w⟩ := r
      have hrec := ((Reach.fresh kernPage []).lookup_shared hin hlook).2
      simp only [kernPage] at hrec
      split_ifs at hrec with hpage
      obtain ⟨hlev, hkey⟩ := hpage
      have hl := Arch.lookup_mem hlook
      simp only [Arch.levels, List.mem_cons, List.not_mem_nil, or_false] at hl
      have hva : kheapVa .arm 0x6000 = 0xf060a000 := rfl
      rw [hva] at hkey
      rcases hl with rfl | rfl
      · cases hlev
      · simp only [Arch.key, Arch.canon, Arch.vaBits, PtLevel.pageSz] at hkey
        unfold kheapSz at hd
        omega

theorem startedKern_ok : Reach .arm startedKern ∧ KernSpace .arm 0x6000 startedKern := by
  have hfresh : KeepsKern .arm 0x6000 (fresh .arm kernPage []) (fresh .arm kernPage []) :=
    ⟨Reach.fresh kernPage [], kernSpace_fresh, SameKern.refl _⟩
  unfold startedKern
  split
  · rename_i m h
    have hk := hfresh.map (by decide) (by decide) (clear_arm (by decide)) h
    exact ⟨hk.reach, hk.space⟩
  · exact ⟨hfresh.reach, hfresh.space⟩

/-- Task 1 maps a page to task 2, and task 2 unmaps it. -/
def mapThenUnmap : List MemCall :=
  [.item (onePage .arm), .unmap 2 (Fpage.create .arm 0x40005000 0x1000 0) []]

theorem mapThenUnmap_kernWindow :
    ∃ m, runAll (fun m c => Mem.memCall .arm 0x6000 m c) startedKern mapThenUnmap = .ok m ∧
      ∀ t v, Arch.InKern .arm v → m.lookup .arm t v = startedKern.lookup .arm t v := by
  have hrun : (match runAll (fun m c => Mem.memCall .arm 0x6000 m c) startedKern mapThenUnmap with
      | .ok _ => true
      | .error _ => false) = true := by decide +kernel
  split at hrun
  · rename_i m h
    refine ⟨m, h, run_kernWindow (by decide) startedKern_ok.1 startedKern_ok.2 ?_ h⟩
    refine meets_of_forall fun c hc n => ?_
    simp only [mapThenUnmap, List.mem_cons, List.not_mem_nil, or_false] at hc
    rcases hc with rfl | rfl
    · refine ⟨trivial, fun _ => ⟨fun win hwin => clear_arm ?_, fun hg => absurd hg (by decide)⟩⟩
      have hw : (match rcvWindow .arm (onePage .arm).w0 (onePage .arm).fp (onePage .arm).acceptor with
          | .ok win => decide (win.va + win.sz ≤ 0xf0000000)
          | .error _ => true) = true := by decide +kernel
      rw [hwin] at hw
      exact of_decide_eq_true hw
    · exact ⟨fun u hu => absurd hu List.not_mem_nil, fun _ => clear_arm (by decide)⟩
  · cases hrun

/-- Task 2 unmaps the page of the kernel, and task 1 has lost it. -/
theorem unmap_kernPage :
    Reach .arm startedKern ∧ KernSpace .arm 0x6000 startedKern ∧
    ∃ m, runAll (fun m c => Mem.memCall .arm 0x6000 m c) startedKern
        [.unmap 2 (Fpage.create .arm 0xf0000000 0x1000 0) []] = .ok m ∧
      Arch.InKern .arm 0xf0000000 ∧ (startedKern.lookup .arm 1 0xf0000000).isSome ∧
      m.lookup .arm 1 0xf0000000 = none := by
  have hrun : (match runAll (fun m c => Mem.memCall .arm 0x6000 m c) startedKern
        [.unmap 2 (Fpage.create .arm 0xf0000000 0x1000 0) []] with
      | .ok m => decide (Arch.InKern .arm 0xf0000000 ∧
          (startedKern.lookup .arm 1 0xf0000000).isSome ∧ m.lookup .arm 1 0xf0000000 = none)
      | .error _ => false) = true := by decide +kernel
  split at hrun
  · rename_i m h
    exact ⟨startedKern_ok.1, startedKern_ok.2, m, h, of_decide_eq_true hrun⟩
  · cases hrun

end Mem

end Wrmos
