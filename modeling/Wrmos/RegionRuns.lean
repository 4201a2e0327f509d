import Wrmos.RegionSearch

/-!
# Any sequence of calls on a list of regions

`Call` has the public calls of `Address_space_t` that change its list and `Effect` what each asks for:
the addresses of its range get a type or are taken out, and nothing else changes; with `Combine`,
the range and every region of its type that it meets or touches become one region.

`run_represented` says that in every run of sound calls the list stays well formed and every call has
its effect.  A call is sound when its range is not empty and no sum wraps; `free`, besides, is sound
for a piece of one region and for a range that meets none.  `free` of a range that two regions hold
together does nothing (`freeAcross_not_taken`), where `add` and `insert` stop at a range that crosses
a region.
-/

namespace Wrmos
namespace Region

open Lib

variable {τ : Type} {A : Arch} {N : Nat} {l l' b a : List (Desc τ)} {addr sz : Nat} {type : τ}

/-! ## What a call changes -/

/-- The range has the type, every other address its type as before. -/
def Sets (l l' : List (Desc τ)) (addr sz : Nat) (type : τ) : Prop :=
  ∀ v t, Covers l' v t ↔
    (addr ≤ v ∧ v < addr + sz) ∧ t = type ∨ ¬ (addr ≤ v ∧ v < addr + sz) ∧ Covers l v t

/-- The range is not covered, every other address has its type as before. -/
def Takes (l l' : List (Desc τ)) (addr sz : Nat) : Prop :=
  ∀ v t, Covers l' v t ↔ ¬ (addr ≤ v ∧ v < addr + sz) ∧ Covers l v t

/-- The region meets the range or touches it. -/
def Touches (d : Desc τ) (addr sz : Nat) : Prop := d.addr ≤ addr + sz ∧ addr ≤ d.addr + d.sz

/-- One region of the type holds the range and every old region of the type that the range meets or
touches. -/
def Merges (l l' : List (Desc τ)) (addr sz : Nat) (type : τ) : Prop :=
  ∃ d ∈ l', d.type = type ∧ Contains d addr sz ∧
    ∀ e ∈ l, e.type = type → Touches e addr sz → Contains d e.addr e.sz

/-- The effect of putting a range in. -/
def Puts (l l' : List (Desc τ)) (addr sz : Nat) (type : τ) (mode : Mode) : Prop :=
  Sets l l' addr sz type ∧ (mode = .combine → Merges l l' addr sz type)

/-! ## Merging -/

variable [DecidableEq τ] {mode : Mode}

/-- What `absorbPrev` makes of a region. -/
theorem absorbPrev_spec (d : Desc τ) (hsort : b.Pairwise fun d e => Before e d)
    (hpos : ∀ p ∈ b, 0 < p.sz) (hb : ∀ p ∈ b, p.addr + p.sz ≤ d.addr) :
    (absorbPrev b d).2.type = d.type ∧ (absorbPrev b d).2.addr ≤ d.addr ∧
      (absorbPrev b d).2.addr + (absorbPrev b d).2.sz = d.addr + d.sz ∧
      ∀ p ∈ b, p.type = d.type → d.addr ≤ p.addr + p.sz → (absorbPrev b d).2.addr ≤ p.addr := by
  cases b with
  | nil => exact ⟨rfl, le_rfl, rfl, by simp⟩
  | cons q b =>
    have hq := hb q List.mem_cons_self
    by_cases h : q.addr + q.sz = d.addr ∧ q.type = d.type
    · rw [absorbPrev_touch h]
      refine ⟨rfl, by dsimp only; omega, by dsimp only; omega, fun p hp _ htouch => ?_⟩
      rcases List.mem_cons.mp hp with rfl | hp
      · exact le_rfl
      · -- a region further down ends before the neighbour begins
        have := (List.pairwise_cons.mp hsort).1 p hp
        have := hpos q List.mem_cons_self
        simp only [Before] at *
        omega
    · rw [absorbPrev_apart h]
      refine ⟨rfl, le_rfl, rfl, fun p hp ht htouch => ?_⟩
      rcases List.mem_cons.mp hp with rfl | hp
      · exact absurd ⟨by omega, ht⟩ h
      · have := (List.pairwise_cons.mp hsort).1 p hp
        have := hpos q List.mem_cons_self
        simp only [Before] at *
        omega

/-- What `absorbNext` makes of a region. -/
theorem absorbNext_spec (d : Desc τ) (hsort : a.Pairwise Before) (hpos : ∀ p ∈ a, 0 < p.sz)
    (ha : ∀ p ∈ a, d.addr + d.sz ≤ p.addr) :
    (absorbNext d a).1.type = d.type ∧ (absorbNext d a).1.addr = d.addr ∧
      d.addr + d.sz ≤ (absorbNext d a).1.addr + (absorbNext d a).1.sz ∧
      ∀ p ∈ a, p.type = d.type → p.addr ≤ d.addr + d.sz →
        p.addr + p.sz ≤ (absorbNext d a).1.addr + (absorbNext d a).1.sz := by
  cases a with
  | nil => exact ⟨rfl, rfl, le_rfl, by simp⟩
  | cons q a =>
    have hq := ha q List.mem_cons_self
    have hq' := hpos q List.mem_cons_self
    by_cases h : d.addr + d.sz = q.addr ∧ d.type = q.type
    · rw [absorbNext_touch h]
      refine ⟨rfl, rfl, by dsimp only; omega, fun p hp _ htouch => ?_⟩
      rcases List.mem_cons.mp hp with rfl | hp
      · dsimp only
        omega
      · have := (List.pairwise_cons.mp hsort).1 p hp
        simp only [Before] at this
        omega
    · rw [absorbNext_apart h]
      refine ⟨rfl, rfl, le_rfl, fun p hp ht htouch => ?_⟩
      rcases List.mem_cons.mp hp with rfl | hp
      · exact absurd ⟨by omega, ht.symm⟩ h
      · have := (List.pairwise_cons.mp hsort).1 p hp
        simp only [Before] at this
        omega

/-- **A region that is put in is merged with the neighbours it touches.** -/
theorem merged_merges (hwf : Wf A (join b a)) (hb : ∀ p ∈ b, p.addr + p.sz ≤ addr)
    (ha : ∀ p ∈ a, addr + sz ≤ p.addr) :
    Merges (join b a) (merged b ⟨addr, sz, type⟩ a) addr sz type := by
  obtain ⟨h1, h2, h3, h4, h5⟩ := wf_join.mp hwf
  obtain ⟨hpt, hpa, hpe, hpall⟩ :=
    absorbPrev_spec ⟨addr, sz, type⟩ h1 (fun p hp => (h4 p hp).1) hb
  change _ ≤ addr at hpa
  change _ = addr + sz at hpe
  have ha' : ∀ p ∈ a, (absorbPrev b ⟨addr, sz, type⟩).2.addr +
      (absorbPrev b ⟨addr, sz, type⟩).2.sz ≤ p.addr := fun p hp => hpe ▸ ha p hp
  unfold merged
  generalize (absorbPrev b ⟨addr, sz, type⟩).2 = x at *
  obtain ⟨hnt, hna, hne, hnall⟩ := absorbNext_spec x h2 (fun p hp => (h5 p hp).1) ha'
  generalize (absorbNext x a).1 = d at *
  refine ⟨d, mem_join.mpr (.inr List.mem_cons_self), hnt.trans hpt, ?_, fun e he ht htouch => ?_⟩
  · simp only [Contains]
    omega
  · simp only [Contains, Touches] at *
    rcases mem_join.mp he with he | he
    · have := hpall e he ht htouch.2
      have := hb e he
      omega
    · have := hnall e he (ht.trans hpt.symm) (by omega)
      have := ha e he
      omega

/-- **`add` at a position.** -/
theorem addAt_puts (hwf : Wf A (join b a)) (hsz : 0 < sz) (hend : addr + sz < 2 ^ A.wordBits)
    (h : addAt A N b a addr sz type mode = .ok l) :
    Wf A l ∧ Puts (join b a) l addr sz type mode := by
  obtain ⟨hl, hcov⟩ := addAt_replaces hwf hsz hend h
  refine ⟨hl, hcov, ?_⟩
  rintro rfl
  obtain ⟨hb, ha⟩ := addAt_between hwf hend h
  rw [addAt_combine hwf hend h]
  exact merged_merges hwf hb ha

/-- **`remove` and `add` of a piece of a region**: the pieces left of it count as the region. -/
theorem removeAt_addAt_puts {pos : Desc τ} {r : List (Desc τ) × List (Desc τ)}
    (hwf : Wf A (join b (pos :: a))) (hsz : 0 < sz) (hend : addr + sz < 2 ^ A.wordBits)
    (hin : Contains pos addr sz) (hr : removeAt A N b pos a addr sz = .ok r)
    (h : addAt A N r.1 r.2 addr sz type mode = .ok l) :
    Wf A l ∧ Puts (join b (pos :: a)) l addr sz type mode := by
  have hp := (wf_join.mp hwf).2.2.2.2 pos List.mem_cons_self
  obtain ⟨hwf', hrem⟩ := removeAt_spec hwf hin hr
  obtain ⟨hl, hcov, hmerge⟩ := addAt_puts hwf' hsz hend h
  refine ⟨hl, fun v t => ?_, fun hmode => ?_⟩
  · rw [hcov, hrem]
    tauto
  · obtain ⟨d, hd, hdt, hdc, hall⟩ := hmerge hmode
    obtain rfl := removeAt_eq hp hin hr
    refine ⟨d, hd, hdt, hdc, fun e he ht htouch => ?_⟩
    have hother : (e ∈ b ∨ e ∈ a) → Contains d e.addr e.sz := by
      intro he
      refine hall e ?_ ht htouch
      rw [mem_join, List.mem_append, List.mem_append]
      tauto
    rcases mem_join.mp he with he | he
    · exact hother (.inl he)
    · rcases List.mem_cons.mp he with rfl | he
      · -- the pieces before and behind the range
        simp only [Contains, Touches] at *
        constructor
        · by_cases hlt : e.addr < addr
          · have := hall ⟨e.addr, addr - e.addr, e.type⟩ (mem_join.mpr (.inl
              (List.mem_append_left _ (mem_headPiece.mpr ⟨hlt, rfl⟩)))) ht
              ⟨by dsimp only; omega, by dsimp only; omega⟩
            exact this.1
          · omega
        · by_cases hlt : addr + sz < e.addr + e.sz
          · have := hall ⟨addr + sz, e.addr + e.sz - (addr + sz), e.type⟩ (mem_join.mpr (.inr
              (List.mem_append_left _ (mem_tailPiece.mpr ⟨hlt, rfl⟩)))) ht
              ⟨by dsimp only; omega, by dsimp only; omega⟩
            dsimp only at this
            omega
          · omega
      · exact hother (.inr he)

/-! ## The public calls -/

/-- `add`. -/
theorem addFrom_puts (hsz : 0 < sz) (hend : addr + sz < 2 ^ A.wordBits) :
    ∀ {a b l : List (Desc τ)}, Wf A (join b a) → addFrom A N addr sz type mode b a = .ok l →
      Wf A l ∧ Puts (join b a) l addr sz type mode := by
  intro a
  induction a with
  | nil => exact fun hwf h => addAt_puts hwf hsz hend h
  | cons it a ih =>
    intro b l hwf h
    unfold addFrom at h
    split_ifs at h
    · exact addAt_puts hwf hsz hend (ensure_bind_eq_ok.mp h).2
    · rw [← join_cons] at hwf ⊢
      exact ih hwf h

/-- `insert`: the range lies in one region and its type is joined, or it meets none. -/
theorem insertFrom_puts [OrOp τ] {ty : τ} (hsz : 0 < sz) (hend : addr + sz < 2 ^ A.wordBits) :
    ∀ {a b l : List (Desc τ)}, Wf A (join b a) →
      insertFrom A N addr sz type mode b a = .ok (l, ty) →
      Wf A l ∧ Puts (join b a) l addr sz ty mode ∧
        ((∃ d ∈ join b a, Contains d addr sz ∧ ty = type ||| d.type) ∨
          Clear (join b a) addr sz ∧ ty = type) := by
  -- at a position where the range crosses nothing
  have hnew : ∀ {a b l : List (Desc τ)}, Wf A (join b a) →
      addAt A N b a addr sz type mode = .ok l →
      Wf A l ∧ Puts (join b a) l addr sz type mode ∧
        ((∃ d ∈ join b a, Contains d addr sz ∧ type = type ||| d.type) ∨
          Clear (join b a) addr sz ∧ type = type) := by
    intro a b l hwf h
    obtain ⟨hb, ha⟩ := addAt_between hwf hend h
    refine ⟨(addAt_puts hwf hsz hend h).1, (addAt_puts hwf hsz hend h).2, .inr ⟨?_, rfl⟩⟩
    intro d hd
    rw [apart_iff hsz (hwf.proper d hd).1]
    exact (mem_join.mp hd).elim (fun hd => .inr (hb d hd)) (fun hd => .inl (ha d hd))
  intro a
  induction a with
  | nil =>
    intro b l hwf h
    simp only [insertFrom] at h
    obtain ⟨l', h', h⟩ := bind_eq_ok.mp h
    obtain ⟨rfl, rfl⟩ := Prod.mk.inj (Except.ok.inj h)
    exact hnew hwf h'
  | cons it a ih =>
    intro b l hwf h
    simp only [insertFrom] at h
    have hit := (wf_join.mp hwf).2.2.2.2 it List.mem_cons_self
    rw [endOf, Arch.add_of_lt hend, Arch.add_of_lt hit.2] at h
    split_ifs at h with h1 h2
    · obtain ⟨r, hr, h⟩ := bind_eq_ok.mp h
      obtain ⟨l', h', h⟩ := bind_eq_ok.mp h
      obtain ⟨rfl, rfl⟩ := Prod.mk.inj (Except.ok.inj h)
      obtain ⟨hl, hputs⟩ := removeAt_addAt_puts hwf hsz hend h1 hr h'
      exact ⟨hl, hputs, .inl ⟨it, mem_join.mpr (.inr List.mem_cons_self), h1, rfl⟩⟩
    · obtain ⟨-, h⟩ := ensure_bind_eq_ok.mp h
      obtain ⟨l', h', h⟩ := bind_eq_ok.mp h
      obtain ⟨rfl, rfl⟩ := Prod.mk.inj (Except.ok.inj h)
      exact hnew hwf h'
    · rw [← join_cons] at hwf ⊢
      exact ih hwf h

omit [DecidableEq τ] in
/-- The search of `find_free` leaves room for the size behind what it returns. -/
theorem findFreeFrom_fits {align start spaceSz : Nat} :
    ∀ {l : List (Desc τ)} {cur : Nat}, NoWrap A l sz align start spaceSz →
      (∀ d ∈ l, start ≤ d.addr) → cur + sz < 2 ^ A.wordBits →
      findFreeFrom A sz align (start + spaceSz) cur l = 0 ∨
        findFreeFrom A sz align (start + spaceSz) cur l + sz < 2 ^ A.wordBits := by
  intro l
  induction l with
  | nil => exact fun _ _ h => .inr h
  | cons it l ih =>
    intro cur hwrap hin hcur
    rw [findFreeFrom, Arch.add_of_lt hcur]
    split_ifs with hpast hfound
    · exact .inl rfl
    · exact .inr hcur
    · have hstep := hwrap.next it List.mem_cons_self (hin it List.mem_cons_self) (by omega)
      rw [Arch.add_of_lt (by omega)]
      exact ih ⟨hwrap.space, hwrap.first, fun d hd => hwrap.next d (List.mem_cons_of_mem it hd)⟩
        (fun d hd => hin d (List.mem_cons_of_mem it hd)) hstep.2

omit [DecidableEq τ] in
/-- `find_free` leaves room for the size behind what it returns. -/
theorem findFree_fits {align start spaceSz : Nat} (hwf : Wf A l)
    (hwrap : NoWrap A l sz align start spaceSz) (h : findFree A l sz align start spaceSz ≠ 0) :
    findFree A l sz align start spaceSz + sz < 2 ^ A.wordBits := by
  have hsub := List.dropWhile_sublist (l := l) fun d => decide (d.addr < start)
  have hloop := findFreeFrom_fits
    ⟨hwrap.space, hwrap.first, fun d hd => hwrap.next d (hsub.subset hd)⟩
    (fun d hd => le_addr_of_mem_dropWhile hwf.sorted hd) hwrap.first.2
  unfold findFree at h ⊢
  dsimp only at h ⊢
  rw [Arch.add_of_lt hwrap.space] at h ⊢
  split_ifs at h ⊢
  · exact absurd rfl h
  · exact hloop.resolve_left h

omit [DecidableEq τ] in
/-- `free` does nothing, or takes the range out of the region that holds it. -/
theorem free_cases (hwf : Wf A l) (hend : addr + sz < 2 ^ A.wordBits)
    (h : free A N l addr sz = .ok l') :
    l' = l ∧ (0 < sz → ¬ ∃ d ∈ l, Contains d addr sz) ∨
      (∃ d ∈ l, Contains d addr sz) ∧ Wf A l' ∧ Takes l l' addr sz := by
  unfold free at h
  cases hf : findFrom A addr sz [] l with
  | none =>
    rw [hf] at h
    refine .inl ⟨(Except.ok.inj h).symm, fun hsz ⟨d, hd, hdc⟩ => ?_⟩
    exact findFrom_of_contains (b := []) hsz hend hdc hwf hd hf
  | some p =>
    obtain ⟨b, pos, a⟩ := p
    rw [hf] at h
    obtain ⟨⟨b', a'⟩, hr, h⟩ := bind_eq_ok.mp h
    obtain rfl := Except.ok.inj h
    obtain ⟨hjoin, h1, h2⟩ := findFrom_some hf
    have hl : l = join b (pos :: a) := hjoin
    have hmem : pos ∈ l := by
      rw [hl]
      exact mem_join.mpr (.inr List.mem_cons_self)
    rw [endOf, Arch.add_of_lt hend, Arch.add_of_lt (hwf.proper pos hmem).2] at h2
    rw [hl] at hwf
    refine .inr ⟨⟨pos, hmem, h1, h2⟩, ?_⟩
    rw [hl]
    exact removeAt_spec hwf ⟨h1, h2⟩ hr

omit [DecidableEq τ] in
/-- A range that is not covered can be said to be taken out. -/
theorem clear_iff_takes : Clear l addr sz ↔ Takes l l addr sz := by
  constructor
  · intro hc v t
    refine ⟨fun hv => ⟨fun hr => ?_, hv⟩, fun hv => hv.2⟩
    obtain ⟨d, hd, hdv, -⟩ := hv
    exact hc d hd v hr.1 hr.2 hdv
  · intro ht d hd v h1 h2 hdv
    exact ((ht v d.type).mp ⟨d, hd, hdv, rfl⟩).1 ⟨h1, h2⟩

omit [DecidableEq τ] in
/-- **`free`** takes the range out exactly when one region holds it or none meets it. -/
theorem free_takes_iff (hwf : Wf A l) (hend : addr + sz < 2 ^ A.wordBits)
    (h : free A N l addr sz = .ok l') :
    Takes l l' addr sz ↔ (∃ d ∈ l, Contains d addr sz) ∨ Clear l addr sz := by
  rcases free_cases hwf hend h with ⟨rfl, hno⟩ | ⟨hin, -, htakes⟩
  · rw [← clear_iff_takes]
    refine ⟨.inr, fun hor => hor.elim (fun hin => ?_) id⟩
    have hz : sz = 0 := by
      by_contra hz
      exact hno (by omega) hin
    exact fun d hd v h1 h2 => absurd h2 (by omega)
  · exact ⟨fun _ => .inl hin, fun _ => htakes⟩

omit [DecidableEq τ] in
/-- `free` of the region at an iterator takes it out. -/
theorem freePos_takes {pos : Nat} {d : Desc τ} (hwf : Wf A l) (hd : l[pos]? = some d) :
    Wf A (freePos l pos) ∧ Takes l (freePos l pos) d.addr d.sz := by
  have hsub : (freePos l pos).Sublist l := List.eraseIdx_sublist l pos
  have hmem : d ∈ l := List.mem_of_getElem? hd
  refine ⟨⟨hwf.sorted.sublist hsub, fun e he => hwf.proper e (hsub.subset he)⟩, fun v t => ?_⟩
  have hsplit : ∀ e, e ∈ l ↔ e = d ∨ e ∈ freePos l pos := by
    intro e
    obtain ⟨hlt, rfl⟩ := List.getElem?_eq_some_iff.mp hd
    have := (List.getElem_cons_eraseIdx_perm hlt).mem_iff (a := e)
    rw [List.mem_cons] at this
    exact this.symm
  constructor
  · rintro ⟨e, he, hev, rfl⟩
    refine ⟨fun hdv => ?_, e, hsub.subset he, hev, rfl⟩
    -- a region that stays would be before or behind itself
    obtain rfl := hwf.holds_unique (hsub.subset he) hmem hev hdv
    obtain ⟨i, hi, hne, hei⟩ := List.mem_eraseIdx_iff_getElem.mp he
    obtain ⟨hlt, hde⟩ := List.getElem?_eq_some_iff.mp hd
    have hs := List.pairwise_iff_getElem.mp hwf.sorted
    have hpos := (hwf.proper e hmem).1
    rcases Nat.lt_or_gt_of_ne hne with hlt' | hlt'
    · have := hs i pos hi hlt hlt'
      rw [hei, hde] at this
      unfold Before at this
      omega
    · have := hs pos i hlt hi hlt'
      rw [hei, hde] at this
      unfold Before at this
      omega
  · rintro ⟨hno, e, he, hev, rfl⟩
    rcases (hsplit e).mp he with rfl | he
    · exact absurd hev hno
    · exact ⟨e, he, hev, rfl⟩

/-! ## Runs -/

/-- The public calls that change the list. -/
inductive Call (τ : Type) where
  | add (addr sz : Nat) (type : τ) (mode : Mode)
  | insert (addr sz : Nat) (type : τ) (mode : Mode)
  | alloc (sz align : Nat) (type : τ) (mode : Mode) (start spaceSz : Nat)
  | free (addr sz : Nat)
  | freePos (pos : Nat)
  | setType (pos addr sz : Nat) (type : τ) (mode : Mode)

variable [OrOp τ]

/-- The list after a call. -/
def step (A : Arch) (N : Nat) (l : List (Desc τ)) : Call τ → Except Stop (List (Desc τ))
  | .add addr sz type mode => add A N l addr sz type mode
  | .insert addr sz type mode => do
    let r ← insert A N l addr sz type mode
    pure r.1
  | .alloc sz align type mode start spaceSz => do
    let r ← alloc A N l sz align type mode start spaceSz
    pure r.1
  | .free addr sz => free A N l addr sz
  | .freePos pos => .ok (freePos l pos)
  | .setType pos addr sz type mode => setType A N l pos addr sz type mode

/-- What a call asks for. -/
def Effect (A : Arch) (N : Nat) (l : List (Desc τ)) (c : Call τ) (l' : List (Desc τ)) : Prop :=
  match c with
  | .add addr sz type mode => Puts l l' addr sz type mode
  | .insert addr sz type mode => ∃ ty, insert A N l addr sz type mode = .ok (l', ty) ∧
      Puts l l' addr sz ty mode ∧
      ((∃ d ∈ l, Contains d addr sz ∧ ty = type ||| d.type) ∨ Clear l addr sz ∧ ty = type)
  | .alloc sz align type mode start spaceSz =>
    ∃ a, alloc A N l sz align type mode start spaceSz = .ok (l', a) ∧ (a = 0 → l' = l) ∧
      (a ≠ 0 → Puts l l' a sz type mode)
  | .free addr sz => Takes l l' addr sz
  | .freePos pos => (∀ d, l[pos]? = some d → Takes l l' d.addr d.sz) ∧ (l[pos]? = none → l' = l)
  | .setType pos addr sz type mode =>
    ∃ d, l[pos]? = some d ∧ Contains d addr sz ∧ Puts l l' addr sz type mode

/-- The calls that have their effect: what is put in is not empty and does not reach the end of the
address space, the sums of a search do not wrap, and what is taken out lies in one region or meets
none. -/
def Sound (A : Arch) (l : List (Desc τ)) : Call τ → Prop
  | .add addr sz _ _ => 0 < sz ∧ addr + sz < 2 ^ A.wordBits
  | .insert addr sz _ _ => 0 < sz ∧ addr + sz < 2 ^ A.wordBits
  | .alloc sz align _ _ start spaceSz =>
    0 < sz ∧ align.isPowerOfTwo ∧ NoWrap A l sz align start spaceSz
  | .free addr sz => addr + sz < 2 ^ A.wordBits ∧
      ((∃ d ∈ l, Contains d addr sz) ∨ ∀ d ∈ l, addr + sz ≤ d.addr ∨ d.addr + d.sz ≤ addr)
  | .freePos _ => True
  | .setType _ addr sz _ _ => 0 < sz ∧ addr + sz < 2 ^ A.wordBits

instance (A : Arch) (l : List (Desc τ)) (sz align start spaceSz : Nat) :
    Decidable (NoWrap A l sz align start spaceSz) :=
  decidable_of_iff (start + spaceSz < 2 ^ A.wordBits ∧
      (start + (align - 1) < 2 ^ A.wordBits ∧ roundUp A start align + sz < 2 ^ A.wordBits) ∧
      ∀ d ∈ l, start ≤ d.addr → d.addr < start + spaceSz →
        d.addr + d.sz + (align - 1) < 2 ^ A.wordBits ∧
          roundUp A (d.addr + d.sz) align + sz < 2 ^ A.wordBits)
    ⟨fun h => ⟨h.1, h.2.1, h.2.2⟩, fun h => ⟨h.space, h.first, h.next⟩⟩

/-- One sound call keeps the list well formed and has its effect. -/
theorem step_represented {c : Call τ} (hwf : Wf A l) (hc : Sound A l c)
    (h : step A N l c = .ok l') : Wf A l' ∧ Effect A N l c l' := by
  cases c with
  | add addr sz type mode => exact addFrom_puts (b := []) hc.1 hc.2 hwf h
  | insert addr sz type mode =>
    obtain ⟨r, hr, h⟩ := bind_eq_ok.mp h
    obtain rfl := Except.ok.inj h
    obtain ⟨hl, hputs, hty⟩ := insertFrom_puts (b := []) hc.1 hc.2 hwf hr
    exact ⟨hl, r.2, hr, hputs, hty⟩
  | alloc sz align type mode start spaceSz =>
    obtain ⟨hsz, -, hwrap⟩ := hc
    obtain ⟨r, hr, h⟩ := bind_eq_ok.mp h
    obtain rfl := Except.ok.inj h
    have hr' := hr
    unfold alloc at hr'
    dsimp only at hr'
    split_ifs at hr' with h0
    · obtain rfl := Except.ok.inj hr'
      exact ⟨hwf, 0, hr, fun _ => rfl, fun hne => absurd rfl hne⟩
    · obtain ⟨l', hadd, hr'⟩ := bind_eq_ok.mp hr'
      obtain rfl := Except.ok.inj hr'
      obtain ⟨hl, hputs⟩ := addFrom_puts (b := []) hsz (findFree_fits hwf hwrap h0) hwf hadd
      exact ⟨hl, _, hr, fun h => absurd h h0, fun _ => hputs⟩
  | free addr sz =>
    obtain ⟨hend, hin⟩ := hc
    have htakes : Takes l l' addr sz := by
      refine (free_takes_iff hwf hend h).mpr (hin.imp_right fun hap d hd v h1 h2 hdv => ?_)
      have := hap d hd
      unfold Holds at hdv
      omega
    rcases free_cases hwf hend h with ⟨rfl, -⟩ | ⟨-, hl, -⟩
    · exact ⟨hwf, htakes⟩
    · exact ⟨hl, htakes⟩
  | freePos pos =>
    obtain rfl := Except.ok.inj h
    cases hd : l[pos]? with
    | none =>
      have hsame : freePos l pos = l := List.eraseIdx_of_length_le (List.getElem?_eq_none_iff.mp hd)
      rw [hsame]
      exact ⟨hwf, fun d h => absurd (hd.symm.trans h) (by simp), fun _ => rfl⟩
    | some d =>
      obtain ⟨hl, htakes⟩ := freePos_takes hwf hd
      refine ⟨hl, fun e he => ?_, fun h => absurd (hd.symm.trans h) (by simp)⟩
      obtain rfl := Option.some.inj (hd.symm.trans he)
      exact htakes
  | setType pos addr sz type mode =>
    obtain ⟨hsz, hend⟩ := hc
    have h : setType A N l pos addr sz type mode = .ok l' := h
    unfold setType at h
    have hl : l = join (l.take pos).reverse (l.drop pos) := by simp [join]
    have hget : l[pos]? = (l.drop pos).head? := by simp
    cases hdrop : l.drop pos with
    | nil =>
      rw [hdrop] at h
      cases h
    | cons d a =>
      rw [hdrop] at h hl hget
      obtain ⟨hin, h⟩ := ensure_bind_eq_ok.mp h
      obtain ⟨-, h⟩ := ensure_bind_eq_ok.mp h
      obtain ⟨r, hr, h⟩ := bind_eq_ok.mp h
      have hp : Proper A d := hwf.proper d (List.mem_of_getElem? hget)
      rw [Arch.add_of_lt hend, Arch.add_of_lt hp.2] at hin
      rw [hl] at hwf
      obtain ⟨hwf', hputs⟩ := removeAt_addAt_puts hwf hsz hend hin hr h
      rw [← hl] at hputs
      exact ⟨hwf', d, hget, hin, hputs⟩

/-- **The list represents what its calls asked for.**  In every run of sound calls the list is well
formed before and after each call, and each call has its effect. -/
theorem run_represented {cs : List (Call τ)} (hs : Meets (step A N) (Sound A) [] cs) :
    Meets (step A N) (fun l c => Wf A l ∧ ∀ l', step A N l c = .ok l' → Wf A l' ∧ Effect A N l c l')
      [] cs :=
  hs.of_invariant (I := Wf A) (fun _ _ _ hwf hc h => (step_represented hwf hc h).1)
    (fun _ _ hwf hc => ⟨hwf, fun _ h => step_represented hwf hc h⟩) ⟨List.Pairwise.nil, by simp⟩

/-- Two regions are put in next to each other and become one, a piece of it is typed anew, and the
region behind that piece is freed in part. -/
theorem joinAndCut_represented :
    Meets (step .sparc 512) (fun l c => Wf .sparc l ∧ ∀ l', step .sparc 512 l c = .ok l' →
      Wf .sparc l' ∧ Effect .sparc 512 l c l') [] [.add 0x1000 0x1000 1 .combine,
        .add 0x2000 0x2000 1 .combine, .setType 0 0x2000 0x1000 4 .notCombine, .free 0x3000 0x800] :=
  run_represented ⟨by unfold Sound; decide, fun l hl => by
    obtain rfl := Except.ok.inj hl
    refine ⟨by unfold Sound; decide, fun l hl => ?_⟩
    obtain rfl := Except.ok.inj hl
    refine ⟨by unfold Sound; decide, fun l hl => ?_⟩
    obtain rfl := Except.ok.inj hl
    exact ⟨by unfold Sound Contains; decide, fun _ _ => trivial⟩⟩

/-- **`free` across two regions.**  The range is covered, by two regions that touch; `find` looks for
one region that holds it, and the call leaves both as they were. -/
theorem freeAcross_not_taken :
    let l : List (Desc Nat) := [⟨0x1000, 0x1000, 1⟩, ⟨0x2000, 0x1000, 4⟩]
    runAll (step .sparc 512) [] [.add 0x1000 0x1000 1 .combine, .add 0x2000 0x1000 4 .combine,
        .free 0x1000 0x2000] = .ok l ∧
      step .sparc 512 l (.free 0x1000 0x2000) = .ok l ∧
      ¬ Effect .sparc 512 l (.free 0x1000 0x2000) l := by
  intro l
  refine ⟨rfl, rfl, fun h => ?_⟩
  have hcov : Covers l 0x1000 1 := ⟨_, List.mem_cons_self, by unfold Holds; decide, rfl⟩
  exact ((h 0x1000 1).mp hcov).1 ⟨by decide, by decide⟩

end Region
end Wrmos
