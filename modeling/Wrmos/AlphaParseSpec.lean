import Wrmos.AlphaParse

/-!
# The parsers of the configuration: where they write

Every name in a table keeps the null character in its last byte.  The parsers of the devices and of the named
memory stay inside of their tables for every text.  The parser of the applications does not: it uses the
result of a search that has found nothing when there is no space behind the name of a parameter, it writes
behind the table of the applications, and the check of a list lets one word more pass than there are entries.
It is safe exactly when each line that it reads as a parameter fits (`safe_iff_fits`).
-/

namespace Wrmos
namespace AlphaConfig

open Lib

/-! ## Tables -/

/-- A string in an array: the last byte is the null character. -/
structure NameWf (sz : Nat) (n : Name) : Prop where
  length : n.length = sz
  last : n.getLast? = some 0

/-- A table of so many entries. -/
structure TableWf {α : Type} (P : α → Prop) (listSz : Nat) (l : List α) : Prop where
  length : l.length = listSz
  entries : ∀ a ∈ l, P a

/-- The arrays of an entry. -/
def IoDevice.Wf (d : IoDevice) : Prop := NameWf devNameSz d.name

def MemoryRegion.Wf (m : MemoryRegion) : Prop := NameWf memNameSz m.name

structure AppConfig.Wf (a : AppConfig) : Prop where
  name : NameWf appNameSz a.name
  shortName : NameWf appShortNameSz a.shortName
  filename : NameWf fileNameSz a.filename
  devs : TableWf (NameWf devNameSz) devListSz a.devs
  mems : TableWf (NameWf memNameSz) memListSz a.mems
  args : TableWf (NameWf argSz) argListSz a.args

/-- A parser returns, and leaves its table well formed. -/
def Safe {α : Type} (P : α → Prop) (listSz : Nat) (r : Except Fault (Bool × List α)) : Prop :=
  ∃ ok l, r = .ok (ok, l) ∧ TableWf P listSz l

/-! ## What a line must have -/

section Fits

variable (A : Arch) (nul : Nat)

/-- The line is read as one with a parameter. -/
def AppState.Reads (s : AppState) (line : Ptr) : Prop :=
  isComment line = false ∧ s.insideSection = true ∧ deref line = tab ∧ s.insideApp = true ∧
    strncmp line (bytes "\t\x7d\n") 3 ≠ 0

instance (s : AppState) (line : Ptr) : Decidable (s.Reads line) := by
  unfold AppState.Reads
  infer_instance

/-- The value of a line, behind the first spaces after the name. -/
def value (line : Ptr) : Option Ptr := (strpbrk spaces (skip blanks line)).map (skip blanks)

def valueLen (val : Ptr) : Nat := ptrDiff A nul (strpbrk [newline] val) val

/-- Where the words of a list end, as far as its line goes and the words are shorter than `sz`. -/
def shortWords (sz : Nat) : Nat → Ptr → List (Option Ptr)
  | 0, _ => []
  | rounds + 1, p =>
    let fin := strpbrk separators p
    if ptrDiff A nul fin p = 0 ∨ sz ≤ ptrDiff A nul fin p then []
    else
      fin ::
        match fin with
        | none => []
        | some q => if deref q = newline then [] else shortWords sz rounds (skip separators q)

/-- The value is stored. -/
def Param.Stores (val : Ptr) : Param → Prop
  | .copy sz _ _ _ => valueLen A nul val ≠ 0 ∧ valueLen A nul val < sz
  | .size _ => valueLen A nul val ≠ 0
  | .count _ _ => valueLen A nul val ≠ 0
  | .choice values _ =>
    valueLen A nul val ≠ 0 ∧ ∃ v ∈ values, strncmp val (bytes v.1) (valueLen A nul val) = 0
  | .list _ sz _ _ _ => shortWords A nul sz (val.length + 1) val ≠ []

/-- There is room for the words of a list, and it ends before the text. -/
def Param.Room (val : Ptr) : Param → Prop
  | .copy _ _ _ _ => True
  | .size _ => True
  | .count _ _ => True
  | .choice _ _ => True
  | .list max sz _ _ _ =>
    (shortWords A nul sz (val.length + 1) val).length ≤ max ∧ none ∉ shortWords A nul sz (val.length + 1) val

instance (val : Ptr) : ∀ p : Param, Decidable (p.Stores A nul val)
  | .copy _ _ _ _ => inferInstanceAs (Decidable (_ ∧ _))
  | .size _ => inferInstanceAs (Decidable (_ ≠ _))
  | .count _ _ => inferInstanceAs (Decidable (_ ≠ _))
  | .choice values _ => inferInstanceAs (Decidable (_ ∧ ∃ v ∈ values, _))
  | .list _ _ _ _ _ => inferInstanceAs (Decidable (_ ≠ _))

instance (val : Ptr) : ∀ p : Param, Decidable (p.Room A nul val)
  | .copy _ _ _ _ => isTrue trivial
  | .size _ => isTrue trivial
  | .count _ _ => isTrue trivial
  | .choice _ _ => isTrue trivial
  | .list _ _ _ _ _ => inferInstanceAs (Decidable (_ ∧ _))

/-- A line with a parameter has a space behind the name; a value that is stored belongs to an application of
the table; and a list has no more words than entries. -/
def Fits (s : AppState) (line : Ptr) : Prop :=
  s.Reads line → ∃ val ∈ value line, ∀ p ∈ findParam line,
    (p.Stores A nul val → s.appCnt < s.apps.length) ∧ p.Room A nul val

instance (s : AppState) (line : Ptr) : Decidable (Fits A nul s line) := by
  unfold Fits
  infer_instance

end Fits

/-! ## Pointers -/

variable {A : Arch} {nul : Nat}

theorem strpbrk_length {accept : List UInt8} {p q : Ptr} (h : strpbrk accept p = some q) :
    q.length ≤ p.length := by
  induction p with
  | nil => cases h
  | cons b p ih =>
    unfold strpbrk at h
    split at h
    · obtain rfl := Option.some.inj h
      exact Nat.le_refl _
    · exact (ih h).trans (Nat.le_succ _)

theorem skip_length (accept : List UInt8) (p : Ptr) : (skip accept p).length ≤ p.length := by
  unfold skip
  rw [List.length_drop]
  exact Nat.sub_le _ _

theorem nextLine_length {p q : Ptr} (h : nextLine p = some q) : q.length < p.length := by
  unfold nextLine at h
  induction p with
  | nil => cases h
  | cons b p ih =>
    unfold strchr at h
    split at h
    · obtain rfl := Option.some.inj h
      exact Nat.lt_succ_self _
    · exact (ih h).trans (Nat.lt_succ_self _)

/-! ## Writes -/

section Write

variable {α : Type} {P : α → Prop} {table : String} {l : List α} {i listSz : Nat} {f : α → Except Fault α}

/-- A name takes a word that is shorter than the array. -/
theorem strncpy_wf (table : String) {sz n : Nat} {dst : Name} (h : NameWf sz dst) (src : Ptr) (hn : n < sz) :
    ∃ nm, strncpy table dst src n = .ok nm ∧ NameWf sz nm := by
  have hlen : n < dst.length := h.length ▸ hn
  refine ⟨_, if_neg (Nat.not_lt.mpr hlen.le), ?_, ?_⟩
  · rw [List.length_append, List.length_append, List.length_take, List.length_replicate, List.length_drop,
      h.length]
    omega
  · have hne : dst.drop n ≠ [] := List.ne_nil_of_length_pos (by rw [List.length_drop]; omega)
    rw [List.getLast?_append_of_ne_nil _ hne, List.getLast?_drop, if_neg (Nat.not_le.mpr hlen)]
    exact h.last

/-- A write is taken in an entry of the table. -/
theorem modifyAt_ok_iff (table : String) (i : Nat) (hf : ∀ a ∈ l, ∃ a', f a = .ok a') :
    (∃ l', modifyAt table l i f = .ok l') ↔ i < l.length := by
  unfold modifyAt
  constructor
  · rintro ⟨l', h⟩
    by_contra hlt
    rw [List.getElem?_eq_none (Nat.not_lt.mp hlt)] at h
    cases h
  · intro hlt
    obtain ⟨a', ha'⟩ := hf (l[i]) (List.getElem_mem hlt)
    rw [List.getElem?_eq_getElem hlt]
    dsimp only
    rw [ha']
    exact ⟨_, rfl⟩

theorem modifyAt_eq_ok {l' : List α} (h : modifyAt table l i f = .ok l') :
    ∃ a a', l[i]? = some a ∧ f a = .ok a' ∧ l' = l.set i a' := by
  unfold modifyAt at h
  split at h
  · cases h
  · rename_i a ha
    obtain ⟨a', ha', rfl⟩ := map_eq_ok h
    exact ⟨a, a', ha, ha', rfl⟩

theorem modifyAt_wf (h : TableWf P listSz l) (hf : ∀ a a', P a → f a = .ok a' → P a') {l' : List α}
    (hl : modifyAt table l i f = .ok l') : TableWf P listSz l' := by
  obtain ⟨a, a', ha, hfa, rfl⟩ := modifyAt_eq_ok hl
  refine ⟨List.length_set.trans h.length, fun b hb => ?_⟩
  rcases List.mem_or_eq_of_mem_set hb with hb | rfl
  · exact h.entries b hb
  · exact hf a b (h.entries a (List.mem_of_getElem? ha)) hfa

end Write

/-! ## Parameters -/

/-- What a parameter stores keeps the arrays of an application as they are. -/
def Param.Lawful : Param → Prop
  | .copy sz _ get set => ∀ a : AppConfig, a.Wf → NameWf sz (get a) ∧ ∀ n, NameWf sz n → (set a n).Wf
  | .size set => ∀ (a : AppConfig) n, a.Wf → (set a n).Wf
  | .count _ set => ∀ (a : AppConfig) n, a.Wf → (set a n).Wf
  | .choice _ set => ∀ (a : AppConfig) n, a.Wf → (set a n).Wf
  | .list max sz _ get set =>
    ∀ a : AppConfig, a.Wf → TableWf (NameWf sz) max (get a) ∧ ∀ l, TableWf (NameWf sz) max l → (set a l).Wf

theorem params_lawful : ∀ p ∈ params, p.2.2.Lawful := by
  unfold params
  simp only [List.forall_mem_cons]
  refine ⟨?_, ?_, ?_, ?_, ?_, ?_, ?_, ?_, ?_, ?_, ?_, ?_, ?_, nofun⟩
  · exact fun a ha => ⟨ha.name, fun n hn => { ha with name := hn }⟩
  · exact fun a ha => ⟨ha.shortName, fun n hn => { ha with shortName := hn }⟩
  · exact fun a ha => ⟨ha.filename, fun n hn => { ha with filename := hn }⟩
  · exact fun a n ha => { ha with }
  · exact fun a n ha => { ha with }
  · exact fun a n ha => { ha with }
  · exact fun a n ha => { ha with }
  · exact fun a n ha => { ha with }
  · exact fun a n ha => { ha with }
  · exact fun a n ha => { ha with }
  · exact fun a ha => ⟨ha.devs, fun l hl => { ha with devs := hl }⟩
  · exact fun a ha => ⟨ha.mems, fun l hl => { ha with mems := hl }⟩
  · exact fun a ha => ⟨ha.args, fun l hl => { ha with args := hl }⟩

theorem findParam_lawful {line : Ptr} {p : Param} (h : findParam line = some p) : p.Lawful := by
  unfold findParam at h
  obtain ⟨q, hq, rfl⟩ := Option.map_eq_some_iff.mp h
  exact params_lawful q (List.mem_of_find?_eq_some hq)

/-! ### Lists -/

variable {apps apps' : List AppConfig} {appCnt listSz max sz cnt rounds len : Nat} {table : String}
  {p val word : Ptr}
  {get : AppConfig → List Name} {set : AppConfig → List Name → AppConfig}

/-- A short word is stored in an entry of the list. -/
theorem putWord_ok_iff (appCnt cnt : Nat) (word : Ptr) (hlaw : (Param.list max sz table get set).Lawful)
    (h : TableWf AppConfig.Wf listSz apps) (hlen : len < sz) :
    (∃ apps', putWord appCnt table get set cnt word len apps = .ok apps') ↔ appCnt < listSz ∧ cnt < max := by
  have hword : ∀ a ∈ apps, (∃ l, modifyAt table (get a) cnt (fun n => strncpy table n word len) = .ok l) ↔
      cnt < max := by
    intro a ha
    have hget := (hlaw a (h.entries a ha)).1
    rw [modifyAt_ok_iff table cnt fun n hn => ?_, hget.length]
    obtain ⟨nm, hnm, -⟩ := strncpy_wf table (hget.entries n hn) word hlen
    exact ⟨nm, hnm⟩
  by_cases hcnt : cnt < max
  · unfold putWord
    rw [modifyAt_ok_iff "apps" appCnt fun a ha => ?_, h.length, and_iff_left hcnt]
    obtain ⟨l, hl⟩ := (hword a ha).mpr hcnt
    rw [hl]
    exact ⟨_, rfl⟩
  · refine iff_of_false ?_ fun hroom => hcnt hroom.2
    rintro ⟨apps', happs⟩
    obtain ⟨a, a', ha, haa', -⟩ := modifyAt_eq_ok happs
    obtain ⟨l, hl, -⟩ := map_eq_ok haa'
    exact hcnt ((hword a (List.mem_of_getElem? ha)).mp ⟨l, hl⟩)

theorem putWord_wf (hlaw : (Param.list max sz table get set).Lawful) (h : TableWf AppConfig.Wf listSz apps)
    (hlen : len < sz) (happs : putWord appCnt table get set cnt word len apps = .ok apps') :
    TableWf AppConfig.Wf listSz apps' := by
  refine modifyAt_wf h (fun a a' ha haa' => ?_) happs
  obtain ⟨hget, hset⟩ := hlaw a ha
  obtain ⟨l, hl, rfl⟩ := map_eq_ok haa'
  refine hset l (modifyAt_wf hget (fun n nm hn hnm => ?_) hl)
  obtain ⟨nm', hnm', hwf⟩ := strncpy_wf table hn word hlen
  obtain rfl := Except.ok.inj (hnm.symm.trans hnm')
  exact hwf

theorem ptrDiff_some_pos {q : Ptr} (hq : strpbrk separators p = some q) (h : ptrDiff A nul (some q) p ≠ 0) :
    q.length < p.length := by
  have hle := strpbrk_length hq
  by_contra hge
  have hnone : p.length - q.length = 0 := by omega
  refine h ?_
  show (p.length - q.length) % 2 ^ 32 = 0
  rw [hnone]
  rfl

/-- **The loop over the words** ends when there is an entry for each of them and the list ends before the
text. -/
theorem wordLoop_ok_iff (A : Arch) (nul appCnt : Nat) (hlaw : (Param.list max sz table get set).Lawful)
    (h : TableWf AppConfig.Wf listSz apps) (hcnt : cnt ≤ max) (hrounds : p.length < rounds) :
    (∃ r, wordLoop A nul max sz (putWord appCnt table get set) rounds cnt p apps = .ok r) ↔
      (shortWords A nul sz rounds p ≠ [] → appCnt < listSz) ∧
        cnt + (shortWords A nul sz rounds p).length ≤ max ∧ none ∉ shortWords A nul sz rounds p := by
  induction rounds generalizing cnt p apps with
  | zero => exact absurd hrounds (Nat.not_lt_zero _)
  | succ rounds ih =>
    unfold wordLoop shortWords
    dsimp only
    by_cases hzero : ptrDiff A nul (strpbrk separators p) p = 0
    · rw [if_pos hzero, if_pos (.inl hzero)]
      exact iff_of_true ⟨_, rfl⟩ ⟨nofun, hcnt, nofun⟩
    rw [if_neg hzero, if_neg (Nat.not_lt.mpr hcnt)]
    by_cases hlong : sz ≤ ptrDiff A nul (strpbrk separators p) p
    · rw [if_pos hlong, if_pos (.inr hlong)]
      exact iff_of_true ⟨_, rfl⟩ ⟨nofun, hcnt, nofun⟩
    rw [if_neg hlong, if_neg (not_or.mpr ⟨hzero, hlong⟩)]
    have hput := putWord_ok_iff appCnt cnt p hlaw h (Nat.not_le.mp hlong)
    by_cases hroom : appCnt < listSz ∧ cnt < max
    · obtain ⟨apps', happs⟩ := hput.mpr hroom
      have hwf := putWord_wf hlaw h (Nat.not_le.mp hlong) happs
      rw [happs]
      show (∃ r, (match strpbrk separators p with
        | none => Except.error (Fault.null "word_end")
        | some fin => if deref fin = newline then Except.ok (true, apps')
          else wordLoop A nul max sz (putWord appCnt table get set) rounds (cnt + 1) (skip separators fin)
            apps') = .ok r) ↔ _
      cases hfin : strpbrk separators p with
      | none => exact iff_of_false nofun fun hno => hno.2.2 List.mem_cons_self
      | some q =>
        dsimp only
        by_cases hnl : deref q = newline
        · rw [if_pos hnl, if_pos hnl]
          exact iff_of_true ⟨_, rfl⟩ ⟨fun _ => hroom.1, hroom.2, nofun⟩
        · rw [if_neg hnl, if_neg hnl]
          rw [hfin] at hzero
          have hlt := ptrDiff_some_pos hfin hzero
          have hskip := skip_length separators q
          rw [ih hwf (Nat.succ_le_of_lt hroom.2) (by omega), List.length_cons]
          constructor
          · rintro ⟨-, hle, hno⟩
            exact ⟨fun _ => hroom.1, by omega, by simpa using hno⟩
          · rintro ⟨-, hle, hno⟩
            exact ⟨fun _ => hroom.1, by omega, by simpa using hno⟩
    · refine iff_of_false ?_ ?_
      · rintro ⟨r, hr⟩
        obtain ⟨apps', happs, -⟩ := bind_eq_ok.mp hr
        exact hroom (hput.mp ⟨apps', happs⟩)
      · rintro ⟨happ, hle, -⟩
        rw [List.length_cons] at hle
        exact hroom ⟨happ (List.cons_ne_nil _ _), by omega⟩

theorem wordLoop_wf (hlaw : (Param.list max sz table get set).Lawful) (h : TableWf AppConfig.Wf listSz apps)
    {ok : Bool}
    (hloop : wordLoop A nul max sz (putWord appCnt table get set) rounds cnt p apps = .ok (ok, apps')) :
    TableWf AppConfig.Wf listSz apps' := by
  induction rounds generalizing cnt p apps with
  | zero => cases hloop
  | succ rounds ih =>
    unfold wordLoop at hloop
    dsimp only at hloop
    split at hloop
    · obtain ⟨-, rfl⟩ := Prod.mk.inj (Except.ok.inj hloop)
      exact h
    split at hloop
    · obtain ⟨-, rfl⟩ := Prod.mk.inj (Except.ok.inj hloop)
      exact h
    split at hloop
    · obtain ⟨-, rfl⟩ := Prod.mk.inj (Except.ok.inj hloop)
      exact h
    rename_i hlong
    obtain ⟨t, ht, hloop⟩ := bind_eq_ok.mp hloop
    have hwf := putWord_wf hlaw h (Nat.not_le.mp hlong) ht
    split at hloop
    · cases hloop
    split at hloop
    · obtain ⟨-, rfl⟩ := Prod.mk.inj (Except.ok.inj hloop)
      exact hwf
    · exact ih hwf hloop

/-! ### All parameters -/

/-- **What a parameter needs**: an application for the value, and room for its words. -/
theorem setParam_ok_iff (A : Arch) (nul appCnt : Nat) (val : Ptr) {q : Param} (hlaw : q.Lawful)
    (h : TableWf AppConfig.Wf listSz apps) :
    (∃ r, setParam A nul appCnt val (valueLen A nul val) apps q = .ok r) ↔
      (q.Stores A nul val → appCnt < listSz) ∧ q.Room A nul val := by
  have hmodify : ∀ {f : AppConfig → Except Fault AppConfig} {ok : Bool}, (∀ a ∈ apps, ∃ a', f a = .ok a') →
      ((∃ r, (do let l ← modifyAt "apps" apps appCnt f; .ok (ok, l) : Except Fault _) = .ok r) ↔
        appCnt < listSz) := by
    intro f ok hf
    rw [← h.length, ← modifyAt_ok_iff "apps" appCnt hf]
    constructor
    · rintro ⟨r, hr⟩
      obtain ⟨l, hl, -⟩ := bind_eq_ok.mp hr
      exact ⟨l, hl⟩
    · rintro ⟨l, hl⟩
      exact ⟨(ok, l), bind_eq_ok.mpr ⟨l, hl, rfl⟩⟩
  cases q with
  | copy sz table get set =>
    rw [setParam, Param.Stores, Param.Room]
    by_cases hno : valueLen A nul val = 0 ∨ sz ≤ valueLen A nul val
    · rw [if_pos hno]
      exact iff_of_true ⟨_, rfl⟩ ⟨by omega, trivial⟩
    · rw [if_neg hno, hmodify fun a ha => ?_]
      · exact ⟨fun hroom => ⟨fun _ => hroom, trivial⟩, fun hroom => hroom.1 (by omega)⟩
      · obtain ⟨nm, hnm, -⟩ := strncpy_wf table (hlaw a (h.entries a ha)).1 val
          (show valueLen A nul val < sz by omega)
        rw [hnm]
        exact ⟨_, rfl⟩
  | size set =>
    rw [setParam, Param.Stores, Param.Room]
    by_cases hno : valueLen A nul val = 0
    · rw [if_pos hno]
      exact iff_of_true ⟨_, rfl⟩ ⟨absurd hno, trivial⟩
    · rw [if_neg hno, hmodify fun a _ => ⟨_, rfl⟩]
      exact ⟨fun hroom => ⟨fun _ => hroom, trivial⟩, fun hroom => hroom.1 hno⟩
  | count max set =>
    rw [setParam, Param.Stores, Param.Room]
    by_cases hno : valueLen A nul val = 0
    · rw [if_pos hno]
      exact iff_of_true ⟨_, rfl⟩ ⟨absurd hno, trivial⟩
    · rw [if_neg hno, hmodify fun a _ => ⟨_, rfl⟩]
      exact ⟨fun hroom => ⟨fun _ => hroom, trivial⟩, fun hroom => hroom.1 hno⟩
  | choice values set =>
    rw [setParam, Param.Stores, Param.Room]
    by_cases hno : valueLen A nul val = 0
    · rw [if_pos hno]
      exact iff_of_true ⟨_, rfl⟩ ⟨fun hs => absurd hno hs.1, trivial⟩
    · rw [if_neg hno]
      cases hfind : values.find? fun v => strncmp val (bytes v.1) (valueLen A nul val) == 0 with
      | none =>
        refine iff_of_true ⟨_, rfl⟩ ⟨fun hs => ?_, trivial⟩
        obtain ⟨_, v, hv, heq⟩ := hs
        exact absurd (beq_iff_eq.mpr heq) (List.find?_eq_none.mp hfind v hv)
      | some v =>
        have hmatch : strncmp val (bytes v.1) (valueLen A nul val) = 0 := by
          simpa using List.find?_some hfind
        dsimp only
        rw [hmodify fun a _ => ⟨_, rfl⟩]
        exact ⟨fun hroom => ⟨fun _ => hroom, trivial⟩, fun hroom =>
          hroom.1 ⟨hno, v, List.mem_of_find?_eq_some hfind, hmatch⟩⟩
  | list max sz table get set =>
    have hloop := wordLoop_ok_iff A nul appCnt hlaw h (Nat.zero_le max) (Nat.lt_succ_self val.length)
    rw [Nat.zero_add] at hloop
    exact hloop

theorem setParam_wf {q : Param} (hlaw : q.Lawful) (h : TableWf AppConfig.Wf listSz apps) {ok : Bool}
    (hset : setParam A nul appCnt val len apps q = .ok (ok, apps')) : TableWf AppConfig.Wf listSz apps' := by
  have hmodify : ∀ {f : AppConfig → Except Fault AppConfig} {ok' : Bool},
      (∀ a a', a.Wf → f a = .ok a' → a'.Wf) →
      (do let l ← modifyAt "apps" apps appCnt f; .ok (ok', l) : Except Fault _) = .ok (ok, apps') →
        TableWf AppConfig.Wf listSz apps' := by
    intro f ok' hf hr
    obtain ⟨l, hl, hr⟩ := bind_eq_ok.mp hr
    obtain ⟨-, rfl⟩ := Prod.mk.inj (Except.ok.inj hr)
    exact modifyAt_wf h hf hl
  have hstop : ∀ {ok' : Bool}, (Except.ok (ok', apps) : Except Fault _) = .ok (ok, apps') →
      TableWf AppConfig.Wf listSz apps' := by
    intro ok' hr
    obtain ⟨-, rfl⟩ := Prod.mk.inj (Except.ok.inj hr)
    exact h
  cases q with
  | copy sz table get set =>
    rw [setParam] at hset
    split at hset
    · exact hstop hset
    · rename_i hlen
      refine hmodify (fun a a' ha haa' => ?_) hset
      obtain ⟨nm, hnm, rfl⟩ := map_eq_ok haa'
      obtain ⟨nm', hnm', hwf⟩ := strncpy_wf table (hlaw a ha).1 val (show len < sz by omega)
      obtain rfl := Except.ok.inj (hnm.symm.trans hnm')
      exact (hlaw a ha).2 nm hwf
  | size set =>
    rw [setParam] at hset
    split at hset
    · exact hstop hset
    · refine hmodify (fun a a' ha haa' => ?_) hset
      obtain rfl := Except.ok.inj haa'
      exact hlaw a _ ha
  | count max set =>
    rw [setParam] at hset
    split at hset
    · exact hstop hset
    · refine hmodify (fun a a' ha haa' => ?_) hset
      obtain rfl := Except.ok.inj haa'
      exact hlaw a _ ha
  | choice values set =>
    rw [setParam] at hset
    split at hset
    · exact hstop hset
    split at hset
    · exact hstop hset
    · refine hmodify (fun a a' ha haa' => ?_) hset
      obtain rfl := Except.ok.inj haa'
      exact hlaw a _ ha
  | list max sz table get set => exact wordLoop_wf hlaw h hset

/-! ## Lines of the applications -/

/-- The state between two lines. -/
def AppState.Wf (listSz : Nat) (s : AppState) : Prop := TableWf AppConfig.Wf listSz s.apps

variable {s s' : AppState} {line : Ptr}

theorem paramLine_ok_iff (h : s.Wf listSz) : (∃ r, paramLine A nul s line = .ok r) ↔
    ∃ val ∈ value line, ∀ q ∈ findParam line,
      (q.Stores A nul val → s.appCnt < s.apps.length) ∧ q.Room A nul val := by
  unfold paramLine value
  cases strpbrk spaces (skip blanks line) with
  | none => exact iff_of_false nofun nofun
  | some space =>
    show _ ↔ ∃ val ∈ some (skip blanks space), _
    dsimp only
    cases hfind : findParam line with
    | none => exact iff_of_true ⟨_, rfl⟩ ⟨_, rfl, nofun⟩
    | some q =>
      have hset := setParam_ok_iff A nul s.appCnt (skip blanks space) (findParam_lawful hfind) h
      rw [h.length]
      constructor
      · rintro ⟨r, hr⟩
        obtain ⟨r', hr', -⟩ := bind_eq_ok.mp hr
        refine ⟨_, rfl, fun q' hq' => ?_⟩
        obtain rfl := Option.some.inj hq'
        exact hset.mp ⟨r', hr'⟩
      · rintro ⟨val, hval, hall⟩
        obtain rfl := Option.some.inj hval
        obtain ⟨⟨ok, apps'⟩, hr⟩ := hset.mpr (hall q rfl)
        exact ⟨_, bind_eq_ok.mpr ⟨_, hr, rfl⟩⟩

theorem paramLine_wf (h : s.Wf listSz) {ret : Option Bool} (hline : paramLine A nul s line = .ok (ret, s')) :
    s'.Wf listSz := by
  unfold paramLine at hline
  split at hline
  · cases hline
  dsimp only at hline
  split at hline
  · obtain ⟨-, rfl⟩ := Prod.mk.inj (Except.ok.inj hline)
    exact h
  · rename_i q hfind
    obtain ⟨⟨ok, apps'⟩, hset, hline⟩ := bind_eq_ok.mp hline
    obtain ⟨-, rfl⟩ := Prod.mk.inj (Except.ok.inj hline)
    exact setParam_wf (findParam_lawful hfind) h hset

/-- A line that is not read as one with a parameter. -/
theorem appLine_of_not_reads (A : Arch) (nul : Nat) (hno : ¬s.Reads line) :
    ∃ ret s', appLine A nul s line = .ok (ret, s') ∧ s'.apps = s.apps := by
  unfold appLine
  split
  · exact ⟨_, _, rfl, rfl⟩
  split
  · exact ⟨_, _, rfl, rfl⟩
  split
  · exact ⟨_, _, rfl, rfl⟩
  split
  · exact ⟨_, _, rfl, rfl⟩
  split
  · exact ⟨_, _, rfl, rfl⟩
  rename_i hcomment hsection htab happ hend
  refine absurd ⟨?_, ?_, not_not.mp htab, ?_, hend⟩ hno
  · exact Bool.eq_false_iff.mpr hcomment
  · simpa using hsection
  · simpa using happ

theorem appLine_of_reads (h : s.Reads line) : appLine A nul s line = paramLine A nul s line := by
  obtain ⟨hcomment, hsection, htab, happ, hend⟩ := h
  unfold appLine
  rw [hcomment, hsection, happ, if_neg Bool.false_ne_true]
  show (if deref line ≠ tab then _ else if _ then _ else _) = _
  rw [if_neg (not_not.mpr htab)]
  exact if_neg hend

/-- **One line** is parsed exactly when it fits. -/
theorem appLine_ok_iff (h : s.Wf listSz) : Fits A nul s line ↔ ∃ r, appLine A nul s line = .ok r := by
  unfold Fits
  by_cases hreads : s.Reads line
  · rw [appLine_of_reads hreads, paramLine_ok_iff h]
    exact ⟨fun hfits => hfits hreads, fun hfits _ => hfits⟩
  · obtain ⟨ret, s', hline, -⟩ := appLine_of_not_reads A nul hreads
    exact iff_of_true (fun hr => absurd hr hreads) ⟨_, hline⟩

theorem appLine_wf (h : s.Wf listSz) {ret : Option Bool} (hline : appLine A nul s line = .ok (ret, s')) :
    s'.Wf listSz := by
  by_cases hreads : s.Reads line
  · rw [appLine_of_reads hreads] at hline
    exact paramLine_wf h hline
  · obtain ⟨ret', t, ht, happs⟩ := appLine_of_not_reads A nul hreads
    obtain ⟨-, rfl⟩ := Prod.mk.inj (Except.ok.inj (ht.symm.trans hline))
    unfold AppState.Wf
    rw [happs]
    exact h

/-! ## The parsers -/

/-- A parser of lines that are parsed exactly when they fit is safe exactly when all that it visits fit. -/
theorem walk_safe_iff {σ α : Type} {P : α → Prop} {body : σ → Ptr → Except Fault (Option Bool × σ)}
    {entries : σ → List α} {I : σ → Prop} {C : σ → Ptr → Prop} {s : σ}
    (hentries : ∀ s, I s → TableWf P listSz (entries s))
    (hbody : ∀ s p, I s → (C s p ↔ ∃ r, body s p = .ok r))
    (hinv : ∀ s p b s', I s → body s p = .ok (b, s') → I s') (hs : I s) (p : Ptr) :
    Safe P listSz
        ((walk nextLine body .outOfRounds true (p.length + 1) s p).map fun r => (r.1, entries r.2)) ↔
      Visits nextLine body C (p.length + 1) s p := by
  have hiff : (∃ r, walk nextLine body .outOfRounds true (p.length + 1) s p = .ok r) ↔ _ :=
    walk_ok_iff (fun _ _ => nextLine_length) hbody hinv hs (Nat.lt_succ_self p.length)
  rw [← hiff]
  constructor
  · rintro ⟨ok, l, hr, -⟩
    obtain ⟨r, hr, -⟩ := map_eq_ok hr
    exact ⟨r, hr⟩
  · rintro ⟨⟨ok, s'⟩, hr⟩
    rw [hr]
    exact ⟨ok, _, rfl, hentries s' (walk_invariant hinv hs hr)⟩

/-- The state between two lines for the devices. -/
structure DevState.Wf (listSz : Nat) (s : DevState) : Prop where
  devs : TableWf IoDevice.Wf listSz s.devs
  cnt : s.cnt ≤ listSz

structure MemState.Wf (listSz : Nat) (s : MemState) : Prop where
  mems : TableWf MemoryRegion.Wf listSz s.mems
  cnt : s.cnt ≤ listSz

section Lines

variable (A : Arch) (nul : Nat) (K : KrnUart)

theorem setDevice_wf {ws : List Word} (hlen : (ws.getD 0 default).len < devNameSz) {d : IoDevice} (h : d.Wf) :
    ∃ d', setDevice A K ws d = .ok d' ∧ d'.Wf := by
  obtain ⟨nm, hnm, hwf⟩ := strncpy_wf "_name" h (ws.getD 0 default).ptr hlen
  exact ⟨_, bind_eq_ok.mpr ⟨nm, hnm, rfl⟩, hwf⟩

theorem setMemory_wf {ws : List Word} (hlen : (ws.getD 0 default).len < memNameSz) {m : MemoryRegion}
    (h : m.Wf) : ∃ m', setMemory A ws m = .ok m' ∧ m'.Wf := by
  obtain ⟨nm, hnm, hwf⟩ := strncpy_wf "name" h (ws.getD 0 default).ptr hlen
  exact ⟨_, bind_eq_ok.mpr ⟨nm, hnm, rfl⟩, hwf⟩

/-- A write in a table that is not full. -/
theorem modifyAt_exists {α : Type} {P : α → Prop} (table : String) {l : List α} {i : Nat}
    {f : α → Except Fault α} (h : TableWf P listSz l) (hi : i < listSz)
    (hf : ∀ a, P a → ∃ a', f a = .ok a' ∧ P a') :
    ∃ l', modifyAt table l i f = .ok l' ∧ TableWf P listSz l' := by
  have hok : ∀ a ∈ l, ∃ a', f a = .ok a' := fun a ha => (hf a (h.entries a ha)).imp fun _ => And.left
  obtain ⟨l', hl'⟩ := (modifyAt_ok_iff table i hok).mpr (h.length ▸ hi)
  refine ⟨l', hl', modifyAt_wf h (fun a a' ha haa' => ?_) hl'⟩
  obtain ⟨a'', ha'', hwf⟩ := hf a ha
  obtain rfl := Except.ok.inj (haa'.symm.trans ha'')
  exact hwf

/-- Every line of the devices is parsed. -/
theorem devLine_wf {s : DevState} (h : s.Wf listSz) (line : Ptr) :
    ∃ ret s', devLine A nul K listSz s line = .ok (ret, s') ∧ s'.Wf listSz := by
  unfold devLine
  split
  · exact ⟨_, _, rfl, h⟩
  split
  · exact ⟨_, _, rfl, h.devs, h.cnt⟩
  split
  · exact ⟨_, _, rfl, h⟩
  split
  · exact ⟨_, _, rfl, h⟩
  rename_i ws _
  split
  · exact ⟨_, _, rfl, h⟩
  rename_i hcnt
  split
  · exact ⟨_, _, rfl, h⟩
  rename_i hlen
  have hroom : s.cnt < listSz := Nat.lt_of_le_of_ne h.cnt hcnt
  obtain ⟨devs, hdevs, hwf⟩ := modifyAt_exists "devs" h.devs hroom fun d hd =>
    setDevice_wf A K (Nat.not_le.mp hlen) hd
  exact ⟨_, _, bind_eq_ok.mpr ⟨devs, hdevs, rfl⟩, hwf, hroom⟩

theorem memLine_wf {s : MemState} (h : s.Wf listSz) (line : Ptr) :
    ∃ ret s', memLine A nul listSz s line = .ok (ret, s') ∧ s'.Wf listSz := by
  unfold memLine
  split
  · exact ⟨_, _, rfl, h⟩
  split
  · exact ⟨_, _, rfl, h.mems, h.cnt⟩
  split
  · exact ⟨_, _, rfl, h⟩
  split
  · exact ⟨_, _, rfl, h⟩
  rename_i ws _
  split
  · exact ⟨_, _, rfl, h⟩
  rename_i hcnt
  split
  · exact ⟨_, _, rfl, h⟩
  rename_i hlen
  have hroom : s.cnt < listSz := Nat.lt_of_le_of_ne h.cnt hcnt
  obtain ⟨mems, hmems, hwf⟩ := modifyAt_exists "mems" h.mems hroom fun m hm =>
    setMemory_wf A (Nat.not_le.mp hlen) hm
  rw [hmems]
  show ∃ ret s', (if accStrToEnum (ws.getD 2 default) = 2 ^ 32 - 1 then _ else _) = Except.ok (ret, s') ∧ _
  split
  · exact ⟨_, _, rfl, hwf, h.cnt⟩
  · exact ⟨_, _, rfl, hwf, hroom⟩

variable {devs : List IoDevice} {mems : List MemoryRegion}

/-- **The parser of the devices** is safe for every text. -/
theorem parseDevConfig_safe (hdevs : TableWf IoDevice.Wf listSz devs) (str : Ptr) :
    Safe IoDevice.Wf listSz (parseDevConfig A nul K str devs listSz) := by
  have hline : ∀ (s : DevState) (p : Ptr), s.Wf listSz →
      (True ↔ ∃ r, devLine A nul K listSz s p = .ok r) := fun s p hs => by
    obtain ⟨ret, s', h, -⟩ := devLine_wf A nul K hs p
    exact iff_of_true trivial ⟨_, h⟩
  have hinv : ∀ (s : DevState) (p : Ptr) b s', s.Wf listSz → devLine A nul K listSz s p = .ok (b, s') →
      s'.Wf listSz := fun s p b s' hs h => by
    obtain ⟨ret, t, ht, hwf⟩ := devLine_wf A nul K hs p
    obtain ⟨-, rfl⟩ := Prod.mk.inj (Except.ok.inj (ht.symm.trans h))
    exact hwf
  exact (walk_safe_iff (fun _ => DevState.Wf.devs) hline hinv ⟨hdevs, Nat.zero_le _⟩ (cstr str)).mpr
    (visits_of_forall (fun _ _ => trivial) _ _ _)

/-- **The parser of the named memory** is safe for every text. -/
theorem parseMemConfig_safe (hmems : TableWf MemoryRegion.Wf listSz mems) (str : Ptr) :
    Safe MemoryRegion.Wf listSz (parseMemConfig A nul str mems listSz) := by
  have hline : ∀ (s : MemState) (p : Ptr), s.Wf listSz →
      (True ↔ ∃ r, memLine A nul listSz s p = .ok r) := fun s p hs => by
    obtain ⟨ret, s', h, -⟩ := memLine_wf A nul hs p
    exact iff_of_true trivial ⟨_, h⟩
  have hinv : ∀ (s : MemState) (p : Ptr) b s', s.Wf listSz → memLine A nul listSz s p = .ok (b, s') →
      s'.Wf listSz := fun s p b s' hs h => by
    obtain ⟨ret, t, ht, hwf⟩ := memLine_wf A nul hs p
    obtain ⟨-, rfl⟩ := Prod.mk.inj (Except.ok.inj (ht.symm.trans h))
    exact hwf
  exact (walk_safe_iff (fun _ => MemState.Wf.mems) hline hinv ⟨hmems, Nat.zero_le _⟩ (cstr str)).mpr
    (visits_of_forall (fun _ _ => trivial) _ _ _)

end Lines

/-- **The parser of the applications** is safe exactly when each line that it visits fits. -/
theorem parseAppConfig_safe_iff (happs : TableWf AppConfig.Wf listSz apps) (str : Ptr) :
    Safe AppConfig.Wf listSz (parseAppConfig A nul str apps) ↔
      Visits nextLine (appLine A nul) (Fits A nul) ((cstr str).length + 1) (.start apps) (cstr str) := by
  have hline : ∀ (s : AppState) (p : Ptr), s.Wf listSz → (Fits A nul s p ↔ ∃ r, appLine A nul s p = .ok r) :=
    fun _ _ hs => appLine_ok_iff hs
  have hinv : ∀ (s : AppState) (p : Ptr) b s', s.Wf listSz → appLine A nul s p = .ok (b, s') → s'.Wf listSz :=
    fun _ _ _ _ hs h => appLine_wf hs h
  have hstart : (AppState.start apps).Wf listSz := happs
  exact walk_safe_iff (fun _ hs => hs) hline hinv hstart (cstr str)

/-- **The parsers of the configuration** return and stay inside of their tables exactly when each line that is
read for an application fits. -/
theorem safe_iff_fits (K : KrnUart) {devsSz memsSz appsSz : Nat} (hdevs : TableWf IoDevice.Wf devsSz devs)
    (hmems : TableWf MemoryRegion.Wf memsSz mems) (happs : TableWf AppConfig.Wf appsSz apps) (str : Ptr) :
    Safe IoDevice.Wf devsSz (parseDevConfig A nul K str devs devsSz) ∧
        Safe MemoryRegion.Wf memsSz (parseMemConfig A nul str mems memsSz) ∧
        Safe AppConfig.Wf appsSz (parseAppConfig A nul str apps) ↔
      Visits nextLine (appLine A nul) (Fits A nul) ((cstr str).length + 1) (.start apps) (cstr str) := by
  rw [and_iff_right (parseDevConfig_safe A nul K hdevs str),
    and_iff_right (parseMemConfig_safe A nul hmems str)]
  exact parseAppConfig_safe_iff happs str

/-! ### The project -/

/-- The tables of the project. -/
structure ProjConfig.Wf (proj : ProjConfig) : Prop where
  devices : TableWf IoDevice.Wf devsMax proj.devices
  mems : TableWf MemoryRegion.Wf memsMax proj.mems
  apps : TableWf AppConfig.Wf appsMax proj.apps

theorem tableWf_replicate {α : Type} {P : α → Prop} {a : α} (n : Nat) (h : P a) :
    TableWf P n (List.replicate n a) :=
  ⟨List.length_replicate, fun b hb => by rwa [(List.mem_replicate.mp hb).2]⟩

theorem ProjConfig.zero_wf : ProjConfig.zero.Wf where
  devices := tableWf_replicate devsMax ⟨by decide, by decide⟩
  mems := tableWf_replicate memsMax ⟨by decide, by decide⟩
  apps := tableWf_replicate appsMax
    { name := ⟨by decide, by decide⟩
      shortName := ⟨by decide, by decide⟩
      filename := ⟨by decide, by decide⟩
      devs := tableWf_replicate devListSz ⟨by decide, by decide⟩
      mems := tableWf_replicate memListSz ⟨by decide, by decide⟩
      args := tableWf_replicate argListSz ⟨by decide, by decide⟩ }

/-- A project with one application. -/
def helloConfig : Ptr :=
  bytes "DEVICES\n\tuart  krn  krn  krn\n\nMEMORY\n\tshm  0x1000  rw  1  0\n\nAPPLICATIONS\n\t\x7b\n" ++
    bytes "\t\tname:     hello\n\t\tdevices:  uart\n\t\tmemory:   shm\n\t\targs:     a b c d\n\t\x7d\n"

theorem helloConfig_safe :
    Safe IoDevice.Wf devsMax (parseDevConfig .x86_64 0x40000000 ⟨0x3f8, 8, 4⟩ helloConfig
        ProjConfig.zero.devices devsMax) ∧
      Safe MemoryRegion.Wf memsMax (parseMemConfig .x86_64 0x40000000 helloConfig
        ProjConfig.zero.mems memsMax) ∧
      Safe AppConfig.Wf appsMax (parseAppConfig .x86_64 0x40000000 helloConfig ProjConfig.zero.apps) :=
  have h := ProjConfig.zero_wf
  (safe_iff_fits ⟨0x3f8, 8, 4⟩ h.devices h.mems h.apps helloConfig).mpr (by decide +kernel)

/-- An application with five arguments. -/
def fiveArgs : Ptr := bytes "APPLICATIONS\n\t\x7b\n\t\tname: hello\n\t\targs: a b c d e\n\t\x7d\n"

/-- The fifth argument is written behind the table. -/
theorem fiveArgs_not_safe :
    parseAppConfig .x86_64 0x40000000 fiveArgs ProjConfig.zero.apps = .error (.beyond "args") ∧
      ¬(Safe IoDevice.Wf devsMax (parseDevConfig .x86_64 0x40000000 ⟨0x3f8, 8, 4⟩ fiveArgs
            ProjConfig.zero.devices devsMax) ∧
          Safe MemoryRegion.Wf memsMax (parseMemConfig .x86_64 0x40000000 fiveArgs
            ProjConfig.zero.mems memsMax) ∧
          Safe AppConfig.Wf appsMax (parseAppConfig .x86_64 0x40000000 fiveArgs ProjConfig.zero.apps)) := by
  have hbeyond : parseAppConfig .x86_64 0x40000000 fiveArgs ProjConfig.zero.apps =
      .error (.beyond "args") := by
    decide +kernel
  refine ⟨hbeyond, ?_⟩
  rintro ⟨-, -, ok, l, hr, -⟩
  exact nomatch hbeyond.symm.trans hr

end AlphaConfig
end Wrmos
