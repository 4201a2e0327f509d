import Wrmos.Shell
import Mathlib.Tactic.SplitIfs
import Mathlib.Data.List.Basic

/-!
# The line editor stays inside of its arrays

All but one of the keys keep the position inside of the line and the line inside of its array: a printable
character is inserted before position `Line_sz` only.  A tabulator inserts what completes the command, and the
blank behind it, whatever the position is.  `shell_iff` says that this is all that goes wrong: a run is sound
exactly when every completion ends inside of the line.
-/

namespace Wrmos
namespace Shell

open Lib

variable {cmds : Cmds} {line l l' : Line} {h : History} {k : Call} {s s' : State} {e : Event} {wp i n : Nat}
  {ch : UInt8} {str src dst : Nat → UInt8}

/-! ## What is promised -/

/-- **What a key does right**: no write and no assertion stops it, and then the position is inside of the line
and the line inside of its array. -/
def Sound (cmds : Cmds) (s : State) (e : Event) : Prop :=
  ∃ s', step cmds s e = .ok s' ∧ ∀ k ∈ s'.call, k.wp ≤ k.line.len ∧ k.line.len ≤ lineSz

/-- The text from the first character that is no blank to the position. -/
def word (line : Line) (wp : Nat) : List UInt8 := ((List.range wp).map line.str).dropWhile (· == 0x20)

/-- The commands that begin with the word. -/
def matching (cmds : Cmds) (line : Line) (wp : Nat) : List (List UInt8) :=
  cmds.names.filter fun name => (word line wp).isPrefixOf name

/-- There is room for what all commands that match have behind the word, and for the blank behind a single
one. -/
def Room (cmds : Cmds) (line : Line) (wp : Nat) : Prop :=
  ∀ t, matching cmds line wp ≠ [] → (∀ name ∈ matching cmds line wp, word line wp ++ t <+: name) →
    wp + t.length + (if (matching cmds line wp).length = 1 then 1 else 0) ≤ lineSz

/-- **The condition**: at a tabulator there is room for the completion. -/
def Fits (cmds : Cmds) (s : State) (e : Event) : Prop :=
  ∀ k ∈ s.call, k.mode = .key → ∀ ret stack, e = .char 0x09 ret stack → Room cmds k.line k.wp

/-! ## Characters of a line -/

/-- The line is inside of its array and has no null characters. -/
structure Line.Ok (line : Line) : Prop where
  len : line.len ≤ lineSz
  nonNull : ∀ i < line.len, line.str i ≠ 0

theorem store_eq {cap : Nat} (hi : i < cap) : store cap str i ch = .ok (Function.update str i ch) :=
  ensure_bind_of hi

theorem store_error {cap : Nat} (hi : ¬ i < cap) : store cap str i ch = .error (.overflow i) :=
  ensure_bind_of_not hi

/-- The characters from `wp` on move one place to the right. -/
theorem shiftRight_spec (wp : Nat) (str : Nat → UInt8) (hi : i < lineSz) :
    ∃ str', shiftRight wp i str = .ok str' ∧ ∀ j, str' j = if wp < j ∧ j ≤ i then str (j - 1) else str j := by
  induction i generalizing str with
  | zero => exact ⟨str, rfl, fun j => (if_neg (by omega)).symm⟩
  | succ i ih =>
    by_cases hwp : wp < i + 1
    · obtain ⟨str', hstr', hcells⟩ := ih (Function.update str (i + 1) (str i)) (by omega)
      refine ⟨str', ?_, fun j => ?_⟩
      · rw [shiftRight, if_pos hwp, store_eq hi]
        exact hstr'
      · rw [hcells]
        rcases Nat.lt_trichotomy j (i + 1) with hlt | rfl | hgt
        · rw [Function.update_of_ne (by omega), Function.update_of_ne (by omega)]
          exact if_congr (by omega) rfl rfl
        · rw [if_neg (by omega), if_pos ⟨hwp, Nat.le_refl _⟩, Function.update_self, Nat.add_sub_cancel]
        · rw [if_neg (by omega), if_neg (by omega), Function.update_of_ne (by omega)]
    · refine ⟨str, ?_, fun j => (if_neg (by omega)).symm⟩
      rw [shiftRight, if_neg hwp]

/-- **Inserting** before the end of the array. -/
theorem insertChar_spec (hl : l.Ok) (hwp : wp ≤ l.len) (hch : ch ≠ 0) (hlt : wp < lineSz) :
    ∃ l', insertChar l wp ch = .ok l' ∧ l'.Ok ∧ wp + 1 ≤ l'.len := by
  obtain ⟨hlen, hnull⟩ := hl
  have hbegin : (if l.len = lineSz then lineSz - 1 else l.len) < lineSz := by
    unfold lineSz at *
    split_ifs <;> omega
  obtain ⟨str, hstr, hcells⟩ := shiftRight_spec wp l.str hbegin
  refine ⟨_, ensure_bind_eq_ok.mpr ⟨hwp, ensure_bind_eq_ok.mpr ⟨hlen, bind_eq_ok.mpr ⟨str, hstr,
    bind_eq_ok.mpr ⟨_, store_eq hlt, rfl⟩⟩⟩⟩, ⟨?_, fun j hj => ?_⟩, ?_⟩
  · dsimp only
    split_ifs <;> omega
  · dsimp only at hj ⊢
    by_cases hat : j = wp
    · rw [hat, Function.update_self]
      exact hch
    · rw [Function.update_of_ne hat, hcells]
      split_ifs at hj ⊢ <;> exact hnull _ (by omega)
  · dsimp only
    split_ifs <;> omega

/-- **Inserting behind the array** is an overflow. -/
theorem insertChar_overflow (hge : ¬ wp < lineSz) : ¬ ∃ l', insertChar l wp ch = .ok l' := by
  rintro ⟨l', h⟩
  obtain ⟨-, h⟩ := ensure_bind_eq_ok.mp h
  obtain ⟨-, h⟩ := ensure_bind_eq_ok.mp h
  obtain ⟨str, -, h⟩ := bind_eq_ok.mp h
  obtain ⟨str', hstore, -⟩ := bind_eq_ok.mp h
  rw [store_error hge] at hstore
  cases hstore

/-- Inserting characters one after the other. -/
theorem insertChars_spec {chs : List UInt8} (hl : l.Ok) (hwp : wp ≤ l.len) (hch : ∀ ch ∈ chs, ch ≠ 0)
    (hfit : wp + chs.length ≤ lineSz) :
    ∃ l', insertChars l wp chs = .ok (l', wp + chs.length) ∧ l'.Ok ∧ wp + chs.length ≤ l'.len := by
  induction chs generalizing l wp with
  | nil => exact ⟨l, rfl, hl, hwp⟩
  | cons ch chs ih =>
    rw [List.length_cons] at hfit ⊢
    obtain ⟨l₁, h₁, hok₁, hlen₁⟩ := insertChar_spec hl hwp (hch ch List.mem_cons_self) (by omega)
    obtain ⟨l', h', hok', hlen'⟩ := ih hok₁ hlen₁ (fun c hc => hch c (List.mem_cons_of_mem _ hc)) (by omega)
    refine ⟨l', bind_eq_ok.mpr ⟨l₁, h₁, ?_⟩, hok', by omega⟩
    rw [h']
    congr 2
    omega

/-- Inserting more characters than there is room for. -/
theorem insertChars_overflow {chs : List UInt8} (hl : l.Ok) (hwp : wp ≤ l.len) (hch : ∀ ch ∈ chs, ch ≠ 0)
    (hfit : lineSz < wp + chs.length) : ¬ ∃ r, insertChars l wp chs = .ok r := by
  induction chs generalizing l wp with
  | nil =>
    have := hl.len
    rw [List.length_nil] at hfit
    omega
  | cons ch chs ih =>
    rw [List.length_cons] at hfit
    rintro ⟨r, hr⟩
    obtain ⟨l₁, h₁, hr⟩ := bind_eq_ok.mp hr
    by_cases hlt : wp < lineSz
    · obtain ⟨l₂, h₂, hok₂, hlen₂⟩ := insertChar_spec hl hwp (hch ch List.mem_cons_self) hlt
      obtain rfl := Except.ok.inj (h₁.symm.trans h₂)
      exact ih hok₂ hlen₂ (fun c hc => hch c (List.mem_cons_of_mem _ hc)) (by omega) ⟨r, hr⟩
    · exact insertChar_overflow hlt ⟨l₁, h₁⟩

/-- The characters behind `i` move one place to the left. -/
theorem shiftLeft_spec (str : Nat → UInt8) (hi : i + n ≤ lineSz) : ∃ str', shiftLeft n i str = .ok str' ∧
    ∀ j, str' j = if i ≤ j ∧ j < i + n then str (j + 1) else str j := by
  induction n generalizing i str with
  | zero => exact ⟨str, rfl, fun j => (if_neg (by omega)).symm⟩
  | succ n ih =>
    obtain ⟨str', hstr', hcells⟩ := ih (Function.update str i (str (i + 1))) (i := i + 1) (by omega)
    refine ⟨str', ?_, fun j => ?_⟩
    · rw [shiftLeft, store_eq (by omega)]
      exact hstr'
    · rw [hcells]
      rcases Nat.lt_trichotomy j i with hlt | rfl | hgt
      · rw [if_neg (by omega), if_neg (by omega), Function.update_of_ne (by omega)]
      · rw [if_neg (by omega), if_pos ⟨Nat.le_refl _, by omega⟩, Function.update_self]
      · rw [Function.update_of_ne (by omega), Function.update_of_ne (by omega)]
        exact if_congr (by omega) rfl rfl

/-- **Removing** a character. -/
theorem removeChar_spec (hl : l.Ok) (hwp : wp < l.len) :
    ∃ l', removeChar l wp = .ok l' ∧ l'.Ok ∧ wp ≤ l'.len := by
  obtain ⟨hlen, hnull⟩ := hl
  obtain ⟨str, hstr, hcells⟩ := shiftLeft_spec l.str (i := wp) (n := l.len - 1 - wp) (by omega)
  refine ⟨_, ensure_bind_eq_ok.mpr ⟨Nat.le_of_lt hwp, ensure_bind_eq_ok.mpr ⟨by omega,
    bind_eq_ok.mpr ⟨str, hstr, rfl⟩⟩⟩, ⟨?_, fun j hj => ?_⟩, ?_⟩
  · dsimp only
    omega
  · dsimp only at hj ⊢
    rw [hcells]
    split_ifs <;> exact hnull _ (by omega)
  · dsimp only
    omega

/-- Copying characters that are not null. -/
theorem strncpyLoop_spec {cap : Nat} (dst : Nat → UInt8) (hcap : i + n ≤ cap)
    (hsrc : ∀ j, i ≤ j → j < i + n → src j ≠ 0) :
    ∃ dst', strncpyLoop cap src n i false dst = .ok dst' ∧
      ∀ j, dst' j = if i ≤ j ∧ j < i + n then src j else dst j := by
  induction n generalizing i dst with
  | zero => exact ⟨dst, rfl, fun j => (if_neg (by omega)).symm⟩
  | succ n ih =>
    have hne : (src i == 0) = false := beq_eq_false_iff_ne.mpr (hsrc i (Nat.le_refl i) (by omega))
    obtain ⟨dst', hdst', hcells⟩ := ih (Function.update dst i (src i)) (i := i + 1) (by omega)
      fun j hj hj' => hsrc j (by omega) (by omega)
    refine ⟨dst', ?_, fun j => ?_⟩
    · unfold strncpyLoop
      dsimp only
      rw [hne, Bool.or_false, if_neg Bool.false_ne_true, store_eq (by omega)]
      exact hdst'
    · rw [hcells]
      rcases Nat.lt_trichotomy j i with hlt | rfl | hgt
      · rw [if_neg (by omega), if_neg (by omega), Function.update_of_ne (by omega)]
      · rw [if_neg (by omega), if_pos ⟨Nat.le_refl _, by omega⟩, Function.update_self]
      · rw [Function.update_of_ne (by omega)]
        exact if_congr (by omega) rfl rfl

/-- **Copying** a line. -/
theorem set_spec (line : Line) (hl : l.Ok) : ∃ l', line.set l = .ok l' ∧ l'.Ok ∧ l'.len = l.len := by
  obtain ⟨hlen, hnull⟩ := hl
  have hcopy : ∀ j, 0 ≤ j → j < 0 + l.len → l.str j ≠ 0 := fun j _ hj => hnull j (by omega)
  obtain ⟨str, hstr, hcells⟩ := strncpyLoop_spec line.str (by omega : 0 + l.len ≤ lineSz) hcopy
  refine ⟨_, bind_eq_ok.mpr ⟨str, hstr, rfl⟩, ⟨hlen, fun j hj => ?_⟩, rfl⟩
  dsimp only at hj ⊢
  rw [hcells, if_pos ⟨Nat.zero_le _, by omega⟩]
  exact hnull j hj

/-! ## The history -/

/-- All lines of the history are in order. -/
def History.Ok (h : History) : Prop := ∀ i, (h.lines i).Ok

/-- Entering a line. -/
theorem historyLast_spec (hh : h.Ok) (hl : l.Ok) :
    ∃ h' l', historyLast h l = .ok (h', l') ∧ h'.Ok ∧ l'.Ok := by
  unfold historyLast
  by_cases hlen : l.len = 0
  · rw [if_pos hlen]
    exact ⟨h, l, rfl, hh, hl⟩
  · obtain ⟨l₁, h₁, hok₁, -⟩ := set_spec (h.lines h.last) hl
    rw [if_neg hlen, h₁]
    have hclear : ∀ line : Line, line.clear.Ok := fun line => ⟨Nat.zero_le _, nofun⟩
    refine ⟨_, _, rfl, fun i => ?_, hclear l⟩
    dsimp only
    by_cases hi : i = nextId h.last
    · rw [hi, Function.update_self]
      exact hclear _
    · rw [Function.update_of_ne hi]
      by_cases hlast : i = h.last
      · rw [hlast, Function.update_self]
        exact hok₁
      · rw [Function.update_of_ne hlast]
        exact hh i

/-- Going to another line of the history. -/
theorem historyMove_spec (stop : Fin 32) (move : Fin 32 → Fin 32) (hh : h.Ok) (hl : l.Ok) (hwp : wp ≤ l.len) :
    ∃ h' l' wp', historyMove stop move h l wp = .ok (h', l', wp') ∧ h'.Ok ∧ l'.Ok ∧ wp' ≤ l'.len := by
  unfold historyMove
  by_cases hstop : h.cur = stop
  · rw [if_pos hstop]
    exact ⟨h, l, wp, rfl, hh, hl, hwp⟩
  · obtain ⟨l₁, h₁, hok₁, -⟩ := set_spec (h.lines h.cur) hl
    have hset : historySet h l = .ok { h with lines := Function.update h.lines h.cur l₁ } :=
      bind_eq_ok.mpr ⟨l₁, h₁, rfl⟩
    have hh₁ : History.Ok { h with lines := Function.update h.lines h.cur l₁ } := by
      intro i
      dsimp only
      by_cases hi : i = h.cur
      · rw [hi, Function.update_self]
        exact hok₁
      · rw [Function.update_of_ne hi]
        exact hh i
    obtain ⟨l₂, h₂, hok₂, -⟩ := set_spec l (hh₁ (move h.cur))
    rw [if_neg hstop, hset, ok_bind]
    exact ⟨_, l₂, l₂.len, bind_eq_ok.mpr ⟨l₂, h₂, rfl⟩, fun i => hh₁ i, hok₂, Nat.le_refl _⟩

/-! ## The words of a line -/

/-- The table has room: every word and the blank behind it take two characters. -/
structure Words.Ok (slen p : Nat) (w : Words) : Prop where
  outside : w.wordStart = none → 2 * w.argv.length ≤ p ∨ p = slen
  inside : ∀ start, w.wordStart = some start → 2 * w.argv.length ≤ start ∧ start < p

/-- One character. -/
theorem wordChar_spec {slen : Nat} {w : Words} (hlen : slen ≤ lineSz) (hi : i < slen) (hw : w.Ok slen i) :
    ∃ w', wordChar slen i w = .ok w' ∧ w'.Ok slen (i + 1) := by
  -- a word may begin
  obtain ⟨w₁, hw₁, hstart, hnone⟩ : ∃ w₁ : Words, (if w.wordStart = none ∧ w.str i ≠ 0x20
      then { w with wordStart := some i } else w) = w₁ ∧ (∀ start, w₁.wordStart = some start →
        2 * w₁.argv.length ≤ start ∧ (start < i ∨ start = i ∧ w₁.str i ≠ 0x20)) ∧
      (w₁.wordStart = none → 2 * w₁.argv.length ≤ i) := by
    refine ⟨_, rfl, ?_⟩
    by_cases hbegin : w.wordStart = none ∧ w.str i ≠ 0x20
    · rw [if_pos hbegin]
      have hroom := hw.outside hbegin.1
      refine ⟨fun start hsome => ?_, nofun⟩
      obtain rfl := Option.some.inj hsome
      exact ⟨by dsimp only; omega, .inr ⟨rfl, hbegin.2⟩⟩
    · rw [if_neg hbegin]
      refine ⟨fun start hsome => ?_, fun hnone => ?_⟩
      · obtain ⟨hroom, hlt⟩ := hw.inside start hsome
        exact ⟨hroom, .inl hlt⟩
      · have hroom := hw.outside hnone
        omega
  unfold wordChar
  rw [hw₁]
  dsimp only
  cases hcase : w₁.wordStart with
  | none =>
    refine ⟨w₁, rfl, fun _ => .inl ?_, fun start hsome => ?_⟩
    · have := hnone hcase
      omega
    · rw [hcase] at hsome
      cases hsome
  | some start =>
    obtain ⟨hroom, hle⟩ := hstart start hcase
    dsimp only
    by_cases hend : w₁.str i = 0x20 ∨ i + 1 = slen
    · -- the word ends
      have hargv : w₁.argv.length < argvSz := by
        unfold argvSz lineSz at *
        omega
      have hnull : (if w₁.str i = 0x20 then i else i + 1) < lineSz + 1 := by
        split_ifs <;> omega
      rw [if_pos hend, ensure_bind_of hargv, store_eq hnull]
      refine ⟨_, rfl, fun _ => ?_, nofun⟩
      dsimp only
      rw [List.length_append, List.length_singleton]
      by_cases hlast : i + 1 = slen
      · exact .inr hlast
      · -- the blank behind the word is not its first character
        have hlt : start < i := hle.resolve_right fun h => h.2 (hend.resolve_right hlast)
        exact .inl (by omega)
    · rw [if_neg hend]
      refine ⟨w₁, rfl, fun hnone => ?_, fun start' hsome => ?_⟩
      · rw [hcase] at hnone
        cases hnone
      · obtain rfl := Option.some.inj (hcase.symm.trans hsome)
        exact ⟨hroom, by omega⟩

/-- **`make_words`** stays inside of its arrays. -/
theorem makeWords_spec {slen : Nat} {w : Words} (hlen : slen ≤ lineSz) (hi : i + n = slen)
    (hw : w.Ok slen i) : ∃ w', makeWords slen n i w = .ok w' := by
  induction n generalizing i w with
  | zero => exact ⟨w, rfl⟩
  | succ n ih =>
    obtain ⟨w₁, h₁, hok₁⟩ := wordChar_spec hlen (by omega) hw
    obtain ⟨w', h'⟩ := ih (by omega) hok₁
    exact ⟨w', bind_eq_ok.mpr ⟨w₁, h₁, h'⟩⟩

/-- **`run_cmd`** stays inside of its arrays. -/
theorem runCmd_spec (cmds : Cmds) (stack : Nat → UInt8) (hl : l.Ok) :
    ∃ called, runCmd cmds stack l = .ok called := by
  obtain ⟨hlen, hnull⟩ := hl
  have hcopy : ∀ j, 0 ≤ j → j < 0 + l.len → l.str j ≠ 0 := fun j _ hj => hnull j (by omega)
  obtain ⟨str, hstr, -⟩ := strncpyLoop_spec stack (by omega : 0 + l.len ≤ lineSz + 1) hcopy
  obtain ⟨w, hw⟩ := makeWords_spec (i := 0) (w := ⟨str, [], none⟩) hlen (Nat.zero_add _)
    ⟨fun _ => .inl (Nat.zero_le _), nofun⟩
  unfold runCmd strncpy
  rw [hstr, ok_bind, hw, ok_bind]
  cases w.argv with
  | nil => exact ⟨_, rfl⟩
  | cons start rest => exact ⟨_, rfl⟩

/-! ## Completion -/

/-- Where the word begins. -/
def wordAt (line : Line) (wp : Nat) : Nat := (firstWord line wp).getD 0

/-- How long the word is. -/
def wordLen (line : Line) (wp : Nat) : Nat := ((firstWord line wp).map (wp - ·)).getD 0

/-- The characters from the first one that is no blank. -/
theorem dropWhile_range' (str : Nat → UInt8) (n a : Nat) :
    ((List.range' a n).map str).dropWhile (· == 0x20) =
      ((List.range' a n).find? fun i => str i != 0x20).elim [] fun i =>
        (List.range' i (a + n - i)).map str := by
  induction n generalizing a with
  | zero => rfl
  | succ n ih =>
    rw [List.range'_succ, List.map_cons]
    by_cases hblank : str a = 0x20
    · rw [List.dropWhile_cons_of_pos (by simp [hblank]), List.find?_cons_of_neg (by simp [hblank]), ih]
      have hlen : a + 1 + n = a + (n + 1) := by omega
      rw [hlen]
    · rw [List.dropWhile_cons_of_neg (by simp [hblank]), List.find?_cons_of_pos (by simp [hblank])]
      have hlen : a + (n + 1) - a = n + 1 := by omega
      rw [Option.elim_some, hlen, List.range'_succ, List.map_cons]

theorem word_eq (line : Line) (wp : Nat) :
    word line wp = (List.range (wordLen line wp)).map fun j => line.str (wordAt line wp + j) := by
  have hdrop := dropWhile_range' line.str wp 0
  rw [← List.range_eq_range'] at hdrop
  unfold word wordLen wordAt firstWord
  rw [hdrop]
  cases hfind : (List.range wp).find? fun i => line.str i != 0x20 with
  | none => rfl
  | some i =>
    rw [Option.elim_some, Option.map_some, Option.getD_some, Option.getD_some, Nat.zero_add,
      List.range'_eq_map_range, List.map_map]
    rfl

theorem length_word (line : Line) (wp : Nat) : (word line wp).length = wordLen line wp := by
  rw [word_eq, List.length_map, List.length_range]

/-- The word is a part of the line before the position. -/
theorem wordAt_add_le (line : Line) (wp : Nat) : wordAt line wp + wordLen line wp ≤ wp := by
  unfold wordAt wordLen
  cases hfind : firstWord line wp with
  | none => exact Nat.zero_le _
  | some i =>
    have hlt := List.mem_range.mp (List.mem_of_find?_eq_some hfind)
    rw [Option.getD_some, Option.map_some, Option.getD_some]
    omega

/-- Characters are equal when no difference is found. -/
theorem strncmp_eq_zero {s₁ s₂ : Nat → UInt8} (h₁ : ∀ j, i ≤ j → j < i + n → s₁ j ≠ 0) :
    strncmp s₁ s₂ i n = 0 ↔ ∀ j, i ≤ j → j < i + n → s₁ j = s₂ j := by
  induction n generalizing i with
  | zero => exact iff_of_true rfl fun j hj hj' => by omega
  | succ n ih =>
    unfold strncmp
    by_cases heq : s₁ i = s₂ i
    · rw [if_neg (not_not_intro heq), if_neg (h₁ i (Nat.le_refl i) (by omega)),
        ih fun j hj hj' => h₁ j (by omega) (by omega)]
      constructor
      · intro h j hj hj'
        rcases Nat.lt_or_ge i j with hlt | hge
        · exact h j hlt (by omega)
        · obtain rfl : j = i := by omega
          exact heq
      · exact fun h j hj hj' => h j (by omega) (by omega)
    · rw [if_pos heq]
      refine iff_of_false ?_ fun h => heq (h i (Nat.le_refl i) (by omega))
      split_ifs <;> decide

/-- A string is a beginning of another one when its characters are. -/
theorem prefix_iff_chars {t name : List UInt8} (ht : 0 ∉ t) :
    t <+: name ↔ ∀ j < t.length, chars t j = chars name j := by
  have hget : ∀ {l : List UInt8} {j : Nat} (hj : j < l.length), chars l j = l[j] := by
    intro l j hj
    unfold chars
    rw [List.getD_eq_getElem?_getD, List.getElem?_eq_getElem hj, Option.getD_some]
  rw [List.prefix_iff_getElem?]
  constructor
  · intro h j hj
    obtain ⟨hlt, heq⟩ := List.getElem?_eq_some_iff.mp (h j hj)
    rw [hget hj, hget hlt, heq]
  · intro h j hj
    have hchar := h j hj
    rw [hget hj] at hchar
    by_cases hlt : j < name.length
    · rw [List.getElem?_eq_getElem hlt, hchar, hget hlt]
    · have hnull : chars name j = 0 := by
        unfold chars
        rw [List.getD_eq_getElem?_getD, List.getElem?_eq_none (Nat.le_of_not_lt hlt), Option.getD_none]
      exact absurd (hnull ▸ hchar ▸ List.getElem_mem hj) ht

/-- A character inside of a string without null characters. -/
theorem chars_ne_zero {name : List UInt8} (hname : 0 ∉ name) : chars name i ≠ 0 ↔ i < name.length := by
  unfold chars
  rw [List.getD_eq_getElem?_getD]
  by_cases hlt : i < name.length
  · rw [List.getElem?_eq_getElem hlt, Option.getD_some]
    exact iff_of_true (fun h => hname (h ▸ List.getElem_mem hlt)) hlt
  · rw [List.getElem?_eq_none (Nat.le_of_not_lt hlt), Option.getD_none]
    exact iff_of_false (fun h => h rfl) hlt

/-- All of the commands have the same character at a place. -/
def Agree (found : List (List UInt8)) (back : List UInt8) (i : Nat) : Prop :=
  chars back i ≠ 0 ∧ ∀ name ∈ found, chars back i = chars name i

/-- The commands agree up to the length that is found, and no further. -/
theorem commonChars_spec {found : List (List UInt8)} {back : List UInt8} (hback : back ∈ found)
    (hbefore : ∀ j < i, Agree found back j) (hend : ∃ j, i ≤ j ∧ j < i + n ∧ ¬ Agree found back j) :
    (∀ j < commonChars found back i n, Agree found back j) ∧
      ¬ Agree found back (commonChars found back i n) := by
  induction n generalizing i with
  | zero =>
    obtain ⟨j, hj, hj', -⟩ := hend
    omega
  | succ n ih =>
    have hstop : found.any (fun name => chars back i == 0 || chars back i != chars name i) = true ↔
        ¬ Agree found back i := by
      unfold Agree
      rw [List.any_eq_true]
      constructor
      · rintro ⟨name, hmem, hdiff⟩ ⟨hne, hall⟩
        simp only [Bool.or_eq_true, beq_iff_eq, bne_iff_ne] at hdiff
        exact hdiff.elim hne fun h => h (hall name hmem)
      · intro hnot
        by_contra hnone
        refine hnot ⟨fun hzero => hnone ⟨back, hback, by simp [hzero]⟩, fun name hmem => ?_⟩
        by_contra hne
        exact hnone ⟨name, hmem, by simp [hne]⟩
    unfold commonChars
    by_cases hagree : Agree found back i
    · rw [if_neg fun h => hstop.mp h hagree]
      refine ih (fun j hj => ?_) ?_
      · rcases Nat.lt_or_ge j i with hlt | hge
        · exact hbefore j hlt
        · obtain rfl : j = i := by omega
          exact hagree
      · obtain ⟨j, hj, hj', hnot⟩ := hend
        refine ⟨j, ?_, by omega, hnot⟩
        rcases Nat.lt_or_ge i j with hlt | hge
        · exact hlt
        · obtain rfl : j = i := by omega
          exact absurd hagree hnot
    · rw [if_pos (hstop.mpr hagree)]
      exact ⟨hbefore, hagree⟩

/-- The commands that are found are those that begin with the word. -/
theorem found_eq (cmds : Cmds) (hl : l.Ok) (hwp : wp ≤ l.len) :
    (cmds.names.filter fun name =>
      strncmp (fun i => l.str (wordAt l wp + i)) (chars name) 0 (wordLen l wp) == 0) =
        matching cmds l wp := by
  have hin := wordAt_add_le l wp
  have hword : 0 ∉ word l wp := by
    rw [word_eq]
    intro hmem
    obtain ⟨j, hj, hzero⟩ := List.mem_map.mp hmem
    have := List.mem_range.mp hj
    exact hl.nonNull _ (by omega) hzero
  have hchars : ∀ j < wordLen l wp, chars (word l wp) j = l.str (wordAt l wp + j) := by
    intro j hj
    unfold chars
    rw [word_eq, List.getD_eq_getElem?_getD, List.getElem?_map, List.getElem?_range hj, Option.map_some,
      Option.getD_some]
  refine List.filter_congr fun name _ => Bool.eq_iff_iff.mpr ?_
  rw [beq_iff_eq, List.isPrefixOf_iff_prefix, prefix_iff_chars hword, length_word,
    strncmp_eq_zero fun j _ hj => hl.nonNull _ (by omega)]
  constructor
  · exact fun h j hj => (hchars j hj).trans (h j (Nat.zero_le _) (by omega))
  · exact fun h j _ hj => (hchars j (by omega)).symm.trans (h j (by omega))

theorem findCmd_eq (cmds : Cmds) (hl : l.Ok) (hwp : wp ≤ l.len) :
    findCmd cmds l wp = insertCommon (matching cmds l wp) l wp (wordLen l wp) :=
  congrArg (insertCommon · l wp (wordLen l wp)) (found_eq cmds hl hwp)

/-- What all commands begin with, they agree on. -/
theorem agree_below {found : List (List UInt8)} {back t : List UInt8} (hback : back ∈ found) (ht : 0 ∉ t)
    (hall : ∀ name ∈ found, t <+: name) (hi : i < t.length) : Agree found back i := by
  have hchar : ∀ name ∈ found, chars t i = chars name i := fun name hmem =>
    (prefix_iff_chars ht).mp (hall name hmem) i hi
  refine ⟨?_, fun name hmem => (hchar back hback).symm.trans (hchar name hmem)⟩
  rw [← hchar back hback]
  exact (chars_ne_zero ht).mpr hi

theorem mem_matching {name : List UInt8} (h : name ∈ matching cmds l wp) :
    name ∈ cmds.names ∧ word l wp <+: name := by
  obtain ⟨hmem, hpre⟩ := List.mem_filter.mp h
  exact ⟨hmem, List.isPrefixOf_iff_prefix.mp hpre⟩

theorem chars_append (t u : List UInt8) (i : Nat) :
    chars (t ++ u) i = if i < t.length then chars t i else chars u (i - t.length) := by
  unfold chars
  simp only [List.getD_eq_getElem?_getD]
  split_ifs with hi
  · rw [List.getElem?_append_left hi]
  · rw [List.getElem?_append_right (Nat.le_of_not_lt hi)]

/-- What the completion inserts before the blank. -/
def suffix (found : List (List UInt8)) (back : List UInt8) (wordLen : Nat) : List UInt8 :=
  (List.range (commonChars found back 0 lineSz - wordLen)).map fun i => chars back (wordLen + i)

theorem length_suffix {found : List (List UInt8)} {back : List UInt8} :
    (suffix found back n).length = commonChars found back 0 lineSz - n := by
  rw [suffix, List.length_map, List.length_range]

/-- **The completion**: the commands share the word, what is inserted has no null characters, and it is the
longest text that all of them have behind the word. -/
theorem suffix_spec {back : List UInt8} (hback : back ∈ matching cmds l wp) :
    wordLen l wp ≤ commonChars (matching cmds l wp) back 0 lineSz ∧
      (∀ ch ∈ suffix (matching cmds l wp) back (wordLen l wp), ch ≠ 0) ∧
      (∀ name ∈ matching cmds l wp, word l wp ++ suffix (matching cmds l wp) back (wordLen l wp) <+: name) ∧
      ∀ t, (∀ name ∈ matching cmds l wp, word l wp ++ t <+: name) →
        t.length ≤ (suffix (matching cmds l wp) back (wordLen l wp)).length := by
  obtain ⟨hmem, hpre⟩ := mem_matching hback
  have hnonNull := cmds.nonNull back hmem
  have hshort : back.length < 0 + lineSz := by
    have := cmds.short back hmem
    omega
  obtain ⟨hagree, hstop⟩ := commonChars_spec hback (fun _ hj => absurd hj (Nat.not_lt_zero _))
    ⟨back.length, Nat.zero_le _, hshort, fun h => Nat.lt_irrefl _ ((chars_ne_zero hnonNull).mp h.1)⟩
  -- a text that all of them begin with is no longer than what they share
  have hlongest : ∀ t, (∀ name ∈ matching cmds l wp, t <+: name) →
      t.length ≤ commonChars (matching cmds l wp) back 0 lineSz := by
    intro t ht
    by_contra hlong
    have hnull : 0 ∉ t := fun h => hnonNull ((ht back hback).subset h)
    exact hstop (agree_below hback hnull ht (Nat.lt_of_not_le hlong))
  have hword := hlongest (word l wp) fun name h => (mem_matching h).2
  rw [length_word] at hword
  have hsuffix : ∀ ch ∈ suffix (matching cmds l wp) back (wordLen l wp), ch ≠ 0 := by
    intro ch hch
    obtain ⟨j, hj, rfl⟩ := List.mem_map.mp hch
    have := List.mem_range.mp hj
    exact (hagree _ (by omega)).1
  refine ⟨hword, hsuffix, fun name hname => ?_, fun t ht => ?_⟩
  · have hnull : 0 ∉ word l wp := fun h => hnonNull (hpre.subset h)
    refine (prefix_iff_chars fun h => ?_).mpr fun j hj => ?_
    · exact (List.mem_append.mp h).elim hnull fun h => hsuffix 0 h rfl
    · rw [List.length_append, length_word, length_suffix] at hj
      have hsame := (hagree j (by omega)).2 name hname
      rw [chars_append, length_word, ← hsame]
      by_cases hlt : j < wordLen l wp
      · rw [if_pos hlt]
        exact (prefix_iff_chars hnull).mp hpre j (by rwa [length_word])
      · have hrange : j - wordLen l wp <
            commonChars (matching cmds l wp) back 0 lineSz - wordLen l wp := by omega
        have hplace : wordLen l wp + (j - wordLen l wp) = j := by omega
        rw [if_neg hlt, suffix, chars, List.getD_eq_getElem?_getD, List.getElem?_map,
          List.getElem?_range hrange, Option.map_some, Option.getD_some, hplace]
  · have := hlongest _ ht
    rw [List.length_append, length_word] at this
    rw [length_suffix]
    omega

/-- There is room when there is room for the longest text, and for the blank. -/
theorem room_iff {back : List UInt8} (hback : back ∈ matching cmds l wp) : Room cmds l wp ↔
    wp + (suffix (matching cmds l wp) back (wordLen l wp)).length +
      (if (matching cmds l wp).length = 1 then 1 else 0) ≤ lineSz := by
  obtain ⟨-, -, hpre, hlongest⟩ := suffix_spec hback
  constructor
  · exact fun hroom => hroom _ (List.ne_nil_of_mem hback) hpre
  · intro hfit t _ ht
    have := hlongest t ht
    omega

/-- **A tabulator**: the completion ends inside of the line, or it is an overflow. -/
theorem findCmd_spec (cmds : Cmds) (hl : l.Ok) (hwp : wp ≤ l.len) :
    (Room cmds l wp ∧ ∃ l' wp', findCmd cmds l wp = .ok (l', wp') ∧ l'.Ok ∧ wp' ≤ l'.len) ∨
      ¬ Room cmds l wp ∧ ¬ ∃ r, findCmd cmds l wp = .ok r := by
  rw [findCmd_eq cmds hl hwp]
  unfold insertCommon
  cases hlast : (matching cmds l wp).getLast? with
  | none =>
    have hnil := List.getLast?_eq_none_iff.mp hlast
    exact .inl ⟨fun _ hne => absurd hnil hne, l, wp, rfl, hl, hwp⟩
  | some back =>
    have hback : back ∈ matching cmds l wp := List.mem_of_getLast? hlast
    obtain ⟨hword, hsuffix, -⟩ := suffix_spec hback
    have hroom := room_iff hback
    dsimp only
    rw [ensure_bind_of hword]
    by_cases hfit : wp + (suffix (matching cmds l wp) back (wordLen l wp)).length ≤ lineSz
    · obtain ⟨l₁, h₁, hok₁, hlen₁⟩ := insertChars_spec hl hwp hsuffix hfit
      unfold suffix at h₁
      rw [h₁, ok_bind]
      dsimp only
      by_cases hone : (matching cmds l wp).length = 1
      · rw [if_pos hone] at hroom ⊢
        by_cases hlt : wp + (suffix (matching cmds l wp) back (wordLen l wp)).length < lineSz
        · obtain ⟨l₂, h₂, hok₂, hlen₂⟩ := insertChar_spec hok₁ hlen₁ (by decide : (0x20 : UInt8) ≠ 0) hlt
          exact .inl ⟨hroom.mpr hlt, l₂, _, bind_eq_ok.mpr ⟨l₂, h₂, rfl⟩, hok₂, hlen₂⟩
        · refine .inr ⟨fun h => hlt (hroom.mp h), ?_⟩
          rintro ⟨r, hr⟩
          obtain ⟨l₂, h₂, -⟩ := bind_eq_ok.mp hr
          exact insertChar_overflow hlt ⟨l₂, h₂⟩
      · rw [if_neg hone] at hroom ⊢
        exact .inl ⟨hroom.mpr hfit, l₁, _, rfl, hok₁, hlen₁⟩
    · refine .inr ⟨fun h => hfit (by have := hroom.mp h; omega), ?_⟩
      rintro ⟨r, hr⟩
      obtain ⟨r₁, h₁, -⟩ := bind_eq_ok.mp hr
      exact insertChars_overflow hl hwp hsuffix (Nat.lt_of_not_le hfit) ⟨r₁, h₁⟩

/-! ## The keys -/

/-- **The invariant**: the lines are in order, and the position is inside of the line. -/
structure Inv (s : State) : Prop where
  history : s.history.Ok
  line : ∀ k ∈ s.call, k.line.Ok
  wp : ∀ k ∈ s.call, k.wp ≤ k.line.len

/-- Nothing stops the code, and the invariant holds. -/
def Goes (x : Except Fault State) : Prop := ∃ s', x = .ok s' ∧ Inv s'

theorem inv_some (hh : h.Ok) (hl : k.line.Ok) (hwp : k.wp ≤ k.line.len) : Inv ⟨h, some k⟩ :=
  ⟨hh, fun _ hk' => Option.some.inj hk' ▸ hl, fun _ hk' => Option.some.inj hk' ▸ hwp⟩

theorem goes_endRound (hh : h.Ok) (hl : l.Ok) (hwp : wp ≤ l.len) : Goes (endRound h l wp) :=
  ⟨_, ensure_bind_of hwp, inv_some hh hl hwp⟩

/-- A character behind an escape. -/
theorem goes_escChar (hh : h.Ok) (hl : k.line.Ok) (hwp : k.wp ≤ k.line.len) {c : UInt8} :
    Goes (escChar h k c) := by
  unfold escChar
  split_ifs
  · exact ⟨_, rfl, inv_some hh hl hwp⟩
  · exact goes_endRound hh hl hwp

/-- A character behind an escape and a bracket. -/
theorem goes_bracketChar (hh : h.Ok) (hl : k.line.Ok) (hwp : k.wp ≤ k.line.len) {c : UInt8} :
    Goes (bracketChar h k c) := by
  unfold bracketChar
  split_ifs with hthree hup hdown hright hend hleft
  · exact ⟨_, rfl, inv_some hh hl hwp⟩
  · obtain ⟨h', l', wp', hmove, hh', hl', hwp'⟩ := historyMove_spec h.first prevId hh hl hwp
    unfold historyPrev
    rw [hmove]
    exact goes_endRound hh' hl' hwp'
  · obtain ⟨h', l', wp', hmove, hh', hl', hwp'⟩ := historyMove_spec h.last nextId hh hl hwp
    unfold historyNext
    rw [hmove]
    exact goes_endRound hh' hl' hwp'
  · exact goes_endRound hh hl hwp
  · exact goes_endRound hh hl (by omega)
  · exact goes_endRound hh hl (by omega)
  · exact goes_endRound hh hl hwp

/-- The delete key. -/
theorem goes_threeChar (hh : h.Ok) (hl : k.line.Ok) (hwp : k.wp ≤ k.line.len) {c : UInt8} :
    Goes (threeChar h k c) := by
  unfold threeChar
  split_ifs with hdelete
  · obtain ⟨l', hremove, hl', hwp'⟩ := removeChar_spec hl (Nat.lt_of_le_of_ne hwp hdelete.2)
    rw [hremove]
    exact goes_endRound hh hl' hwp'
  · exact goes_endRound hh hl hwp

/-- A character of the loop, but for the tabulator. -/
theorem goes_keyChar (hh : h.Ok) (hl : k.line.Ok) (hwp : k.wp ≤ k.line.len) {c : UInt8} (hc : c ≠ 0x09)
    (ret : Int) (stack : Nat → UInt8) : Goes (keyChar cmds h k c ret stack) := by
  unfold keyChar
  rw [if_neg hc]
  split_ifs with henter hesc hback hpos hprint
  · obtain ⟨called, hcalled⟩ := runCmd_spec cmds stack hl
    obtain ⟨h', l', hlast, hh', hl'⟩ := historyLast_spec hh hl
    rw [hcalled, ok_bind, hlast, ok_bind]
    dsimp only
    split_ifs
    · exact ⟨_, rfl, hh', nofun, nofun⟩
    · exact goes_endRound hh' hl' (Nat.zero_le _)
  · exact ⟨_, rfl, inv_some hh hl hwp⟩
  · obtain ⟨l', hremove, hl', hwp'⟩ := removeChar_spec hl (by omega : k.wp - 1 < k.line.len)
    rw [hremove]
    exact goes_endRound hh hl' hwp'
  · exact goes_endRound hh hl hwp
  · have hne : c ≠ 0 := by
      rintro rfl
      exact absurd hprint.1 (by decide)
    obtain ⟨l', hinsert, hl', hwp'⟩ := insertChar_spec hl hwp hne hprint.2
    rw [hinsert]
    exact goes_endRound hh hl' hwp'
  · exact goes_endRound hh hl hwp

/-- **One event** goes when it fits, and otherwise it is an overflow. -/
theorem Inv.step_cases (hs : Inv s) (cmds : Cmds) (e : Event) :
    (Fits cmds s e ∧ Goes (step cmds s e)) ∨ ¬ Fits cmds s e ∧ ¬ ∃ s', step cmds s e = .ok s' := by
  obtain ⟨hh, hlines, hwps⟩ := hs
  obtain ⟨h, call⟩ := s
  cases call with
  | none =>
    refine .inl ⟨nofun, ?_⟩
    cases e with
    | call stack => exact goes_endRound hh ⟨Nat.zero_le _, nofun⟩ (Nat.le_refl _)
    | char c ret stack => exact ⟨_, rfl, hh, nofun, nofun⟩
  | some k =>
    have hl := hlines k rfl
    have hwp := hwps k rfl
    cases e with
    | call stack => exact .inl ⟨fun _ _ _ _ _ => nofun, _, rfl, inv_some hh hl hwp⟩
    | char c ret stack =>
      -- only the tabulator of the loop is asked for something
      have hfits : ¬ (k.mode = .key ∧ c = 0x09) → Fits cmds ⟨h, some k⟩ (.char c ret stack) := by
        intro hnot k' hk' hmode ret' stack' heq
        obtain rfl := Option.some.inj hk'
        exact absurd ⟨hmode, (Event.char.inj heq).1⟩ hnot
      cases hmode : k.mode with
      | esc =>
        unfold step
        dsimp only
        rw [hmode]
        exact .inl ⟨hfits fun hkey => Mode.noConfusion (hmode.symm.trans hkey.1), goes_escChar hh hl hwp⟩
      | bracket =>
        unfold step
        dsimp only
        rw [hmode]
        exact .inl ⟨hfits fun hkey => Mode.noConfusion (hmode.symm.trans hkey.1), goes_bracketChar hh hl hwp⟩
      | three =>
        unfold step
        dsimp only
        rw [hmode]
        exact .inl ⟨hfits fun hkey => Mode.noConfusion (hmode.symm.trans hkey.1), goes_threeChar hh hl hwp⟩
      | key =>
        unfold step
        dsimp only
        rw [hmode]
        dsimp only
        by_cases hc : c = 0x09
        · subst hc
          have hroom : Fits cmds ⟨h, some k⟩ (.char 0x09 ret stack) ↔ Room cmds k.line k.wp := by
            constructor
            · exact fun hfit => hfit k rfl hmode ret stack rfl
            · intro hroom k' hk' _ _ _ _
              exact Option.some.inj hk' ▸ hroom
          rw [hroom]
          unfold keyChar
          rw [if_pos rfl]
          rcases findCmd_spec cmds hl hwp with ⟨hfit, l', wp', hfind, hl', hwp'⟩ | ⟨hfit, hfail⟩
          · refine .inl ⟨hfit, ?_⟩
            rw [hfind]
            exact goes_endRound hh hl' hwp'
          · refine .inr ⟨hfit, ?_⟩
            rintro ⟨s', hs'⟩
            obtain ⟨r, hr, -⟩ := bind_eq_ok.mp hs'
            exact hfail ⟨r, hr⟩
        · exact .inl ⟨hfits fun hkey => hc hkey.2, goes_keyChar hh hl hwp hc ret stack⟩

/-- An event is sound exactly when it fits. -/
theorem Inv.sound_iff (hs : Inv s) : Sound cmds s e ↔ Fits cmds s e := by
  rcases hs.step_cases cmds e with ⟨hfit, s', hs', hinv⟩ | ⟨hfit, hfail⟩
  · exact iff_of_true ⟨s', hs', fun k hk => ⟨hinv.wp k hk, (hinv.line k hk).len⟩⟩ hfit
  · exact iff_of_false (fun ⟨s', hs', _⟩ => hfail ⟨s', hs'⟩) hfit

/-- **The invariant is kept.** -/
theorem Inv.step (hs : Inv s) (h : step cmds s e = .ok s') : Inv s' := by
  rcases hs.step_cases cmds e with ⟨-, s₁, hs₁, hinv⟩ | ⟨-, hfail⟩
  · obtain rfl := Except.ok.inj (hs₁.symm.trans h)
    exact hinv
  · exact absurd ⟨s', h⟩ hfail

theorem start_inv : Inv start := ⟨fun _ => ⟨Nat.zero_le _, nofun⟩, nofun, nofun⟩

/-- **The line editor.**  For all commands and all keys: every key of a run is sound exactly when at every
tabulator there is room for what all commands that match have behind the word, and for the blank behind a
single one. -/
theorem shell_iff (cmds : Cmds) (events : List Event) :
    Meets (step cmds) (Sound cmds) start events ↔ Meets (step cmds) (Fits cmds) start events := by
  constructor
  · exact Meets.of_invariant (fun _ _ _ hs _ => hs.step) (fun _ _ hs => hs.sound_iff.mp) start_inv
  · exact Meets.of_invariant (fun _ _ _ hs _ => hs.step) (fun _ _ hs => hs.sound_iff.mpr) start_inv

/-- The commands `exit`, `kdb`, `list` and `input` of the console. -/
def consCmds : Cmds where
  names := [[0x65, 0x78, 0x69, 0x74], [0x6b, 0x64, 0x62], [0x6c, 0x69, 0x73, 0x74],
    [0x69, 0x6e, 0x70, 0x75, 0x74]]
  short := by decide
  nonNull := by decide

/-- Blanks, the letter `e` and a tabulator. -/
def completeExit : List Event :=
  .call (fun _ => 0) :: List.replicate 28 (.char 0x20 0 fun _ => 0) ++
    [.char 0x65 0 fun _ => 0, .char 0x09 0 fun _ => 0]

/-- The blank behind the completion is written behind the line. -/
theorem completeExit_overflows :
    runAll (step consCmds) start completeExit = .error (.overflow 32) ∧
      ¬ Meets (step consCmds) (Sound consCmds) start completeExit := by
  have hrun : runAll (step consCmds) start completeExit = .error (.overflow 32) := rfl
  refine ⟨hrun, fun h => ?_⟩
  obtain ⟨s', hs'⟩ := h.exists_ok fun s e ⟨s', hs', _⟩ => ⟨s', hs'⟩
  cases hrun.symm.trans hs'

end Shell
end Wrmos
