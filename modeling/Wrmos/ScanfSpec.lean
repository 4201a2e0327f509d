import Wrmos.Scanf
import Wrmos.StrtoulSpec

/-!
# What `vsscanf` counts

`leading` is the number of the conversions from the first one on that match at least one character of the
input where the scan stands.  `vsscanf` counts every conversion that does not fail, whether it matches a
character or not: a number without digits counts, and so does a character at the end of the input, behind
which the scan goes on.  `vsscanf_iff` is the exact condition (`AllMatch`): every conversion that is reached
matches, and is not one of those that fail.
-/

namespace Wrmos
namespace Scanf

open Lib (bind_eq_ok ensure ensure_bind_eq_ok ensure_bind_of ensure_bind_of_not ok_bind)
open Printf (Stage Length Spec Parsed baseOf widthPresent)
open Strtoul (deref skipSpaces skipSign strtoul subject)

variable {A : Arch} {mem : Nat → Char} {str src format : List Char} {ptr : Nat} {s : Spec} {ch : Char}
  {r : Run} {res : Int} {out : List Stored}

/-! ## The conversions -/

/-- The kinds of conversions; the last one is for those that are not supported. -/
inductive Kind where
  | int (base : Nat)
  | float
  | char
  | wchar
  | unsupported

/-- The kind of a conversion. -/
def kind (s : Spec) : Kind :=
  if s.specifier = 'd' ∨ s.specifier = 'i' then .int 10
  else if s.specifier = 'u' ∨ s.specifier = 'o' ∨ s.specifier = 'x' ∨ s.specifier = 'X' then
    .int (baseOf s.specifier)
  else if s.specifier ∈ ['f', 'F', 'e', 'E', 'g', 'G', 'a', 'A'] then
    if s.length = .none ∨ s.length = .l then .float else .unsupported
  else if s.specifier = 'c' then
    if s.length = .none then .char else if s.length = .l then .wchar else .unsupported
  else .unsupported

/-- The conversion matches at least one character: a number has a digit, and a character is there. -/
def matched (s : Spec) (src : List Char) : Bool :=
  match kind s with
  | .int base => !(subject base src).run.isEmpty
  | .float => (mantissa (skipSign (skipSpaces src)).2 false).1 != 0
  | .char => !src.isEmpty
  | .wchar => !src.isEmpty
  | .unsupported => false

/-- How far a conversion moves the scan. -/
def moved (A : Arch) (s : Spec) (src : List Char) : Nat :=
  match kind s with
  | .int base => (strtoul A src base).2
  | .float => strtod src
  | .char => 1
  | .wchar => wcharSz
  | .unsupported => 0

/-- The width is too large for the buffer. -/
def Wide (s : Spec) : Prop := hasWidth s = true ∧ bufSz ≤ s.width

instance (s : Spec) : Decidable (Wide s) := by
  unfold Wide; infer_instance

/-- A wide character is read directly, and the input ends before its last character. -/
def Short (str : List Char) (ptr : Nat) (s : Spec) : Prop :=
  match kind s with
  | .wchar => hasWidth s = false ∧ str.length < ptr + 3
  | _ => False

instance (str : List Char) (ptr : Nat) (s : Spec) : Decidable (Short str ptr s) := by
  unfold Short; cases kind s <;> infer_instance

/-- What a conversion at a position may use of the input. -/
def field (str : List Char) (ptr : Nat) (s : Spec) : List Char := source (str.drop ptr) s

theorem field_of_lt (h : str.length < ptr) : field str ptr s = [] := by
  unfold field
  rw [List.drop_of_length_le h.le]
  unfold source
  split_ifs
  · exact List.take_nil
  · rfl

theorem matched_nil : matched s [] = false := by
  unfold matched
  cases kind s with
  | int base =>
    have hrun : (subject base []).run = [] := by
      unfold subject Strtoul.afterPrefix Strtoul.afterSign
      simp
    dsimp only
    rw [hrun]
    rfl
  | float => rfl
  | char => rfl
  | wchar => rfl
  | unsupported => rfl

theorem matched_of_lt (h : str.length < ptr) : matched s (field str ptr s) = false := by
  rw [field_of_lt h, matched_nil]

/-- What a conversion does when it is supported and reads inside of the input. -/
def Served (A : Arch) (mem : Nat → Char) (str : List Char) (ptr : Nat) (s : Spec) : Prop :=
  ∃ val, ¬ Wide s ∧ kind s ≠ .unsupported ∧ ¬ Short str ptr s ∧ vsscanSpec A mem str ptr s =
    .ok (Int.bmod (moved A s (field str ptr s)) (2 ^ 32), some val)

/-- A conversion that fails, or that reads behind the input. -/
def Refused (A : Arch) (mem : Nat → Char) (str : List Char) (ptr : Nat) (s : Spec) : Prop :=
  ((vsscanSpec A mem str ptr s = .ok (-1, none)) ∨ ∃ e, vsscanSpec A mem str ptr s = .error e) ∧
    (Wide s ∨ Short str ptr s ∨ matched s (field str ptr s) = false)

/-- **One conversion** moves the scan and stores a value, or it fails, or it reads behind the input. -/
theorem vsscanSpec_cases (A : Arch) (mem : Nat → Char) (str : List Char) (ptr : Nat) (s : Spec) :
    Served A mem str ptr s ∨ Refused A mem str ptr s := by
  have hspec := vsscanSpec.eq_1 A mem str ptr s
  by_cases hwide : hasWidth s = true ∧ bufSz ≤ s.width
  · rw [if_pos hwide] at hspec
    exact .inr ⟨.inl hspec, .inl hwide⟩
  rw [if_neg hwide] at hspec
  by_cases hcopy : hasWidth s = true ∧ 0 < s.width → ptr ≤ str.length
  swap
  · rw [ensure_bind_of_not hcopy] at hspec
    obtain ⟨-, hlt⟩ := Classical.not_imp.mp hcopy
    exact .inr ⟨.inr ⟨_, hspec⟩, .inr (.inr (matched_of_lt (Nat.not_le.mp hlt)))⟩
  rw [ensure_bind_of hcopy] at hspec
  have hfield : source (str.drop ptr) s = field str ptr s := rfl
  dsimp only at hspec
  rw [hfield] at hspec
  -- where the position is behind the null character nothing matches
  have hplace : (hasWidth s = false → ptr ≤ str.length) ∨
      (¬ (hasWidth s = false → ptr ≤ str.length) ∧ matched s (field str ptr s) = false) := by
    by_cases hdirect : hasWidth s = false → ptr ≤ str.length
    · exact .inl hdirect
    · exact .inr ⟨hdirect, matched_of_lt (Nat.not_le.mp (Classical.not_imp.mp hdirect).2)⟩
  -- a conversion that reads directly
  have hread : ∀ {k : Kind} {n : Nat} {val : Stored}, kind s = k → k ≠ .unsupported → ¬ Short str ptr s →
      moved A s (field str ptr s) = n →
      vsscanSpec A mem str ptr s = (ensure (hasWidth s = false → ptr ≤ str.length) (.past ptr) >>= fun _ =>
        .ok (Int.bmod n (2 ^ 32), some val)) → Served A mem str ptr s ∨ Refused A mem str ptr s := by
    intro k n val hk hne hshort hn h
    rcases hplace with hdirect | ⟨hdirect, hnone⟩
    · rw [ensure_bind_of hdirect, ← hn] at h
      rw [← hk] at hne
      exact .inl ⟨val, hwide, hne, hshort, h⟩
    · rw [ensure_bind_of_not hdirect] at h
      exact .inr ⟨.inr ⟨_, h⟩, .inr (.inr hnone)⟩
  have hfail : kind s = .unsupported → vsscanSpec A mem str ptr s = .ok (-1, none) →
      Served A mem str ptr s ∨ Refused A mem str ptr s := by
    intro hk h
    refine .inr ⟨.inl h, .inr (.inr ?_)⟩
    unfold matched
    rw [hk]
  have hkind := kind.eq_1 s
  by_cases hd : s.specifier = 'd' ∨ s.specifier = 'i'
  · rw [if_pos hd] at hspec hkind
    exact hread hkind nofun (by simp [Short, hkind]) (by simp [moved, hkind]) hspec
  rw [if_neg hd] at hspec hkind
  by_cases hu : s.specifier = 'u' ∨ s.specifier = 'o' ∨ s.specifier = 'x' ∨ s.specifier = 'X'
  · rw [if_pos hu] at hspec hkind
    exact hread hkind nofun (by simp [Short, hkind]) (by simp [moved, hkind]) hspec
  rw [if_neg hu] at hspec hkind
  by_cases hf : s.specifier ∈ ['f', 'F', 'e', 'E', 'g', 'G', 'a', 'A']
  · rw [if_pos hf] at hspec hkind
    by_cases hl : s.length = .none ∨ s.length = .l
    · rw [if_pos hl] at hspec hkind
      exact hread hkind nofun (by simp [Short, hkind]) (by simp [moved, hkind]) hspec
    · rw [if_neg hl] at hspec hkind
      exact hfail hkind hspec
  rw [if_neg hf] at hspec hkind
  by_cases hc : s.specifier = 'c'
  · rw [if_pos hc] at hspec hkind
    by_cases hn : s.length = .none
    · rw [if_pos hn] at hspec hkind
      exact hread (n := 1) hkind nofun (by simp [Short, hkind]) (by simp [moved, hkind]) hspec
    rw [if_neg hn] at hspec hkind
    by_cases hl : s.length = .l
    · rw [if_pos hl] at hspec hkind
      by_cases hroom : hasWidth s = false → ptr + 3 ≤ str.length
      · rw [ensure_bind_of hroom] at hspec
        have hlen : moved A s (field str ptr s) = wcharSz := by simp [moved, hkind]
        refine .inl ⟨.wchar (wideChars mem (str.drop ptr) s), hwide, by simp [hkind], ?_, ?_⟩
        · unfold Short
          rw [hkind]
          rintro ⟨hno, hlt⟩
          have := hroom hno
          omega
        · rw [hlen]
          exact hspec
      · rw [ensure_bind_of_not hroom] at hspec
        obtain ⟨hno, hlt⟩ := Classical.not_imp.mp hroom
        refine .inr ⟨.inr ⟨_, hspec⟩, .inr (.inl ?_)⟩
        unfold Short
        rw [hkind]
        exact ⟨hno, Nat.not_le.mp hlt⟩
    · rw [if_neg hl] at hspec hkind
      exact hfail hkind hspec
  · rw [if_neg hc] at hspec hkind
    exact hfail hkind hspec

/-! ## The count -/

/-- **The number of leading conversions** that match at least one character, for the rest of a format and the
position of the scan. -/
def leading (A : Arch) (str : List Char) : List Char → Stage → Spec → Nat → Nat
  | [], _, _, _ => 0
  | ch :: format, parse, s, ptr =>
    if ch = '\x00' then 0
    else if parse = .none then
      if ch = '%' then leading A str format .widthDigits .zero ptr
      else if str[ptr]? = some ch then leading A str format parse s ((ptr + 1) % 2 ^ 32)
      else 0
    else
      match parseSpec parse s ch with
      | .more parse s _ => leading A str format parse s ptr
      | .done s _ =>
        if matched s (field str ptr s) = true then
          leading A str format .none s ((ptr + moved A s (field str ptr s)) % 2 ^ 32) + 1
        else 0

/-- The conversion matches, its width fits, what it matches is not negative as an `int`, and a wide character
does not reach behind the null character. -/
structure Good (A : Arch) (str : List Char) (ptr : Nat) (s : Spec) : Prop where
  matched : matched s (field str ptr s) = true
  narrow : ¬ Wide s
  int : moved A s (field str ptr s) % 2 ^ 32 < 2 ^ 31
  whole : ¬ Short str ptr s

/-- Every conversion that is reached is good, and so is the place of every other character that is
compared. -/
def AllMatch (A : Arch) (str : List Char) : List Char → Stage → Spec → Nat → Prop
  | [], _, _, _ => True
  | ch :: format, parse, s, ptr =>
    if ch = '\x00' then True
    else if parse = .none then
      if ch = '%' then AllMatch A str format .widthDigits .zero ptr
      else ptr ≤ str.length ∧ (str[ptr]? = some ch → AllMatch A str format parse s ((ptr + 1) % 2 ^ 32))
    else
      match parseSpec parse s ch with
      | .more parse s _ => AllMatch A str format parse s ptr
      | .done s _ => Good A str ptr s ∧
        AllMatch A str format .none s ((ptr + moved A s (field str ptr s)) % 2 ^ 32)

/-- A result that is not minus one counts what was counted before. -/
theorem loop_mono : ∀ {format : List Char} {r : Run} {res : Int} {out : List Stored},
    loop A mem str format r = .ok (res, out) → res = -1 ∨ (r.scannedCnt : Int) ≤ res
  | [], r, res, out, h => by
    obtain ⟨rfl, -⟩ := Prod.mk.inj (Except.ok.inj h)
    exact .inr le_rfl
  | ch :: format, r, res, out, h => by
    unfold loop at h
    split_ifs at h
    · obtain ⟨rfl, -⟩ := Prod.mk.inj (Except.ok.inj h)
      exact .inr le_rfl
    · exact loop_mono (r := ⟨.widthDigits, .zero, r.strPtr, r.scannedCnt, r.out⟩) h
    · obtain ⟨-, h⟩ := ensure_bind_eq_ok.mp h
      obtain ⟨rfl, -⟩ := Prod.mk.inj (Except.ok.inj h)
      exact .inr le_rfl
    · obtain ⟨-, h⟩ := ensure_bind_eq_ok.mp h
      exact loop_mono (r := { r with strPtr := (r.strPtr + 1) % 2 ^ 32 }) h
    · cases hparse : parseSpec r.parse r.spec ch with
      | more parse s args =>
        rw [hparse] at h
        exact loop_mono (r := ⟨parse, s, r.strPtr, r.scannedCnt, r.out⟩) h
      | done s args =>
        rw [hparse] at h
        obtain ⟨⟨len, val⟩, -, h⟩ := bind_eq_ok.mp h
        dsimp only at h
        split_ifs at h
        · obtain ⟨rfl, -⟩ := Prod.mk.inj (Except.ok.inj h)
          exact .inl rfl
        · have hle := loop_mono h
          dsimp only at hle
          omega

theorem deref_drop_iff (hnull : ch ≠ '\x00') : ch = deref (str.drop ptr) ↔ str[ptr]? = some ch := by
  unfold deref
  rw [List.headD_eq_head?_getD, List.head?_drop]
  cases hget : str[ptr]? with
  | none => simp [hnull]
  | some c => simp [eq_comm]

/-- The length of a match as an `int`. -/
theorem bmod_cases (n : Nat) : (n % 2 ^ 32 < 2 ^ 31 ∧ Int.bmod n (2 ^ 32) = (n % 2 ^ 32 : Nat)) ∨
    (¬ n % 2 ^ 32 < 2 ^ 31 ∧ Int.bmod n (2 ^ 32) < 0) := by
  have hcast : ((2 ^ 32 : Nat) : Int) = 2 ^ 32 := by norm_num
  rw [Int.bmod_def, hcast]
  split_ifs with h
  · exact .inl ⟨by omega, by omega⟩
  · exact .inr ⟨by omega, by omega⟩

/-- **A good run** counts the leading conversions, and stores as many values. -/
theorem AllMatch.counts : ∀ {format : List Char} {r : Run}, AllMatch A str format r.parse r.spec r.strPtr →
    ∃ out, loop A mem str format r =
        .ok ((r.scannedCnt + leading A str format r.parse r.spec r.strPtr : Nat), r.out ++ out) ∧
      out.length = leading A str format r.parse r.spec r.strPtr
  | [], r, _ => ⟨[], by rw [List.append_nil]; rfl, rfl⟩
  | ch :: format, r, h => by
    have hstop : ∀ {x : Except ScanFault (Int × List Stored)}, x = .ok (r.scannedCnt, r.out) →
        ∃ out, x = .ok ((r.scannedCnt + 0 : Nat), r.out ++ out) ∧ out.length = 0 := by
      rintro x rfl
      exact ⟨[], by rw [List.append_nil]; rfl, rfl⟩
    unfold AllMatch at h
    unfold leading loop
    by_cases hnull : ch = '\x00'
    · rw [if_pos hnull, if_pos hnull]
      exact hstop rfl
    rw [if_neg hnull] at h ⊢
    rw [if_neg hnull]
    by_cases hparse : r.parse = .none
    · rw [if_pos hparse] at h ⊢
      rw [if_pos hparse]
      by_cases hpercent : ch = '%'
      · rw [if_pos hpercent] at h ⊢
        rw [if_pos hpercent]
        exact AllMatch.counts (r := ⟨.widthDigits, .zero, r.strPtr, r.scannedCnt, r.out⟩) h
      rw [if_neg hpercent] at h ⊢
      rw [if_neg hpercent, ensure_bind_of h.1]
      by_cases heq : str[r.strPtr]? = some ch
      · rw [if_neg (not_not_intro ((deref_drop_iff hnull).mpr heq)), if_pos heq]
        exact AllMatch.counts (r := { r with strPtr := (r.strPtr + 1) % 2 ^ 32 }) (h.2 heq)
      · rw [if_pos fun hch => heq ((deref_drop_iff hnull).mp hch), if_neg heq]
        exact hstop rfl
    rw [if_neg hparse] at h ⊢
    rw [if_neg hparse]
    cases hspec : parseSpec r.parse r.spec ch with
    | more parse s args =>
      rw [hspec] at h
      exact AllMatch.counts (r := ⟨parse, s, r.strPtr, r.scannedCnt, r.out⟩) h
    | done s args =>
      rw [hspec] at h
      obtain ⟨⟨hmatched, hnarrow, hint, hwhole⟩, hrest⟩ := h
      obtain ⟨val, -, -, -, hconv⟩ := (vsscanSpec_cases A mem str r.strPtr s).resolve_right fun hbad => by
        rcases hbad.2 with hwide | hshort | hnone
        · exact hnarrow hwide
        · exact hwhole hshort
        · exact absurd (hmatched.symm.trans hnone) (by decide)
      have hlen := ((bmod_cases _).resolve_right fun hneg => hneg.1 hint).2
      have hpos : ¬ ((moved A s (field str r.strPtr s) % 2 ^ 32 : Nat) : Int) < 0 := by omega
      dsimp only
      rw [hconv, ok_bind, hlen, if_pos hmatched]
      dsimp only
      rw [if_neg hpos, Int.toNat_natCast, Nat.add_mod_mod]
      obtain ⟨out, hloop, hout⟩ := AllMatch.counts (r := ⟨.none, s,
        (r.strPtr + moved A s (field str r.strPtr s)) % 2 ^ 32, r.scannedCnt + 1, r.out ++ [val]⟩) hrest
      dsimp only at hloop hout
      refine ⟨val :: out, ?_, by rw [List.length_cons, hout]⟩
      rw [List.append_assoc] at hloop
      refine hloop.trans ?_
      rw [Nat.add_right_comm, Nat.add_assoc]
      rfl

/-- A run that counts the leading conversions is good. -/
theorem allMatch_of_counts : ∀ {format : List Char} {r : Run} {out : List Stored},
    loop A mem str format r =
      .ok ((r.scannedCnt + leading A str format r.parse r.spec r.strPtr : Nat), out) →
    AllMatch A str format r.parse r.spec r.strPtr
  | [], _, _, _ => trivial
  | ch :: format, r, out, h => by
    unfold leading loop at h
    unfold AllMatch
    by_cases hnull : ch = '\x00'
    · rw [if_pos hnull]
      trivial
    rw [if_neg hnull, if_neg hnull] at h
    rw [if_neg hnull]
    by_cases hparse : r.parse = .none
    · rw [if_pos hparse, if_pos hparse] at h
      rw [if_pos hparse]
      by_cases hpercent : ch = '%'
      · rw [if_pos hpercent, if_pos hpercent] at h
        rw [if_pos hpercent]
        exact allMatch_of_counts (r := ⟨.widthDigits, .zero, r.strPtr, r.scannedCnt, r.out⟩) h
      rw [if_neg hpercent, if_neg hpercent] at h
      rw [if_neg hpercent]
      obtain ⟨hptr, h⟩ := ensure_bind_eq_ok.mp h
      refine ⟨hptr, fun heq => ?_⟩
      rw [if_neg (not_not_intro ((deref_drop_iff hnull).mpr heq)), if_pos heq] at h
      exact allMatch_of_counts (r := { r with strPtr := (r.strPtr + 1) % 2 ^ 32 }) h
    rw [if_neg hparse, if_neg hparse] at h
    rw [if_neg hparse]
    cases hspec : parseSpec r.parse r.spec ch with
    | more parse s args =>
      rw [hspec] at h
      exact allMatch_of_counts (r := ⟨parse, s, r.strPtr, r.scannedCnt, r.out⟩) h
    | done s args =>
      rw [hspec] at h
      obtain ⟨⟨len, val⟩, hconv, h⟩ := bind_eq_ok.mp h
      dsimp only at h ⊢
      -- minus one is no count
      have hlen : ¬ len < 0 := by
        intro hneg
        rw [if_pos hneg] at h
        have hres := (Prod.mk.inj (Except.ok.inj h)).1
        omega
      rw [if_neg hlen] at h
      rcases vsscanSpec_cases A mem str r.strPtr s with ⟨val', hnarrow, -, hwhole, hserved⟩ | ⟨hbad, -⟩
      · rw [hserved] at hconv
        obtain ⟨rfl, rfl⟩ := Prod.mk.inj (Except.ok.inj hconv)
        obtain ⟨hint, heq⟩ := (bmod_cases _).resolve_right fun hneg => hlen hneg.2
        rw [heq, Int.toNat_natCast, Nat.add_mod_mod] at h
        by_cases hmatched : matched s (field str r.strPtr s) = true
        · rw [if_pos hmatched, ← Nat.add_assoc, Nat.add_right_comm] at h
          exact ⟨⟨hmatched, hnarrow, hint, hwhole⟩, allMatch_of_counts (r := ⟨.none, s,
            (r.strPtr + moved A s (field str r.strPtr s)) % 2 ^ 32, r.scannedCnt + 1, r.out ++ [val']⟩) h⟩
        · -- the conversion is counted all the same
          rw [if_neg hmatched] at h
          rcases loop_mono h with hres | hle
          · omega
          · dsimp only at hle
            omega
      · rcases hbad with hfail | ⟨e, herr⟩
        · obtain ⟨rfl, -⟩ := Prod.mk.inj (Except.ok.inj (hfail.symm.trans hconv))
          exact absurd (by decide : (-1 : Int) < 0) hlen
        · rw [herr] at hconv
          cases hconv

/-- **Scan results are honest** exactly when every conversion that is reached is good. -/
theorem vsscanf_iff (A : Arch) (mem : Nat → Char) (str format : List Char) :
    (∃ out, vsscanf A mem str format = .ok ((leading A str format .none .zero 0 : Nat), out) ∧
        out.length = leading A str format .none .zero 0) ↔ AllMatch A str format .none .zero 0 := by
  constructor
  · rintro ⟨out, h, -⟩
    have hcount : loop A mem str format ⟨.none, .zero, 0, 0, []⟩ =
        .ok ((0 + leading A str format .none .zero 0 : Nat), out) := by
      rw [Nat.zero_add]
      exact h
    exact allMatch_of_counts hcount
  · intro h
    obtain ⟨out, hloop, hout⟩ : ∃ out, loop A mem str format ⟨.none, .zero, 0, 0, []⟩ =
        .ok ((0 + leading A str format .none .zero 0 : Nat), [] ++ out) ∧
          out.length = leading A str format .none .zero 0 := AllMatch.counts h
    rw [Nat.zero_add, List.nil_append] at hloop
    exact ⟨out, hloop, hout⟩

/-- A number without digits is counted. -/
theorem noDigits_counted : vsscanf .x86 (fun _ => ' ') "abc".toList "%d".toList = .ok (1, [.int 0]) ∧
    leading .x86 "abc".toList "%d".toList .none .zero 0 = 0 := by
  decide +kernel

/-- A character is taken at the end of the input, and the next one behind it. -/
example : vsscanf .x86 (fun _ => ' ') "a".toList "%c%c%c".toList = .error (.past 2) := by
  decide +kernel

end Scanf
end Wrmos
