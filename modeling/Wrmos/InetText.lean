import Wrmos.ScanfPrintf

/-!
# Internet addresses as text

`inet_ntoa` prints the four bytes of an address into one of two static buffers, and `inet_aton` reads such a
text character by character.  A byte is stored at a dot and at the end of the string, and the end is accepted
behind any number of bytes up to four: a shorter string leaves the other bytes of the destination as they
were.  `inetText_iff` says that what is printed is always read back, and which strings have one address.

A string stands for its characters before the null character.
-/

namespace Wrmos
namespace Inet

open Lib (digitVal isDigit ok_bind value valueFrom)
open Printf (Arg numeral vsnprintf)

/-! ## The code -/

/-- `in_addr`: its bytes in the order of the memory. -/
abbrev InAddr := Fin 4 → UInt8

/-- `INADDR_NONE`. -/
def inaddrNone : InAddr := fun _ => 0xff

/-- The variables of the loop of `inet_aton`: no byte is minus one. -/
structure Aton where
  byteId : Fin 5
  byte : Option Nat
  bytes : InAddr

/-- A dot or the end of the string; without a result it is `return 0`. -/
def Aton.store (s : Aton) : Option Aton :=
  match s.byte with
  | none => none
  | some byte =>
    if h : s.byteId = Fin.last 4 then none
    else
      some
        { byteId := (s.byteId.castPred h).succ
          byte := none
          bytes := Function.update s.bytes (s.byteId.castPred h) (UInt8.ofNat byte) }

/-- A digit; without a result it is `return 0`. -/
def Aton.digit (s : Aton) (ch : Char) : Option Aton :=
  let byte :=
    match s.byte with
    | none => ch.toNat - '0'.toNat
    | some byte => byte * 10 + (ch.toNat - '0'.toNat)
  if 0xff < byte then none else some { s with byte := some byte }

/-- The loop of `inet_aton`: the result and the bytes of the destination. -/
def atonLoop : List Char → Aton → Bool × InAddr
  | [], s =>
    match s.store with
    | none => (false, s.bytes)
    | some s' => (true, s'.bytes)
  | ch :: str, s =>
    if ch = '.' then
      match s.store with
      | none => (false, s.bytes)
      | some s' => atonLoop str s'
    else if '0' ≤ ch ∧ ch ≤ '9' then
      match s.digit ch with
      | none => (false, s.bytes)
      | some s' => atonLoop str s'
    else (false, s.bytes)

/-- `inet_aton`. -/
def inetAton (str : List Char) (addr : InAddr) : Bool × InAddr := atonLoop str ⟨0, none, addr⟩

/-- `inet_addr`; `stack` is what the local variable holds before. -/
def inetAddr (str : List Char) (stack : InAddr) : InAddr :=
  let r := inetAton str stack
  if r.1 = true then r.2 else inaddrNone

/-- The static variables of `inet_ntoa`. -/
structure Ntoa where
  strings : Fin 2 → Nat → Char
  id : Fin 2

/-- `inet_ntoa`: the variables, and the buffer that it returns. -/
def inetNtoa (A : Arch) (s : Ntoa) (a : InAddr) : Except PrintFault (Ntoa × Fin 2) := do
  let (str, _) ← vsnprintf A (s.strings s.id) 32 "%u.%u.%u.%u".toList
    [.int (a 0).toNat, .int (a 1).toNat, .int (a 2).toNat, .int (a 3).toNat]
  .ok (⟨Function.update s.strings s.id (Function.update str 31 '\x00'),
    if (s.id : Nat) + 1 = 2 then 0 else s.id + 1⟩, s.id)

/-- The string in a buffer of 32 characters. -/
def cString (buf : Nat → Char) : List Char := ((List.range 32).map buf).takeWhile (· != '\x00')

/-! ## The parts of a string -/

/-- The parts of a string between its dots. -/
def parts (str : List Char) : List (List Char) := str.splitOnP (· == '.')

/-- The byte that a part stands for. -/
def octet (part : List Char) : Option Nat :=
  if part ≠ [] ∧ part.all (isDigit 10) = true ∧ value 10 part ≤ 0xff then some (value 10 part) else none

/-- Store the bytes of the parts, as long as they are bytes and there is room. -/
def fill (s : Aton) : List (List Char) → Bool × InAddr
  | [] => (true, s.bytes)
  | part :: rest =>
    match octet part with
    | none => (false, s.bytes)
    | some byte =>
      match ({ s with byte := some byte } : Aton).store with
      | none => (false, s.bytes)
      | some s' => fill s' rest

/-- The string has one address: `inet_aton` stores the same one into every destination when it returns one,
and `inet_addr` returns the same one whatever the stack holds. -/
def Determined (str : List Char) : Prop :=
  (∃ a, ∀ addr, (inetAton str addr).1 = true → (inetAton str addr).2 = a) ∧
    ∃ a, ∀ stack, inetAddr str stack = a

/-- **The condition**: there are four parts, or there is one that is no byte. -/
def Full (str : List Char) : Prop := 4 ≤ (parts str).length ∨ ∃ part ∈ parts str, octet part = none

variable {s : Aton} {str cur part : List Char} {ps : List (List Char)} {ch : Char}

/-! ## Bytes in decimal -/

theorem isDigit_ten : isDigit 10 ch = true ↔ '0' ≤ ch ∧ ch ≤ '9' := by
  have hle : ∀ c d : Char, c ≤ d ↔ c.toNat ≤ d.toNat := fun _ _ => Iff.rfl
  simp only [Lib.isDigit_iff, digitVal, hle, show '0'.toNat = 48 from rfl, show '9'.toNat = 57 from rfl]
  constructor
  · rintro ⟨d, hd, hval⟩
    split_ifs at hval <;> simp at hval <;> omega
  · intro h
    exact ⟨ch.toNat - 48, by omega, if_pos h⟩

theorem addDigit_of_digit {n : Nat} (h : '0' ≤ ch ∧ ch ≤ '9') :
    Lib.addDigit 10 n ch = n * 10 + (ch.toNat - '0'.toNat) := by
  have hval : digitVal ch = some (ch.toNat - 48) := if_pos h
  unfold Lib.addDigit
  rw [hval]
  rfl

/-- More digits make no smaller number. -/
theorem value_le_append (l l' : List Char) : value 10 l ≤ value 10 (l ++ l') := by
  rw [Lib.value_append]
  induction l' using List.reverseRecOn with
  | nil => exact le_rfl
  | append_singleton l' ch ih =>
    rw [Lib.valueFrom_append, Lib.valueFrom_cons, Lib.valueFrom_nil]
    unfold Lib.addDigit
    omega

/-- A part is no byte when what it begins with is no byte already. -/
theorem octet_append_of_large (h : 0xff < value 10 cur) (l : List Char) : octet (cur ++ l) = none := by
  refine if_neg fun hfit => ?_
  have hle := value_le_append cur l
  omega

theorem octet_of_not_digit (hmem : ch ∈ part) (h : ¬ ('0' ≤ ch ∧ ch ≤ '9')) : octet part = none := by
  refine if_neg fun hfit => h ?_
  exact isDigit_ten.mp (List.all_eq_true.mp hfit.2.1 ch hmem)

/-- What is printed for a byte stands for it. -/
theorem octet_numeral {n : Nat} (h : n ≤ 0xff) : octet (numeral 10 n) = some n := by
  have hval : value 10 (numeral 10 n) = n := Printf.value_numeral (by decide) (by decide) n
  have hdigits : Printf.Digits 10 (numeral 10 n) := Printf.digits_numeral (by decide) (by decide) n
  unfold octet
  rw [hval, if_pos ⟨hdigits.ne_nil, List.all_eq_true.mpr hdigits.all, h⟩]

/-! ## The loop -/

/-- What the loop has read of a part: digits of a number that is a byte, which is in `byte`. -/
structure Read (s : Aton) (cur : List Char) : Prop where
  all : cur.all (isDigit 10) = true
  le : value 10 cur ≤ 0xff
  byte : s.byte = if cur = [] then none else some (value 10 cur)

theorem Read.octet_eq (h : Read s cur) : octet cur = s.byte := by
  unfold octet
  rw [h.byte]
  by_cases hnil : cur = []
  · rw [if_pos hnil, if_neg fun hfit => hfit.1 hnil]
  · rw [if_neg hnil, if_pos ⟨hnil, h.all, h.le⟩]

/-- One digit more, or the number is too large. -/
theorem Read.digit (h : Read s cur) (hch : '0' ≤ ch ∧ ch ≤ '9') :
    (∃ s', s.digit ch = some s' ∧ s'.byteId = s.byteId ∧ s'.bytes = s.bytes ∧ Read s' (cur ++ [ch])) ∨
      s.digit ch = none ∧ 0xff < value 10 (cur ++ [ch]) := by
  have hval : value 10 (cur ++ [ch]) = value 10 cur * 10 + (ch.toNat - '0'.toNat) := by
    rw [Lib.value_append, Lib.valueFrom_cons, Lib.valueFrom_nil, addDigit_of_digit hch]
  have hbyte : (match s.byte with
      | none => ch.toNat - '0'.toNat
      | some byte => byte * 10 + (ch.toNat - '0'.toNat)) = value 10 (cur ++ [ch]) := by
    rw [hval, h.byte]
    by_cases hnil : cur = []
    · rw [if_pos hnil, hnil]
      exact (Nat.zero_add _).symm
    · rw [if_neg hnil]
  have hdigit : s.digit ch = if 0xff < value 10 (cur ++ [ch]) then none
      else some { s with byte := some (value 10 (cur ++ [ch])) } := by
    unfold Aton.digit
    rw [hbyte]
  rw [hdigit]
  by_cases hlt : 0xff < value 10 (cur ++ [ch])
  · exact .inr ⟨if_pos hlt, hlt⟩
  · refine .inl ⟨_, if_neg hlt, rfl, rfl, ?_, Nat.le_of_not_lt hlt, ?_⟩
    · rw [List.all_append, h.all, Bool.true_and, List.all_cons, List.all_nil, Bool.and_true]
      exact isDigit_ten.mpr hch
    · exact (if_neg (List.append_ne_nil_of_right_ne_nil _ (List.cons_ne_nil _ _))).symm

/-- The first part, when the loop is inside of it. -/
theorem splitOnPPrepend_head (p : Char → Bool) (str acc : List Char) :
    ∃ l rest, List.splitOnPPrepend p str acc = (acc.reverse ++ l) :: rest := by
  rw [List.splitOnPPrepend_eq_modifyHead]
  obtain ⟨l, rest, hsplit⟩ := List.exists_cons_of_ne_nil (List.splitOnP_ne_nil p str)
  exact ⟨l, rest, by rw [hsplit]; rfl⟩

/-- A first part that is no byte is rejected. -/
theorem fill_of_none (h : octet part = none) : fill s (part :: ps) = (false, s.bytes) := by
  unfold fill
  rw [h]

/-- A first part that has been read. -/
theorem fill_of_read (h : Read s cur) : fill s (cur :: ps) =
    match s.store with
    | none => (false, s.bytes)
    | some s' => fill s' ps := by
  rw [fill, h.octet_eq]
  cases hbyte : s.byte with
  | none =>
    have hstore : s.store = none := by
      unfold Aton.store
      rw [hbyte]
    rw [hstore]
  | some byte =>
    have hsame : ({ s with byte := some byte } : Aton) = s := by
      rw [← hbyte]
    dsimp only
    rw [hsame]

theorem store_read {s' : Aton} (h : s.store = some s') : Read s' [] := by
  unfold Aton.store at h
  cases hbyte : s.byte with
  | none =>
    rw [hbyte] at h
    cases h
  | some byte =>
    rw [hbyte] at h
    dsimp only at h
    split_ifs at h
    obtain rfl := Option.some.inj h
    exact ⟨rfl, Nat.zero_le _, rfl⟩

/-- **The loop** stores the parts of the string; `acc` is what it has read of the first one, backwards. -/
theorem atonLoop_eq {acc : List Char} (h : Read s acc.reverse) :
    atonLoop str s = fill s (List.splitOnPPrepend (· == '.') str acc) := by
  induction str generalizing s acc with
  | nil =>
    rw [List.splitOnPPrepend_nil, fill_of_read h]
    unfold atonLoop
    cases s.store with
    | none => rfl
    | some s' => rfl
  | cons ch str ih =>
    unfold atonLoop
    by_cases hdot : ch = '.'
    · rw [if_pos hdot, List.splitOnPPrepend_cons_pos (p := (· == '.')) (beq_iff_eq.mpr hdot), fill_of_read h]
      cases hstore : s.store with
      | none => rfl
      | some s' =>
        have hread : Read s' ([] : List Char).reverse := store_read hstore
        exact ih hread
    · rw [if_neg hdot, List.splitOnPPrepend_cons_neg (p := (· == '.')) (beq_eq_false_iff_ne.mpr hdot)]
      obtain ⟨l, rest, hhead⟩ := splitOnPPrepend_head (· == '.') str (ch :: acc)
      rw [List.reverse_cons] at hhead
      by_cases hch : '0' ≤ ch ∧ ch ≤ '9'
      · rw [if_pos hch]
        rcases h.digit hch with ⟨s', hs', hid, hbytes, hread⟩ | ⟨hs', hlarge⟩
        · rw [hs']
          dsimp only
          rw [← List.reverse_cons] at hread
          rw [ih hread, hhead]
          rw [fill, fill, hid, hbytes]
        · rw [hs', hhead, fill_of_none (octet_append_of_large hlarge l)]
      · rw [if_neg hch, hhead, fill_of_none (octet_of_not_digit (by simp : ch ∈ _) hch)]

/-- **`inet_aton`** stores the parts of the string. -/
theorem inetAton_eq (str : List Char) (addr : InAddr) :
    inetAton str addr = fill ⟨0, none, addr⟩ (parts str) :=
  atonLoop_eq ⟨rfl, Nat.zero_le _, rfl⟩

/-! ## What is stored -/

/-- The byte that a part stands for, if it stands for one. -/
def byteAt (ps : List (List Char)) (k : Nat) : UInt8 := UInt8.ofNat ((ps[k]?.bind octet).getD 0)

/-- The destination with the bytes of the parts from byte `n` on. -/
def filled (n : Nat) (ps : List (List Char)) (bytes : InAddr) : InAddr := fun i =>
  if n ≤ i ∧ i < n + ps.length then byteAt ps (i - n) else bytes i

/-- The first part and then the others. -/
theorem filled_cons {n byte : Nat} {k : Fin 4} {bytes : InAddr} (hk : k = n)
    (hbyte : octet part = some byte) :
    filled (n + 1) ps (Function.update bytes k (UInt8.ofNat byte)) = filled n (part :: ps) bytes := by
  funext i
  unfold filled
  rw [List.length_cons]
  rcases Nat.lt_trichotomy i n with hlt | heq | hgt
  · -- a byte from before
    rw [if_neg (by omega), if_neg (by omega), Function.update_of_ne (by omega)]
  · -- the byte of the first part
    obtain rfl : i = k := Fin.ext (heq.trans hk.symm)
    rw [if_neg (by omega), if_pos (by omega), Function.update_self, heq, Nat.sub_self]
    unfold byteAt
    rw [List.getElem?_cons_zero, Option.bind_some, hbyte, Option.getD_some]
  · rw [Function.update_of_ne (by omega)]
    by_cases hin : i < n + 1 + ps.length
    · obtain ⟨j, hj⟩ : ∃ j, i - n = j + 1 := ⟨i - n - 1, by omega⟩
      have hi : (i : Nat) - (n + 1) = j := by omega
      rw [if_pos ⟨hgt, hin⟩, if_pos (by omega), hj, hi]
      unfold byteAt
      rw [List.getElem?_cons_succ]
    · rw [if_neg (by omega), if_neg (by omega)]

/-- Storing a byte fails when there is no room for it. -/
theorem store_some {byte : Nat} : ({ s with byte := some byte } : Aton).store =
    if h : s.byteId = Fin.last 4 then none
    else
      some ⟨(s.byteId.castPred h).succ, none,
        Function.update s.bytes (s.byteId.castPred h) (UInt8.ofNat byte)⟩ := rfl

/-- A part that is no byte, or a fifth one, is rejected. -/
theorem fill_rejects (h : (∃ part ∈ ps, octet part = none) ∨ 4 < s.byteId + ps.length) :
    (fill s ps).1 = false := by
  induction ps generalizing s with
  | nil =>
    rcases h with ⟨part, hmem, -⟩ | hlen
    · cases hmem
    · have := s.byteId.isLt
      rw [List.length_nil] at hlen
      omega
  | cons part ps ih =>
    rw [fill]
    cases hoctet : octet part with
    | none => rfl
    | some byte =>
      dsimp only
      rw [store_some]
      by_cases hlast : s.byteId = Fin.last 4
      · rw [dif_pos hlast]
      · rw [dif_neg hlast]
        refine ih ?_
        rcases h with ⟨part', hmem, hnone⟩ | hlen
        · rcases List.mem_cons.mp hmem with rfl | hmem
          · rw [hoctet] at hnone
            cases hnone
          · exact .inl ⟨part', hmem, hnone⟩
        · rw [List.length_cons] at hlen
          simp only [Fin.val_succ, Fin.coe_castPred]
          omega

/-- Bytes that there is room for are stored one behind the other. -/
theorem fill_bytes (hoctet : ∀ part ∈ ps, octet part ≠ none) (hlen : s.byteId + ps.length ≤ 4) :
    fill s ps = (true, filled s.byteId ps s.bytes) := by
  induction ps generalizing s with
  | nil =>
    rw [fill]
    refine Prod.ext rfl (funext fun i => (if_neg ?_).symm)
    rw [List.length_nil]
    omega
  | cons part ps ih =>
    obtain ⟨byte, hbyte⟩ := Option.ne_none_iff_exists'.mp (hoctet part List.mem_cons_self)
    rw [List.length_cons] at hlen
    have hlast : s.byteId ≠ Fin.last 4 := by
      intro hlast
      rw [hlast, Fin.val_last] at hlen
      omega
    have hroom : (s.byteId.castPred hlast).succ.val + ps.length ≤ 4 := by
      rw [Fin.val_succ, Fin.coe_castPred]
      omega
    rw [fill, hbyte]
    dsimp only
    rw [store_some, dif_neg hlast]
    dsimp only
    rw [ih (fun part' hmem => hoctet part' (List.mem_cons_of_mem _ hmem)) hroom]
    exact congrArg (Prod.mk true) (filled_cons (Fin.coe_castPred _ hlast) hbyte)

/-! ## Which strings have one address -/

/-- **A string has one address** exactly when it has four parts or is rejected because of one of them. -/
theorem determined_iff (str : List Char) : Determined str ↔ Full str := by
  by_cases hreject : (∃ part ∈ parts str, octet part = none) ∨ 4 < (parts str).length
  · -- whatever the destination holds, the string is rejected
    have hfalse : ∀ addr, (inetAton str addr).1 = false := by
      intro addr
      rw [inetAton_eq]
      exact fill_rejects (hreject.imp_right fun h => by simpa using h)
    refine iff_of_true ⟨⟨inaddrNone, fun addr hacc => ?_⟩, inaddrNone, fun stack => ?_⟩ ?_
    · rw [hfalse] at hacc
      cases hacc
    · simp [inetAddr, hfalse]
    · exact hreject.symm.imp_left Nat.le_of_lt
  · rw [not_or] at hreject
    obtain ⟨hoctet, hlen⟩ := hreject
    have haton : ∀ addr, inetAton str addr = (true, filled 0 (parts str) addr) := by
      intro addr
      rw [inetAton_eq, fill_bytes (fun part hmem hnone => hoctet ⟨part, hmem, hnone⟩) (by simpa using hlen)]
      rfl
    by_cases hfull : 4 ≤ (parts str).length
    · -- all four bytes are stored
      have hall : ∀ addr, inetAton str addr = (true, fun i : Fin 4 => byteAt (parts str) i) := by
        intro addr
        rw [haton]
        exact Prod.ext rfl (funext fun i => if_pos ⟨Nat.zero_le _, by omega⟩)
      refine iff_of_true ⟨⟨_, fun addr _ => by rw [hall]⟩, fun i => byteAt (parts str) i, fun stack => ?_⟩
        (.inl hfull)
      simp [inetAddr, hall]
    · -- the last byte is that of the destination
      refine iff_of_false (fun hdet => ?_) fun h => h.elim hfull hoctet
      obtain ⟨⟨a, ha⟩, -⟩ := hdet
      have hold : ∀ addr : InAddr, a 3 = addr 3 := by
        intro addr
        rw [← ha addr (by rw [haton]), haton]
        exact if_neg fun h => hfull (Nat.zero_add (parts str).length ▸ h.2)
      exact absurd ((hold fun _ => 0).symm.trans (hold fun _ => 1)) (by decide)

/-! ## What is printed is read back -/

/-- The text of an address. -/
def dotted (a : InAddr) : List Char :=
  numeral 10 (a 0).toNat ++ ('.' :: (numeral 10 (a 1).toNat ++ ('.' :: (numeral 10 (a 2).toNat ++
    ('.' :: numeral 10 (a 3).toNat)))))

/-- A numeral has no dots and no null characters. -/
theorem numeral_plain {n : Nat} (hmem : ch ∈ numeral 10 n) : ch ≠ '.' ∧ ch ≠ '\x00' := by
  have hdigits : Printf.Digits 10 (numeral 10 n) := Printf.digits_numeral (by decide) (by decide) n
  have hdigit := isDigit_ten.mp (hdigits.all ch hmem)
  constructor
  · rintro rfl
    exact absurd hdigit (by decide)
  · rintro rfl
    exact absurd hdigit (by decide)

theorem parts_numeral (n : Nat) : parts (numeral 10 n) = [numeral 10 n] :=
  List.splitOnP_eq_singleton fun _ hmem => beq_eq_false_iff_ne.mpr (numeral_plain hmem).1

theorem parts_numeral_dot (n : Nat) (str : List Char) :
    parts (numeral 10 n ++ '.' :: str) = numeral 10 n :: parts str :=
  List.splitOnP_append_cons_of_forall_mem (fun _ hmem => beq_eq_false_iff_ne.mpr (numeral_plain hmem).1) '.'
    rfl str

theorem parts_dotted (a : InAddr) : parts (dotted a) = [numeral 10 (a 0).toNat, numeral 10 (a 1).toNat,
    numeral 10 (a 2).toNat, numeral 10 (a 3).toNat] := by
  unfold dotted
  rw [parts_numeral_dot, parts_numeral_dot, parts_numeral_dot, parts_numeral]

theorem octet_byte (b : UInt8) : octet (numeral 10 b.toNat) = some b.toNat :=
  octet_numeral (Nat.le_of_lt_succ b.toNat_lt)

/-- The text of an address is read back. -/
theorem inetAton_dotted (a addr : InAddr) : inetAton (dotted a) addr = (true, a) := by
  rw [inetAton_eq, parts_dotted, fill_bytes _ le_rfl]
  · refine Prod.ext rfl (funext fun i => ?_)
    fin_cases i <;> simp [filled, byteAt, octet_byte]
  · intro part hmem
    simp only [List.mem_cons, List.not_mem_nil, or_false] at hmem
    rcases hmem with rfl | rfl | rfl | rfl <;> simp [octet_byte]

/-- A text in the buffer is its string, when a null character follows. -/
theorem cString_eq {buf : Nat → Char} {t : List Char} (hlen : t.length < 32)
    (ht : (List.range t.length).map buf = t) (hnull : buf t.length = '\x00')
    (hplain : ∀ ch ∈ t, ch ≠ '\x00') :
    cString buf = t := by
  obtain ⟨k, hk⟩ : ∃ k, 32 = t.length + (k + 1) := ⟨31 - t.length, by omega⟩
  unfold cString
  rw [hk, List.range_add, List.map_append, ht, List.takeWhile_append_of_pos, List.range_succ_eq_map,
    List.map_cons, List.map_cons, Nat.add_zero, hnull, List.takeWhile_cons_of_neg, List.append_nil]
  · decide
  · exact fun ch hmem => bne_iff_ne.mpr (hplain ch hmem)

/-- The conversions of `inet_ntoa`. -/
def ntoaItems (a : InAddr) : List Scanf.Item :=
  [⟨'u', (a 0).toNat, ['.']⟩, ⟨'u', (a 1).toNat, ['.']⟩, ⟨'u', (a 2).toNat, ['.']⟩, ⟨'u', (a 3).toNat, []⟩]

/-- What `%u` prints for a byte. -/
theorem numberText_byte (A : Arch) (b : UInt8) (lit : List Char) :
    Printf.numberText (Printf.bare 'u') (Scanf.printed A ⟨'u', b.toNat, lit⟩) = numeral 10 b.toNat := by
  have hlt : (b.toNat : Int) < 2 ^ 32 := by
    have := b.toNat_lt
    omega
  have hprinted : Scanf.printed A ⟨'u', b.toNat, lit⟩ = b.toNat :=
    Printf.toUnsigned_of_range (Int.natCast_nonneg _) hlt
  have htext := Scanf.numberText_bare A ⟨'u', b.toNat, lit⟩
  rw [hprinted] at htext ⊢
  rw [htext, Scanf.signText, if_neg (by omega)]
  rfl

theorem textOf_ntoaItems (A : Arch) (a : InAddr) : Scanf.textOf A (ntoaItems a) = dotted a := by
  simp only [ntoaItems, Scanf.textOf, numberText_byte, List.append_nil]
  rfl

theorem dotted_length (a : InAddr) : (dotted a).length ≤ 15 := by
  have hbyte : ∀ b : UInt8, (numeral 10 b.toNat).length ≤ 3 := fun b =>
    Printf.numeral_length (by decide) (by decide) (Nat.lt_trans b.toNat_lt (by decide))
  have h₀ := hbyte (a 0)
  have h₁ := hbyte (a 1)
  have h₂ := hbyte (a 2)
  have h₃ := hbyte (a 3)
  simp only [dotted, List.length_append, List.length_cons]
  omega

theorem dotted_plain (a : InAddr) (hmem : ch ∈ dotted a) : ch ≠ '\x00' := by
  simp only [dotted, List.mem_append, List.mem_cons] at hmem
  rcases hmem with h | rfl | h | rfl | h | rfl | h
  · exact (numeral_plain h).2
  · decide
  · exact (numeral_plain h).2
  · decide
  · exact (numeral_plain h).2
  · decide
  · exact (numeral_plain h).2

/-- **`inet_ntoa`** returns the buffer that is next, with the text of the address. -/
theorem inetNtoa_eq (A : Arch) (s : Ntoa) (a : InAddr) :
    ∃ s', inetNtoa A s a = .ok (s', s.id) ∧ cString (s'.strings s.id) = dotted a := by
  have hlen := dotted_length a
  have hf : Printf.formatted A "%u.%u.%u.%u".toList (Scanf.argsOf (ntoaItems a)) =
      .ok (dotted a, (dotted a).length) := by
    have hconv : ∀ it ∈ ntoaItems a, it.conv ∈ ['d', 'i', 'u', 'o', 'x'] := by simp [ntoaItems]
    have hlit : ∀ it ∈ ntoaItems a, Scanf.Plain it.lit := by simp [ntoaItems, Scanf.Plain]
    have hitems := Scanf.formatFrom_items (A := A) hconv hlit (s := .zero) (t := [])
    rw [List.nil_append, textOf_ntoaItems, Nat.mod_eq_of_lt (by omega)] at hitems
    exact hitems
  obtain ⟨-, str, hstr, hnull, htext⟩ := Printf.vsnprintf_formatted hf (s.strings s.id) (by decide : 0 < 32)
    (by decide)
  have hret : Printf.returned (dotted a).length = (dotted a).length := if_neg (by omega)
  rw [hret, Nat.min_eq_left (by omega)] at hnull htext
  have hstored := htext.stored_eq (by omega) (by decide : 32 < 2 ^ 32)
  unfold Printf.stored at hstored
  rw [Nat.min_eq_left (by omega)] at hstored
  refine ⟨_, Lib.bind_eq_ok.mpr ⟨_, hstr, rfl⟩, ?_⟩
  dsimp only
  rw [Function.update_self]
  -- the last character of the buffer is behind the text
  refine cString_eq (by omega) ?_ ?_ fun ch => dotted_plain a
  · rw [← hstored, List.length_map, List.length_range]
    refine List.map_congr_left fun i hi => Function.update_of_ne ?_ _ _
    have := List.mem_range.mp hi
    omega
  · rw [Function.update_of_ne (by omega), hnull]

/-- **Addresses as text.**  What `inet_ntoa` prints for an address is read back as that address, and a string
has one address exactly when it has four parts or is rejected because of one of them. -/
theorem inetText_iff (A : Arch) (s : Ntoa) (a addr : InAddr) (str : List Char) :
    (∃ s' k, inetNtoa A s a = .ok (s', k) ∧ inetAton (cString (s'.strings k)) addr = (true, a)) ∧
      (Determined str ↔ Full str) := by
  obtain ⟨s', hs', htext⟩ := inetNtoa_eq A s a
  exact ⟨⟨s', s.id, hs', by rw [htext, inetAton_dotted]⟩, determined_iff str⟩

/-- The string `10` keeps three bytes of the destination. -/
theorem ten_not_determined : ¬ Determined ['1', '0'] := by
  rintro ⟨⟨a, ha⟩, -⟩
  have h₀ := congrFun (ha (fun _ => 0) rfl) 3
  have h₁ := congrFun (ha (fun _ => 1) rfl) 3
  exact absurd (h₀.trans h₁.symm) (by decide)

end Inet
end Wrmos
