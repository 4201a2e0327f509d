import Wrmos.Scanf
import Wrmos.StrtoulSpec
import Wrmos.PrintfLong
import Wrmos.PrintfInt

/-!
# Scanning undoes printing

A format of plain integer conversions with other text between them is a list of items, each a conversion, its
argument and the text behind it.  What `vsnprintf` prints for it is `textOf`, and `vsscanf` takes that text
apart again (`scan_printed`): no text begins with a digit or a letter, so `strtoul` stops where the numeral
ends, and the `x` of a prefix never follows a zero.
-/

namespace Wrmos
namespace Scanf

open Lib (digitVal isDigit value ensure_bind_of ok_bind)
open Printf (Arg IsSigned IsUnsigned OfType bare baseOf bmod_of_range convBase fetched formatted formatFrom
  numberText numeral stored toUnsigned_lt vaSigned vaUnsigned vsnprintf)
open Strtoul (deref isX strtoul ulongMax)

variable {A : Arch} {mem : Nat → Char} {str format rest : List Char} {ptr : Nat} {ch : Char} {r : Run}

/-! ## Formats -/

/-- A conversion, its argument and the text behind it. -/
structure Item where
  conv : Char
  value : Int
  lit : List Char

/-- The format of items. -/
def formatOf : List Item → List Char
  | [] => []
  | it :: items => '%' :: it.conv :: (it.lit ++ formatOf items)

/-- The arguments of items. -/
def argsOf (items : List Item) : List Arg := items.map fun it => .int it.value

/-- The value that is printed for an item: that of the 32 bits of the argument. -/
def printed (A : Arch) (it : Item) : Int := fetched A (bare it.conv) it.value

/-- The text of items. -/
def textOf (A : Arch) : List Item → List Char
  | [] => []
  | it :: items => numberText (bare it.conv) (printed A it) ++ (it.lit ++ textOf A items)

/-- A text without line feeds, percent signs and null characters. -/
def Plain (l : List Char) : Prop := ∀ ch ∈ l, ch ≠ '\n' ∧ ch ≠ '%' ∧ ch ≠ '\x00'

/-- **The formats**: plain conversions of integers with a text between any two of them that begins with no
digit and no letter. -/
structure Printable (lead : List Char) (items : List Item) : Prop where
  conv : ∀ it ∈ items, it.conv ∈ ['d', 'i', 'u', 'o', 'x']
  lead : Plain lead
  lit : ∀ it ∈ items, Plain it.lit
  first : ∀ it ∈ items, ∀ ch ∈ it.lit.head?, digitVal ch = none
  separated : ∀ it ∈ items.dropLast, it.lit ≠ []

variable {lead : List Char} {items : List Item} {it : Item}

/-! ## Printing -/

theorem kinds (h : it.conv ∈ ['d', 'i', 'u', 'o', 'x']) :
    IsSigned (bare it.conv) ∨ IsUnsigned (bare it.conv) := by
  simp only [List.mem_cons, List.not_mem_nil, or_false] at h
  rcases h with h | h | h | h | h
  · exact .inl (.inl h)
  · exact .inl (.inr h)
  · exact .inr (.inl h)
  · exact .inr (.inr (.inl h))
  · exact .inr (.inr (.inr h))

/-- The sign of a printed value. -/
def signText (v : Int) : List Char := if v < 0 then ['-'] else []

theorem printed_range (A : Arch) (it : Item) : -2 ^ 31 ≤ printed A it ∧ printed A it < 2 ^ 32 ∧
    (IsSigned (bare it.conv) → printed A it < 2 ^ 31) ∧ (¬ IsSigned (bare it.conv) → 0 ≤ printed A it) := by
  unfold printed fetched
  by_cases hs : IsSigned (bare it.conv)
  · rw [if_pos hs]
    have hlo := Int.le_bmod (x := it.value) (m := 2 ^ 32) (by decide)
    have hhi := Int.bmod_lt (x := it.value) (m := 2 ^ 32) (by decide)
    have heq : vaSigned A (bare it.conv).length it.value = Int.bmod it.value (2 ^ 32) := rfl
    rw [heq]
    exact ⟨by omega, by omega, fun _ => by omega, fun h => absurd hs h⟩
  · rw [if_neg hs]
    have heq : vaUnsigned A (bare it.conv).length it.value = Printf.toUnsigned 32 it.value := rfl
    have hlt := toUnsigned_lt 32 it.value
    rw [heq]
    exact ⟨by omega, by omega, fun h => absurd h hs, fun _ => by omega⟩

theorem numberText_bare (A : Arch) (it : Item) : numberText (bare it.conv) (printed A it) =
    signText (printed A it) ++ numeral (convBase (bare it.conv)) (printed A it).natAbs := by
  obtain ⟨-, -, -, hnn⟩ := printed_range A it
  unfold numberText signText
  rw [Printf.intText_bare]
  by_cases hneg : printed A it < 0
  · have hs : IsSigned (bare it.conv) := by
      by_contra hs
      exact absurd (hnn hs) (by omega)
    have hbase : convBase (bare it.conv) = 10 := if_pos hs
    rw [if_pos ⟨hbase, decide_eq_false (by omega)⟩, if_pos hneg]
  · have hpos : decide (0 ≤ printed A it) = true := decide_eq_true (by omega)
    rw [hpos, if_neg fun h => Bool.noConfusion h.2, if_neg hneg]

theorem numberText_length (A : Arch) (it : Item) :
    (numberText (bare it.conv) (printed A it)).length < 2 ^ 31 := by
  obtain ⟨hlo, hhi, -, -⟩ := printed_range A it
  have hbase := (Printf.convBase_range (bare it.conv)).1
  have hpow : (2 : Nat) ^ 32 ≤ convBase (bare it.conv) ^ 32 := Nat.pow_le_pow_left hbase 32
  have hnum := Printf.numeral_length (n := 32) hbase (by decide) (show (printed A it).natAbs < _ by omega)
  have hsign : (signText (printed A it)).length ≤ 1 := by
    unfold signText
    split_ifs
    · exact le_rfl
    · exact Nat.zero_le _
  rw [numberText_bare, List.length_append]
  omega

theorem Plain.literal {l : List Char} (h : Plain l) : l.flatMap Printf.literalText = l := by
  induction l with
  | nil => rfl
  | cons ch l ih =>
    have hch : Printf.literalText ch = [ch] := if_neg (h ch List.mem_cons_self).1
    rw [List.flatMap_cons, hch, ih fun c hc => h c (List.mem_cons_of_mem _ hc)]
    rfl

theorem parseFlags_conv (args : List Arg) (h : it.conv ∈ ['d', 'i', 'u', 'o', 'x']) :
    it.conv ≠ '\x00' ∧ Printf.parseFlags .zero args it.conv = .ok (.done (bare it.conv) args) := by
  simp only [List.mem_cons, List.not_mem_nil, or_false] at h
  rcases h with h | h | h | h | h
  · exact h ▸ ⟨by decide, rfl⟩
  · exact h ▸ ⟨by decide, rfl⟩
  · exact h ▸ ⟨by decide, rfl⟩
  · exact h ▸ ⟨by decide, rfl⟩
  · exact h ▸ ⟨by decide, rfl⟩

/-- **The text of items** is what is printed. -/
theorem formatFrom_items (hconv : ∀ it ∈ items, it.conv ∈ ['d', 'i', 'u', 'o', 'x'])
    (hlit : ∀ it ∈ items, Plain it.lit) : ∀ {s : Printf.Spec} {t : List Char},
    formatFrom A (formatOf items) .none s (argsOf items) t =
      .ok (t ++ textOf A items, (t ++ textOf A items).length % 2 ^ 32) := by
  induction items with
  | nil =>
    intro s t
    unfold textOf
    rw [List.append_nil]
    rfl
  | cons it items ih =>
    intro s t
    have hmem : it ∈ it :: items := List.mem_cons_self
    have hplain := hlit it hmem
    obtain ⟨hnull, hparse⟩ := parseFlags_conv (argsOf (it :: items)) (hconv it hmem)
    have hspec := Printf.specText_numberText (A := A) (v := it.value) (kinds (hconv it hmem)) (argsOf items)
    have hrest := ih (fun it' h => hconv it' (List.mem_cons_of_mem _ h))
      (fun it' h => hlit it' (List.mem_cons_of_mem _ h)) (s := bare it.conv)
      (t := t ++ numberText (bare it.conv) (printed A it) ++ it.lit)
    unfold formatOf textOf
    rw [Printf.formatFrom_bare hnull hparse hspec (numberText_length A it),
      Printf.formatFrom_literal fun ch hch => ⟨(hplain ch hch).2.2, (hplain ch hch).2.1⟩, hplain.literal]
    simp only [List.append_assoc] at hrest ⊢
    exact hrest

/-! ## Scanning -/

/-- Where the input goes on with the text of the format, the scan moves over it. -/
theorem loop_literal (mem : Nat → Char) (format : List Char) {l : List Char} (hl : Plain l)
    (hlen : str.length < 2 ^ 31) :
    ∀ {r : Run}, r.parse = .none → str.drop r.strPtr = l ++ rest →
    loop A mem str (l ++ format) r = loop A mem str format { r with strPtr := r.strPtr + l.length } ∧
      str.drop (r.strPtr + l.length) = rest := by
  induction l with
  | nil => exact fun _ hdrop => ⟨rfl, hdrop⟩
  | cons ch l ih =>
    intro r hparse hdrop
    obtain ⟨-, hpercent, hnull⟩ := hl ch List.mem_cons_self
    have hlt : r.strPtr < str.length := by
      by_contra hge
      rw [List.drop_of_length_le (Nat.not_lt.mp hge)] at hdrop
      cases hdrop
    have hhead : deref (str.drop r.strPtr) = ch := by
      rw [hdrop]
      rfl
    have htail : str.drop (r.strPtr + 1) = l ++ rest := by
      rw [← List.drop_drop, hdrop]
      rfl
    have hnext := ih (fun c hc => hl c (List.mem_cons_of_mem _ hc)) (r := { r with strPtr := r.strPtr + 1 })
      hparse htail
    dsimp only at hnext
    rw [Nat.add_right_comm, Nat.add_assoc] at hnext
    refine ⟨?_, hnext.2⟩
    rw [List.cons_append, loop, if_neg hnull, if_pos hparse, if_neg hpercent, ensure_bind_of hlt.le, hhead,
      if_neg (not_not_intro rfl), Nat.mod_eq_of_lt (by omega)]
    exact hnext.1

/-- What follows a numeral: nothing, or no digit and no letter. -/
def Stops (rest : List Char) : Prop := ∀ ch ∈ rest.head?, digitVal ch = none

theorem Stops.head {base : Nat} (h : Stops rest) :
    ∀ ch ∈ rest.head?, isDigit base ch = false ∧ isX ch = false := by
  intro ch hch
  have hnone := h ch hch
  refine ⟨?_, ?_⟩
  · unfold isDigit
    rw [hnone]
    rfl
  · by_contra hx
    rw [Bool.not_eq_false] at hx
    have hx' : ch = 'x' ∨ ch = 'X' := by simpa [isX] using hx
    rcases hx' with rfl | rfl
    · exact absurd hnone (by decide)
    · exact absurd hnone (by decide)

/-- The value that `strtoul` gives for a printed one. -/
def scanned (A : Arch) (v : Int) :
    Nat := if v < 0 then (2 ^ A.wordBits - v.natAbs) % 2 ^ A.wordBits else v.natAbs

/-- **A printed number is read** up to its end. -/
theorem strtoul_printed (A : Arch) (it : Item) (hrest : Stops rest) :
    strtoul A (numberText (bare it.conv) (printed A it) ++ rest) (convBase (bare it.conv)) =
      (scanned A (printed A it), (numberText (bare it.conv) (printed A it)).length) := by
  obtain ⟨hbase, h16⟩ := Printf.convBase_range (bare it.conv)
  obtain ⟨hlo, hhi, -, -⟩ := printed_range A it
  have hdigits := Printf.digits_numeral hbase h16 (printed A it).natAbs
  have hvalue := Printf.value_numeral hbase h16 (printed A it).natAbs
  have hfits : (printed A it).natAbs ≤ ulongMax A := by
    unfold ulongMax
    rcases Printf.wordBits_cases A with h | h
    · rw [h]
      omega
    · rw [h]
      omega
  have hsgn : signText (printed A it) = [] ∨ signText (printed A it) = ['-'] := by
    unfold signText
    split_ifs
    · exact .inr rfl
    · exact .inl rfl
  rw [numberText_bare, List.append_assoc, Strtoul.strtoul_numeral A hbase h16 hdigits.ne_nil hdigits.all hsgn
    hrest.head (by rw [hvalue]; exact hfits), hvalue, List.length_append]
  unfold signText scanned
  split_ifs with hneg hchar hchar
  · rfl
  · exact absurd rfl hchar
  · cases hchar
  · rfl

/-- **A value is stored** as it was printed. -/
theorem store_scanned (A : Arch) (it : Item) :
    (IsSigned (bare it.conv) → storeSigned A .none (scanned A (printed A it)) = printed A it) ∧
      (¬ IsSigned (bare it.conv) → storeUnsigned A .none (scanned A (printed A it)) = printed A it) := by
  obtain ⟨hlo, hhi, hint, hnn⟩ := printed_range A it
  have hcast : ((2 ^ 32 : Nat) : Int) = 2 ^ 32 := by norm_num
  constructor
  · intro hs
    have hlt := hint hs
    have heq : ∀ {n : Nat}, storeSigned A .none n = Int.bmod n (2 ^ 32) := rfl
    rw [heq]
    unfold scanned
    rw [Int.bmod_def, hcast]
    rcases Printf.wordBits_cases A with h | h
    · rw [h]
      split_ifs <;> omega
    · rw [h]
      split_ifs <;> omega
  · intro hs
    have h0 := hnn hs
    have heq : ∀ {n : Nat}, storeUnsigned A .none n = (n % 2 ^ 32 : Nat) := rfl
    rw [heq]
    unfold scanned
    rw [if_neg (by omega)]
    omega

/-- A conversion takes the text that was printed for it. -/
theorem vsscanSpec_printed (mem : Nat → Char) (hconv : it.conv ∈ ['d', 'i', 'u', 'o', 'x'])
    (hptr : ptr ≤ str.length)
    (hdrop : str.drop ptr = numberText (bare it.conv) (printed A it) ++ rest) (hrest : Stops rest) :
    vsscanSpec A mem str ptr (bare it.conv) =
      .ok ((numberText (bare it.conv) (printed A it)).length, some (.int (printed A it))) := by
  have hread := strtoul_printed A it hrest
  obtain ⟨hsigned, hunsigned⟩ := store_scanned A it
  have hwidth : hasWidth (bare it.conv) = false := by
    show (Printf.specifierPresent &&& Printf.widthPresent != 0) = false
    decide
  have hsource : source (str.drop ptr) (bare it.conv) = numberText (bare it.conv) (printed A it) ++ rest := by
    unfold source
    rw [if_neg (by rw [hwidth]; exact Bool.false_ne_true), hdrop]
  have hmod : Int.bmod (numberText (bare it.conv) (printed A it)).length (2 ^ 32) =
      (numberText (bare it.conv) (printed A it)).length :=
    bmod_of_range (n := 32) (by decide) (by omega) (by have := numberText_length A it; omega)
  have hcopy : hasWidth (bare it.conv) = true ∧ 0 < (bare it.conv).width → ptr ≤ str.length := fun _ => hptr
  have hdirect : hasWidth (bare it.conv) = false → ptr ≤ str.length := fun _ => hptr
  unfold vsscanSpec
  rw [if_neg fun h => Bool.noConfusion (hwidth.symm.trans h.1), ensure_bind_of hcopy]
  dsimp only
  rw [hsource]
  by_cases hs : IsSigned (bare it.conv)
  · have hbase : convBase (bare it.conv) = 10 := if_pos hs
    rw [hbase] at hread
    have hd : (bare it.conv).specifier = 'd' ∨ (bare it.conv).specifier = 'i' := hs
    rw [if_pos hd, ensure_bind_of hdirect, hread, hmod]
    show Except.ok (_, some (Stored.int (storeSigned A .none _))) = _
    rw [hsigned hs]
  · have hbase : convBase (bare it.conv) = baseOf it.conv := if_neg hs
    rw [hbase] at hread
    have hd : ¬ ((bare it.conv).specifier = 'd' ∨ (bare it.conv).specifier = 'i') := hs
    have hu : (bare it.conv).specifier = 'u' ∨ (bare it.conv).specifier = 'o' ∨
        (bare it.conv).specifier = 'x' ∨ (bare it.conv).specifier = 'X' := by
      rcases (kinds hconv).resolve_left hs with h | h | h
      · exact .inl h
      · exact .inr (.inl h)
      · exact .inr (.inr (.inl h))
    have hspecifier : (bare it.conv).specifier = it.conv := rfl
    rw [if_neg hd, if_pos hu, ensure_bind_of hdirect, hspecifier, hread, hmod]
    show Except.ok (_, some (Stored.int (storeUnsigned A .none _))) = _
    rw [hunsigned hs]

theorem parseSpec_conv (h : it.conv ∈ ['d', 'i', 'u', 'o', 'x']) :
    it.conv ≠ '\x00' ∧ parseSpec .widthDigits .zero it.conv = .done (bare it.conv) [] := by
  simp only [List.mem_cons, List.not_mem_nil, or_false] at h
  rcases h with h | h | h | h | h
  · exact h ▸ ⟨by decide, rfl⟩
  · exact h ▸ ⟨by decide, rfl⟩
  · exact h ▸ ⟨by decide, rfl⟩
  · exact h ▸ ⟨by decide, rfl⟩
  · exact h ▸ ⟨by decide, rfl⟩

/-- What follows the numeral of an item. -/
theorem Printable.stops (h : Printable lead (it :: items)) : Stops (it.lit ++ textOf A items) := by
  intro ch hch
  by_cases hnil : it.lit = []
  · -- only the last item may have no text behind it
    cases items with
    | nil =>
      rw [hnil] at hch
      cases hch
    | cons it' items => exact absurd hnil (h.separated it List.mem_cons_self)
  · rw [List.head?_append_of_ne_nil _ hnil] at hch
    exact h.first it List.mem_cons_self ch hch

theorem Printable.tail (h : Printable lead (it :: items)) : Printable lead items where
  conv it' hmem := h.conv it' (List.mem_cons_of_mem _ hmem)
  lead := h.lead
  lit it' hmem := h.lit it' (List.mem_cons_of_mem _ hmem)
  first it' hmem := h.first it' (List.mem_cons_of_mem _ hmem)
  separated it' hmem := by
    cases items with
    | nil => cases hmem
    | cons it₂ items => exact h.separated it' (List.mem_cons_of_mem _ hmem)

/-- **Scanning** takes the text of items apart. -/
theorem loop_items (mem : Nat → Char) (hlen : str.length < 2 ^ 31) :
    ∀ {items : List Item} {r : Run}, Printable lead items →
    r.parse = .none → r.strPtr ≤ str.length → str.drop r.strPtr = textOf A items →
    loop A mem str (formatOf items) r =
      .ok ((r.scannedCnt + items.length : Nat), r.out ++ items.map fun it => .int (printed A it)) := by
  intro items
  induction items with
  | nil =>
    intro r _ _ _ _
    unfold formatOf loop
    rw [List.map_nil, List.append_nil]
    rfl
  | cons it items ih =>
    intro r h hparse hptr hdrop
    have hmem : it ∈ it :: items := List.mem_cons_self
    obtain ⟨hnull, hspec⟩ := parseSpec_conv (h.conv it hmem)
    have htext : textOf A (it :: items) =
        numberText (bare it.conv) (printed A it) ++ (it.lit ++ textOf A items) := rfl
    rw [htext] at hdrop
    have hconv := vsscanSpec_printed mem (h.conv it hmem) hptr hdrop h.stops
    generalize numberText (bare it.conv) (printed A it) = num at hdrop hconv
    -- behind the numeral comes the text of the item
    have hbehind : str.drop (r.strPtr + num.length) = it.lit ++ textOf A items := by
      rw [← List.drop_drop, hdrop, List.drop_left]
    have hlength := congrArg List.length hdrop
    rw [List.length_append, List.length_append, List.length_drop] at hlength
    have hmod : (r.strPtr + num.length) % 2 ^ 32 = r.strPtr + num.length := Nat.mod_eq_of_lt (by omega)
    obtain ⟨hlit, hdone⟩ := loop_literal (A := A) mem (formatOf items) (h.lit it hmem) hlen
      (r := ⟨.none, bare it.conv, r.strPtr + num.length, r.scannedCnt + 1, r.out ++ [.int (printed A it)]⟩)
      rfl hbehind
    dsimp only at hlit hdone
    have hrest := ih (r := ⟨.none, bare it.conv, r.strPtr + num.length + it.lit.length, r.scannedCnt + 1,
      r.out ++ [.int (printed A it)]⟩) h.tail rfl (by dsimp only; omega) hdone
    dsimp only at hrest
    have hloop : loop A mem str (formatOf (it :: items)) r = loop A mem str (it.lit ++ formatOf items)
        ⟨.none, bare it.conv, r.strPtr + num.length, r.scannedCnt + 1, r.out ++ [.int (printed A it)]⟩ := by
      have hpos : ¬ ((num.length : Nat) : Int) < 0 := by omega
      rw [formatOf, loop, if_neg (by decide), if_pos hparse, if_pos rfl, loop, if_neg hnull, if_neg nofun]
      dsimp only
      rw [hspec]
      dsimp only
      rw [hconv, ok_bind]
      dsimp only
      rw [if_neg hpos, Int.toNat_natCast, hmod]
      rfl
    rw [hloop, hlit, hrest, List.append_assoc, List.length_cons]
    simp only [Nat.add_assoc, Nat.add_comm 1]
    rfl

/-- **Scanning undoes printing**: `vsscanf` on the text that `vsnprintf` prints returns the number of
conversions, and stores what was printed, which is the argument when it belongs to the type. -/
theorem scan_printed (A : Arch) (mem buf : Nat → Char) {sz : Nat} (h : Printable lead items)
    (hfits : (lead ++ textOf A items).length < sz) (hint : (lead ++ textOf A items).length < 2 ^ 31)
    (hsz : sz < 2 ^ 32) :
    ∃ b, vsnprintf A buf sz (lead ++ formatOf items) (argsOf items) =
        .ok (b, (lead ++ textOf A items).length) ∧
      vsscanf A mem (stored b (lead ++ textOf A items).length sz) (lead ++ formatOf items) =
        .ok (items.length, items.map fun it => .int (printed A it)) ∧
      ∀ it ∈ items, OfType A (bare it.conv) it.value → printed A it = it.value := by
  have hf : formatted A (lead ++ formatOf items) (argsOf items) =
      .ok (lead ++ textOf A items, (lead ++ textOf A items).length) := by
    unfold formatted
    rw [Printf.formatFrom_literal fun ch hch => ⟨(h.lead ch hch).2.2, (h.lead ch hch).2.1⟩, h.lead.literal,
      List.nil_append, formatFrom_items h.conv h.lit, Nat.mod_eq_of_lt (by omega)]
  obtain ⟨-, b, hb, -, htext⟩ := Printf.vsnprintf_formatted hf buf (by omega : 0 < sz) hsz
  have hret : Printf.returned (lead ++ textOf A items).length = (lead ++ textOf A items).length :=
    if_neg (Nat.not_le.mpr hint)
  rw [hret] at hb htext
  rw [Nat.min_eq_left (by omega)] at htext
  refine ⟨b, hb, ?_, fun it _ htype => ?_⟩
  · rw [htext.stored_eq hfits hsz]
    obtain ⟨hlit, hdrop⟩ := loop_literal (A := A) mem (formatOf items) h.lead hint
      (r := ⟨.none, .zero, 0, 0, []⟩) rfl (List.drop_zero : _ = lead ++ textOf A items)
    dsimp only at hlit hdrop
    rw [Nat.zero_add] at hlit hdrop
    have hle : lead.length ≤ (lead ++ textOf A items).length := by
      rw [List.length_append]
      omega
    have hitems := loop_items mem hint (r := ⟨.none, .zero, lead.length, 0, []⟩) h rfl hle hdrop
    dsimp only at hitems
    rw [Nat.zero_add, List.nil_append] at hitems
    exact hlit.trans hitems
  · have hwhole : Printf.Whole A (bare it.conv) it.value := by
      unfold Printf.Whole
      split_ifs
      · intro hmasked
        rcases hmasked with hm | hm | hm
        · cases hm
        · cases hm
        · cases hm.1
      · intro hm
        cases hm.1
    rcases Printf.fetched_cases htype with ⟨-, hsame⟩ | ⟨hnot, -⟩
    · exact hsame
    · exact absurd hwhole hnot

/-- A negative number, and the largest `unsigned` as a hexadecimal number. -/
theorem scan_pair : ∃ b, vsnprintf .x86 (fun _ => ' ') 64 "[%d, %x]".toList [.int (-7), .int 0xffffffff] =
      .ok (b, 14) ∧
    vsscanf .x86 (fun _ => ' ') (stored b 14 64) "[%d, %x]".toList =
      .ok (2, [.int (-7), .int 0xffffffff]) := by
  have hprintable : Printable ['['] [⟨'d', -7, [',', ' ']⟩, ⟨'x', 0xffffffff, [']']⟩] := by
    refine ⟨?_, ?_, ?_, ?_, ?_⟩
    · simp
    · simp [Plain]
    · simp [Plain]
    · simp [digitVal]
    · simp
  obtain ⟨b, hb, hscan, -⟩ := scan_printed .x86 (fun _ => ' ') (fun _ => ' ') hprintable
    (show _ < 64 by decide +kernel) (by decide +kernel) (by decide)
  exact ⟨b, hb, hscan⟩

end Scanf
end Wrmos
