import Wrmos.L4TypesSpec
import Wrmos.RegionSpec

/-!
# Named memory

`wrm_mem_get_named` of `lib/wrmos/src/mem.cpp` asks alpha for a memory of the configuration by its name.
The window to receive it in is a flexpage, at an address of the caller or, when this is `-1`, at `_iospace`,
a static variable that every such call moves on by the size of its window.

A flexpage must be naturally aligned, and nothing aligns `_iospace`: a window behind a smaller one need not
be a flexpage, and then the assertion behind it fails.  With sizes that are powers of two the windows are
good exactly when every size divides the address that its window comes to (`windows_sound_iff`).
-/

namespace Wrmos
namespace MemNamed

open Lib (ensure runAll bind_eq_ok ensure_bind_eq_ok)

/-- `Mem_name_len_max`. -/
def nameLenMax : Nat := 32

/-- `_iospace`, before the first call. -/
def iospaceStart : Nat := 0x71000000

/-- `Wrm_ipc_get_named_mem`. -/
def label : Nat := 5

/-- The arguments: the characters of the name, `*addr`, and `*size` if there is one. -/
structure Call where
  name : List UInt8
  addr : Nat
  size : Option Nat
  deriving DecidableEq, Repr

/-- What the exchange with alpha ends in: its return code, the sender, and the message registers. -/
structure Reply where
  rc : Nat
  sender : Nat
  mr : Nat → Nat

/-- What the call stores through its arguments. -/
structure Mapping where
  addr : Nat
  size : Nat
  paddr : Nat
  access : Nat
  cached : Nat
  contig : Nat
  deriving DecidableEq, Repr

section

variable (A : Arch)

/-- `-1`, as an `addr_t` or a `size_t`. -/
def minusOne : Nat := 2 ^ A.wordBits - 1

/-- `vspace_sz`. -/
def vspaceSz (size : Option Nat) : Nat :=
  Region.roundUp A ((size.filter (· ≠ minusOne A)).getD pageSz) pageSz

/-- `strlen(mem_name) + 1 > Mem_name_len_max`. -/
def Call.tooLong (c : Call) : Bool := nameLenMax < c.name.length + 1

/-- The call up to the acceptor: `_iospace`, and the flexpage if the name is accepted. -/
def window (iospace : Nat) (c : Call) : Except Stop (Nat × Option Nat) :=
  if c.tooLong then .ok (iospace, none)
  else do
    let sz := vspaceSz A c.size
    let auto := c.addr = minusOne A
    let fpage := Fpage.create A (if auto then iospace else c.addr / pageSz * pageSz) sz 0
    ensure (Fpage.isNil fpage = false) (.assertion "!vspace_fpage.is_nil()")
    pure (if auto then A.add iospace sz else iospace, some fpage)

/-- The test of the reply. -/
def wellFormed (alpha : Nat) (r : Reply) : Bool :=
  let tag := r.mr 0
  alpha == r.sender && Tag.ipcLabel A tag == label &&
    (Tag.untyped A tag == 1 && Tag.typed A tag == 0 ||
      Tag.untyped A tag == 4 && Tag.typed A tag == 2 && Item.isMap A (r.mr 5) && !Fpage.isNil (r.mr 6))

/-- The code for an error of alpha. -/
def errorCode : Nat → Int
  | 1 => -4
  | 2 => -5
  | 3 => -6
  | _ => -7

/-- The call behind the exchange with alpha. -/
def answer (alpha : Nat) (r : Reply) : Int × Option Mapping :=
  if r.rc ≠ 0 then (-2, none)
  else if wellFormed A alpha r = false then (-3, none)
  else if Tag.untyped A (r.mr 0) = 1 then (errorCode (r.mr 1), none)
  else
    (0, some {
      addr := Fpage.addr A (r.mr 6)
      size := Fpage.size A (r.mr 6)
      paddr := (r.mr 1 * 2 ^ 32 ||| r.mr 2) % 2 ^ 64
      access := Fpage.access (r.mr 6)
      cached := r.mr 3 % 2 ^ 32
      contig := r.mr 4 % 2 ^ 32 })

/-- `wrm_mem_get_named`: `_iospace`, the flexpage that was used, and the result. -/
def getNamed (alpha iospace : Nat) (c : Call) (r : Reply) :
    Except Stop (Nat × Option Nat × Int × Option Mapping) := do
  let w ← window A iospace c
  pure (w.1, w.2, if w.2.isSome then answer A alpha r else (-1, none))

/-- An application between two calls: `_iospace`, and the windows so far. -/
structure State where
  iospace : Nat
  windows : List Nat
  deriving DecidableEq, Repr

/-- The start. -/
def State.start : State := ⟨iospaceStart, []⟩

/-- A call, and how alpha answers. -/
def step (alpha : Nat) (s : State) (e : Call × Reply) : Except Stop State := do
  let r ← getNamed A alpha s.iospace e.1 e.2
  pure ⟨r.1, s.windows ++ r.2.1.toList⟩

/-! ## Windows -/

/-- A flexpage that can receive: naturally aligned and not nil. -/
def Receives (fpage : Nat) : Prop :=
  fpage ≠ Fpage.nil ∧ Fpage.Natural (Fpage.addr A fpage) (Fpage.size A fpage)

/-- Two flexpages without a common address. -/
def Apart (f g : Nat) : Prop :=
  Fpage.addr A f + Fpage.size A f ≤ Fpage.addr A g ∨ Fpage.addr A g + Fpage.size A g ≤ Fpage.addr A f

/-- Every call returns, and the windows are good. -/
def Sound (alpha : Nat) (s : State) (es : List (Call × Reply)) : Prop :=
  ∃ s', runAll (step A alpha) s es = .ok s' ∧ (∀ w ∈ s'.windows, Receives A w) ∧
    s'.windows.Pairwise (Apart A)

/-- The calls that get as far as a window. -/
def accepted (es : List (Call × Reply)) : List Call := (es.map Prod.fst).filter fun c => !c.tooLong

/-- The space that the windows take. -/
def extent (cs : List Call) : Nat := (cs.map fun c => vspaceSz A c.size).sum

/-- Every size divides the address of its window. -/
def Fits : Nat → List Call → Prop
  | _, [] => True
  | va, c :: cs => vspaceSz A c.size ∣ va ∧ Fits (va + vspaceSz A c.size) cs

/-- The size of a region is a power of two. -/
def Call.Regular (c : Call) : Prop :=
  ∀ n, c.size = some n → n ≠ minusOne A → ∃ k < A.wordBits, n = 2 ^ k

end

variable {A : Arch} {c : Call} {s : State} {alpha : Nat}

/-- The size of a window is a power of two and holds a page. -/
theorem Call.Regular.vspaceSz (h : c.Regular A) :
    ∃ k < A.wordBits, vspaceSz A c.size = 2 ^ k ∧ pageSz ≤ 2 ^ k := by
  have hbits : 32 ≤ A.wordBits := by cases A <;> decide
  obtain ⟨j, hj, hsize⟩ : ∃ j < A.wordBits, (c.size.filter (· ≠ minusOne A)).getD pageSz = 2 ^ j := by
    cases hfilter : c.size.filter (· ≠ minusOne A) with
    | none => exact ⟨12, by omega, rfl⟩
    | some n =>
      obtain ⟨hsome, hne⟩ := Option.filter_eq_some_iff.mp hfilter
      exact h n hsome (of_decide_eq_true hne)
  have hwrap : 2 ^ j + pageSz ≤ 2 ^ A.wordBits := by
    have hhalf : 2 ^ j ≤ 2 ^ (A.wordBits - 1) := Nat.pow_le_pow_right (by decide) (by omega)
    have hpage : 2 ^ 12 ≤ 2 ^ (A.wordBits - 1) := Nat.pow_le_pow_right (by decide) (by omega)
    have htwo : 2 ^ A.wordBits = 2 ^ (A.wordBits - 1) * 2 := by
      rw [← pow_succ, Nat.sub_add_cancel (by omega)]
    unfold pageSz
    omega
  obtain ⟨hlo, hhi⟩ := Region.roundUp_bounds (show 0 < pageSz by decide) hwrap
  have hdvd : pageSz ∣ Region.roundUp A (2 ^ j) pageSz := Nat.dvd_mul_left _ _
  unfold MemNamed.vspaceSz
  rw [hsize]
  by_cases hsmall : j < 12
  · have hlt : 2 ^ j < 2 ^ 12 := Nat.pow_lt_pow_right (by decide) hsmall
    have hpos := Nat.two_pow_pos j
    refine ⟨12, by omega, ?_, Nat.le_refl _⟩
    unfold pageSz at *
    omega
  · have hpage : pageSz ∣ 2 ^ j := Nat.pow_dvd_pow 2 (Nat.le_of_not_lt hsmall)
    refine ⟨j, hj, ?_, Nat.le_of_dvd (Nat.two_pow_pos j) hpage⟩
    unfold pageSz at *
    omega

/-- The flexpage of a window: it is the window, or nil when the window is not aligned. -/
theorem create_window (A : Arch) {va sz : Nat} (hva : va < 2 ^ A.wordBits) (hsz : sz < 2 ^ A.wordBits)
    (hpow : ∃ k, sz = 2 ^ k) (hpage : pageSz ≤ sz) :
    sz ∣ va ∧ Fpage.create A va sz 0 ≠ Fpage.nil ∧ Fpage.addr A (Fpage.create A va sz 0) = va ∧
        Fpage.size A (Fpage.create A va sz 0) = sz ∨
      ¬ sz ∣ va ∧ Fpage.create A va sz 0 = Fpage.nil := by
  have hcodes : Fpage.EncodesMem A 0 va sz 0 := Fpage.set_encodes hva hsz (by decide)
  rw [Fpage.create_eq_set hsz]
  by_cases hdvd : sz ∣ va
  · have hne := hcodes.takes ⟨hpow, hdvd⟩ hpage
    exact .inl ⟨hdvd, hne, hcodes.addr hne, hcodes.size hne⟩
  · exact .inr ⟨hdvd, hcodes.rejects fun h => hdvd h.2⟩

/-! ## Runs -/

/-- The windows so far are good, and `_iospace` is behind them. -/
structure Good (A : Arch) (s : State) : Prop where
  receives : ∀ w ∈ s.windows, Receives A w
  apart : s.windows.Pairwise (Apart A)
  below : ∀ w ∈ s.windows, Fpage.addr A w + Fpage.size A w ≤ s.iospace

theorem good_start : Good A .start := ⟨nofun, .nil, nofun⟩

/-- A call with a name that is too long changes nothing. -/
theorem step_tooLong {r : Reply} (h : c.tooLong = true) : step A alpha s (c, r) = .ok s := by
  unfold step getNamed window
  rw [if_pos h]
  show Except.ok (State.mk s.iospace (s.windows ++ [])) = _
  rw [List.append_nil]

/-- **A call** makes one more good window when its size divides the address, and stops when it does not. -/
theorem step_accepted (alpha : Nat) (r : Reply) (hlong : c.tooLong = false) (haddr : c.addr = minusOne A)
    (hreg : c.Regular A) (hgood : Good A s)
    (hend : s.iospace + vspaceSz A c.size < 2 ^ A.wordBits) :
    vspaceSz A c.size ∣ s.iospace ∧ (∃ s', step A alpha s (c, r) = .ok s' ∧ Good A s' ∧
        s'.iospace = s.iospace + vspaceSz A c.size) ∨
      ¬ vspaceSz A c.size ∣ s.iospace ∧ ∃ e, step A alpha s (c, r) = .error e := by
  obtain ⟨k, -, hk, hpage⟩ := hreg.vspaceSz
  rw [← hk] at hpage
  have hwindow : window A s.iospace c =
      (ensure (Fpage.isNil (Fpage.create A s.iospace (vspaceSz A c.size) 0) = false)
        (.assertion "!vspace_fpage.is_nil()") >>= fun _ =>
          .ok (A.add s.iospace (vspaceSz A c.size),
            some (Fpage.create A s.iospace (vspaceSz A c.size) 0))) := by
    unfold window
    rw [hlong]
    simp only [haddr, if_true]
    rfl
  have hva : s.iospace < 2 ^ A.wordBits := by omega
  rcases create_window A hva (by omega) ⟨k, hk⟩ hpage with
    ⟨hdvd, hne, hva, hsz⟩ | ⟨hnot, hnil⟩
  · generalize Fpage.create A s.iospace (vspaceSz A c.size) 0 = w at hwindow hne hva hsz
    have hnil : Fpage.isNil w = false := beq_eq_false_iff_ne.mpr hne
    rw [Lib.ensure_bind_of hnil, Arch.add_of_lt hend] at hwindow
    refine .inl ⟨hdvd, ⟨s.iospace + vspaceSz A c.size, s.windows ++ [w]⟩, ?_, ⟨?_, ?_, ?_⟩, rfl⟩
    · unfold step getNamed
      rw [hwindow]
      rfl
    · intro v hv
      rcases List.mem_append.mp hv with hv | hv
      · exact hgood.receives v hv
      · obtain rfl := List.mem_singleton.mp hv
        exact ⟨hne, ⟨k, hsz.trans hk⟩, by rw [hva, hsz]; exact hdvd⟩
    · rw [List.pairwise_append]
      refine ⟨hgood.apart, List.pairwise_singleton _ _, fun v hv x hx => .inl ?_⟩
      obtain rfl := List.mem_singleton.mp hx
      rw [hva]
      exact hgood.below v hv
    · intro v hv
      rcases List.mem_append.mp hv with hv | hv
      · exact Nat.le_trans (hgood.below v hv) (Nat.le_add_right _ _)
      · obtain rfl := List.mem_singleton.mp hv
        rw [hva, hsz]
  · have hfail : ¬ Fpage.isNil (Fpage.create A s.iospace (vspaceSz A c.size) 0) = false := by
      rw [hnil]
      decide
    rw [Lib.ensure_bind_of_not hfail] at hwindow
    refine .inr ⟨hnot, .assertion "!vspace_fpage.is_nil()", ?_⟩
    unfold step getNamed
    rw [hwindow]
    rfl

theorem sound_iff_of_good (es : List (Call × Reply)) (hgood : Good A s)
    (hcalls : ∀ e ∈ es, e.1.addr = minusOne A ∧ e.1.Regular A)
    (hend : s.iospace + extent A (accepted es) < 2 ^ A.wordBits) :
    Sound A alpha s es ↔ Fits A s.iospace (accepted es) := by
  induction es generalizing s with
  | nil => exact iff_of_true ⟨s, rfl, hgood.receives, hgood.apart⟩ trivial
  | cons e es ih =>
    obtain ⟨c, r⟩ := e
    obtain ⟨haddr, hreg⟩ := hcalls _ List.mem_cons_self
    have hrest := fun e he => hcalls e (List.mem_cons_of_mem _ he)
    cases hlong : c.tooLong with
    | true =>
      have haccepted : accepted ((c, r) :: es) = accepted es := by simp [accepted, hlong]
      rw [haccepted] at hend ⊢
      have hrun : runAll (step A alpha) s ((c, r) :: es) = runAll (step A alpha) s es := by
        show (step A alpha s (c, r) >>= fun s' => runAll (step A alpha) s' es) = _
        rw [step_tooLong hlong]
        rfl
      unfold Sound
      rw [hrun]
      exact ih hgood hrest hend
    | false =>
      have haccepted : accepted ((c, r) :: es) = c :: accepted es := by simp [accepted, hlong]
      have hextent : extent A (c :: accepted es) = vspaceSz A c.size + extent A (accepted es) := rfl
      rw [haccepted, hextent, ← Nat.add_assoc] at hend
      rw [haccepted]
      rcases step_accepted alpha r hlong haddr hreg hgood (by omega) with
        ⟨hdvd, s', hstep, hgood', hio⟩ | ⟨hnot, stop, hstep⟩
      · have hrun : runAll (step A alpha) s ((c, r) :: es) = runAll (step A alpha) s' es := by
          show (step A alpha s (c, r) >>= fun s' => runAll (step A alpha) s' es) = _
          rw [hstep]
          rfl
        unfold Sound
        rw [hrun]
        refine (ih hgood' hrest (by rw [hio]; exact hend)).trans ?_
        rw [hio]
        exact (and_iff_right hdvd).symm
      · refine iff_of_false ?_ fun h => hnot h.1
        rintro ⟨s', hrun, -⟩
        obtain ⟨t, ht, -⟩ := bind_eq_ok.mp hrun
        rw [hstep] at ht
        cases ht

/-- **Named memory windows.**  Calls that let the address be chosen, for sizes that are powers of two and in
space that does not run out, return with good windows if and only if the size of each divides the address
that its window comes to. -/
theorem windows_sound_iff (A : Arch) (alpha : Nat) (es : List (Call × Reply))
    (hcalls : ∀ e ∈ es, e.1.addr = minusOne A ∧ e.1.Regular A)
    (hend : iospaceStart + extent A (accepted es) < 2 ^ A.wordBits) :
    Sound A alpha .start es ↔ Fits A iospaceStart (accepted es) :=
  sound_iff_of_good es good_start hcalls hend

/-- A reply that says that there is no such memory. -/
def refusal : Reply := ⟨1, 0, fun _ => 0⟩

/-- A call for a memory of so many bytes, at an address that is to be chosen. -/
def sized (A : Arch) (n : Nat) : Call × Reply := (⟨[109], minusOne A, some n⟩, refusal)

/-- Two pages and then one. -/
theorem descending_sound : Sound .arm 7 .start [sized .arm 0x2000, sized .arm 0x1000] := by
  refine (windows_sound_iff .arm 7 _ (fun e he => ?_) (by decide)).mpr ⟨by decide, by decide, trivial⟩
  simp only [List.mem_cons, List.not_mem_nil, or_false] at he
  rcases he with rfl | rfl
  · exact ⟨rfl, fun n hn _ => ⟨13, by decide, (Option.some.inj hn).symm⟩⟩
  · exact ⟨rfl, fun n hn _ => ⟨12, by decide, (Option.some.inj hn).symm⟩⟩

/-- One page and then two: the second window is at an odd page. -/
theorem ascending_not_sound : ¬ Sound .arm 7 .start [sized .arm 0x1000, sized .arm 0x2000] := by
  rintro ⟨s, hrun, -⟩
  have hstop : (runAll (step .arm 7) .start [sized .arm 0x1000, sized .arm 0x2000]) =
      .error (.assertion "!vspace_fpage.is_nil()") := by
    rfl
  rw [hstop] at hrun
  cases hrun

end MemNamed
end Wrmos
