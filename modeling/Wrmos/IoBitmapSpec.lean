import Wrmos.IoBitmap
import Mathlib.Tactic.SplitIfs

/-!
# The range of the enabled ports

`_begin` and `_end` are to enclose the enabled ports (`Window`).  The fast answers of `is_ioperm` and the
copy at a switch of tasks trust them.

To enable ports keeps the range, and so does `set_ioperm_all`.  To disable ports does not: where no port is
left enabled the search for the last one does not end, and where one is left the range ends with the last
port instead of behind it (`disable_breaks`).  So the range encloses the enabled ports throughout a run
when, and only when, no ports are disabled after any were enabled (`ioperm_iff`).
-/

namespace Wrmos
namespace IoBitmap

open Lib (ensure_bind_of ensure_bind_eq_ok runAll)

variable {A : Arch} {b b' src : IoBitmap} {port sz p : Nat}

/-- Every enabled port lies in the range. -/
def Window (b : IoBitmap) : Prop := ∀ p < ioBitmapBits, b.off p = false → b.first ≤ p ∧ p < b.past

/-- The calls that change permissions. -/
inductive Op where
  | set (port sz : Nat) (enable : Bool)
  | all (enable : Bool)
  deriving DecidableEq, Repr

def step (b : IoBitmap) : Op → Except Stop IoBitmap
  | .set port sz enable => b.setIoperm port sz enable
  | .all enable => .ok (b.setAll enable)

/-- A call with arguments of type `unsigned` that meets the assertions. -/
def Valid : Op → Prop
  | .set port sz _ => port < ioBitmapBits ∧ stop port sz ≤ ioBitmapBits ∧ sz ≠ 0 ∧ sz < 2 ^ 32
  | .all _ => True

instance (op : Op) : Decidable (Valid op) := by
  cases op <;> unfold Valid <;> infer_instance

/-- A call behind which the range is not that of a new bitmap. -/
def Opens : Op → Prop
  | .set port sz enable => enable = true ∧ stop port sz ≠ 0
  | .all _ => True

/-- A call that disables ports one by one. -/
def Disables : Op → Prop
  | .set _ _ enable => enable = false
  | .all _ => False

/-- No ports are disabled after any were enabled. -/
def Ordered (ops : List Op) : Prop := ops.Pairwise fun x y => Opens x → ¬ Disables y

/-- Every call returns, and in every state every enabled port lies in the range. -/
def SoundFrom : IoBitmap → List Op → Prop
  | b, [] => Window b
  | b, op :: ops => Window b ∧ ∃ b', step b op = .ok b' ∧ SoundFrom b' ops

/-! ## The calls -/

theorem enable_eq (hport : port < ioBitmapBits) (hstop : stop port sz ≤ ioBitmapBits) (hsz : sz ≠ 0) :
    b.enable port sz = .ok
      { off := fun p => if port ≤ p ∧ p < stop port sz then false else b.off p
        first := min b.first port
        past := max b.past (stop port sz) } := by
  unfold enable
  rw [ensure_bind_of ⟨hport, hstop⟩, ensure_bind_of hsz]
  rfl

/-- To enable ports keeps the range. -/
theorem window_enable (h : Window b) (hok : b.enable port sz = .ok b') : Window b' := by
  obtain ⟨-, hok⟩ := ensure_bind_eq_ok.mp hok
  obtain ⟨-, hok⟩ := ensure_bind_eq_ok.mp hok
  obtain rfl := Except.ok.inj hok
  intro p hp hon
  dsimp only at hon ⊢
  split_ifs at hon with hin
  · omega
  · have hold := h p hp hon
    omega

theorem window_setAll (enable : Bool) : Window (b.setAll enable) :=
  fun p hp _ => ⟨Nat.zero_le p, hp⟩

/-- In a bitmap whose range is empty to disable ports changes no port that is enabled. -/
theorem disable_empty (h : Window b) (hpast : b.past = 0) (hport : port < ioBitmapBits)
    (hstop : stop port sz ≤ ioBitmapBits) (hsz : sz ≠ 0) :
    ∃ b', b.disable port sz = .ok b' ∧ Window b' ∧ b'.first = b.first ∧ b'.past = 0 := by
  refine ⟨{ b with off := fun p => if port ≤ p ∧ p < stop port sz then true else b.off p }, ?_, ?_, rfl,
    hpast⟩
  · unfold disable
    rw [ensure_bind_of ⟨hport, hstop⟩, ensure_bind_of hsz]
    dsimp only
    rw [if_pos hpast]
    rfl
  · intro p hp hon
    dsimp only at hon ⊢
    split_ifs at hon
    exact h p hp hon

theorem mem_firstOn {off : Nat → Bool} {lo n : Nat} (h : firstOn off lo n = some p) :
    lo ≤ p ∧ p < lo + n ∧ off p = false := by
  unfold firstOn at h
  obtain ⟨i, hi, rfl⟩ := List.mem_map.mp (List.mem_of_find?_eq_some h)
  have hn := List.mem_range.mp hi
  exact ⟨by omega, by omega, by simpa using List.find?_some h⟩

theorem mem_lastOn {off : Nat → Bool} {lo n : Nat} (h : lastOn off lo n = some p) :
    lo ≤ p ∧ p < lo + n ∧ off p = false := by
  unfold lastOn at h
  obtain ⟨i, hi, rfl⟩ := List.mem_map.mp (List.mem_of_find?_eq_some h)
  have hn := List.mem_range.mp (List.mem_reverse.mp hi)
  exact ⟨by omega, by omega, by simpa using List.find?_some h⟩

/-- **To disable ports** in a bitmap whose range starts at the first port does not end, or leaves the last
enabled port outside of the range. -/
theorem disable_breaks (hfirst : b.first = 0) (hpast : b.past ≠ 0) (hbits : b.past ≤ ioBitmapBits)
    (hok : b.disable port sz = .ok b') : ¬ Window b' := by
  obtain ⟨-, hok⟩ := ensure_bind_eq_ok.mp hok
  obtain ⟨-, hok⟩ := ensure_bind_eq_ok.mp hok
  dsimp only at hok
  rw [if_neg hpast] at hok
  obtain ⟨hfound, hok⟩ := ensure_bind_eq_ok.mp hok
  obtain rfl := Except.ok.inj hok
  set off := fun p => if port ≤ p ∧ p < stop port sz then true else b.off p
  set first := (firstOn off b.first (b.past - b.first)).getD b.first with hf
  -- the search for the last enabled port finds one: it is the end of the new range
  have hlast : lastOn off first (b.past - first) ≠ none := by
    rcases hfound with h | h
    · exact h
    · cases hon : firstOn off b.first (b.past - b.first) with
      | none =>
        rw [hf, hon] at h
        exact absurd hfirst h
      | some p =>
        obtain ⟨-, hlt, hp⟩ := mem_firstOn hon
        have hfp : first = p := by rw [hf, hon]; rfl
        intro hnone
        unfold lastOn at hnone
        rw [List.find?_eq_none] at hnone
        have hmem : p ∈ (List.range (b.past - first)).reverse.map (first + ·) :=
          List.mem_map.mpr ⟨0, List.mem_reverse.mpr (List.mem_range.mpr (by omega)), by omega⟩
        exact hnone p hmem (by simpa using hp)
  obtain ⟨p, hp⟩ := Option.ne_none_iff_exists'.mp hlast
  obtain ⟨hle, hlt, hon⟩ := mem_lastOn hp
  rw [hp, Option.getD_some]
  intro hwin
  split_ifs at hwin with heq
  · exact Nat.not_lt_zero p (hwin p (by omega) hon).2
  · exact Nat.lt_irrefl p (hwin p (by omega) hon).2

/-! ## Runs -/

/-- The range encloses the enabled ports and starts at the first port. -/
structure Good (b : IoBitmap) : Prop where
  window : Window b
  first : b.first = 0
  past : b.past ≤ ioBitmapBits

theorem good_init : Good init := by
  refine ⟨fun p _ hon => ?_, rfl, Nat.zero_le _⟩
  have hoff : true = false := hon
  cases hoff

/-- A call from a good state leads to a good one, unless it disables ports while the range is not empty;
then the run is no longer sound. -/
theorem step_good {op : Op} (h : Good b) (hv : Valid op) (hop : b.past ≠ 0 → ¬ Disables op) :
    ∃ b', step b op = .ok b' ∧ Good b' ∧ (b'.past ≠ 0 ↔ b.past ≠ 0 ∨ Opens op) := by
  cases op with
  | all enable =>
    refine ⟨b.setAll enable, rfl, ⟨window_setAll enable, rfl, Nat.le_refl _⟩, ?_⟩
    exact iff_of_true (show ioBitmapBits ≠ 0 by decide) (.inr trivial)
  | set port sz enable =>
    obtain ⟨hport, hstop, hsz, -⟩ := hv
    cases enable with
    | true =>
      have heq := enable_eq (b := b) hport hstop hsz
      refine ⟨_, heq, ⟨window_enable h.window heq, ?_, ?_⟩, ?_⟩
      · show min b.first port = 0
        rw [h.first]
        exact Nat.zero_min port
      · exact max_le h.past hstop
      · show max b.past (stop port sz) ≠ 0 ↔ b.past ≠ 0 ∨ true = true ∧ stop port sz ≠ 0
        rw [and_iff_right rfl]
        omega
    | false =>
      have hpast : b.past = 0 := by
        by_contra hne
        exact hop hne rfl
      obtain ⟨b', hok, hwin, hfirst, hpast'⟩ := disable_empty h.window hpast hport hstop hsz
      refine ⟨b', hok, ⟨hwin, hfirst.trans h.first, hpast' ▸ Nat.zero_le _⟩, ?_⟩
      rw [hpast', hpast]
      refine iff_of_false (fun hne => hne rfl) ?_
      rintro (hne | ⟨htrue, -⟩)
      · exact hne rfl
      · cases htrue

/-- **A run is sound** when, and only when, it disables no ports once the range is not empty. -/
theorem soundFrom_iff : ∀ {ops : List Op} {b : IoBitmap}, Good b → (∀ op ∈ ops, Valid op) →
    (SoundFrom b ops ↔ (b.past ≠ 0 → ∀ op ∈ ops, ¬ Disables op) ∧ Ordered ops)
  | [], b, h, _ => iff_of_true h.window ⟨fun _ _ hop => absurd hop List.not_mem_nil, List.Pairwise.nil⟩
  | op :: ops, b, h, hv => by
    have hvop := hv op List.mem_cons_self
    have hvops : ∀ op' ∈ ops, Valid op' := fun op' hin => hv op' (List.mem_cons_of_mem op hin)
    by_cases hbreak : b.past ≠ 0 ∧ Disables op
    · -- the range is not empty and ports are disabled
      refine iff_of_false ?_ fun hr => hr.1 hbreak.1 op List.mem_cons_self hbreak.2
      rintro ⟨-, b', hok, hrest⟩
      have hwin : Window b' := by
        cases ops with
        | nil => exact hrest
        | cons op' ops' => exact hrest.1
      cases op with
      | all enable => exact hbreak.2
      | set port sz enable =>
        obtain rfl : enable = false := hbreak.2
        exact disable_breaks h.first hbreak.1 h.past hok hwin
    · obtain ⟨b', hok, hgood, hpast⟩ := step_good h hvop fun hne hd => hbreak ⟨hne, hd⟩
      have ih := soundFrom_iff hgood hvops
      have hstep : SoundFrom b (op :: ops) ↔ SoundFrom b' ops := by
        constructor
        · rintro ⟨-, b'', hok', hrest⟩
          obtain rfl := Except.ok.inj (hok.symm.trans hok')
          exact hrest
        · exact fun hrest => ⟨h.window, b', hok, hrest⟩
      rw [hstep, ih, hpast]
      unfold Ordered
      rw [List.pairwise_cons]
      constructor
      · rintro ⟨hnone, hord⟩
        refine ⟨fun hne op' hin => ?_, fun op' hin hopens => hnone (.inr hopens) op' hin, hord⟩
        rcases List.mem_cons.mp hin with rfl | hin
        · exact fun hd => hbreak ⟨hne, hd⟩
        · exact hnone (.inl hne) op' hin
      · rintro ⟨hnone, hopen, hord⟩
        refine ⟨fun hor op' hin => ?_, hord⟩
        rcases hor with hne | hopens
        · exact hnone hne op' (List.mem_cons_of_mem op hin)
        · exact hopen op' hin hopens

/-- The state a sound run leads to. -/
theorem SoundFrom.final : ∀ {ops : List Op} {b : IoBitmap}, SoundFrom b ops →
    ∃ b', runAll step b ops = .ok b' ∧ Window b'
  | [], b, h => ⟨b, rfl, h⟩
  | op :: ops, b, ⟨_, b', hok, hrest⟩ => by
    obtain ⟨c, hc, hwin⟩ := SoundFrom.final hrest
    exact ⟨c, Lib.bind_eq_ok.mpr ⟨b', hok, hc⟩, hwin⟩

/-! ## Questions and copies -/

/-- `is_ioperm` says whether all ports of a range are enabled, and whether none is. -/
structure Answers (b : IoBitmap) (port sz : Nat) : Prop where
  all : ∃ r, b.isIoperm port sz true = .ok r ∧
    (r = true ↔ ∀ p, port ≤ p → p < port + sz → b.off p = false)
  none : ∃ r, b.isIoperm port sz false = .ok r ∧
    (r = true ↔ ∀ p, port ≤ p → p < port + sz → b.off p = true)

/-- An answer, when the range of the question ends before the last port. -/
theorem isIoperm_eq (h : Window b) (hsz : sz ≠ 0) (hrange : port + sz < ioBitmapBits) (enable : Bool) :
    ∃ r, b.isIoperm port sz enable = .ok r ∧
      (r = true ↔ ∀ p, port ≤ p → p < port + sz → b.off p = !enable) := by
  have hbits : ioBitmapBits < 2 ^ 32 := by decide
  have hstop : stop port sz = port + sz := Nat.mod_eq_of_lt (by omega)
  have hport : port < ioBitmapBits := by omega
  unfold isIoperm
  rw [ensure_bind_of ⟨hport, by rw [hstop]; exact hrange⟩, ensure_bind_of hsz, hstop]
  by_cases hout : b.past ≤ port ∨ port + sz < b.first
  · -- outside of the range every port is disabled
    rw [if_pos hout]
    refine ⟨!enable, rfl, ?_⟩
    have hoff : ∀ p, port ≤ p → p < port + sz → b.off p = true := by
      intro p hle hlt
      by_contra hon
      have hin := h p (by omega) (eq_false_of_ne_true hon)
      omega
    cases enable with
    | true =>
      refine iff_of_false (by decide) fun hall => ?_
      have hon := hall port (Nat.le_refl port) (by omega)
      rw [hoff port (Nat.le_refl port) (by omega)] at hon
      cases hon
    | false => exact iff_of_true rfl hoff
  · rw [if_neg hout]
    refine ⟨_, rfl, ?_⟩
    rw [List.all_eq_true, Nat.add_sub_cancel_left]
    constructor
    · intro hall p hle hlt
      have hp := hall p (List.mem_map.mpr ⟨p - port, List.mem_range.mpr (by omega), by omega⟩)
      rw [bne_iff_ne] at hp
      exact Bool.eq_not.mpr hp
    · intro hall p hmem
      obtain ⟨i, hi, rfl⟩ := List.mem_map.mp hmem
      have hlt := List.mem_range.mp hi
      rw [bne_iff_ne]
      exact Bool.eq_not.mp (hall (port + i) (Nat.le_add_right port i) (by omega))

/-- The questions that are answered are those whose range ends before the last port. -/
theorem answers_iff (h : Window b) (hsz : sz ≠ 0) (hrange : port + sz ≤ ioBitmapBits) :
    Answers b port sz ↔ port + sz < ioBitmapBits := by
  constructor
  · intro hanswers
    obtain ⟨r, hr, -⟩ := hanswers.all
    obtain ⟨⟨-, hstop⟩, -⟩ := ensure_bind_eq_ok.mp hr
    have hbits : ioBitmapBits < 2 ^ 32 := by decide
    unfold stop at hstop
    rwa [Nat.mod_eq_of_lt (by omega)] at hstop
  · exact fun hlt => ⟨isIoperm_eq h hsz hlt true, isIoperm_eq h hsz hlt false⟩

/-- A port whose word is not looked at is disabled. -/
theorem off_of_not_inLongs (h : Window b) (hp : p < ioBitmapBits) (hin : ¬ InLongs A b p) : b.off p = true := by
  by_contra hon
  obtain ⟨hle, hlt⟩ := h p hp (eq_false_of_ne_true hon)
  exact hin ⟨Nat.div_le_div_right hle, Nat.lt_succ_of_le (Nat.div_le_div_right (by omega))⟩

/-- In a bitmap with an empty range every port is disabled. -/
theorem off_of_past (h : Window b) (hp : p < ioBitmapBits) (hpast : b.past = 0) : b.off p = true := by
  by_contra hon
  have hin := h p hp (eq_false_of_ne_true hon)
  omega

/-- **`set_from`** makes the destination equal to the source. -/
theorem setFrom_off (hb : Window b) (hsrc : Window src) (hp : p < ioBitmapBits) :
    (b.setFrom A src).off p = src.off p := by
  have hcopy : ∀ c : IoBitmap, c.off p = true → (c.copyLongs A src).off p = src.off p := by
    intro c hc
    show (if InLongs A src p then src.off p else c.off p) = src.off p
    split_ifs with hin
    · rfl
    · rw [hc, off_of_not_inLongs hsrc hp hin]
  have hclear : (b.clearLongs A).off p = true := by
    show (if InLongs A b p then true else b.off p) = true
    split_ifs with hin
    · rfl
    · exact off_of_not_inLongs hb hp hin
  unfold setFrom
  split_ifs with hboth hdst hnone
  · rw [off_of_past hb hp hboth.1, off_of_past hsrc hp hboth.2]
  · exact hcopy b (off_of_past hb hp hdst)
  · rw [hclear, off_of_past hsrc hp hnone]
  · exact hcopy _ hclear

/-- **The permission bitmap**, for two runs of calls from a new bitmap and a question about a range of
ports: both runs are sound, the question is answered and one bitmap copied to the other becomes equal to it
when, and only when, neither run disables ports after it enabled any, and the range ends before the last
port. -/
theorem ioperm_iff {ops ops' : List Op} (hv : ∀ op ∈ ops, Valid op) (hv' : ∀ op ∈ ops', Valid op)
    (hsz : sz ≠ 0) (hrange : port + sz ≤ ioBitmapBits) :
    (SoundFrom init ops ∧ SoundFrom init ops' ∧
      ∀ b src, runAll step init ops = .ok b → runAll step init ops' = .ok src →
        Answers b port sz ∧ ∀ p < ioBitmapBits, (b.setFrom A src).off p = src.off p) ↔
      Ordered ops ∧ Ordered ops' ∧ port + sz < ioBitmapBits := by
  have hsound : ∀ {l : List Op}, (∀ op ∈ l, Valid op) → (SoundFrom init l ↔ Ordered l) := by
    intro l hl
    rw [soundFrom_iff good_init hl]
    exact and_iff_right fun hne => absurd rfl hne
  constructor
  · rintro ⟨h, h', hlast⟩
    obtain ⟨b, hb, hwin⟩ := h.final
    obtain ⟨src, hsrc, -⟩ := h'.final
    exact ⟨(hsound hv).mp h, (hsound hv').mp h', (answers_iff hwin hsz hrange).mp (hlast b src hb hsrc).1⟩
  · rintro ⟨h, h', hlt⟩
    have hs := (hsound hv).mpr h
    have hs' := (hsound hv').mpr h'
    refine ⟨hs, hs', fun b src hb hsrc => ?_⟩
    obtain ⟨c, hc, hwin⟩ := hs.final
    obtain ⟨d, hd, hwin'⟩ := hs'.final
    obtain rfl := Except.ok.inj (hb.symm.trans hc)
    obtain rfl := Except.ok.inj (hsrc.symm.trans hd)
    exact ⟨(answers_iff hwin hsz hrange).mpr hlt, fun p hp => setFrom_off hwin hwin' hp⟩

/-- The ports of a serial line, enabled and copied. -/
theorem ioperm_uart : SoundFrom init [.set 0x3f8 8 true] ∧ SoundFrom init [.set 0x60 1 true] ∧
    ∀ b src, runAll step init [.set 0x3f8 8 true] = .ok b → runAll step init [.set 0x60 1 true] = .ok src →
      Answers b 0x3f8 8 ∧ ∀ p < ioBitmapBits, (b.setFrom .x86 src).off p = src.off p :=
  (ioperm_iff (by decide) (by decide) (by decide) (by decide)).mpr ⟨List.pairwise_singleton _ _, List.pairwise_singleton _ _, by decide⟩

/-- Two ports are enabled and one of them is disabled: the other lies behind the range. -/
theorem twoPorts_not_sound : ¬ SoundFrom init [.set 4 2 true, .set 4 1 false] := by
  rintro ⟨-, b, hok, -, b', hok', hwin⟩
  obtain ⟨-, hok⟩ := ensure_bind_eq_ok.mp hok
  obtain ⟨-, hok⟩ := ensure_bind_eq_ok.mp hok
  obtain rfl := Except.ok.inj hok
  exact disable_breaks rfl (by decide) (by decide) hok' hwin

end IoBitmap
end Wrmos
