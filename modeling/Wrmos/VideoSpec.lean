import Wrmos.Video

/-!
# What is drawn on the screen

Every operation keeps the cursor below the banner and the cells of the banner (`inside_putText`,
`vmem_putText`), and outside of a sequence every byte but a carriage return at the beginning of a line draws
or changes something (`putText_same_iff`).  So the screen is that of the stream without its control sequences
as long as the filter is outside of a sequence when text comes, and no longer.
-/

namespace Wrmos
namespace Video

open Lib

variable {s s' : Screen} {x y c : Nat} {ch b : UInt8} {ys xs : List Nat} {f : Screen → Nat → Nat → Screen}

/-! ## What the operations keep -/

/-- What every round of a loop keeps is kept by the loop. -/
theorem forCells_induction {P : Screen → Prop} (hf : ∀ s, ∀ y ∈ ys, ∀ x ∈ xs, P s → P (f s x y)) (h : P s) :
    P (forCells f ys xs s) := by
  have hrow : ∀ y ∈ ys, ∀ (l : List Nat) s, (∀ x ∈ l, x ∈ xs) → P s → P (l.foldl (fun s x => f s x y) s) := by
    intro y hy l
    induction l with
    | nil => exact fun s _ h => h
    | cons x l ih =>
      intro s hl h
      rw [List.foldl_cons]
      exact ih _ (fun x' hx' => hl x' (List.mem_cons_of_mem _ hx')) (hf s y hy x (hl x List.mem_cons_self) h)
  have hrows : ∀ (l : List Nat) s, (∀ y ∈ l, y ∈ ys) → P s →
      P (l.foldl (fun s y => xs.foldl (fun s x => f s x y) s) s) := by
    intro l
    induction l with
    | nil => exact fun s _ h => h
    | cons y l ih =>
      intro s hl h
      rw [List.foldl_cons]
      exact ih _ (fun y' hy' => hl y' (List.mem_cons_of_mem _ hy'))
        (hrow y (hl y List.mem_cons_self) xs s (fun _ hx => hx) h)
  unfold forCells
  exact hrows ys s (fun _ hy => hy) h

@[simp] theorem getX_storeX : getX (storeX s x) = x % 2 ^ 16 := by simp [getX, storeX]

@[simp] theorem getY_storeX : getY (storeX s x) = getY s := by
  simp [getY, storeX, curXStorageCell, curYStorageCell]

@[simp] theorem getX_storeY : getX (storeY s y) = getX s := by
  simp [getX, storeY, curXStorageCell, curYStorageCell]

@[simp] theorem getY_storeY : getY (storeY s y) = y % 2 ^ 16 := by simp [getY, storeY]

/-- A cell that is set is no storage cell and inside of the screen. -/
theorem setCell_cases (s : Screen) (x y : Nat) (ch : UInt8) : setCell s x y ch = s ∨
    (x < xMax ∧ y < yMax ∧ xMax * y + x ≠ curXStorageCell ∧ xMax * y + x ≠ curYStorageCell) ∧
      setCell s x y ch = { s with vmem := Function.update s.vmem (xMax * y + x) (cellWord ch) } := by
  unfold setCell
  split_ifs with hout hstore
  · exact .inl rfl
  · exact .inl rfl
  · rw [not_or] at hout hstore
    exact .inr ⟨⟨Nat.lt_of_not_le hout.1, Nat.lt_of_not_le hout.2, hstore⟩, rfl⟩

theorem setCell_of_mem (hx : x < xMax) (hy : yMin ≤ y ∧ y < yMax) :
    setCell s x y ch = { s with vmem := Function.update s.vmem (xMax * y + x) (cellWord ch) } := by
  simp only [xMax, yMin, yMax] at hx hy
  unfold setCell
  rw [if_neg (by simp only [xMax, yMax]; omega),
    if_neg (by simp only [xMax, curXStorageCell, curYStorageCell]; omega)]

@[simp] theorem getX_setCell : getX (setCell s x y ch) = getX s := by
  rcases setCell_cases s x y ch with h | ⟨⟨-, -, hne, -⟩, h⟩
  · rw [h]
  · rw [h]
    exact Function.update_of_ne (Ne.symm hne) _ _

@[simp] theorem getY_setCell : getY (setCell s x y ch) = getY s := by
  rcases setCell_cases s x y ch with h | ⟨⟨-, -, -, hne⟩, h⟩
  · rw [h]
  · rw [h]
    exact Function.update_of_ne (Ne.symm hne) _ _

@[simp] theorem insideEscape_setCell : (setCell s x y ch).insideEscape = s.insideEscape := by
  rcases setCell_cases s x y ch with h | ⟨-, h⟩
  · rw [h]
  · rw [h]

@[simp] theorem acts_setCell : (setCell s x y ch).acts = s.acts := by
  rcases setCell_cases s x y ch with h | ⟨-, h⟩
  · rw [h]
  · rw [h]

/-- Below the banner only cells below the banner are set. -/
theorem vmem_setCell (hy : yMin ≤ y) (hc : c < xMax * yMin ∨ xMax * yMax ≤ c) :
    (setCell s x y ch).vmem c = s.vmem c := by
  rcases setCell_cases s x y ch with h | ⟨⟨hx, hy', -, -⟩, h⟩
  · rw [h]
  · rw [h]
    simp only [xMax, yMin, yMax] at *
    exact Function.update_of_ne (by omega) _ _

/-- What the setting of cells below the banner keeps is kept when the lines move up. -/
theorem shift_induction {P : Screen → Prop} (hset : ∀ s x y ch, yMin ≤ y → P s → P (setCell s x y ch))
    (h : P s) : P (clearBottom (shiftUp s)) := by
  refine forCells_induction (fun s y hy x _ => hset s x y _ ?_)
    (forCells_induction (fun s y hy x _ => hset s x y _ (List.mem_range'_1.mp hy).1) h)
  rw [List.mem_singleton.mp hy]
  decide

@[simp] theorem getX_shiftLine : getX (shiftLine s) = getX s :=
  shift_induction (P := fun s' => getX s' = getX s) (fun _ _ _ _ _ h => getX_setCell.trans h) rfl

@[simp] theorem getY_shiftLine : getY (shiftLine s) = getY s :=
  shift_induction (P := fun s' => getY s' = getY s) (fun _ _ _ _ _ h => getY_setCell.trans h) rfl

@[simp] theorem acts_shiftLine : (shiftLine s).acts = s.acts ++ [.scroll] := rfl

theorem vmem_shiftLine (hc : c < xMax * yMin ∨ xMax * yMax ≤ c) : (shiftLine s).vmem c = s.vmem c :=
  shift_induction (P := fun s' => s'.vmem c = s.vmem c) (fun _ _ _ _ hy h => (vmem_setCell hy hc).trans h) rfl

/-! ## The cursor -/

/-- The cursor is inside of the screen and below the banner. -/
structure Inside (s : Screen) : Prop where
  x : getX s < xMax
  yMin : yMin ≤ getY s
  yMax : getY s < yMax

@[simp] theorem getX_setCurCell : getX (setCurCell s ch) = getX s := getX_setCell

@[simp] theorem getY_setCurCell : getY (setCurCell s ch) = getY s := getY_setCell

@[simp] theorem acts_setCurCell : (setCurCell s ch).acts = s.acts := acts_setCell

theorem setCurCell_of_inside (h : Inside s) : setCurCell s ch =
    { s with vmem := Function.update s.vmem (xMax * getY s + getX s) (cellWord ch) } :=
  setCell_of_mem h.x ⟨h.yMin, h.yMax⟩

@[simp] theorem getX_removeCursor : getX (removeCursor s) = getX s := by
  unfold removeCursor
  split_ifs <;> simp

@[simp] theorem getY_removeCursor : getY (removeCursor s) = getY s := by
  unfold removeCursor
  split_ifs <;> simp

@[simp] theorem acts_removeCursor : (removeCursor s).acts = s.acts := by
  unfold removeCursor
  split_ifs <;> simp

@[simp] theorem getX_showCursor : getX (showCursor s) = getX s := by
  unfold showCursor
  split_ifs <;> simp

@[simp] theorem getY_showCursor : getY (showCursor s) = getY s := by
  unfold showCursor
  split_ifs <;> simp

@[simp] theorem acts_showCursor : (showCursor s).acts = s.acts := by
  unfold showCursor
  split_ifs <;> simp

@[simp] theorem getX_addY {k : Int} : getX (addY s k) = getX s := getX_storeY

@[simp] theorem getY_addX {k : Int} : getY (addX s k) = getY s := getY_storeX

theorem getX_addX (h : getX s < xMax) : getX (addX s 1) = getX s + 1 := by
  simp only [addX, getX_storeX, xMax] at *
  omega

theorem getY_addY (h : getY s < yMax) : getY (addY s 1) = getY s + 1 := by
  simp only [addY, getY_storeY, yMax] at *
  omega

theorem getY_addY_neg (h : getY s = yMax) : getY (addY s (-1)) = yMax - 1 := by
  simp only [addY, getY_storeY, yMax] at *
  omega

@[simp] theorem getX_scrollDown : getX (scrollDown s) = getX s := by
  unfold scrollDown
  split_ifs <;> simp

theorem getY_scrollDown : getY (scrollDown s) = if getY s = yMax then yMax - 1 else getY s := by
  unfold scrollDown
  split_ifs with h
  · rw [getY_shiftLine, getY_addY_neg h]
  · rfl

/-- The line that the cursor comes to below line `y`. -/
def nextY (y : Nat) : Nat := if y + 1 = yMax then yMax - 1 else y + 1

theorem getX_carriageReturn : getX (carriageReturn s) = xMin := by simp [carriageReturn, xMin]

theorem getY_carriageReturn : getY (carriageReturn s) = getY s := by simp [carriageReturn]

theorem getX_lineFeed : getX (lineFeed s) = getX s := by simp [lineFeed]

/-- The line below, before the screen scrolls. -/
theorem getY_down (h : getY s < yMax) : getY (addY (removeCursor s) 1) = getY s + 1 := by
  rw [getY_addY (by rwa [getY_removeCursor]), getY_removeCursor]

theorem getY_lineFeed (h : getY s < yMax) : getY (lineFeed s) = nextY (getY s) := by
  rw [lineFeed, getY_showCursor, getY_scrollDown, getY_down h]
  rfl

@[simp] theorem getX_draw : getX (draw s ch) = getX s := getX_setCurCell

@[simp] theorem getY_draw : getY (draw s ch) = getY s := getY_setCurCell

/-- The cursor behind a printable character. -/
theorem cursor_printable (h : Inside s) :
    getX (printable s ch) = (if getX s + 1 = xMax then xMin else getX s + 1) ∧
      getY (printable s ch) = if getX s + 1 = xMax then nextY (getY s) else getY s := by
  have hx : getX (addX (draw s ch) 1) = getX s + 1 := by
    rw [getX_addX (by rw [getX_draw]; exact h.x), getX_draw]
  have hy : getY (addX (draw s ch) 1) = getY s := by rw [getY_addX, getY_draw]
  unfold printable wrap
  rw [getX_setCurCell, getY_setCurCell, getX_scrollDown, getY_scrollDown, hx]
  by_cases hlast : getX s + 1 = xMax
  · have hadd : getY (addY (storeX (addX (draw s ch) 1) xMin) 1) = getY s + 1 := by
      rw [getY_addY (by rw [getY_storeX, hy]; exact h.yMax), getY_storeX, hy]
    rw [if_pos hlast, if_pos hlast, if_pos hlast, hadd, getX_addY, getX_storeX]
    exact ⟨rfl, rfl⟩
  · rw [if_neg hlast, if_neg hlast, if_neg hlast, hx, hy]
    exact ⟨rfl, if_neg (Nat.ne_of_lt h.yMax)⟩

theorem nextY_mem (h : yMin ≤ y ∧ y < yMax) : yMin ≤ nextY y ∧ nextY y < yMax := by
  unfold nextY
  by_cases hlast : y + 1 = yMax
  · rw [if_pos hlast]
    decide
  · rw [if_neg hlast]
    exact ⟨Nat.le_succ_of_le h.1, Nat.lt_of_le_of_ne h.2 hlast⟩

/-- **The cursor** stays inside. -/
theorem inside_putText (h : Inside s) : Inside (putText s b) := by
  have hnext := nextY_mem ⟨h.yMin, h.yMax⟩
  unfold putText
  split_ifs
  · refine ⟨?_, ?_, ?_⟩
    · rw [getX_carriageReturn]
      decide
    · rw [getY_carriageReturn]
      exact h.yMin
    · rw [getY_carriageReturn]
      exact h.yMax
  · refine ⟨?_, ?_, ?_⟩
    · rw [getX_lineFeed]
      exact h.x
    · rw [getY_lineFeed h.yMax]
      exact hnext.1
    · rw [getY_lineFeed h.yMax]
      exact hnext.2
  · obtain ⟨hx, hy⟩ : getX (printable s b) = _ ∧ getY (printable s b) = _ := cursor_printable h
    by_cases hlast : getX s + 1 = xMax
    · rw [if_pos hlast] at hx hy
      exact ⟨hx ▸ by decide, hy ▸ hnext.1, hy ▸ hnext.2⟩
    · rw [if_neg hlast] at hx hy
      exact ⟨hx ▸ Nat.lt_of_le_of_ne h.x hlast, hy ▸ h.yMin, hy ▸ h.yMax⟩

/-! ## The banner -/

/-- A cell of the banner or behind the screen, and none of the two that store the cursor. -/
def Off (c : Nat) : Prop :=
  (c < xMax * yMin ∨ xMax * yMax ≤ c) ∧ c ≠ curXStorageCell ∧ c ≠ curYStorageCell

theorem vmem_storeX (hc : Off c) : (storeX s x).vmem c = s.vmem c := Function.update_of_ne hc.2.1 _ _

theorem vmem_storeY (hc : Off c) : (storeY s y).vmem c = s.vmem c := Function.update_of_ne hc.2.2 _ _

theorem vmem_setCurCell (hy : yMin ≤ getY s) (hc : Off c) : (setCurCell s ch).vmem c = s.vmem c :=
  vmem_setCell hy hc.1

theorem vmem_removeCursor (hy : yMin ≤ getY s) (hc : Off c) : (removeCursor s).vmem c = s.vmem c := by
  unfold removeCursor
  split_ifs
  · exact vmem_setCurCell hy hc
  · rfl

theorem vmem_showCursor (hy : yMin ≤ getY s) (hc : Off c) : (showCursor s).vmem c = s.vmem c := by
  unfold showCursor
  split_ifs
  · exact vmem_setCurCell hy hc
  · rfl

theorem vmem_scrollDown (hc : Off c) : (scrollDown s).vmem c = s.vmem c := by
  unfold scrollDown
  split_ifs
  · rw [vmem_shiftLine hc.1]
    exact vmem_storeY hc
  · rfl

theorem vmem_wrap (hc : Off c) : (wrap s).vmem c = s.vmem c := by
  unfold wrap
  split_ifs
  · exact (vmem_storeY hc).trans (vmem_storeX hc)
  · rfl

/-- **The banner** stays, and so does what is behind the screen. -/
theorem vmem_putText (h : Inside s) (hc : Off c) : (putText s b).vmem c = s.vmem c := by
  have hinside := inside_putText (b := b) h
  have hremove := vmem_removeCursor h.yMin hc
  unfold putText at hinside ⊢
  split_ifs at hinside ⊢
  · have hy : yMin ≤ getY (storeX (removeCursor s) xMin) := by simpa using h.yMin
    exact (vmem_showCursor hy hc).trans ((vmem_storeX hc).trans hremove)
  · have hy : yMin ≤ getY (scrollDown (addY (removeCursor s) 1)) := by
      have := hinside.yMin
      rwa [lineFeed, getY_showCursor] at this
    exact (vmem_showCursor hy hc).trans ((vmem_scrollDown hc).trans ((vmem_storeY hc).trans hremove))
  · have hy : yMin ≤ getY (scrollDown (wrap (addX (draw s b) 1))) := by
      have := hinside.yMin
      rwa [printable, getY_setCurCell] at this
    have hdraw : (draw s b).vmem c = s.vmem c := vmem_setCurCell h.yMin hc
    exact (vmem_setCurCell hy hc).trans ((vmem_scrollDown hc).trans ((vmem_wrap hc).trans
      ((vmem_storeX hc).trans hdraw)))

/-! ## The filter -/

/-- What the setting of cells, of the cursor and of what has been drawn keeps is kept by the characters
outside of a sequence. -/
theorem putText_induction {P : Screen → Prop} (hset : ∀ s x y ch, P s → P (setCell s x y ch))
    (hx : ∀ s x, P s → P (storeX s x)) (hy : ∀ s y, P s → P (storeY s y))
    (hacts : ∀ s l, P s → P { s with acts := l }) (h : P s) : P (putText s b) := by
  have hremove : ∀ s, P s → P (removeCursor s) := by
    intro s h
    unfold removeCursor
    split_ifs
    · exact hset s _ _ _ h
    · exact h
  have hshow : ∀ s, P s → P (showCursor s) := by
    intro s h
    unfold showCursor
    split_ifs
    · exact hset s _ _ _ h
    · exact h
  have hscroll : ∀ s, P s → P (scrollDown s) := by
    intro s h
    unfold scrollDown
    split_ifs
    · exact hacts _ _ (shift_induction (fun s x y ch _ => hset s x y ch) (hy _ _ h))
    · exact h
  have hwrap : ∀ s, P s → P (wrap s) := by
    intro s h
    unfold wrap
    split_ifs
    · exact hy _ _ (hx _ _ h)
    · exact h
  unfold putText
  split_ifs
  · exact hshow _ (hx _ _ (hremove s h))
  · exact hshow _ (hscroll _ (hy _ _ (hremove s h)))
  · exact hset _ _ _ _ (hscroll _ (hwrap _ (hx _ _ (hacts _ _ (hset _ _ _ _ h)))))

@[simp] theorem insideEscape_putText : (putText s b).insideEscape = s.insideEscape :=
  putText_induction (P := fun s' => s'.insideEscape = s.insideEscape)
    (fun _ _ _ _ h => insideEscape_setCell.trans h) (fun _ _ h => h) (fun _ _ h => h) (fun _ _ h => h) rfl

/-- Text outside of a sequence. -/
theorem videoPutc_of_outside (hb : b ≠ 0x1b) (h : s.insideEscape = false) : videoPutc s b = putText s b := by
  unfold videoPutc
  simp only [if_neg hb, h]
  rfl

/-- Inside of a sequence nothing is drawn. -/
theorem videoPutc_of_inside (hb : b ≠ 0x1b) (h : s.insideEscape = true) :
    videoPutc s b = { s with insideEscape := b != 0x6d } := by
  unfold videoPutc
  simp only [if_neg hb, h, if_true]
  by_cases hm : b = 0x6d
  · rw [if_pos hm, hm]
    rfl
  · rw [if_neg hm, bne_iff_ne.mpr hm, ← h]

theorem videoPutc_escape : videoPutc s 0x1b = { s with insideEscape := true } := rfl

/-- A control sequence draws nothing. -/
theorem videoPuts_control (q : Sequence) (s : Screen) :
    ∃ esc, videoPuts s (Item.control q).bytes = { s with insideEscape := esc } := by
  have hbody : ∀ (l : List UInt8) s, s.insideEscape = true → (∀ b ∈ l, b ≠ 0x1b ∧ b ≠ 0x6d) →
      videoPuts s l = s := by
    intro l
    induction l with
    | nil => exact fun s _ _ => rfl
    | cons b l ih =>
      intro s h hl
      obtain ⟨hesc, hm⟩ := hl b List.mem_cons_self
      have hsame : videoPutc s b = s := by
        rw [videoPutc_of_inside hesc h, bne_iff_ne.mpr hm, ← h]
      show videoPuts (videoPutc s b) l = s
      rw [hsame]
      exact ih s h fun b' hb' => hl b' (List.mem_cons_of_mem _ hb')
  have hparams : ∀ b ∈ 0x5b :: q.params, b ≠ 0x1b ∧ b ≠ 0x6d := by
    intro b hb
    rcases List.mem_cons.mp hb with rfl | hb
    · decide
    · obtain ⟨hlo, hhi⟩ := q.params_ok b hb
      constructor
      · rintro rfl
        exact absurd hlo (by decide)
      · rintro rfl
        exact absurd hhi (by decide)
  have hfinal : q.final ≠ 0x1b := by
    rintro heq
    have := q.final_ok
    rw [heq] at this
    exact absurd this (by decide)
  have hbytes : (Item.control q).bytes = 0x1b :: ((0x5b :: q.params) ++ [q.final]) := rfl
  have hopen := hbody (0x5b :: q.params) { s with insideEscape := true } rfl hparams
  refine ⟨q.final != 0x6d, ?_⟩
  unfold videoPuts at hopen ⊢
  rw [hbytes, List.foldl_cons, videoPutc_escape, List.foldl_append, hopen, List.foldl_cons, List.foldl_nil,
    videoPutc_of_inside hfinal rfl]

/-- A stream keeps the cursor inside and the banner. -/
theorem videoPuts_safe {str : List UInt8} (h : Inside s) :
    Inside (videoPuts s str) ∧ ∀ c, Off c → (videoPuts s str).vmem c = s.vmem c := by
  induction str generalizing s with
  | nil => exact ⟨h, fun _ _ => rfl⟩
  | cons b str ih =>
    have hone : Inside (videoPutc s b) ∧ ∀ c, Off c → (videoPutc s b).vmem c = s.vmem c := by
      by_cases hesc : b = 0x1b
      · rw [hesc]
        exact ⟨⟨h.x, h.yMin, h.yMax⟩, fun _ _ => rfl⟩
      · cases hflag : s.insideEscape with
        | true =>
          rw [videoPutc_of_inside hesc hflag]
          exact ⟨⟨h.x, h.yMin, h.yMax⟩, fun _ _ => rfl⟩
        | false =>
          rw [videoPutc_of_outside hesc hflag]
          exact ⟨inside_putText h, fun _ hc => vmem_putText h hc⟩
    obtain ⟨hinside, hcells⟩ := ih hone.1
    exact ⟨hinside, fun c hc => (hcells c hc).trans (hone.2 c hc)⟩

/-! ## Text that is swallowed -/

/-- All cells of the screen but the two that store the cursor hold characters. -/
def Tidy (s : Screen) : Prop :=
  ∀ c < xMax * yMax, c ≠ curXStorageCell → c ≠ curYStorageCell → ∃ ch, s.vmem c = cellWord ch

theorem ofNat_cellWord (ch : UInt8) : UInt8.ofNat (cellWord ch) = ch := by
  refine UInt8.toNat_inj.mp ?_
  have hlt := ch.toNat_lt
  rw [UInt8.toNat_ofNat']
  unfold cellWord
  split_ifs <;> omega

theorem tidy_setCell (h : Tidy s) : Tidy (setCell s x y ch) := by
  rcases setCell_cases s x y ch with heq | ⟨-, heq⟩
  · rwa [heq]
  · rw [heq]
    intro c hc hx hy
    by_cases hat : c = xMax * y + x
    · exact ⟨ch, by rw [hat]; exact Function.update_self _ _ _⟩
    · obtain ⟨ch', hch'⟩ := h c hc hx hy
      exact ⟨ch', (Function.update_of_ne hat _ _).trans hch'⟩

theorem tidy_storeX (h : Tidy s) : Tidy (storeX s x) := by
  intro c hc hx hy
  obtain ⟨ch, hch⟩ := h c hc hx hy
  exact ⟨ch, (Function.update_of_ne hx _ _).trans hch⟩

theorem tidy_storeY (h : Tidy s) : Tidy (storeY s y) := by
  intro c hc hx hy
  obtain ⟨ch, hch⟩ := h c hc hx hy
  exact ⟨ch, (Function.update_of_ne hy _ _).trans hch⟩

theorem tidy_putText (h : Tidy s) : Tidy (putText s b) :=
  putText_induction (P := Tidy) (fun _ _ _ _ => tidy_setCell) (fun _ _ => tidy_storeX)
    (fun _ _ => tidy_storeY) (fun _ _ h => h) h

theorem getCurCell_of_inside (h : Inside s) :
    getCurCell s = UInt8.ofNat (s.vmem (xMax * getY s + getX s)) := by
  obtain ⟨hx, hlo, hhi⟩ := h
  simp only [xMax, yMin, yMax] at hx hlo hhi
  unfold getCurCell getCell
  rw [if_neg (by simp only [xMax, yMax]; omega),
    if_neg (by simp only [xMax, curXStorageCell, curYStorageCell]; omega)]

/-- The cell of the cursor holds its character. -/
theorem vmem_cursor (h : Inside s) (ht : Tidy s) :
    s.vmem (xMax * getY s + getX s) = cellWord (getCurCell s) := by
  obtain ⟨hx, hlo, hhi⟩ := h
  simp only [xMax, yMin, yMax] at hx hlo hhi
  obtain ⟨ch, hch⟩ := ht (xMax * getY s + getX s) (by simp only [xMax, yMax]; omega)
    (by simp only [xMax, curXStorageCell]; omega) (by simp only [xMax, curYStorageCell]; omega)
  rw [getCurCell_of_inside ⟨hx, hlo, hhi⟩, hch, ofNat_cellWord]

/-- A column that is stored again. -/
theorem storeX_same (h : getX s = xMin) : storeX s xMin = s := by
  have hcell : Function.update s.vmem curXStorageCell (xMin % 2 ^ 16) = s.vmem := by
    rw [Function.update_eq_self_iff]
    exact h.symm
  unfold storeX
  rw [hcell]

/-- A carriage return at the beginning of a line takes the cursor away and sets it again, unless its cell is a
blank. -/
theorem carriageReturn_same_iff (h : Inside s) (ht : Tidy s) (hx : getX s = xMin) :
    (carriageReturn s).vmem = s.vmem ↔ getCurCell s ≠ space := by
  by_cases hcur : getCurCell s = cursor
  · refine iff_of_true ?_ (by rw [hcur]; decide)
    have hremove : removeCursor s = setCurCell s space := if_pos hcur
    have hinside : Inside (setCurCell s space) :=
      ⟨by rw [getX_setCurCell]; exact h.x, by rw [getY_setCurCell]; exact h.yMin,
        by rw [getY_setCurCell]; exact h.yMax⟩
    have hblank : getCurCell (setCurCell s space) = space := by
      rw [getCurCell_of_inside hinside, getX_setCurCell, getY_setCurCell, setCurCell_of_inside h]
      dsimp only
      rw [Function.update_self, ofNat_cellWord]
    have hcell := vmem_cursor h ht
    unfold carriageReturn showCursor
    rw [hremove, storeX_same (by rw [getX_setCurCell, hx]), if_pos hblank, setCurCell_of_inside hinside,
      getX_setCurCell, getY_setCurCell, setCurCell_of_inside h]
    dsimp only
    rw [Function.update_idem, Function.update_eq_self_iff, hcell, hcur]
  · have hremove : removeCursor s = s := if_neg hcur
    unfold carriageReturn showCursor
    rw [hremove, storeX_same hx]
    by_cases hspace : getCurCell s = space
    · rw [if_pos hspace, setCurCell_of_inside h]
      refine iff_of_false (fun heq => ?_) (fun hne => hne hspace)
      dsimp only at heq
      rw [Function.update_eq_self_iff, vmem_cursor h ht, hspace] at heq
      exact absurd heq (by decide)
    · rw [if_neg hspace]
      exact iff_of_true rfl hspace

theorem acts_scrollDown : (scrollDown s).acts = s.acts ++ if getY s = yMax then [.scroll] else [] := by
  unfold scrollDown
  split_ifs
  · exact acts_shiftLine
  · exact (List.append_nil _).symm

theorem acts_lineFeed (h : getY s < yMax) :
    (lineFeed s).acts = s.acts ++ if getY s + 1 = yMax then [.scroll] else [] := by
  have hacts : (addY (removeCursor s) 1).acts = s.acts := acts_removeCursor
  rw [lineFeed, acts_showCursor, acts_scrollDown, getY_down h, hacts]

theorem acts_printable : ∃ l, (printable s ch).acts = s.acts ++ (.put (getX s) (getY s) ch :: l) := by
  have hwrap : (wrap (addX (draw s ch) 1)).acts = s.acts ++ [.put (getX s) (getY s) ch] := by
    unfold wrap
    split_ifs <;> rfl
  rw [printable, acts_setCurCell, acts_scrollDown, hwrap, List.append_assoc]
  exact ⟨_, rfl⟩

/-- **The text that may be swallowed**: only a carriage return at the beginning of a line draws and changes
nothing. -/
theorem putText_same_iff (h : Inside s) (ht : Tidy s) :
    ((putText s b).acts = s.acts ∧ (putText s b).vmem = s.vmem) ↔
      b = 0x0d ∧ getX s = xMin ∧ getCurCell s ≠ space := by
  unfold putText
  by_cases hcr : b = 0x0d
  · rw [if_pos hcr]
    have hacts : (carriageReturn s).acts = s.acts := by
      rw [carriageReturn, acts_showCursor]
      exact acts_removeCursor
    rw [and_iff_right hacts, and_iff_right hcr]
    by_cases hx : getX s = xMin
    · rw [and_iff_right hx]
      exact carriageReturn_same_iff h ht hx
    · refine iff_of_false (fun hsame => hx ?_) fun hfit => hx hfit.1
      exact (congrFun hsame curXStorageCell).symm.trans getX_carriageReturn
  · refine iff_of_false (fun hsame => ?_) fun hfit => hcr hfit.1
    rw [if_neg hcr] at hsame
    obtain ⟨hacts, hvmem⟩ := hsame
    split_ifs at hacts hvmem
    · rw [acts_lineFeed h.yMax] at hacts
      have hy : nextY (getY s) = getY s := (getY_lineFeed h.yMax).symm.trans (congrFun hvmem curYStorageCell)
      unfold nextY at hy
      by_cases hlast : getY s + 1 = yMax
      · rw [if_pos hlast] at hacts
        simp at hacts
      · rw [if_neg hlast] at hy
        omega
    · obtain ⟨l, hl⟩ : ∃ l, (printable s b).acts = _ := acts_printable
      rw [hl] at hacts
      simp at hacts

/-! ## The two screens -/

/-- The invariant: the screens are the same, and the second one is never inside of a sequence. -/
structure Inv (s : Pair) : Prop where
  inside : Inside s.plain
  tidy : Tidy s.plain
  outside : s.plain.insideEscape = false
  same : Same s

variable {p p' : Pair} {it : Item}

/-- The first screen is the second one, but for the static variable. -/
theorem Inv.real_eq (h : Inv p) : p.real = { p.plain with insideEscape := p.real.insideEscape } := by
  obtain ⟨hacts, hvmem⟩ := h.same
  dsimp only
  rw [← hacts, ← hvmem]

/-- **One item**: the screens stay the same exactly when it fits. -/
theorem Inv.right_iff (h : Inv p) : Right p it ↔ Fits p it := by
  obtain ⟨hacts, hvmem⟩ := h.same
  refine (Post.iff_of_ok rfl).trans ?_
  cases it with
  | control q =>
    obtain ⟨esc, hesc⟩ := videoPuts_control q p.real
    refine iff_of_true ?_ trivial
    unfold Same
    dsimp only
    rw [hesc]
    exact ⟨hacts, hvmem⟩
  | text b hb =>
    have hplain : videoPutc p.plain b = putText p.plain b := videoPutc_of_outside hb h.outside
    show ((videoPutc p.real b).acts = (videoPutc p.plain b).acts ∧
      (videoPutc p.real b).vmem = (videoPutc p.plain b).vmem) ↔ _
    rw [hplain]
    unfold Fits
    cases hflag : p.real.insideEscape with
    | false =>
      have hreal : p.real = p.plain := by
        rw [h.real_eq, hflag, ← h.outside]
      rw [hreal, hplain]
      exact iff_of_true ⟨rfl, rfl⟩ (.inl rfl)
    | true =>
      have hcur : getCurCell p.real = getCurCell p.plain := by
        rw [h.real_eq]
        rfl
      have hx : getX p.real = getX p.plain := congrFun hvmem curXStorageCell
      rw [videoPutc_of_inside hb hflag, hcur, hx]
      dsimp only
      rw [hacts, hvmem, eq_comm, eq_comm (b := (putText p.plain b).vmem), putText_same_iff h.inside h.tidy]
      simp

/-- **The invariant is kept** by an item behind which the screens are the same. -/
theorem Inv.step (h : Inv p) (hright : Right p it) (hstep : step p it = .ok p') : Inv p' := by
  have hsame := hright p' hstep
  obtain rfl := Except.ok.inj hstep
  cases it with
  | control q => exact ⟨h.inside, h.tidy, h.outside, hsame⟩
  | text b hb =>
    have hplain : videoPuts p.plain (Item.text b hb).plain = putText p.plain b :=
      videoPutc_of_outside hb h.outside
    refine ⟨?_, ?_, ?_, hsame⟩
    · rw [hplain]
      exact inside_putText h.inside
    · rw [hplain]
      exact tidy_putText h.tidy
    · rw [hplain, insideEscape_putText]
      exact h.outside

/-! ## The start -/

/-- What a round for one cell brings about and the other rounds keep holds behind the loop. -/
theorem forCells_of_mem {P : Screen → Prop} (hy : y ∈ ys) (hx : x ∈ xs) (hest : ∀ s, P (f s x y))
    (hkeep : ∀ s x y, P s → P (f s x y)) : P (forCells f ys xs s) := by
  obtain ⟨ys₁, ys₂, rfl⟩ := List.append_of_mem hy
  obtain ⟨xs₁, xs₂, rfl⟩ := List.append_of_mem hx
  have hrow : ∀ (l : List Nat) y s, P s → P (l.foldl (fun s x => f s x y) s) := by
    intro l y
    induction l with
    | nil => exact fun _ h => h
    | cons x l ih => exact fun s h => ih _ (hkeep s x y h)
  have hrows : ∀ (l xs : List Nat) s, P s → P (l.foldl (fun s y => xs.foldl (fun s x => f s x y) s) s) := by
    intro l xs
    induction l with
    | nil => exact fun _ h => h
    | cons y l ih => exact fun s h => ih _ (hrow xs y s h)
  unfold forCells
  rw [List.foldl_append, List.foldl_cons]
  refine hrows _ _ _ ?_
  rw [List.foldl_append, List.foldl_cons]
  exact hrow _ _ _ (hest _)

/-- The screen is cleared. -/
theorem tidy_clearScreen (s : Screen) : Tidy (clearScreen s) := by
  intro c hc hx hy
  refine ⟨space, ?_⟩
  simp only [xMax, yMax] at hc
  have hyc : c / xMax ∈ List.range yMax := List.mem_range.mpr (by simp only [xMax, yMax]; omega)
  have hxc : c % xMax ∈ List.range xMax := List.mem_range.mpr (by simp only [xMax]; omega)
  unfold clearScreen
  refine forCells_of_mem (P := fun s => s.vmem c = cellWord space) hyc hxc (fun s => ?_) fun s x y h => ?_
  · have hcell : xMax * (c / xMax) + c % xMax = c := Nat.div_add_mod c xMax
    unfold setCell
    rw [hcell, if_neg (by simp only [xMax, yMax]; omega), if_neg (by rw [not_or]; exact ⟨hx, hy⟩)]
    exact Function.update_self _ _ _
  · rcases setCell_cases s x y space with heq | ⟨-, heq⟩
    · rwa [heq]
    · rw [heq]
      by_cases hat : c = xMax * y + x
      · rw [hat]
        exact Function.update_self _ _ _
      · exact (Function.update_of_ne hat _ _).trans h

/-- Text outside of sequences. -/
theorem videoPuts_text {str : List UInt8} (hstr : ∀ b ∈ str, b ≠ 0x1b) (ht : Tidy s)
    (h : s.insideEscape = false) : Tidy (videoPuts s str) ∧ (videoPuts s str).insideEscape = false := by
  induction str generalizing s with
  | nil => exact ⟨ht, h⟩
  | cons b str ih =>
    have hone := videoPutc_of_outside (hstr b List.mem_cons_self) h
    show Tidy (videoPuts (videoPutc s b) str) ∧ (videoPuts (videoPutc s b) str).insideEscape = false
    rw [hone]
    exact ih (fun b' hb' => hstr b' (List.mem_cons_of_mem _ hb')) (tidy_putText ht)
      (insideEscape_putText.trans h)

/-- A line of text whose characters are no escapes. -/
theorem line_text {l : List Char} (h : l.all (fun ch => UInt8.ofNat ch.toNat != 0x1b) = true) :
    ∀ b ∈ (String.ofList l).toList.map fun ch => UInt8.ofNat ch.toNat, b ≠ 0x1b := by
  intro b hb
  obtain ⟨ch, hch, rfl⟩ := List.mem_map.mp hb
  rw [String.toList_ofList] at hch
  exact bne_iff_ne.mp (List.all_eq_true.mp h ch hch)

theorem banner_text : ∀ b ∈ banner, b ≠ 0x1b := by
  intro b hb
  obtain ⟨line, hline, hb⟩ := List.mem_flatMap.mp hb
  simp only [List.mem_cons, List.not_mem_nil, or_false] at hline
  rcases hline with rfl | rfl | rfl | rfl | rfl
  · exact line_text (by decide +kernel) b hb
  · exact line_text (by decide +kernel) b hb
  · exact line_text (by decide +kernel) b hb
  · exact line_text (by decide +kernel) b hb
  · exact line_text (by decide +kernel) b hb

/-- The cursor is in the first cell below the banner, and the filter is outside of a sequence. -/
structure Fresh (s : Screen) : Prop where
  x : getX s = xMin
  y : getY s = yMin
  out : s.insideEscape = false

theorem fresh_setCell (h : Fresh s) : Fresh (setCell s x y ch) :=
  ⟨getX_setCell.trans h.x, getY_setCell.trans h.y, insideEscape_setCell.trans h.out⟩

theorem fresh_store (h : s.insideEscape = false) : Fresh (storeY (storeX s xMin) yMin) :=
  ⟨getX_storeY.trans getX_storeX, getY_storeY, h⟩

theorem fresh_acts {l : List Act} (h : Fresh s) : Fresh { s with acts := l } := ⟨h.x, h.y, h.out⟩

theorem tidy_acts {l : List Act} (h : Tidy s) : Tidy { s with acts := l } := h

theorem fresh_clearScreen (h : Fresh s) : Fresh (clearScreen s) := by
  unfold clearScreen
  exact forCells_induction (fun _ _ _ _ _ => fresh_setCell) h

/-- Printing the banner brings the cursor back. -/
theorem printBanner_spec (h : Fresh s) (ht : Tidy s) : Fresh (printBanner s) ∧ Tidy (printBanner s) := by
  unfold printBanner
  dsimp only
  have hhead : Fresh (forCells (fun s x y => setCell s x y space) (List.range yMin) (List.range xMax) s) :=
    forCells_induction (fun _ _ _ _ _ => fresh_setCell) h
  have htop : Tidy (forCells (fun s x y => setCell s x y space) (List.range yMin) (List.range xMax) s) :=
    forCells_induction (fun _ _ _ _ _ => tidy_setCell) ht
  generalize forCells (fun s x y => setCell s x y space) (List.range yMin) (List.range xMax) s = t
    at hhead htop
  obtain ⟨hbanner, hout⟩ := videoPuts_text banner_text (tidy_storeY (y := 0) (tidy_storeX (x := xMin) htop))
    hhead.out
  generalize videoPuts (storeY (storeX t xMin) 0) banner = u at hbanner hout
  rw [hhead.x, hhead.y]
  exact ⟨fresh_store (insideEscape_setCell.trans hout), tidy_storeY (tidy_storeX (tidy_setCell hbanner))⟩

/-- **The start**: the cursor is in the first cell below the banner. -/
theorem start_spec (mem : Nat → Nat) : Fresh (start mem) ∧ Tidy (start mem) := by
  have hclear : Fresh (clearScreen (storeY (storeX ⟨mem, false, []⟩ xMin) yMin)) :=
    fresh_clearScreen (fresh_store rfl)
  obtain ⟨hfresh, htidy⟩ := printBanner_spec hclear (tidy_clearScreen _)
  unfold start videoInit
  exact ⟨fresh_acts hfresh, tidy_acts htidy⟩

theorem start_inv (mem : Nat → Nat) : Inv ⟨start mem, start mem⟩ := by
  obtain ⟨⟨hx, hy, hout⟩, htidy⟩ := start_spec mem
  refine ⟨⟨?_, ?_, ?_⟩, htidy, hout, rfl, rfl⟩
  · rw [hx]
    decide
  · rw [hy]
  · rw [hy]
    decide

/-! ## Every stream -/

/-- **The screen.**  Behind every stream the cursor is inside of the screen and below the banner, and of the
banner only the cells that store the cursor have changed.  A stream is drawn as if its control sequences were
removed exactly when all its text comes outside of sequences, but for carriage returns that do nothing. -/
theorem video_iff (mem : Nat → Nat) :
    (∀ str, Inside (videoPuts (start mem) str) ∧
      ∀ c, Off c → (videoPuts (start mem) str).vmem c = (start mem).vmem c) ∧
    ∀ items, Meets step Right ⟨start mem, start mem⟩ items ↔
      Meets step Fits ⟨start mem, start mem⟩ items := by
  refine ⟨fun str => videoPuts_safe (start_inv mem).inside, fun items => ⟨?_, ?_⟩⟩
  · exact Meets.of_invariant (fun _ _ _ h => h.step) (fun _ _ h => h.right_iff.mp) (start_inv mem)
  · exact Meets.of_invariant (fun _ _ _ h hfit => h.step (h.right_iff.mpr hfit))
      (fun _ _ h => h.right_iff.mpr) (start_inv mem)

/-- The sequence that moves the cursor to the left. -/
def left : Sequence := ⟨[], 0x44, nofun, .inl (by decide)⟩

theorem videoPuts_left : (videoPuts s (Item.control left).bytes).insideEscape = true := rfl

/-- A letter behind the sequence that the line editor of the shell puts out is not drawn. -/
theorem left_swallows : ¬ Meets step Right ⟨start fun _ => 0, start fun _ => 0⟩
    [.control left, .text 0x61 (by decide)] := by
  rintro ⟨hleft, hrest⟩
  obtain ⟨hright, -⟩ := hrest _ rfl
  have hinv := (start_inv fun _ => 0).step hleft rfl
  rcases hinv.right_iff.mp hright with hout | ⟨hcr, -⟩
  · exact Bool.noConfusion (hout.symm.trans videoPuts_left)
  · exact absurd hcr (by decide)

end Video
end Wrmos
