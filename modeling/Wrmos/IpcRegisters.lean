import Wrmos.IpcSpec

/-!
# Which registers an IPC reads and writes

`do_normal_ipc` takes the number of untyped and of typed words from the tag of the sender and compares
neither with the 256 message registers of a UTCB.  The tag has room for 255 untyped words, so the words
that are only copied stay inside; 63 typed words behind them do not.  The buffer registers are counted by
the string items: each one takes two more of the 33, as long as the receiver marks no buffer as the last.

`ipcRegs` and `resumeRegs` are the registers that a call accesses, up to its end or to a page fault, and
behind a page fault.  `confined_iff` is the condition on the tag under which no content of the registers,
and nothing that happens during the page faults, takes the call out of the arrays; that the loop ends
needs no condition.
-/

namespace Wrmos

open Lib

/-- `L4_utcb_t::Mr_words`. -/
def mrWords : Nat := 256

/-- The buffer registers of `L4_utcb_t`. -/
def brWords : Nat := 33

/-- A register that is accessed: of the sender or of the receiver. -/
inductive UtcbReg where
  | sndMr (i : Nat)
  | rcvMr (i : Nat)
  | rcvBr (i : Nat)
  deriving DecidableEq, Repr

/-- The register exists. -/
def UtcbReg.InArray : UtcbReg → Prop
  | .sndMr i => i < mrWords
  | .rcvMr i => i < mrWords
  | .rcvBr i => i < brWords

instance (r : UtcbReg) : Decidable r.InArray := by
  cases r <;> unfold UtcbReg.InArray <;> infer_instance

namespace Kern

variable {A : Arch} {kioSz : Nat} {k k' : Kern} {snd rcv tag : Nat} {l l' : ItemLoop} {f : Flags}

/-! ## The registers of a call -/

/-- The tag and the untyped words. -/
def headerRegs (A : Arch) (tag : Nat) : List UtcbReg :=
  .sndMr 0 :: .rcvMr 0 ::
    (List.range (Tag.untyped A tag)).flatMap fun i => [.sndMr (i + 1), .rcvMr (i + 1)]

/-- A map or grant item, behind its first word; the acceptor is read for memory only. -/
def mapRegs (A : Arch) (l : ItemLoop) : List UtcbReg :=
  .sndMr (l.i + 1) ::
    if Fpage.isComplete A l.fp then []
    else if Fpage.isIo l.fp = true ∨ Fpage.isNil l.fp = true then [.rcvMr l.i, .rcvMr (l.i + 1)]
    else [.rcvBr 0, .rcvMr l.i, .rcvMr (l.i + 1)]

/-- A string item, behind its first word; the tags are written when the string does not fit. -/
def stringRegs (A : Arch) (r : Thread) (l : ItemLoop) : List UtcbReg :=
  .rcvBr 0 ::
    if bits (r.utcb.br 0) 0 1 ≠ 1 then []
    else
      match l.nextBuf with
      | none => []
      | some nb =>
        .rcvBr nb :: .rcvBr (nb + 1) :: .rcvMr l.i ::
          if 1 < Item.substringNumber A l.w0 ∨ 1 < Item.substringNumber A (r.utcb.br nb) then []
          else [.sndMr (l.i + 1), .rcvMr (l.i + 1), .sndMr 0, .rcvMr 0]

/-- The words of the item at which the loop stands. -/
def read (k : Kern) (snd : Nat) (l : ItemLoop) : ItemLoop :=
  { l with w0 := (k.ts.thr snd).utcb.mr l.i, fp := (k.ts.thr snd).utcb.mr (l.i + 1) }

/-- One round of the loop over the typed items. -/
def roundRegs (A : Arch) (k : Kern) (snd rcv : Nat) (l : ItemLoop) : List UtcbReg :=
  let l := k.read snd l
  if l.i = lastReg A l then []
  else .sndMr l.i ::
    if Item.isMap A l.w0 || Item.isGrant A l.w0 then mapRegs A l
    else if Item.isString A l.w0 then stringRegs A (k.ts.thr rcv) l
    else []

/-- The loop over the typed items, with the rounds that `itemLoop` makes. -/
def loopRegs (A : Arch) (kioSz snd rcv : Nat) : Nat → Kern → ItemLoop → List UtcbReg
  | rounds, k, l =>
    if lastReg A l < l.i then []
    else
      match rounds with
      | 0 => []
      | n + 1 =>
        k.roundRegs A snd rcv l ++
          match k.itemRound A kioSz snd rcv l with
          | .ok (.next k l) => loopRegs A kioSz snd rcv n k l
          | _ => []

/-- The state in which the loop starts. -/
def loopStart (A : Arch) (k : Kern) (snd rcv : Nat) (f : Flags) : Kern :=
  k.upd rcv (Thread.copyHeader A (k.ts.thr snd) f.propagated f.useLocal)

/-- The variables with which the loop starts. -/
def loopInit (A : Arch) (tag : Nat) : ItemLoop := ⟨tag, Tag.untyped A tag + 1, some 1, 0, 0, 0⟩

/-- `do_normal_ipc`, up to its end or to the first `process_pfault`. -/
def ipcRegs (A : Arch) (kioSz : Nat) (k : Kern) (snd rcv : Nat) (f : Flags) : List UtcbReg :=
  let tag := (k.ts.thr snd).utcb.mr 0
  if snd = rcv then []
  else headerRegs A tag ++
    loopRegs A kioSz snd rcv (Tag.typed A tag + 1) (k.loopStart A snd rcv f) (loopInit A tag)

/-- `do_normal_ipc` behind its `process_pfault`. -/
def resumeRegs (A : Arch) (kioSz : Nat) (k : Kern) (snd rcv : Nat) (l : ItemLoop) : List UtcbReg :=
  match k.mem.cached A (k.ts.thr snd).task l.fp with
  | none => []
  | some cached =>
    .rcvBr 0 :: .sndMr l.i :: .rcvMr l.i :: .rcvMr (l.i + 1) ::
      match k.mapMem A snd rcv l cached with
      | .ok k => loopRegs A kioSz snd rcv (Tag.typed A l.tag + 1) k { l with i := l.i + 2 }
      | .error _ => []

/-- The loop of a message with the tag waits for the end of a page fault, after `n` others.  Each time
it goes on the kernel may be in any state. -/
inductive Suspended (A : Arch) (kioSz snd rcv tag : Nat) : Nat → ItemLoop → Prop
  | first {k k' : Kern} {f : Flags} {l : ItemLoop} : (k.ts.thr snd).utcb.mr 0 = tag →
      k.doNormalIpc A kioSz snd rcv f = .ok (k', some l) → Suspended A kioSz snd rcv tag 0 l
  | again {k k' : Kern} {n : Nat} {l l' : ItemLoop} : Suspended A kioSz snd rcv tag n l →
      k.resumeItems A kioSz snd rcv l = .ok (k', some l') → Suspended A kioSz snd rcv tag (n + 1) l'

/-! ## Where the loop stands -/

/-- The loop over the items of a message with the tag has taken `n` of them. -/
structure Placed (A : Arch) (tag n : Nat) (l : ItemLoop) : Prop where
  same : l.tag = tag
  reg : l.i = Tag.untyped A tag + 1 + 2 * n
  buf : ∀ nb, l.nextBuf = some nb → nb ≤ 2 * n + 1

theorem Placed.last_eq {n : Nat} (h : Placed A tag n l) :
    lastReg A l = Tag.untyped A tag + Tag.typed A tag := by
  rw [lastReg, h.same]

theorem placed_init (A : Arch) (tag : Nat) : Placed A tag 0 (loopInit A tag) :=
  ⟨rfl, rfl, fun _ h => (Option.some.inj h).symm.le⟩

/-- The item is done behind a page fault. -/
theorem Placed.resumed {n : Nat} (h : Placed A tag n l) :
    Placed A tag (n + 1) { l with i := l.i + 2 } :=
  ⟨h.same, by dsimp only; rw [h.reg]; omega, fun nb hnb => (h.buf nb hnb).trans (by omega)⟩

/-- Where a round of the loop leaves it. -/
def ItemOut.Placed (A : Arch) (tag n : Nat) : ItemOut → Prop
  | .next _ l => Kern.Placed A tag (n + 1) l
  | .done _ => True
  | .fault l => Kern.Placed A tag n l ∧ l.i ≠ Kern.lastReg A l

theorem mapRound_placed {n : Nat} (h : Placed A tag n l) (hlast : l.i ≠ lastReg A l) :
    Post (k.mapRound A snd rcv l) (ItemOut.Placed A tag n) := by
  have hnext := h.resumed
  unfold mapRound
  refine Post.ite (fun _ => Post.error) fun _ => Post.ite (fun _ => ?_) fun _ =>
    Post.ite (fun _ => Post.ok hnext) fun _ => ?_
  · exact Post.bind_any fun _ _ => Post.bind_any fun _ _ => Post.bind_any fun _ _ => Post.pure hnext
  · split
    · exact Post.ok ⟨h, hlast⟩
    · exact Post.bind_any fun _ _ => Post.pure hnext

theorem stringRound_placed {n : Nat} (h : Placed A tag n l) :
    Post (k.stringRound A kioSz snd rcv l) (ItemOut.Placed A tag n) := by
  unfold stringRound
  refine Post.ensure fun _ => ?_
  split
  · exact Post.error
  · rename_i nb hnb
    refine Post.ensure fun _ => Post.ensure fun hsub => Post.bind_any fun m _ =>
      Post.ite (fun _ => Post.pure trivial) fun _ => Post.ensure fun _ => Post.ensure fun _ =>
        Post.pure ⟨h.same, by dsimp only; rw [h.reg]; omega, fun nb' hnb' => ?_⟩
    -- compound buffers are refused, so a buffer has two registers
    have hnb := h.buf nb hnb
    dsimp only at hnb'
    split_ifs at hnb'
    have := Option.some.inj hnb'
    omega

theorem itemRound_placed {n : Nat} (h : Placed A tag n l) :
    Post (k.itemRound A kioSz snd rcv l) (ItemOut.Placed A tag n) := by
  have h' : ∀ w0 fp, Placed A tag n { l with w0 := w0, fp := fp } := fun _ _ => ⟨h.same, h.reg, h.buf⟩
  unfold itemRound
  exact Post.ensure fun hlast => Post.ite (fun _ => mapRound_placed (h' _ _) hlast) fun _ =>
    Post.ite (fun _ => stringRound_placed (h' _ _)) fun _ => Post.error

/-- The registers of the items of a message with the tag exist. -/
structure TagFits (A : Arch) (tag : Nat) : Prop where
  mr : Tag.untyped A tag + 2 * (Tag.typed A tag / 2) < mrWords
  br : 2 * (Tag.typed A tag / 2) < brWords

instance (A : Arch) (tag : Nat) : Decidable (TagFits A tag) :=
  decidable_of_iff (Tag.untyped A tag + 2 * (Tag.typed A tag / 2) < mrWords ∧
    2 * (Tag.typed A tag / 2) < brWords) ⟨fun h => ⟨h.1, h.2⟩, fun h => ⟨h.mr, h.br⟩⟩

/-- The registers of an item that the loop stands at. -/
theorem Placed.bounds {n : Nat} (h : Placed A tag n l) (hfits : TagFits A tag)
    (hle : l.i ≤ lastReg A l) (hlast : l.i ≠ lastReg A l) :
    l.i + 1 < mrWords ∧ ∀ nb, l.nextBuf = some nb → nb + 1 < brWords := by
  have hmr := hfits.mr
  have hbr := hfits.br
  rw [h.last_eq, h.reg] at hle hlast
  refine ⟨by rw [h.reg]; omega, fun nb hnb => ?_⟩
  have hnb' := h.buf nb hnb
  omega

theorem mapRegs_inArray (hi : l.i + 1 < mrWords) : ∀ r ∈ mapRegs A l, r.InArray := by
  have hi' : l.i < mrWords := by omega
  have hbr : 0 < brWords := by decide
  unfold mapRegs
  split_ifs <;> simp [UtcbReg.InArray, hi, hi', hbr]

theorem stringRegs_inArray {r : Thread} (hi : l.i + 1 < mrWords)
    (hbuf : ∀ nb, l.nextBuf = some nb → nb + 1 < brWords) :
    ∀ x ∈ stringRegs A r l, x.InArray := by
  have hi' : l.i < mrWords := by omega
  have hmr : 0 < mrWords := by decide
  have hbr : 0 < brWords := by decide
  unfold stringRegs
  split_ifs
  · simp [UtcbReg.InArray, hbr]
  · cases hnb : l.nextBuf with
    | none => simp [UtcbReg.InArray, hbr]
    | some nb =>
      have hb := hbuf nb hnb
      have hb' : nb < brWords := by omega
      dsimp only
      split_ifs <;> simp [UtcbReg.InArray, hi, hi', hmr, hbr, hb, hb']

theorem roundRegs_inArray {n : Nat} (h : Placed A tag n l) (hfits : TagFits A tag)
    (hle : l.i ≤ lastReg A l) : ∀ r ∈ k.roundRegs A snd rcv l, r.InArray := by
  unfold roundRegs
  dsimp only
  split_ifs with hlast hmap hstr
  · exact fun r hr => absurd hr List.not_mem_nil
  all_goals
    obtain ⟨hi, hbuf⟩ := h.bounds hfits hle hlast
    refine List.forall_mem_cons.mpr ⟨Nat.lt_of_succ_lt hi, ?_⟩
  · exact mapRegs_inArray hi
  · exact stringRegs_inArray hi hbuf
  · exact fun r hr => absurd hr List.not_mem_nil

theorem loopRegs_inArray (hfits : TagFits A tag) :
    ∀ {rounds n : Nat} {k : Kern} {l : ItemLoop}, Placed A tag n l →
      ∀ r ∈ loopRegs A kioSz snd rcv rounds k l, r.InArray := by
  intro rounds
  induction rounds with
  | zero =>
    intro n k l h r hr
    simp [loopRegs] at hr
  | succ rounds ih =>
    intro n k l h
    unfold loopRegs
    split_ifs with hle
    · exact fun r hr => absurd hr List.not_mem_nil
    refine List.forall_mem_append.mpr ⟨roundRegs_inArray h hfits (not_lt.mp hle), ?_⟩
    have hround := @itemRound_placed A kioSz k snd rcv tag l n h
    cases hout : k.itemRound A kioSz snd rcv l with
    | error e => exact fun r hr => absurd hr List.not_mem_nil
    | ok out =>
      cases out with
      | next k' l' => exact ih (hround _ hout)
      | done k' => exact fun r hr => absurd hr List.not_mem_nil
      | fault l' => exact fun r hr => absurd hr List.not_mem_nil

/-- Where the loop stands when it waits for a page fault. -/
theorem itemLoop_placed :
    ∀ {rounds n : Nat} {k k' : Kern} {l l' : ItemLoop}, Placed A tag n l →
      itemLoop A kioSz snd rcv rounds k l = .ok (k', some l') →
      ∃ m, n ≤ m ∧ Placed A tag m l' ∧ l'.i < lastReg A l' := by
  intro rounds
  induction rounds with
  | zero =>
    intro n k k' l l' h hok
    unfold itemLoop at hok
    split_ifs at hok
    cases hok
  | succ rounds ih =>
    intro n k k' l l' h hok
    unfold itemLoop at hok
    split_ifs at hok with hle
    · cases hok
    obtain ⟨out, hout, hok⟩ := bind_eq_ok.mp hok
    have hround := itemRound_placed h _ hout
    cases out with
    | next k₁ l₁ =>
      obtain ⟨m, hm, hplaced⟩ := ih hround hok
      exact ⟨m, by omega, hplaced⟩
    | done k₁ => cases hok
    | fault l₁ =>
      obtain ⟨-, hl⟩ := Prod.mk.inj (Except.ok.inj hok)
      obtain rfl := Option.some.inj hl
      obtain ⟨hplaced, hne⟩ := hround
      refine ⟨n, Nat.le_refl n, hplaced, lt_of_le_of_ne ?_ hne⟩
      rw [hplaced.last_eq, hplaced.reg]
      rw [h.last_eq, h.reg] at hle
      exact not_lt.mp hle

/-- The loop does not use more rounds than it has. -/
theorem itemLoop_rounds (m : Nat) :
    ∀ {rounds n : Nat} {k : Kern} {l : ItemLoop}, Placed A tag n l → lastReg A l < l.i + 2 * rounds →
      itemLoop A kioSz snd rcv (rounds + m) k l = itemLoop A kioSz snd rcv rounds k l := by
  intro rounds
  induction rounds with
  | zero =>
    intro n k l h hlt
    rw [Nat.mul_zero, Nat.add_zero] at hlt
    unfold itemLoop
    rw [if_pos hlt, if_pos hlt]
  | succ rounds ih =>
    intro n k l h hlt
    rw [Nat.succ_add]
    unfold itemLoop
    split_ifs with hle
    · rfl
    dsimp only
    have hround := @itemRound_placed A kioSz k snd rcv tag l n h
    cases hout : k.itemRound A kioSz snd rcv l with
    | error e => rfl
    | ok out =>
      cases out with
      | next k' l' =>
        have hnext : Placed A tag (n + 1) l' := hround _ hout
        refine ih hnext ?_
        rw [hnext.last_eq, hnext.reg]
        rw [h.last_eq, h.reg] at hlt
        omega
      | done k' => rfl
      | fault l' => rfl

/-- Where the loop stands after a number of page faults. -/
theorem Suspended.placed {n : Nat} (h : Suspended A kioSz snd rcv tag n l) :
    ∃ m, n ≤ m ∧ Placed A tag m l ∧ l.i < lastReg A l := by
  induction h with
  | first htag hok =>
    obtain ⟨-, hok⟩ := ensure_bind_eq_ok.mp hok
    rw [htag] at hok
    obtain ⟨m, -, hplaced⟩ := itemLoop_placed (placed_init A tag) hok
    exact ⟨m, Nat.zero_le m, hplaced⟩
  | again _ hok ih =>
    obtain ⟨m, hm, hplaced, -⟩ := ih
    unfold resumeItems at hok
    split at hok
    · cases hok
    · obtain ⟨k₁, -, hok⟩ := bind_eq_ok.mp hok
      obtain ⟨m', hm', hplaced'⟩ := itemLoop_placed (hplaced.resumed) hok
      exact ⟨m', by omega, hplaced'⟩

/-! ## Messages that get far -/

/-- A message in which every item has the same two words. -/
def sameItems (A : Arch) (tag w0 w1 : Nat) : Nat → Nat := fun i =>
  if i = 0 then tag else if (i - Tag.untyped A tag) % 2 = 1 then w0 else w1

/-- A kernel whose threads 0 and 1 have these registers. -/
def withRegs (A : Arch) (mr br : Nat → Nat) : Kern :=
  Kern.start A (((Threads.init A).upd 0 fun th => { th with utcb := { th.utcb with mr := mr } }).upd 1
    fun th => { th with utcb := { th.utcb with br := br } }) 0

/-- The first word of a string item without bytes that is not the last one. -/
def emptyString (A : Arch) : Nat := A.setField A.wordBits (A.wordBits - 1) 1 0 1

/-- The loop over the items of a message from thread 0 to thread 1 has taken `n` of them, and the words
that it reads are as they were. -/
structure Standing (A : Arch) (tag : Nat) (mr br : Nat → Nat) (n : Nat) (k : Kern) (l : ItemLoop) :
    Prop where
  placed : Placed A tag n l
  mr : (k.ts.thr 0).utcb.mr = mr
  br : (k.ts.thr 1).utcb.br = br

theorem Standing.setItem {mr br : Nat → Nat} {n m i : Nat} {item : Nat × Nat}
    (h : Standing A tag mr br n k l) (hl : Placed A tag m l') :
    Standing A tag mr br m (k.upd 1 (Thread.setItem i item)) l' :=
  ⟨hl, h.mr, h.br⟩

theorem Standing.putMem {mr br : Nat → Nat} {n : Nat} (h : Standing A tag mr br n k l) (m : Mem) :
    Standing A tag mr br n { k with mem := m } l :=
  ⟨h.placed, h.mr, h.br⟩

theorem standing_start (A : Arch) (tag : Nat) (f : Flags) {mr br : Nat → Nat} :
    Standing A tag mr br 0 ((withRegs A mr br).loopStart A 0 1 f) (loopInit A tag) :=
  ⟨placed_init A tag, rfl, rfl⟩

theorem Standing.words {w0 w1 n : Nat} {br : Nat → Nat}
    (h : Standing A tag (sameItems A tag w0 w1) br n k l) :
    (k.ts.thr 0).utcb.mr l.i = w0 ∧ (k.ts.thr 0).utcb.mr (l.i + 1) = w1 := by
  rw [h.mr, h.placed.reg]
  unfold sameItems
  constructor
  · rw [if_neg (by omega), if_pos (by omega)]
  · rw [if_neg (by omega), if_neg (by omega)]

theorem itemRound_of_map (hlast : l.i ≠ lastReg A l)
    (hmap : (Item.isMap A (k.read snd l).w0 || Item.isGrant A (k.read snd l).w0) = true) :
    k.itemRound A kioSz snd rcv l = k.mapRound A snd rcv (k.read snd l) :=
  (ensure_bind_of hlast).trans (if_pos hmap)

theorem itemRound_of_string (hlast : l.i ≠ lastReg A l)
    (hmap : (Item.isMap A (k.read snd l).w0 || Item.isGrant A (k.read snd l).w0) = false)
    (hstr : Item.isString A (k.read snd l).w0 = true) :
    k.itemRound A kioSz snd rcv l = k.stringRound A kioSz snd rcv (k.read snd l) := by
  refine (ensure_bind_of hlast).trans ((if_neg ?_).trans (if_pos hstr))
  exact fun h => Bool.false_ne_true (hmap.symm.trans h)

theorem roundRegs_of_map (hlast : l.i ≠ lastReg A l)
    (hmap : (Item.isMap A (k.read snd l).w0 || Item.isGrant A (k.read snd l).w0) = true) :
    k.roundRegs A snd rcv l = .sndMr l.i :: mapRegs A (k.read snd l) :=
  (if_neg hlast).trans (congrArg (List.cons (UtcbReg.sndMr l.i)) (if_pos hmap))

theorem roundRegs_of_string (hlast : l.i ≠ lastReg A l)
    (hmap : (Item.isMap A (k.read snd l).w0 || Item.isGrant A (k.read snd l).w0) = false)
    (hstr : Item.isString A (k.read snd l).w0 = true) :
    k.roundRegs A snd rcv l = .sndMr l.i :: stringRegs A (k.ts.thr rcv) (k.read snd l) := by
  refine (if_neg hlast).trans (congrArg (List.cons (UtcbReg.sndMr l.i)) ((if_neg ?_).trans (if_pos hstr)))
  exact fun h => Bool.false_ne_true (hmap.symm.trans h)

theorem Standing.read_eq {w0 w1 n : Nat} {br : Nat → Nat}
    (h : Standing A tag (sameItems A tag w0 w1) br n k l) :
    k.read 0 l = { l with w0 := w0, fp := w1 } := by
  rw [read, h.words.1, h.words.2]

/-- A map item without a flexpage is taken. -/
theorem itemRound_nil {n : Nat} {br : Nat → Nat}
    (h : Standing A tag (sameItems A tag (Item.mapWord0 A) Fpage.nil) br n k l)
    (hlast : l.i ≠ lastReg A l) :
    ∃ k' l', k.itemRound A kioSz 0 1 l = .ok (.next k' l') ∧
      Standing A tag (sameItems A tag (Item.mapWord0 A) Fpage.nil) br (n + 1) k' l' := by
  have hmap : (Item.isMap A (Item.mapWord0 A) || Item.isGrant A (Item.mapWord0 A)) = true := by
    cases A <;> decide
  have hnil : Fpage.isComplete A Fpage.nil = false ∧ Fpage.isIo Fpage.nil = false ∧
      Fpage.isNil Fpage.nil = true := by
    cases A <;> decide
  rw [itemRound_of_map hlast (by rw [h.read_eq]; exact hmap), h.read_eq]
  unfold mapRound
  dsimp only
  rw [if_neg (by rw [hnil.1]; decide), if_neg (by rw [hnil.2.1]; decide), if_pos hnil.2.2]
  have hplaced := h.placed.resumed
  exact ⟨_, _, rfl, h.setItem ⟨hplaced.same, hplaced.reg, hplaced.buf⟩⟩

/-- Buffer `n` of the receiver is a simple one, and not the last. -/
def Open (A : Arch) (br : Nat → Nat) (n : Nat) : Prop :=
  Item.isLast A (br (2 * n + 1)) = false ∧ Item.substringNumber A (br (2 * n + 1)) ≤ 1

/-- A string item without bytes is taken when there is a buffer for it. -/
theorem itemRound_string {n : Nat} {br : Nat → Nat}
    (h : Standing A tag (sameItems A tag (emptyString A) 0) br n k l)
    (hnb : l.nextBuf = some (2 * n + 1)) (hacc : bits (br 0) 0 1 = 1) (hopen : Open A br n)
    (hle : l.i + 2 ≤ lastReg A l) :
    ∃ k' l', k.itemRound A kioSz 0 1 l = .ok (.next k' l') ∧
      Standing A tag (sameItems A tag (emptyString A) 0) br (n + 1) k' l' ∧
      l'.nextBuf = some (2 * (n + 1) + 1) := by
  have hword : (Item.isMap A (emptyString A) || Item.isGrant A (emptyString A)) = false ∧
      Item.isString A (emptyString A) = true ∧ Item.substringNumber A (emptyString A) ≤ 1 ∧
      Item.length A (emptyString A) = 0 ∧ Item.isLast A (emptyString A) = false := by
    cases A <;> decide
  obtain ⟨hmap, hstr, hsub, hlen, hlast⟩ := hword
  have hne : l.i ≠ lastReg A l := by omega
  have hone : Item.substringNumber A (br (2 * n + 1)) = 1 :=
    Nat.le_antisymm hopen.2 (Nat.le_add_left 1 _)
  rw [itemRound_of_string hne (by rw [h.read_eq]; exact hmap) (by rw [h.read_eq]; exact hstr), h.read_eq]
  unfold stringRound
  dsimp only
  rw [h.br, ensure_bind_of hacc, hnb]
  dsimp only
  rw [ensure_bind_of hsub, ensure_bind_of hopen.2, hlen, Nat.zero_min]
  -- nothing is copied
  have hcopy : ∀ s r src dst (g : Mem → Except Stop ItemOut),
      (k.mem.copyThreadBuf A kioSz k.curTask s r src dst 0 >>= g) = g k.mem :=
    fun _ _ _ _ _ => rfl
  rw [hcopy, if_neg (Nat.lt_irrefl 0), ensure_bind_of (.inr hle), ensure_bind_of (.inl hlast),
    if_neg (by rw [hopen.1]; decide), hone]
  have hplaced := h.placed.resumed
  refine ⟨_, _, rfl, (h.putMem k.mem).setItem ⟨hplaced.same, hplaced.reg, fun nb hnb' => ?_⟩, ?_⟩
  · have hnb'' := Option.some.inj hnb'
    omega
  · exact congrArg some (by omega)

/-- The loop gets to every item behind items that are taken. -/
theorem roundRegs_mem_loopRegs {P : Nat → Kern → ItemLoop → Prop} {N : Nat}
    (hstep : ∀ n < N, ∀ k l, P n k l → l.i ≤ lastReg A l ∧
      ∃ k' l', k.itemRound A kioSz snd rcv l = .ok (.next k' l') ∧ P (n + 1) k' l')
    (hlast : ∀ k l, P N k l → l.i ≤ lastReg A l) :
    ∀ {rounds n : Nat} {k : Kern} {l : ItemLoop}, n ≤ N → N - n < rounds → P n k l →
      ∃ k' l', P N k' l' ∧ ∀ r ∈ k'.roundRegs A snd rcv l', r ∈ loopRegs A kioSz snd rcv rounds k l := by
  intro rounds
  induction rounds with
  | zero => intro n k l _ hlt; exact absurd hlt (Nat.not_lt_zero _)
  | succ rounds ih =>
    intro n k l hn hlt hP
    rcases Nat.eq_or_lt_of_le hn with rfl | hn
    · refine ⟨k, l, hP, fun r hr => ?_⟩
      unfold loopRegs
      rw [if_neg (not_lt.mpr (hlast k l hP))]
      exact List.mem_append_left _ hr
    · obtain ⟨hle, k₁, l₁, hround, hP₁⟩ := hstep n hn k l hP
      obtain ⟨k', l', hP', hmem⟩ := ih hn (by omega) hP₁
      refine ⟨k', l', hP', fun r hr => ?_⟩
      unfold loopRegs
      rw [if_neg (not_lt.mpr hle)]
      dsimp only
      rw [hround]
      exact List.mem_append_right _ (hmem r hr)

theorem ipcRegs_of_loop {mr br : Nat → Nat} {r : UtcbReg} (htag : mr 0 = tag)
    (h : r ∈ loopRegs A kioSz 0 1 (Tag.typed A tag + 1) ((withRegs A mr br).loopStart A 0 1 f)
      (loopInit A tag)) : r ∈ (withRegs A mr br).ipcRegs A kioSz 0 1 f := by
  have hmr : ((withRegs A mr br).ts.thr 0).utcb.mr 0 = tag := htag
  simp only [ipcRegs, hmr]
  rw [if_neg (by decide)]
  exact List.mem_append_right _ h

theorem untyped_lt (A : Arch) (tag : Nat) : Tag.untyped A tag < mrWords := bits_lt _ _ 8

/-- A message with too many words is read to its end when every item is a map item without a
flexpage. -/
theorem exists_mr_of_not_fits (kioSz : Nat) (f : Flags) (br : Nat → Nat)
    (h : ¬ Tag.untyped A tag + 2 * (Tag.typed A tag / 2) < mrWords) :
    ∃ r ∈ (withRegs A (sameItems A tag (Item.mapWord0 A) Fpage.nil) br).ipcRegs A kioSz 0 1 f,
      ¬ r.InArray := by
  have hun := untyped_lt A tag
  -- all items before the last one are taken
  have hlt : ∀ {n k l}, n ≤ Tag.typed A tag / 2 - 1 →
      Standing A tag (sameItems A tag (Item.mapWord0 A) Fpage.nil) br n k l → l.i < lastReg A l := by
    intro n k l hn hP
    rw [hP.placed.last_eq, hP.placed.reg]
    omega
  have hstep : ∀ n < Tag.typed A tag / 2 - 1, ∀ k l,
      Standing A tag (sameItems A tag (Item.mapWord0 A) Fpage.nil) br n k l → l.i ≤ lastReg A l ∧
        ∃ k' l', k.itemRound A kioSz 0 1 l = .ok (.next k' l') ∧
          Standing A tag (sameItems A tag (Item.mapWord0 A) Fpage.nil) br (n + 1) k' l' := by
    intro n hn k l hP
    have hl := hlt hn.le hP
    exact ⟨hl.le, itemRound_nil hP hl.ne⟩
  have hlast : ∀ k l, Standing A tag (sameItems A tag (Item.mapWord0 A) Fpage.nil) br
      (Tag.typed A tag / 2 - 1) k l → l.i ≤ lastReg A l := fun k l hP => (hlt (Nat.le_refl _) hP).le
  obtain ⟨k', l', hst, hmem⟩ := @roundRegs_mem_loopRegs A kioSz 0 1 _ _ hstep hlast
    (Tag.typed A tag + 1) 0 _ _ (Nat.zero_le _) (by omega) (standing_start A tag f)
  refine ⟨.sndMr (l'.i + 1), ipcRegs_of_loop rfl (hmem _ ?_), ?_⟩
  · have hmap : (Item.isMap A (Item.mapWord0 A) || Item.isGrant A (Item.mapWord0 A)) = true := by
      cases A <;> decide
    rw [roundRegs_of_map (hlt (Nat.le_refl _) hst).ne (by rw [hst.read_eq]; exact hmap)]
    exact List.mem_cons_of_mem _ List.mem_cons_self
  · rw [UtcbReg.InArray, hst.placed.reg]
    omega

/-- The string items of a message run past the buffer registers when the receiver accepts them and its
buffers have no end. -/
theorem exists_br_of_not_fits (kioSz : Nat) (f : Flags) {br : Nat → Nat}
    (h : ¬ 2 * (Tag.typed A tag / 2) < brWords) (hacc : bits (br 0) 0 1 = 1)
    (hopen : ∀ n < 16, Open A br n) :
    ∃ r ∈ (withRegs A (sameItems A tag (emptyString A) 0) br).ipcRegs A kioSz 0 1 f,
      ¬ r.InArray := by
  unfold brWords at h
  have hlt : ∀ {n k l}, n ≤ 16 →
      Standing A tag (sameItems A tag (emptyString A) 0) br n k l → l.i < lastReg A l := by
    intro n k l hn hP
    rw [hP.placed.last_eq, hP.placed.reg]
    omega
  have hstep : ∀ n < 16, ∀ k l,
      (Standing A tag (sameItems A tag (emptyString A) 0) br n k l ∧ l.nextBuf = some (2 * n + 1)) →
        l.i ≤ lastReg A l ∧ ∃ k' l', k.itemRound A kioSz 0 1 l = .ok (.next k' l') ∧
          (Standing A tag (sameItems A tag (emptyString A) 0) br (n + 1) k' l' ∧
            l'.nextBuf = some (2 * (n + 1) + 1)) := by
    rintro n hn k l ⟨hP, hnb⟩
    refine ⟨(hlt hn.le hP).le, itemRound_string hP hnb hacc (hopen n hn) ?_⟩
    rw [hP.placed.last_eq, hP.placed.reg]
    omega
  have hlast : ∀ k l, (Standing A tag (sameItems A tag (emptyString A) 0) br 16 k l ∧
      l.nextBuf = some (2 * 16 + 1)) → l.i ≤ lastReg A l := fun k l hP => (hlt (Nat.le_refl _) hP.1).le
  obtain ⟨k', l', ⟨hst, hnb⟩, hmem⟩ := @roundRegs_mem_loopRegs A kioSz 0 1 _ _ hstep hlast
    (Tag.typed A tag + 1) 0 _ _ (Nat.zero_le _) (by omega) ⟨standing_start A tag f, rfl⟩
  refine ⟨.rcvBr 33, ipcRegs_of_loop rfl (hmem _ ?_), by decide⟩
  have hword : (Item.isMap A (emptyString A) || Item.isGrant A (emptyString A)) = false ∧
      Item.isString A (emptyString A) = true := by
    cases A <;> decide
  rw [roundRegs_of_string (hlt (Nat.le_refl _) hst).ne (by rw [hst.read_eq]; exact hword.1)
    (by rw [hst.read_eq]; exact hword.2), hst.read_eq]
  unfold stringRegs
  dsimp only
  rw [hst.br, if_neg (not_not.mpr hacc), hnb]
  exact List.mem_cons_of_mem _ (List.mem_cons_of_mem _ List.mem_cons_self)

/-! ## The condition on the tag -/

/-- The accesses of a call for a message with the tag, for every content of the registers and whatever
happens during its page faults: they stay inside the arrays, and the loop over the items ends. -/
structure Confined (A : Arch) (kioSz tag : Nat) : Prop where
  call : ∀ (k : Kern) (snd rcv : Nat) (f : Flags), (k.ts.thr snd).utcb.mr 0 = tag →
    ∀ r ∈ k.ipcRegs A kioSz snd rcv f, r.InArray
  resumed : ∀ (n snd rcv : Nat) (l : ItemLoop), Suspended A kioSz snd rcv tag n l →
    ∀ k : Kern, ∀ r ∈ k.resumeRegs A kioSz snd rcv l, r.InArray
  /-- More rounds would not change anything. -/
  ends : ∀ (k : Kern) (snd rcv : Nat) (f : Flags) (m : Nat),
    itemLoop A kioSz snd rcv (Tag.typed A tag + 1 + m) (k.loopStart A snd rcv f) (loopInit A tag) =
      itemLoop A kioSz snd rcv (Tag.typed A tag + 1) (k.loopStart A snd rcv f) (loopInit A tag)
  resumedEnds : ∀ (n snd rcv : Nat) (l : ItemLoop), Suspended A kioSz snd rcv tag n l →
    ∀ (k : Kern) (m : Nat),
      itemLoop A kioSz snd rcv (Tag.typed A l.tag + 1 + m) k { l with i := l.i + 2 } =
        itemLoop A kioSz snd rcv (Tag.typed A l.tag + 1) k { l with i := l.i + 2 }
  /-- Every page fault is for another item. -/
  few : ∀ (n snd rcv : Nat) (l : ItemLoop), Suspended A kioSz snd rcv tag n l →
    2 * n + 2 ≤ Tag.typed A tag

theorem headerRegs_inArray (A : Arch) (tag : Nat) : ∀ r ∈ headerRegs A tag, r.InArray := by
  have h := untyped_lt A tag
  have hmr : 0 < mrWords := by decide
  refine List.forall_mem_cons.mpr ⟨hmr, List.forall_mem_cons.mpr ⟨hmr, fun r hr => ?_⟩⟩
  obtain ⟨i, hi, hr⟩ := List.mem_flatMap.mp hr
  have hi' : i + 1 < mrWords := by
    have hlt := List.mem_range.mp hi
    omega
  simp only [List.mem_cons, List.not_mem_nil, or_false] at hr
  rcases hr with rfl | rfl
  · exact hi'
  · exact hi'

/-- **Registers of an IPC.**  A call stays inside the message and buffer registers, for every content
of them, exactly for the tags whose items fit: the words of whole items end before register 256, and
there are at most 16 items. -/
theorem confined_iff (A : Arch) (kioSz tag : Nat) : Confined A kioSz tag ↔ TagFits A tag := by
  constructor
  · intro h
    constructor
    · by_contra hmr
      obtain ⟨r, hr, hout⟩ := exists_mr_of_not_fits kioSz ⟨false, false⟩ (fun _ => 0) hmr
      exact hout (h.call _ 0 1 _ rfl r hr)
    · by_contra hbr
      have hopen : ∀ n < 16, Open A (fun i => if i = 0 then 1 else emptyString A) n := by
        intro n _
        simp only [Open, Nat.add_eq_zero_iff, Nat.one_ne_zero, and_false, if_false]
        cases A <;> decide
      have hacc : bits (if 0 = 0 then 1 else emptyString A) 0 1 = 1 := by
        rw [if_pos rfl]
        decide
      obtain ⟨r, hr, hout⟩ := exists_br_of_not_fits kioSz ⟨false, false⟩ hbr hacc hopen
      exact hout (h.call _ 0 1 _ rfl r hr)
  · intro h
    refine ⟨fun k snd rcv f htag => ?_, fun n snd rcv l hs k => ?_, fun k snd rcv f m => ?_,
      fun n snd rcv l hs k m => ?_, fun n snd rcv l hs => ?_⟩
    · unfold ipcRegs
      rw [htag]
      dsimp only
      split_ifs
      · exact fun r hr => absurd hr List.not_mem_nil
      · exact List.forall_mem_append.mpr ⟨headerRegs_inArray A tag,
          loopRegs_inArray h (placed_init A tag)⟩
    · obtain ⟨m, -, hplaced, hlt⟩ := hs.placed
      obtain ⟨hi, -⟩ := hplaced.bounds h hlt.le hlt.ne
      unfold resumeRegs
      split
      · exact fun r hr => absurd hr List.not_mem_nil
      · have hi' : l.i < mrWords := Nat.lt_of_succ_lt hi
        have hbr : 0 < brWords := by decide
        refine List.forall_mem_cons.mpr ⟨hbr, List.forall_mem_cons.mpr ⟨hi',
          List.forall_mem_cons.mpr ⟨hi', List.forall_mem_cons.mpr ⟨hi, ?_⟩⟩⟩⟩
        split
        · exact loopRegs_inArray h hplaced.resumed
        · exact fun r hr => absurd hr List.not_mem_nil
    · refine itemLoop_rounds m (placed_init A tag) ?_
      rw [(placed_init A tag).last_eq, (placed_init A tag).reg]
      omega
    · obtain ⟨n', -, hplaced, -⟩ := hs.placed
      refine itemLoop_rounds m hplaced.resumed ?_
      rw [hplaced.resumed.last_eq, hplaced.resumed.reg, hplaced.same]
      omega
    · obtain ⟨m, hm, hplaced, hlt⟩ := hs.placed
      rw [hplaced.last_eq, hplaced.reg] at hlt
      omega

/-- The tag of a message with 255 untyped words and one item. -/
def fullTag (A : Arch) : Nat := Tag.setProto A 0 0 255 2

/-- A message of 255 untyped words and a map item without a flexpage is passed on, and its item comes
from two words behind the message registers. -/
theorem fullTag_not_inArray :
    ((withRegs .arm (sameItems .arm (fullTag .arm) (Item.mapWord0 .arm) Fpage.nil)
        fun _ => 0).doNormalIpc .arm 0 0 1 ⟨false, false⟩).map Prod.snd = .ok none ∧
      UtcbReg.sndMr 257 ∈ (withRegs .arm (sameItems .arm (fullTag .arm) (Item.mapWord0 .arm) Fpage.nil)
        fun _ => 0).ipcRegs .arm 0 0 1 ⟨false, false⟩ ∧
      ¬ (UtcbReg.sndMr 257).InArray := by
  refine ⟨by decide +kernel, by decide +kernel, by decide⟩

end Kern

end Wrmos
