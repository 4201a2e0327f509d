import Wrmos.Ipc
import Mathlib.Data.List.MinMax

/-!
# Which sender a receiver gets

A receiver whose `from_spec` is `Any` or `Any_local` takes the first of the blocked senders that has the
highest priority among those that match.  `find_sender` scans two lists, the senders with a timeout and
those without, and the scan is Mathlib's `List.argmax` over the matching threads
(`findHighestPrioSender_eq`).  So the thread is right.

The two flags are not.  `_is_good_sender` sets them for every thread it looks at, and the loop of
`find_highest_prio_sender` never takes them back: what is reported belongs to all threads of the list in
which the sender was found, the rejected and the beaten ones too.  And a message with the propagation bit
that names a local thread which does not exist ends in the panic of `find_by_utcb`, whoever is scanned
(`judge_answers_iff`).  `findSender_selects_iff` says that `find_sender` does what it should in all other
states, and in no more.
-/

namespace Wrmos

open Lib

/-! ## The best of two lists -/

section Better

variable {α β : Type} [LinearOrder β] (f : α → β)

/-- The better one of two candidates, the first one when they are equal. -/
def Lib.better : Option α → Option α → Option α
  | some a, some b => if f a < f b then some b else some a
  | some a, none => some a
  | none, r => r

theorem Lib.argmax_append (l₁ l₂ : List α) :
    (l₁ ++ l₂).argmax f = better f (l₁.argmax f) (l₂.argmax f) := by
  induction l₂ using List.reverseRecOn with
  | nil =>
    rw [List.append_nil, List.argmax_nil]
    cases l₁.argmax f <;> rfl
  | append_singleton l₂ b ih =>
    rw [← List.append_assoc, List.argmax_concat, List.argmax_concat, ih]
    rcases l₁.argmax f with _ | a
    · rcases l₂.argmax f with _ | c <;> rfl
    rcases l₂.argmax f with _ | c
    · rfl
    by_cases hac : f a < f c <;> by_cases hcb : f c < f b
    · simp [better, hac, hcb, hac.trans hcb]
    · simp [better, hac, hcb]
    · simp [better, hac, hcb]
    · have hab : ¬ f a < f b := not_lt.mpr ((not_lt.mp hcb).trans (not_lt.mp hac))
      simp [better, hac, hcb, hab]

end Better

/-! ## Flags -/

namespace Flags

/-- No flag is set. -/
def clear : Flags := ⟨false, false⟩

/-- The flags of either. -/
def or (f g : Flags) : Flags := ⟨f.propagated || g.propagated, f.useLocal || g.useLocal⟩

theorem or_assoc (f g h : Flags) : (f.or g).or h = f.or (g.or h) := by
  simp [or, Bool.or_assoc]

/-- The flags that a list of threads raises together. -/
def union {α : Type} (g : α → Flags) (l : List α) : Flags :=
  ⟨l.any fun t => (g t).propagated, l.any fun t => (g t).useLocal⟩

@[simp] theorem union_nil {α : Type} (g : α → Flags) : union g [] = clear := rfl

@[simp] theorem union_cons {α : Type} (g : α → Flags) (t : α) (l : List α) :
    union g (t :: l) = (g t).or (union g l) := rfl

theorem union_eq_iff {α : Type} {g : α → Flags} {l : List α} {s : α} (hs : s ∈ l) :
    union g l = g s ↔ ∀ t ∈ l, (g s).or (g t) = g s := by
  have hall : ∀ p : α → Bool, l.any p = p s ↔ ∀ t ∈ l, (p s || p t) = p s := by
    intro p
    cases hp : p s with
    | true => simpa using ⟨s, hs, hp⟩
    | false => simp
  have h1 := hall fun t => (g t).propagated
  have h2 := hall fun t => (g t).useLocal
  constructor
  · intro h t ht
    have hpr := h1.mp (congrArg propagated h) t ht
    have hul := h2.mp (congrArg useLocal h) t ht
    simp only [or, hpr, hul]
  · intro h
    have hpr := h1.mpr fun t ht => congrArg propagated (h t ht)
    have hul := h2.mpr fun t ht => congrArg useLocal (h t ht)
    simp only [union, hpr, hul]

end Flags

namespace Threads

variable {A : Arch} {ts : Threads} {curTask rcv spec : Nat}

/-- The blocked senders, in the order in which they are scanned. -/
def senders (ts : Threads) : List Nat := ts.members .sndTimeout ++ ts.members .send

/-- What `_is_good_sender` yields for one thread alone. -/
def judge (A : Arch) (ts : Threads) (curTask rcv spec t : Nat) : Except Stop (Bool × Flags) :=
  ts.goodSender A curTask rcv spec t Flags.clear

/-- `_is_good_sender` accepts the thread. -/
def accepts (A : Arch) (ts : Threads) (curTask rcv spec t : Nat) : Bool :=
  okAnd (ts.judge A curTask rcv spec t) Prod.fst

/-- The flags that `_is_good_sender` raises for the thread. -/
def raises (A : Arch) (ts : Threads) (curTask rcv spec t : Nat) : Flags :=
  match ts.judge A curTask rcv spec t with
  | .ok r => r.2
  | .error _ => Flags.clear

theorem judge_eq_ok {t : Nat} (h : ∃ r, ts.judge A curTask rcv spec t = .ok r) :
    ts.judge A curTask rcv spec t =
      .ok (ts.accepts A curTask rcv spec t, ts.raises A curTask rcv spec t) := by
  obtain ⟨⟨b, f⟩, h⟩ := h
  simp only [accepts, raises, h, okAnd]

/-- The flags are only ever raised. -/
theorem goodSender_or (t : Nat) (f : Flags) :
    ts.goodSender A curTask rcv spec t f =
      (ts.judge A curTask rcv spec t).map fun r => (r.1, f.or r.2) := by
  show _ = (fun r : Bool × Flags => (r.1, f.or r.2)) <$> ts.judge A curTask rcv spec t
  unfold judge goodSender
  simp only [map_bind]
  refine bind_congr fun _ => bind_congr fun _ => bind_congr fun _ => bind_congr fun _ => ?_
  split_ifs with haddr
  · rw [map_bind]
    refine bind_congr fun v => ?_
    split_ifs with hadm <;> simp [Flags.or, Flags.clear]
  · simp [Flags.or, Flags.clear, Functor.map, Except.map]

/-- **The scan of one list**: when every thread can be judged, the loop finds the best of the matching
threads and the flags of all. -/
theorem findHighestPrioSender_eq :
    ∀ {l : List Nat} {res : Option Nat} {f : Flags},
      (∀ t ∈ l, ∃ r, ts.judge A curTask rcv spec t = .ok r) →
      ts.findHighestPrioSender A curTask rcv spec l res f =
        .ok ((l.filter (ts.accepts A curTask rcv spec)).foldl
          (List.argAux fun b c => (ts.thr c).prioMax < (ts.thr b).prioMax) res,
          f.or (Flags.union (ts.raises A curTask rcv spec) l)) := by
  intro l
  induction l with
  | nil =>
    intro res f _
    simp [findHighestPrioSender, Flags.or, Flags.clear]
  | cons t l ih =>
    intro res f h
    have ht := judge_eq_ok (h t List.mem_cons_self)
    have hl := fun u hu => h u (List.mem_cons_of_mem t hu)
    simp only [findHighestPrioSender, goodSender_or, ht]
    show ts.findHighestPrioSender A curTask rcv spec l _ (f.or _) = _
    rw [ih hl, Flags.or_assoc, Flags.union_cons]
    cases hacc : ts.accepts A curTask rcv spec t with
    | false =>
      rw [List.filter_cons_of_neg (by rw [hacc]; decide)]
      rfl
    | true =>
      rw [List.filter_cons_of_pos hacc, List.foldl_cons]
      cases res with
      | none => rfl
      | some u => simp only [Bool.true_and, decide_eq_true_eq]; rfl

/-- A scan that comes back has judged every thread. -/
theorem judge_of_findHighestPrioSender :
    ∀ {l : List Nat} {res : Option Nat} {f : Flags} {r : Option Nat × Flags},
      ts.findHighestPrioSender A curTask rcv spec l res f = .ok r →
      ∀ t ∈ l, ∃ r, ts.judge A curTask rcv spec t = .ok r := by
  intro l
  induction l with
  | nil => intro res f r _ t ht; cases ht
  | cons u l ih =>
    intro res f r h t ht
    simp only [findHighestPrioSender, goodSender_or] at h
    obtain ⟨a, ha, h⟩ := bind_eq_ok.mp h
    obtain ⟨b, hb, -⟩ := map_eq_ok ha
    rcases List.mem_cons.mp ht with rfl | ht
    · exact ⟨b, hb⟩
    · exact ih h t ht

/-- `Any` and `Any_local` name no thread. -/
theorem find_eq_none (hspec : spec = Thrid.any A ∨ spec = Thrid.anyLocal A) :
    ts.find A curTask spec = .ok none := by
  have hsingle : Thrid.isSingle A spec = false := by
    unfold Thrid.isSingle
    rcases hspec with rfl | rfl <;> simp
  simp [find, Thrid.isGlobal, Thrid.isLocal, hsingle]

/-- The first matching thread of maximal priority in a list. -/
def bestOf (A : Arch) (ts : Threads) (curTask rcv spec : Nat) (l : List Nat) : Option Nat :=
  (l.filter (ts.accepts A curTask rcv spec)).argmax fun t => (ts.thr t).prioMax

theorem bestOf_some {l : List Nat} {s : Nat} (h : ts.bestOf A curTask rcv spec l = some s) :
    s ∈ l ∧ ts.accepts A curTask rcv spec s = true ∧
      ∀ t ∈ l, ts.accepts A curTask rcv spec t = true → (ts.thr t).prioMax ≤ (ts.thr s).prioMax := by
  obtain ⟨hs, hacc⟩ := List.mem_filter.mp (List.argmax_mem h)
  refine ⟨hs, hacc, fun t ht hat => ?_⟩
  exact List.le_of_mem_argmax (f := fun t => (ts.thr t).prioMax) (List.mem_filter.mpr ⟨ht, hat⟩) h

theorem bestOf_none {l : List Nat} :
    ts.bestOf A curTask rcv spec l = none ↔ ∀ t ∈ l, ts.accepts A curTask rcv spec t = false := by
  simp only [bestOf, List.argmax_eq_none, List.filter_eq_nil_iff, Bool.not_eq_true]

theorem bestOf_append (l₁ l₂ : List Nat) : ts.bestOf A curTask rcv spec (l₁ ++ l₂) =
    better (fun t => (ts.thr t).prioMax) (ts.bestOf A curTask rcv spec l₁)
      (ts.bestOf A curTask rcv spec l₂) := by
  rw [bestOf, List.filter_append, argmax_append]
  rfl

/-- The scan of one list from its start. -/
theorem scan_eq {l : List Nat} (h : ∀ t ∈ l, ∃ r, ts.judge A curTask rcv spec t = .ok r) :
    ts.findHighestPrioSender A curTask rcv spec l none ⟨false, false⟩ =
      .ok (ts.bestOf A curTask rcv spec l, Flags.union (ts.raises A curTask rcv spec) l) :=
  findHighestPrioSender_eq h

/-- The list of senders in which a thread is found. -/
def senderQue (ts : Threads) (t : Nat) : Que := if t ∈ ts.members .sndTimeout then .sndTimeout else .send

theorem mem_senderQue {t : Nat} (h : t ∈ ts.senders) : t ∈ ts.members (ts.senderQue t) := by
  unfold senderQue
  split_ifs with ht
  · exact ht
  · exact (List.mem_append.mp h).resolve_left ht

theorem mem_senders_of_que {s t : Nat} (h : t ∈ ts.members (ts.senderQue s)) : t ∈ ts.senders := by
  unfold senderQue at h
  split_ifs at h
  · exact List.mem_append_left _ h
  · exact List.mem_append_right _ h

/-- The choice between the best threads of the two lists, with the flags of the list it came from. -/
theorem chooseSender_eq (g : Nat → Flags) :
    ts.chooseSender (ts.bestOf A curTask rcv spec (ts.members .sndTimeout),
        Flags.union g (ts.members .sndTimeout))
      (ts.bestOf A curTask rcv spec (ts.members .send), Flags.union g (ts.members .send)) =
    (ts.bestOf A curTask rcv spec ts.senders).map fun s =>
      (s, Flags.union g (ts.members (ts.senderQue s))) := by
  have hin : ∀ {s}, s ∈ ts.members .sndTimeout → ts.senderQue s = .sndTimeout := fun hs => if_pos hs
  have hout : ∀ {s}, s ∉ ts.members .sndTimeout → ts.senderQue s = .send := fun hs => if_neg hs
  rw [senders, bestOf_append]
  cases ha : ts.bestOf A curTask rcv spec (ts.members .sndTimeout) with
  | none =>
    cases hb : ts.bestOf A curTask rcv spec (ts.members .send) with
    | none => rfl
    | some b =>
      -- a match that is only in the second list
      have hnot : b ∉ ts.members .sndTimeout := by
        intro hmem
        have hfalse := bestOf_none.mp ha b hmem
        rw [(bestOf_some hb).2.1] at hfalse
        cases hfalse
      simp only [chooseSender, better, Option.map_some, hout hnot]
  | some a =>
    obtain ⟨hmem, -, hmax⟩ := bestOf_some ha
    cases hb : ts.bestOf A curTask rcv spec (ts.members .send) with
    | none => simp only [chooseSender, better, Option.map_some, hin hmem]
    | some b =>
      simp only [chooseSender, better]
      split_ifs with hlt
      · have hnot : b ∉ ts.members .sndTimeout := fun hb1 =>
          absurd (hmax b hb1 (bestOf_some hb).2.1) (not_le.mpr hlt)
        simp only [Option.map_some, hout hnot]
      · simp only [Option.map_some, hin hmem]

/-- The result of `find_sender` when every blocked sender can be judged. -/
theorem findSender_eq (hspec : spec = Thrid.any A ∨ spec = Thrid.anyLocal A)
    (h : ∀ t ∈ ts.senders, ∃ r, ts.judge A (ts.thr rcv).task rcv spec t = .ok r) :
    ts.findSender A rcv spec = .ok ((ts.bestOf A (ts.thr rcv).task rcv spec ts.senders).map fun s =>
      (s, Flags.union (ts.raises A (ts.thr rcv).task rcv spec) (ts.members (ts.senderQue s)))) := by
  rw [← chooseSender_eq]
  simp only [findSender, find_eq_none hspec]
  show (ts.findHighestPrioSender A (ts.thr rcv).task rcv spec (ts.members .sndTimeout) none
    ⟨false, false⟩ >>= _) = _
  rw [scan_eq fun t ht => h t (List.mem_append_left _ ht)]
  show (ts.findHighestPrioSender A (ts.thr rcv).task rcv spec (ts.members .send) none
    ⟨false, false⟩ >>= _) = _
  rw [scan_eq fun t ht => h t (List.mem_append_right _ ht)]
  rfl

/-- A search that comes back has judged every blocked sender. -/
theorem judge_of_findSender {r : Option (Nat × Flags)}
    (hspec : spec = Thrid.any A ∨ spec = Thrid.anyLocal A) (h : ts.findSender A rcv spec = .ok r) :
    ∀ t ∈ ts.senders, ∃ r, ts.judge A (ts.thr rcv).task rcv spec t = .ok r := by
  obtain ⟨t, hfind, h⟩ := bind_eq_ok.mp h
  rw [find_eq_none hspec] at hfind
  obtain rfl := Except.ok.inj hfind
  obtain ⟨r1, h1, h⟩ := bind_eq_ok.mp h
  obtain ⟨r2, h2, -⟩ := bind_eq_ok.mp h
  intro t ht
  rcases List.mem_append.mp ht with ht | ht
  · exact judge_of_findHighestPrioSender h1 t ht
  · exact judge_of_findHighestPrioSender h2 t ht

/-- What `find_sender` should return: a matching thread of maximal priority with its own flags, or
nothing when no thread matches. -/
def Selects (A : Arch) (ts : Threads) (rcv spec : Nat) : Option (Nat × Flags) → Prop
  | some (s, f) => s ∈ ts.senders ∧ ts.judge A (ts.thr rcv).task rcv spec s = .ok (true, f) ∧
      ∀ t ∈ ts.senders, ts.accepts A (ts.thr rcv).task rcv spec t = true →
        (ts.thr t).prioMax ≤ (ts.thr s).prioMax
  | none => ∀ t ∈ ts.senders, ts.accepts A (ts.thr rcv).task rcv spec t = false

/-- The states in which no other thread disturbs the search: every blocked sender can be judged, and in
the list of the first matching thread of maximal priority no thread raises a flag that this one does not
raise. -/
structure Undisturbed (A : Arch) (ts : Threads) (rcv spec : Nat) : Prop where
  judged : ∀ t ∈ ts.senders, ∃ r, ts.judge A (ts.thr rcv).task rcv spec t = .ok r
  flags : ∀ s, ts.bestOf A (ts.thr rcv).task rcv spec ts.senders = some s →
    ∀ t ∈ ts.members (ts.senderQue s),
      (ts.raises A (ts.thr rcv).task rcv spec s).or (ts.raises A (ts.thr rcv).task rcv spec t) =
        ts.raises A (ts.thr rcv).task rcv spec s

/-- **Sender selection.**  For a receiver that waits for any thread, or any thread of its task,
`find_sender` returns what it should exactly when no other thread disturbs the search. -/
theorem findSender_selects_iff (hspec : spec = Thrid.any A ∨ spec = Thrid.anyLocal A) :
    (∃ r, ts.findSender A rcv spec = .ok r ∧ Selects A ts rcv spec r) ↔ Undisturbed A ts rcv spec := by
  constructor
  · rintro ⟨r, hr, hsel⟩
    have hj := judge_of_findSender hspec hr
    refine ⟨hj, fun s hs => ?_⟩
    rw [findSender_eq hspec hj, hs] at hr
    obtain rfl := Except.ok.inj hr
    obtain ⟨hmem, hown, -⟩ := hsel
    rw [judge_eq_ok (hj s hmem)] at hown
    exact (Flags.union_eq_iff (mem_senderQue hmem)).mp (Prod.mk.inj (Except.ok.inj hown)).2.symm
  · rintro ⟨hj, hflags⟩
    refine ⟨_, findSender_eq hspec hj, ?_⟩
    cases hs : ts.bestOf A (ts.thr rcv).task rcv spec ts.senders with
    | none => exact bestOf_none.mp hs
    | some s =>
      obtain ⟨hmem, hacc, hmax⟩ := bestOf_some hs
      refine ⟨hmem, ?_, hmax⟩
      rw [judge_eq_ok (hj s hmem), hacc, (Flags.union_eq_iff (mem_senderQue hmem)).mpr (hflags s hs)]

/-! ## Two senders -/

/-- Thread 0 of task 1 receives; threads 1 and 2, of task 2, are blocked in sends to it without a
timeout, and thread 1 has the higher priority.  The tag and the virtual sender of thread 2 are given. -/
def twoSenders (A : Arch) (tag sender : Nat) : Threads where
  thr t :=
    { Thread.fresh A with
      globid := Thrid.createGlobal A (threadNumberMin + t) 2
      task := if t = 0 then 1 else 2
      uutcb := 0x10000 * (t + 1)
      state := if t = 0 then .ready else if t ≤ 2 then .sendIpc else .idle
      timeout := if t = 0 then 0 else noTimeout
      ipcTo := if t = 0 then Thrid.nil else Thrid.createGlobal A threadNumberMin 2
      prio := if t = 1 then 5 else 3
      iter := if t = 0 then none else some (.send, t - 1)
      utcb := ⟨fun i => if t = 2 ∧ i = 0 then tag else 0, fun _ => 0, 0, if t = 2 then sender else 0, 0⟩ }
  list q := if q = .send then ⟨[(0, 1), (1, 2)], List.range' 2 126⟩ else NodeList.init threadsMax
  readyBits := fun _ => 0

/-- Without a propagated message the search is not disturbed. -/
theorem twoSenders_selects : ∃ r, (twoSenders .sparc 0 0).findSender .sparc 0 (Thrid.any .sparc) = .ok r ∧
    Selects .sparc (twoSenders .sparc 0 0) 0 (Thrid.any .sparc) r := by
  have hjudge : ∀ t ∈ [1, 2], (twoSenders .sparc 0 0).judge .sparc 1 0 (Thrid.any .sparc) t =
      .ok (true, Flags.clear) := by decide +kernel
  have hraise : ∀ t ∈ [1, 2], (twoSenders .sparc 0 0).raises .sparc 1 0 (Thrid.any .sparc) t =
      Flags.clear := by decide +kernel
  refine (findSender_selects_iff (.inl rfl)).mpr ⟨fun t ht => ⟨_, hjudge t ht⟩, fun s hs t ht => ?_⟩
  have hs' := hraise s (bestOf_some hs).1
  have ht' := hraise t (mem_senders_of_que ht)
  exact (congrArg₂ Flags.or hs' ht').trans hs'.symm

/-- The tag of a propagated message without words. -/
def propagatedTag : Nat := 0x4000

/-- Thread 2 sends in the name of thread 1.  Thread 1 is chosen, and what is reported of it is that it
sends in the name of another. -/
theorem twoSenders_not_selects : ∃ s f,
    (twoSenders .sparc propagatedTag (Thrid.createGlobal .sparc 129 2)).findSender .sparc 0
      (Thrid.any .sparc) = .ok (some (s, f)) ∧
    ¬ ∃ r, (twoSenders .sparc propagatedTag (Thrid.createGlobal .sparc 129 2)).findSender .sparc 0
      (Thrid.any .sparc) = .ok r ∧
      Selects .sparc (twoSenders .sparc propagatedTag (Thrid.createGlobal .sparc 129 2)) 0
        (Thrid.any .sparc) r := by
  have hfind : (twoSenders .sparc propagatedTag (Thrid.createGlobal .sparc 129 2)).findSender .sparc 0
      (Thrid.any .sparc) = .ok (some (1, ⟨true, false⟩)) := by decide +kernel
  have halone : (twoSenders .sparc propagatedTag (Thrid.createGlobal .sparc 129 2)).judge .sparc 1 0
      (Thrid.any .sparc) 1 = .ok (true, Flags.clear) := by decide +kernel
  refine ⟨1, _, hfind, ?_⟩
  rintro ⟨r, hr, hsel⟩
  obtain rfl := Except.ok.inj (hfind.symm.trans hr)
  obtain ⟨-, hown, -⟩ := hsel
  exact absurd (Except.ok.inj (halone.symm.trans hown)) (by decide)

end Threads

end Wrmos
