import Wrmos.Ipc

/-!
# The messages of thread and task creation

`wrm_thr_create` and `wrm_tsk_create` of `lib/wrmos/src/thr.cpp` write a request into the message
registers of the calling thread.  The kernel copies the words that the tag counts into the registers of
alpha, the loop of `app/alpha/main.cpp` copies as many into an array on its stack and chooses a handler,
and `process_create_thread_request` or `process_create_task_request` reads the parameters from the array.

A layout is a list of registers with what is put there, in the order of the source, and one on each side:
`writes` for the client and `reads` for alpha.  The registers of the client, those of alpha and the array
hold any words before.
-/

namespace Wrmos

open Lib (ensure bits ensure_bind_of)

/-- `set_ipc(label, untyped, typed)`. -/
def Tag.setIpc (A : Arch) (label untyped typed : Nat) : Nat :=
  let t := A.setField A.wordBits 0 (A.wordBits - 18) 0 label
  let t := A.setField A.wordBits (A.wordBits - 14) 6 t typed
  A.setField A.wordBits (A.wordBits - 8) 8 t untyped

/-- `is_exc_request`. -/
def Tag.isExcRequest (A : Arch) (t : Nat) : Bool :=
  (Tag.protoLabel A t == Tag.protoOf A 4 || Tag.protoLabel A t == Tag.protoOf A 5 ||
    Tag.protoLabel A t == Tag.protoOf A 6 || Tag.protoLabel A t == Tag.protoOf A 7) &&
    Tag.typed A t == 0

namespace Alpha

/-- What alpha does with a message: the cases of its loop. -/
inductive Handler where
  | pfault
  | ioPfault
  | exception
  | mapIo
  | attachInt
  | detachInt
  | usualMem
  | namedMem
  | createThread
  | deleteThread
  | createTask
  | registerThread
  | getThreadId
  | appThreads
  | unexpected
  deriving DecidableEq, Repr

/-- The handler of a label, one of the constants `Wrm_ipc_...`. -/
def Handler.ofLabel : Nat → Handler
  | 1 => .mapIo
  | 2 => .attachInt
  | 3 => .detachInt
  | 4 => .usualMem
  | 5 => .namedMem
  | 6 => .createThread
  | 7 => .deleteThread
  | 8 => .createTask
  | 9 => .registerThread
  | 10 => .getThreadId
  | 11 => .appThreads
  | _ => .unexpected

/-- The choice the loop makes. -/
def dispatch (A : Arch) (tag : Nat) : Handler :=
  if Tag.protoLabel A tag = Tag.protoOf A 2 then .pfault
  else if Tag.protoLabel A tag = Tag.protoOf A 3 then .ioPfault
  else if Tag.isExcRequest A tag then .exception
  else .ofLabel (Tag.ipcLabel A tag)

/-- The array `mr` of the loop: the words of the message, and behind them what was on the stack. -/
def localMr (A : Arch) (mr stack : Nat → Nat) (j : Nat) : Nat :=
  if j < 1 + Tag.untyped A (mr 0) + Tag.typed A (mr 0) then mr j else stack j

/-! ## The two layouts -/

/-- The parameters of the requests. -/
inductive Param where
  | utcb
  | prio
  | space
  | sched
  | pager
  | kipArea
  | utcbsArea
  | stack
  | stackSz
  deriving DecidableEq, Repr

/-- The two requests. -/
inductive Creation where
  | thread
  | task
  deriving DecidableEq, Repr

/-- The arguments of the caller: words, and the priority an `unsigned`. -/
structure Args (A : Arch) where
  val : Param → Nat
  lt : ∀ p, val p < 2 ^ A.wordBits
  prio_lt : val .prio < 2 ^ 32

namespace Creation

/-- `Wrm_ipc_create_thread` and `Wrm_ipc_create_task`. -/
def label : Creation → Nat
  | .thread => 6
  | .task => 8

def handler : Creation → Handler
  | .thread => .createThread
  | .task => .createTask

/-- The untyped words the client declares. -/
def untyped : Creation → Nat
  | .thread => 7
  | .task => 5

/-- What `wrm_thr_create` and `wrm_tsk_create` write behind the tag. -/
def writes : Creation → List (Param × Nat)
  | .thread => [(.utcb, 1), (.prio, 2), (.space, 3), (.sched, 4), (.pager, 5), (.stack, 6),
      (.stackSz, 7)]
  | .task => [(.utcb, 1), (.prio, 2), (.pager, 3), (.kipArea, 4), (.utcbsArea, 5)]

/-- What the handlers read. -/
def reads : Creation → List (Param × Nat)
  | .thread => [(.utcb, 1), (.prio, 2), (.space, 3), (.sched, 4), (.pager, 5), (.stack, 6),
      (.stackSz, 7)]
  | .task => [(.utcb, 1), (.prio, 2), (.pager, 3), (.kipArea, 4), (.utcbsArea, 5), (.stack, 6),
      (.stackSz, 7)]

/-- The tag of the client. -/
def tag (A : Arch) (c : Creation) : Nat := Tag.setIpc A c.label c.untyped 0

/-- The registers of the client when it calls alpha. -/
def request (A : Arch) (c : Creation) (val : Param → Nat) (mr : Nat → Nat) : Nat → Nat :=
  c.writes.foldl (fun mr w => Function.update mr w.2 (val w.1)) (Function.update mr 0 (c.tag A))

/-- The assertions at the head of the handler. -/
def wellFormed (A : Arch) (c : Creation) (tag : Nat) : Bool :=
  Tag.untyped A tag == c.untyped && Tag.typed A tag == 0

/-- A register as the variable of the handler that takes it: the priority is an `unsigned`. -/
def readAs (p : Param) (w : Nat) : Nat := if p = .prio then w % 2 ^ 32 else w

/-- The parameters of the handler. -/
def decode (c : Creation) (mr : Nat → Nat) : List (Param × Nat) :=
  c.reads.map fun r => (r.1, readAs r.1 (mr r.2))

/-! ## Agreement -/

/-- The arguments of the caller for the parameters of the handler. -/
def asked (c : Creation) (val : Param → Nat) : List (Param × Nat) :=
  c.reads.map fun r => (r.1, val r.1)

/-- Every register the handler reads was written by the client for the same parameter, and is one of
those the tag counts. -/
def InCounts (A : Arch) (c : Creation) (tag : Nat) : Prop :=
  ∀ r ∈ c.reads, r ∈ c.writes ∧ r.2 ≤ Tag.untyped A tag + Tag.typed A tag

/-- The registers are as promised, and the parameters are the arguments. -/
def Agrees (A : Arch) (c : Creation) (a : Args A) (mr : Nat → Nat) : Prop :=
  c.InCounts A (mr 0) ∧ c.decode mr = c.asked a.val

instance (A : Arch) (c : Creation) (tag : Nat) : Decidable (c.InCounts A tag) :=
  inferInstanceAs (Decidable (∀ r ∈ c.reads, _))

/-- The tag chooses the handler of the request, counts what the handler asserts, and has no typed
words. -/
theorem tag_spec (A : Arch) (c : Creation) :
    dispatch A (c.tag A) = c.handler ∧ Tag.untyped A (c.tag A) = c.untyped ∧
      Tag.typed A (c.tag A) = 0 := by
  cases A <;> cases c <;> decide

/-- The tag is in register 0, and every register that is written has its parameter. -/
theorem request_apply (A : Arch) (c : Creation) (val : Param → Nat) (mr : Nat → Nat) :
    c.request A val mr 0 = c.tag A ∧ ∀ w ∈ c.writes, c.request A val mr w.2 = val w.1 := by
  cases c with
  | thread =>
    refine ⟨rfl, fun w hw => ?_⟩
    simp only [writes, List.mem_cons, List.not_mem_nil, or_false] at hw
    rcases hw with rfl | rfl | rfl | rfl | rfl | rfl | rfl <;> rfl
  | task =>
    refine ⟨rfl, fun w hw => ?_⟩
    simp only [writes, List.mem_cons, List.not_mem_nil, or_false] at hw
    rcases hw with rfl | rfl | rfl | rfl | rfl <;> rfl

end Creation

/-! ## The way of a message -/

/-- A message without typed items arrives in one go: the kernel copies the words it counts. -/
theorem doNormalIpc_untyped {A : Arch} (kioSz : Nat) (k : Kern) {snd rcv : Nat} (h : snd ≠ rcv)
    (f : Flags) (htyped : Tag.typed A ((k.ts.thr snd).utcb.mr 0) = 0) :
    k.doNormalIpc A kioSz snd rcv f =
      .ok (k.upd rcv (Thread.copyHeader A (k.ts.thr snd) f.propagated f.useLocal), none) := by
  unfold Kern.doNormalIpc
  rw [ensure_bind_of h]
  simp only [htyped]
  unfold Kern.itemLoop
  exact if_pos (by simp [Kern.lastReg, htyped])

/-- What alpha has in its array after a message from `snd`: the words the tag counts. -/
theorem localMr_copyHeader {A : Arch} (snd rcv : Thread) (b b' : Bool) (stack : Nat → Nat)
    (htyped : Tag.typed A (snd.utcb.mr 0) = 0) (j : Nat) :
    localMr A (Thread.copyHeader A snd b b' rcv).utcb.mr stack j =
      if j ≤ Tag.untyped A (snd.utcb.mr 0) then snd.utcb.mr j else stack j := by
  have hzero : (Thread.copyHeader A snd b b' rcv).utcb.mr 0 = snd.utcb.mr 0 := rfl
  unfold localMr
  rw [hzero, htyped]
  by_cases hj : j ≤ Tag.untyped A (snd.utcb.mr 0)
  · rw [if_pos hj, if_pos (by omega)]
    exact if_pos hj
  · rw [if_neg hj, if_neg (by omega)]

namespace Creation

/-- The client fills its registers. -/
def send (A : Arch) (c : Creation) (val : Param → Nat) (th : Thread) : Thread :=
  { th with utcb := { th.utcb with mr := c.request A val th.utcb.mr } }

/-- What alpha has in its array after a request: the parameters where they were written, and behind
the count what was there before. -/
theorem localMr_send {A : Arch} (c : Creation) (val : Param → Nat) (snd rcv : Thread) (b b' : Bool)
    (stack : Nat → Nat) :
    localMr A (Thread.copyHeader A (c.send A val snd) b b' rcv).utcb.mr stack 0 = c.tag A ∧
      (∀ w ∈ c.writes,
        localMr A (Thread.copyHeader A (c.send A val snd) b b' rcv).utcb.mr stack w.2 = val w.1) ∧
      ∀ j, c.untyped < j →
        localMr A (Thread.copyHeader A (c.send A val snd) b b' rcv).utcb.mr stack j = stack j := by
  obtain ⟨htag, hwrites⟩ := request_apply A c val snd.utcb.mr
  obtain ⟨-, huntyped, htyped⟩ := tag_spec A c
  have hmr0 : (c.send A val snd).utcb.mr 0 = c.tag A := htag
  have hmr := fun j =>
    localMr_copyHeader (c.send A val snd) rcv b b' stack (hmr0 ▸ htyped) j
  rw [hmr0, huntyped] at hmr
  refine ⟨?_, fun w hw => ?_, fun j hj => ?_⟩
  · rw [hmr, if_pos (Nat.zero_le _)]
    exact hmr0
  · have hle : w.2 ≤ c.untyped := by
      revert w
      cases c <;> decide
    rw [hmr, if_pos hle]
    exact hwrites w hw
  · rw [hmr, if_neg (Nat.not_le.mpr hj)]

/-- The words a handler reads for its parameters, when all it reads was written. -/
theorem decode_eq_asked {A : Arch} {c : Creation} {a : Args A} {mr : Nat → Nat}
    (h : ∀ r ∈ c.reads, mr r.2 = a.val r.1) : c.decode mr = c.asked a.val := by
  refine List.map_congr_left fun r hr => ?_
  rw [h r hr]
  unfold readAs
  split
  · next hp => rw [hp, Nat.mod_eq_of_lt a.prio_lt]
  · rfl

/-- A task creation hands over the words behind its count as the stack. -/
theorem decode_task_eq_asked_iff {A : Arch} {a : Args A} {mr : Nat → Nat}
    (h : ∀ w ∈ Creation.task.writes, mr w.2 = a.val w.1) :
    Creation.task.decode mr = Creation.task.asked a.val ↔
      mr 6 = a.val .stack ∧ mr 7 = a.val .stackSz := by
  constructor
  · intro heq
    simp only [decode, asked, reads, List.map_cons, List.map_nil, List.cons.injEq, Prod.mk.injEq,
      true_and, and_true] at heq
    exact ⟨heq.2.2.2.2.2.1, heq.2.2.2.2.2.2⟩
  · rintro ⟨h6, h7⟩
    refine decode_eq_asked fun r hr => ?_
    rcases List.mem_append.mp (show r ∈ Creation.task.writes ++ [(.stack, 6), (.stackSz, 7)] from hr)
      with hr | hr
    · exact h r hr
    · rcases List.mem_pair.mp hr with rfl | rfl
      · exact h6
      · exact h7

/-- **The creation requests.**  Whatever the registers of the client, those of alpha and the array on
its stack held before, a request arrives in one go at its handler, passes the assertions, and is read as
it was meant exactly when it is the creation of a thread.  A task creation leaves the stack and its size
to what the array happens to hold. -/
theorem agrees_iff (A : Arch) (kioSz : Nat) (c : Creation) (a : Args A) (k : Kern) {snd rcv : Nat}
    (h : snd ≠ rcv) (f : Flags) (stack : Nat → Nat) :
    ∃ k' mr, (k.upd snd (c.send A a.val)).doNormalIpc A kioSz snd rcv f = .ok (k', none) ∧
      localMr A (k'.ts.thr rcv).utcb.mr stack = mr ∧
      dispatch A (mr 0) = c.handler ∧ c.wellFormed A (mr 0) = true ∧
      (c.Agrees A a mr ↔ c = .thread) ∧
      (c.decode mr = c.asked a.val ↔
        c = .thread ∨ (stack 6 = a.val .stack ∧ stack 7 = a.val .stackSz)) := by
  obtain ⟨hdispatch, huntyped, htyped⟩ := tag_spec A c
  obtain ⟨K, hK⟩ : ∃ K, K = k.upd snd (c.send A a.val) := ⟨_, rfl⟩
  have hsnd : K.ts.thr snd = c.send A a.val (k.ts.thr snd) := by
    rw [hK]
    exact Function.update_self ..
  have hsndTyped : Tag.typed A ((K.ts.thr snd).utcb.mr 0) = 0 := by
    rw [hsnd]
    show Tag.typed A (c.request A a.val (k.ts.thr snd).utcb.mr 0) = 0
    rw [(request_apply A c a.val _).1]
    exact htyped
  have hrcv : ((K.upd rcv (Thread.copyHeader A (K.ts.thr snd) f.propagated f.useLocal)).ts.thr rcv) =
      Thread.copyHeader A (c.send A a.val (k.ts.thr snd)) f.propagated f.useLocal (K.ts.thr rcv) := by
    rw [← hsnd]
    exact Function.update_self ..
  obtain ⟨h0, hwritten, hbehind⟩ := localMr_send (A := A) c a.val (k.ts.thr snd)
    (K.ts.thr rcv) f.propagated f.useLocal stack
  rw [← hK]
  refine ⟨_, _, doNormalIpc_untyped kioSz K h f hsndTyped, rfl, ?_⟩
  rw [hrcv, h0]
  refine ⟨hdispatch, ?_, ?_, ?_⟩
  · simp [wellFormed, huntyped, htyped]
  · unfold Agrees
    rw [h0]
    constructor
    · rintro ⟨hcounts, -⟩
      cases c with
      | thread => rfl
      | task =>
        have := (hcounts (.stack, 6) (by decide)).1
        exact absurd this (by decide)
    · rintro rfl
      refine ⟨?_, decode_eq_asked hwritten⟩
      unfold InCounts
      rw [huntyped, htyped]
      decide
  · cases c with
    | thread => exact iff_of_true (decode_eq_asked hwritten) (.inl rfl)
    | task =>
      rw [decode_task_eq_asked_iff hwritten, hbehind 6 (by decide), hbehind 7 (by decide)]
      simp

/-- A kernel whose thread 1 is the client and whose thread 0 is alpha, and arguments with a stack of two
pages. -/
def idle : Kern := .start .x86 (.init .x86) 0

def pages : Args .x86 where
  val
    | .utcb => 0x20000 + 0xc * 16 + 6
    | .prio => 100
    | .pager => 0x204002
    | .kipArea => 0x30000 + 0xc * 16 + 5
    | .utcbsArea => 0x40000 + 0xe * 16 + 6
    | .stack => 0x10000
    | .stackSz => 0x2000
    | _ => 2 ^ 32 - 1
  lt p := by cases p <;> decide
  prio_lt := by decide

theorem pages_agree : ∃ k' mr, (idle.upd 1 (thread.send .x86 pages.val)).doNormalIpc .x86 0 1 0
      ⟨false, false⟩ = .ok (k', none) ∧
    localMr .x86 (k'.ts.thr 0).utcb.mr (fun _ => 0) = mr ∧
    dispatch .x86 (mr 0) = .createThread ∧ thread.wellFormed .x86 (mr 0) = true ∧
    (thread.Agrees .x86 pages mr ↔ thread = .thread) ∧
    (thread.decode mr = thread.asked pages.val ↔
      thread = .thread ∨ ((fun _ => 0) 6 = pages.val .stack ∧ (fun _ => 0) 7 = pages.val .stackSz)) :=
  agrees_iff .x86 0 .thread pages idle (by decide) ⟨false, false⟩ fun _ => 0

/-- The creation of a task with the same arguments: over an array of zeros, alpha records no stack. -/
theorem pages_task_not_agree : ∃ k' mr, (idle.upd 1 (task.send .x86 pages.val)).doNormalIpc .x86 0 1 0
      ⟨false, false⟩ = .ok (k', none) ∧
    localMr .x86 (k'.ts.thr 0).utcb.mr (fun _ => 0) = mr ∧
    task.decode mr = [(.utcb, pages.val .utcb), (.prio, 100), (.pager, pages.val .pager),
      (.kipArea, pages.val .kipArea), (.utcbsArea, pages.val .utcbsArea), (.stack, 0), (.stackSz, 0)] ∧
    ¬ task.Agrees .x86 pages mr := by
  refine ⟨_, _, doNormalIpc_untyped 0 _ (by decide) _ (by decide), rfl, by decide, ?_⟩
  rintro ⟨-, h⟩
  revert h
  decide

end Creation

end Alpha
end Wrmos
