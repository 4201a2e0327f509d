import Wrmos.Console
import Mathlib.Data.List.Infix

/-!
# The input of the console reaches its readers in order
-/

namespace Wrmos
namespace Console

open Lib

variable {A : Arch} {s s' : State} {e : Entry} {l es : List Entry} {xs ys : List Input} {n m : Nat}

/-! ## What is promised of a log -/

/-- What the log says about the application that has the input: which one it is, the bytes that arrived
since it has the input and were not dropped, and the bytes that its readers received. -/
structure Acc where
  app : Option Nat
  arrived : List Input
  delivered : List Input
  deriving DecidableEq, Repr

/-- One entry.  By design the console discards its input at a key, and what a reader does not take of a
reply out of the ring is lost; without it, only the bytes that find no room are taken off. -/
def Acc.step (design : Bool) (a : Acc) : Entry → Acc
  | .input app => if app = a.app then a else ⟨app, [], []⟩
  | .discard => if design then ⟨a.app, [], []⟩ else a
  | .arrived xs => { a with arrived := a.arrived ++ xs }
  | .dropped xs => { a with arrived := a.arrived.filter (· ∉ xs) }
  | .lost xs => if design then { a with arrived := a.arrived.filter (· ∉ xs) } else a
  | .delivered _ xs => { a with delivered := a.delivered ++ xs }

/-- What holds after an entry: the delivered bytes are a prefix of those that arrived, those of this entry
went to the application that has the input and arrived while it had it, and bytes are only dropped when what
is left to deliver fills the ring. -/
def Acc.Fits (a : Acc) (e : Entry) : Prop :=
  a.delivered <+: a.arrived ∧
    match e with
    | .delivered app xs => a.app = some app ∧ ∀ x ∈ xs, x.owner = app
    | .dropped xs => xs = [] ∨ a.arrived.length = a.delivered.length + (rxBufSz - 1)
    | _ => True

/-- The start. -/
def Acc.init : Acc := ⟨none, [], []⟩

/-- An entry that delivers and drops nothing. -/
def Quiet (e : Entry) : Prop := ∀ a : Acc, a.delivered <+: a.arrived → a.Fits e

/-- The log after some entries. -/
def acc (design : Bool) (l : List Entry) : Acc := l.foldl (Acc.step design) Acc.init

/-- **Input is routed** if this holds after every entry of the log. -/
def Routed (design : Bool) (l : List Entry) : Prop :=
  ∀ l' e, l' ++ [e] <+: l → (acc design (l' ++ [e])).Fits e

theorem acc_concat {design : Bool} : acc design (l ++ [e]) = (acc design l).step design e := by
  unfold acc
  rw [List.foldl_append]
  rfl

theorem routed_nil {design : Bool} : Routed design [] := by
  intro l' e h
  have := List.prefix_nil.mp h
  simp at this

theorem routed_concat {design : Bool} :
    Routed design (l ++ [e]) ↔ Routed design l ∧ (acc design (l ++ [e])).Fits e := by
  constructor
  · intro h
    exact ⟨fun l' e' hp => h l' e' (hp.trans (List.prefix_append l [e])), h l e (List.prefix_refl _)⟩
  · rintro ⟨h, he⟩ l' e' hp
    rcases List.prefix_concat_iff.mp hp with heq | hp
    · obtain ⟨rfl, hee⟩ := List.append_inj' heq rfl
      obtain rfl := List.singleton_inj.mp hee
      exact he
    · exact h l' e' hp

/-- The log holds nothing but such entries. -/
theorem routed_iff {design : Bool} :
    (∀ p ∈ l.inits, ∀ e ∈ p.getLast?, (acc design p).Fits e) ↔ Routed design l := by
  constructor
  · exact fun h l' e hp => h (l' ++ [e]) ((List.mem_inits _ _).mpr hp) e List.getLast?_concat
  · intro h p hp e he
    obtain ⟨l', rfl⟩ := List.getLast?_eq_some_iff.mp he
    exact h l' e ((List.mem_inits _ _).mp hp)

instance {a : Acc} : Decidable (a.Fits e) := by
  cases e <;> exact inferInstanceAs (Decidable (_ ∧ _))

instance {design : Bool} : Decidable (Routed design l) := decidable_of_iff _ routed_iff

/-! ## The input on its way -/

/-- The log is routed, the application `app` has the input, and of what arrived since then `q` is left to
deliver.  Bytes are numbered up to `b`. -/
structure Flow (l : List Entry) (app : Option Nat) (q : List Input) (b : Nat) : Prop where
  routed : Routed true l
  app_eq : (acc true l).app = app
  queue : (acc true l).arrived = (acc true l).delivered ++ q
  order : (acc true l).arrived.Pairwise fun x y => x.seq < y.seq
  seqs : ∀ x ∈ (acc true l).arrived, x.seq < b
  owned : ∀ x ∈ q, app = some x.owner

namespace Flow

variable {app app' : Option Nat} {q : List Input} {a b : Nat}

theorem nil : Flow [] none [] b := ⟨routed_nil, rfl, rfl, List.Pairwise.nil, nofun, nofun⟩

/-- Bytes in the middle of a list of numbered bytes are filtered out. -/
theorem filter_middle {pre post : List Input} (h : (pre ++ xs ++ post).Pairwise fun x y => x.seq < y.seq) :
    (pre ++ xs ++ post).filter (· ∉ xs) = pre ++ post := by
  have hne : ∀ {x y : Input}, x.seq < y.seq → x ≠ y := fun hlt heq => Nat.lt_irrefl _ (heq ▸ hlt)
  obtain ⟨h1, -, h2⟩ := List.pairwise_append.mp h
  obtain ⟨-, -, h3⟩ := List.pairwise_append.mp h1
  have hpre : pre.filter (· ∉ xs) = pre := by
    refine List.filter_eq_self.mpr fun x hx => decide_eq_true fun hmem => ?_
    exact hne (h3 x hx x hmem) rfl
  have hpost : post.filter (· ∉ xs) = post := by
    refine List.filter_eq_self.mpr fun x hx => decide_eq_true fun hmem => ?_
    exact hne (h2 x (List.mem_append_right _ hmem) x hx) rfl
  have hmid : xs.filter (· ∉ xs) = [] :=
    List.filter_eq_nil_iff.mpr fun x hx => by simpa using hx
  rw [List.filter_append, List.filter_append, hpre, hmid, hpost, List.append_nil]

/-- After an entry that starts anew nothing is left. -/
theorem restart (h : Flow l app q b) (hstep : acc true (l ++ [e]) = ⟨app', [], []⟩)
    (he : Quiet e) : Flow (l ++ [e]) app' [] b where
  routed := by
    refine routed_concat.mpr ⟨h.routed, he _ ?_⟩
    rw [hstep]
  app_eq := by rw [hstep]
  queue := by rw [hstep, List.append_nil]
  order := by
    rw [hstep]
    exact List.Pairwise.nil
  seqs := by
    rw [hstep]
    exact nofun
  owned := nofun

/-- An entry that changes nothing. -/
theorem same (h : Flow l app q b) (hstep : acc true (l ++ [e]) = acc true l)
    (he : Quiet e) : Flow (l ++ [e]) app q b where
  routed := by
    refine routed_concat.mpr ⟨h.routed, he _ ?_⟩
    rw [hstep, h.queue]
    exact List.prefix_append _ _
  app_eq := by rw [hstep, h.app_eq]
  queue := by rw [hstep, h.queue]
  order := by
    rw [hstep]
    exact h.order
  seqs := by
    rw [hstep]
    exact h.seqs
  owned := h.owned

variable (app') in
/-- The input goes to an application, or to none. -/
theorem input (h : Flow l app q b) :
    ∃ q', Flow (l ++ [.input app']) app' q' b ∧ (q' = [] ∨ app' = app ∧ q' = q) := by
  by_cases hsame : app' = app
  · subst hsame
    refine ⟨q, h.same ?_ fun _ hp => ⟨hp, trivial⟩, .inr ⟨rfl, rfl⟩⟩
    rw [acc_concat]
    exact if_pos h.app_eq.symm
  · refine ⟨[], h.restart ?_ fun _ hp => ⟨hp, trivial⟩, .inl rfl⟩
    rw [acc_concat]
    exact if_neg fun heq => hsame (heq.trans h.app_eq)

/-- The same when nothing is left, or another one gets it. -/
theorem input_nil (h : Flow l app q b) (hq : app' = app → q = []) :
    Flow (l ++ [.input app']) app' [] b := by
  obtain ⟨q', hflow, rfl | ⟨happ, rfl⟩⟩ := h.input app'
  · exact hflow
  · rwa [hq happ] at hflow

/-- The input is discarded. -/
theorem discard (h : Flow l app q b) : Flow (l ++ [.discard]) app [] b := by
  refine h.restart ?_ fun _ hp => ⟨hp, trivial⟩
  rw [acc_concat, ← h.app_eq]
  rfl

/-- Bytes arrive. -/
theorem arrived (h : Flow l (some a) q b) (hxs : xs.Pairwise fun x y => x.seq < y.seq)
    (hseq : ∀ x ∈ xs, b ≤ x.seq ∧ x.seq < b + n) (howner : ∀ x ∈ xs, x.owner = a) :
    Flow (l ++ [.arrived xs]) (some a) (q ++ xs) (b + n) := by
  have hstep : acc true (l ++ [.arrived xs]) =
      { acc true l with arrived := (acc true l).arrived ++ xs } := acc_concat
  have hqueue : (acc true l).arrived ++ xs = (acc true l).delivered ++ (q ++ xs) := by
    rw [h.queue, List.append_assoc]
  refine ⟨routed_concat.mpr ⟨h.routed, ?_, trivial⟩, ?_, ?_, ?_, ?_, ?_⟩
  · rw [hstep]
    show _ <+: (acc true l).arrived ++ xs
    rw [hqueue]
    exact List.prefix_append _ _
  · rw [hstep]
    exact h.app_eq
  · rw [hstep]
    exact hqueue
  · rw [hstep]
    refine List.pairwise_append.mpr ⟨h.order, hxs, fun x hx y hy => ?_⟩
    exact Nat.lt_of_lt_of_le (h.seqs x hx) (hseq y hy).1
  · rw [hstep]
    intro x hx
    rcases List.mem_append.mp hx with hx | hx
    · exact Nat.lt_of_lt_of_le (h.seqs x hx) (Nat.le_add_right b n)
    · exact (hseq x hx).2
  · intro x hx
    rcases List.mem_append.mp hx with hx | hx
    · exact h.owned x hx
    · rw [howner x hx]

/-- The first bytes are delivered. -/
theorem delivered (h : Flow l (some a) (xs ++ q) b) :
    Flow (l ++ [.delivered a xs]) (some a) q b := by
  have hstep : acc true (l ++ [.delivered a xs]) =
      { acc true l with delivered := (acc true l).delivered ++ xs } := acc_concat
  have hqueue : (acc true l).arrived = (acc true l).delivered ++ xs ++ q := by
    rw [h.queue, List.append_assoc]
  refine ⟨routed_concat.mpr ⟨h.routed, ?_, ?_, ?_⟩, ?_, ?_, ?_, ?_, ?_⟩
  · rw [hstep]
    show (acc true l).delivered ++ xs <+: (acc true l).arrived
    rw [hqueue]
    exact List.prefix_append _ _
  · rw [hstep]
    exact h.app_eq
  · exact fun x hx => (Option.some.inj (h.owned x (List.mem_append_left q hx))).symm
  · rw [hstep]
    exact h.app_eq
  · rw [hstep]
    exact hqueue
  · rw [hstep]
    exact h.order
  · rw [hstep]
    exact h.seqs
  · exact fun x hx => h.owned x (List.mem_append_right xs hx)

/-- Bytes are taken off what is left. -/
theorem taken {pre post : List Input} (h : Flow l app (pre ++ xs ++ post) b)
    (hstep : acc true (l ++ [e]) =
      { acc true l with arrived := (acc true l).arrived.filter (· ∉ xs) })
    (he : ∀ a : Acc, a.arrived = a.delivered ++ (pre ++ post) → a.Fits e) :
    Flow (l ++ [e]) app (pre ++ post) b := by
  have harr : (acc true l).arrived = (acc true l).delivered ++ pre ++ xs ++ post := by
    rw [h.queue]
    simp only [List.append_assoc]
  have hfilter : (acc true l).arrived.filter (· ∉ xs) = (acc true l).delivered ++ (pre ++ post) := by
    have horder := h.order
    rw [harr] at horder ⊢
    rw [filter_middle horder, List.append_assoc]
  refine ⟨routed_concat.mpr ⟨h.routed, he _ ?_⟩, ?_, ?_, ?_, ?_, ?_⟩
  · rw [hstep]
    exact hfilter
  · rw [hstep]
    exact h.app_eq
  · rw [hstep]
    exact hfilter
  · rw [hstep]
    exact h.order.filter _
  · rw [hstep]
    exact fun x hx => h.seqs x (List.mem_filter.mp hx).1
  · intro x hx
    refine h.owned x ?_
    rcases List.mem_append.mp hx with hx | hx
    · exact List.mem_append_left _ (List.mem_append_left _ hx)
    · exact List.mem_append_right _ hx

/-- The last bytes find no room. -/
theorem dropped (h : Flow l app (q ++ xs) b) (hfull : xs = [] ∨ q.length = rxBufSz - 1) :
    Flow (l ++ [.dropped xs]) app q b := by
  rw [← List.append_nil (q ++ xs)] at h
  rw [← List.append_nil q]
  refine h.taken acc_concat fun a ha => ⟨?_, ?_⟩
  · rw [ha]
    exact List.prefix_append _ _
  · refine hfull.imp_right fun hlen => ?_
    rw [ha, List.append_nil, List.length_append, hlen]

/-- The first bytes are lost. -/
theorem lost (h : Flow l app (xs ++ q) b) : Flow (l ++ [.lost xs]) app q b := by
  rw [← List.nil_append xs] at h
  refine h.taken acc_concat fun a ha => ⟨?_, trivial⟩
  rw [ha]
  exact List.prefix_append _ _

end Flow

/-! ## Steps -/

/-- The bytes left to deliver are those in the ring, if an application has the input. -/
def State.Flows (s : State) : Prop :=
  match s.inputApp with
  | none => Flow s.log none [] s.arrivals
  | some n => ∃ a, (n, a) ∈ s.apps.busy ∧ Flow s.log (some a.serial) s.rxCbuf.stored s.arrivals

/-- The ring has its size, and its pointers are inside of it. -/
def Ring (c : Cbuf Input) : Prop := c.Wf ∧ c.sz = rxBufSz

/-- What every step keeps. -/
structure State.Inv (s : State) : Prop where
  apps : s.apps.Wf
  ring : Ring s.rxCbuf
  flows : s.Flows

namespace State

variable {a a' : CliApp} {cli : Thrid} {reply : Reply} {b : Nat}

theorem flows_none (h : s.inputApp = none) : s.Flows ↔ Flow s.log none [] s.arrivals := by
  unfold Flows
  rw [h]

theorem flows_some (h : s.inputApp = some n) :
    s.Flows ↔ ∃ a, (n, a) ∈ s.apps.busy ∧ Flow s.log (some a.serial) s.rxCbuf.stored s.arrivals := by
  unfold Flows
  rw [h]

/-- The start. -/
theorem inv_init : init.Inv where
  apps := NodeList.wf_init
  ring := ⟨⟨by decide, by decide⟩, rfl⟩
  flows := Flow.nil

theorem find_mem {id : Nat} (h : s.find id = some (n, a)) : (n, a) ∈ s.apps.busy :=
  List.mem_of_find?_eq_some h

/-- The application that has the input. -/
theorem flow_of_mem (h : s.Inv) (hinput : s.inputApp = some n) (hmem : (n, a) ∈ s.apps.busy) :
    Flow s.log (some a.serial) s.rxCbuf.stored s.arrivals := by
  obtain ⟨a', hmem', hflow⟩ := (flows_some hinput).mp h.flows
  rwa [NodeList.elem_unique h.apps hmem hmem']

theorem inv_of_flow (happs : s.apps.Wf) (hring : Ring s.rxCbuf) (hinput : s.inputApp = some n)
    (hmem : (n, a) ∈ s.apps.busy) (hflow : Flow s.log (some a.serial) s.rxCbuf.stored s.arrivals) :
    s.Inv :=
  ⟨happs, hring, (flows_some hinput).mpr ⟨a, hmem, hflow⟩⟩

/-- The items of the applications stay when one of them changes. -/
theorem nodes_setApp : (s.setApp n a).apps.nodes = s.apps.nodes := by
  unfold setApp NodeList.nodes
  rw [List.map_map]
  refine List.map_congr_left fun e _ => ?_
  show (if e.1 = n then (n, a) else e).1 = e.1
  split
  · exact (show e.1 = n from ‹_›).symm
  · rfl

theorem wf_setApp (h : s.apps.Wf) : (s.setApp n a).apps.Wf := by
  unfold NodeList.Wf
  rw [nodes_setApp]
  exact h

/-- Who has the input and how it is called stays. -/
theorem inv_setApp (h : s.Inv) (hmem : (n, a) ∈ s.apps.busy) (hserial : a'.serial = a.serial) :
    (s.setApp n a').Inv := by
  refine ⟨wf_setApp h.apps, h.ring, ?_⟩
  cases hinput : s.inputApp with
  | none => exact (flows_none (s := s.setApp n a') hinput).mpr ((flows_none hinput).mp h.flows)
  | some k =>
    obtain ⟨c, hc, hflow⟩ := (flows_some hinput).mp h.flows
    refine (flows_some (s := s.setApp n a') hinput).mpr ?_
    by_cases hk : k = n
    · subst hk
      refine ⟨a', List.mem_map.mpr ⟨(k, a), hmem, if_pos rfl⟩, ?_⟩
      rw [hserial, NodeList.elem_unique h.apps hmem hc]
      exact hflow
    · exact ⟨c, List.mem_map.mpr ⟨(k, c), hc, if_neg hk⟩, hflow⟩

theorem serial_wait {rxsz : Nat} : (a.wait cli rxsz).1.serial = a.serial := by
  unfold CliApp.wait
  split_ifs <;> rfl

theorem ring_clear {c : Cbuf Input} (h : Ring c) : Ring c.clear := ⟨Cbuf.wf_clear h.1, h.2⟩

/-- The ring is cleared. -/
theorem inv_clearRing (h : s.Inv) : s.clearRing.Inv := by
  refine ⟨h.apps, ring_clear h.ring, ?_⟩
  cases hinput : s.inputApp with
  | none => exact (flows_none (s := s.clearRing) hinput).mpr ((flows_none hinput).mp h.flows).discard
  | some n =>
    obtain ⟨a, ha, hflow⟩ := (flows_some hinput).mp h.flows
    exact (flows_some (s := s.clearRing) hinput).mpr ⟨a, ha, hflow.discard⟩

/-- What the log says whatever application has the input. -/
theorem flow_any (h : s.Inv) : ∃ app q, Flow s.log app q s.arrivals ∧
    (s.inputApp = none → app = none ∧ q = []) ∧ (s.inputApp ≠ none → q = s.rxCbuf.stored) := by
  cases hinput : s.inputApp with
  | none => exact ⟨none, [], (flows_none hinput).mp h.flows, fun _ => ⟨rfl, rfl⟩, fun h => absurd rfl h⟩
  | some n =>
    obtain ⟨a, -, hflow⟩ := (flows_some hinput).mp h.flows
    exact ⟨_, _, hflow, nofun, fun _ => rfl⟩

/-- The log of a state in which an application gets the input. -/
theorem log_setInput (h : s.apps.Wf) (hmem : (n, a) ∈ s.apps.busy) :
    (s.setInput (some n)).log = s.log ++ [.input (some a.serial)] := by
  unfold setInput addLog
  rw [Option.bind_some, (NodeList.get?_eq_some h).mpr hmem]
  rfl

/-- With an empty ring the input goes to any application. -/
theorem inv_setInput (h : s.Inv) (hring : s.rxCbuf.stored = []) (hmem : (n, a) ∈ s.apps.busy) :
    (s.setInput (some n)).Inv := by
  obtain ⟨app, q, hflow, hnone, hsome⟩ := flow_any h
  have hq : q = [] := by
    by_cases hinput : s.inputApp = none
    · exact (hnone hinput).2
    · exact (hsome hinput).trans hring
  refine ⟨h.apps, h.ring, (flows_some (n := n) rfl).mpr ⟨a, hmem, ?_⟩⟩
  rw [log_setInput h.apps hmem, show (s.setInput (some n)).rxCbuf.stored = [] from hring]
  exact hflow.input_nil fun _ => hq

/-- `cmd_input`. -/
theorem inv_cmdInput {id : Nat} (h : s.Inv) : (s.cmdInput id).Inv := by
  unfold cmdInput
  cases hfind : s.find id with
  | none => exact h
  | some e =>
    obtain ⟨n, a⟩ := e
    have hmem := find_mem hfind
    dsimp only
    split
    · exact h
    · obtain ⟨app, q, hflow, -⟩ := flow_any h
      obtain ⟨q', hflow', -⟩ := hflow.input (some a.serial)
      refine ⟨h.apps, ring_clear h.ring, (flows_some (n := n) rfl).mpr ⟨a, hmem, ?_⟩⟩
      show Flow ((s.setInput (some n)).log ++ [.discard]) _ [] _
      rw [log_setInput h.apps hmem]
      exact hflow'.discard

/-- The next application is one of the list. -/
theorem nextInput_mem (hne : s.apps.busy ≠ []) : ∃ n, s.nextInput = some n ∧ n ∈ s.apps.nodes := by
  have hhead : ∃ n, s.apps.nodes.head? = some n ∧ n ∈ s.apps.nodes := by
    obtain ⟨e, rest, hbusy⟩ := List.exists_cons_of_ne_nil hne
    have hnodes : s.apps.nodes = e.1 :: rest.map Prod.fst := by
      unfold NodeList.nodes
      rw [hbusy]
      rfl
    exact ⟨e.1, by rw [hnodes]; rfl, by rw [hnodes]; exact List.mem_cons_self⟩
  unfold nextInput
  split
  · rename_i k n rest hdrop
    have hmem : n ∈ k :: n :: rest := List.mem_cons_of_mem k List.mem_cons_self
    rw [← hdrop] at hmem
    exact ⟨n, rfl, List.dropWhile_subset _ hmem⟩
  · exact hhead

/-- Ctrl-E, with the ring cleared. -/
theorem inv_switchInput (h : s.Inv) (hring : s.rxCbuf.stored = []) : s.switchInput.Inv := by
  unfold switchInput
  split
  · exact h
  · obtain ⟨n, hn, hnode⟩ := nextInput_mem (s := s) ‹_›
    obtain ⟨⟨k, a⟩, hmem, rfl⟩ := List.mem_map.mp hnode
    rw [hn]
    exact inv_setInput h hring hmem

/-! ## Requests of clients -/

/-- The bytes left stay where the input stays. -/
theorem flows_of_same (h : s.Inv) (hlog : s'.log = s.log) (hinput : s'.inputApp = s.inputApp)
    (hring : s'.rxCbuf = s.rxCbuf) (harrivals : s'.arrivals = s.arrivals)
    (happs : ∀ n a, s.inputApp = some n → (n, a) ∈ s.apps.busy → (n, a) ∈ s'.apps.busy) : s'.Flows := by
  cases hin : s.inputApp with
  | none =>
    rw [flows_none (hinput.trans hin), hlog, harrivals]
    exact (flows_none hin).mp h.flows
  | some n =>
    obtain ⟨a, ha, hflow⟩ := (flows_some hin).mp h.flows
    rw [flows_some (hinput.trans hin), hlog, harrivals, hring]
    exact ⟨a, happs n a hin ha, hflow⟩

/-- An application is opened.  The sole one gets the input with what the ring holds. -/
theorem inv_add {thrnoBegin thrnoEnd name : Nat} (h : s.Inv)
    (hclean : s.apps.busy = [] → s.rxCbuf.stored = []) :
    (s.add cli thrnoBegin thrnoEnd name).1.Inv := by
  unfold add
  split_ifs with hfull hfind
  · exact h
  · exact h
  · split
    · exact h
    · rename_i apps n hpush
      have hadded : State.Inv
          { s with
            apps := apps
            opened := s.opened + 1 } :=
        ⟨NodeList.wf_insertWhere h.apps hpush, h.ring,
          flows_of_same h rfl rfl rfl rfl fun m x _ hx =>
            (NodeList.mem_insertWhere hpush).mpr (.inl hx)⟩
      dsimp only
      split
      · rename_i hsole
        have hempty : s.apps.busy = [] := by
          have hlen := NodeList.length_insertWhere hpush
          exact List.length_eq_zero_iff.mp (by omega)
        exact inv_setInput hadded (hclean hempty)
          ((NodeList.mem_insertWhere hpush).mpr (.inr ⟨rfl, rfl⟩))
      · exact hadded

/-- An application is closed. -/
theorem inv_remove (h : s.Inv) : (s.remove cli).1.Inv := by
  unfold remove
  cases hfind : s.find cli.number with
  | none => exact h
  | some e =>
    obtain ⟨n, a⟩ := e
    have hnode : n ∈ s.apps.nodes := List.mem_map.mpr ⟨_, find_mem hfind, rfl⟩
    dsimp only
    split
    · obtain ⟨app, q, hflow, -⟩ := flow_any h
      obtain ⟨q', hflow', hq'⟩ := hflow.input none
      refine ⟨NodeList.wf_erase h.apps hnode, h.ring, (flows_none rfl).mpr ?_⟩
      obtain rfl : q' = [] := List.eq_nil_iff_forall_not_mem.mpr fun x hx => nomatch hflow'.owned x hx
      exact hflow'
    · rename_i hother
      refine ⟨NodeList.wf_erase h.apps hnode, h.ring, flows_of_same h rfl rfl rfl rfl ?_⟩
      intro m x hin hx
      exact NodeList.mem_erase.mpr ⟨hx, fun heq => hother (heq ▸ hin)⟩

/-- A reply transfers no more than was sent. -/
theorem sent_le : reply.sent n ≤ n := by
  cases reply with
  | received => exact Nat.le_refl n
  | overflow transferred => exact Nat.min_le_right transferred n
  | failed => exact Nat.zero_le n

/-- A read is served from the ring, or waits. -/
theorem inv_processCliRead {u t : Nat} {mr : Nat → Nat} (h : s.Inv) :
    (s.processCliRead u t mr cli reply).Inv := by
  unfold processCliRead
  split
  · exact h
  cases hfind : s.find cli.number with
  | none => exact h
  | some e =>
    obtain ⟨n, a⟩ := e
    have hmem := find_mem hfind
    dsimp only
    split
    · exact inv_setApp h hmem serial_wait
    · rename_i hinput
      replace hinput : s.inputApp = some n := not_not.mp hinput
      obtain ⟨hwf, hsz, hread, hrest⟩ := Cbuf.stored_read (readSz (incSz mr)) h.ring.1
      split
      · exact inv_setApp h hmem serial_wait
      · rw [hread]
        set xs := s.rxCbuf.stored.take (readSz (incSz mr)) with hxs
        set k := reply.sent xs.length
        have hflow := flow_of_mem h hinput hmem
        rw [← List.take_append_drop (readSz (incSz mr)) s.rxCbuf.stored, ← hxs, ← hrest,
          ← List.take_append_drop k xs, List.append_assoc] at hflow
        exact inv_of_flow h.apps ⟨hwf, hsz.trans h.ring.2⟩ hinput hmem hflow.delivered.lost

/-- Opening the sole application needs an empty ring. -/
theorem inv_processClientRequest {u t : Nat} {mr : Nat → Nat} {threads : Option (Nat × Nat)} (h : s.Inv)
    (hclean : reqId mr = consoleOpen → s.apps.busy = [] → s.rxCbuf.stored = [])
    (hstep : s.processClientRequest A u t mr cli threads reply = .ok s') : s'.Inv := by
  unfold processClientRequest at hstep
  split_ifs at hstep with hopen hclose hread hwrite
  · obtain rfl := Except.ok.inj hstep
    unfold processCliOpen
    split
    · exact h
    · cases threads with
      | none => exact h
      | some range => exact inv_add h (hclean hopen)
  · obtain rfl := Except.ok.inj hstep
    unfold processCliClose
    split
    · exact h
    · exact inv_remove h
  · obtain rfl := Except.ok.inj hstep
    exact inv_processCliRead h
  · unfold processCliWrite at hstep
    split at hstep
    · obtain rfl := Except.ok.inj hstep
      exact h
    · obtain ⟨-, hstep⟩ := ensure_bind_eq_ok.mp hstep
      obtain rfl := Except.ok.inj hstep
      exact h
  · obtain rfl := Except.ok.inj hstep
    exact h

/-! ## Chunks from the driver -/

variable {bs : List UInt8} {owner : Nat}

@[simp] theorem length_tag : (s.tag bs owner).length = bs.length := by simp [tag]

theorem getElem_tag {i : Nat} (hi : i < (s.tag bs owner).length) :
    ∃ ch, (s.tag bs owner)[i] = ⟨ch, s.arrivals + i, owner⟩ :=
  ⟨bs.get ⟨i, by simpa using hi⟩, by simp [tag]⟩

/-- The bytes of a chunk are numbered from the last one on. -/
theorem mem_tag {x : Input} (hx : x ∈ s.tag bs owner) :
    (s.arrivals ≤ x.seq ∧ x.seq < s.arrivals + bs.length) ∧ x.owner = owner := by
  obtain ⟨i, hi, rfl⟩ := List.getElem_of_mem hx
  obtain ⟨ch, htag⟩ := getElem_tag hi
  rw [htag]
  rw [length_tag] at hi
  exact ⟨⟨Nat.le_add_right _ _, Nat.add_lt_add_left hi _⟩, rfl⟩

theorem pairwise_tag : (s.tag bs owner).Pairwise fun x y => x.seq < y.seq := by
  refine List.pairwise_iff_getElem.mpr fun i j hi hj hij => ?_
  obtain ⟨ch, htag⟩ := getElem_tag hi
  obtain ⟨ch', htag'⟩ := getElem_tag hj
  rw [htag, htag']
  exact Nat.add_lt_add_left hij _

/-- Bytes go into the ring behind what it holds. -/
theorem inv_store (happs : s.apps.Wf) (hring : Ring s.rxCbuf) (hinput : s.inputApp = some n)
    (hmem : (n, a) ∈ s.apps.busy)
    (hflow : Flow s.log (some a.serial) (s.rxCbuf.stored ++ xs) s.arrivals) : (s.store xs).Inv := by
  obtain ⟨hwf, hsz, hwritten, hstored⟩ := Cbuf.stored_write xs hring.1
  refine inv_of_flow happs ⟨hwf, hsz.trans hring.2⟩ hinput hmem ?_
  show Flow (s.log ++ [.dropped (xs.drop (s.rxCbuf.write xs).2)]) _ (s.rxCbuf.write xs).1.stored _
  rw [hstored]
  refine Flow.dropped ?_ ?_
  · rw [List.append_assoc, List.take_append_drop]
    exact hflow
  · -- what is written falls short of the bytes when the ring is full
    have hroom := Cbuf.length_stored_lt hring.1
    rw [hring.2] at hwritten hroom
    rw [List.drop_eq_nil_iff, List.length_append, List.length_take, hwritten]
    omega

/-- A waiting reader gets the first bytes and the ring, if it is empty, the others. -/
theorem inv_answer {k : Nat} (happs : s.apps.Wf) (hring : Ring s.rxCbuf) (hinput : s.inputApp = some n)
    (hmem : (n, a) ∈ s.apps.busy) (hempty : s.rxCbuf.stored = []) (hserial : a'.serial = a.serial)
    (hflow : Flow s.log (some a.serial) xs s.arrivals) :
    (if ((s.setApp n a').deliver a' (xs.take k) reply).2 ≠ xs.length then
        ((s.setApp n a').deliver a' (xs.take k) reply).1.store
          (xs.drop ((s.setApp n a').deliver a' (xs.take k) reply).2)
      else ((s.setApp n a').deliver a' (xs.take k) reply).1).Inv := by
  have hmem' : (n, a') ∈ (s.setApp n a').apps.busy := List.mem_map.mpr ⟨(n, a), hmem, if_pos rfl⟩
  set sent := reply.sent (xs.take k).length with hsent
  have htake : (xs.take k).take sent = xs.take sent := by
    have hle : sent ≤ k := sent_le.trans (List.length_take_le k xs)
    rw [List.take_take, Nat.min_eq_left hle]
  have hdelivered : Flow (s.log ++ [.delivered a'.serial ((xs.take k).take sent)]) (some a'.serial)
      (s.rxCbuf.stored ++ xs.drop sent) s.arrivals := by
    rw [hempty, htake, hserial]
    refine Flow.delivered ?_
    rw [List.nil_append, List.take_append_drop]
    exact hflow
  show (if sent ≠ xs.length then _ else _ : State).Inv
  split
  · exact inv_store (wf_setApp happs) hring hinput hmem' hdelivered
  · rename_i hall
    rw [List.drop_of_length_le (Nat.le_of_eq (not_not.mp hall).symm), List.append_nil] at hdelivered
    exact inv_of_flow (wf_setApp happs) hring hinput hmem' hdelivered

theorem inputCliApp_eq_some (h : s.apps.Wf) (hinput : s.inputCliApp = some (n, a)) :
    s.inputApp = some n ∧ (n, a) ∈ s.apps.busy := by
  obtain ⟨m, hm, hget⟩ := Option.bind_eq_some_iff.mp hinput
  obtain ⟨c, hc, heq⟩ := Option.map_eq_some_iff.mp hget
  obtain ⟨rfl, rfl⟩ := Prod.mk.inj heq
  exact ⟨hm, (NodeList.get?_eq_some h).mp hc⟩

/-- No request of the application that has the input waits while the ring holds bytes. -/
def Served (s : State) : Prop :=
  ∀ e ∈ s.inputCliApp, e.2.rxreqs ≠ [] → s.rxCbuf.stored = []

instance : Decidable s.Served := by
  unfold Served
  cases s.inputCliApp with
  | none => exact isTrue nofun
  | some e => exact decidable_of_iff (e.2.rxreqs ≠ [] → s.rxCbuf.stored = []) (by simp)

/-- A chunk goes to a waiting reader, and what is left into the ring. -/
theorem inv_routeChars (h : s.Inv) (hserved : s.Served) : (s.routeChars bs reply).Inv := by
  unfold routeChars
  cases hin : s.inputCliApp with
  | none => exact h
  | some e =>
    obtain ⟨n, a⟩ := e
    obtain ⟨hinput, hmem⟩ := inputCliApp_eq_some h.apps hin
    have hflow := (flow_of_mem h hinput hmem).arrived (n := bs.length) pairwise_tag
      (fun _ => And.left ∘ mem_tag) fun _ => And.right ∘ mem_tag
    dsimp only
    split
    · -- nobody waits
      split
      · exact inv_store h.apps h.ring hinput hmem hflow
      · rename_i hnone
        have hnil : s.tag bs a.serial = [] := List.length_eq_zero_iff.mp (not_not.mp hnone).symm
        refine inv_of_flow h.apps h.ring hinput hmem ?_
        rw [hnil, List.append_nil] at hflow
        rw [hnil]
        exact hflow
    · rename_i r a' hreq
      obtain ⟨hhead, rfl⟩ := Prod.mk.inj hreq
      have hempty : s.rxCbuf.stored = [] := hserved (n, a) hin fun hnil => by
        rw [show a.rxreqs = [] from hnil] at hhead
        cases hhead
      rw [hempty, List.nil_append] at hflow
      exact inv_answer h.apps h.ring hinput hmem hempty rfl hflow

/-- A visit to the shell. -/
theorem inv_shell {shell : List Nat} (h : s.Inv) : (shell.foldl cmdInput s).Inv := by
  induction shell generalizing s with
  | nil => exact h
  | cons id shell ih => exact ih (inv_cmdInput h)

/-- A chunk. -/
theorem inv_processInputChars {shell : List Nat} (h : s.Inv)
    (hserved : bs.findSome? key? = none → s.Served) : (s.processInputChars bs reply shell).Inv := by
  unfold processInputChars
  have hclear := inv_clearRing h
  split
  · exact inv_shell hclear
  · exact hclear
  · exact inv_switchInput hclear Cbuf.stored_clear
  · exact inv_routeChars h (hserved ‹_›)

/-! ## Runs -/

/-- Neither does a chunk overtake bytes in the ring, nor does the first application find bytes of another
one in it. -/
def Clean (s : State) : Event → Prop
  | .chunk bs _ _ => bs.findSome? key? = none → s.Served
  | .request _ _ mr _ _ _ => reqId mr = consoleOpen → s.apps.busy = [] → s.rxCbuf.stored = []

instance {ev : Event} : Decidable (s.Clean ev) := by
  cases ev <;> exact inferInstanceAs (Decidable (_ → _))

/-- One event. -/
theorem inv_step {ev : Event} (h : s.Inv) (hclean : s.Clean ev) (hstep : s.step A ev = .ok s') :
    s'.Inv := by
  cases ev with
  | chunk bs reply shell =>
    obtain rfl := Except.ok.inj hstep
    exact inv_processInputChars h hclean
  | request u t mr cli threads reply => exact inv_processClientRequest h hclean hstep

end State

/-- **The input of an application reaches its readers in order** in every run in which no chunk overtakes
bytes in the ring and no application is opened alone on bytes of another one. -/
theorem run_routed {s : State} {es : List Event} (hclean : Meets (State.step A) State.Clean .init es)
    (hrun : runAll (State.step A) .init es = .ok s) : Routed true s.log := by
  have hinv : s.Inv :=
    runAll_invariant (fun s ev s' h hc hs => State.inv_step h hc hs) State.inv_init hclean hrun
  obtain ⟨app, q, hflow, -⟩ := State.flow_any hinv
  exact hflow.routed

/-- The state after a run from the start, or the start if it stops. -/
def after (es : List Event) : State :=
  match runAll (State.step .x86) .init es with
  | .ok s => s
  | .error _ => .init

/-- A client opens the console. -/
def openReq (cli thrnoEnd : Nat) : Event :=
  .request 4 0 (fun i => if i = 3 then State.consoleOpen else 0) ⟨cli, 1⟩ (some (cli, thrnoEnd)) .received

/-- A client closes it. -/
def closeReq (cli : Nat) : Event :=
  .request 3 0 (fun i => if i = 3 then State.consoleClose else 0) ⟨cli, 1⟩ none .received

/-- A client reads. -/
def readReq (cli sz : Nat) (reply : Reply) : Event :=
  .request 5 0 (fun i => if i = 3 then State.consoleRead else sz) ⟨cli, 1⟩ none reply

/-- Bytes of input. -/
def chars (bs : List UInt8) : Event := .chunk bs .received []

/-- Two applications read, one from the ring and one after Ctrl-E. -/
def readersRun : List Event :=
  [openReq 10 20, openReq 20 30, readReq 10 2 .received, chars [97, 98, 99], readReq 11 1 .received,
    readReq 21 4 .received, chars [0x05], chars [100, 101], closeReq 20]

theorem readersRun_routed : Routed true (after readersRun).log ∧
    (after readersRun).log.filterMap (fun | .delivered n xs => some (n, xs.map Input.ch) | _ => none) =
      [(0, [97, 98]), (0, [99]), (1, [100, 101])] :=
  ⟨run_routed (A := .x86) (show Meets _ _ _ readersRun by decide +kernel) rfl, by decide +kernel⟩

/-- A byte is discarded by a visit to the shell. -/
def discardRun : List Event := [openReq 10 20, chars [97], chars [0x17], chars [98], readReq 10 1 .received]

/-- A byte goes to the second of two readers before one that waits in the ring. -/
def overtakeRun : List Event :=
  [openReq 10 20, readReq 10 1 .received, readReq 11 10 .received, chars [97, 98, 99], chars [100]]

/-- A byte in the ring goes to an application that was opened after it arrived. -/
def leftoverRun : List Event :=
  [openReq 10 20, chars [97], closeReq 10, openReq 20 30, readReq 20 1 .received]

/-- A byte is lost with a reply that fails. -/
def failedRun : List Event :=
  [openReq 10 20, chars [97, 98], readReq 10 1 .failed, readReq 10 1 .received]

/-- Input that is discarded or lost is missed by the readers, and without the two conditions it gets to them
out of order or to another application. -/
theorem runs_not_routed :
    ¬ Routed false (after discardRun).log ∧ ¬ Routed false (after overtakeRun).log ∧
      ¬ Routed false (after leftoverRun).log ∧ ¬ Routed false (after failedRun).log := by
  decide +kernel

end Console
end Wrmos
