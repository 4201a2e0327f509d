import Wrmos.App
import Wrmos.AlphaMessages

/-!
# The thread requests of alpha

`Thrs_t`, `App_t` and `Apps_t` of `lib/wrmos/src/app.cpp` keep which threads and how many address spaces
the applications use.  `process_create_thread_request`, `process_delete_thread_request` and
`process_create_task_request` of `app/alpha/main.cpp` serve the requests to create and to delete threads.

An application has `max_threads` slots and the thread numbers from that of its owner on, one for each
slot.  The system calls of a handler are recorded, and what they return is a function of the calls before
and of the call itself.  A handler ends with the reply it sends; a reply that cannot be delivered, which
stops alpha, is left out.  Thread numbers are far from the bounds of their types: the user base has twelve
bits.
-/

namespace Wrmos

open Lib (ensure)

/-! ## The table of threads -/

/-- `Wrm_thr_state_free`, `Wrm_thr_state_busy` and `Wrm_thr_state_done`. -/
inductive ThrState where
  | free
  | busy
  | done
  deriving DecidableEq, Repr

/-- The value of a state. -/
def ThrState.code : ThrState → Int
  | .free => 1
  | .busy => 2
  | .done => 3

/-- `Thr_t`. -/
structure Thr where
  state : ThrState
  terminateCode : Nat
  utcb : Nat
  stackAddr : Nat
  stackSz : Nat
  deriving DecidableEq, Repr

/-- What `free` returns through its pointers. -/
structure Freed where
  utcb : Nat
  stackAddr : Nat
  stackSz : Nat
  termCode : Nat
  deriving DecidableEq, Repr

/-- The slots of `Thrs_t` below `_threads_max`. -/
abbrev Thrs := List Thr

namespace Thrs

/-- The slot `alloc` takes. -/
def firstFree (ts : Thrs) : Option Nat := ts.findIdx? (·.state == .free)

/-- `alloc`, `-1` as `none`. -/
def alloc (ts : Thrs) (utcb stackAddr stackSz : Nat) : Option (Thrs × Nat) :=
  ts.firstFree.map fun i =>
    (ts.modify i fun t => ⟨.busy, t.terminateCode, utcb, stackAddr, stackSz⟩, i)

/-- `state`. -/
def state (ts : Thrs) (i : Nat) : Int :=
  match ts[i]? with
  | none => -1
  | some t => t.state.code

/-- `terminate`. -/
def terminate (ts : Thrs) (i code : Nat) : Thrs × Int :=
  match ts[i]? with
  | none => (ts, -1)
  | some t =>
    if t.state ≠ .busy then (ts, -2)
    else (ts.set i { t with terminateCode := code, state := .done }, 0)

/-- `free`: the pointers are written only when it succeeds. -/
def free (ts : Thrs) (i : Nat) (out : Freed) : Thrs × Int × Freed :=
  match ts[i]? with
  | none => (ts, -1, out)
  | some t =>
    if t.state ≠ .done then (ts, -2, out)
    else (ts.set i { t with state := .free }, 0, ⟨t.utcb, t.stackAddr, t.stackSz, t.terminateCode⟩)

end Thrs

/-! ## Applications -/

/-- `App_t`: the owner, the memory regions, the address spaces and threads, and the highest priority.
The name is kept only as far as `wrm_app_get_location` reads it. -/
structure AlphaApp where
  owner : Nat
  lx : Bool
  mem : App
  maxAspaces : Nat
  aspacesInUse : Nat
  threads : Thrs
  maxPrio : Nat

namespace AlphaApp

variable (A : Arch) (e : AlphaApp)

/-- `thread_numbers`: the first number of the application, and the one behind its last. -/
def thrnoBegin : Nat := Thrid.number A e.owner
def thrnoEnd : Nat := e.thrnoBegin A + e.threads.length

/-- The test of `Apps_t::find`. -/
def has (id : Nat) : Bool :=
  decide (e.thrnoBegin A ≤ Thrid.number A id) && decide (Thrid.number A id < e.thrnoEnd A)

/-- `alloc_aspace`. -/
def allocAspace : Option AlphaApp :=
  if e.maxAspaces < e.aspacesInUse + 1 then none
  else some { e with aspacesInUse := e.aspacesInUse + 1 }

/-- `thread_alloc`, with the number of the thread. -/
def threadAlloc (utcb stackAddr stackSz : Nat) : Except Stop (AlphaApp × Option Nat) := do
  ensure (utcb ≠ Fpage.nil) (.assertion "!utcb.is_nil()")
  ensure (stackAddr ≠ 0) (.assertion "stack_addr")
  ensure (stackSz ≠ 0) (.assertion "stack_sz")
  match e.threads.alloc utcb stackAddr stackSz with
  | none => pure (e, none)
  | some (ts, i) => pure ({ e with threads := ts }, some (i + e.thrnoBegin A))

/-- The assertion of the functions that take the number of a thread. -/
def checkThrno (thrno : Nat) : Except Stop Unit :=
  ensure (e.thrnoBegin A ≤ thrno ∧ thrno < e.thrnoEnd A)
    (.assertion "thrno >= _owner.number()  &&  thrno < (_owner.number() + _threads.max())")

/-- `thread_state`. -/
def threadState (thrno : Nat) : Except Stop Int := do
  e.checkThrno A thrno
  pure (e.threads.state (thrno - e.thrnoBegin A))

/-- `thread_terminate`. -/
def threadTerminate (thrno code : Nat) : Except Stop (AlphaApp × Int) := do
  e.checkThrno A thrno
  let (ts, rc) := e.threads.terminate (thrno - e.thrnoBegin A) code
  pure ({ e with threads := ts }, rc)

/-- `thread_free`. -/
def threadFree (thrno : Nat) (out : Freed) : Except Stop (AlphaApp × Int × Freed) := do
  e.checkThrno A thrno
  let (ts, rc, out) := e.threads.free (thrno - e.thrnoBegin A) out
  pure ({ e with threads := ts }, rc, out)

end AlphaApp

/-! ## Alpha -/

/-- A system call of a handler. -/
inductive KCall where
  | threadControl (dst space sched pager utcb : Nat)
  | schedule (dst prio : Nat)
  | spaceControl (space control kipArea utcbsArea redirector : Nat)
  deriving DecidableEq, Repr

/-- What the kernel returns for a call, after the calls before it. -/
abbrev Krn := List KCall → KCall → Nat

/-- What the handlers use: the identity of alpha, the user base of the kernel interface page, the
`max_threads` of the configured applications, the applications, the page pool, and the system calls made
so far. -/
structure AlphaState where
  id : Nat
  userBase : Nat
  cfgs : List Nat
  apps : List AlphaApp
  pool : PagePool
  calls : List KCall

namespace AlphaState

variable (A : Arch) (s : AlphaState)

/-- The search for the configuration of an application: the thread numbers follow one another in the
order of the entries. -/
def findCfg (num : Nat) : Nat → List Nat → Option Nat
  | _, [] => none
  | first, maxThreads :: cfgs =>
    if first ≤ num ∧ num < first + maxThreads then some first
    else findCfg num (first + maxThreads) cfgs

/-- The loop at the head of the handlers. -/
def appCfg (from' : Nat) : Option Nat := findCfg (Thrid.number A from') (s.userBase + 2) s.cfgs

/-- `Apps_t::find`, with the place in the list. -/
def find (id : Nat) : Option (Nat × AlphaApp) := do
  let i ← s.apps.findIdx? (·.has A id)
  let e ← s.apps[i]?
  pure (i, e)

/-- Write an application back. -/
def put (i : Nat) (e : AlphaApp) : AlphaState := { s with apps := s.apps.set i e }

/-- A system call. -/
def sys (krn : Krn) (c : KCall) : AlphaState × Nat := ({ s with calls := s.calls ++ [c] }, krn s.calls c)

/-- `wrm_app_alloc_aspace`. -/
def appAllocAspace (id : Nat) : AlphaState × Int :=
  match s.find A id with
  | none => (s, -1)
  | some (i, e) =>
    match e.allocAspace with
    | none => (s, -2)
    | some e => (s.put i e, 0)

/-- `wrm_app_thr_alloc`: an error as `none`. -/
def appThrAlloc (id utcb stackAddr stackSz : Nat) : Except Stop (AlphaState × Option Nat) :=
  match s.find A id with
  | none => pure (s, none)
  | some (i, e) => do
    let (e, no) ← e.threadAlloc A utcb stackAddr stackSz
    pure (s.put i e, no)

/-- `wrm_app_thr_state`. -/
def appThrState (id thrno : Nat) : Except Stop Int :=
  match s.find A id with
  | none => pure (-10)
  | some (_, e) => e.threadState A thrno

/-- `wrm_app_thr_terminate`. -/
def appThrTerminate (id thrno code : Nat) : Except Stop (AlphaState × Int) :=
  match s.find A id with
  | none => pure (s, -10)
  | some (i, e) => do
    let (e, rc) ← e.threadTerminate A thrno code
    pure (s.put i e, rc)

/-- `wrm_app_thr_free`. -/
def appThrFree (id thrno : Nat) (out : Freed) : Except Stop (AlphaState × Int × Freed) :=
  match s.find A id with
  | none => pure (s, -10, out)
  | some (i, e) => do
    let (e, rc, out) ← e.threadFree A thrno out
    pure (s.put i e, rc, out)

/-- `wrm_app_max_prio`. -/
def appMaxPrio (id : Nat) : Option Nat := (s.find A id).map (·.2.maxPrio)

/-- `wrm_app_get_location`, over the page pool all applications share.  The flexpage is written unless
the application or the memory is not found; `out` is what it was before. -/
def appGetLocation (id va sz acc out : Nat) : Except Stop (AlphaState × Int × Nat) :=
  match s.find A id with
  | none => pure (s, -1, out)
  | some (i, e) => do
    let (m, rc, fp) ← { e.mem with pool := s.pool }.wrmAppGetLocation A e.lx va sz acc
    pure ({ s.put i { e with mem := m } with pool := m.pool }, rc, if rc = -2 then out else fp)

/-! ## Creating a thread -/

/-- The system calls of `process_create_thread_request`, and the error codes of those that fail. -/
def makeThread (krn : Krn) (newid space sched pager prio locUtcb : Nat) : AlphaState × Nat :=
  let (s, rc) := s.sys krn (.threadControl newid space sched pager (Fpage.addr A locUtcb))
  if rc ≠ 0 then (s, 5)
  else
    let (s, rc) := s.sys krn (.schedule newid prio)
    if rc ≠ 0 then (s, 6) else (s, 0)

/-- What `process_create_thread_request` does with a new thread number: the error code and the identity
of the new thread. -/
def startThread (krn : Krn) (mr : Nat → Nat) (from' newno : Nat) :
    Except Stop (AlphaState × Nat × Nat) :=
  match s.appMaxPrio A from' with
  | none => pure (s, 3, Thrid.nil)
  | some maxPrio => do
    let newid := Thrid.createGlobal A newno 2
    let prio := min (mr 2 % 2 ^ 32) maxPrio
    let (s, rc, locUtcb) ←
      s.appGetLocation A from' (Fpage.addr A (mr 1)) (Fpage.size A (mr 1)) 6 Fpage.nil
    if rc ≠ 0 then pure (s, 4, newid)
    else
      let space := if mr 3 = Thrid.any A then from' else mr 3
      let sched := if mr 4 = Thrid.any A then s.id else mr 4
      let pager := if mr 5 = Thrid.any A then s.id else mr 5
      let (s, ecode) := s.makeThread A krn newid space sched pager prio locUtcb
      pure (s, ecode, newid)

/-- `process_create_thread_request`, up to its reply. -/
def createThread (krn : Krn) (mr : Nat → Nat) (from' : Nat) :
    Except Stop (AlphaState × Nat × Nat) :=
  match s.appCfg A from' with
  | none => pure (s, 1, Thrid.nil)
  | some _ => do
    match ← s.appThrAlloc A from' (mr 1) (mr 6) (mr 7) with
    | (s, none) => pure (s, 2, Thrid.nil)
    | (s, some newno) => s.startThread A krn mr from' newno

/-! ## Creating a task -/

/-- The system calls of `process_create_task_request`. -/
def makeTask (krn : Krn) (newid pager kipArea utcbsArea prio locUtcb : Nat) : AlphaState × Nat :=
  let (s, rc) := s.sys krn (.threadControl newid newid s.id Thrid.nil (Fpage.addr A locUtcb))
  if rc ≠ 0 then (s, 6)
  else
    let (s, rc) := s.sys krn (.schedule newid prio)
    if rc ≠ 0 then (s, 7)
    else
      let (s, rc) := s.sys krn (.spaceControl newid 0 kipArea utcbsArea Thrid.nil)
      if rc ≠ 0 then (s, 8)
      else
        let (s, rc) := s.sys krn (.threadControl newid newid s.id pager (2 ^ A.wordBits - 1))
        if rc ≠ 0 then (s, 9) else (s, 0)

/-- What `process_create_task_request` does with a new thread number.  `junk` is what the variable
`loc_utcb` holds before it is written. -/
def startTask (krn : Krn) (mr : Nat → Nat) (junk from' newno : Nat) :
    Except Stop (AlphaState × Nat × Nat) :=
  match s.appMaxPrio A from' with
  | none => pure (s, 4, Thrid.nil)
  | some maxPrio => do
    let newid := Thrid.createGlobal A newno 2
    let prio := min (mr 2 % 2 ^ 32) maxPrio
    let (s, rc, locUtcb) ←
      s.appGetLocation A from' (Fpage.addr A (mr 1)) (Fpage.size A (mr 1)) 6 junk
    ensure (Fpage.size A (mr 1) = Fpage.size A locUtcb)
      (.assertion "rem_utcb.size() == loc_utcb.size()")
    if rc ≠ 0 then pure (s, 5, newid)
    else
      let (s, ecode) := s.makeTask A krn newid (mr 3) (mr 4) (mr 5) prio locUtcb
      pure (s, ecode, newid)

/-- `process_create_task_request`, up to its reply. -/
def createTask (krn : Krn) (mr : Nat → Nat) (junk from' : Nat) :
    Except Stop (AlphaState × Nat × Nat) :=
  match s.appCfg A from' with
  | none => pure (s, 1, Thrid.nil)
  | some _ =>
    match s.appAllocAspace A from' with
    | (s, rc) =>
      if rc ≠ 0 then pure (s, 2, Thrid.nil)
      else do
        match ← s.appThrAlloc A from' (mr 1) (mr 6) (mr 7) with
        | (s, none) => pure (s, 3, Thrid.nil)
        | (s, some newno) => s.startTask A krn mr junk from' newno

/-! ## Deleting a thread -/

/-- The call that deletes a thread. -/
def deleteCall (id : Nat) : KCall := .threadControl id Thrid.nil Thrid.nil Thrid.nil Fpage.nil

/-- The loop over the threads of an application whose main thread is deleted: `n` of them, from `i`
on. -/
def deleteAll (krn : Krn) (thrid code : Nat) : Nat → Nat → Freed → Nat → AlphaState →
    Except Stop (AlphaState × Nat)
  | 0, _, _, ecode, s => pure (s, ecode)
  | n + 1, i, out, ecode, s => do
    let (s, rc) ← s.appThrTerminate A thrid i code
    if rc ≠ 0 then deleteAll krn thrid code n (i + 1) out ecode s
    else do
      let (s, rc, out) ← s.appThrFree A thrid i out
      let ecode := if rc ≠ 0 then ecode ||| 10000 else ecode
      let (s, rc) := s.sys krn (deleteCall (Thrid.createGlobal A i 2))
      deleteAll krn thrid code n (i + 1) out (if rc ≠ 0 then ecode ||| 100000 else ecode) s

/-- What the block of `process_delete_thread_request` leaves: the error code, `thrno_begin` and the
state it read. -/
structure Deletion where
  ecode : Nat
  thrnoBegin : Nat
  state : Int
  deriving DecidableEq, Repr

/-- The part behind the test whether the thread is done: the kernel deletes it, its slot becomes done, and
with the main thread go all threads of the application. -/
def deleteRunning (krn : Krn) (thrid code : Nat) (e : AlphaApp) (out : Freed) (d : Deletion) :
    Except Stop (AlphaState × Deletion) := do
  let (s, rc) := s.sys krn (deleteCall thrid)
  let ecode := if rc ≠ 0 then d.ecode ||| 10 else d.ecode
  let (s, rc) ← s.appThrTerminate A thrid (Thrid.number A thrid) code
  let ecode := if rc ≠ 0 then ecode ||| 100 else ecode
  if Thrid.number A thrid ≠ e.thrnoBegin A then pure (s, { d with ecode := ecode })
  else do
    let (s, rc, out) ← s.appThrFree A thrid (Thrid.number A thrid) out
    let ecode := if rc ≠ 0 then ecode ||| 1000 else ecode
    let (s, ecode) ← deleteAll A krn thrid code (e.threads.length - 1) (e.thrnoBegin A + 1) out ecode s
    pure (s, { d with ecode := ecode })

/-- The block of `process_delete_thread_request`. -/
def deleteBlock (krn : Krn) (thrid code from' : Nat) (out : Freed) :
    Except Stop (AlphaState × Deletion) :=
  match s.find A from' with
  | none => pure (s, ⟨1, 0, -1⟩)
  | some (_, e) =>
    if Thrid.number A thrid < e.thrnoBegin A ∨ e.thrnoEnd A ≤ Thrid.number A thrid then
      pure (s, ⟨2, e.thrnoBegin A, -1⟩)
    else do
      let state ← s.appThrState A thrid (Thrid.number A thrid)
      let d : Deletion := ⟨if state < 0 then 1 else 0, e.thrnoBegin A, state⟩
      if state = ThrState.done.code then pure (s, d)
      else s.deleteRunning A krn thrid code e out d

/-- The reply to a deletion. -/
structure DeleteReply where
  ecode : Nat
  thrid : Nat
  freed : Freed
  state : Int
  deriving DecidableEq, Repr

/-- `process_delete_thread_request`: a thread that deletes itself and a main thread get no reply.  `junk`
is what the variables for the freed thread hold before they are written. -/
def deleteThread (krn : Krn) (mr : Nat → Nat) (junk : Freed) (from' : Nat) :
    Except Stop (AlphaState × Option DeleteReply) := do
  let thrid := mr 1
  let (s, d) ← s.deleteBlock A krn thrid (mr 2) from' junk
  if thrid ≠ from' ∧ Thrid.number A thrid ≠ d.thrnoBegin then do
    let (s, rc, out) ← s.appThrFree A thrid (Thrid.number A thrid) junk
    pure (s, some ⟨if rc ≠ 0 then d.ecode ||| 1000000 else d.ecode, thrid, out, d.state⟩)
  else pure (s, none)

/-! ## Requests -/

/-- A request with its words, as the handler finds them behind its assertions. -/
inductive ThrRequest where
  | createThread (mr : Nat → Nat)
  | createTask (mr : Nat → Nat) (junk : Nat)
  | deleteThread (mr : Nat → Nat) (junk : Freed)

/-- What a handler does to alpha, and the error code it answers with, if it answers. -/
def serve (krn : Krn) (r : ThrRequest) (from' : Nat) : Except Stop (AlphaState × Option Nat) :=
  match r with
  | .createThread mr => do
    let (s, ecode, _) ← s.createThread A krn mr from'
    pure (s, some ecode)
  | .createTask mr junk => do
    let (s, ecode, _) ← s.createTask A krn mr junk from'
    pure (s, some ecode)
  | .deleteThread mr junk => do
    let (s, reply) ← s.deleteThread A krn mr junk from'
    pure (s, reply.map (·.ecode))

/-! ## The start of the applications -/

/-- What `prepare_app_memory_map` takes from the configuration and the ELF file of an application: the
limits, the regions, and the UTCB area and the stack of its main thread. -/
structure AppStart where
  lx : Bool
  maxThreads : Nat
  maxAspaces : Nat
  maxPrio : Nat
  mem : App
  utcb : Nat
  stackUa : Nat
  stackSz : Nat

/-- `wrm_app_create`, as far as the tables go.  The list of applications has eight nodes. -/
def appCreate (no : Nat) (c : AppStart) : Except Stop AlphaState := do
  let id := Thrid.createGlobal A no 2
  ensure (s.apps.length < 8) (.panic "list is full")
  ensure (c.maxThreads ≤ 32) (.assertion "threads_max <= sizeof(_threads)/sizeof(_threads[0])")
  let e : AlphaApp :=
    ⟨id, c.lx, c.mem, c.maxAspaces, 0, List.replicate c.maxThreads ⟨.free, 0, 0, 0, 0⟩, c.maxPrio⟩
  let s := { s with apps := s.apps ++ [e] }
  match s.appAllocAspace A id with
  | (s, rc) => do
    ensure (rc = 0) (.panic "wrm_app_alloc_aspace()")
    match ← s.appThrAlloc A id c.utcb c.stackUa c.stackSz with
    | (_, none) => .error (.panic "wrm_app_thr_alloc()")
    | (s, some newno) => do
      ensure (Thrid.createGlobal A newno 2 = id) (.assertion "newid == app->owner()")
      pure s

/-- The loop of `main` over the applications of the project. -/
def createApps : Nat → List AppStart → AlphaState → Except Stop AlphaState
  | _, [], s => pure s
  | nextThreadNo, c :: cs, s => do
    let s ← s.appCreate A nextThreadNo c
    createApps (nextThreadNo + c.maxThreads) cs s

/-- Alpha before the applications are started. -/
def init (id userBase : Nat) (cs : List AppStart) (pool : PagePool) : AlphaState :=
  ⟨id, userBase, cs.map (·.maxThreads), [], pool, []⟩

/-- A request with its sender and the kernel at that time. -/
structure Query where
  krn : Krn
  request : ThrRequest
  sender : Nat

/-- One round of the loop of `main` with a request for threads. -/
def step (q : Query) : Except Stop AlphaState := Prod.fst <$> s.serve A q.krn q.request q.sender

end AlphaState
end Wrmos
