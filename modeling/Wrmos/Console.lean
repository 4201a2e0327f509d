import Wrmos.Cbuf
import Wrmos.L4Types
import Wrmos.Lib.NodeList
import Wrmos.Lib.Outcome

/-!
# The input of the console

`app/console/main.cpp`: the console gets chunks of bytes from the driver and requests from the threads of
its client applications, one at a time, since both threads hold the mutex.  One application has the input.
A chunk goes to a reader of it that waits, what is left goes into the ring `rx_cbuf`, and a read request is
served from the ring or waits.  Control keys open the shell or the kernel debugger or give the input to the
next application; they discard the chunk and the ring.

* What becomes of a reply is decided by its receiver and an argument of the event: it is received, or cut
  short by the receiver's buffer, or not received at all.
* Replies that carry no input are left out, and so is what a write request sends to the driver.
* A visit to the shell is the list of the `input` commands that are given there.
* A pointer to an application is the item of the list it is in.
* `serial`, `seq`, `owner` and `log` are no data of the console: the number of an opened application, the
  number of a byte and the application that had the input when it arrived, and what has happened.
-/

namespace Wrmos
namespace Console

open Lib

/-- `L4_thrid_t`. -/
structure Thrid where
  number : Nat
  version : Nat
  deriving DecidableEq, Repr

/-- A byte of input. -/
structure Input where
  ch : UInt8
  seq : Nat
  owner : Nat
  deriving DecidableEq, Repr

/-- `Read_request_t`. -/
structure ReadRequest where
  cli : Thrid
  rxsz : Nat
  deriving DecidableEq, Repr

/-- `Cli_app_t`. -/
structure CliApp where
  owner : Thrid
  thrnoBegin : Nat
  thrnoEnd : Nat
  name : Nat
  rxreqs : List ReadRequest
  serial : Nat
  deriving DecidableEq, Repr

/-- The capacity of `rxreqs_t` and of `cli_apps_t`. -/
def listSz : Nat := 8

/-- The sizes of `rx_buf` and of the buffer of `process_cli_read`. -/
def rxBufSz : Nat := 0x1000
def readBufSz : Nat := 256

namespace CliApp

variable (a : CliApp)

/-- `is_owner`. -/
def isOwner (id : Nat) : Bool := decide (a.thrnoBegin ≤ id) && decide (id < a.thrnoEnd)

/-- `wait`. -/
def wait (cli : Thrid) (rxsz : Nat) : CliApp × Int :=
  if listSz = a.rxreqs.length then (a, -1)
  else if a.rxreqs.any fun r => r.cli == cli then (a, -2)
  else ({ a with rxreqs := a.rxreqs ++ [⟨cli, rxsz⟩] }, 0)

/-- `get_wait_request`: the first request is taken out. -/
def getWaitRequest : Option ReadRequest × CliApp := (a.rxreqs.head?, { a with rxreqs := a.rxreqs.tail })

end CliApp

/-- What happens to a reply. -/
inductive Reply where
  | received
  | overflow (transferred : Nat)
  | failed
  deriving DecidableEq, Repr

/-- `*sent` after `reply_to_client` with a buffer of `n` bytes.  No more is transferred than was sent. -/
def Reply.sent : Reply → Nat → Nat
  | .received, n => n
  | .overflow transferred, n => min transferred n
  | .failed, _ => 0

/-- What is logged: the application that has the input from now on, discarded input, bytes that arrived,
those of them for which the ring had no room, bytes that were read from the ring and not received, and bytes
received by a reader. -/
inductive Entry where
  | input (app : Option Nat)
  | discard
  | arrived (xs : List Input)
  | dropped (xs : List Input)
  | lost (xs : List Input)
  | delivered (app : Nat) (xs : List Input)
  deriving DecidableEq, Repr

/-- `cli_apps` and `rx_cbuf`. -/
structure State where
  apps : NodeList CliApp
  inputApp : Option Nat
  rxCbuf : Cbuf Input
  opened : Nat
  arrivals : Nat
  log : List Entry

/-- The start of `main`. -/
def State.init : State where
  apps := .init listSz
  inputApp := none
  rxCbuf := .init (fun _ => ⟨0, 0, 0⟩) rxBufSz
  opened := 0
  arrivals := 0
  log := []

namespace State

variable (s : State)

def addLog (e : Entry) : State := { s with log := s.log ++ [e] }

/-- `rx_cbuf.clear()`. -/
def clearRing : State := ({ s with rxCbuf := s.rxCbuf.clear }).addLog .discard

/-- `find_it`: the application of a thread and the item it is in. -/
def find (id : Nat) : Option (Nat × CliApp) := s.apps.busy.find? fun e => e.2.isOwner id

/-- `input_cli_app()`: the application that has the input and the item it is in. -/
def inputCliApp : Option (Nat × CliApp) := s.inputApp.bind fun n => (s.apps.get? n).map fun a => (n, a)

/-- `input_cli_app(v)`, also where the class sets `_input_app` itself. -/
def setInput (v : Option Nat) : State :=
  ({ s with inputApp := v }).addLog (.input ((v.bind s.apps.get?).map CliApp.serial))

/-- The application in an item has changed. -/
def setApp (n : Nat) (a : CliApp) : State :=
  { s with apps := ⟨s.apps.busy.map fun e => if e.1 = n then (n, a) else e, s.apps.free⟩ }

/-! ## Requests of clients -/

/-- `add`. -/
def add (cli : Thrid) (thrnoBegin thrnoEnd name : Nat) : State × Int :=
  if s.apps.busy.length = listSz then (s, -1)
  else if (s.find cli.number).isSome then (s, -2)
  else
    match s.apps.pushBack ⟨cli, thrnoBegin, thrnoEnd, name, [], s.opened⟩ with
    | none => (s, -1)
    | some (apps, n) =>
      let s := { s with apps := apps, opened := s.opened + 1 }
      if apps.busy.length = 1 then (s.setInput (some n), 0) else (s, 0)

/-- `remove`. -/
def remove (cli : Thrid) : State × Int :=
  match s.find cli.number with
  | none => (s, -1)
  | some (n, _) =>
    let s := if s.inputApp = some n then s.setInput none else s
    ({ s with apps := s.apps.erase n }, 0)

/-- `process_cli_open`; `threads` is what `wrm_app_threads` finds. -/
def processCliOpen (u t : Nat) (mr : Nat → Nat) (cli : Thrid) (threads : Option (Nat × Nat)) : State :=
  if u ≠ 4 ∨ t ≠ 0 then s
  else
    match threads with
    | none => s
    | some (thrnoBegin, thrnoEnd) => (s.add cli thrnoBegin thrnoEnd (mr 4)).1

/-- `process_cli_close`. -/
def processCliClose (u t : Nat) (cli : Thrid) : State :=
  if u ≠ 3 ∨ t ≠ 0 then s else (s.remove cli).1

/-- `process_cli_write`: it leaves the input alone. -/
def processCliWrite (A : Arch) (u t : Nat) (mr : Nat → Nat) : Except Stop State := do
  if u ≠ 3 ∨ t ≠ 2 then pure s
  else
    ensure (Item.isString A (mr 4) = true) (.assertion "sitem.is_string_item()")
    pure s

/-- `reply_to_client` with input for an application: the state and what was sent. -/
def deliver (a : CliApp) (xs : List Input) (reply : Reply) : State × Nat :=
  let sent := reply.sent xs.length
  (s.addLog (.delivered a.serial (xs.take sent)), sent)

/-- `inc_sz`, and what `min(inc_sz, sizeof(buf))` makes of it: the word is read as an `int`. -/
def incSz (mr : Nat → Nat) : Nat := mr 4 % 2 ^ 32
def readSz (incSz : Nat) : Nat := if incSz < 2 ^ 31 then min incSz readBufSz else readBufSz

/-- `process_cli_read`. -/
def processCliRead (u t : Nat) (mr : Nat → Nat) (cli : Thrid) (reply : Reply) : State :=
  if u ≠ 5 ∨ t ≠ 0 then s
  else
    match s.find cli.number with
    | none => s
    | some (n, a) =>
      if s.inputApp ≠ some n then s.setApp n (a.wait cli (incSz mr)).1
      else
        let (ring, xs) := s.rxCbuf.read (readSz (incSz mr))
        if xs = [] then s.setApp n (a.wait cli (incSz mr)).1
        else
          let (s, sent) := ({ s with rxCbuf := ring }).deliver a xs reply
          s.addLog (.lost (xs.drop sent))

/-- `Console_open` and the other requests. -/
def consoleOpen : Nat := 1
def consoleClose : Nat := 2
def consoleRead : Nat := 3
def consoleWrite : Nat := 4

/-- The number of a request. -/
def reqId (mr : Nat → Nat) : Nat := mr 3 % 2 ^ 32

/-- `process_client_request`. -/
def processClientRequest (A : Arch) (u t : Nat) (mr : Nat → Nat) (cli : Thrid)
    (threads : Option (Nat × Nat)) (reply : Reply) : Except Stop State :=
  if reqId mr = consoleOpen then pure (s.processCliOpen u t mr cli threads)
  else if reqId mr = consoleClose then pure (s.processCliClose u t cli)
  else if reqId mr = consoleRead then pure (s.processCliRead u t mr cli reply)
  else if reqId mr = consoleWrite then s.processCliWrite A u t mr
  else pure s

/-! ## Chunks from the driver -/

/-- `cmd_input`. -/
def cmdInput (id : Nat) : State :=
  match s.find id with
  | none => s
  | some (n, _) => if s.inputApp = some n then s else (s.setInput (some n)).clearRing

/-- The keys. -/
inductive Key where
  | entryShell
  | entryKdb
  | switchInput
  deriving DecidableEq, Repr

def key? (ch : UInt8) : Option Key :=
  if ch = 0x17 then some .entryShell
  else if ch = 0x01 then some .entryKdb
  else if ch = 0x05 then some .switchInput
  else none

/-- The next application after the one that has the input, the first one behind the last. -/
def nextInput : Option Nat :=
  match s.apps.nodes.dropWhile fun n => decide (some n ≠ s.inputApp) with
  | _ :: n :: _ => some n
  | _ => s.apps.nodes.head?

/-- The input goes to the next application. -/
def switchInput : State :=
  if s.apps.busy = [] then s else s.setInput s.nextInput

/-- The bytes of a chunk. -/
def tag (bs : List UInt8) (owner : Nat) : List Input :=
  (List.range bs.length).zipWith (fun i ch => ⟨ch, s.arrivals + i, owner⟩) bs

/-- `rx_cbuf.write`. -/
def store (xs : List Input) : State :=
  let (ring, written) := s.rxCbuf.write xs
  ({ s with rxCbuf := ring }).addLog (.dropped (xs.drop written))

/-- A chunk without a key. -/
def routeChars (bs : List UInt8) (reply : Reply) : State :=
  match s.inputCliApp with
  | none => s
  | some (n, a) =>
    let xs := s.tag bs a.serial
    let s := ({ s with arrivals := s.arrivals + bs.length }).addLog (.arrived xs)
    match a.getWaitRequest with
    | (none, _) => if 0 ≠ xs.length then s.store xs else s
    | (some r, a) =>
      let (s, sent) := (s.setApp n a).deliver a (xs.take (min r.rxsz xs.length)) reply
      if sent ≠ xs.length then s.store (xs.drop sent) else s

/-- `process_input_chars`. -/
def processInputChars (bs : List UInt8) (reply : Reply) (shell : List Nat) : State :=
  match bs.findSome? key? with
  | some .entryShell => shell.foldl cmdInput s.clearRing
  | some .entryKdb => s.clearRing
  | some .switchInput => s.clearRing.switchInput
  | none => s.routeChars bs reply

end State

/-! ## Runs -/

/-- What the two threads of the console do. -/
inductive Event where
  | chunk (bs : List UInt8) (reply : Reply) (shell : List Nat)
  | request (u t : Nat) (mr : Nat → Nat) (cli : Thrid) (threads : Option (Nat × Nat)) (reply : Reply)

/-- One event. -/
def State.step (A : Arch) (s : State) : Event → Except Stop State
  | .chunk bs reply shell => pure (s.processInputChars bs reply shell)
  | .request u t mr cli threads reply => s.processClientRequest A u t mr cli threads reply

end Console
end Wrmos
