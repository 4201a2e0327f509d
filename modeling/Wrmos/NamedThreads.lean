import Wrmos.AlphaConfig
import Wrmos.Arch

/-!
# Named threads

The registry of `app/alpha/main.cpp`: a thread registers itself under a name, and others ask for its
identifier and the two keys by that name.  The table is a `list_t` of four entries, whose `push_back` panics
when it is full.

A name comes in the message registers, and alpha reads it where the main loop has copied them: in an array
on its stack of which only so many words were written as the message has.  A name that is not terminated in
its words goes on with what is behind them.

`Ledger` is no data of alpha: by name, what was registered with success.
-/

namespace Wrmos
namespace NamedThreads

open Lib (ensure)
open AlphaConfig (Fault)

/-- `Name_words_max`. -/
def nameWordsMax : Nat := 8

/-- `sizeof(word_t)`. -/
def wordSz (A : Arch) : Nat := A.wordBits / 8

/-- `Name_len_max`. -/
def nameLenMax (A : Arch) : Nat := nameWordsMax * wordSz A

/-- The capacity of `nthreads_t`. -/
def tableCap : Nat := 4

/-- What is registered. -/
structure Info where
  id : Nat
  key0 : Nat
  key1 : Nat
  deriving DecidableEq, Repr

/-- `Named_thread_t`; the name is the string in its array. -/
structure NamedThread where
  name : List UInt8
  info : Info
  deriving DecidableEq, Repr

/-- The constructor of `Named_thread_t`: `strncpy` and the terminator in the last byte. -/
def NamedThread.mk' (A : Arch) (name : List UInt8) (info : Info) : NamedThread :=
  ⟨(name.takeWhile (· ≠ 0)).take (nameLenMax A - 1), info⟩

/-- `strlen` in an array, from its first byte on. -/
def strlen (mem : List UInt8) : Except Fault Nat :=
  if 0 ∈ mem then .ok (mem.takeWhile (· ≠ 0)).length else .error (.beyond "mr")

/-- `!strcmp` of a string in an array and the name of an entry. -/
def sameName (mem name : List UInt8) : Bool := mem.take (name.length + 1) == name ++ [0]

/-- The entry with the name. -/
def find (table : List NamedThread) (mem : List UInt8) : Option NamedThread :=
  table.find? fun it => sameName mem it.name

/-- `Named_threads_t::record`: the return code, and the table. -/
def record (A : Arch) (table : List NamedThread) (mem : List UInt8) (info : Info) :
    Except Fault (Nat × List NamedThread) := do
  let len ← strlen mem
  if nameLenMax A < len + 1 then pure (1, table)
  else if (find table mem).isSome then pure (2, table)
  else do
    ensure (table.length < tableCap) (.panic "list is full")
    pure (0, table ++ [.mk' A mem info])

/-- `Named_threads_t::get_id`. -/
def getId (table : List NamedThread) (mem : List UInt8) : Option Info :=
  (find table mem).map NamedThread.info

/-- A request: the sender, the numbers of words of its message, the array of the registers from the second
on, and what the two calls of `l4_system_clock` return if there are any. -/
structure Request where
  sender : Nat
  untyped : Nat
  typed : Nat
  mr : List UInt8
  clock0 : Nat
  clock1 : Nat
  deriving DecidableEq, Repr

/-- What is registered for the sender. -/
def Request.info (A : Arch) (r : Request) : Info where
  id := r.sender
  key0 := r.clock0 % 2 ^ A.wordBits
  key1 := r.clock1 % 2 ^ A.wordBits

/-- `process_register_thread_request`: the table, and the words of the reply. -/
def processRegister (A : Arch) (table : List NamedThread) (r : Request) :
    Except Fault (List NamedThread × List Nat) := do
  ensure (r.untyped ≤ nameWordsMax) (.assertion "tag.untyped() <= Named_thread_t::Name_words_max")
  ensure (r.typed = 0) (.assertion "tag.typed() == 0")
  let rec' ← record A table r.mr (r.info A)
  if rec'.1 ≠ 0 then pure (rec'.2, [1, 1, 2])
  else pure (rec'.2, [0, (r.info A).key0, (r.info A).key1])

/-- `process_get_thread_id_request`: the words of the reply. -/
def processGetId (table : List NamedThread) (r : Request) : Except Fault (List Nat) := do
  ensure (r.untyped ≤ nameWordsMax) (.assertion "tag.untyped() <= Named_thread_t::Name_words_max")
  ensure (r.typed = 0) (.assertion "tag.typed() == 0")
  match getId table r.mr with
  | none => pure [1, 0, 1, 2]
  | some info => pure [0, info.id, info.key0, info.key1]

/-- The name of a request: the string in its words. -/
def Request.name (A : Arch) (r : Request) : List UInt8 :=
  (r.mr.take (r.untyped * wordSz A)).takeWhile (· ≠ 0)

/-! ## Runs -/

inductive Event where
  | register (r : Request)
  | getId (r : Request)
  deriving DecidableEq, Repr

/-- By name, what was registered with success. -/
abbrev Ledger := List UInt8 → Option Info

structure State where
  table : List NamedThread
  ledger : Ledger

/-- The start. -/
def State.start : State := ⟨[], fun _ => none⟩

/-- A request, and what the ledger makes of the reply. -/
def step (A : Arch) (s : State) : Event → Except Fault State
  | .register r => do
    let out ← processRegister A s.table r
    pure ⟨out.1, if out.2.head? = some 0 then Function.update s.ledger (r.name A) (some (r.info A))
      else s.ledger⟩
  | .getId r => do
    let _ ← processGetId s.table r
    pure s

end NamedThreads
end Wrmos
