import Wrmos.Arch
import Wrmos.Lib.Chain
import Wrmos.Lib.Outcome

/-!
# The list container

`list_t` of `lib/containers/list.h`: two doubly linked chains over the same items, the busy ones with
the elements of the list and the free ones with the room it has left.

An item is known by its address and the null pointer is 0, so the links of all items are two functions
on addresses and their data is a third one.

* `ItemType` is what the template is instantiated with: the size of an item, the comparison of the
  elements, and whether `DEBUG` is on, which makes `Xlist::check` walk a chain in both directions.
* What the allocator of `set_allocator` answers, if it is asked, is an argument of the call.  It is `none`
  when there is no allocator.
* `push_back()` without an argument is `push_back` of what the constructor of the element leaves.
* A loop over a chain makes as many rounds as the chain has items by its count, one more where the
  loop compares the two.
-/

namespace Wrmos
namespace ListT

open Lib

/-- The parameters of the template and of the build. -/
structure ItemType (T : Type) where
  itemSize : Nat
  itemSize_pos : 0 < itemSize
  less : T → T → Bool
  debug : Bool

/-- `where_t`. -/
inductive Where where
  | next
  | prev
  deriving DecidableEq, Repr

/-- `Xlist`. -/
structure Xlist where
  begin : Nat
  last : Nat
  sz : Nat
  deriving DecidableEq, Repr

namespace Xlist

variable (debug : Bool) (m : Links) (c : Xlist)

/-- `Xlist()`. -/
def empty : Xlist := ⟨0, 0, 0⟩

/-- One direction of `do_check`. -/
def checkWay (step : Nat → Nat) (first final pos : Nat) (text : String) : Except Stop Unit := do
  let items := Links.follow step (c.sz + 1) first
  ensure (final = items.getLastD 0) (.assertion text)
  ensure (c.sz = items.length) (.assertion "sz == cnt")
  ensure (pos ∈ items ∨ c.sz = 0 ∧ pos = 0) (.assertion "pos_in_list || (!sz && !pos)")

/-- `do_check`. -/
def doCheck (pos : Nat) : Except Stop Unit := do
  ensure (c.sz ≠ 0 ∨ c.begin = 0 ∧ c.last = 0) (.assertion "sz || (begin==0 && last==0)")
  ensure (c.sz ≤ 1 ∨ c.begin ≠ c.last) (.assertion "sz<=1 || begin!=last")
  ensure (1 < c.sz ∨ c.begin = c.last) (.assertion "sz>1 || begin==last")
  c.checkWay m.next c.begin c.last pos "last == last_item"
  c.checkWay m.prev c.last c.begin pos "begin == last_item"

/-- `check`. -/
def check (pos : Nat) : Except Stop Unit := if debug then c.doCheck m pos else pure ()

/-- What `remove` writes. -/
def unlink (item : Nat) : Links × Xlist :=
  let m := if m.next item ≠ 0 then m.setPrev (m.next item) (m.prev item) else m
  let m := if m.prev item ≠ 0 then m.setNext (m.prev item) (m.next item) else m
  (m, ⟨if item = c.begin then m.next item else c.begin,
    if item = c.last then m.prev item else c.last, c.sz - 1⟩)

/-- `remove`. -/
def remove (item : Nat) : Except Stop (Links × Xlist) := do
  ensure (c.sz ≠ 0) (.assertion "sz")
  c.check debug m c.begin
  let (m, c) := c.unlink m item
  c.check debug m c.last
  pure (m, c)

/-- What `add` writes. -/
def link (pos : Nat) (where_ : Where) (item : Nat) : Links × Xlist :=
  if c.sz = 0 then ((m.setPrev item 0).setNext item 0, ⟨item, item, c.sz + 1⟩)
  else match where_ with
  | .next =>
    let m := if m.next pos ≠ 0 then m.setPrev (m.next pos) item else m
    let m := m.setNext item (m.next pos)
    let m := m.setNext pos item
    let m := m.setPrev item pos
    (m, ⟨c.begin, if pos = c.last then item else c.last, c.sz + 1⟩)
  | .prev =>
    let m := if m.prev pos ≠ 0 then m.setNext (m.prev pos) item else m
    let m := m.setPrev item (m.prev pos)
    let m := m.setPrev pos item
    let m := m.setNext item pos
    (m, ⟨if pos = c.begin then item else c.begin, c.last, c.sz + 1⟩)

/-- `add`. -/
def add (pos : Nat) (where_ : Where) (item : Nat) (needCheck : Bool) : Except Stop (Links × Xlist) := do
  c.check (debug && needCheck) m pos
  let (m, c) := c.link m pos where_ item
  c.check (debug && needCheck) m c.last
  pure (m, c)

/-- `find_pos`: the first item whose data is not below the value, or 0. -/
def findPos {T : Type} (less : T → T → Bool) (data : Nat → T) (val : T) : Nat :=
  ((Links.follow m.next c.sz c.begin).find? fun item => !less (data item) val).getD 0

end Xlist

/-- `list_t` with the items it is made of. -/
structure State (T : Type) where
  links : Links
  data : Nat → T
  busy : Xlist
  free : Xlist

/-- What an allocator answers: the address and the size of the block. -/
abbrev Block := Nat × Nat

variable {T : Type}

/-- The items that `add_mem` makes of a block, in order. -/
def ItemType.blockItems (k : ItemType T) (base sz : Nat) : List Nat :=
  (List.range (sz / k.itemSize)).map fun i => base + i * k.itemSize

namespace State

variable (k : ItemType T) (s : State T)

/-- `check`. -/
def check : Except Stop Unit := do
  s.free.check k.debug s.links s.free.begin
  s.busy.check k.debug s.links s.busy.begin

/-- `free.remove(item)` and `busy.remove(item)`. -/
def freeRemove (item : Nat) : Except Stop (State T) := do
  let (m, c) ← s.free.remove k.debug s.links item
  pure { s with links := m, free := c }

def busyRemove (item : Nat) : Except Stop (State T) := do
  let (m, c) ← s.busy.remove k.debug s.links item
  pure { s with links := m, busy := c }

/-- `free.add(pos, where, item, need_check)` and `busy.add(pos, where, item)`. -/
def freeAdd (pos : Nat) (where_ : Where) (item : Nat) (needCheck : Bool) : Except Stop (State T) := do
  let (m, c) ← s.free.add k.debug s.links pos where_ item needCheck
  pure { s with links := m, free := c }

def busyAdd (pos : Nat) (where_ : Where) (item : Nat) : Except Stop (State T) := do
  let (m, c) ← s.busy.add k.debug s.links pos where_ item true
  pure { s with links := m, busy := c }

/-- The loop of `add_mem`. -/
def addItems : List Nat → State T → Except Stop (State T)
  | [], s => pure s
  | cur :: items, s => do
    let s ← s.freeAdd k s.free.last .next cur false
    addItems items s

/-- `add_mem`, which is `add_memory`. -/
def addMem (base sz : Nat) : Except Stop (State T) := do
  let s ← addItems k (k.blockItems base sz) s
  s.check k
  pure s

/-- `check_for_alloc`. -/
def checkForAlloc (mem : Option Block) : Except Stop (State T) :=
  if s.free.sz = 0 then
    match mem with
    | none => throw (.panic "list is full")
    | some (base, sz) => s.addMem k base sz
  else pure s

/-- `item->data = val`. -/
def setData (item : Nat) (val : T) : State T := { s with data := Function.update s.data item val }

/-- What the insertions have in common: the first free item becomes busy next to `pos`. -/
def insertItem (pos : Nat) (where_ : Where) (val : T) : Except Stop (State T × Nat) := do
  let item := s.free.begin
  let s ← s.freeRemove k item
  let s ← s.busyAdd k pos where_ item
  pure (s.setData item val, item)

/-- `push_back`. -/
def pushBack (val : T) (mem : Option Block) : Except Stop (State T × Nat) := do
  let s ← s.checkForAlloc k mem
  s.insertItem k s.busy.last .next val

/-- `insert_before`. -/
def insertBefore (pos : Nat) (val : T) (mem : Option Block) : Except Stop (State T × Nat) := do
  let s ← s.checkForAlloc k mem
  s.insertItem k pos .prev val

/-- `insert_after`. -/
def insertAfter (pos : Nat) (val : T) (mem : Option Block) : Except Stop (State T × Nat) := do
  let s ← s.checkForAlloc k mem
  s.insertItem k pos .next val

/-- `insert_sort`. -/
def insertSort (val : T) (mem : Option Block) : Except Stop (State T × Nat) := do
  let s ← s.checkForAlloc k mem
  let pos := s.busy.findPos s.links k.less s.data val
  if pos ≠ 0 then s.insertItem k pos .prev val
  else s.insertItem k s.busy.last .next val

/-- `erase`: the item behind the erased one is returned. -/
def erase (pos : Nat) : Except Stop (State T × Nat) := do
  ensure (s.busy.sz ≠ 0) (.assertion "busy.sz")
  let ret := s.links.next pos
  let s ← s.busyRemove k pos
  let s ← s.freeAdd k s.free.begin .prev pos true
  pure (s, ret)

/-- The loop of `clear` for so many rounds. -/
def clearLoop : Nat → State T → Nat → Except Stop (State T)
  | 0, s, it => if it = 0 then pure s else throw .outOfRounds
  | n + 1, s, it =>
    if it = 0 then pure s
    else do
      let (s, it) ← s.erase k it
      clearLoop n s it

/-- `clear`. -/
def clear : Except Stop (State T) := clearLoop k s.busy.sz s s.busy.begin

/-- `size()`. -/
def size : Nat := s.busy.sz

/-- `back()`. -/
def back : Except Stop T := do
  ensure (s.busy.sz ≠ 0) (.assertion "busy.sz")
  pure (s.data s.busy.last)

/-- The list before any constructor ran, in memory that holds anything but for the counts. -/
def zero (m : Links) (data : Nat → T) : State T := ⟨m, data, .empty, .empty⟩

/-- The constructor of a list with `n` items of its own in `local_buf`. -/
def new (m : Links) (data : Nat → T) (localBuf n : Nat) : Except Stop (State T) :=
  (zero m data).addMem k localBuf (k.itemSize * n)

end State

/-! ## Calls -/

/-- The calls that change a list. -/
inductive Op (T : Type) where
  | addMemory (base sz : Nat)
  | pushBack (val : T) (mem : Option Block)
  | insertBefore (pos : Nat) (val : T) (mem : Option Block)
  | insertAfter (pos : Nat) (val : T) (mem : Option Block)
  | insertSort (val : T) (mem : Option Block)
  | erase (pos : Nat)
  | clear

/-- A call and the iterator it returns, 0 where it returns none. -/
def State.call (k : ItemType T) (s : State T) : Op T → Except Stop (State T × Nat)
  | .addMemory base sz => do
    let s ← s.addMem k base sz
    pure (s, 0)
  | .pushBack val mem => do
    let (s, _) ← s.pushBack k val mem
    pure (s, 0)
  | .insertBefore pos val mem => s.insertBefore k pos val mem
  | .insertAfter pos val mem => s.insertAfter k pos val mem
  | .insertSort val mem => s.insertSort k val mem
  | .erase pos => s.erase k pos
  | .clear => do
    let s ← s.clear k
    pure (s, 0)

/-- A call for its effect. -/
def State.step (k : ItemType T) (s : State T) (op : Op T) : Except Stop (State T) :=
  (s.call k op).map Prod.fst

end ListT
end Wrmos
