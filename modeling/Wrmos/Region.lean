import Wrmos.Arch
import Mathlib.Data.List.Pairwise

/-!
# Lists of address regions

`Address_space_t` of `kmem.h`: a list of descriptors, each a region with a type, kept in address
order.  It describes the kernel window (`_kspace`), the user part of an address space (`_uspace`)
and the kernel's memory pool; the type of a region is a parameter.

A position in the list is a pair of lists: the descriptors before it, nearest first, and those from
it on.  `addAt` and `removeAt` are the private members `add` and `remove` on such a position.
Addresses and sizes are machine words and sums of them wrap.
-/

namespace Wrmos

open Lib (ensure)

variable {τ : Type}

/-- `Address_space_t::Desc`. -/
structure Desc (τ : Type) where
  addr : Nat
  sz : Nat
  type : τ
  deriving DecidableEq, Repr

/-- `Address_space_t::Mode`. -/
inductive Mode where
  | combine
  | notCombine
  deriving DecidableEq, Repr

namespace Region

/-- `Desc::end`. -/
def endOf (A : Arch) (d : Desc τ) : Nat := A.add d.addr d.sz

/-- The descriptors of a position: those before it, nearest first, then those from it on. -/
def join (before after : List (Desc τ)) : List (Desc τ) := before.reverse ++ after

/-- `check_for_alloc` of the descriptor list, which has room for `N`. -/
def checkForAlloc (N : Nat) (before after : List (Desc τ)) : Except Stop Unit :=
  ensure (before.length + after.length < N) (.panic "list is full")

/-- Put a descriptor before the position. -/
def insertBefore (N : Nat) (before after : List (Desc τ)) (d : Desc τ) :
    Except Stop (List (Desc τ)) := do
  checkForAlloc N before after
  pure (join before (d :: after))

section Ops

variable [DecidableEq τ]

/-- The private `add`: put a region before the position, joined with its neighbours when they touch
it and have its type. -/
def addAt (A : Arch) (N : Nat) (before after : List (Desc τ)) (addr sz : Nat) (type : τ)
    (mode : Mode) : Except Stop (List (Desc τ)) := do
  ensure (∀ p ∈ after.head?, A.add addr sz ≤ p.addr) (.assertion "cross next region")
  ensure (∀ p ∈ before.head?, endOf A p ≤ addr) (.assertion "cross prev region")
  match mode with
  | .notCombine => insertBefore N before after ⟨addr, sz, type⟩
  | .combine =>
    match before, after with
    | prev :: before', pos :: after' =>
      if (A.add addr sz = pos.addr ∧ type = pos.type) ∧
          (A.add prev.addr prev.sz = addr ∧ prev.type = type) then
        pure (join ({ prev with sz := A.add prev.sz (A.add sz pos.sz) } :: before') after')
      else if A.add addr sz = pos.addr ∧ type = pos.type then
        pure (join before ({ pos with addr := A.sub pos.addr sz, sz := A.add pos.sz sz } :: after'))
      else if A.add prev.addr prev.sz = addr ∧ prev.type = type then
        pure (join ({ prev with sz := A.add prev.sz sz } :: before') after)
      else insertBefore N before after ⟨addr, sz, type⟩
    | [], pos :: after' =>
      if A.add addr sz = pos.addr ∧ type = pos.type then
        pure (join before ({ pos with addr := A.sub pos.addr sz, sz := A.add pos.sz sz } :: after'))
      else insertBefore N before after ⟨addr, sz, type⟩
    | last :: before', [] =>
      if A.add last.addr last.sz = addr ∧ last.type = type then
        pure (join ({ last with sz := A.add last.sz sz } :: before') after)
      else insertBefore N before after ⟨addr, sz, type⟩
    | [], [] => insertBefore N before after ⟨addr, sz, type⟩

/-- The private `remove`: take a piece out of the region at the position; the result is the position
after the piece. -/
def removeAt (A : Arch) (N : Nat) (before : List (Desc τ)) (pos : Desc τ) (after : List (Desc τ))
    (addr sz : Nat) : Except Stop (List (Desc τ) × List (Desc τ)) := do
  ensure (pos.addr ≤ addr ∧ A.add addr sz ≤ A.add pos.addr pos.sz) (.assertion "out of region")
  let eend := A.add addr sz
  let posEnd := A.add pos.addr pos.sz
  if pos.addr = addr ∧ posEnd = eend then pure (before, after)
  else if pos.addr = addr then
    pure (before, { pos with addr := A.add pos.addr sz, sz := A.sub pos.sz sz } :: after)
  else if posEnd = eend then pure ({ pos with sz := A.sub pos.sz sz } :: before, after)
  else do
    checkForAlloc N before (pos :: after)
    pure (⟨pos.addr, A.sub addr pos.addr, pos.type⟩ :: before,
      { pos with addr := eend, sz := A.sub posEnd eend } :: after)

/-- `find`: the position of the region that contains the piece. -/
def findFrom (A : Arch) (addr sz : Nat) :
    List (Desc τ) → List (Desc τ) → Option (List (Desc τ) × Desc τ × List (Desc τ))
  | _, [] => none
  | before, it :: after =>
    if it.addr ≤ addr ∧ A.add addr sz ≤ endOf A it then some (before, it, after)
    else if A.add addr sz ≤ it.addr then none
    else findFrom A addr sz (it :: before) after

/-- `find(addr, sz)`. -/
def find (A : Arch) (l : List (Desc τ)) (addr sz : Nat) : Option (Desc τ) :=
  (findFrom A addr sz [] l).map fun p => p.2.1

/-- `free(addr, sz)`: take the piece out of the region that contains it, if there is one. -/
def free (A : Arch) (N : Nat) (l : List (Desc τ)) (addr sz : Nat) :
    Except Stop (List (Desc τ)) :=
  match findFrom A addr sz [] l with
  | none => .ok l
  | some (before, pos, after) => do
    let r ← removeAt A N before pos after addr sz
    pure (join r.1 r.2)

/-- `free(pos)`: take out the region at an iterator, the number of a descriptor. -/
def freePos (l : List (Desc τ)) (pos : Nat) : List (Desc τ) := l.eraseIdx pos

/-- `find(addr)`: the position of the region that starts at the address. -/
def findAddrFrom (addr : Nat) :
    List (Desc τ) → List (Desc τ) → Option (List (Desc τ) × Desc τ × List (Desc τ))
  | _, [] => none
  | before, it :: after =>
    if addr = it.addr then some (before, it, after)
    else if addr < it.addr then none
    else findAddrFrom addr (it :: before) after

/-- The search of `add(addr, sz, type, mode)` for the next region after `addr`. -/
def addFrom (A : Arch) (N : Nat) (addr sz : Nat) (type : τ) (mode : Mode) :
    List (Desc τ) → List (Desc τ) → Except Stop (List (Desc τ))
  | before, [] => addAt A N before [] addr sz type mode
  | before, it :: after =>
    if addr ≤ it.addr then do
      ensure (A.add addr sz ≤ it.addr) (.panic "Added region crosses the existing regions.")
      addAt A N before (it :: after) addr sz type mode
    else addFrom A N addr sz type mode (it :: before) after

/-- `add(addr, sz, type, mode)`. -/
def add (A : Arch) (N : Nat) (l : List (Desc τ)) (addr sz : Nat) (type : τ) (mode : Mode) :
    Except Stop (List (Desc τ)) :=
  addFrom A N addr sz type mode [] l

/-- `set_type(pos, addr, sz, type, mode)`: take the piece out of the region at the position and put it
back with the type. -/
def setTypeAt (A : Arch) (N : Nat) (before : List (Desc τ)) (addr sz : Nat) (type : τ) (mode : Mode) :
    List (Desc τ) → Except Stop (List (Desc τ))
  | [] => .error (.assertion "pos != dlist.end()")
  | pos :: after => do
    ensure (pos.addr ≤ addr ∧ A.add addr sz ≤ A.add pos.addr pos.sz)
      (.assertion "(pos->addr <= addr)  &&  (pos->addr + pos->sz >= addr + sz)")
    ensure (pos.type ≠ type) (.assertion "pos->type != type")
    let r ← removeAt A N before pos after addr sz
    addAt A N r.1 r.2 addr sz type mode

/-- `set_type` with an iterator, the number of a descriptor. -/
def setType (A : Arch) (N : Nat) (l : List (Desc τ)) (pos addr sz : Nat) (type : τ) (mode : Mode) :
    Except Stop (List (Desc τ)) :=
  setTypeAt A N (l.take pos).reverse addr sz type mode (l.drop pos)

variable [OrOp τ]

/-- The search of `insert`: the region that contains the piece gives its type to it, by `|=`. -/
def insertFrom (A : Arch) (N : Nat) (addr sz : Nat) (type : τ) (mode : Mode) :
    List (Desc τ) → List (Desc τ) → Except Stop (List (Desc τ) × τ)
  | before, [] => do
    let l ← addAt A N before [] addr sz type mode
    pure (l, type)
  | before, it :: after =>
    if it.addr ≤ addr ∧ A.add addr sz ≤ endOf A it then do
      let r ← removeAt A N before it after addr sz
      let l ← addAt A N r.1 r.2 addr sz (type ||| it.type) mode
      pure (l, type ||| it.type)
    else if addr ≤ it.addr then do
      ensure (A.add addr sz ≤ it.addr)
        (.panic "Inserted region partially crosses the existing regions.")
      let l ← addAt A N before (it :: after) addr sz type mode
      pure (l, type)
    else insertFrom A N addr sz type mode (it :: before) after

/-- `insert(addr, sz, type, mode)`: the new list and the resulting type. -/
def insert (A : Arch) (N : Nat) (l : List (Desc τ)) (addr sz : Nat) (type : τ) (mode : Mode) :
    Except Stop (List (Desc τ) × τ) :=
  insertFrom A N addr sz type mode [] l

end Ops

/-! ## Looking for free space -/

/-- `round_up` to a power of two. -/
def roundUp (A : Arch) (n align : Nat) : Nat := A.add n (align - 1) / align * align

/-- The second loop of `find_free`; `cur` is the next candidate. -/
def findFreeFrom (A : Arch) (sz align spaceEnd : Nat) : Nat → List (Desc τ) → Nat
  | cur, [] => cur
  | cur, it :: after =>
    if spaceEnd ≤ cur ∨ spaceEnd < A.add cur sz then 0
    else if A.add cur sz ≤ it.addr then cur
    else findFreeFrom A sz align spaceEnd (roundUp A (A.add it.addr it.sz) align) after

/-- `find_free`: an address, or `0`. -/
def findFree (A : Arch) (l : List (Desc τ)) (sz align start spaceSz : Nat) : Nat :=
  let spaceEnd := A.add start spaceSz
  let cur := findFreeFrom A sz align spaceEnd (roundUp A start align)
    (l.dropWhile fun d => d.addr < start)
  if cur ≠ 0 ∧ spaceEnd < A.add cur sz then 0 else cur

/-- `alloc`: an address, or `0`. -/
def alloc [DecidableEq τ] (A : Arch) (N : Nat) (l : List (Desc τ)) (sz align : Nat) (type : τ)
    (mode : Mode) (start spaceSz : Nat) : Except Stop (List (Desc τ) × Nat) :=
  let addr := findFree A l sz align start spaceSz
  if addr = 0 then .ok (l, 0)
  else do
    let l ← add A N l addr sz type mode
    pure (l, addr)

end Region

end Wrmos
