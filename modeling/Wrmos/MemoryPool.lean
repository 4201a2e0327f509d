import Wrmos.Arch
import Mathlib.Logic.Function.Basic

/-!
# The memory pool

`Memory_pool_t` of `memory_pool.h`, the allocator behind `malloc`.  The pool is made of blocks whose
sizes are powers of two.  A block begins with its descriptor.  The free blocks of one size form a list;
all blocks form the chain of regions, along which a free block looks for the one to combine with.

The memory of the descriptors is the partial map `descr`: a descriptor is there as long as its block is.
When two blocks are combined the descriptor of the right one becomes part of the left block, whose owner
may write to it.  The model stops where the code reads or writes through a pointer to such a descriptor
(`stale`), and where it makes a block that is smaller than a descriptor, which then runs into the next
one (`overlap`).  The lists of free blocks are lists of addresses, for each binary logarithm of a size.

`added` is not part of the pool: it notes the regions that were added.
-/

namespace Wrmos

open Lib (ensure)

/-- How a call of the pool ends without a result: a failed assertion, the use of a descriptor that is
gone, a descriptor that does not fit its block, an index behind `_blocks`, a loop that does not end. -/
inductive PoolFault where
  | assertion (expr : String)
  | stale (addr : Nat)
  | overlap (addr : Nat)
  | bounds (lgsz : Nat)
  | endless
  deriving DecidableEq, Repr

/-- `descr_t`, but for its links in the list of free blocks. -/
structure Descr where
  regionPrev : Nat
  regionNext : Nat
  lgsz : Nat
  busy : Bool
  deriving DecidableEq, Repr

structure MemPool where
  regions : Nat
  blocks : Nat → List Nat
  poolSz : Nat
  descr : Nat → Option Descr
  added : List (Nat × Nat)

namespace MemPool

/-- `Lgsz_min` and `Lgsz_max`. -/
def lgszMin : Nat := 5
def lgszMax : Nat := 31

/-- `sizeof(descr_t)`: four pointers and two numbers of 32 bits. -/
def descrSz (A : Arch) : Nat := 4 * (A.wordBits / 8) + 8

/-- `1 << n` as a `size_t`: the shift is that of an `int`, and bit 31 is its sign. -/
def one (A : Arch) (n : Nat) : Nat := if n < 31 then 2 ^ n else 2 ^ A.wordBits - 2 ^ 31

/-- `is_aligned(n, a)`. -/
def isAligned (A : Arch) (n a : Nat) : Bool := n &&& A.sub a 1 == 0

/-- The static pool before its first use. -/
def init : MemPool := ⟨0, fun _ => [], 0, fun _ => none, []⟩

/-! ## Descriptors -/

/-- Read a descriptor. -/
def read (p : MemPool) (a : Nat) : Except PoolFault Descr :=
  match p.descr a with
  | none => .error (.stale a)
  | some x => .ok x

/-- Store a descriptor. -/
def put (p : MemPool) (a : Nat) (x : Descr) : MemPool :=
  { p with descr := Function.update p.descr a (some x) }

/-- Change a descriptor. -/
def write (p : MemPool) (a : Nat) (f : Descr → Descr) : Except PoolFault MemPool := do
  let x ← p.read a
  pure (p.put a (f x))

/-- `init(lgsz)`. -/
def initDescr (A : Arch) (p : MemPool) (a lgsz : Nat) : Except PoolFault MemPool := do
  ensure (descrSz A ≤ 2 ^ lgsz) (.overlap a)
  pure (p.put a ⟨0, 0, lgsz, false⟩)

/-- `insert_region_after`.  The block behind the new one keeps its link to the old predecessor. -/
def insertRegionAfter (p : MemPool) (d base : Nat) : Except PoolFault MemPool := do
  let b ← p.read base
  let p ← p.write d fun x => { x with regionNext := b.regionNext, regionPrev := base }
  p.write base fun x => { x with regionNext := d }

/-- Set the successor of a block, or the first block of the chain. -/
def setNext (p : MemPool) (a next : Nat) : Except PoolFault MemPool :=
  if a = 0 then .ok { p with regions := next } else p.write a fun x => { x with regionNext := next }

/-- Set the predecessor of a block, if there is one. -/
def setPrev (p : MemPool) (a prev : Nat) : Except PoolFault MemPool :=
  if a = 0 then .ok p else p.write a fun x => { x with regionPrev := prev }

/-- `remove_region`. -/
def removeRegion (p : MemPool) (d : Nat) : Except PoolFault MemPool := do
  let x ← p.read d
  let p ← p.setNext x.regionPrev x.regionNext
  let p ← p.setPrev x.regionNext x.regionPrev
  p.write d fun y => { y with regionPrev := 0, regionNext := 0 }

/-- `add_block`. -/
def addBlock (p : MemPool) (a lgsz : Nat) : MemPool :=
  { p with blocks := Function.update p.blocks lgsz (a :: p.blocks lgsz) }

/-- `remove_block`. -/
def removeBlock (p : MemPool) (a lgsz : Nat) : MemPool :=
  { p with blocks := Function.update p.blocks lgsz ((p.blocks lgsz).erase a) }

/-- The descriptor of a block that was combined with the one before it. -/
def forget (p : MemPool) (a : Nat) : MemPool := { p with descr := Function.update p.descr a none }

/-! ## Splitting and combining -/

/-- The second half of `split`: the first block of the list becomes two. -/
def halve (A : Arch) (p : MemPool) (d1 lgsz : Nat) : Except PoolFault MemPool := do
  let x ← p.read d1
  ensure (x.busy = false) (.assertion "!d1->busy()")
  let p := p.removeBlock d1 lgsz
  let newLgsz := x.lgsz - 1
  let d2 := A.add d1 (one A newLgsz)
  let p ← p.write d1 fun y => { y with lgsz := newLgsz }
  let p ← p.initDescr A d2 newLgsz
  ((p.addBlock d1 newLgsz).addBlock d2 newLgsz).insertRegionAfter d2 d1

/-- `split`, with the number of sizes from `lgsz` on. -/
def splitLoop (A : Arch) : Nat → MemPool → Nat → Except PoolFault (Bool × MemPool)
  | 0, p, _ => .ok (false, p)
  | n + 1, p, lgsz =>
    if lgsz ≤ lgszMin ∨ lgszMax < lgsz then .ok (false, p)
    else do
      let r ← (if p.blocks lgsz = [] then splitLoop A n p (lgsz + 1) else .ok (false, p))
      match r.2.blocks lgsz with
      | [] => pure (false, r.2)
      | d1 :: _ => do
        let p ← r.2.halve A d1 lgsz
        pure (true, p)

/-- `split(lgsz)`. -/
def split (A : Arch) (p : MemPool) (lgsz : Nat) : Except PoolFault (Bool × MemPool) :=
  splitLoop A (lgszMax + 1 - lgsz) p lgsz

/-- The first half of `combine`: the block to combine with, and the logarithm of the size of both. -/
def mate (A : Arch) (p : MemPool) (d1 : Nat) : Except PoolFault (Option (Nat × Nat)) := do
  let x1 ← p.read d1
  let d2 := if isAligned A d1 (A.add (one A x1.lgsz) (one A x1.lgsz)) then x1.regionNext
    else x1.regionPrev
  if d2 = 0 then pure none
  else do
    let x2 ← p.read d2
    if x1.lgsz ≠ x2.lgsz ∨ x2.busy = true then pure none else pure (some (d2, x1.lgsz))

/-- The second half of `combine`: `d1` is the left block, `d2` the right one. -/
def merge (p : MemPool) (d1 d2 lgsz : Nat) : Except PoolFault MemPool := do
  let p ← p.write d1 fun x => { x with lgsz := lgsz + 1 }
  let p ← p.removeRegion d2
  ensure (lgsz + 1 ≤ lgszMax) (.bounds (lgsz + 1))
  pure ((((p.removeBlock d1 lgsz).removeBlock d2 lgsz).addBlock d1 (lgsz + 1)).forget d2)

/-- `combine`, with the number of times blocks can be combined. -/
def combineLoop (A : Arch) : Nat → MemPool → Nat → Except PoolFault MemPool
  | 0, _, _ => .error .endless
  | n + 1, p, d => do
    match ← p.mate A d with
    | none => pure p
    | some (d2, lgsz) => do
      let p ← p.merge (min d d2) (max d d2) lgsz
      combineLoop A n p (min d d2)

/-- `combine`. -/
def combine (A : Arch) (p : MemPool) (d : Nat) : Except PoolFault MemPool :=
  combineLoop A (lgszMax + 1) p d

/-! ## The calls -/

/-- The loop of `find_max_block` from the logarithm `Lgsz_min + n - 1` down. -/
def findMaxFrom (A : Arch) (addr sz : Nat) : Nat → Nat
  | 0 => 0
  | n + 1 =>
    let s := one A (lgszMin + n)
    if s ≤ sz ∧ isAligned A addr s = true ∧ A.add addr s ≤ A.add addr sz then lgszMin + n
    else findMaxFrom A addr sz n

/-- `find_max_block`. -/
def findMaxBlock (A : Arch) (addr sz : Nat) : Nat := findMaxFrom A addr sz (lgszMax - lgszMin + 1)

/-- The search of `add` for the block to insert behind; the loop goes along the chain. -/
def findPlace (A : Arch) (p : MemPool) (start stop : Nat) : Nat → Nat → Except PoolFault (Option Nat)
  | 0, _ => .error .endless
  | n + 1, cur =>
    if cur = 0 then .ok none
    else do
      let x ← p.read cur
      if A.add cur (one A x.lgsz) ≤ start ∧ (x.regionNext = 0 ∨ stop ≤ x.regionNext) then
        pure (some cur)
      else findPlace A p start stop n x.regionNext

/-- One round of the second loop of `add`. -/
def addOne (A : Arch) (p : MemPool) (prev start lgsz : Nat) : Except PoolFault MemPool := do
  let p ← p.initDescr A start lgsz
  let p ← (if p.regions = 0 then .ok { p with regions := start } else p.insertRegionAfter start prev)
  let p := p.addBlock start lgsz
  pure { p with poolSz := p.poolSz + one A lgsz }

/-- The second loop of `add`. -/
def addLoop (A : Arch) (stop : Nat) : Nat → MemPool → Nat → Nat → Except PoolFault MemPool
  | 0, _, _, _ => .error .endless
  | n + 1, p, prev, start =>
    let lgsz := findMaxBlock A start (A.sub stop start)
    if lgsz = 0 then .ok p
    else do
      let p ← p.addOne A prev start lgsz
      addLoop A stop n p start (A.add start (one A lgsz))

/-- `round_up(n, 1 << Lgsz_min)` and `round_down(n, 1 << Lgsz_min)`. -/
def roundUp (A : Arch) (n : Nat) : Nat := A.add n (2 ^ lgszMin - 1) / 2 ^ lgszMin * 2 ^ lgszMin
def roundDown (n : Nat) : Nat := n / 2 ^ lgszMin * 2 ^ lgszMin

/-- `add`: whether the region was long enough. -/
def add (A : Arch) (p : MemPool) (buf sz : Nat) : Except PoolFault (Bool × MemPool) := do
  let start := roundUp A buf
  let stop := roundDown (A.add buf sz)
  if stop ≤ start then pure (false, p)
  else do
    let place ← p.findPlace A start stop (2 ^ A.wordBits) p.regions
    let p ← addLoop A stop (2 ^ A.wordBits) p (place.getD p.regions) start
    pure (true, { p with added := (buf, buf + sz) :: p.added })

/-- The end of `alloc_block`: the first block of the list is taken. -/
def take (A : Arch) (p : MemPool) (d lgsz : Nat) : Except PoolFault MemPool := do
  let p ← (p.removeBlock d lgsz).write d fun x => { x with busy := true }
  let x ← p.read d
  pure { p with poolSz := p.poolSz - one A x.lgsz }

/-- `alloc_block`. -/
def allocBlock (A : Arch) (p : MemPool) (lgsz : Nat) : Except PoolFault (Option Nat × MemPool) :=
  if lgszMax < lgsz then .ok (none, p)
  else
    let lgsz := max lgsz lgszMin
    if p.poolSz < one A lgsz then .ok (none, p)
    else do
      let r ← (if p.blocks lgsz = [] then p.split A (lgsz + 1) else .ok (false, p))
      match r.2.blocks lgsz with
      | [] => pure (none, r.2)
      | d :: _ => do
        let p ← r.2.take A d lgsz
        pure (some d, p)

/-- `get_log2sz_top_range`. -/
def log2szTop (sz : Nat) : Nat :=
  if sz = 0 then 0 else if 2 ^ Nat.log2 sz ≠ sz then Nat.log2 sz + 1 else Nat.log2 sz

/-- `alloc`: the address of the memory behind the descriptor. -/
def alloc (A : Arch) (p : MemPool) (sz : Nat) : Except PoolFault (Option Nat × MemPool) :=
  if sz = 0 then .ok (none, p)
  else do
    let r ← p.allocBlock A (log2szTop (A.add sz (descrSz A)))
    pure (r.1.map fun d => A.add d (descrSz A), r.2)

/-- What `free_block` does before it combines. -/
def release (p : MemPool) (d : Nat) (x : Descr) : Except PoolFault MemPool :=
  (p.addBlock d x.lgsz).write d fun y => { y with busy := false }

/-- `free_block`: the number of bytes that were freed. -/
def freeBlock (A : Arch) (p : MemPool) (d : Nat) : Except PoolFault (Nat × MemPool) := do
  let x ← p.read d
  ensure (x.busy = true) (.assertion "d->busy()")
  if x.lgsz < lgszMin ∨ lgszMax < x.lgsz then pure (0, p)
  else do
    let p ← p.release d x
    let p ← p.combine A d
    pure (one A x.lgsz, { p with poolSz := p.poolSz + one A x.lgsz })

/-- `free`. -/
def free (A : Arch) (p : MemPool) (ptr : Nat) : Except PoolFault (Nat × MemPool) :=
  if ptr = 0 then .ok (0, p) else p.freeBlock A (A.sub ptr (descrSz A))

/-- The calls of the pool. -/
inductive Op where
  | add (buf sz : Nat)
  | alloc (sz : Nat)
  | free (ptr : Nat)
  deriving DecidableEq, Repr

def step (A : Arch) (p : MemPool) : Op → Except PoolFault MemPool
  | .add buf sz => Prod.snd <$> p.add A buf sz
  | .alloc sz => Prod.snd <$> p.alloc A sz
  | .free ptr => Prod.snd <$> p.free A ptr

end MemPool

end Wrmos
