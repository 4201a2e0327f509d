import Wrmos.MemoryPool
import Wrmos.PagePool
import Wrmos.Lib.Outcome

/-!
# `malloc`, and where it gets memory from

`stdlib.c` reaches the allocator through the callbacks of `Wlibc_callbacks_t`: when `malloc` is answered
with null it calls `malloc_empty` and, if that reports success, asks once more.  `app_start.cpp` sets the
callbacks of an application to the memory pool and to `wrm_malloc_empty_default_callback`, which takes a page
out of the page pool and adds it to the memory pool.  `Heap` is the pair of the pools, the two singletons of
`mpool.cpp`; their locks only order the calls.

The bytes of a block are not part of the model, so `calloc` is `malloc` of the product, taken as a `size_t`.
-/

namespace Wrmos

/-- The callbacks of the C library, over the state `σ` of the program. -/
structure Callbacks (σ ε : Type) where
  malloc : Option (σ → Nat → Except ε (Option Nat × σ))
  mallocEmpty : Option (σ → Nat → Except ε (Int × σ))

namespace Callbacks

variable {σ ε : Type}

/-- `malloc`. -/
def mallocWith (cb : Callbacks σ ε) (s : σ) (sz : Nat) : Except ε (Option Nat × σ) :=
  match cb.malloc with
  | none => .ok (none, s)
  | some alloc => do
    let r ← alloc s sz
    match cb.mallocEmpty with
    | none => pure r
    | some empty =>
      if r.1 = none ∧ sz ≠ 0 then do
        let e ← empty r.2 sz
        if e.1 = 0 then alloc e.2 sz else pure (none, e.2)
      else pure r

/-- `calloc`: the product is one of `size_t`. -/
def callocWith (A : Arch) (cb : Callbacks σ ε) (s : σ) (num size : Nat) : Except ε (Option Nat × σ) :=
  cb.mallocWith s (num * size % 2 ^ A.wordBits)

end Callbacks

/-- How a call of the heap ends without a result: in the memory pool or in the page pool. -/
inductive HeapFault where
  | mpool (fault : PoolFault)
  | pgpool (stop : Stop)
  deriving DecidableEq, Repr

/-- The pools of an application. -/
structure Heap where
  mem : MemPool
  pages : PagePool

namespace Heap

/-- The pools before their first use. -/
def start : Heap := ⟨MemPool.init, PagePool.empty⟩

/-- `wrm_mpool_alloc`. -/
def mpoolAlloc (A : Arch) (s : Heap) (sz : Nat) : Except HeapFault (Option Nat × Heap) := do
  let r ← (s.mem.alloc A sz).mapError .mpool
  pure (r.1, { s with mem := r.2 })

/-- `wrm_mpool_add`. -/
def mpoolAdd (A : Arch) (s : Heap) (buf sz : Nat) : Except HeapFault (Int × Heap) := do
  let r ← (s.mem.add A buf sz).mapError .mpool
  pure (if r.1 then 0 else -1, { s with mem := r.2 })

/-- `wrm_mpool_free`. -/
def mpoolFree (A : Arch) (s : Heap) (ptr : Nat) : Except HeapFault Heap := do
  let r ← (s.mem.free A ptr).mapError .mpool
  pure { s with mem := r.2 }

/-- `wrm_pgpool_alloc`. -/
def pgpoolAlloc (A : Arch) (s : Heap) (sz : Nat) : Except HeapFault (Nat × Heap) := do
  let r ← (s.pages.alloc A sz).mapError .pgpool
  pure (r.2, { s with pages := r.1 })

/-- `wrm_pgpool_add`. -/
def pgpoolAdd (A : Arch) (s : Heap) (fp : Nat) : Except HeapFault Heap := do
  let r ← (s.pages.add A fp).mapError .pgpool
  pure { s with pages := r }

/-- `1 << n` as a `size_t` where `n` may be the width of an `int` or more: arm shifts everything out, the
other processors take the count modulo the width. -/
def shiftInt (A : Arch) (n : Nat) : Nat :=
  if n < 32 then MemPool.one A n
  else
    match A with
    | .arm => 0
    | _ => MemPool.one A (n % 32)

/-- The bytes that `wrm_malloc_empty_default_callback` asks the page pool for. -/
def grown (A : Arch) (sz : Nat) : Nat := if sz ≤ pageSz then pageSz else shiftInt A (MemPool.log2szTop sz)

/-- `wrm_malloc_empty_default_callback`. -/
def mallocEmpty (A : Arch) (s : Heap) (sz : Nat) : Except HeapFault (Int × Heap) := do
  let r ← s.pgpoolAlloc A (grown A sz)
  if Fpage.isNil r.1 then pure (-1, r.2)
  else do
    let e ← r.2.mpoolAdd A (Fpage.addr A r.1) (Fpage.size A r.1)
    if e.1 ≠ 0 then pure (-2, e.2) else pure (0, e.2)

/-- What `init_wlibc_callbacks` sets. -/
def callbacks (A : Arch) : Callbacks Heap HeapFault := ⟨some (mpoolAlloc A), some (mallocEmpty A)⟩

/-- `malloc` of an application. -/
def malloc (A : Arch) (s : Heap) (sz : Nat) : Except HeapFault (Option Nat × Heap) :=
  (callbacks A).mallocWith s sz

/-- `calloc` of an application. -/
def calloc (A : Arch) (s : Heap) (num size : Nat) : Except HeapFault (Option Nat × Heap) :=
  (callbacks A).callocWith A s num size

end Heap

end Wrmos
