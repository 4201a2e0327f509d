import Wrmos.Region

/-!
# The kernel heap

`Kmem` of `kmem.h`: the kernel's memory pool is one list of regions that are free or busy.  `alloc`
takes the first free region with room for an aligned block and turns the block into a busy region of its
own; `free` turns a busy region into a free one and joins it with its neighbours.  `pool_sz` counts the
free bytes.
-/

namespace Wrmos

open Lib (ensure)

/-- `Kmem::Type`. -/
inductive KmemType where
  | free
  | busy
  deriving DecidableEq, Repr

/-- `memory` and `pool_sz`. -/
structure Kmem where
  memory : List (Desc KmemType)
  poolSz : Nat
  deriving DecidableEq, Repr

namespace Kmem

/-- `Alloc_min_sz`. -/
def allocMinSz : Nat := 0x40

/-- `Pool_init_sz`. -/
def poolInitSz : Nat := 256 * pageSz

/-- The room of `memory_t`. -/
def room : Nat := 1024

/-- `setup_premapped` with the pool at an address; `pool_sz` is set by its initializer. -/
def setupPremapped (A : Arch) (va : Nat) : Except Stop Kmem := do
  ensure (va ≠ 0 ∧ va % pageSz = 0) (.assertion "va && is_aligned(va, Cfg_page_sz)")
  ensure (poolInitSz ≠ 0 ∧ poolInitSz % pageSz = 0) (.assertion "sz && is_aligned(sz, Cfg_page_sz)")
  let l ← Region.add A room [] va poolInitSz .free .notCombine
  pure ⟨l, poolInitSz⟩

/-- The loop of `alloc` over the regions. -/
def allocFrom (A : Arch) (sz align : Nat) :
    List (Desc KmemType) → List (Desc KmemType) → Except Stop (List (Desc KmemType) × Nat)
  | _, [] => .error (.panic "No free kernel memory.\n")
  | before, it :: after =>
    if it.type = .free ∧ sz ≤ it.sz then
      let aaddr := Region.roundUp A it.addr align
      let diff := A.sub aaddr it.addr
      if A.add diff sz ≤ it.sz then do
        let l ← Region.setTypeAt A room before aaddr sz .busy .notCombine (it :: after)
        pure (l, aaddr)
      else allocFrom A sz align (it :: before) after
    else allocFrom A sz align (it :: before) after

/-- `alloc`: the block's address. -/
def alloc (A : Arch) (s : Kmem) (sz align : Nat) : Except Stop (Kmem × Nat) := do
  ensure (sz ≠ 0 ∧ align ≠ 0) (.assertion "sz && align")
  let sz := Region.roundUp A sz allocMinSz
  let r ← allocFrom A sz align [] s.memory
  pure (⟨r.1, A.sub s.poolSz sz⟩, r.2)

/-- `free`. -/
def free (A : Arch) (s : Kmem) (va : Nat) : Except Stop Kmem :=
  match Region.findAddrFrom va [] s.memory with
  | none => .error (.assertion "it != memory.end()  &&  it->type.type == Type::Busy")
  | some (before, it, after) => do
    ensure (it.type = .busy) (.assertion "it != memory.end()  &&  it->type.type == Type::Busy")
    let l ← Region.setTypeAt A room before va it.sz .free .combine (it :: after)
    pure ⟨l, A.add s.poolSz it.sz⟩

end Kmem

end Wrmos
