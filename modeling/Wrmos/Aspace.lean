import Wrmos.Ptable
import Wrmos.Region
import Wrmos.L4Types
import Mathlib.Logic.Function.Basic

/-!
# Address spaces

`Aspace` of `kmem.h` keeps two descriptions of the user part of an address space: the page tables
below its root (`_pgtab`) and a list of regions with their access (`_uspace`).  The tables of the
kernel window are shared: the constructor of `Pgtab` enters the same `kerntb` tables into every root.
In the flat tree of `Cells` a shared table is a set of records that all address spaces see:
`Arch.view` puts the records of the kernel window over those of one root, and a traversal that
started at that root is taken apart again by `Arch.kernPart` and `Arch.rootPart`.

`Mem` is the memory state of the kernel: the shared tables, the regions of the kernel window and one
`Aspace` for each task.
-/

namespace Wrmos

open Lib (ensure)

/-- `Aspace::Type`: the access (a set of `Acc` bits) and whether the memory is cached. -/
structure AccType where
  acc : Nat
  cached : Bool
  deriving DecidableEq, Repr

/-- `Aspace::Type::operator|=`: only the access is joined. -/
instance : OrOp AccType := ⟨fun s t => { s with acc := s.acc ||| t.acc }⟩

/-- The individual data of an `Aspace`: the records below its root that are not shared, and the
regions of its user part. -/
structure Aspace where
  root : Cells
  uspace : List (Desc AccType)

/-- The memory state. -/
structure Mem where
  kern : Cells
  kspace : List (Desc AccType)
  space : Nat → Aspace

/-- The room of `aspace_t`. -/
def aspaceRoom : Nat := 512

namespace Arch

/-- The page size of level `n`. -/
def levelSz (A : Arch) (n : Nat) : Nat :=
  ((A.levels.find? fun l => l.level == n).map PtLevel.pageSz).getD pageSz

/-- Block `k` of level `n` is recorded in one of the shared kernel tables. -/
def Shared (A : Arch) (n k : Nat) : Prop := A.ktabLevel ≤ n ∧ A.InKern (k * A.levelSz n)

instance (A : Arch) (n k : Nat) : Decidable (A.Shared n k) := by
  unfold Shared; infer_instance

/-- The records a root sees: its own, and the shared ones. -/
def view (A : Arch) (kern root : Cells) : Cells :=
  fun n k => if A.Shared n k then kern n k else root n k

/-- The shared records after a traversal. -/
def kernPart (A : Arch) (kern c : Cells) : Cells :=
  fun n k => if A.Shared n k then c n k else kern n k

/-- The records of the root after a traversal. -/
def rootPart (A : Arch) (root c : Cells) : Cells :=
  fun n k => if A.Shared n k then root n k else c n k

/-- The root the constructor of `Pgtab` makes: directory records down to the shared tables over the
kernel window, and nothing else. -/
def freshRoot (A : Arch) : Cells := fun n k =>
  if n < A.ktabLevel ∧ k * A.levelSz n < A.canon A.kernVa + kspaceSz ∧
      A.canon A.kernVa < (k + 1) * A.levelSz n ∧ 0 < n then .dir
  else .inv

end Arch

namespace Mem

/-- The records seen from the root of task `t`. -/
def cells (A : Arch) (m : Mem) (t : Nat) : Cells := A.view m.kern (m.space t).root

/-- The translation of an address in task `t`. -/
def lookup (A : Arch) (m : Mem) (t va : Nat) : Option (PtLevel × Nat) :=
  A.lookup A.levels (m.cells A t) va

/-- The state after a traversal from the root of task `t` left the records `c`. -/
def putCells (A : Arch) (m : Mem) (t : Nat) (c : Cells) : Mem :=
  { m with
    kern := A.kernPart m.kern c
    space := Function.update m.space t { m.space t with root := A.rootPart (m.space t).root c } }

/-- The state with another list of user regions of task `t`. -/
def putUspace (m : Mem) (t : Nat) (l : List (Desc AccType)) : Mem :=
  { m with space := Function.update m.space t { m.space t with uspace := l } }

/-- The access of `Aspace::map`: on sparc, write access always allows read access. -/
def mapAcc (A : Arch) (acc : Nat) : Nat :=
  if A = .sparc ∧ acc = Acc.uw then Acc.urw else acc

/-- `Aspace::map`. -/
def map (A : Arch) (m : Mem) (t va pa sz acc cachable : Nat) : Except Stop Mem := do
  ensure (va % pageSz = 0) (.assertion "is_aligned(va, Cfg_page_sz)")
  ensure (pa % pageSz = 0) (.assertion "is_aligned(pa, Cfg_page_sz)")
  ensure (sz % pageSz = 0) (.assertion "is_aligned(sz, Cfg_page_sz)")
  ensure (va ≠ 0) (.assertion "va")
  ensure (pa ≠ 0) (.assertion "pa")
  ensure (sz ≠ 0) (.assertion "sz")
  let r ← Region.insert A aspaceRoom (m.space t).uspace va sz
    ⟨mapAcc A acc, decide (cachable = 1)⟩ .combine
  let code ← acc2mmuacc A r.2.acc
  let c ← A.mapTb code cachable true A.levels (m.cells A t) va pa sz
  pure ((m.putUspace t r.1).putCells A t c)

/-- `Aspace::unmap`. -/
def unmap (A : Arch) (m : Mem) (t va sz : Nat) : Except Stop Mem := do
  ensure (va % pageSz = 0) (.assertion "is_aligned(va, Cfg_page_sz)")
  ensure (sz % pageSz = 0) (.assertion "is_aligned(sz, Cfg_page_sz)")
  ensure (sz ≠ 0) (.assertion "sz")
  let l ← Region.free A aspaceRoom (m.space t).uspace va sz
  let c ← A.unmapTb A.levels (m.cells A t) va sz
  pure ((m.putUspace t l).putCells A t c)

/-- `Aspace::walk`. -/
def walk (A : Arch) (m : Mem) (t va sz : Nat) : Except Stop Nat := do
  ensure (va % pageSz = 0) (.assertion "is_aligned(va, Cfg_page_sz)")
  ensure (sz % pageSz = 0) (.assertion "is_aligned(sz, Cfg_page_sz)")
  ensure (va ≠ 0) (.assertion "va")
  ensure (sz ≠ 0) (.assertion "sz")
  A.walkTb (m.cells A t) A.levels va sz

/-- `acc2uacc` and `uacc2acc`: the user rights. -/
def uacc (acc : Nat) : Nat := acc &&& Acc.urwx

/-- The region of task `t` that contains the flexpage and allows its access. -/
def ownRegion (A : Arch) (m : Mem) (t fp : Nat) : Option (Desc AccType) :=
  (Region.find A (m.space t).uspace (Fpage.addr A fp) (Fpage.size A fp)).filter fun d =>
    decide (Fpage.access fp = Fpage.access fp &&& uacc d.type.acc)

/-- `Aspace::is_inside_acc`. -/
def isInsideAcc (A : Arch) (m : Mem) (t fp : Nat) : Bool := (m.ownRegion A t fp).isSome

/-- `Aspace::cached`: whether the region of the flexpage is cached, `none` for its negative
results. -/
def cached (A : Arch) (m : Mem) (t fp : Nat) : Option Nat :=
  (m.ownRegion A t fp).map fun d => if d.type.cached then 1 else 0

end Mem

end Wrmos
