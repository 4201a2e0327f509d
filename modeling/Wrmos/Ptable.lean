import Wrmos.Mmu
import Wrmos.Lib.RangeLoop

/-!
# Page tables

`ptable.h` translates with a tree of tables.  A record is invalid, a directory record (it points to
a table of the next level) or a map record.  Every table but the shared kernel tables has one
parent record, so the tree is kept flat here: `c n k` is the record of level `n` that covers the
`k`-th block of that level's page size, and a table exists where its parent record is a directory.
A fresh table is all zeros (`create_table`), so making a directory record invalidates the records
of the block one level down.

`mapTb`, `unmapTb` and `walkTb` are the three traversals `Ptable::map`, `Ptable::unmap` and
`Ptable::walk`, by recursion over the levels below the table they are called on; the `while` loop
over the range is `Lib.rangeLoop`.  `lookup` is the translation of one address.
-/

namespace Wrmos

open Lib (ensure rangeLoop)

/-- A page-table record. -/
inductive Cell where
  | inv
  | dir
  | map (word : Nat)
  deriving DecidableEq, Repr

/-- The records of a tree of tables, by level and block number. -/
abbrev Cells := Nat → Nat → Cell

/-- No table below the root has a record. -/
def Cells.empty : Cells := fun _ _ => .inv

namespace Arch

/-- The number of the block of level `l` that holds `va`: the indices of the tables down to `l`. -/
def key (A : Arch) (l : PtLevel) (va : Nat) : Nat := A.canon va / l.pageSz

/-- `get_cell` and the tests `mmu_is_inv`, `mmu_is_dir`, `mmu_is_map`; `mmu_is_map` is false on a
level without map records. -/
def cellAt (A : Arch) (c : Cells) (l : PtLevel) (va : Nat) : Cell :=
  match c l.level (A.key l va) with
  | .map w => if mmuHasMap A l.level then .map w else .inv
  | x => x

/-- Store a record. -/
def setCell (A : Arch) (c : Cells) (l : PtLevel) (va : Nat) (x : Cell) : Cells :=
  fun n k => if n = l.level ∧ k = A.key l va then x else c n k

/-- `create_table` and `mmu_set_dir`: a directory record to a new table, all of whose records are
zero. -/
def newTable (A : Arch) (c : Cells) (l : PtLevel) (child : Option PtLevel) (va : Nat) : Cells :=
  fun n k =>
    if n = l.level ∧ k = A.key l va then .dir
    else
      match child with
      | some m => if n = m.level ∧ k * m.pageSz / l.pageSz = A.key l va then .inv else c n k
      | none => c n k

/-- The translation of one address: the level and the word of the map record that covers it. -/
def lookup (A : Arch) : List PtLevel → Cells → Nat → Option (PtLevel × Nat)
  | [], _, _ => none
  | l :: ls, c, va =>
    match A.cellAt c l va with
    | .inv => none
    | .dir => A.lookup ls c va
    | .map w => some (l, w)

/-! ## The traversals -/

/-- The argument checks of `Ptable::unmap` and `Ptable::walk`. -/
def checkRange (l : PtLevel) (va size : Nat) : Except Stop Unit := do
  ensure (va % pageSz = 0) (.assertion "mmu_isalign(vaddr, Cfg_page_sz)")
  ensure (size % pageSz = 0) (.assertion "mmu_isalign(size, Cfg_page_sz)")
  ensure (size ≤ l.aspaceSz) (.assertion "size <= Aspace_sz")

/-- The tests of `Ptable::map` before it records a whole page over `cell`. -/
def checkOverMap (allowOverMap : Bool) : Cell → Except Stop Unit
  | .dir => .error (.panic "IMPLME:  over mapping, need unmap old mapping")
  | .map _ => ensure (allowOverMap = true) (.panic "over mapping while allow_over_map=false")
  | .inv => .ok ()

/-- The records with the child table at `va`, which is created when there is none. -/
def childTable (A : Arch) (l : PtLevel) (child : Option PtLevel) (c : Cells) (va : Nat) :
    Except Stop Cells :=
  match A.cellAt c l va with
  | .inv => .ok (A.newTable c l child va)
  | .dir => .ok c
  | .map _ => .error (.panic "Attempt to map, walk to next level ptable, but already mapped")

/-- Store what `mmu_set_map` makes of the record, if anything. -/
def storeMap (A : Arch) (c : Cells) (l : PtLevel) (va : Nat) : Option Nat → Cells
  | some w => A.setCell c l va (.map w)
  | none => c

/-- One round of the loop of `Ptable::map` at `va`: a whole page is recorded here, the rest goes to
the child table. -/
def mapStep (A : Arch) (l : PtLevel) (child : Option PtLevel)
    (childMap : Cells → Nat → Nat → Nat → Except Stop Cells)
    (vaddr paddr acc cachable : Nat) (allowOverMap : Bool)
    (c : Cells) (va rest : Nat) : Except Stop (Cells × Nat) :=
  if va % l.pageSz = 0 ∧ l.pageSz ≤ rest then do
    checkOverMap allowOverMap (A.cellAt c l va)
    let w ← mmuSetMap A l.level (paddrAt paddr va vaddr) acc cachable
    pure (A.storeMap c l va w, l.pageSz)
  else do
    let c ← A.childTable l child c va
    let len := min rest (l.pageSz - va % l.pageSz)
    let c ← childMap c va (paddrAt paddr va vaddr) len
    pure (c, len)

/-- `Ptable::map` of the table at the head of the list; below the last table stands
`Ptable_terminator`. -/
def mapTb (A : Arch) (acc cachable : Nat) (allowOverMap : Bool) :
    List PtLevel → Cells → Nat → Nat → Nat → Except Stop Cells
  | [], _, _, _, _ => .error (.panic "map")
  | l :: ls, c, vaddr, paddr, size => do
    ensure (vaddr % pageSz = 0) (.assertion "mmu_isalign(vaddr, Cfg_page_sz)")
    ensure (paddr % pageSz = 0) (.assertion "mmu_isalign(paddr, Cfg_page_sz)")
    ensure (size % pageSz = 0) (.assertion "mmu_isalign(size, Cfg_page_sz)")
    ensure (size ≤ l.aspaceSz) (.assertion "size <= Aspace_sz")
    ensure (acc < 8) (.assertion "access < 8")
    ensure (cachable < 2) (.assertion "cachable < 2")
    rangeLoop A.add .outOfRounds
      (mapStep A l ls.head? (A.mapTb acc cachable allowOverMap ls) vaddr paddr acc cachable
        allowOverMap)
      (size / pageSz + 1) c vaddr size

/-- One round of the loop of `Ptable::unmap`.  A map record and an invalid one are passed in a whole
page size, also when `va` stands in the middle of the block. -/
def unmapStep (A : Arch) (l : PtLevel) (childUnmap : Cells → Nat → Nat → Except Stop Cells)
    (c : Cells) (va rest : Nat) : Except Stop (Cells × Nat) :=
  match A.cellAt c l va with
  | .dir => do
    let len := min rest (l.pageSz - va % l.pageSz)
    let c ← childUnmap c va len
    pure (c, len)
  | .map _ => do
    ensure (l.pageSz ≤ rest) (.panic "Unmap high-level table but need low-level")
    pure (A.setCell c l va .inv, l.pageSz)
  | .inv => pure (c, min rest l.pageSz)

/-- `Ptable::unmap`. -/
def unmapTb (A : Arch) : List PtLevel → Cells → Nat → Nat → Except Stop Cells
  | [], _, _, _ => .error (.panic "unmap")
  | l :: ls, c, vaddr, size => do
    checkRange l vaddr size
    rangeLoop A.add .outOfRounds (unmapStep A l (A.unmapTb ls)) (size / pageSz + 1) c vaddr size

/-- How the loop of `Ptable::walk` ends early: `return 0`, or the kernel stops. -/
inductive WalkEnd where
  | notMapped
  | stop (s : Stop)
  deriving DecidableEq, Repr

/-- One round of the loop of `Ptable::walk`; the state is the address found so far, `0` when none
is. -/
def walkStep (A : Arch) (l : PtLevel) (childWalk : Nat → Nat → Except Stop Nat) (c : Cells)
    (pa va rest : Nat) : Except WalkEnd (Nat × Nat) :=
  let len := min rest (l.pageSz - va % l.pageSz)
  match A.cellAt c l va with
  | .inv => .error .notMapped
  | .dir =>
    match childWalk va len with
    | .error s => .error (.stop s)
    | .ok 0 => .error .notMapped
    | .ok res => .ok (if pa = 0 then res else pa, len)
  | .map w =>
    .ok (if pa = 0 then padd (mmuGetMapPa A l.level w) (va % l.pageSz) else pa, len)

/-- `Ptable::walk`: the first physical address of the range, `0` when a part of it is not
mapped. -/
def walkTb (A : Arch) (c : Cells) : List PtLevel → Nat → Nat → Except Stop Nat
  | [], _, _ => .error (.panic "walk")
  | l :: ls, vaddr, size => do
    checkRange l vaddr size
    match rangeLoop A.add (.stop .outOfRounds) (walkStep A l (A.walkTb c ls) c)
      (size / pageSz + 1) 0 vaddr size with
    | .ok pa => pure pa
    | .error .notMapped => pure 0
    | .error (.stop s) => throw s

end Arch

end Wrmos
