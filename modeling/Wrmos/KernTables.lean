import Wrmos.Ptable

/-!
# The tables of the kernel window

`Pgtab` splits the kernel window into `Ktbs` tables `kerntb[i]` that all roots share, each for
`Ktab_t::Aspace_sz` bytes.  The records of all of them are one flat tree here, as for a root.  `kmap`
goes over the tables that its range meets.  `kunmap` and `kwalk` choose the table of the first address,
and `get_cell` takes the index bits of an address alone: beyond the end of that table they are back at
its start (`tbAddr`).
-/

namespace Wrmos

open Lib (ensure rangeLoop)

/-- The tables below a root that are shared: those of `Ktab_t` and of the levels below it. -/
def Arch.ktabLevels (A : Arch) : List PtLevel := A.levels.filter fun l => decide (A.ktabLevel ≤ l.level)

namespace Mem

/-- The assertions of `Pgtab::kmap` and `Pgtab::kunmap`. -/
def checkKern (A : Arch) (va sz : Nat) : Except Stop Unit := do
  ensure (A.kernVa ≤ va ∧ va < A.kernVa + Arch.kspaceSz)
    (.assertion "va >= Kern_va  &&  va < (Kern_va + Kspace_sz)")
  ensure (A.kernVa < A.add va sz ∧ A.add va sz ≤ A.kernVa + Arch.kspaceSz)
    (.assertion "(va+sz) > Kern_va  &&  (va+sz) <= (Kern_va) + Kspace_sz")

end Mem

namespace Arch

/-- `Pgtab::Ktbs`. -/
def ktbs (A : Arch) : Nat := kspaceSz / A.ktabSz

/-- The `unsigned index` of the table of an address. -/
def tbIndex (A : Arch) (va : Nat) : Nat := A.sub va A.kernVa / A.ktabSz % 2 ^ 32

/-- The address that `kerntb[i]` translates with the record it finds for `va`. -/
def tbAddr (A : Arch) (i va : Nat) : Nat := A.kernVa + i * A.ktabSz + va % A.ktabSz

/-- One round of the loop of `Pgtab::kmap`; the state has the physical address. -/
def kmapStep (A : Arch) (acc cachable : Nat) (s : Cells × Nat) (va rest : Nat) :
    Except Stop ((Cells × Nat) × Nat) := do
  ensure (A.tbIndex va < A.ktbs) (.assertion "index < Ktbs")
  let len := if va % A.ktabSz = 0 then min rest A.ktabSz else min rest (A.ktabSz - va % A.ktabSz)
  let c ← A.mapTb acc cachable false A.ktabLevels s.1 va s.2 len
  pure ((c, padd s.2 len), len)

/-- `Pgtab::kmap`; every round goes on to the next table, so there are no more rounds than tables. -/
def kmap (A : Arch) (acc cachable : Nat) (c : Cells) (va pa sz : Nat) : Except Stop Cells := do
  Mem.checkKern A va sz
  let s ← rangeLoop A.add .outOfRounds (A.kmapStep acc cachable) (A.ktbs + 1) (c, pa) va sz
  pure s.1

/-- `Ptable::unmap` of `kerntb[i]`. -/
def unmapKerntb (A : Arch) (i : Nat) : List PtLevel → Cells → Nat → Nat → Except Stop Cells
  | [], _, _, _ => .error (.panic "unmap")
  | l :: ls, c, va, sz => do
    checkRange l va sz
    rangeLoop A.add .outOfRounds
      (fun c cur rest => A.unmapStep l (A.unmapTb ls) c (A.tbAddr i cur) rest) (sz / pageSz + 1) c va sz

/-- `Pgtab::kunmap`. -/
def kunmap (A : Arch) (c : Cells) (va sz : Nat) : Except Stop Cells := do
  Mem.checkKern A va sz
  A.unmapKerntb (A.tbIndex va) A.ktabLevels c va sz

/-- `Ptable::walk` of `kerntb[i]`. -/
def walkKerntb (A : Arch) (c : Cells) (i : Nat) : List PtLevel → Nat → Nat → Except Stop Nat
  | [], _, _ => .error (.panic "walk")
  | l :: ls, va, sz => do
    checkRange l va sz
    match rangeLoop A.add (.stop .outOfRounds)
      (fun pa cur rest => A.walkStep l (A.walkTb c ls) c pa (A.tbAddr i cur) rest)
      (sz / pageSz + 1) 0 va sz with
    | .ok pa => pure pa
    | .error .notMapped => pure 0
    | .error (.stop s) => throw s

/-- `Pgtab::kwalk`. -/
def kwalk (A : Arch) (c : Cells) (va sz : Nat) : Except Stop Nat := do
  Mem.checkKern A va sz
  A.walkKerntb c (A.tbIndex va) A.ktabLevels va sz

end Arch

end Wrmos
