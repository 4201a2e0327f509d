import Wrmos.Lib.Outcome

/-!
# The configuration of a project

The tables of `app/alpha/main.cpp` and `wrm_appcfg.h`: the devices of the board, the regions of named memory
and the applications.  A table is the list of all its entries.  Names are arrays of bytes, and an entry with
an empty name ends a table for those who walk along it.
-/

namespace Wrmos
namespace AlphaConfig

/-- What the code must not do with its tables and strings: an assertion fails, it panics, an entry behind the
end of a table is used, a null pointer is dereferenced, or a loop does not end. -/
inductive Fault where
  | assertion (expr : String)
  | panic (text : String)
  | beyond (table : String)
  | null (expr : String)
  | outOfRounds
  deriving DecidableEq, Repr

/-- A name in its array. -/
abbrev Name := List UInt8

/-- The string in an array. -/
def cstr (name : Name) : List UInt8 := name.takeWhile (· ≠ 0)

/-- A string in an array of so many bytes. -/
def inArray (sz : Nat) (s : List UInt8) : Name := s ++ List.replicate (sz - s.length) 0

/-- `name[0] == 0`. -/
def isEmpty (name : Name) : Bool := cstr name == []

/-- `Devs_max`, `Mems_max` and `Apps_max` of the project. -/
def devsMax : Nat := 32
def memsMax : Nat := 8
def appsMax : Nat := 8

/-- `App_name_sz` to `Mem_list_sz` of `Wrm_app_cfg_t`. -/
def appNameSz : Nat := 16
def appShortNameSz : Nat := 5
def fileNameSz : Nat := 32
def argSz : Nat := 16
def argListSz : Nat := 4
def devNameSz : Nat := 16
def devListSz : Nat := 32
def memNameSz : Nat := 16
def memListSz : Nat := 16

/-- `Io_device_t`. -/
structure IoDevice where
  name : Name
  pa : Nat
  sz : Nat
  irq : Nat
  deriving DecidableEq, Repr

namespace IoDevice

variable (d : IoDevice)

/-- `ioport_addr`: the low bits of an address that has that of the device's memory in its other bits. -/
def ioportAddr : Nat := d.pa % 0x1000

/-- `ioport_sz`. -/
def ioportSz : Nat := d.sz % 0x10

/-- `ioport_end`. -/
def ioportEnd : Nat := d.ioportAddr + d.ioportSz

end IoDevice

/-- A device of zeros. -/
def IoDevice.zero : IoDevice := ⟨inArray devNameSz [], 0, 0, 0⟩

/-- `Memory_region_t`. -/
structure MemoryRegion where
  name : Name
  sz : Nat
  access : Nat
  cached : Bool
  contig : Bool
  deriving DecidableEq, Repr

/-- `Wrm_app_cfg_t`. -/
structure AppConfig where
  name : Name
  shortName : Name
  filename : Name
  stackSz : Nat
  heapSz : Nat
  maxAspaces : Nat
  maxThreads : Nat
  maxPrio : Nat
  fpu : Nat
  mallocStrategy : Nat
  devs : List Name
  mems : List Name
  args : List Name
  deriving DecidableEq, Repr

/-- An application of zeros. -/
def AppConfig.zero : AppConfig where
  name := inArray appNameSz []
  shortName := inArray appShortNameSz []
  filename := inArray fileNameSz []
  stackSz := 0
  heapSz := 0
  maxAspaces := 0
  maxThreads := 0
  maxPrio := 0
  fpu := 0
  mallocStrategy := 0
  devs := List.replicate devListSz (inArray devNameSz [])
  mems := List.replicate memListSz (inArray memNameSz [])
  args := List.replicate argListSz (inArray argSz [])

/-- `Proj_cfg_t`. -/
structure ProjConfig where
  devices : List IoDevice
  mems : List MemoryRegion
  apps : List AppConfig
  deriving DecidableEq, Repr

end AlphaConfig
end Wrmos
