import Wrmos.Elf
import Wrmos.Sigma0

/-!
# The memory map of the boot loader

`ldr/main.cpp`: the loader collects the segments of the kernel, of sigma0 and of the root task and its own
memory in the list `regions`, adds what RAM has below the first and behind the last of them, looks for
overlaps, and writes descriptors of the memory into the kernel interface page.  The sections of sigma0 and
of the root task get descriptors as well, and so has the file system image, which is no region.

* The list holds sixteen regions and is sorted by their start; `insert_sort` puts a region before those
  that start where it does.
* The ELF files are what `elf_foreach` calls `process_elf_shdr` and `process_elf_phdr` with.  Of the name
  of a section only matters whether it is `.data`.
* Whether a kernel region starts with the magic word of the page is known once the segments are loaded.
* The files are in the file system image; the loader stops when one of them is not.
-/

namespace Wrmos
namespace Ldr

open Lib (ensure runAll)

/-- The owner of a region. -/
inductive Owner where
  | kernel
  | sigma0
  | roottask
  | bootloader
  | free
  deriving DecidableEq, Repr

/-- `Region_t`. -/
structure Region where
  start : Nat
  sz : Nat
  owner : Owner
  deriving DecidableEq, Repr

/-- `end`. -/
def Region.endOf (A : Arch) (r : Region) : Nat := A.add r.start r.sz

/-- `Section_t`. -/
structure Section where
  addr : Nat
  sz : Nat
  type : Nat
  deriving DecidableEq, Repr

/-- `Mem_desc_t::Bldr_ramfs` and the types of the sections. -/
def bldrSigma0Text : Nat := 0x1
def bldrSigma0Rodata : Nat := 0x2
def bldrSigma0Data : Nat := 0x3
def bldrRoottaskText : Nat := 0x4
def bldrRoottaskRodata : Nat := 0x5
def bldrRoottaskData : Nat := 0x6
def bldrRamfs : Nat := 0x7

/-- `Cfg_page_sz`. -/
def pageSz : Nat := 4096

/-- What `elf_foreach` finds in an ELF file: sections, and whether they are named `.data`, and segments. -/
structure ElfFile where
  sections : List (Elf.ShCall × Bool)
  segments : List Elf.PhCall
  deriving DecidableEq, Repr

/-- The image the loader is started from: `Cfg_ram_start` and `Cfg_ram_sz`, the variables of the linker,
and the ELF files. -/
structure Image where
  ramStart : Nat
  ramSz : Nat
  bootloaderStart : Nat
  bootloaderEnd : Nat
  ramfsStart : Nat
  ramfsEnd : Nat
  kernel : ElfFile
  sigma0 : ElfFile
  roottask : ElfFile
  /-- The word at an address is `L4_kip_magic`, when the segments are loaded. -/
  kipMagic : Nat → Bool

/-! ## The lists -/

/-- The capacity of `Regions_t` and of `Sections_t`. -/
def listSz : Nat := 16

/-- The place `insert_sort` finds. -/
def place (r : Region) (regions : List Region) : List Region :=
  regions.takeWhile (fun e => decide (e.start < r.start)) ++
    r :: regions.dropWhile fun e => decide (e.start < r.start)

/-- `regions.insert_sort`. -/
def insertSort (r : Region) (regions : List Region) : Except Stop (List Region) := do
  ensure (regions.length < listSz) (.panic "list is full")
  pure (place r regions)

/-- `sections.push_back`. -/
def pushBack (s : Section) (sections : List Section) : Except Stop (List Section) := do
  ensure (sections.length < listSz) (.panic "list is full")
  pure (sections ++ [s])

/-- The type of a section of an application, if it gets a descriptor. -/
def sectionType (app : Owner) (access : Nat) : Option Nat :=
  if access.testBit 0 then
    match app with
    | .sigma0 => some bldrSigma0Text
    | .roottask => some bldrRoottaskText
    | _ => none
  else if access = 4 then
    match app with
    | .sigma0 => some bldrSigma0Rodata
    | .roottask => some bldrRoottaskRodata
    | _ => none
  else if access = 6 then
    match app with
    | .sigma0 => some bldrSigma0Data
    | .roottask => some bldrRoottaskData
    | _ => none
  else none

/-- `process_elf_shdr`. -/
def processElfShdr (app : Owner) (sections : List Section) (c : Elf.ShCall × Bool) :
    Except Stop (List Section) :=
  if c.1.isProgbitsOrNobits then do
    ensure (c.1.addr % pageSz = 0) (.panic "address not aligned to page size")
    ensure (c.1.size % pageSz = 0 ∨ c.2 = true) (.panic "size not aligned to page size")
    match sectionType app c.1.access with
    | some type => pushBack ⟨c.1.addr, c.1.size, type⟩ sections
    | none => pure sections
  else pure sections

/-- `process_elf_phdr`. -/
def processElfPhdr (app : Owner) (regions : List Region) (c : Elf.PhCall) :
    Except Stop (List Region) :=
  if c.isLoad then insertSort ⟨c.paddr, c.memsz, app⟩ regions else pure regions

/-! ## The regions -/

section

variable (A : Arch) (img : Image)

/-- `ram_end`. -/
def ramEnd : Nat := A.add img.ramStart img.ramSz

/-- The region of `add_bootloader_to_regions`. -/
def bootloader : Region :=
  ⟨img.bootloaderStart, A.sub img.bootloaderEnd img.bootloaderStart, .bootloader⟩

/-- The region below the first one, if there is one. -/
def freeBelow (first : Region) : Option Region :=
  if img.ramStart < first.start then some ⟨img.ramStart, A.sub first.start img.ramStart, .free⟩
  else none

/-- The region behind the last one, if there is one. -/
def freeBehind (last : Region) : Option Region :=
  if last.endOf A < ramEnd A img then
    some ⟨last.endOf A, A.sub (ramEnd A img) (last.endOf A), .free⟩
  else none

/-- Insert a region if there is one. -/
def insertOpt (r : Option Region) (regions : List Region) : Except Stop (List Region) :=
  match r with
  | some r => insertSort r regions
  | none => pure regions

/-- `add_free_mem_to_regions`. -/
def addFreeMem (regions : List Region) : Except Stop (List Region) := do
  let regions ← insertOpt (regions.head?.bind (freeBelow A img)) regions
  insertOpt (regions.getLast?.bind (freeBehind A img)) regions

/-- The check of `main` for overlaps. -/
def checkOverlaps : List Region → Except Stop Unit
  | r :: r' :: regions => do
    ensure (r.endOf A ≤ r'.start) (.panic "overlaps")
    checkOverlaps (r' :: regions)
  | _ => pure ()

/-! ## The descriptors -/

/-- The descriptor of a region that is free for use. -/
def convDesc (r : Region) : MemDesc :=
  ⟨r.start / 2 ^ 10, A.sub (r.endOf A) 1 / 2 ^ 10, MemDesc.conventional, 0⟩

/-- The descriptor of a section. -/
def sectionDesc (s : Section) : MemDesc :=
  ⟨s.addr / 2 ^ 10, A.sub (A.add s.addr s.sz) 1 / 2 ^ 10, MemDesc.bootloader, s.type⟩

/-- The memory of the loader is marked as free. -/
def isFree (r : Region) : Bool := r.owner == .bootloader || r.owner == .free

/-- `init_kip`: the descriptors. -/
def initKip (regions : List Region) (sections : List Section) : Except Stop (List MemDesc) := do
  ensure (regions.any fun r => r.owner == .kernel && img.kipMagic r.start && decide (pageSz ≤ r.sz))
    (.panic "Could not find KIP.")
  pure ((regions.filter isFree).map (convDesc A) ++ sections.map (sectionDesc A))

/-- The regions of the ELF files and of the loader. -/
def usedRegions : Except Stop (List Region) := do
  let regions ← runAll (processElfPhdr .kernel) [] img.kernel.segments
  let regions ← runAll (processElfPhdr .sigma0) regions img.sigma0.segments
  let regions ← runAll (processElfPhdr .roottask) regions img.roottask.segments
  insertSort (bootloader A img) regions

/-- The sections: the file system image first. -/
def allSections : Except Stop (List Section) := do
  let sections ← pushBack ⟨img.ramfsStart, A.sub img.ramfsEnd img.ramfsStart, bldrRamfs⟩ []
  let sections ← runAll (processElfShdr .sigma0) sections img.sigma0.sections
  runAll (processElfShdr .roottask) sections img.roottask.sections

/-- `main`, up to the descriptors of the kernel interface page. -/
def main : Except Stop (List MemDesc) := do
  let sections ← allSections A img
  let regions ← usedRegions A img
  let regions ← addFreeMem A img regions
  checkOverlaps A regions
  initKip A img regions sections

end

end Ldr
end Wrmos
