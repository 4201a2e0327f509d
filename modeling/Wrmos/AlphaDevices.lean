import Wrmos.AlphaApps
import Wrmos.AlphaParse
import Wrmos.IoFault

/-!
# Requests for devices, interrupts and named memory

`process_map_io`, `process_attach_detach_int` and `process_named_memory_request` of `app/alpha/main.cpp`: a
thread asks for a device or for a memory by its name, and gets it if the entry of its application in the
configuration has the name.

The name is a string in the array into which the loop of alpha copies the message registers: behind the words
of the message there is what was on the stack.  Each handler walks along the applications, the devices of the
board and the names of the entry, and a walk ends at an entry with an empty name.  The messages of the log are
left out, and so is a reply that cannot be delivered, which stops alpha.
-/

namespace Wrmos

namespace AlphaConfig.IoDevice

variable (d : IoDevice)

/-- `iomem_addr`: the address without its low bits, which are those of the device's ports. -/
def iomemAddr : Nat := d.pa - d.pa % 0x1000

/-- `iomem_sz`. -/
def iomemSz : Nat := d.sz - d.sz % 0x10

/-- `iomem_end`, a `paddr_t`. -/
def iomemEnd : Nat := (d.iomemAddr + d.iomemSz) % 2 ^ 64

end AlphaConfig.IoDevice

namespace AlphaDevices

open Lib (ensure)
open AlphaConfig

/-- The requests. -/
inductive Kind where
  | mapIo
  | attachInt
  | detachInt
  | namedMem
  deriving DecidableEq, Repr

/-- `Wrm_ipc_map_io` to `Wrm_ipc_get_named_mem`. -/
def Kind.label : Kind → Nat
  | .mapIo => 1
  | .attachInt => 2
  | .detachInt => 3
  | .namedMem => 5

/-- A request: the sender, the numbers of words of its message, and the bytes of the array `mr` from the
second word on. -/
structure Request where
  sender : Nat
  untyped : Nat
  typed : Nat
  mr : List UInt8
  deriving DecidableEq, Repr

/-- The registers of a reply, and the system calls before it. -/
structure Answer where
  calls : List KCall
  reply : List Nat
  deriving DecidableEq, Repr

/-- `Named_region_t`: a region of the configuration, and where it is. -/
structure NamedRegion where
  region : MemoryRegion
  locations : List Nat
  deriving DecidableEq, Repr

/-- `Dev_name_words_max` and `Mem_name_words_max`. -/
def nameWordsMax : Nat := 8

/-- `Dev_name_len_max` and `Mem_name_len_max`. -/
def nameLenMax (A : Arch) : Nat := nameWordsMax * (A.wordBits / 8)

section

variable (A : Arch) (proj : ProjConfig) (userBase : Nat)

/-- `!strncmp(name, dev_name, Dev_name_len_max)`. -/
def sameName (name : Name) (mr : List UInt8) : Bool := strncmp name mr (nameLenMax A) == 0

/-! ## The searches -/

/-- The loop over the devices of the board. -/
def findDevice (mr : List UInt8) : List IoDevice → Except Fault (Option IoDevice)
  | [] => .error (.beyond "devices")
  | dev :: rest =>
    if sameName A dev.name mr then .ok (some dev)
    else
      match rest with
      | [] => .error (.beyond "devices")
      | next :: _ => if isEmpty next.name then .ok none else findDevice mr rest

/-- The loop over the names of an application's entry. -/
def hasName (table : String) (mr : List UInt8) : List Name → Except Fault Bool
  | [] => .error (.beyond table)
  | name :: rest =>
    if isEmpty name then .ok false
    else if sameName A name mr then .ok true
    else hasName table mr rest

/-- The searches at the head of `process_map_io` and, once more, of `process_attach_detach_int`: the device,
or the error code. -/
def searchDevice (r : Request) : Except Fault (Except Nat IoDevice) := do
  match ← IoFault.findApp (Thrid.number A r.sender) (userBase + 2) proj.apps with
  | none => pure (.error 1)
  | some cfg =>
    match ← findDevice A r.mr proj.devices with
    | none => pure (.error 2)
    | some dev =>
      if ← hasName A "devs" r.mr cfg.devs then pure (.ok dev) else pure (.error 3)

/-- `Named_memory_regions_t::location`, with the region that was found. -/
def location (regions : List NamedRegion) (mr : List UInt8) : Option (MemoryRegion × Nat) :=
  (regions.find? fun it => IoFault.sameName mr it.region.name).map fun it =>
    (it.region, it.locations.headD Fpage.nil)

/-! ## The handlers -/

/-- The assertions at the head of the handlers. -/
def checkTag (words : String) (r : Request) : Except Fault Unit := do
  ensure (r.untyped ≤ nameWordsMax) (.assertion words)
  ensure (r.typed = 0) (.assertion "tag.typed() == 0")

/-- The reply with an error code. -/
def refusal (kind : Kind) (code : Nat) : Answer := ⟨[], [Tag.setIpc A kind.label 1 0, code]⟩

/-- `round_pg_down` of a `paddr_t`. -/
def roundPgDown (pa : Nat) : Nat := pa - pa % pageSz

/-- `map_sz`, a `size_t`. -/
def mapSz (dev : IoDevice) : Nat :=
  let last := roundPgDown ((dev.iomemEnd + 2 ^ 64 - 1) % 2 ^ 64)
  (last + 2 ^ 64 - roundPgDown dev.iomemAddr + pageSz) % 2 ^ 64 % 2 ^ A.wordBits

/-- The reply of `process_map_io` with the memory and the ports of a device. -/
def mapDevice (dev : IoDevice) : Except Fault Answer := do
  let iomem :=
    if dev.iomemSz ≠ 0 then
      Fpage.create A (roundPgDown dev.iomemAddr % 2 ^ A.wordBits) (mapSz A dev) 6
    else Fpage.nil
  ensure (dev.iomemSz ≠ 0 → Fpage.isNil iomem = false) (.assertion "!iomem.is_nil()")
  let ioport := if dev.ioportSz ≠ 0 then Fpage.createIo A dev.ioportAddr dev.ioportSz else Fpage.nil
  ensure (dev.ioportSz ≠ 0 → Fpage.isNil ioport = false) (.assertion "!ioport.is_nil()")
  pure ⟨[], [Tag.setIpc A Kind.mapIo.label 2 4,
    if dev.iomemSz ≠ 0 then dev.pa % pageSz else 0, dev.iomemSz % 2 ^ A.wordBits,
    Item.mapWord0 A, iomem, Item.mapWord0 A, ioport]⟩

/-- `process_map_io`. -/
def processMapIo (r : Request) : Except Fault Answer := do
  checkTag "tag.untyped() <= Dev_name_words_max" r
  match ← searchDevice A proj userBase r with
  | .error ecode => pure (refusal A .mapIo ecode)
  | .ok dev => mapDevice A dev

/-- The call that makes a thread the handler of an interrupt, or none. -/
def irqCall (action : Kind) (sender : Nat) (dev : IoDevice) : KCall :=
  .threadControl (Thrid.createIrq A dev.irq) Thrid.nil Thrid.nil
    (if action = .attachInt then sender else Thrid.nil) 0

/-- The answer of `process_attach_detach_int` when the device is found; `krn` is what the kernel returns. -/
def setHandler (krn : KCall → Nat) (action : Kind) (sender : Nat) (dev : IoDevice) : Answer :=
  let call := irqCall A action sender dev
  ⟨[call], [Tag.setIpc A action.label 1 0, if krn call ≠ 0 then 2 ^ A.wordBits - 4 else dev.irq]⟩

/-- `process_attach_detach_int`: an error code is sent as its negative. -/
def processAttachDetachInt (krn : KCall → Nat) (action : Kind) (r : Request) : Except Fault Answer := do
  checkTag "tag.untyped() <= Dev_name_words_max" r
  match ← searchDevice A proj userBase r with
  | .error ecode => pure (refusal A action (2 ^ A.wordBits - ecode))
  | .ok dev => pure (setHandler A krn action r.sender dev)

/-- The reply of `process_named_memory_request` with a memory. -/
def mapMemory (region : MemoryRegion) (fpage : Nat) : Answer :=
  ⟨[], [Tag.setIpc A Kind.namedMem.label 4 2, 0, Fpage.addr A fpage, region.cached.toNat, region.contig.toNat,
    Item.mapWord0 A, fpage]⟩

/-- `process_named_memory_request`. -/
def processNamedMemory (regions : List NamedRegion) (r : Request) : Except Fault Answer := do
  checkTag "tag.untyped() <= Mem_name_words_max" r
  match ← IoFault.findApp (Thrid.number A r.sender) (userBase + 2) proj.apps with
  | none => pure (refusal A .namedMem 1)
  | some cfg =>
    if ← hasName A "mems" r.mr cfg.mems then
      match location regions r.mr with
      | none => pure (refusal A .namedMem 2)
      | some (region, fpage) =>
        if Fpage.isNil fpage then pure (refusal A .namedMem 2) else pure (mapMemory A region fpage)
    else pure (refusal A .namedMem 3)

/-- The handler of a request. -/
def serve (regions : List NamedRegion) (krn : KCall → Nat) (kind : Kind) (r : Request) :
    Except Fault Answer :=
  match kind with
  | .mapIo => processMapIo A proj userBase r
  | .attachInt => processAttachDetachInt A proj userBase krn .attachInt r
  | .detachInt => processAttachDetachInt A proj userBase krn .detachInt r
  | .namedMem => processNamedMemory A proj userBase regions r

end

end AlphaDevices
end Wrmos
