import Wrmos.Arch
import Mathlib.Data.List.Basic

/-!
# ELF files

`lib/elfloader/elfloader.cpp`: `elf_check` looks at the header of an ELF file, `elf_foreach` calls one
function for each section header and one for each program header, and `load_elf_phdr` of `ldr/main.cpp`
is the function by which the boot loader copies the segments.

An image is the memory from its first byte on, so that what is read behind its end is some byte as well;
offsets are those of addresses, and wrap with them.  The structures of the two formats differ in the size
of a word and in the place of a flag: their fields are at multiples of that size.  `to_host` swaps the
bytes of a field when the byte order of the file is not that of the machine, so a field is read in the
order of the file.

What is read is a list: runs of bytes, and strings that are read up to their end.  The functions that
`elf_foreach` calls are taken to return.
-/

namespace Wrmos
namespace Elf

/-- An image in memory: its address, and the bytes from there on. -/
structure Image where
  addr : Nat
  byte : Nat → UInt8

/-- The sizes of a format: a word, the header, a section header and a program header. -/
structure Fmt where
  word : Nat
  ehSize : Nat
  shSize : Nat
  phSize : Nat
  deriving DecidableEq, Repr

/-- `Elf_hdr32_t`, `Elf_shdr32_t` and `Elf_phdr32_t`. -/
def fmt32 : Fmt := ⟨4, 52, 40, 32⟩

/-- `Elf_hdr64_t`, `Elf_shdr64_t` and `Elf_phdr64_t`. -/
def fmt64 : Fmt := ⟨8, 64, 64, 56⟩

namespace Image

variable (A : Arch) (img : Image)

/-- The byte at an offset. -/
def at' (o : Nat) : UInt8 := img.byte (o % 2 ^ A.wordBits)

/-- `n` bytes from an offset on, the lowest first and the highest first. -/
def le (o : Nat) : Nat → Nat
  | 0 => 0
  | n + 1 => (img.at' A o).toNat + 256 * le (o + 1) n

def be (o : Nat) : Nat → Nat
  | 0 => 0
  | n + 1 => be o n * 256 + (img.at' A (o + n)).toNat

/-- `ident.format` and `ident.endian`. -/
def format : Nat := (img.at' A 4).toNat
def endian : Nat := (img.at' A 5).toNat

/-- A field of `n` bytes, in the order of the file. -/
def field (o n : Nat) : Nat := if img.endian A = 2 then img.be A o n else img.le A o n

/-- The format of the file. -/
def fmt : Fmt := if img.format A = 1 then fmt32 else fmt64

end Image

/-! ## Headers -/

/-- The fields of the header that are used. -/
structure Ehdr where
  entry : Nat
  phoff : Nat
  shoff : Nat
  ehsize : Nat
  phentsize : Nat
  phnum : Nat
  shentsize : Nat
  shnum : Nat
  shstrndx : Nat
  deriving DecidableEq, Repr

/-- The fields of a section header that are used. -/
structure Shdr where
  name : Nat
  type : Nat
  flags : Nat
  addr : Nat
  offset : Nat
  size : Nat
  deriving DecidableEq, Repr

/-- The fields of a program header that are used. -/
structure Phdr where
  type : Nat
  offset : Nat
  vaddr : Nat
  paddr : Nat
  memsz : Nat
  deriving DecidableEq, Repr

section

variable (A : Arch) (img : Image) (F : Fmt)

/-- `to_host_hdr`. -/
def ehdr : Ehdr where
  entry := img.field A 24 F.word
  phoff := img.field A (24 + F.word) F.word
  shoff := img.field A (24 + 2 * F.word) F.word
  ehsize := img.field A (28 + 3 * F.word) 2
  phentsize := img.field A (30 + 3 * F.word) 2
  phnum := img.field A (32 + 3 * F.word) 2
  shentsize := img.field A (34 + 3 * F.word) 2
  shnum := img.field A (36 + 3 * F.word) 2
  shstrndx := img.field A (38 + 3 * F.word) 2

/-- `to_host_shdr` of the structure at an offset. -/
def shdr (o : Nat) : Shdr where
  name := img.field A o 4
  type := img.field A (o + 4) 4
  flags := img.field A (o + 8) F.word
  addr := img.field A (o + 8 + F.word) F.word
  offset := img.field A (o + 8 + 2 * F.word) F.word
  size := img.field A (o + 8 + 3 * F.word) F.word

/-- `to_host_phdr` of the structure at an offset. -/
def phdr (o : Nat) : Phdr where
  type := img.field A o 4
  offset := img.field A (o + F.word) F.word
  vaddr := img.field A (o + 2 * F.word) F.word
  paddr := img.field A (o + 3 * F.word) F.word
  memsz := img.field A (o + 5 * F.word) F.word

/-- The checks of `elf_check` that are made for both formats; `code` is the first of their codes. -/
def checkHdr (sz code : Nat) : Nat :=
  let h := ehdr A img F
  let shend := (h.shoff + h.shnum * h.shentsize) % 2 ^ 32
  if h.ehsize ≠ F.ehSize then code
  else if sz < shend then code + 1
  else if h.shentsize ≠ F.shSize then code + 2
  else if h.shnum ≤ h.shstrndx then code + 3
  else if h.phentsize ≠ F.phSize then code + 4
  else 0

end

/-- The magic number. -/
def isMagic (A : Arch) (img : Image) : Bool :=
  img.at' A 0 == 0x7f && img.at' A 1 == 0x45 && img.at' A 2 == 0x4c && img.at' A 3 == 0x46

/-- `elf_check`.  The size is an `unsigned`. -/
def elfCheck (A : Arch) (img : Image) (sz : Nat) : Nat :=
  let sz := sz % 2 ^ 32
  if sz < fmt32.ehSize then 1
  else if img.addr % 4 ≠ 0 then 2
  else if isMagic A img = false then 3
  else if img.format A ≠ 1 ∧ img.format A ≠ 2 then 4
  else if img.endian A ≠ 1 ∧ img.endian A ≠ 2 then 5
  else if img.format A = 1 then checkHdr A img fmt32 sz 6
  else if sz < fmt64.ehSize then 11
  else checkHdr A img fmt64 sz 12

/-! ## The loops over the headers -/

/-- What is read: a run of bytes, or a string with its end. -/
inductive Access where
  | bytes (off len : Nat)
  | str (off : Nat)
  deriving DecidableEq, Repr

/-- The arguments for a section, the name as an offset. -/
structure ShCall where
  addr : Nat
  size : Nat
  access : Nat
  name : Nat
  isProgbitsOrNobits : Bool
  deriving DecidableEq, Repr

/-- The arguments for a segment, the location as an offset. -/
structure PhCall where
  vaddr : Nat
  paddr : Nat
  memsz : Nat
  location : Nat
  isLoad : Bool
  deriving DecidableEq, Repr

/-- `sflags2acc`. -/
def sflags2acc (flags : Nat) : Nat :=
  (if flags.testBit 0 then 2 else 0) ||| (if flags.testBit 1 then 4 else 0) |||
    (if flags.testBit 2 then 1 else 0)

section

variable (A : Arch) (img : Image) (F : Fmt)

/-- Where the section header with the names is, and its field for the offset of the names. -/
def strHdr : Nat := (ehdr A img F).shoff + (ehdr A img F).shstrndx * (ehdr A img F).shentsize
def strOffset : Nat := strHdr A img F + 8 + 2 * F.word

/-- The string table. -/
def strTb : Nat := img.field A (strOffset A img F) F.word

/-- Where the headers are. -/
def shdrOff (i : Nat) : Nat := (ehdr A img F).shoff + i * (ehdr A img F).shentsize
def phdrOff (i : Nat) : Nat := (ehdr A img F).phoff + i * (ehdr A img F).phentsize

/-- The arguments of `sh_func` for a section. -/
def shCall (i : Nat) : ShCall :=
  let sh := shdr A img F (shdrOff A img F i)
  ⟨sh.addr % 2 ^ A.wordBits, sh.size % 2 ^ A.wordBits, sflags2acc (sh.flags % 2 ^ 32),
    strTb A img F + sh.name, sh.type == 1 || sh.type == 8⟩

/-- The arguments of `ph_func` for a segment. -/
def phCall (i : Nat) : PhCall :=
  let ph := phdr A img F (phdrOff A img F i)
  ⟨ph.vaddr % 2 ^ A.wordBits, ph.paddr % 2 ^ A.wordBits, ph.memsz % 2 ^ A.wordBits, ph.offset,
    ph.type == 1⟩

/-- The loop over the section headers. -/
def shLoop (shFunc : ShCall → List Access) : Nat → Nat → List Access
  | 0, _ => []
  | n + 1, i =>
    .bytes (shdrOff A img F i) F.shSize :: shFunc (shCall A img F i) ++ shLoop shFunc n (i + 1)

/-- The loop over the program headers. -/
def phLoop (phFunc : PhCall → List Access) : Nat → Nat → List Access
  | 0, _ => []
  | n + 1, i =>
    .bytes (phdrOff A img F i) F.phSize :: phFunc (phCall A img F i) ++ phLoop phFunc n (i + 1)

/-- `foreach`. -/
def foreach (shFunc : Option (ShCall → List Access)) (phFunc : Option (PhCall → List Access)) :
    List Access :=
  .bytes 0 F.ehSize ::
    ((match shFunc with
      | none => []
      | some f => .bytes (strOffset A img F) F.word :: shLoop A img F f (ehdr A img F).shnum 0) ++
      match phFunc with
      | none => []
      | some f => phLoop A img F f (ehdr A img F).phnum 0)

end

/-- `elf_foreach`: the error code, or what is read of the file.  Of one that is refused only the header
is read. -/
def elfForeach (A : Arch) (img : Image) (sz : Nat) (shFunc : Option (ShCall → List Access))
    (phFunc : Option (PhCall → List Access)) : Except Nat (List Access) :=
  let rc := elfCheck A img sz
  if rc ≠ 0 then .error (100 + rc) else .ok (foreach A img (img.fmt A) shFunc phFunc)

/-! ## The functions of the boot loader -/

/-- What `process_elf_shdr` reads: it prints the name. -/
def processElfShdr (c : ShCall) : List Access := [.str c.name]

/-- What `load_elf_phdr` reads: it copies the segment. -/
def loadElfPhdr (c : PhCall) : List Access := if c.isLoad then [.bytes c.location c.memsz] else []

end Elf
end Wrmos
