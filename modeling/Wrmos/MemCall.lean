import Wrmos.MapItem

/-!
# System calls that reach memory

Besides the items of `MapItem`, two things a user can ask for reach the page tables: `Unmap` with its
flexpages, and a string item whose buffer lies in another address space.  An architecture that cannot
copy to physical addresses maps the receiver's page at a free page of the kernel heap for the time of
the copy.

`MemCall` is what the system calls of user threads do to memory, one map or unmap at a time:
`syscall_unmap` and `do_ipc` are sequences of them, with arguments the user is free to choose.
-/

namespace Wrmos

open Lib (ensure)

/-- `Proc::is_phys_copy_supported`. -/
def Arch.physCopy (A : Arch) : Bool := A = .sparc

/-- `Kheap_va`: behind the kernel's memory, its devices, the UTCBs and the stacks, with a guard page
after each.  `kioSz` is `Kio_sz`, which comes from the platform. -/
def kheapVa (A : Arch) (kioSz : Nat) : Nat :=
  A.krnVaddr + 0x400000 + pageSz + kioSz + pageSz + 128 * pageSz + pageSz +
    128 * (2 * pageSz + pageSz) + pageSz

/-- `Kheap_sz`. -/
def kheapSz : Nat := 0x100000

namespace Mem

/-! ## Copying a string item -/

/-- `alloc_kspace`. -/
def allocKspace (A : Arch) (kioSz : Nat) (m : Mem) (sz : Nat) : Except Stop (Mem × Nat) := do
  ensure (sz % pageSz = 0) (.assertion "is_aligned(sz, Cfg_page_sz)")
  ensure (sz ≠ 0) (.assertion "sz")
  let r ← Region.alloc A aspaceRoom m.kspace sz pageSz ⟨Acc.kdata, true⟩ .notCombine
    (kheapVa A kioSz) kheapSz
  ensure (r.2 ≠ 0) (.assertion "va")
  pure ({ m with kspace := r.1 }, r.2)

/-- `free_kspace`. -/
def freeKspace (A : Arch) (m : Mem) (va sz : Nat) : Except Stop Mem := do
  let l ← Region.free A aspaceRoom m.kspace va sz
  pure { m with kspace := l }

/-- `memcpy_phys_dst` for the address space `cur`, without the bytes. -/
def memcpyPhysDst (A : Arch) (kioSz : Nat) (m : Mem) (cur dstPa len : Nat) : Except Stop Mem :=
  if A.physCopy then .ok m
  else do
    let sz := A.sub (Region.roundUp A (A.add dstPa len) pageSz) (dstPa / pageSz * pageSz)
    let r ← m.allocKspace A kioSz sz
    let m ← r.1.map A cur r.2 (dstPa / pageSz * pageSz) sz Acc.kdata 1
    let m ← m.unmap A cur r.2 sz
    m.freeKspace A r.2 sz

/-- `copy_thread_buf` between the tasks `snd` and `rcv`, one of which is the current one, without the
bytes. -/
def copyThreadBuf (A : Arch) (kioSz : Nat) (m : Mem) (cur snd rcv src dst len : Nat) :
    Except Stop Mem :=
  if len = 0 then .ok m
  else if snd = rcv then do
    ensure (snd = cur) (.assertion "snd->task() == Sched_t::current()->task()")
    pure m
  else if snd = cur then do
    ensure (dst / pageSz = A.add dst (len - 1) / pageSz)
      (.panic "TODO:  remote dst aspace is page crossed - process it.")
    let pa ← m.walk A rcv (dst / pageSz * pageSz) (Region.roundUp A len pageSz)
    ensure (pa ≠ 0) (.assertion "dst_pa")
    m.memcpyPhysDst A kioSz cur (A.add pa (dst % pageSz)) len
  else do
    ensure (rcv = cur) (.assertion "rcv->task() == Sched_t::current()->task()")
    ensure (src / pageSz = A.add src (len - 1) / pageSz)
      (.panic "TODO:  remote src aspace is page crossed - process it.")
    let pa ← m.walk A snd (src / pageSz * pageSz) (Region.roundUp A len pageSz)
    ensure (pa ≠ 0) (.assertion "src_pa")
    ensure (A.physCopy = true) (.panic "memcpy_phys_src: IMPLME")
    pure m

/-! ## Unmapping -/

/-- `remap_user_utcb`: `utcbs` are `kutcb()` and `uutcb()` of the threads of the task. -/
def remapUserUtcb (A : Arch) (t : Nat) : List (Nat × Nat) → Mem → Except Stop Mem
  | [], m => .ok m
  | (kutcb, uutcb) :: rest, m => do
    let pa ← m.walk A t kutcb pageSz
    let m ← m.map A t uutcb pa pageSz Acc.utcb 1
    m.remapUserUtcb A t rest

/-- One flexpage of `syscall_unmap`. -/
def unmapFpage (A : Arch) (m : Mem) (t fp : Nat) (utcbs : List (Nat × Nat)) : Except Stop Mem :=
  if Fpage.isIo fp then .error (.panic "IMPLME:  unmap IO ports.")
  else if Fpage.isComplete A fp then do
    let m ← m.unmap A t 0 0xf0000000
    m.remapUserUtcb A t utcbs
  else if Fpage.isNil fp then .ok m
  else m.unmap A t (Fpage.addr A fp) (Fpage.size A fp)

/-! ## Runs -/

/-- What a system call of a user thread does to memory.  Tasks stand for threads: the address space of
the sender, of the receiver, of the pager, of the caller. -/
inductive MemCall where
  /-- A map or grant item of a message. -/
  | item (h : Handover)
  /-- A map or grant item in the reply to a page fault at `pfAddr`. -/
  | reply (cur dst : Nat) (sigma0 : Bool) (w0 fp pfAddr : Nat)
  /-- A string item: the two words of the item and of the buffer it goes to. -/
  | string (cur snd rcv w0 src b0 dst : Nat)
  /-- A flexpage that is unmapped. -/
  | unmap (t fp : Nat) (utcbs : List (Nat × Nat))
  deriving DecidableEq, Repr

/-- Carry out a call.  An item for memory that its sender does not have raises a page fault and does
nothing. -/
def memCall (A : Arch) (kioSz : Nat) (m : Mem) : MemCall → Except Stop Mem
  | .item h =>
    match m.ownItem A h.snd h.rcv h.w0 h.fp h.acceptor with
    | some r => r.map Prod.fst
    | none => .ok m
  | .reply cur dst sigma0 w0 fp pfAddr =>
    match m.ownReply A cur dst sigma0 w0 fp pfAddr with
    | some r => r
    | none => .ok m
  | .string cur snd rcv w0 src b0 dst =>
    m.copyThreadBuf A kioSz cur snd rcv src dst (min (Item.length A w0) (Item.length A b0))
  | .unmap t fp utcbs => m.unmapFpage A t fp utcbs

end Mem

end Wrmos
