import Wrmos.Aspace

/-!
# Handing over memory by message

Two paths of `ipc.cpp` put memory of one address space into another: the map and grant items of
`do_normal_ipc`, and the reply of a pager to a page fault in `do_ipc`.  Both look the send flexpage up
in the page tables of the sender (`Aspace::walk`), take the one physical address the walk returns, map
the receiver's window to it as one block, and, for a grant item, unmap something from the *receiver*.
The memory part of each is a function here; `do_ipc` calls them.
-/

namespace Wrmos

open Lib (ensure)

/-- Where the receiver of a map item gets it: `dst_va`, `dst_sz`, `dst_acc` and the item that is put
into its message registers. -/
structure Window where
  va : Nat
  sz : Nat
  acc : Nat
  item : Nat × Nat
  deriving DecidableEq, Repr

/-- The receive window of `do_normal_ipc` for the item `(w0, fp)`. -/
def rcvWindow (A : Arch) (w0 fp acceptor : Nat) : Except Stop Window :=
  if Fpage.isNil acceptor then .error (.panic "Rcv.acceptor is nil page, IMPLEMENT ME.")
  else if Fpage.isComplete A acceptor then
    .ok ⟨Fpage.addr A fp, Fpage.size A fp, Fpage.access fp, w0, fp⟩
  else if Fpage.size A acceptor ≠ Fpage.size A fp then
    .error (.panic "Rcv.acceptor.sz != snd_fpage.sz, IMPLEMENT ME.")
  else
    -- `res_item.set(fpage)` makes a map item of it, also when a grant item was sent
    .ok ⟨Fpage.addr A acceptor, Fpage.size A acceptor, Fpage.access fp, Item.mapWord0 A,
      Fpage.create A (Fpage.addr A acceptor) (Fpage.size A acceptor) (Fpage.access fp)⟩

namespace Mem

/-- The memory part of a map or grant item of `do_normal_ipc`, once the sender's region is known to be
`cached`: walk, map, and for a grant item `rcv->task()->unmap(snd_fpage.addr(), snd_fpage.addr())`. -/
def mapItem (A : Arch) (m : Mem) (snd rcv w0 fp acceptor cached : Nat) :
    Except Stop (Mem × Window) := do
  let pa ← m.walk A snd (Fpage.addr A fp) (Fpage.size A fp)
  ensure (pa ≠ 0) (.assertion "pa")
  let win ← rcvWindow A w0 fp acceptor
  let m ← m.map A rcv win.va pa win.sz (uacc win.acc) cached
  let m ← if Item.isGrant A w0 then m.unmap A rcv (Fpage.addr A fp) (Fpage.addr A fp) else pure m
  pure (m, win)

/-- The memory part of a page-fault reply in `do_ipc`: the window is at the page of the fault, and a
grant item ends with `dst->task()->unmap(fpage.addr(), fpage.size())`.  `sigma0` is `cur.id() == 1`. -/
def pfReplyItem (A : Arch) (m : Mem) (cur dst : Nat) (sigma0 : Bool) (w0 fp pfAddr : Nat) :
    Except Stop Mem := do
  let pa ← m.walk A cur (Fpage.addr A fp) (Fpage.size A fp)
  ensure (pa ≠ 0) (.assertion "pa")
  ensure (sigma0 = false ∨ pa = Fpage.addr A fp)
    (.assertion "cur.id() != 1/*sigma0*/  ||  pa == fpage.addr()")
  let m ← m.map A dst (pfAddr / pageSz * pageSz) pa (Fpage.size A fp) (uacc (Fpage.access fp)) 1
  if Item.isGrant A w0 then m.unmap A dst (Fpage.addr A fp) (Fpage.size A fp) else pure m

/-- A map or grant item of `do_normal_ipc` for memory that the sender has: the item is carried out.
For memory it does not have (`cached` is negative) a page fault is raised in its name. -/
def ownItem (A : Arch) (m : Mem) (snd rcv w0 fp acceptor : Nat) :
    Option (Except Stop (Mem × Window)) :=
  (m.cached A snd fp).map fun cached => m.mapItem A snd rcv w0 fp acceptor cached

/-- A page-fault reply with memory that the pager has. -/
def ownReply (A : Arch) (m : Mem) (cur dst : Nat) (sigma0 : Bool) (w0 fp pfAddr : Nat) :
    Option (Except Stop Mem) :=
  if m.isInsideAcc A cur fp then some (m.pfReplyItem A cur dst sigma0 w0 fp pfAddr) else none

/-- The state in which no task has memory of its own: the roots are those of the constructor of
`Pgtab`. -/
def fresh (A : Arch) (kern : Cells) (kspace : List (Desc AccType)) : Mem :=
  ⟨kern, kspace, fun _ => ⟨A.freshRoot, []⟩⟩

/-- A map or grant item on its way: who sends it to whom, its two words and the acceptor it meets. -/
structure Handover where
  snd : Nat
  rcv : Nat
  w0 : Nat
  fp : Nat
  acceptor : Nat
  deriving DecidableEq, Repr

/-- Carry out items one after another; `none` when one of them is not the sender's to give or stops
the kernel. -/
def ownItems (A : Arch) : Mem → List Handover → Option Mem
  | m, [] => some m
  | m, h :: hs =>
    match m.ownItem A h.snd h.rcv h.w0 h.fp h.acceptor with
    | some (.ok (m', _)) => m'.ownItems A hs
    | _ => none

/-- A state to start from: one megabyte belongs to task 1, and nothing to any other. -/
def started (A : Arch) : Mem :=
  match (fresh A Cells.empty []).map A 1 0x40000000 0x40000000 0x100000 Acc.urwx 1 with
  | .ok m => m
  | .error _ => fresh A Cells.empty []

end Mem

end Wrmos
