import Wrmos.PagePool
import Wrmos.Region
import Wrmos.Lib.Span

/-!
# The hand-over of memory from sigma0 to alpha

`app/sigma0/main.cpp` takes the conventional memory of the kernel interface page into a list of
regions and serves requests for it; `get_memory_from_sigma0` of `app/alpha/main.cpp` asks for pages
of every size, the largest first, until there are none of the smallest, and puts them into the page
pool.

A message is received by one program as the other has sent it; a tag is reduced to what is read of
it.  The page faults of alpha reach sigma0 between the requests.
-/

namespace Wrmos

open Lib (ensure runAll Span)

/-- `Mem_desc_t`. -/
structure MemDesc where
  low : Nat
  heigh : Nat
  type : Nat
  typeExact : Nat
  deriving DecidableEq, Repr

namespace MemDesc

def conventional : Nat := 0x1
def bootloader : Nat := 0xe

variable (A : Arch) (d : MemDesc)

/-- The address and the size sigma0 reads from a descriptor. -/
def addr : Nat := d.low * 2 ^ 10 % 2 ^ A.wordBits
def size : Nat := A.sub ((d.heigh + 1) * 2 ^ 10 % 2 ^ A.wordBits) (d.addr A)

end MemDesc

/-- `Mem_region_t`. -/
structure MemRegion where
  addr : Nat
  size : Nat
  acc : Nat
  deriving DecidableEq, Repr

namespace MemRegion

variable (A : Arch) (r : MemRegion)

/-- `end`. -/
def endOf : Nat := A.add r.addr r.size

/-- `is_inside`. -/
def isInside (p : Nat) : Bool :=
  decide (r.addr ≤ Fpage.addr A p) &&
    decide (A.add (Fpage.addr A p) (Fpage.size A p) ≤ r.endOf A)

/-- `is_acc_fit`. -/
def isAccFit (acc : Nat) : Bool := acc &&& r.acc == acc

/-- `is_inside_acc`. -/
def isInsideAcc (p : Nat) : Bool := r.isInside A p && r.isAccFit (Fpage.access p)

end MemRegion

namespace Fpage

/-- `base`, by its bits. -/
def base (A : Arch) (fp : Nat) : Nat := fp / 2 ^ 10 % 2 ^ (A.wordBits - 10)

/-- The bits of the base `-1`. -/
def anyBase (A : Arch) : Nat := 2 ^ (A.wordBits - 10) - 1

/-- `base(-1)`. -/
def setAnyBase (A : Arch) (fp : Nat) : Nat := anyBase A * 2 ^ 10 + fp % 2 ^ 10

end Fpage

/-! ## sigma0 -/

/-- A message to sigma0: the protocol of its tag, its counts of words and the words that are
read. -/
inductive Sigma0Msg where
  | pagefault (untyped typed access addr inst : Nat)
  | sigma0 (untyped typed fpage attr : Nat)
  | other (tag : Nat)
  deriving DecidableEq, Repr

/-- `roottask_memory`, `conventional_memory` and `conv_mem_size`. -/
structure Sigma0 where
  roottaskMemory : List MemRegion
  conventionalMemory : List MemRegion
  convMemSize : Nat
  deriving DecidableEq, Repr

namespace Sigma0

/-- `mregions_t::push_back`, for a list of sixteen nodes. -/
def pushBack (l : List MemRegion) (r : MemRegion) : Except Stop (List MemRegion) := do
  ensure (l.length < 16) (.panic "list is full")
  pure (l ++ [r])

/-- The access to a section of the roottask; none for those of sigma0. -/
def roottaskAcc : Nat → Except Stop (Option Nat)
  | 0x1 | 0x2 | 0x3 => pure none
  | 0x4 => pure (some 5)
  | 0x5 => pure (some 4)
  | 0x6 => pure (some 6)
  | 0x7 => pure (some 5)
  | _ => .error (.panic "Unexpected value mem_desc.t")

/-- The loop body over the memory descriptors. -/
def addDesc (A : Arch) (s : Sigma0) (d : MemDesc) : Except Stop Sigma0 :=
  if d.type = MemDesc.bootloader then do
    match ← roottaskAcc d.typeExact with
    | none => pure s
    | some acc =>
      let l ← pushBack s.roottaskMemory ⟨d.addr A, d.size A, acc⟩
      pure { s with roottaskMemory := l }
  else if d.type = MemDesc.conventional then do
    let l ← pushBack s.conventionalMemory ⟨d.addr A, d.size A, 7⟩
    pure { s with conventionalMemory := l, convMemSize := A.add s.convMemSize (d.size A) }
  else pure s

/-- The memory sigma0 starts with. -/
def start (A : Arch) (ds : List MemDesc) : Except Stop Sigma0 := runAll (addDesc A) ⟨[], [], 0⟩ ds

section

variable (A : Arch) (req acc : Nat) (r : MemRegion)

def alignedVa : Nat := Region.roundUp A r.addr req
def diff : Nat := A.sub (alignedVa A req r) r.addr

/-- The two tests of the search: the region has an aligned page of the requested size and may be
accessed as requested. -/
def fits : Bool :=
  decide (req ≤ r.size) && r.isAccFit acc && decide (req ≤ A.sub r.size (diff A req r))

/-- Take the page out of the region that was found, which stands between `before` and `after`. -/
def take (before after : List MemRegion) : Except Stop (List MemRegion) :=
  if diff A req r = 0 ∧ r.size = req then
    pure (before ++ after)
  else if diff A req r = 0 then
    pure (before ++ ⟨A.add r.addr req, A.sub r.size req, r.acc⟩ :: after)
  else if r.endOf A = A.add (alignedVa A req r) req then
    pure (before ++ ⟨r.addr, A.sub r.size req, r.acc⟩ :: after)
  else
    pushBack (before ++ ⟨A.add (alignedVa A req r) req,
      A.sub (A.sub r.size (diff A req r)) req, r.acc⟩ :: after) ⟨r.addr, diff A req r, r.acc⟩

end

/-- A request of the sigma0 protocol: the flexpage to map. -/
def request (A : Arch) (s : Sigma0) (reqFpage : Nat) : Except Stop (Sigma0 × Nat) :=
  if Fpage.base A reqFpage ≠ Fpage.anyBase A then pure (s, reqFpage)
  else
    let req := Fpage.size A reqFpage
    let acc := Fpage.access reqFpage
    match s.conventionalMemory.span (fun r => !fits A req acc r) with
    | (_, []) => pure (s, Fpage.nil)
    | (before, r :: after) => do
      let mapFpage := Fpage.create A (alignedVa A req r) req acc
      ensure (mapFpage ≠ Fpage.nil) (.panic "Wrong fpage")
      let l ← take A req r before after
      pure ({ s with conventionalMemory := l, convMemSize := A.sub s.convMemSize req }, mapFpage)

/-- A page fault of the roottask: the flexpage to map. -/
def pagefault (A : Arch) (s : Sigma0) (access addr : Nat) : Except Stop Nat := do
  let fault := Fpage.create A (addr / pageSz * pageSz) pageSz access
  ensure (∃ r ∈ s.roottaskMemory, r.isInsideAcc A fault)
    (.panic "Rtsk pfault for unexpected addr or acc")
  pure fault

/-- One turn of the IPC loop: the flexpage of the map item that is sent back. -/
def handle (A : Arch) (s : Sigma0) : Sigma0Msg → Except Stop (Sigma0 × Nat)
  | .pagefault untyped typed access addr _ => do
    ensure (untyped = 2) (.assertion "tag.untyped() == 2")
    ensure (typed = 0) (.assertion "tag.typed() == 0")
    let fp ← s.pagefault A access addr
    pure (s, fp)
  | .sigma0 untyped typed fpage _ => do
    ensure (untyped = 2) (.assertion "tag.untyped() == 2")
    ensure (typed = 0) (.assertion "tag.typed() == 0")
    s.request A fpage
  | .other _ => .error (.panic "Sigma0 received unexpected msg")

end Sigma0

/-! ## alpha -/

/-- The state of `get_memory_from_sigma0`: the size it asks for, the pool it fills, and whether it
has left its loop. -/
structure Alpha where
  reqSize : Nat
  pool : PagePool
  stopped : Bool

namespace Alpha

def start : Alpha := ⟨0x80000000, .empty, false⟩

/-- The message of one turn of the loop. -/
def message (A : Arch) (a : Alpha) : Except Stop Sigma0Msg := do
  let reqFpage := Fpage.create A 0 a.reqSize 7
  ensure (reqFpage ≠ Fpage.nil) (.assertion "!req_fpage.is_nil()")
  pure (.sigma0 2 0 (Fpage.setAnyBase A reqFpage) 0)

/-- What the loop does with the map item it gets. -/
def receive (A : Arch) (a : Alpha) (word0 fpage : Nat) : Except Stop Alpha := do
  ensure (Item.isMap A word0) (.assertion "item->is_map_item()")
  ensure (¬ Fpage.isComplete A fpage) (.assertion "!fpage.is_complete()")
  if A.field A.wordBits 0 (A.wordBits - 10) word0 = 0 ∧ Fpage.isNil fpage then
    if a.reqSize = pageSz then pure { a with stopped := true }
    else pure { a with reqSize := a.reqSize / 2 }
  else do
    let pool ← a.pool.add A fpage
    pure { a with pool := pool }

end Alpha

/-! ## Both programs -/

/-- The two programs, and the pages sigma0 has granted to anonymous requests, the last one
first. -/
structure Handover where
  sigma0 : Sigma0
  alpha : Alpha
  granted : List Nat

namespace Handover

/-- What happens next: a turn of alpha's loop, a page fault of alpha, or its request for a given
page. -/
inductive Event where
  | round
  | pagefault (access addr inst : Nat)
  | ioMap (fpage attr : Nat)
  deriving DecidableEq, Repr

def start (A : Arch) (ds : List MemDesc) : Except Stop Handover := do
  let s ← Sigma0.start A ds
  pure ⟨s, .start, []⟩

/-- A turn of alpha's loop, with the turn of sigma0 that answers it. -/
def round (A : Arch) (w : Handover) : Except Stop Handover := do
  let m ← w.alpha.message A
  let (s, fp) ← w.sigma0.handle A m
  let a ← w.alpha.receive A (Item.mapWord0 A) fp
  pure ⟨s, a, if Fpage.isNil fp then w.granted else fp :: w.granted⟩

def step (A : Arch) (w : Handover) : Event → Except Stop Handover
  | .round => if w.alpha.stopped then pure w else w.round A
  | .pagefault access addr inst => do
    let (s, _) ← w.sigma0.handle A (.pagefault 2 0 access addr inst)
    pure { w with sigma0 := s }
  | .ioMap fpage attr => do
    ensure (Fpage.base A fpage ≠ Fpage.anyBase A) (.assertion "anonymous request")
    let (s, _) ← w.sigma0.handle A (.sigma0 2 0 fpage attr)
    pure { w with sigma0 := s }

end Handover

end Wrmos
