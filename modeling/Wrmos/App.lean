import Wrmos.PagePool
import Wrmos.Region

/-!
# The memory regions of an application

`App_t` of `lib/wrmos/src/app.cpp`, by which alpha keeps the address spaces of the applications it
started: a list of regions of the remote address space, each with its access and, once it has
memory, its location in alpha.  `add_vspace` and `add_location` add regions, `get_location` answers
a page fault and cuts the region of the fault into smaller ones when it gives it memory, and
`process_usual_memory_request` of `app/alpha/main.cpp` adds the memory an application asks for.

The list takes its nodes from pages of the page pool; `nodes` counts the free ones.  Calls of
`l4_kdb` stop the run.
-/

namespace Wrmos

open Lib (ensure)

/-- `App_t::region_t`. -/
structure AppRegion where
  remote : Nat
  sz : Nat
  acc : Nat
  loc : Nat
  localOrigin : Nat
  deriving DecidableEq, Repr

/-- `remote_end`. -/
def AppRegion.remoteEnd (A : Arch) (r : AppRegion) : Nat := A.add r.remote r.sz

/-- The regions of an application, the free nodes of their list, the rest of its heap and the page
pool of alpha. -/
structure App where
  regions : List AppRegion
  nodes : Nat
  heapSz : Nat
  pool : PagePool

namespace App

variable (A : Arch)

/-- `round_pg_down` and `round_pg_up`. -/
def roundPgDown (n : Nat) : Nat := n / pageSz * pageSz
def roundPgUp (n : Nat) : Nat := Region.roundUp A n pageSz

/-- `regions_t::Item_size`: two links and a region. -/
def itemSize : Nat := 7 * (A.wordBits / 8)

/-- `region_list_malloc` when there is no free node. -/
def checkForAlloc (s : App) : Except Stop App :=
  if s.nodes = 0 then do
    let (pool, fp) ← s.pool.alloc A pageSz
    ensure (fp ≠ Fpage.nil) (.assertion "!fpage.is_nil()")
    pure { s with nodes := pageSz / itemSize A, pool := pool }
  else pure s

/-- Take a node of the list. -/
def takeNode (s : App) : Except Stop App := do
  let s ← s.checkForAlloc A
  pure { s with nodes := s.nodes - 1 }

/-- `push_back`. -/
def pushBack (s : App) (r : AppRegion) : Except Stop App := do
  let s ← s.takeNode A
  pure { s with regions := s.regions ++ [r] }

/-- The test of `find`: the region contains `[va, va + sz)` and has the access. -/
def contents (va sz acc : Nat) (it : AppRegion) : Bool :=
  decide (it.remote ≤ va) && decide (A.add va sz ≤ it.remoteEnd A) && acc == acc &&& it.acc

/-- `find`: the regions before the one found, and those from it on. -/
def find (s : App) (va sz acc : Nat) : List AppRegion × List AppRegion :=
  s.regions.span fun it => !contents A va sz acc it

/-- `add_vspace`. -/
def addVspace (s : App) (va sz acc : Nat) : Except Stop App := do
  ensure (va ≠ 0) (.assertion "rem_va")
  ensure (acc ≠ 0) (.assertion "acc")
  if sz = 0 then pure s
  else do
    ensure ((s.find A va sz 0).2 = [])
      (.panic "Attempt to add region for app, but region cross existing region.")
    s.pushBack A ⟨va, sz, acc, 0, 0⟩

/-- `add_vspace` of a flexpage. -/
def addVspaceFpage (s : App) (fp : Nat) : Except Stop App :=
  s.addVspace A (Fpage.addr A fp) (Fpage.size A fp) (Fpage.access fp)

/-- `add_location`, with its error code. -/
def addLocation (s : App) (va fp : Nat) : Except Stop (App × Int) :=
  if (s.find A va (Fpage.size A fp) 0).2 ≠ [] then pure (s, -1)
  else do
    let s ← s.pushBack A ⟨va, Fpage.size A fp, Fpage.access fp, Fpage.addr A fp, 0⟩
    pure (s, 0)

/-- The sizes `split_to_smaller_regions` computes: what is cut off before the pages of
`[va, va + sz)`, those pages, and what is cut off after them. -/
def sizes (reg : AppRegion) (va sz : Nat) : Nat × Nat × Nat :=
  let before := A.sub (roundPgDown va) reg.remote
  let tailsInCommonPg :=
    roundPgDown (A.sub (A.add va sz) 1) = roundPgDown (A.sub (reg.remoteEnd A) 1)
  let after :=
    if tailsInCommonPg then 0 else A.sub (reg.remoteEnd A) (roundPgUp A (A.add va sz))
  (before, A.sub (A.sub reg.sz before) after, after)

/-- `local_origin` moved on, where there is one. -/
def originAt (reg : AppRegion) (n : Nat) : Nat :=
  if reg.localOrigin = 0 then 0 else A.add reg.localOrigin n

/-- What is cut off before and after the pages of the new region: a region each, unless it is
empty. -/
def biteBefore (reg : AppRegion) (before : Nat) : List AppRegion :=
  if before = 0 then [] else [⟨reg.remote, before, reg.acc, reg.loc, reg.localOrigin⟩]

def biteAfter (reg : AppRegion) (before middle after : Nat) : List AppRegion :=
  if after = 0 then []
  else [⟨A.add (A.add reg.remote before) middle, after, reg.acc, reg.loc,
    originAt A reg (A.add before middle)⟩]

def biteMiddle (reg : AppRegion) (before middle : Nat) : AppRegion :=
  ⟨A.add reg.remote before, middle, reg.acc, reg.loc, originAt A reg before⟩

/-- `split_to_smaller_regions` of the region between `pre` and `post`: the regions before the new
one, the new one, and those after it. -/
def splitToSmallerRegions (s : App) (pre : List AppRegion) (reg : AppRegion) (post : List AppRegion)
    (va sz : Nat) : Except Stop (App × List AppRegion × AppRegion × List AppRegion) := do
  let (before, middle, after) := sizes A reg va sz
  ensure (A.add (A.add before middle) after = reg.sz)
    (.assertion "(sz_before + sz_middle + sz_after) == reg->sz")
  let news := biteBefore reg before ++ biteMiddle A reg before middle ::
    biteAfter A reg before middle after
  let s ← news.foldlM (fun s _ => s.takeNode A) s
  ensure ((biteMiddle A reg before middle).remote = roundPgDown va)
    (.assertion "new_reg->remote == round_pg_down(rem_va)")
  pure ({ s with nodes := s.nodes + 1 }, pre ++ post ++ biteBefore reg before,
    biteMiddle A reg before middle, biteAfter A reg before middle after)

/-- The split of `get_location`, which is made when the request is smaller than the region. -/
def splitIfNeed (s : App) (pre : List AppRegion) (reg : AppRegion) (post : List AppRegion)
    (va sz : Nat) : Except Stop (App × List AppRegion × AppRegion × List AppRegion) :=
  if sz < reg.sz then s.splitToSmallerRegions A pre reg post va sz else pure (s, pre, reg, post)

/-- The part of `get_location` for a region without memory: cut it, if need be, and give it
memory. -/
def locate (s : App) (pre : List AppRegion) (reg : AppRegion) (post : List AppRegion) (va sz : Nat) :
    Except Stop (App × AppRegion) := do
  let (s, pre, reg, post) ← s.splitIfNeed A pre reg post va sz
  let (pool, fp) ← s.pool.alloc A (roundPgUp A reg.sz)
  ensure (fp ≠ Fpage.nil) (.assertion "!fp.is_nil()")
  let reg := { reg with loc := Fpage.addr A fp }
  pure ({ s with regions := pre ++ reg :: post, pool := pool }, reg)

/-- `get_location`: the address, zero when there is none, and the access of the region. -/
def getLocation (s : App) (va sz acc : Nat) : Except Stop (App × Nat × Nat) :=
  match s.find A va sz acc with
  | (_, []) => pure (s, 0, 0)
  | (pre, reg :: post) => do
    ensure (reg.remote ≤ va ∧ A.add va sz ≤ reg.remoteEnd A)
      (.assertion "rem_va >= reg->remote  &&  (rem_va + sz) <= reg->remote_end()")
    (if reg.loc = 0 then s.locate A pre reg post va sz else pure (s, reg)) >>= fun (s, reg) => do
      ensure (reg.loc ≠ 0) (.assertion "reg->location()")
      pure (s, A.add reg.loc (A.sub va reg.remote), reg.acc)

/-- The flexpage `wrm_app_get_location` makes of a location: the error code and the page. -/
def locationFpage (localAddr sz acc : Nat) : Int × Nat :=
  let fp := Fpage.create A (roundPgDown localAddr) (roundPgUp A sz) acc
  (if Fpage.isNil fp then -3 else 0, fp)

/-- `wrm_app_get_location`, for an application that is found: the error code and the flexpage.  In
an application whose name starts with `lx` the access can be raised. -/
def wrmAppGetLocation (s : App) (lx : Bool) (va sz acc : Nat) : Except Stop (App × Int × Nat) := do
  let (s, localAddr, accMax) ← s.getLocation A va sz acc
  if localAddr ≠ 0 then pure (s, locationFpage A localAddr sz accMax)
  else do
    let (s, localAddr, _) ← s.getLocation A va sz 0
    if localAddr ≠ 0 ∧ lx = true ∧ acc ≠ 1 then pure (s, locationFpage A localAddr sz acc)
    else pure (s, -2, Fpage.nil)

/-- `process_usual_memory_request` of a thread of the application: the error code it replies with
and the flexpage it maps. -/
def usualMemoryRequest (s : App) (va reqSz : Nat) : Except Stop (App × Nat × Nat) :=
  if s.heapSz < reqSz then pure (s, 2, Fpage.nil)
  else do
    let (pool, fp) ← s.pool.alloc A reqSz
    if fp = Fpage.nil then pure ({ s with pool := pool }, 3, Fpage.nil)
    else do
      let (s, rc) ← addLocation A { s with pool := pool } va fp
      if rc ≠ 0 then do
        let pool ← s.pool.add A fp
        pure ({ s with pool := pool }, 4, Fpage.nil)
      else pure ({ s with heapSz := A.sub s.heapSz reqSz }, 0, fp)

/-- The body of the loop of `set_location_from_elf`. -/
def setLocationOf (va sz location : Nat) (it : AppRegion) : Except Stop AppRegion :=
  if va ≤ it.remote ∧ it.remoteEnd A ≤ A.add va sz then do
    ensure (va % pageSz = 0) (.assertion "is_pg_aligned(rem_va)")
    ensure (location % pageSz = 0) (.assertion "is_pg_aligned(location)")
    ensure (va ≠ 0) (.assertion "rem_va")
    ensure (sz ≠ 0) (.assertion "sz")
    ensure (location ≠ 0) (.assertion "location")
    let loc := A.add location (A.sub it.remote va)
    if it.acc &&& 2 ≠ 0 then pure { it with localOrigin := loc } else pure { it with loc := loc }
  else pure it

/-- `set_location_from_elf`. -/
def setLocationFromElf (s : App) (va sz location : Nat) : Except Stop App := do
  let l ← s.regions.mapM (setLocationOf A va sz location)
  pure { s with regions := l }

/-! ## Runs -/

/-- A call on the application. -/
inductive Call where
  | addVspace (va sz acc : Nat)
  | addLocation (va fp : Nat)
  | getLocation (va sz acc : Nat)
  | memoryRequest (va reqSz : Nat)
  | setLocationFromElf (va sz location : Nat)
  deriving DecidableEq, Repr

/-- The state after a call, whatever code it returns. -/
def step (s : App) : Call → Except Stop App
  | .addVspace va sz acc => s.addVspace A va sz acc
  | .addLocation va fp => Prod.fst <$> s.addLocation A va fp
  | .getLocation va sz acc => Prod.fst <$> s.getLocation A va sz acc
  | .memoryRequest va reqSz => Prod.fst <$> s.usualMemoryRequest A va reqSz
  | .setLocationFromElf va sz location => s.setLocationFromElf A va sz location

end App

end Wrmos
