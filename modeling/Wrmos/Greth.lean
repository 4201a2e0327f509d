import Wrmos.Lib.Ring
import Wrmos.Lib.Outcome

/-!
# The descriptor rings of the GRETH driver

`lib/greth/greth.c`: two tables of descriptors that the driver and the Ethernet core share.  The
driver sets descriptors up at its WR pointer and frees them at its RD pointer; the core completes
enabled descriptors in the order of the ring, at a pointer of its own which the wrap bit brings back
to the start.  Nobody counts: whether a descriptor is in use is read off its enable bit and a field
that is zero otherwise, `addr` for transmission and `len` for reception.

* Both kinds of descriptor have `len`, `en`, `wr`, `ie` and `addr`; `Desc σ` adds the status bits
  `σ` of the kind.  What the two directions do differently is a `Kind`, and the driver functions of
  both are instances of the same three.
* The core runs beside the driver.  A driver function takes what the core completes in its gaps,
  between two accesses to a descriptor, as an argument.
* The pointers are indices into the table.  The accesses through the data cache are accesses to the
  memory: every function invalidates and flushes the descriptor it touches.
* `queued`, `freed`, `reported`, `enables` and `frees` are no data of the driver: the buffers that
  were accepted, freed and reported as complete so far, and how often each descriptor was enabled
  and freed.
-/

namespace Wrmos
namespace Greth

/-- `Greth_err_t`. -/
inductive Err where
  | ok
  | wrongParam
  | noBuf
  | notAligned
  | wrongSize
  | tooSmall
  | tooBig
  | busy
  | failed
  | empty
  deriving DecidableEq, Repr

/-- `Greth_buf_max`. -/
def bufMax : Nat := 1518

/-! ## Descriptors -/

/-- The status bits of `Tx_desc_t`. -/
structure TxBits where
  al : Bool
  ue : Bool
  deriving DecidableEq, Repr, Inhabited

/-- The status bits of `Rx_desc_t`. -/
structure RxBits where
  mc : Bool
  le : Bool
  oe : Bool
  ce : Bool
  ft : Bool
  ae : Bool
  deriving DecidableEq, Repr, Inhabited

/-- `Tx_desc_t` and `Rx_desc_t`. -/
structure Desc (σ : Type) where
  bits : σ
  ie : Bool
  wr : Bool
  en : Bool
  len : Nat
  addr : Nat
  deriving DecidableEq, Repr

/-- A descriptor of a cleaned up table. -/
def Desc.zero {σ : Type} [Inhabited σ] : Desc σ := ⟨default, false, false, false, 0, 0⟩

/-- What the core found out when it received a packet. -/
structure RxDone where
  bits : RxBits
  len : Nat
  pos : 0 < len
  deriving DecidableEq

/-- What the two directions do differently: the field that shows that a descriptor is in use, what
the core writes when it completes one, and what the driver writes when it frees one. -/
structure Kind (σ γ : Type) where
  used : Desc σ → Bool
  complete : γ → Desc σ → Desc σ
  free : Desc σ → Desc σ
  complete_en : ∀ c d, (complete c d).en = false
  complete_addr : ∀ c d, (complete c d).addr = d.addr
  complete_wr : ∀ c d, (complete c d).wr = d.wr
  complete_used : ∀ c d, d.addr ≠ 0 → used (complete c d) = true
  free_en : ∀ d, (free d).en = d.en
  free_used : ∀ d, used (free d) = false

/-- Transmission: a descriptor is in use while it has an address. -/
def txKind : Kind TxBits TxBits where
  used d := d.addr != 0
  complete c d := { d with en := false, bits := c }
  free d := { d with addr := 0 }
  complete_en _ _ := rfl
  complete_addr _ _ := rfl
  complete_wr _ _ := rfl
  complete_used _ _ h := by simpa using h
  free_en _ := rfl
  free_used _ := rfl

/-- Reception: a descriptor that is not enabled is in use while it has a length. -/
def rxKind : Kind RxBits RxDone where
  used d := d.len != 0
  complete c d := { d with en := false, bits := c.bits, len := c.len }
  free d := { d with len := 0, addr := 0 }
  complete_en _ _ := rfl
  complete_addr _ _ := rfl
  complete_wr _ _ := rfl
  complete_used c _ _ := by simpa using Nat.ne_of_gt c.pos
  free_en _ := rfl
  free_used _ := rfl

/-! ## Tables and rings -/

/-- What the driver and the core share: the table, and the pointer of the core. -/
structure Table (σ : Type) where
  dtb : Nat → Desc σ
  hwPtr : Nat

namespace Table

variable {σ γ : Type} (K : Kind σ γ)

/-- Write a descriptor. -/
def put (t : Table σ) (p : Nat) (d : Desc σ) : Table σ :=
  { t with dtb := Function.update t.dtb p d }

/-- The core completes the descriptor at its pointer, if that one is enabled. -/
def complete (t : Table σ) (c : γ) : Table σ :=
  let d := t.dtb t.hwPtr
  if d.en then ⟨Function.update t.dtb t.hwPtr (K.complete c d), if d.wr then 0 else t.hwPtr + 1⟩
  else t

/-- What the core does in a gap. -/
def hw (t : Table σ) (cs : List γ) : Table σ := cs.foldl (complete K) t

end Table

/-- A table with the pointers `dptr_wr` and `dptr_rd` of the driver, and whether the core was told
to run (`Ctrl_txe`, `Ctrl_rxe`). -/
structure DescRing (σ : Type) where
  size : Nat
  tab : Table σ
  dptrWr : Nat
  dptrRd : Nat
  running : Bool
  queued : List Nat
  freed : List Nat
  reported : List (Nat × Nat)
  enables : Nat → Nat
  frees : Nat → Nat

namespace DescRing

variable {σ γ : Type} (K : Kind σ γ)

/-- The ring of `greth_init`. -/
def init [Inhabited σ] (size : Nat) : DescRing σ where
  size := size
  tab := ⟨fun _ => .zero, 0⟩
  dptrWr := 0
  dptrRd := 0
  running := false
  queued := []
  freed := []
  reported := []
  enables := fun _ => 0
  frees := fun _ => 0

/-- `(void*)(d+1) >= (void*)dtb_end ? dtb_start : (void*)(d+1)`. -/
def next (r : DescRing σ) (p : Nat) : Nat := if r.size ≤ p + 1 then 0 else p + 1

/-- The WR descriptor with everything filled in but the enable bit, which is set last. -/
def newDesc [Inhabited σ] (r : DescRing σ) (bufPhys len : Nat) : Desc σ :=
  { bits := default, ie := true, wr := decide (r.dptrWr = r.size - 1), en := false, len := len,
    addr := bufPhys }

/-- The part of `greth_transmit` and `greth_receive` behind the checks of the arguments. -/
def setUp [Inhabited σ] (r : DescRing σ) (g : Nat → List γ) (bufPhys len : Nat) : Err × DescRing σ :=
  if (r.tab.dtb r.dptrWr).en then (.busy, r)
  else
    let t := r.tab.hw K (g 0)
    if K.used (t.dtb r.dptrWr) then (.busy, { r with tab := t })
    else
      let t := (t.put r.dptrWr (r.newDesc bufPhys len)).hw K (g 1)
      let t := (t.put r.dptrWr { t.dtb r.dptrWr with en := true }).hw K (g 2)
      (.ok, { r with
        tab := t
        dptrWr := r.next r.dptrWr
        running := true
        queued := r.queued ++ [bufPhys]
        enables := Function.update r.enables r.dptrWr (r.enables r.dptrWr + 1) })

/-- `greth_txfree` and `greth_rxfree`. -/
def freeRd (r : DescRing σ) (g : Nat → List γ) : Err × DescRing σ :=
  if (r.tab.dtb r.dptrRd).en then (.failed, r)
  else
    let t := r.tab.hw K (g 0)
    let d := t.dtb r.dptrRd
    if !K.used d then (.failed, { r with tab := t })
    else
      (.ok, { r with
        tab := (t.put r.dptrRd (K.free d)).hw K (g 1)
        dptrRd := r.next r.dptrRd
        freed := r.freed ++ [d.addr]
        frees := Function.update r.frees r.dptrRd (r.frees r.dptrRd + 1) })

/-- The descriptor at the RD pointer. -/
def atRd (r : DescRing σ) : Desc σ := r.tab.dtb r.dptrRd

/-- What the core does in a gap of a status function. -/
def hw (r : DescRing σ) (cs : List γ) : DescRing σ := { r with tab := r.tab.hw K cs }

/-- The buffer that was reported as complete is noted, with the number of buffers freed before. -/
def note (r : DescRing σ) (bufPhys : Nat) : DescRing σ :=
  { r with reported := r.reported ++ [(r.freed.length, bufPhys)] }

end DescRing

/-! ## The driver -/

/-- `Greth_tx_status_t`. -/
inductive TxStatus where
  | idle
  | txing
  | ok
  | err
  deriving DecidableEq, Repr

/-- `Greth_rx_status_t`. -/
inductive RxStatus where
  | idle
  | rxing
  | ok
  | err
  deriving DecidableEq, Repr

/-- The part of `Greth_dev_t` that the user sets up and `greth_init` checks. -/
structure Tables where
  txDtb : Nat
  txDtbPhys : Nat
  rxDtb : Nat
  rxDtbPhys : Nat
  txDtbSz : Nat
  rxDtbSz : Nat
  deriving DecidableEq, Repr

/-- `Greth_dev_t` once it is initialised. -/
structure Dev where
  tx : DescRing TxBits
  rx : DescRing RxBits

/-- `greth_init`. -/
def grethInit (t : Tables) : Except Err Dev :=
  if t.txDtb = 0 ∨ t.txDtbPhys = 0 ∨ t.rxDtb = 0 ∨ t.rxDtbPhys = 0 then .error .noBuf
  else if t.txDtb % 1024 ≠ 0 ∨ t.txDtbPhys % 1024 ≠ 0 ∨ t.rxDtb % 1024 ≠ 0 ∨ t.rxDtbPhys % 1024 ≠ 0 then
    .error .notAligned
  else if t.txDtbSz = 0 ∨ 128 < t.txDtbSz ∨ t.rxDtbSz = 0 ∨ 128 < t.rxDtbSz then .error .wrongSize
  else .ok ⟨.init t.txDtbSz, .init t.rxDtbSz⟩

/-- `greth_transmit`. -/
def grethTransmit (r : DescRing TxBits) (g : Nat → List TxBits) (bufPhys size : Nat) :
    Err × DescRing TxBits :=
  if bufPhys = 0 then (.noBuf, r)
  else if bufPhys % 4 ≠ 0 then (.notAligned, r)
  else if bufMax < size then (.tooBig, r)
  else r.setUp txKind g bufPhys size

/-- `greth_txstatus`: the buffer, the status and the ring. -/
def grethTxstatus (r : DescRing TxBits) (g : Nat → List TxBits) : Nat × TxStatus × DescRing TxBits :=
  let bufPhys := r.atRd.addr
  let r := r.hw txKind (g 0)
  if r.atRd.en then (bufPhys, .txing, r)
  else
    let r := r.hw txKind (g 1)
    if r.atRd.addr ≠ 0 then
      let r := r.hw txKind (g 2)
      (bufPhys, if r.atRd.bits.ue || r.atRd.bits.al then .err else .ok, r.note bufPhys)
    else (bufPhys, .idle, r)

/-- `greth_txfree`. -/
def grethTxfree (r : DescRing TxBits) (g : Nat → List TxBits) : Err × DescRing TxBits :=
  r.freeRd txKind g

/-- `greth_receive`. -/
def grethReceive (r : DescRing RxBits) (g : Nat → List RxDone) (bufPhys size : Nat) :
    Err × DescRing RxBits :=
  if bufPhys = 0 then (.noBuf, r)
  else if bufPhys % 4 ≠ 0 then (.notAligned, r)
  else if size < bufMax then (.tooSmall, r)
  else r.setUp rxKind g bufPhys 0

/-- `greth_rxstatus`: the buffer, the size, the status and the ring.  The size is read before the
enable bit. -/
def grethRxstatus (r : DescRing RxBits) (g : Nat → List RxDone) :
    Nat × Nat × RxStatus × DescRing RxBits :=
  let bufPhys := r.atRd.addr
  let r := r.hw rxKind (g 0)
  let size := r.atRd.len
  let r := r.hw rxKind (g 1)
  if r.atRd.en then (bufPhys, size, .rxing, r)
  else
    let r := r.hw rxKind (g 2)
    if r.atRd.len ≠ 0 then
      let r := r.hw rxKind (g 3)
      let b := r.atRd.bits
      (bufPhys, size, if b.oe || b.ce || b.ft || b.ae then .err else .ok, r.note bufPhys)
    else (bufPhys, size, .idle, r)

/-- `greth_rxfree`. -/
def grethRxfree (r : DescRing RxBits) (g : Nat → List RxDone) : Err × DescRing RxBits :=
  r.freeRd rxKind g

/-! ## Runs -/

/-- A call of the driver, with what the core does in its gaps, or a step of the core between two
calls. -/
inductive Event where
  | transmit (g : Nat → List TxBits) (bufPhys size : Nat)
  | txstatus (g : Nat → List TxBits)
  | txfree (g : Nat → List TxBits)
  | txComplete (c : TxBits)
  | receive (g : Nat → List RxDone) (bufPhys size : Nat)
  | rxstatus (g : Nat → List RxDone)
  | rxfree (g : Nat → List RxDone)
  | rxComplete (c : RxDone)

/-- The device after an event. -/
def step (s : Dev) : Event → Dev
  | .transmit g buf size => { s with tx := (grethTransmit s.tx g buf size).2 }
  | .txstatus g => { s with tx := (grethTxstatus s.tx g).2.2 }
  | .txfree g => { s with tx := (grethTxfree s.tx g).2 }
  | .txComplete c => { s with tx := s.tx.hw txKind [c] }
  | .receive g buf size => { s with rx := (grethReceive s.rx g buf size).2 }
  | .rxstatus g => { s with rx := (grethRxstatus s.rx g).2.2.2 }
  | .rxfree g => { s with rx := (grethRxfree s.rx g).2 }
  | .rxComplete c => { s with rx := s.rx.hw rxKind [c] }

/-- The device after a list of events. -/
def run (s : Dev) (es : List Event) : Dev := es.foldl step s

end Greth
end Wrmos
