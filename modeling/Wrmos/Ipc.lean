import Wrmos.Kern
import Wrmos.MemCall

/-!
# IPC

`ipc.cpp`, with the search for a sender in `threads.h` and the matching of senders in `thread.h`.
`do_ipc` is cut where it calls `Sched_t::switch_to` and where it raises a fault in the name of a
thread: what comes behind is a frame of the running thread, and `resume` goes on with it.  As long as
the running thread has a frame nothing else can happen, so a call of `do_ipc` that neither blocks nor
faults is two steps, `ipcEntry` up to the receive phase and `recvPhase`.
-/

namespace Wrmos

open Lib (ensure bits)

namespace Thrid

/-- `version`. -/
def version (A : Arch) (id : Nat) : Nat := bits id 0 (versionWidth A)

/-- `thrid_is_int`. -/
def isInt (A : Arch) (id : Nat) : Bool :=
  isGlobal A id && decide (number A id < intsMax) && version A id == 1

/-- `thrid_roottask`. -/
def roottask (A : Arch) : Nat := createGlobal A (threadNumberMin + 2) 2

end Thrid

/-- `sizeof(Entry_frame_t) / sizeof(word_t)`. -/
def Arch.frameWords : Arch → Nat
  | .sparc => 132
  | .arm => 15
  | .x86 => 13
  | .x86_64 => 21

/-- The tag of an interrupt: the label `Interrupt` and no words, over the bits of `tag`. -/
def Tag.interrupt (A : Arch) (tag : Nat) : Nat := Tag.setProto A tag (Tag.protoOf A 1) 0 0

/-- The label of a software signal. -/
def Tag.signalLabel : Nat := 0x202

namespace Thread

/-! ## Writes to a thread -/

/-- `mr[i] = v`. -/
def setMr (i v : Nat) (th : Thread) : Thread :=
  { th with utcb := { th.utcb with mr := Function.update th.utcb.mr i v } }

/-- An IPC that fails: the error code, and the error bit of the tag. -/
def failIpc (A : Arch) (tag phase error offset : Nat) (th : Thread) : Thread :=
  { th with
    utcb := { th.utcb with
      error := ipcErr A phase error offset
      mr := Function.update th.utcb.mr 0 (Tag.setError A tag 1) } }

/-- `pf_save`. -/
def pfSave (addr access inst : Nat) (th : Thread) : Thread :=
  { th with pfAddr := addr, pfAccess := access, pfInst := inst }

/-- `exc_save`. -/
def excSave (type pf : Nat) (th : Thread) : Thread := { th with excType := type, excPf := pf }

/-- `ipc_to(id)`. -/
def setIpcTo (id : Nat) (th : Thread) : Thread := { th with ipcTo := id }

/-- `ipc_from_spec(id)`. -/
def setFromSpec (id : Nat) (th : Thread) : Thread := { th with fromSpec := id }

/-- `signal_pending(b)`. -/
def setSignal (b : Bool) (th : Thread) : Thread := { th with signalPending := b }

/-- The first part of `do_normal_ipc`: the tag, the sender and the untyped words of `snd`. -/
def copyHeader (A : Arch) (snd : Thread) (propagated useLocal : Bool) (th : Thread) : Thread :=
  let real := if useLocal then snd.uutcb else snd.globid
  { th with
    ipcFrom := if propagated then snd.utcb.sender else real
    utcb := { th.utcb with
      mr := fun j => if j ≤ Tag.untyped A (snd.utcb.mr 0) then snd.utcb.mr j else th.utcb.mr j
      sender := if propagated then real else th.utcb.sender } }

/-- The words of an item for the receiver. -/
def setItem (i : Nat) (item : Nat × Nat) (th : Thread) : Thread :=
  (th.setMr i item.1).setMr (i + 1) item.2

/-- The tag of the message of `do_pfault_ipc`; the access `1 << 3` stands for a port. -/
def pfTag (A : Arch) (access : Nat) : Nat :=
  if access = 8 then Tag.setProtoPf A 0 (Tag.protoOf A 3) 6 2 0
  else Tag.setProtoPf A 0 (Tag.protoOf A 2) access 2 0

/-- `do_pfault_ipc` to a thread. -/
def pfaultMsg (A : Arch) (fromId addr access inst : Nat) (th : Thread) : Thread :=
  let th := { th with ipcFrom := fromId }
  ((th.setMr 0 (pfTag A access)).setMr 1
    (if access = 8 then Fpage.createIo A addr 1 else addr)).setMr 2 inst

/-- `do_exc_ipc` to a thread. -/
def excMsg (A : Arch) (snd : Thread) (type pf : Nat) (th : Thread) : Thread :=
  let tag := Tag.setProto A 0 type (1 + A.frameWords) 0
  { th with
    ipcFrom := snd.globid
    utcb := { th.utcb with
      mr := fun j =>
        if j = 0 then tag else if j = 1 then pf
        else if j < 2 + A.frameWords then snd.frame (j - 2) else th.utcb.mr j } }

/-- The exception reply: the entry frame comes from the message. -/
def setFrame (A : Arch) (mr : Nat → Nat) (th : Thread) : Thread :=
  { th with frame := fun j => if j < A.frameWords then mr (j + 2) else th.frame j }

/-- `is_good_sender`, with the value of `use_local_id`: it is assigned behind the return. -/
def isGoodSender (A : Arch) (th snd : Thread) : Bool × Bool :=
  let isLocal := th.task == snd.task
  if th.fromSpec == Thrid.any A || (isLocal && th.fromSpec == Thrid.anyLocal A) ||
      (isLocal && th.fromSpec == snd.uutcb) || th.fromSpec == snd.globid then (true, false)
  else (false, isLocal && (th.fromSpec == Thrid.anyLocal A || th.fromSpec == snd.uutcb))

end Thread

/-! ## Looking for a sender -/

/-- The variables `propagated` and `use_local_id` of `do_ipc`. -/
structure Flags where
  propagated : Bool
  useLocal : Bool
  deriving DecidableEq, Repr

namespace Threads

/-- The virtual sender of a propagated message from `snd` to `rcv`, when it exists and `snd` may send
in its name. -/
def virtSender (A : Arch) (ts : Threads) (curTask snd rcv : Nat) : Except Stop (Option Nat) := do
  let v ← ts.find A curTask (ts.thr snd).utcb.sender
  pure (v.filter fun v =>
    (ts.thr snd).task = (ts.thr v).task ∨ (ts.thr snd).task = (ts.thr rcv).task)

/-- The virtual sender that `_is_good_sender` uses: none for a message that is not propagated. -/
def nameOf (A : Arch) (ts : Threads) (curTask snd rcv : Nat) : Except Stop (Option Nat) :=
  if Tag.propagated A ((ts.thr snd).utcb.mr 0) then ts.virtSender A curTask snd rcv else .ok none

/-- The last part of `_is_good_sender`: `from_spec` admits the sender `s` for `rcv`. -/
def specAdmits (A : Arch) (rcv s : Thread) (spec : Nat) : Bool :=
  let isLocal := s.task == rcv.task
  spec == Thrid.any A || (isLocal && spec == Thrid.anyLocal A) || (isLocal && spec == s.uutcb) ||
    spec == s.globid

/-- `_is_good_sender(rcv, from_spec, snd, &propagated, &use_local_id)`. -/
def goodSender (A : Arch) (ts : Threads) (curTask rcv spec snd : Nat) (f : Flags) :
    Except Stop (Bool × Flags) := do
  let s := ts.thr snd
  let r := ts.thr rcv
  ensure (s.isSndState = true) (.assertion "snd->is_snd_state()")
  ensure (s.ipcTo ≠ Thrid.nil) (.assertion "!snd->ipc_to().is_nil()")
  ensure (s.ipcTo ≠ Thrid.any A) (.assertion "!snd->ipc_to().is_any()")
  ensure (s.ipcTo ≠ Thrid.anyLocal A) (.assertion "!snd->ipc_to().is_any_local()")
  if (s.task = r.task ∧ s.ipcTo = r.uutcb) ∨ s.ipcTo = r.globid then do
    let v ← ts.nameOf A curTask snd rcv
    let sender := ts.thr (v.getD snd)
    let f := { f with propagated := f.propagated || v.isSome }
    if specAdmits A r sender spec then
      pure (true, { f with
        useLocal := f.useLocal || (sender.task == r.task &&
          (spec == Thrid.anyLocal A || spec == sender.uutcb)) })
    else pure (false, f)
  else .ok (false, f)

/-- The loop of `find_highest_prio_sender`. -/
def findHighestPrioSender (A : Arch) (ts : Threads) (curTask rcv spec : Nat) :
    List Nat → Option Nat → Flags → Except Stop (Option Nat × Flags)
  | [], res, f => .ok (res, f)
  | t :: rest, res, f => do
    let r ← ts.goodSender A curTask rcv spec t f
    let better := match res with
      | none => true
      | some u => decide ((ts.thr u).prioMax < (ts.thr t).prioMax)
    findHighestPrioSender A ts curTask rcv spec rest
      (if r.1 && better then some t else res) r.2

/-- The choice of `find_sender` between the senders with and without a timeout. -/
def chooseSender (ts : Threads) (r1 r2 : Option Nat × Flags) : Option (Nat × Flags) :=
  match r1.1, r2.1 with
  | some t1, some t2 =>
    if (ts.thr t1).prioMax < (ts.thr t2).prioMax then some (t2, r2.2) else some (t1, r1.2)
  | some t1, none => some (t1, r1.2)
  | none, some t2 => some (t2, r2.2)
  | none, none => none

/-- `find_sender`, for the running thread `rcv`. -/
def findSender (A : Arch) (ts : Threads) (rcv spec : Nat) : Except Stop (Option (Nat × Flags)) := do
  let curTask := (ts.thr rcv).task
  match ← ts.find A curTask spec with
  | some t =>
    if (ts.thr t).isSndState then do
      let r ← ts.goodSender A curTask rcv spec t ⟨false, false⟩
      pure (if r.1 then some (t, r.2) else none)
    else pure none
  | none => do
    let r1 ← ts.findHighestPrioSender A curTask rcv spec (ts.members .sndTimeout) none ⟨false, false⟩
    let r2 ← ts.findHighestPrioSender A curTask rcv spec (ts.members .send) none ⟨false, false⟩
    pure (ts.chooseSender r1 r2)

end Threads

namespace Kern

/-! ## Typed items -/

/-- What a round of the loop over the typed items comes to: the loop goes on, it is over, or memory of
the sender is missing. -/
inductive ItemOut where
  | next (k : Kern) (l : ItemLoop)
  | done (k : Kern)
  | fault (l : ItemLoop)

/-- The last register of the message. -/
def lastReg (A : Arch) (l : ItemLoop) : Nat := Tag.untyped A l.tag + Tag.typed A l.tag

/-- A map item of memory that the sender has.  Whether it is a grant item is read from the registers of
the sender; the item for the receiver is made of the words that were read before. -/
def mapMem (A : Arch) (k : Kern) (snd rcv : Nat) (l : ItemLoop) (cached : Nat) :
    Except Stop Kern := do
  let s := k.ts.thr snd
  let r := k.ts.thr rcv
  let res ← k.mem.mapItem A s.task r.task (s.utcb.mr l.i) l.fp (r.utcb.br 0) cached
  let win ← rcvWindow A l.w0 l.fp (r.utcb.br 0)
  pure (({ k with mem := res.1 } : Kern).upd rcv (Thread.setItem l.i win.item))

/-- A port range is passed on: the giver has it, and the other task gets it. -/
def givePorts (A : Arch) (k : Kern) (giver taker fp : Nat) : Except Stop Kern := do
  let port := Fpage.ioPort A fp
  let sz := Fpage.ioSize A fp
  A.ports
  let has ← (k.io giver).isEnabled port sz
  ensure (has = true) (.panic "task has not permission for port")
  let b ← (k.io taker).enable port sz
  pure { k with io := Function.update k.io taker b }

/-- The assertion behind `set_ioperm(port, sz, 1)` in `do_normal_ipc`. -/
def checkPorts (A : Arch) (k : Kern) (taker fp : Nat) : Except Stop Unit := do
  let has ← (k.io taker).isEnabled (Fpage.ioPort A fp) (Fpage.ioSize A fp)
  ensure (has = true) (.assertion "rcv->task()->is_ioperm(port, sz, 1)")

/-- `set_ioperm(port, sz, 0)` for the giver of a grant item. -/
def dropPorts (A : Arch) (k : Kern) (giver fp : Nat) (grant : Bool) : Except Stop Kern :=
  if grant then do
    let b ← (k.io giver).disable (Fpage.ioPort A fp) (Fpage.ioSize A fp)
    pure { k with io := Function.update k.io giver b }
  else .ok k

/-- A map or grant item. -/
def mapRound (A : Arch) (k : Kern) (snd rcv : Nat) (l : ItemLoop) : Except Stop ItemOut :=
  let s := k.ts.thr snd
  let r := k.ts.thr rcv
  let keep := Thread.setItem l.i (l.w0, l.fp)
  let l' := { l with i := l.i + 2 }
  if Fpage.isComplete A l.fp then .error (.panic "snd_fpage.is_complete() --> IMPLME")
  else if Fpage.isIo l.fp then do
    let k ← k.givePorts A s.task r.task l.fp
    k.checkPorts A r.task l.fp
    let k ← k.dropPorts A s.task l.fp (Item.isGrant A l.w0)
    pure (.next (k.upd rcv keep) l')
  else if Fpage.isNil l.fp then .ok (.next (k.upd rcv keep) l')
  else
    match k.mem.cached A s.task l.fp with
    | none => .ok (.fault l)
    | some cached => do
      let k ← k.mapMem A snd rcv l cached
      pure (.next k l')

/-- A string item that does not fit: both sides get an overflow error. -/
def overflow (A : Arch) (k : Kern) (snd rcv tag copied : Nat) : Kern :=
  (k.upd snd (Thread.failIpc A tag 0 4 copied)).upd rcv (Thread.failIpc A tag 1 4 copied)

/-- A string item. -/
def stringRound (A : Arch) (kioSz : Nat) (k : Kern) (snd rcv : Nat) (l : ItemLoop) :
    Except Stop ItemOut := do
  let s := k.ts.thr snd
  let r := k.ts.thr rcv
  ensure (bits (r.utcb.br 0) 0 1 = 1) (.panic "Receiver does not accept string items.")
  match l.nextBuf with
  | none => .error (.panic "No more buffers to copy string item.")
  | some nb => do
    let b0 := r.utcb.br nb
    let dst := r.utcb.br (nb + 1)
    let nextBuf := if Item.isLast A b0 then none else some (nb + 1 + Item.substringNumber A b0)
    ensure (Item.substringNumber A l.w0 ≤ 1) (.panic "TODO:  support compound strings.")
    ensure (Item.substringNumber A b0 ≤ 1) (.panic "TODO:  support compound buffers.")
    let len := min (Item.length A l.w0) (Item.length A b0)
    let m ← k.mem.copyThreadBuf A kioSz k.curTask s.task r.task l.fp dst len
    let k := ({ k with mem := m } : Kern).upd rcv (Thread.setItem l.i (l.w0, dst))
    if len < Item.length A l.w0 then
      pure (.done (k.overflow A snd rcv l.tag (l.copied + len)))
    else do
      ensure (Item.isLast A l.w0 = true ∨ l.i + 2 ≤ lastReg A l)
        (.assertion "Parse error:  regs is over but sitem is not last.")
      ensure (Item.isLast A l.w0 = false ∨ l.i + 2 = lastReg A l + 1)
        (.assertion "Parse error:  last sitem, but is not last reg.")
      pure (.next k { l with i := l.i + 2, nextBuf := nextBuf, copied := l.copied + len })

/-- One round of the loop over the typed items. -/
def itemRound (A : Arch) (kioSz : Nat) (k : Kern) (snd rcv : Nat) (l : ItemLoop) :
    Except Stop ItemOut := do
  let mr := (k.ts.thr snd).utcb.mr
  let l := { l with w0 := mr l.i, fp := mr (l.i + 1) }
  ensure (l.i ≠ lastReg A l) (.assertion "Parse error:  not enough regs for typed items.")
  if Item.isMap A l.w0 || Item.isGrant A l.w0 then k.mapRound A snd rcv l
  else if Item.isString A l.w0 then k.stringRound A kioSz snd rcv l
  else .error (.assertion "Parse error:  unknown typed item.")

/-- The loop over the typed items.  A round takes two registers, so there are fewer rounds than typed
words; the result is the item for which memory is missing. -/
def itemLoop (A : Arch) (kioSz : Nat) (snd rcv : Nat) :
    Nat → Kern → ItemLoop → Except Stop (Kern × Option ItemLoop)
  | rounds, k, l =>
    if lastReg A l < l.i then .ok (k, none)
    else
      match rounds with
      | 0 => .error .outOfRounds
      | n + 1 => do
        match ← k.itemRound A kioSz snd rcv l with
        | .next k l => itemLoop A kioSz snd rcv n k l
        | .done k => pure (k, none)
        | .fault l => pure (k, some l)

/-- `do_normal_ipc`, up to its end or to the first `process_pfault`. -/
def doNormalIpc (A : Arch) (kioSz : Nat) (k : Kern) (snd rcv : Nat) (f : Flags) :
    Except Stop (Kern × Option ItemLoop) := do
  ensure (snd ≠ rcv) (.assertion "snd != rcv")
  let tag := (k.ts.thr snd).utcb.mr 0
  let k := k.upd rcv (Thread.copyHeader A (k.ts.thr snd) f.propagated f.useLocal)
  itemLoop A kioSz snd rcv (Tag.typed A tag + 1) k ⟨tag, Tag.untyped A tag + 1, some 1, 0, 0, 0⟩

/-- `do_normal_ipc` behind its `process_pfault`. -/
def resumeItems (A : Arch) (kioSz : Nat) (k : Kern) (snd rcv : Nat) (l : ItemLoop) :
    Except Stop (Kern × Option ItemLoop) :=
  match k.mem.cached A (k.ts.thr snd).task l.fp with
  | none => .error (.panic "do_ipc:  attempt to map/grant alien fpage, IMPLEMENT ME.")
  | some cached => do
    let k ← k.mapMem A snd rcv l cached
    itemLoop A kioSz snd rcv (Tag.typed A l.tag + 1) k { l with i := l.i + 2 }

/-! ## Faults -/

/-- `process_pfault`. -/
def processPfault (A : Arch) (k : Kern) (f addr access inst now : Nat) : Except Stop Kern :=
  match (k.ts.thr f).pager with
  | none => .error (.panic "pagefault:  no pager.")
  | some pgr =>
    let save := Thread.pfSave addr access inst
    if (k.ts.thr pgr).state = .receiveIpc then do
      ensure (f ≠ pgr) (.assertion "snd != rcv")
      let k ← (k.upd pgr (Thread.pfaultMsg A (k.ts.thr f).globid addr access inst)).wake A pgr
        (.fault (k.ts.thr f).ident)
      let k ← ((k.upd f save).upd f (Thread.setFromSpec (k.ts.thr pgr).globid)).setState A f
        .receivePfault
      pure ((k.noteFaultTo f pgr).switchTo pgr now)
    else do
      let k ← ((k.upd f save).upd f (Thread.setIpcTo (k.ts.thr pgr).globid)).setState A f .sendPfault
      k.switchToNext now

/-- The exception handler of a thread, the root task if there is none or it is not active. -/
def excHandler (A : Arch) (k : Kern) (f : Nat) : Except Stop Nat := do
  let exh ← k.ts.find A k.curTask (k.ts.thr f).utcb.excHandler
  match exh.filter fun t => (k.ts.thr t).isActive with
  | some t => pure t
  | none => do
    match ← k.ts.find A k.curTask (Thrid.roottask A) with
    | some t => pure t
    | none => .error (.panic "exc:  failed to find roottask thread")

/-- `process_exception`. -/
def processException (A : Arch) (k : Kern) (f type pf now : Nat) : Except Stop Kern := do
  let exh ← k.excHandler A f
  if (k.ts.thr exh).state = .receiveIpc then do
    ensure (f ≠ exh) (.assertion "snd != rcv")
    let k ← (k.upd exh (Thread.excMsg A (k.ts.thr f) type pf)).wake A exh (.fault (k.ts.thr f).ident)
    let k ← (k.upd f (Thread.setFromSpec (k.ts.thr exh).globid)).setState A f .receiveException
    pure ((k.noteFaultTo f exh).switchTo exh now)
  else do
    let k ← ((k.upd f (Thread.excSave type pf)).upd f
      (Thread.setIpcTo (k.ts.thr exh).globid)).setState A f .sendException
    k.switchToNext now

/-! ## The end of `do_ipc` -/

/-- The end of `do_ipc`: the partner with the higher priority runs, if that is above the priority of
the running thread. -/
def endIpc (k : Kern) (sndPartner rcvPartner : Option Nat) (now : Nat) : Except Stop Kern := do
  let cur := k.ts.thr k.current
  ensure (cur.state = .ready) (.assertion "cur.state() == Thread_t::Ready")
  ensure (cur.prio = cur.prioMax) (.assertion "cur.prio() == cur.prio_max()")
  let sp := (sndPartner.map fun t => (k.ts.thr t).prioMax).getD 0
  let rp := (rcvPartner.map fun t => (k.ts.thr t).prioMax).getD 0
  pure (if cur.prioMax < max sp rp then
    match (if rp ≤ sp then sndPartner else rcvPartner) with
    | some t => k.switchTo t now
    | none => k
  else k)

/-- `cur` waits in the receive phase; what it does behind is `fs`. -/
def waitRecv (A : Arch) (k : Kern) (call : IpcCall) (fs : List Frame) (now : Nat) :
    Except Stop Kern := do
  let k := k.push fs
  let ts ← k.ts.saveRcvPhase A k.curTask k.current (Time.rcv call.timeouts) call.fromSpec now
  ({ k with ts := ts } : Kern).switchToNext now

/-- The partner of a send that has to wait inherits the priority of the sender. -/
def lendTo (ts : Threads) (t dst : Nat) : Except Stop Threads :=
  if dst = t then .ok ts else ts.inheritPrio t dst

/-- `cur` waits in the send phase. -/
def waitSend (A : Arch) (k : Kern) (call : IpcCall) (dst now : Nat) : Except Stop Kern := do
  let k := k.push [.receive call none]
  let ts ← lendTo k.ts k.current dst
  let ts ← ts.saveSndPhase A k.curTask k.current (Time.snd call.timeouts) call.toId now
  ({ k with ts := ts } : Kern).switchToNext now

/-- The failure of the IPC of the running thread. -/
def fail (A : Arch) (k : Kern) (call : IpcCall) (phase error : Nat) : Kern :=
  k.upd k.current (Thread.failIpc A call.tag phase error 0)

/-! ## The send phase -/

/-- A page fault in the name of the sender of an item, and what comes behind it. -/
def itemFault (A : Arch) (k : Kern) (snd : Nat) (l : ItemLoop) (behind : Frame) : Kern :=
  k.push [.pfault snd (Fpage.addr A l.fp) (Fpage.access l.fp) (Fpage.addr A l.fp), behind]

/-- Wake a thread that is not ready yet. -/
def wakeUnlessReady (A : Arch) (k : Kern) (t : Nat) (source : Source) : Except Stop Kern :=
  if (k.ts.thr t).state = .ready then .ok k else k.wake A t source

/-- Behind `do_normal_ipc` in the send phase. -/
def afterSend (A : Arch) (call : IpcCall) (dst sender : Nat) :
    Kern × Option ItemLoop → Except Stop Kern
  | (k, some l) => .ok (k.itemFault A k.current l (.sendItems call dst sender l))
  | (k, none) => do
    let k ← k.wakeUnlessReady A dst (.message (k.ts.thr sender).ident)
    pure (k.push [.receive call (some dst)])

/-- The line is clear before it is looked at, if the handler asks for that. -/
def clearIf (c : Intc) (irq : Nat) (flag : Bool) : Except Stop Intc :=
  if flag then c.clear irq else .ok c

/-- The end of the re-enable message: an interrupt that waits in the controller becomes pending, and
otherwise the line is unmasked. -/
def rearm (k : Kern) (c : Intc) (irq : Nat) : Except Stop Kern :=
  if c.pending irq then do
    let c ← c.clear irq
    pure (({ k with intc := c } : Kern).setPending irq true)
  else do
    let c ← c.unmask irq
    pure { k with intc := c }

/-- The interrupt re-enable message. -/
def reenable (A : Arch) (k : Kern) (call : IpcCall) : Except Stop Kern :=
  let cur := k.ts.thr k.current
  let irq := Thrid.number A call.toId
  if cur.globid ≠ (k.ints irq).handler then .ok (k.fail A call 0 2)
  else do
    let c ← k.intc.eoi irq
    let c ← clearIf c irq (cur.utcb.mr 1 % 2 == 1)
    let k ← k.rearm c irq
    pure (k.push [.receive call none])

/-- `start`; thread 1 is sigma0. -/
def startThread (A : Arch) (k : Kern) (dst : Nat) : Except Stop Kern :=
  let th := k.ts.thr dst
  if dst = 1 then k.setState A dst .ready
  else do
    ensure (th.pagerid ≠ Thrid.nil) (.assertion "Attemt to start thread without pager.")
    ensure (th.schedid ≠ Thrid.nil) (.assertion "Attemt to start thread without scheduler.")
    let pager ← k.ts.find A k.curTask th.pagerid
    let sched ← k.ts.find A k.curTask th.schedid
    ensure (pager ≠ none ∧ sched ≠ none) (.assertion "_pager && _sched")
    (k.upd dst fun th => { th with pager := pager, sched := sched }).setState A dst .ready

/-- The page-fault reply with memory that the pager has. -/
def replyMem (A : Arch) (k : Kern) (call : IpcCall) (dst fp : Nat) : Except Stop Kern := do
  let cur := k.ts.thr k.current
  let d := k.ts.thr dst
  let m ← k.mem.pfReplyItem A cur.task d.task (k.current = 1) (cur.utcb.mr 1) fp d.pfAddr
  let k ← ({ k with mem := m } : Kern).wake A dst (.reply k.current)
  pure (k.push [.receive call (some dst)])

/-- The page-fault reply. -/
def pfReply (A : Arch) (k : Kern) (call : IpcCall) (dst : Nat) : Except Stop Kern := do
  let cur := k.ts.thr k.current
  let w0 := cur.utcb.mr 1
  let fp := cur.utcb.mr 2
  ensure (Item.isMap A w0 = true ∨ Item.isGrant A w0 = true) (.assertion "is_map_item || is_grant_item")
  if Fpage.isComplete A fp then
    let d := k.ts.thr dst
    pure (k.push [.exception dst (Tag.protoOf A 7) (d.pfAddr ||| d.pfAccess), .receive call none])
  else if Fpage.isIo fp then do
    let k ← k.givePorts A cur.task (k.ts.thr dst).task fp
    let k ← k.dropPorts A cur.task fp (Item.isGrant A w0)
    let k ← k.wake A dst (.reply k.current)
    pure (k.push [.receive call (some dst)])
  else if Fpage.isNil fp then do
    let k ← k.wake A dst (.reply k.current)
    pure (k.push [.receive call (some dst)])
  else if k.mem.isInsideAcc A cur.task fp then k.replyMem A call dst fp
  else
    pure (k.push [.pfault k.current (Fpage.addr A fp) (Fpage.access fp) (Fpage.addr A fp),
      .reply call dst fp])

/-- The page-fault reply behind its `process_pfault`. -/
def resumeReply (A : Arch) (k : Kern) (call : IpcCall) (dst fp : Nat) : Except Stop Kern :=
  if k.mem.isInsideAcc A k.curTask fp then k.replyMem A call dst fp
  else .error (.panic "pf:  attempt to map/grant alien fpage, IMPLEMENT ME.")

/-- The exception reply. -/
def excReply (A : Arch) (k : Kern) (call : IpcCall) (dst : Nat) : Except Stop Kern := do
  let mr := (k.ts.thr k.current).utcb.mr
  let k ← (k.upd dst (Thread.setFrame A mr)).wake A dst (.reply k.current)
  pure (k.push [.receive call (some dst)])

/-- The software signal. -/
def signal (A : Arch) (k : Kern) (call : IpcCall) (dst : Nat) : Except Stop Kern := do
  ensure (k.current ≠ dst) (.assertion "&cur != dst")
  let d := k.ts.thr dst
  if d.state = .receiveIpc ∧ d.fromSpec = d.globid then do
    let k ← (k.upd dst (Thread.setFrom d.globid)).wake A dst .signal
    pure (k.push [.receive call (some dst)])
  else pure ((k.upd dst (Thread.setSignal true)).push [.receive call none])

/-- In whose name the message is sent: the virtual sender of a propagated one. -/
def senderOf (A : Arch) (k : Kern) (call : IpcCall) (dst : Nat) : Except Stop (Nat × Bool) :=
  if Tag.propagated A call.tag then do
    match ← k.ts.virtSender A k.curTask k.current dst with
    | some v => pure (v, true)
    | none => .error (.assertion "0 && \"implme: return error?\"")
  else .ok (k.current, false)

/-- The receiver takes the message of `sender` now. -/
def takesNow (A : Arch) (k : Kern) (dst sender : Nat) : Bool :=
  decide ((k.ts.thr dst).state = .receiveIpc) &&
    ((k.ts.thr dst).isGoodSender A (k.ts.thr sender)).1

/-- A normal message. -/
def sendNormal (A : Arch) (kioSz : Nat) (k : Kern) (call : IpcCall) (dst now : Nat) :
    Except Stop Kern := do
  let s ← k.senderOf A call dst
  ensure ((k.ts.thr dst).state ≠ .receiveIpc ∨ (k.ts.thr dst).fromSpec ≠ Thrid.nil)
    (.assertion "_ipc.from_spec != L4_thrid_t::Nil")
  if k.takesNow A dst s.1 then do
    let r ← k.doNormalIpc A kioSz k.current dst
      ⟨s.2, ((k.ts.thr dst).isGoodSender A (k.ts.thr s.1)).2⟩
    afterSend A call dst s.1 r
  else if Time.isZero (Time.snd call.timeouts) then pure (k.fail A call 0 1)
  else k.waitSend A call dst now

/-- The send phase to the thread `dst`. -/
def sendTo (A : Arch) (kioSz : Nat) (k : Kern) (call : IpcCall) (dst now : Nat) :
    Except Stop Kern :=
  let d := k.ts.thr dst
  if d.state = .active ∧ Tag.isThreadStart A call.tag then do
    let k ← k.startThread A dst
    pure (k.push [.receive call (some dst)])
  else if Tag.isPfRequest A call.tag ∨ Tag.isIoPfRequest A call.tag then
    .error (.panic "User should not send pagefault msgs, IMPLEMENT ME.")
  else if d.state = .receivePfault ∧ Tag.isPfReply A call.tag then k.pfReply A call dst
  else if d.state = .receiveException ∧ Tag.isExcReply A call.tag then k.excReply A call dst
  else if Tag.ipcLabel A call.tag = Tag.signalLabel then k.signal A call dst
  else k.sendNormal A kioSz call dst now

/-- `do_ipc` up to the receive phase. -/
def ipcEntry (A : Arch) (kioSz : Nat) (k : Kern) (toId fromSpec timeouts now : Nat) :
    Except Stop Kern := do
  let tag := Tag.setError A ((k.ts.thr k.current).utcb.mr 0) 0
  let call : IpcCall := ⟨toId, fromSpec, timeouts, tag⟩
  let k := k.upd k.current (Thread.setMr 0 tag)
  if toId = Thrid.nil then pure (k.push [.receive call none])
  else if Thrid.isInt A toId = true ∧ Tag.untyped A tag = 1 then k.reenable A call
  else do
    let dst ← k.ts.find A k.curTask toId
    match dst.filter fun t => (k.ts.thr t).isActive with
    | none => pure (k.fail A call 0 2)
    | some dst => k.sendTo A kioSz call dst now

/-! ## The receive phase -/

/-- Behind `do_normal_ipc` in the receive phase. -/
def afterRecv (A : Arch) (call : IpcCall) (sndPartner : Option Nat) (snd now : Nat) :
    Kern × Option ItemLoop → Except Stop Kern
  | (k, some l) => .ok (k.itemFault A snd l (.recvItems call sndPartner snd l))
  | (k, none) => do
    let k ← k.wakeUnlessReady A snd .transfer
    k.endIpc sndPartner (some snd) now

/-- The running thread waits for a software signal. -/
def recvSignal (A : Arch) (k : Kern) (call : IpcCall) (sndPartner : Option Nat) (now : Nat) :
    Except Stop Kern :=
  let cur := k.ts.thr k.current
  if cur.signalPending then
    ((k.upd k.current (Thread.setFrom cur.globid)).upd k.current
      (Thread.setSignal false)).endIpc sndPartner none now
  else if Time.isZero (Time.rcv call.timeouts) then
    (k.fail A call 1 1).endIpc sndPartner none now
  else k.waitRecv A call [.finish none none] now

/-- `find_int_sender`: whether the interrupt is pending for its handler, the running thread. -/
def intPending (A : Arch) (k : Kern) (spec : Nat) : Bool :=
  let i := k.ints (Thrid.number A spec)
  i.handler != Thrid.nil && i.pending && i.handler == (k.ts.thr k.current).globid

/-- The running thread waits for an interrupt. -/
def recvIrq (A : Arch) (k : Kern) (call : IpcCall) (sndPartner : Option Nat) (now : Nat) :
    Except Stop Kern :=
  let irq := Thrid.number A call.fromSpec
  if k.intPending A call.fromSpec then
    let tag := Tag.interrupt A call.tag
    let k := (k.upd k.current (Thread.setMr 0 tag)).upd k.current
      (Thread.setFrom (Thrid.createIrq A irq))
    ((k.setPending irq false).noteIrqMsg irq k.current (Thrid.createIrq A irq) tag).endIpc
      sndPartner none now
  else k.waitRecv A call [.finish none none] now

/-- The running thread takes the message of a thread that waits to send it. -/
def takeFrom (A : Arch) (kioSz : Nat) (k : Kern) (call : IpcCall) (sndPartner : Option Nat)
    (snd : Nat) (f : Flags) (now : Nat) : Except Stop Kern :=
  let s := k.ts.thr snd
  match s.state with
  | .sendPfault => do
    ensure (snd ≠ k.current) (.assertion "snd != rcv")
    let k ← (k.upd k.current
      (Thread.pfaultMsg A s.globid s.pfAddr s.pfAccess s.pfInst)).setState A snd .receivePfault
    (k.noteFaultTo snd k.current).endIpc sndPartner (some snd) now
  | .sendException => do
    ensure (snd ≠ k.current) (.assertion "snd != rcv")
    let k ← (k.upd k.current (Thread.excMsg A s s.excType s.excPf)).setState A snd .receiveException
    (k.noteFaultTo snd k.current).endIpc sndPartner (some snd) now
  | .sendIpc => do
    let r ← k.doNormalIpc A kioSz snd k.current f
    afterRecv A call sndPartner snd now r
  | _ => .error (.assertion "Wrong sender state.")

/-- The running thread waits for a thread; one partner inherits its priority. -/
def waitForThread (A : Arch) (k : Kern) (call : IpcCall) (now : Nat) : Except Stop Kern :=
  if Thrid.isSingle A call.fromSpec = true ∧ call.fromSpec ≠ (k.ts.thr k.current).globid then do
    match ← k.ts.find A k.curTask call.fromSpec with
    | none => .error (.assertion "sender")
    | some u => do
      let ts ← k.ts.inheritPrio k.current u
      ({ k with ts := ts } : Kern).waitRecv A call [.finish none none] now
  else k.waitRecv A call [.finish none none] now

/-- The running thread receives from a thread. -/
def recvThread (A : Arch) (kioSz : Nat) (k : Kern) (call : IpcCall) (sndPartner : Option Nat)
    (now : Nat) : Except Stop Kern := do
  match ← k.ts.findSender A k.current call.fromSpec with
  | some (snd, f) => k.takeFrom A kioSz call sndPartner snd f now
  | none =>
    if Time.isZero (Time.rcv call.timeouts) then (k.fail A call 1 1).endIpc sndPartner none now
    else k.waitForThread A call now

/-- `do_ipc` from the receive phase on. -/
def recvPhase (A : Arch) (kioSz : Nat) (k : Kern) (call : IpcCall) (sndPartner : Option Nat)
    (now : Nat) : Except Stop Kern :=
  let cur := k.ts.thr k.current
  if call.fromSpec = Thrid.nil ∨ Tag.ipcIsFailed A (cur.utcb.mr 0) then
    k.endIpc sndPartner none now
  else if call.fromSpec = cur.globid ∧ Tag.ipcLabel A call.tag = Tag.signalLabel then
    k.recvSignal A call sndPartner now
  else if Thrid.isInt A call.fromSpec then k.recvIrq A call sndPartner now
  else k.recvThread A kioSz call sndPartner now

/-! ## Steps -/

/-- Go on with a frame of the running thread. -/
def runFrame (A : Arch) (kioSz : Nat) (k : Kern) (now : Nat) : Frame → Except Stop Kern
  | .pfault f addr access inst => k.processPfault A f addr access inst now
  | .exception f type pf => k.processException A f type pf now
  | .sendItems call dst sender l =>
    k.resumeItems A kioSz k.current dst l >>= afterSend A call dst sender
  | .recvItems call sndPartner snd l =>
    k.resumeItems A kioSz snd k.current l >>= afterRecv A call sndPartner snd now
  | .reply call dst fp => k.resumeReply A call dst fp
  | .receive call sndPartner => k.recvPhase A kioSz call sndPartner now
  | .finish sndPartner rcvPartner => k.endIpc sndPartner rcvPartner now

/-- Take the first frame of the running thread and go on with it. -/
def resume (A : Arch) (kioSz : Nat) (k : Kern) (now : Nat) : Except Stop Kern :=
  match k.stack k.current with
  | [] => .ok k
  | f :: fs =>
    ({ k with stack := Function.update k.stack k.current fs } : Kern).runFrame A kioSz now f

end Kern

end Wrmos
