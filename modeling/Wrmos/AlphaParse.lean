import Wrmos.AlphaConfig
import Wrmos.Strtoul
import Wrmos.Lib.Walk

/-!
# The parsers of the configuration

`parse_dev_config`, `parse_mem_config` and `parse_app_config` of `app/alpha/main.cpp`, with the functions of
`wlibc/src/string.c` that they call.  A text is the list of its bytes before the null character, and a pointer
into it is what is left of the text.  The code subtracts pointers as numbers of 32 bits, also when a search
has found nothing; the address of the null character gives all the others.

Every write goes through a check of its table.  The messages of the log are left out, and with them the number
of the line.
-/

namespace Wrmos
namespace AlphaConfig

open Lib

/-! ## Strings -/

/-- The bytes of a string of the source. -/
def bytes (s : String) : List UInt8 := s.toList.map fun c => UInt8.ofNat c.toNat

abbrev Ptr := List UInt8

/-- `'\n'`, `'\t'` and `'#'`. -/
def newline : UInt8 := 10
def tab : UInt8 := 9
def hash : UInt8 := 35

/-- `*p`. -/
def deref (p : Ptr) : UInt8 := p.headD 0

def strchr (ch : UInt8) : Ptr → Option Ptr
  | [] => none
  | b :: p => if b = ch then some (b :: p) else strchr ch p

def strpbrk (accept : List UInt8) : Ptr → Option Ptr
  | [] => none
  | b :: p => if b ∈ accept then some (b :: p) else strpbrk accept p

def strspn (accept : List UInt8) : Ptr → Nat
  | [] => 0
  | b :: p => if b ∈ accept then strspn accept p + 1 else 0

/-- `p + strspn(p, accept)`. -/
def skip (accept : List UInt8) (p : Ptr) : Ptr := p.drop (strspn accept p)

def strncmp : Ptr → Ptr → Nat → Int
  | _, _, 0 => 0
  | s1, s2, n + 1 =>
    if deref s1 ≠ deref s2 then if deref s1 < deref s2 then -1 else 1
    else if deref s1 = 0 then 0
    else strncmp s1.tail s2.tail n

/-- `strncpy` into an array. -/
def strncpy (table : String) (dst : Name) (src : Ptr) (n : Nat) : Except Fault Name :=
  if dst.length < n then .error (.beyond table)
  else .ok (src.take n ++ List.replicate (n - src.length) 0 ++ dst.drop n)

/-- A write into an entry of a table. -/
def modifyAt {α : Type} (table : String) (l : List α) (i : Nat) (f : α → Except Fault α) :
    Except Fault (List α) :=
  match l[i]? with
  | none => .error (.beyond table)
  | some a => (f a).map (l.set i)

/-- `" \t"`, `" \t\n"` and `", \t\n"`. -/
def blanks : List UInt8 := bytes " \t"
def spaces : List UInt8 := bytes " \t\n"
def separators : List UInt8 := bytes ", \t\n"

/-- `line = strchr(line, '\n')`, and the newline is skipped. -/
def nextLine (line : Ptr) : Option Ptr := (strchr newline line).map (·.drop 1)

/-- A comment is skipped. -/
def isComment (line : Ptr) : Bool := deref line == hash || strncmp line (bytes "\t#") 2 == 0

section Parse

variable (A : Arch) (nul : Nat)

/-- `end - start` as an `unsigned`; a search that has found nothing gives the address zero. -/
def ptrDiff (fin : Option Ptr) (start : Ptr) : Nat :=
  match fin with
  | some p => (start.length - p.length) % 2 ^ 32
  | none => (2 ^ A.wordBits + start.length - nul) % 2 ^ 32

/-- `strtoul`. -/
def number (p : Ptr) (base : Nat) : Nat := (Strtoul.strtoul A (p.map fun b => Char.ofNat b.toNat) base).1

/-- `word_ptr` and `word_len`. -/
structure Word where
  ptr : Ptr
  len : Nat
  deriving DecidableEq, Repr, Inhabited

/-- The words of a line; there may be too few of them. -/
def words : Nat → Ptr → Option (List Word)
  | 0, _ => some []
  | n + 1, start =>
    match strpbrk spaces start with
    | none => none
    | some fin =>
      if fin.length = start.length then none
      else (words n (skip blanks fin)).map (⟨start, ptrDiff A nul (some fin) start⟩ :: ·)

/-! ## Devices -/

/-- `Cfg_krn_uart_paddr`, `Cfg_krn_uart_sz` and `Cfg_krn_uart_irq`. -/
structure KrnUart where
  paddr : Nat
  sz : Nat
  irq : Nat
  deriving DecidableEq, Repr

structure DevState where
  insideSection : Bool
  cnt : Nat
  devs : List IoDevice
  deriving DecidableEq, Repr

/-- The value of a word, or that of the serial device of the kernel. -/
def krnOr (w : Word) (krn base : Nat) : Nat :=
  if strncmp w.ptr (bytes "krn") 3 = 0 then krn else number A w.ptr base

/-- The device of a line. -/
def setDevice (K : KrnUart) (ws : List Word) (d : IoDevice) : Except Fault IoDevice := do
  let name ← strncpy "_name" d.name (ws.getD 0 default).ptr (ws.getD 0 default).len
  .ok { name := name
        pa := krnOr A (ws.getD 1 default) K.paddr 16
        sz := krnOr A (ws.getD 2 default) K.sz 16
        irq := krnOr A (ws.getD 3 default) K.irq 10 % 2 ^ 32 }

/-- A line for `parse_dev_config`. -/
def devLine (K : KrnUart) (listSz : Nat) (s : DevState) (line : Ptr) :
    Except Fault (Option Bool × DevState) :=
  if isComment line then .ok (none, s)
  else if !s.insideSection then
    .ok (none, { s with insideSection := strncmp line (bytes "DEVICES\n") 8 == 0 })
  else if deref line ≠ tab then .ok (some true, s)
  else
    match words A nul 4 (line.drop 1) with
    | none => .ok (some false, s)
    | some ws =>
      if s.cnt = listSz then .ok (some false, s)
      else if devNameSz ≤ (ws.getD 0 default).len then .ok (some false, s)
      else do
        let devs ← modifyAt "devs" s.devs s.cnt (setDevice A K ws)
        .ok (none, { s with devs := devs, cnt := s.cnt + 1 })

/-- `parse_dev_config`. -/
def parseDevConfig (K : KrnUart) (str : Ptr) (devs : List IoDevice) (listSz : Nat) :
    Except Fault (Bool × List IoDevice) :=
  (walk nextLine (devLine A nul K listSz) .outOfRounds true ((cstr str).length + 1) ⟨false, 0, devs⟩
    (cstr str)).map fun r => (r.1, r.2.devs)

/-! ## Named memory -/

/-- `acc_str_to_enum`, as an `unsigned`. -/
def accStrToEnum (w : Word) : Nat :=
  if strncmp w.ptr (bytes "r") w.len = 0 then 4
  else if strncmp w.ptr (bytes "w") w.len = 0 then 2
  else if strncmp w.ptr (bytes "rw") w.len = 0 then 6
  else 2 ^ 32 - 1

structure MemState where
  insideSection : Bool
  cnt : Nat
  mems : List MemoryRegion
  deriving DecidableEq, Repr

/-- The region of a line. -/
def setMemory (ws : List Word) (m : MemoryRegion) : Except Fault MemoryRegion := do
  let name ← strncpy "name" m.name (ws.getD 0 default).ptr (ws.getD 0 default).len
  .ok { name := name
        sz := number A (ws.getD 1 default).ptr 16
        access := accStrToEnum (ws.getD 2 default)
        cached := number A (ws.getD 3 default).ptr 10 ≠ 0
        contig := number A (ws.getD 4 default).ptr 10 ≠ 0 }

/-- A line for `parse_mem_config`. -/
def memLine (listSz : Nat) (s : MemState) (line : Ptr) : Except Fault (Option Bool × MemState) :=
  if isComment line then .ok (none, s)
  else if !s.insideSection then
    .ok (none, { s with insideSection := strncmp line (bytes "MEMORY\n") 7 == 0 })
  else if deref line ≠ tab then .ok (some true, s)
  else
    match words A nul 5 (line.drop 1) with
    | none => .ok (some false, s)
    | some ws =>
      if s.cnt = listSz then .ok (some false, s)
      else if memNameSz ≤ (ws.getD 0 default).len then .ok (some false, s)
      else do
        let mems ← modifyAt "mems" s.mems s.cnt (setMemory A ws)
        if accStrToEnum (ws.getD 2 default) = 2 ^ 32 - 1 then .ok (some false, { s with mems := mems })
        else .ok (none, { s with mems := mems, cnt := s.cnt + 1 })

/-- `parse_mem_config`. -/
def parseMemConfig (str : Ptr) (mems : List MemoryRegion) (listSz : Nat) :
    Except Fault (Bool × List MemoryRegion) :=
  (walk nextLine (memLine A nul listSz) .outOfRounds true ((cstr str).length + 1) ⟨false, 0, mems⟩
    (cstr str)).map fun r => (r.1, r.2.mems)

/-! ## Applications -/

/-- What a line does with the value of a parameter: it copies a string, stores a size, stores a number that
has a bound, looks for one of some values, or copies the words of a list. -/
inductive Param where
  | copy (sz : Nat) (table : String) (get : AppConfig → Name) (set : AppConfig → Name → AppConfig)
  | size (set : AppConfig → Nat → AppConfig)
  | count (max : Nat) (set : AppConfig → Nat → AppConfig)
  | choice (values : List (String × Nat)) (set : AppConfig → Nat → AppConfig)
  | list (max sz : Nat) (table : String) (get : AppConfig → List Name)
    (set : AppConfig → List Name → AppConfig)

namespace Param

def name : Param := .copy appNameSz "name" AppConfig.name fun a n => { a with name := n }
def shortName : Param :=
  .copy appShortNameSz "short_name" AppConfig.shortName fun a n => { a with shortName := n }
def filePath : Param := .copy fileNameSz "filename" AppConfig.filename fun a n => { a with filename := n }
def stackSize : Param := .size fun a n => { a with stackSz := n % 2 ^ 32 }
def heapSize : Param := .size fun a n => { a with heapSz := n }
def aspacesMax : Param := .count 16 fun a n => { a with maxAspaces := n }
def threadsMax : Param := .count 32 fun a n => { a with maxThreads := n }
def prioMax : Param := .count 0xff fun a n => { a with maxPrio := n }
def fpu : Param := .choice [("on", 1), ("off", 0)] fun a n => { a with fpu := n }
def mallocStrategy : Param :=
  .choice [("on_startup", 1), ("on_pagefault", 0)] fun a n => { a with mallocStrategy := n }
def devices : Param := .list devListSz devNameSz "devs" AppConfig.devs fun a l => { a with devs := l }
def memory : Param := .list memListSz memNameSz "mems" AppConfig.mems fun a l => { a with mems := l }
def args : Param := .list argListSz argSz "args" AppConfig.args fun a l => { a with args := l }

end Param

/-- The names that a line is compared with, and how many characters are compared. -/
def params : List (String × Nat × Param) :=
  [("\t\tname:", 7, .name), ("\t\tshort_name:", 13, .shortName), ("\t\tfile_path:", 11, .filePath),
    ("\t\tstack_size:", 13, .stackSize), ("\t\theap_size:", 12, .heapSize),
    ("\t\taspaces_max:", 14, .aspacesMax), ("\t\tthreads_max:", 14, .threadsMax),
    ("\t\tprio_max:", 11, .prioMax), ("\t\tfpu:", 6, .fpu), ("\t\tmalloc_strategy:", 15, .mallocStrategy),
    ("\t\tdevices:", 10, .devices), ("\t\tmemory:", 9, .memory), ("\t\targs:", 7, .args)]

def findParam (line : Ptr) : Option Param :=
  (params.find? fun p => strncmp line (bytes p.1) p.2.1 == 0).map (·.2.2)

/-- The loop over the words of a list.  It says whether the list is taken. -/
def wordLoop (max sz : Nat) (put : Nat → Ptr → Nat → List AppConfig → Except Fault (List AppConfig)) :
    Nat → Nat → Ptr → List AppConfig → Except Fault (Bool × List AppConfig)
  | 0, _, _, _ => .error .outOfRounds
  | rounds + 1, cnt, wordStart, apps =>
    let wordEnd := strpbrk separators wordStart
    let wordLen := ptrDiff A nul wordEnd wordStart
    if wordLen = 0 then .ok (true, apps)
    else if max < cnt then .ok (false, apps)
    else if sz ≤ wordLen then .ok (false, apps)
    else do
      let apps ← put cnt wordStart wordLen apps
      match wordEnd with
      | none => .error (.null "word_end")
      | some fin =>
        if deref fin = newline then .ok (true, apps)
        else wordLoop max sz put rounds (cnt + 1) (skip separators fin) apps

/-- A word goes into its entry of a list. -/
def putWord (appCnt : Nat) (table : String) (get : AppConfig → List Name)
    (set : AppConfig → List Name → AppConfig) (cnt : Nat) (word : Ptr) (len : Nat) (apps : List AppConfig) :
    Except Fault (List AppConfig) :=
  modifyAt "apps" apps appCnt fun a =>
    (modifyAt table (get a) cnt fun n => strncpy table n word len).map (set a)

/-- What a line does with its value, and whether the value is taken. -/
def setParam (appCnt : Nat) (val : Ptr) (valLen : Nat) (apps : List AppConfig) :
    Param → Except Fault (Bool × List AppConfig)
  | .copy sz table get set =>
    if valLen = 0 ∨ sz ≤ valLen then .ok (false, apps)
    else do
      let apps ← modifyAt "apps" apps appCnt fun a => (strncpy table (get a) val valLen).map (set a)
      .ok (true, apps)
  | .size set =>
    if valLen = 0 then .ok (false, apps)
    else do
      let apps ← modifyAt "apps" apps appCnt fun a => .ok (set a (number A val 16))
      .ok (true, apps)
  | .count max set =>
    if valLen = 0 then .ok (false, apps)
    else do
      let n := number A val 10 % 2 ^ 8
      let apps ← modifyAt "apps" apps appCnt fun a => .ok (set a n)
      .ok (n ≠ 0 && n ≤ max, apps)
  | .choice values set =>
    if valLen = 0 then .ok (false, apps)
    else
      match values.find? fun v => strncmp val (bytes v.1) valLen == 0 with
      | none => .ok (false, apps)
      | some v => do
        let apps ← modifyAt "apps" apps appCnt fun a => .ok (set a v.2)
        .ok (true, apps)
  | .list max sz table get set =>
    wordLoop A nul max sz (putWord appCnt table get set) (val.length + 1) 0 val apps

structure AppState where
  insideSection : Bool
  insideApp : Bool
  appCnt : Nat
  apps : List AppConfig
  deriving DecidableEq, Repr

/-- A line with a parameter. -/
def paramLine (s : AppState) (line : Ptr) : Except Fault (Option Bool × AppState) :=
  match strpbrk spaces (skip blanks line) with
  | none => .error (.null "space")
  | some space =>
    let valStart := skip blanks space
    let valLen := ptrDiff A nul (strpbrk [newline] valStart) valStart
    match findParam line with
    | none => .ok (some false, s)
    | some p => do
      let (ok, apps) ← setParam A nul s.appCnt valStart valLen s.apps p
      .ok (if ok then none else some false, { s with apps := apps })

/-- A line for `parse_app_config`. -/
def appLine (s : AppState) (line : Ptr) : Except Fault (Option Bool × AppState) :=
  if isComment line then .ok (none, s)
  else if !s.insideSection then
    .ok (none, { s with insideSection := strncmp line (bytes "APPLICATIONS\n") 13 == 0 })
  else if deref line ≠ tab then .ok (some true, s)
  else if !s.insideApp then .ok (none, { s with insideApp := strncmp line (bytes "\t\x7b\n") 3 == 0 })
  else if strncmp line (bytes "\t\x7d\n") 3 = 0 then
    .ok (none, { s with insideApp := false, appCnt := s.appCnt + 1 })
  else paramLine A nul s line

/-- The start of `parse_app_config`. -/
def AppState.start (apps : List AppConfig) : AppState := ⟨false, false, 0, apps⟩

/-- `parse_app_config`. -/
def parseAppConfig (str : Ptr) (apps : List AppConfig) : Except Fault (Bool × List AppConfig) :=
  (walk nextLine (appLine A nul) .outOfRounds true ((cstr str).length + 1) (.start apps) (cstr str)).map
    fun r => (r.1, r.2.apps)

/-- `parse_config`; the value says whether there is a configuration. -/
def parseConfig (K : KrnUart) (cfgFile : Ptr) (proj : ProjConfig) : Except Fault (Bool × ProjConfig) := do
  let (ok, devices) ← parseDevConfig A nul K cfgFile proj.devices devsMax
  let proj := { proj with devices := devices }
  if !ok then .ok (false, proj)
  else
    let (ok, mems) ← parseMemConfig A nul cfgFile proj.mems memsMax
    let proj := { proj with mems := mems }
    if !ok then .ok (false, proj)
    else
      let (ok, apps) ← parseAppConfig A nul cfgFile proj.apps
      .ok (ok, { proj with apps := apps })

end Parse

/-- `parsed_proj_cfg`, before anything is parsed. -/
def ProjConfig.zero : ProjConfig where
  devices := List.replicate devsMax .zero
  mems := List.replicate memsMax ⟨inArray memNameSz [], 0, 0, false, false⟩
  apps := List.replicate appsMax .zero

end AlphaConfig
end Wrmos
