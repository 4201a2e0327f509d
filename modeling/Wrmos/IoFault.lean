import Wrmos.AlphaConfig
import Wrmos.AlphaMessages
import Wrmos.L4TypesSpec

/-!
# Faults at ports

`process_io_pfault` of `app/alpha/main.cpp`.  The kernel tells alpha that a thread used a port that it may
not use; alpha looks up the application of the thread and the devices of the board, and maps the port if one
of the devices that the application lists has it.  Otherwise the thread gets the complete address space,
which raises an exception in it.

The code compares the end of the fault with the end of the device by `<`, so that the last port of a device
is never mapped.  The walks along the tables end at an entry with an empty name: in a full table they go on
behind its end.  Those are the only deviations (`policy_iff_inner`).
-/

namespace Wrmos
namespace IoFault

open Lib (ensure ensure_bind_eq_ok bind_eq_ok)
open AlphaConfig

/-! ## The walks -/

/-- `strcmp(a, b) == 0`. -/
def sameName (a b : Name) : Bool := cstr a == cstr b

/-- The loop over the applications: the one with the thread, if there is one. -/
def findApp (num : Nat) : Nat → List AppConfig → Except Fault (Option AppConfig)
  | _, [] => .error (.beyond "apps")
  | first, cfg :: rest =>
    if first ≤ num ∧ num < first + cfg.maxThreads then .ok (some cfg)
    else
      match rest with
      | [] => .error (.beyond "apps")
      | next :: _ => if isEmpty next.name then .ok none else findApp num (first + cfg.maxThreads) rest

section

variable (A : Arch) (fpage : Nat)

/-- The port lies in the device, as the code compares. -/
def admits (dev : IoDevice) : Bool :=
  dev.ioportAddr ≤ Fpage.ioPortWord A fpage &&
    A.add (Fpage.ioPortWord A fpage) (Fpage.ioSizeWord A fpage) < dev.ioportEnd

/-- The loop over the names of an application's devices, for one device. -/
def checkNames (dev : IoDevice) : List Name → Except Fault Bool
  | [] => .error (.beyond "devs")
  | dname :: rest =>
    if isEmpty dname then .ok false
    else if sameName dname dev.name && admits A fpage dev then .ok true
    else checkNames dev rest

/-- The loop over the devices of the board. -/
def checkDevices (cfg : AppConfig) : List IoDevice → Except Fault Bool
  | [] => .error (.beyond "devices")
  | dev :: rest => do
    if ← checkNames A fpage dev cfg.devs then pure true
    else
      match rest with
      | [] => .error (.beyond "devices")
      | next :: _ => if isEmpty next.name then pure false else checkDevices cfg rest

end

/-- The registers of a reply that maps a flexpage. -/
def reply (A : Arch) (fpage : Nat) : List Nat := [Tag.setIpc A 0 0 2, Item.mapWord0 A, fpage]

/-- `process_io_pfault`: the registers of the reply. -/
def processIoPfault (A : Arch) (proj : ProjConfig) (userBase untyped typed fpage sender : Nat) :
    Except Fault (List Nat) := do
  ensure (untyped = 2) (.assertion "tag.untyped() == 2")
  ensure (typed = 0) (.assertion "tag.typed() == 0")
  ensure (Fpage.isIo fpage = true) (.assertion "fpage.is_io()")
  ensure (Fpage.ioSizeWord A fpage = 1) (.assertion "fpage.io_size() == 1")
  let ok ← match ← findApp (Thrid.number A sender) (userBase + 2) proj.apps with
    | none => pure false
    | some cfg => checkDevices A fpage cfg proj.devices
  pure (reply A (if ok then fpage else Fpage.complete))

/-! ## The policy -/

/-- The names of the devices that an application lists. -/
def listed (cfg : AppConfig) : List Name := cfg.devs.takeWhile fun n => !isEmpty n

/-- The devices of a board. -/
def devicesOf : List IoDevice → List IoDevice
  | [] => []
  | dev :: rest => dev :: rest.takeWhile fun d => !isEmpty d.name

/-- The application lists the device. -/
def Lists (cfg : AppConfig) (dev : IoDevice) : Prop := ∃ n ∈ listed cfg, sameName n dev.name = true

/-- A device that the application lists has the port. -/
def InRange (proj : ProjConfig) (cfg : AppConfig) (port : Nat) : Prop :=
  ∃ dev ∈ devicesOf proj.devices, Lists cfg dev ∧ dev.ioportAddr ≤ port ∧
    port < dev.ioportAddr + dev.ioportSz

/-- The thread with this number is one of the application's: the applications before it have the numbers
before its own. -/
def Owns (proj : ProjConfig) (userBase num : Nat) (cfg : AppConfig) : Prop :=
  ∃ pre post, proj.apps = pre ++ cfg :: post ∧ (∀ a ∈ (pre ++ [cfg]).tail, isEmpty a.name = false) ∧
    userBase + 2 + (pre.map AppConfig.maxThreads).sum ≤ num ∧
    num < userBase + 2 + (pre.map AppConfig.maxThreads).sum + cfg.maxThreads

/-- What a fault at the port ends in: the port and no other is mapped if a device of the application has it,
and nothing is mapped if none has. -/
def Policy (A : Arch) (proj : ProjConfig) (userBase sender : Nat) (cfg : AppConfig) (port : Nat) : Prop :=
  ∃ r, processIoPfault A proj userBase 2 0 (Fpage.setIo A port 1) sender = .ok r ∧
    (InRange proj cfg port → r = reply A (Fpage.setIo A port 1) ∧
      Fpage.ioPortWord A (Fpage.setIo A port 1) = port ∧
      Fpage.ioSizeWord A (Fpage.setIo A port 1) = 1) ∧
    (¬ InRange proj cfg port → r = reply A Fpage.complete)

/-- The application lists the device, and the device has the port and the one behind it. -/
def Inner (cfg : AppConfig) (port : Nat) (dev : IoDevice) : Prop :=
  Lists cfg dev ∧ dev.ioportAddr ≤ port ∧ port + 1 < dev.ioportEnd

/-- The walk along the names ends in their table. -/
def NamesEnd (proj : ProjConfig) (cfg : AppConfig) (port : Nat) : Prop :=
  (∃ n ∈ cfg.devs, isEmpty n = true) ∨ ∃ dev ∈ proj.devices.head?, Inner cfg port dev

/-- The walk along the devices ends in their table. -/
def DevicesEnd (proj : ProjConfig) (cfg : AppConfig) (port : Nat) : Prop :=
  (∃ d ∈ proj.devices.tail, isEmpty d.name = true) ∨ ∃ dev ∈ devicesOf proj.devices, Inner cfg port dev

variable {A : Arch} {proj : ProjConfig} {cfg : AppConfig} {port num first fpage : Nat} {dev : IoDevice}

theorem findApp_of_owns {pre post : List AppConfig}
    (hnames : ∀ a ∈ (pre ++ [cfg]).tail, isEmpty a.name = false)
    (hlo : first + (pre.map AppConfig.maxThreads).sum ≤ num)
    (hhi : num < first + (pre.map AppConfig.maxThreads).sum + cfg.maxThreads) :
    findApp num first (pre ++ cfg :: post) = .ok (some cfg) := by
  induction pre generalizing first with
  | nil =>
    exact if_pos ⟨hlo, hhi⟩
  | cons a pre ih =>
    rw [List.map_cons, List.sum_cons] at hlo hhi
    have hnext : findApp num (first + a.maxThreads) (pre ++ cfg :: post) = .ok (some cfg) := by
      refine ih (fun b hb => hnames b ?_) (by omega) (by omega)
      exact List.mem_of_mem_tail hb
    cases pre with
    | nil =>
      have hname := hnames cfg (List.mem_singleton_self cfg)
      refine (if_neg (by omega)).trans ((if_neg ?_).trans hnext)
      rw [hname]
      exact Bool.false_ne_true
    | cons b pre =>
      have hname := hnames b List.mem_cons_self
      refine (if_neg (by omega)).trans ((if_neg ?_).trans hnext)
      rw [hname]
      exact Bool.false_ne_true

/-! ### The walks -/

/-- The application lists the device and the code compares the port into it. -/
def Grants (A : Arch) (fpage : Nat) (cfg : AppConfig) (dev : IoDevice) : Prop :=
  Lists cfg dev ∧ admits A fpage dev = true

theorem checkNames_eq (A : Arch) (fpage : Nat) (dev : IoDevice) (names : List Name) :
    checkNames A fpage dev names = .ok true ∧
        ((∃ n ∈ names.takeWhile (fun n => !isEmpty n), sameName n dev.name = true) ∧
          admits A fpage dev = true) ∨
      ¬ ((∃ n ∈ names.takeWhile (fun n => !isEmpty n), sameName n dev.name = true) ∧
          admits A fpage dev = true) ∧
        ((∃ n ∈ names, isEmpty n = true) ∧ checkNames A fpage dev names = .ok false ∨
          (¬ ∃ n ∈ names, isEmpty n = true) ∧ ∃ e, checkNames A fpage dev names = .error e) := by
  induction names with
  | nil => exact .inr ⟨fun h => by simp at h, .inr ⟨by simp, _, rfl⟩⟩
  | cons dname rest ih =>
    rw [checkNames]
    cases hempty : isEmpty dname with
    | true =>
      refine .inr ⟨fun h => ?_, .inl ⟨⟨dname, List.mem_cons_self, hempty⟩, if_pos rfl⟩⟩
      simp [hempty] at h
    | false =>
      rw [if_neg Bool.false_ne_true, List.takeWhile_cons_of_pos (by simp [hempty])]
      by_cases hhere : (sameName dname dev.name && admits A fpage dev) = true
      · rw [if_pos hhere]
        rw [Bool.and_eq_true] at hhere
        exact .inl ⟨rfl, ⟨dname, List.mem_cons_self, hhere.1⟩, hhere.2⟩
      · rw [if_neg hhere]
        rw [Bool.and_eq_true] at hhere
        have hlater : ((∃ n ∈ dname :: rest.takeWhile (fun n => !isEmpty n),
            sameName n dev.name = true) ∧ admits A fpage dev = true) ↔
            (∃ n ∈ rest.takeWhile (fun n => !isEmpty n), sameName n dev.name = true) ∧
              admits A fpage dev = true := by
          rw [List.exists_mem_cons_iff, or_and_right, or_iff_right hhere]
        have hend : (∃ n ∈ dname :: rest, isEmpty n = true) ↔ ∃ n ∈ rest, isEmpty n = true := by
          rw [List.exists_mem_cons_iff, hempty]
          exact or_iff_right Bool.false_ne_true
        rw [hlater, hend]
        exact ih

/-- With a table of names that ends, the walk along the devices finds one that grants the port, or none. -/
theorem checkDevices_of_end (A : Arch) (fpage : Nat) (hend : ∃ n ∈ cfg.devs, isEmpty n = true)
    (devices : List IoDevice) :
    checkDevices A fpage cfg devices = .ok true ∧ (∃ d ∈ devicesOf devices, Grants A fpage cfg d) ∨
      (¬ ∃ d ∈ devicesOf devices, Grants A fpage cfg d) ∧
        ((∃ d ∈ devices.tail, isEmpty d.name = true) ∧ checkDevices A fpage cfg devices = .ok false ∨
          (¬ ∃ d ∈ devices.tail, isEmpty d.name = true) ∧
            ∃ e, checkDevices A fpage cfg devices = .error e) := by
  induction devices with
  | nil => exact .inr ⟨fun h => by simp [devicesOf] at h, .inr ⟨by simp, _, rfl⟩⟩
  | cons dev rest ih =>
    rcases checkNames_eq A fpage dev cfg.devs with
      ⟨hok, hgrants⟩ | ⟨hnot, ⟨-, hok⟩ | ⟨hno, -⟩⟩
    · refine .inl ⟨?_, dev, List.mem_cons_self, hgrants⟩
      rw [checkDevices.eq_def]
      simp only [hok]
      rfl
    · cases rest with
      | nil =>
        have hstep : checkDevices A fpage cfg [dev] = .error (.beyond "devices") := by
          rw [checkDevices.eq_def]
          simp only [hok]
          rfl
        refine .inr ⟨fun h => ?_, .inr ⟨by simp, _, hstep⟩⟩
        obtain ⟨d, hd, hgrants⟩ := h
        obtain rfl := List.mem_singleton.mp hd
        exact hnot hgrants
      | cons next rest =>
        have hstep : checkDevices A fpage cfg (dev :: next :: rest) =
            if isEmpty next.name then pure false else checkDevices A fpage cfg (next :: rest) := by
          rw [checkDevices.eq_def]
          simp only [hok]
          rfl
        cases hempty : isEmpty next.name with
        | true =>
          refine .inr ⟨fun h => ?_, .inl ⟨⟨next, List.mem_cons_self, hempty⟩, ?_⟩⟩
          · obtain ⟨d, hd, hgrants⟩ := h
            simp only [devicesOf, hempty, List.takeWhile_cons, Bool.not_true, Bool.false_eq_true,
              if_false, List.mem_singleton] at hd
            exact hnot (hd ▸ hgrants)
          · exact hstep.trans (if_pos hempty)
        | false =>
          have hrest : checkDevices A fpage cfg (dev :: next :: rest) =
              checkDevices A fpage cfg (next :: rest) :=
            hstep.trans (if_neg (by rw [hempty]; exact Bool.false_ne_true))
          have hdevices : (∃ d ∈ devicesOf (dev :: next :: rest), Grants A fpage cfg d) ↔
              ∃ d ∈ devicesOf (next :: rest), Grants A fpage cfg d := by
            simp only [devicesOf]
            rw [List.takeWhile_cons_of_pos (by simp [hempty]), List.exists_mem_cons_iff]
            exact or_iff_right hnot
          have htail : (∃ d ∈ (dev :: next :: rest).tail, isEmpty d.name = true) ↔
              ∃ d ∈ (next :: rest).tail, isEmpty d.name = true := by
            show (∃ d ∈ next :: rest, isEmpty d.name = true) ↔ _
            rw [List.exists_mem_cons_iff, hempty]
            exact or_iff_right Bool.false_ne_true
          rw [hrest, hdevices, htail]
          exact ih
    · exact absurd hend hno

/-- With a full table of names, only the first device can grant the port. -/
theorem checkDevices_of_full (A : Arch) (fpage : Nat) (hfull : ¬ ∃ n ∈ cfg.devs, isEmpty n = true)
    (devices : List IoDevice) :
    checkDevices A fpage cfg devices = .ok true ∧ (∃ d ∈ devices.head?, Grants A fpage cfg d) ∨
      (¬ ∃ d ∈ devices.head?, Grants A fpage cfg d) ∧
        ∃ e, checkDevices A fpage cfg devices = .error e := by
  cases devices with
  | nil => exact .inr ⟨by simp, _, rfl⟩
  | cons dev rest =>
    rcases checkNames_eq A fpage dev cfg.devs with
      ⟨hok, hgrants⟩ | ⟨hnot, ⟨hend, -⟩ | ⟨-, e, herr⟩⟩
    · refine .inl ⟨?_, dev, rfl, hgrants⟩
      rw [checkDevices.eq_def]
      simp only [hok]
      rfl
    · exact absurd hend hfull
    · refine .inr ⟨?_, e, ?_⟩
      · rintro ⟨d, hd, hgrants⟩
        obtain rfl := Option.some.inj hd
        exact hnot hgrants
      · rw [checkDevices.eq_def]
        simp only [herr]
        rfl

/-! ### The flexpage of a fault -/

theorem ioportEnd_lt (dev : IoDevice) : dev.ioportEnd < 0x8000 := by
  have h1 : dev.ioportAddr < 0x1000 := Nat.mod_lt _ (by decide)
  have h2 : dev.ioportSz < 0x10 := Nat.mod_lt _ (by decide)
  unfold IoDevice.ioportEnd
  omega

/-- The fault at a port, but for the last, comes as a flexpage of one port. -/
theorem setIo_port (A : Arch) (hport : port < 0xffff) :
    Fpage.setIo A port 1 = Fpage.ioWord A port 1 ∧ Fpage.isIo (Fpage.setIo A port 1) = true ∧
      Fpage.ioSizeWord A (Fpage.setIo A port 1) = 1 := by
  have hbig : 2 ^ 32 ≤ 2 ^ A.wordBits := Nat.pow_le_pow_right (by decide) (by cases A <;> decide)
  have hrange : Fpage.PortRange port 1 := ⟨⟨⟨0, rfl⟩, one_dvd port⟩, hport⟩
  have hset : Fpage.setIo A port 1 = Fpage.ioWord A port 1 := by
    have hone : 1 < 2 ^ A.wordBits := by omega
    rcases Fpage.setIo_eq (show port < 2 ^ A.wordBits by omega) hone with h | h
    · exact h.1
    · exact absurd hrange h.2
  refine ⟨hset, ?_, ?_⟩
  · rw [hset]
    unfold Fpage.isIo Lib.bits Fpage.ioWord
    rw [beq_iff_eq]
    omega
  · rw [hset, Fpage.ioSizeWord_ioWord]
    cases A <;> rfl

/-- The code compares the port with the end as if one more were used. -/
theorem admits_iff (hport : port < 0xffff) : admits A (Fpage.setIo A port 1) dev = true ↔
    dev.ioportAddr ≤ port ∧ port + 1 < dev.ioportEnd := by
  obtain ⟨hset, -, hsize⟩ := setIo_port A hport
  have hend := ioportEnd_lt dev
  have hw : A.wordBits = 32 ∨ A.wordBits = 64 := by cases A <;> decide
  have hbase : Lib.bits (Fpage.ioWord A port 1) 16 (A.wordBits - 16) = port :=
    Fpage.bits_ioWord (Nat.le_of_lt hport)
  unfold admits
  rw [hsize, hset]
  unfold Fpage.ioPortWord Arch.add
  rw [hbase, Bool.and_eq_true, decide_eq_true_eq, decide_eq_true_eq]
  dsimp only
  rcases hw with hw | hw
  · rw [hw]
    split_ifs <;> omega
  · rw [hw]
    split_ifs <;> omega

/-- Of a device the port is read back as it was. -/
theorem ioPortWord_of_lt (A : Arch) (hport : port < 0x8000) :
    Fpage.ioPortWord A (Fpage.setIo A port 1) = port := by
  rw [(setIo_port A (by omega)).1]
  exact (Fpage.ioPortWord_ioWord (by omega)).mpr (.inr hport)

/-- The last port comes as the nil flexpage, which is not one of ports. -/
theorem setIo_last (A : Arch) : Fpage.isIo (Fpage.setIo A 0xffff 1) = false := by
  cases A <;> decide

/-! ### The result -/

/-- The handler, for a thread of an application. -/
theorem processIoPfault_eq {userBase sender : Nat} (hport : port < 0xffff)
    (howns : Owns proj userBase (Thrid.number A sender) cfg) :
    processIoPfault A proj userBase 2 0 (Fpage.setIo A port 1) sender =
      checkDevices A (Fpage.setIo A port 1) cfg proj.devices >>= fun ok =>
        .ok (reply A (if ok then Fpage.setIo A port 1 else Fpage.complete)) := by
  obtain ⟨-, hio, hsize⟩ := setIo_port A hport
  obtain ⟨pre, post, happs, hnames, hlo, hhi⟩ := howns
  unfold processIoPfault
  rw [Lib.ensure_bind_of rfl, Lib.ensure_bind_of rfl, Lib.ensure_bind_of hio, Lib.ensure_bind_of hsize,
    happs, findApp_of_owns hnames hlo hhi]
  rfl

theorem InRange.of_inner (hdev : dev ∈ devicesOf proj.devices) (h : Inner cfg port dev) :
    InRange proj cfg port := by
  obtain ⟨hlists, hlo, hhi⟩ := h
  unfold IoDevice.ioportEnd at hhi
  exact ⟨dev, hdev, hlists, hlo, by omega⟩

theorem InRange.lt (h : InRange proj cfg port) : port < 0x8000 := by
  obtain ⟨dev, -, -, -, hhi⟩ := h
  exact Nat.lt_trans hhi (ioportEnd_lt dev)

/-- When the walks end, the policy is kept if the port is mapped for a device that has it, and not otherwise. -/
theorem policy_of_ok {userBase sender : Nat} {ok : Bool} (hport : port < 0xffff)
    (howns : Owns proj userBase (Thrid.number A sender) cfg)
    (hwalk : checkDevices A (Fpage.setIo A port 1) cfg proj.devices = .ok ok) :
    Policy A proj userBase sender cfg port ↔ (InRange proj cfg port ↔ ok = true) := by
  have hrun := processIoPfault_eq hport howns
  rw [hwalk] at hrun
  obtain ⟨-, hio, hsize⟩ := setIo_port A hport
  have hne : reply A (Fpage.setIo A port 1) ≠ reply A Fpage.complete := by
    intro h
    have hfp : Fpage.setIo A port 1 = Fpage.complete := by
      unfold reply at h
      simpa using h
    rw [hfp] at hio
    exact absurd hio (by decide)
  unfold Policy
  rw [hrun]
  cases ok with
  | true =>
    constructor
    · rintro ⟨r, hr, -, hout⟩
      refine iff_of_true (by_contra fun hnot => hne ?_) rfl
      exact (Except.ok.inj hr).trans (hout hnot)
    · intro h
      have hin := h.mpr rfl
      exact ⟨_, rfl, fun _ => ⟨rfl, ioPortWord_of_lt A hin.lt, hsize⟩, fun hnot => absurd hin hnot⟩
  | false =>
    constructor
    · rintro ⟨r, hr, hin, -⟩
      refine iff_of_false (fun h => hne ?_) Bool.false_ne_true
      exact (hin h).1.symm.trans (Except.ok.inj hr).symm
    · intro h
      exact ⟨_, rfl, fun hin => absurd (h.mp hin) Bool.false_ne_true, fun _ => rfl⟩

/-- When a walk leaves its table, the policy is not kept. -/
theorem not_policy_of_error {userBase sender : Nat} {e : Fault} (hport : port < 0xffff)
    (howns : Owns proj userBase (Thrid.number A sender) cfg)
    (hwalk : checkDevices A (Fpage.setIo A port 1) cfg proj.devices = .error e) :
    ¬ Policy A proj userBase sender cfg port := by
  rintro ⟨r, hr, -⟩
  rw [processIoPfault_eq hport howns, hwalk] at hr
  cases hr

/-- **The policy for faults at ports** holds of every fault of an application, but for the last of all ports,
where the walks end in their tables, if and only if a port that a device of the application has is never the
last one of all such devices that have it. -/
theorem policy_iff_inner (A : Arch) (proj : ProjConfig) (userBase sender : Nat) (cfg : AppConfig)
    (port : Nat) (hport : port ≤ 0xffff)
    (howns : Owns proj userBase (Thrid.number A sender) cfg) :
    Policy A proj userBase sender cfg port ↔ port ≠ 0xffff ∧ NamesEnd proj cfg port ∧
      DevicesEnd proj cfg port ∧
      (InRange proj cfg port → ∃ dev ∈ devicesOf proj.devices, Inner cfg port dev) := by
  by_cases hlast : port = 0xffff
  · subst hlast
    refine iff_of_false ?_ fun h => h.1 rfl
    rintro ⟨r, hr, -⟩
    unfold processIoPfault at hr
    obtain ⟨-, hr⟩ := ensure_bind_eq_ok.mp hr
    obtain ⟨-, hr⟩ := ensure_bind_eq_ok.mp hr
    obtain ⟨hio, -⟩ := ensure_bind_eq_ok.mp hr
    rw [setIo_last] at hio
    cases hio
  have hport' : port < 0xffff := by omega
  have hgrants : ∀ d, Grants A (Fpage.setIo A port 1) cfg d ↔ Inner cfg port d := fun d =>
    and_congr_right' (admits_iff hport')
  by_cases hend : ∃ n ∈ cfg.devs, isEmpty n = true
  · have hwalk := checkDevices_of_end A (Fpage.setIo A port 1) hend proj.devices
    simp only [hgrants] at hwalk
    rcases hwalk with ⟨hok, hinner⟩ | ⟨hnone, ⟨htail, hok⟩ | ⟨htail, e, herr⟩⟩
    · obtain ⟨dev, hdev, h⟩ := hinner
      refine (policy_of_ok hport' howns hok).trans (iff_of_true ?_ ?_)
      · exact iff_of_true (.of_inner hdev h) rfl
      · exact ⟨hlast, .inl hend, .inr ⟨dev, hdev, h⟩, fun _ => ⟨dev, hdev, h⟩⟩
    · refine (policy_of_ok hport' howns hok).trans ?_
      constructor
      · intro h
        exact ⟨hlast, .inl hend, .inl htail, fun hin => absurd (h.mp hin) Bool.false_ne_true⟩
      · rintro ⟨-, -, -, h⟩
        exact iff_of_false (fun hin => hnone (h hin)) Bool.false_ne_true
    · refine iff_of_false (not_policy_of_error hport' howns herr) ?_
      rintro ⟨-, -, htail' | hinner, -⟩
      · exact htail htail'
      · exact hnone hinner
  · have hwalk := checkDevices_of_full A (Fpage.setIo A port 1) hend proj.devices
    simp only [hgrants] at hwalk
    rcases hwalk with ⟨hok, dev, hhead, h⟩ | ⟨hnone, e, herr⟩
    · have hdev : dev ∈ devicesOf proj.devices := by
        rw [Option.mem_def, List.head?_eq_some_iff] at hhead
        obtain ⟨rest, hrest⟩ := hhead
        rw [hrest]
        exact List.mem_cons_self
      refine (policy_of_ok hport' howns hok).trans (iff_of_true ?_ ?_)
      · exact iff_of_true (.of_inner hdev h) rfl
      · exact ⟨hlast, .inr ⟨dev, hhead, h⟩, .inr ⟨dev, hdev, h⟩, fun _ => ⟨dev, hdev, h⟩⟩
    · refine iff_of_false (not_policy_of_error hport' howns herr) ?_
      rintro ⟨-, hnames | hinner, -⟩
      · exact hend hnames
      · exact hnone hinner

/-- `uart`, as the name of a device. -/
def uart : Name := inArray devNameSz [117, 97, 114, 116]

/-- A serial line with the ports from `0x3f8` to `0x3ff`, and an application that lists it. -/
def serial : IoDevice := ⟨uart, 0x3f8, 8, 4⟩

def driver : AppConfig := { AppConfig.zero with
  name := inArray appNameSz [100]
  maxThreads := 4
  devs := uart :: List.replicate (devListSz - 1) (inArray devNameSz []) }

def board : ProjConfig where
  devices := serial :: List.replicate (devsMax - 1) .zero
  mems := []
  apps := driver :: List.replicate (appsMax - 1) .zero

/-- The thread 66 of the application, when the user threads begin at 64. -/
def driverThread : Nat := 66 * 2 ^ 14 + 1

theorem driver_owns : Owns board 64 (Thrid.number .x86 driverThread) driver :=
  ⟨[], List.replicate (appsMax - 1) .zero, rfl, by decide, by decide, by decide⟩

theorem serial_listed : serial ∈ devicesOf board.devices ∧ Lists driver serial :=
  ⟨List.mem_cons_self, uart, List.mem_cons_self, rfl⟩

/-- The first port of the line is mapped. -/
theorem serial_first : Policy .x86 board 64 driverThread driver 0x3f8 :=
  (policy_iff_inner .x86 board 64 driverThread driver 0x3f8 (by decide) driver_owns).mpr
    ⟨by decide, .inl ⟨inArray devNameSz [], List.mem_cons_of_mem _ List.mem_cons_self, rfl⟩,
      .inl ⟨.zero, List.mem_cons_self, rfl⟩, fun _ =>
        ⟨serial, serial_listed.1, serial_listed.2, by decide, by decide⟩⟩

/-- The last port of the line is not. -/
theorem serial_last : ¬ Policy .x86 board 64 driverThread driver 0x3ff := by
  have hrun : processIoPfault .x86 board 64 2 0 (Fpage.setIo .x86 0x3ff 1) driverThread =
      .ok (reply .x86 Fpage.complete) := by
    rfl
  have hin : InRange board driver 0x3ff :=
    ⟨serial, serial_listed.1, serial_listed.2, by decide, by decide⟩
  rintro ⟨r, hr, hmapped, -⟩
  rw [hrun] at hr
  have hreply := (Except.ok.inj hr).trans (hmapped hin).1
  exact absurd hreply (by decide)

end IoFault
end Wrmos
