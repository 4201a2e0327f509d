import Wrmos.AlphaAppsSpec
import Wrmos.AlphaParseSpec
import Wrmos.AlphaDevices

/-!
# Who gets a device, an interrupt or a memory

A thread belongs to the application in whose range its number is, as `main` hands the numbers out when it
creates the applications (`owner_iff_created`).  What a request is given has the name of the request, and
the entry of the thread's application lists it; the names of a configuration are shorter than the bound of
the comparisons, so that the words behind a name make no difference.

A request that is given nothing is refused, if the walks of its handler end.  They do not in full tables:
behind the last of 32 devices, 32 names of devices or 16 names of memories there is no empty name.  Those are
the only requests that are not answered as they should be (`policy_iff_ends`).
-/

namespace Wrmos
namespace AlphaDevices

open Lib
open AlphaConfig
open IoFault (devicesOf findApp)

/-! ## The policy -/

/-- The applications of a project. -/
def appsOf : List AppConfig → List AppConfig
  | [] => []
  | app :: rest => app :: rest.takeWhile fun a => !isEmpty a.name

/-- The loop of `main` over the applications: each with its first thread number. -/
def assign : Nat → List AppConfig → List (Nat × AppConfig)
  | _, [] => []
  | next, app :: rest => (next, app) :: assign (next + app.maxThreads) rest

/-- The thread number is in the range of the application with this entry. -/
def InRange (first : Nat) (apps : List AppConfig) (num : Nat) (cfg : AppConfig) : Prop :=
  ∃ no, (no, cfg) ∈ assign first (appsOf apps) ∧ no ≤ num ∧ num < no + cfg.maxThreads

/-- The application lists the name of the request. -/
def Lists (names : List Name) (mr : List UInt8) : Prop :=
  ∃ name ∈ names.takeWhile fun n => !isEmpty n, cstr name = cstr mr

/-- A device of the board with the name of the request. -/
def OnBoard (proj : ProjConfig) (mr : List UInt8) : Prop :=
  ∃ dev ∈ devicesOf proj.devices, cstr dev.name = cstr mr

section

variable (A : Arch) (proj : ProjConfig) (userBase : Nat) (regions : List NamedRegion) (krn : KCall → Nat)

/-- The thread that sends the request is one of the application with this entry. -/
def Owner (r : Request) (cfg : AppConfig) : Prop :=
  InRange (userBase + 2) proj.apps (Thrid.number A r.sender) cfg

/-- There is something with the name of the request, and the application lists it. -/
def Allowed (r : Request) (cfg : AppConfig) : Kind → Prop
  | .namedMem => Lists cfg.mems r.mr ∧ ∃ m ∈ location regions r.mr, m.2 ≠ Fpage.nil
  | _ => Lists cfg.devs r.mr ∧ OnBoard proj r.mr

/-- An error code, without a system call and with nothing that is mapped. -/
def Answer.Refuses (a : Answer) (kind : Kind) : Prop := ∃ code, code ≠ 0 ∧ a = refusal A kind code

/-- The answer is about a device or a memory with the name of the request that the application lists. -/
def Gives (r : Request) (cfg : AppConfig) (a : Answer) : Kind → Prop
  | .mapIo => Lists cfg.devs r.mr ∧
      ∃ dev ∈ devicesOf proj.devices, cstr dev.name = cstr r.mr ∧ mapDevice A dev = .ok a
  | .namedMem => Lists cfg.mems r.mr ∧
      ∃ it ∈ regions, cstr it.region.name = cstr r.mr ∧
        a = mapMemory A it.region (it.locations.headD Fpage.nil)
  | action => Lists cfg.devs r.mr ∧
      ∃ dev ∈ devicesOf proj.devices, cstr dev.name = cstr r.mr ∧ a = setHandler A krn action r.sender dev

/-- Only what the application of the sender lists is given, and every other request is refused. -/
def Policy (kind : Kind) (r : Request) : Prop :=
  (∀ a, serve A proj userBase regions krn kind r = .ok a →
    a.Refuses A kind ∨ ∃ cfg, Owner A proj userBase r cfg ∧ Gives A proj regions krn r cfg a kind) ∧
  ((¬ ∃ cfg, Owner A proj userBase r cfg ∧ Allowed proj regions r cfg kind) →
    ∃ a, serve A proj userBase regions krn kind r = .ok a ∧ a.Refuses A kind)

/-- The walk along the names ends in their table. -/
def NamesEnd (names : List Name) (mr : List UInt8) : Prop :=
  Lists names mr ∨ ∃ n ∈ names, isEmpty n = true

/-- The walks behind the one along the applications end in their tables. -/
def EntryEnds (r : Request) (cfg : AppConfig) : Kind → Prop
  | .namedMem => NamesEnd cfg.mems r.mr
  | _ => (OnBoard proj r.mr ∨ ∃ d ∈ proj.devices.tail, isEmpty d.name = true) ∧
      (OnBoard proj r.mr → NamesEnd cfg.devs r.mr)

/-- The walks of the handler end in their tables. -/
def Ends (kind : Kind) (r : Request) : Prop :=
  ((∃ cfg, Owner A proj userBase r cfg) ∨ ∃ a ∈ proj.apps.tail, isEmpty a.name = true) ∧
    ∀ cfg, Owner A proj userBase r cfg → EntryEnds proj r cfg kind

end

variable {A : Arch} {proj : ProjConfig} {userBase first num : Nat} {regions : List NamedRegion}
  {krn : KCall → Nat} {r : Request} {kind : Kind} {cfg : AppConfig} {apps : List AppConfig} {mr : List UInt8}

/-! ## Names -/

/-- A string that ends within the bound is compared to its end. -/
theorem strncmp_eq_zero_iff {name : Name} (h : 0 ∈ name) {n : Nat} (hn : name.length ≤ n) :
    strncmp name mr n = 0 ↔ cstr name = cstr mr := by
  induction name generalizing mr n with
  | nil => exact absurd h List.not_mem_nil
  | cons b name ih =>
    obtain ⟨n, rfl⟩ : ∃ k, n = k + 1 := ⟨n - 1, by rw [List.length_cons] at hn; omega⟩
    have hhead : cstr mr = if deref mr = 0 then [] else deref mr :: cstr mr.tail := by
      cases mr with
      | nil => rfl
      | cons m mr => by_cases hm : m = 0 <;> simp [cstr, deref, hm]
    have hname : cstr (b :: name) = if b = 0 then [] else b :: cstr name := by
      by_cases hb : b = 0 <;> simp [cstr, hb]
    rw [strncmp, hhead, hname]
    show (if b ≠ deref mr then _ else if b = 0 then 0 else strncmp name mr.tail n) = 0 ↔ _
    by_cases hb : b = deref mr
    · rw [if_neg (not_not.mpr hb), ← hb]
      by_cases h0 : b = 0
      · rw [if_pos h0, if_pos h0, if_pos h0]
        exact iff_of_true rfl rfl
      · have hrest : 0 ∈ name := (List.mem_cons.mp h).resolve_left (Ne.symm h0)
        rw [if_neg h0, if_neg h0, if_neg h0, List.cons_inj_right]
        exact ih hrest (Nat.le_of_succ_le_succ hn)
    · rw [if_pos hb]
      refine iff_of_false ?_ ?_
      · split_ifs <;> decide
      · split_ifs with h0 h1
        · exact absurd (h0.trans h1.symm) hb
        · exact not_false
        · exact not_false
        · exact fun heq => hb (List.cons.inj heq).1

/-- The names of a configuration are compared to their ends. -/
theorem sameName_iff {name : Name} (h : NameWf 16 name) :
    sameName A name mr = true ↔ cstr name = cstr mr := by
  have hmem : 0 ∈ name := List.mem_of_getLast? h.last
  have hlen : name.length ≤ nameLenMax A := by
    rw [h.length]
    cases A <;> decide
  unfold sameName
  rw [beq_iff_eq]
  exact strncmp_eq_zero_iff hmem hlen

/-! ## The walks -/

theorem appsOf_cons_cons (a b : AppConfig) (l : List AppConfig) :
    appsOf (a :: b :: l) = if isEmpty b.name then [a] else a :: appsOf (b :: l) := by
  cases h : isEmpty b.name <;> simp [appsOf, h]

theorem devicesOf_cons_cons (a b : IoDevice) (l : List IoDevice) :
    devicesOf (a :: b :: l) = if isEmpty b.name then [a] else a :: devicesOf (b :: l) := by
  cases h : isEmpty b.name <;> simp [devicesOf, h]

theorem le_of_mem_assign {no : Nat} (h : (no, cfg) ∈ assign first apps) : first ≤ no := by
  induction apps generalizing first with
  | nil => exact absurd h List.not_mem_nil
  | cons a apps ih =>
    rcases List.mem_cons.mp h with heq | h
    · exact (Prod.mk.inj heq).1.ge
    · exact (Nat.le_add_right _ _).trans (ih h)

/-- The walk along the applications finds the one that `main` gave the thread's number to. -/
theorem findApp_cases (num first : Nat) (apps : List AppConfig) :
    (∃ cfg, findApp num first apps = .ok (some cfg) ∧ ∀ c, InRange first apps num c ↔ c = cfg) ∨
      (∀ c, ¬ InRange first apps num c) ∧
        ((∃ a ∈ apps.tail, isEmpty a.name = true) ∧ findApp num first apps = .ok none ∨
          (¬ ∃ a ∈ apps.tail, isEmpty a.name = true) ∧ ∃ e, findApp num first apps = .error e) := by
  induction apps generalizing first with
  | nil =>
    refine .inr ⟨fun c => ?_, .inr ⟨fun h => ?_, _, rfl⟩⟩
    · rintro ⟨no, hmem, -⟩
      exact absurd hmem List.not_mem_nil
    · obtain ⟨a, ha, -⟩ := h
      exact absurd ha List.not_mem_nil
  | cons app rest ih =>
    by_cases hin : first ≤ num ∧ num < first + app.maxThreads
    · refine .inl ⟨app, if_pos hin, fun c => ⟨?_, ?_⟩⟩
      · rintro ⟨no, hmem, hlo, -⟩
        rcases List.mem_cons.mp hmem with heq | hmem
        · exact (Prod.mk.inj heq).2
        · have := le_of_mem_assign hmem
          omega
      · rintro rfl
        exact ⟨first, List.mem_cons_self, hin⟩
    · have hlast : ∀ c, ¬ InRange first [app] num c := by
        rintro c ⟨no, hmem, hrange⟩
        obtain ⟨rfl, rfl⟩ := Prod.mk.inj (List.mem_singleton.mp hmem)
        exact hin hrange
      cases rest with
      | nil =>
        refine .inr ⟨hlast, .inr ⟨fun h => ?_, _, if_neg hin⟩⟩
        obtain ⟨a, ha, -⟩ := h
        exact absurd ha List.not_mem_nil
      | cons next rest =>
        have hstep : findApp num first (app :: next :: rest) =
            if isEmpty next.name then .ok none else findApp num (first + app.maxThreads) (next :: rest) :=
          if_neg hin
        cases hempty : isEmpty next.name with
        | true =>
          rw [hempty, if_pos rfl] at hstep
          have hone : appsOf (app :: next :: rest) = [app] := by rw [appsOf_cons_cons, if_pos hempty]
          refine .inr ⟨fun c => ?_, .inl ⟨⟨next, List.mem_cons_self, hempty⟩, hstep⟩⟩
          unfold InRange
          rw [hone]
          exact hlast c
        | false =>
          rw [hempty, if_neg Bool.false_ne_true] at hstep
          have hmore : appsOf (app :: next :: rest) = app :: appsOf (next :: rest) := by
            rw [appsOf_cons_cons, hempty, if_neg Bool.false_ne_true]
          have hrange : ∀ c, InRange first (app :: next :: rest) num c ↔
              InRange (first + app.maxThreads) (next :: rest) num c := by
            intro c
            unfold InRange
            rw [hmore]
            refine exists_congr fun no => and_congr_left fun hno => ?_
            refine List.mem_cons.trans (or_iff_right fun heq => ?_)
            obtain ⟨rfl, rfl⟩ := Prod.mk.inj heq
            exact hin hno
          have htail : (∃ a ∈ (app :: next :: rest).tail, isEmpty a.name = true) ↔
              ∃ a ∈ (next :: rest).tail, isEmpty a.name = true := by
            show (∃ a ∈ next :: rest, isEmpty a.name = true) ↔ _
            rw [List.exists_mem_cons_iff, hempty]
            exact or_iff_right Bool.false_ne_true
          simp only [hrange, htail, hstep]
          exact ih (first + app.maxThreads)

/-- The walk along the devices finds one with the name. -/
theorem findDevice_cases (A : Arch) (mr : List UInt8) (devices : List IoDevice) :
    (∃ dev ∈ devicesOf devices, sameName A dev.name mr = true ∧ findDevice A mr devices = .ok (some dev)) ∨
      (¬ ∃ dev ∈ devicesOf devices, sameName A dev.name mr = true) ∧
        ((∃ d ∈ devices.tail, isEmpty d.name = true) ∧ findDevice A mr devices = .ok none ∨
          (¬ ∃ d ∈ devices.tail, isEmpty d.name = true) ∧ ∃ e, findDevice A mr devices = .error e) := by
  induction devices with
  | nil => exact .inr ⟨fun h => by simp [devicesOf] at h, .inr ⟨by simp, _, rfl⟩⟩
  | cons dev rest ih =>
    by_cases hsame : sameName A dev.name mr = true
    · exact .inl ⟨dev, List.mem_cons_self, hsame, if_pos hsame⟩
    have hlast : ¬ ∃ d ∈ [dev], sameName A d.name mr = true := by
      rintro ⟨d, hd, h⟩
      obtain rfl := List.mem_singleton.mp hd
      exact hsame h
    cases rest with
    | nil => exact .inr ⟨hlast, .inr ⟨by simp, _, if_neg hsame⟩⟩
    | cons next rest =>
      have hstep : findDevice A mr (dev :: next :: rest) =
          if isEmpty next.name then .ok none else findDevice A mr (next :: rest) := if_neg hsame
      cases hempty : isEmpty next.name with
      | true =>
        rw [hempty, if_pos rfl] at hstep
        refine .inr ⟨?_, .inl ⟨⟨next, List.mem_cons_self, hempty⟩, hstep⟩⟩
        rw [devicesOf_cons_cons, if_pos hempty]
        exact hlast
      | false =>
        rw [hempty, if_neg Bool.false_ne_true] at hstep
        have hmore : devicesOf (dev :: next :: rest) = dev :: devicesOf (next :: rest) := by
          rw [devicesOf_cons_cons, hempty, if_neg Bool.false_ne_true]
        have htail : (∃ d ∈ (dev :: next :: rest).tail, isEmpty d.name = true) ↔
            ∃ d ∈ (next :: rest).tail, isEmpty d.name = true := by
          show (∃ d ∈ next :: rest, isEmpty d.name = true) ↔ _
          rw [List.exists_mem_cons_iff, hempty]
          exact or_iff_right Bool.false_ne_true
        rw [hmore, htail, hstep]
        rcases ih with ⟨d, hd, hname, hok⟩ | ⟨hnone, hrest⟩
        · exact .inl ⟨d, List.mem_cons_of_mem _ hd, hname, hok⟩
        · refine .inr ⟨?_, hrest⟩
          rw [List.exists_mem_cons_iff, or_iff_right hsame]
          exact hnone

/-- The walk along the names of an entry. -/
theorem hasName_cases (A : Arch) (table : String) (mr : List UInt8) (names : List Name) :
    (∃ n ∈ names.takeWhile fun n => !isEmpty n, sameName A n mr = true) ∧
        hasName A table mr names = .ok true ∨
      (¬ ∃ n ∈ names.takeWhile fun n => !isEmpty n, sameName A n mr = true) ∧
        ((∃ n ∈ names, isEmpty n = true) ∧ hasName A table mr names = .ok false ∨
          (¬ ∃ n ∈ names, isEmpty n = true) ∧ ∃ e, hasName A table mr names = .error e) := by
  induction names with
  | nil => exact .inr ⟨fun h => by simp at h, .inr ⟨by simp, _, rfl⟩⟩
  | cons name rest ih =>
    rw [hasName]
    cases hempty : isEmpty name with
    | true =>
      refine .inr ⟨fun h => ?_, .inl ⟨⟨name, List.mem_cons_self, hempty⟩, if_pos rfl⟩⟩
      simp [hempty] at h
    | false =>
      have hend : (∃ n ∈ name :: rest, isEmpty n = true) ↔ ∃ n ∈ rest, isEmpty n = true := by
        rw [List.exists_mem_cons_iff, hempty]
        exact or_iff_right Bool.false_ne_true
      rw [if_neg Bool.false_ne_true, List.takeWhile_cons_of_pos (by simp [hempty]), hend,
        List.exists_mem_cons_iff]
      by_cases hsame : sameName A name mr = true
      · rw [if_pos hsame]
        exact .inl ⟨.inl hsame, rfl⟩
      · rw [if_neg hsame, or_iff_right hsame]
        exact ih

/-! ## A well-formed configuration -/

theorem InRange.mem (h : InRange first apps num cfg) : cfg ∈ apps := by
  have hassign : ∀ {l : List AppConfig} {first no : Nat}, (no, cfg) ∈ assign first l → cfg ∈ l := by
    intro l
    induction l with
    | nil => exact fun h => absurd h List.not_mem_nil
    | cons a l ih =>
      intro first no h
      rcases List.mem_cons.mp h with heq | h
      · exact List.mem_cons.mpr (.inl (Prod.mk.inj heq).2)
      · exact List.mem_cons_of_mem _ (ih h)
  obtain ⟨no, hmem, -⟩ := h
  have hof := hassign hmem
  cases apps with
  | nil => exact hof
  | cons a apps =>
    rcases List.mem_cons.mp hof with rfl | hof
    · exact List.mem_cons_self
    · exact List.mem_cons_of_mem _ ((List.takeWhile_sublist _).subset hof)

theorem mem_of_mem_devicesOf {dev : IoDevice} {devices : List IoDevice} (h : dev ∈ devicesOf devices) :
    dev ∈ devices := by
  cases devices with
  | nil => exact h
  | cons d devices =>
    rcases List.mem_cons.mp h with rfl | h
    · exact List.mem_cons_self
    · exact List.mem_cons_of_mem _ ((List.takeWhile_sublist _).subset h)

theorem lists_iff {names : List Name} (h : ∀ n ∈ names, NameWf 16 n) :
    (∃ n ∈ names.takeWhile fun n => !isEmpty n, sameName A n mr = true) ↔ Lists names mr :=
  exists_congr fun n => and_congr_right fun hn => sameName_iff (h n ((List.takeWhile_sublist _).subset hn))

theorem onBoard_iff (hwf : proj.Wf) :
    (∃ dev ∈ devicesOf proj.devices, sameName A dev.name mr = true) ↔ OnBoard proj mr :=
  exists_congr fun dev => and_congr_right fun hdev =>
    sameName_iff (hwf.devices.entries dev (mem_of_mem_devicesOf hdev))

/-- The walk along the names of a well-formed entry: they are listed, or the walk ends behind them, or it does
not end. -/
theorem hasName_ends (A : Arch) (table : String) (mr : List UInt8) {names : List Name}
    (h : ∀ n ∈ names, NameWf 16 n) :
    Lists names mr ∧ hasName A table mr names = .ok true ∨
      ¬ Lists names mr ∧ (NamesEnd names mr ∧ hasName A table mr names = .ok false ∨
        ¬ NamesEnd names mr ∧ ∃ e, hasName A table mr names = .error e) := by
  have hcases := hasName_cases A table mr names
  rw [lists_iff h] at hcases
  rcases hcases with hlisted | ⟨hnot, ⟨hend, hok⟩ | ⟨hend, herr⟩⟩
  · exact .inl hlisted
  · exact .inr ⟨hnot, .inl ⟨.inr hend, hok⟩⟩
  · exact .inr ⟨hnot, .inr ⟨fun h => h.elim hnot hend, herr⟩⟩

/-- The only application of a thread. -/
theorem ends_of_owner (hown : ∀ c, Owner A proj userBase r c ↔ c = cfg) :
    Ends A proj userBase kind r ↔ EntryEnds proj r cfg kind := by
  constructor
  · exact fun h => h.2 cfg ((hown cfg).mpr rfl)
  · exact fun h => ⟨.inl ⟨cfg, (hown cfg).mpr rfl⟩, fun c hc => (hown c).mp hc ▸ h⟩

theorem ends_of_alien (hnone : ∀ c, ¬ Owner A proj userBase r c) :
    Ends A proj userBase kind r ↔ ∃ a ∈ proj.apps.tail, isEmpty a.name = true := by
  constructor
  · exact fun h => h.1.resolve_left fun ⟨c, hc⟩ => hnone c hc
  · exact fun h => ⟨.inr h, fun c hc => absurd hc (hnone c)⟩

/-- The searches for a device. -/
theorem searchDevice_cases (A : Arch) (userBase : Nat) (hwf : proj.Wf) (r : Request) :
    (Ends A proj userBase .mapIo r ∧ ∃ cfg, Owner A proj userBase r cfg ∧ Lists cfg.devs r.mr ∧
        ∃ dev ∈ devicesOf proj.devices, cstr dev.name = cstr r.mr ∧
          searchDevice A proj userBase r = .ok (.ok dev)) ∨
      (Ends A proj userBase .mapIo r ∧ ∃ code, 0 < code ∧ code < 4 ∧
        searchDevice A proj userBase r = .ok (.error code)) ∨
      ¬ Ends A proj userBase .mapIo r ∧
        (¬ ∃ cfg, Owner A proj userBase r cfg ∧ Lists cfg.devs r.mr ∧ OnBoard proj r.mr) ∧
        ∃ e, searchDevice A proj userBase r = .error e := by
  unfold searchDevice
  rcases findApp_cases (Thrid.number A r.sender) (userBase + 2) proj.apps with
    ⟨cfg, happ, hown⟩ | ⟨hnone, ⟨htail, happ⟩ | ⟨htail, e, happ⟩⟩
  · have hnames : ∀ n ∈ cfg.devs, NameWf 16 n :=
      (hwf.apps.entries cfg ((hown cfg).mpr rfl).mem).devs.entries
    rw [happ, ok_bind, ends_of_owner hown]
    dsimp only
    have hdevices := findDevice_cases A r.mr proj.devices
    rw [onBoard_iff hwf] at hdevices
    rcases hdevices with ⟨dev, hdev, hsame, hfind⟩ | ⟨hnot, ⟨htail, hfind⟩ | ⟨htail, e, hfind⟩⟩
    · have hname := (sameName_iff (hwf.devices.entries dev (mem_of_mem_devicesOf hdev))).mp hsame
      have hboard : OnBoard proj r.mr := ⟨dev, hdev, hname⟩
      rw [hfind, ok_bind]
      dsimp only
      rcases hasName_ends A "devs" r.mr hnames with ⟨hlisted, hok⟩ | ⟨hnot, ⟨hend, hok⟩ | ⟨hend, e, hok⟩⟩
      · refine .inl ⟨⟨.inl hboard, fun _ => .inl hlisted⟩, cfg, (hown cfg).mpr rfl, hlisted, dev, hdev,
          hname, ?_⟩
        rw [hok]
        rfl
      · refine .inr (.inl ⟨⟨.inl hboard, fun _ => hend⟩, 3, by decide, by decide, ?_⟩)
        rw [hok]
        rfl
      · refine .inr (.inr ⟨fun h => hend (h.2 hboard), ?_, e, ?_⟩)
        · rintro ⟨c, hc, hlisted, -⟩
          obtain rfl := (hown c).mp hc
          exact hnot hlisted
        · rw [hok]
          rfl
    · refine .inr (.inl ⟨⟨.inr htail, fun h => absurd h hnot⟩, 2, by decide, by decide, ?_⟩)
      rw [hfind]
      rfl
    · refine .inr (.inr ⟨fun h => h.1.elim hnot htail, ?_, e, ?_⟩)
      · rintro ⟨c, -, -, hboard⟩
        exact hnot hboard
      · rw [hfind]
        rfl
  · rw [happ, ends_of_alien hnone]
    exact .inr (.inl ⟨htail, 1, by decide, by decide, rfl⟩)
  · rw [happ, ends_of_alien hnone]
    refine .inr (.inr ⟨htail, ?_, e, rfl⟩)
    rintro ⟨c, hc, -⟩
    exact hnone c hc

/-! ## The handlers -/

theorem checkTag_ok {words : String} (hu : r.untyped ≤ nameWordsMax) (ht : r.typed = 0) :
    checkTag words r = .ok () := by
  unfold checkTag
  rw [ensure_bind_of hu]
  exact if_pos ht

/-- The three ways a handler can end. -/
theorem policy_of_cases
    (h : (Ends A proj userBase kind r ∧
          (∃ cfg, Owner A proj userBase r cfg ∧ Allowed proj regions r cfg kind) ∧
          ∀ a, serve A proj userBase regions krn kind r = .ok a →
            ∃ cfg, Owner A proj userBase r cfg ∧ Gives A proj regions krn r cfg a kind) ∨
      (Ends A proj userBase kind r ∧
          ∃ a, serve A proj userBase regions krn kind r = .ok a ∧ a.Refuses A kind) ∨
      ¬ Ends A proj userBase kind r ∧
        (¬ ∃ cfg, Owner A proj userBase r cfg ∧ Allowed proj regions r cfg kind) ∧
        ∃ e, serve A proj userBase regions krn kind r = .error e) :
    Policy A proj userBase regions krn kind r ↔ Ends A proj userBase kind r := by
  rcases h with ⟨hends, hallowed, hgives⟩ | ⟨hends, a, ha, hrefuses⟩ | ⟨hends, hnot, e, herr⟩
  · exact iff_of_true ⟨fun a ha => .inr (hgives a ha), fun hnot => absurd hallowed hnot⟩ hends
  · refine iff_of_true ⟨fun b hb => .inl ?_, fun _ => ⟨a, ha, hrefuses⟩⟩ hends
    rwa [Except.ok.inj (hb.symm.trans ha)]
  · refine iff_of_false (fun hpolicy => ?_) hends
    obtain ⟨a, ha, -⟩ := hpolicy.2 hnot
    exact nomatch ha.symm.trans herr

theorem policy_mapIo (hwf : proj.Wf) (hu : r.untyped ≤ nameWordsMax) (ht : r.typed = 0) :
    Policy A proj userBase regions krn .mapIo r ↔ Ends A proj userBase .mapIo r := by
  have hserve : serve A proj userBase regions krn .mapIo r = processMapIo A proj userBase r := rfl
  refine policy_of_cases ?_
  unfold processMapIo at hserve
  rw [checkTag_ok hu ht, ok_bind] at hserve
  rw [hserve]
  rcases searchDevice_cases A userBase hwf r with
    ⟨hends, cfg, hown, hlisted, dev, hdev, hname, hok⟩ | ⟨hends, code, hpos, -, hok⟩ | ⟨hends, hnot, e, herr⟩
  · refine .inl ⟨hends, ⟨cfg, hown, hlisted, dev, hdev, hname⟩, fun a ha => ?_⟩
    refine ⟨cfg, hown, hlisted, dev, hdev, hname, ?_⟩
    rwa [hok] at ha
  · refine .inr (.inl ⟨hends, refusal A .mapIo code, ?_, code, hpos.ne', rfl⟩)
    rw [hok]
    rfl
  · refine .inr (.inr ⟨hends, hnot, e, ?_⟩)
    rw [herr]
    rfl

/-- The two actions on an interrupt. -/
theorem policy_interrupt {action : Kind} (haction : action = .attachInt ∨ action = .detachInt) (hwf : proj.Wf)
    (hu : r.untyped ≤ nameWordsMax) (ht : r.typed = 0) :
    Policy A proj userBase regions krn action r ↔ Ends A proj userBase action r := by
  have hserve : serve A proj userBase regions krn action r =
      processAttachDetachInt A proj userBase krn action r := by
    rcases haction with rfl | rfl <;> rfl
  have hends : Ends A proj userBase action r ↔ Ends A proj userBase .mapIo r := by
    rcases haction with rfl | rfl <;> rfl
  have hallowed : ∀ cfg, Allowed proj regions r cfg action ↔ Lists cfg.devs r.mr ∧ OnBoard proj r.mr := by
    intro cfg
    rcases haction with rfl | rfl <;> rfl
  have hgives : ∀ cfg a, Gives A proj regions krn r cfg a action ↔ Lists cfg.devs r.mr ∧
      ∃ dev ∈ devicesOf proj.devices, cstr dev.name = cstr r.mr ∧
        a = setHandler A krn action r.sender dev := by
    intro cfg a
    rcases haction with rfl | rfl <;> rfl
  refine policy_of_cases ?_
  unfold processAttachDetachInt at hserve
  rw [checkTag_ok hu ht, ok_bind] at hserve
  rw [hserve, hends]
  simp only [hallowed, hgives]
  rcases searchDevice_cases A userBase hwf r with
    ⟨hends, cfg, hown, hlisted, dev, hdev, hname, hok⟩ | ⟨hends, code, hpos, hlt, hok⟩ |
      ⟨hends, hnot, e, herr⟩
  · refine .inl ⟨hends, ⟨cfg, hown, hlisted, dev, hdev, hname⟩, fun a ha => ?_⟩
    refine ⟨cfg, hown, hlisted, dev, hdev, hname, ?_⟩
    rw [hok] at ha
    exact (Except.ok.inj ha).symm
  · have hword : 4 ≤ 2 ^ A.wordBits := by cases A <;> decide
    refine .inr (.inl ⟨hends, refusal A action (2 ^ A.wordBits - code), ?_, _, by omega, rfl⟩)
    rw [hok]
    rfl
  · refine .inr (.inr ⟨hends, hnot, e, ?_⟩)
    rw [herr]
    rfl

theorem policy_namedMem (hwf : proj.Wf) (hu : r.untyped ≤ nameWordsMax) (ht : r.typed = 0) :
    Policy A proj userBase regions krn .namedMem r ↔ Ends A proj userBase .namedMem r := by
  have hserve : serve A proj userBase regions krn .namedMem r =
      processNamedMemory A proj userBase regions r := rfl
  refine policy_of_cases ?_
  unfold processNamedMemory at hserve
  rw [checkTag_ok hu ht, ok_bind] at hserve
  rw [hserve]
  rcases findApp_cases (Thrid.number A r.sender) (userBase + 2) proj.apps with
    ⟨cfg, happ, hown⟩ | ⟨hnone, ⟨htail, happ⟩ | ⟨htail, e, happ⟩⟩
  · have hnames : ∀ n ∈ cfg.mems, NameWf 16 n :=
      (hwf.apps.entries cfg ((hown cfg).mpr rfl).mem).mems.entries
    rw [happ, ok_bind, ends_of_owner hown]
    dsimp only
    rcases hasName_ends A "mems" r.mr hnames with ⟨hlisted, hok⟩ | ⟨hnot, ⟨hend, hok⟩ | ⟨hend, e, hok⟩⟩
    · rw [hok, ok_bind, if_pos rfl]
      cases hloc : location regions r.mr with
      | none => exact .inr (.inl ⟨.inl hlisted, refusal A .namedMem 2, rfl, 2, by decide, rfl⟩)
      | some m =>
        obtain ⟨region, fpage⟩ := m
        dsimp only
        by_cases hnil : Fpage.isNil fpage = true
        · rw [if_pos hnil]
          exact .inr (.inl ⟨.inl hlisted, refusal A .namedMem 2, rfl, 2, by decide, rfl⟩)
        · rw [if_neg hnil]
          have hne : fpage ≠ Fpage.nil := fun h => hnil (beq_iff_eq.mpr h)
          refine .inl ⟨.inl hlisted, ⟨cfg, (hown cfg).mpr rfl, hlisted, _, hloc, hne⟩, fun a ha => ?_⟩
          obtain ⟨it, hit, heq⟩ := Option.map_eq_some_iff.mp hloc
          obtain ⟨rfl, rfl⟩ := Prod.mk.inj heq
          have hname : cstr r.mr = cstr it.region.name := beq_iff_eq.mp (List.find?_some hit :)
          exact ⟨cfg, (hown cfg).mpr rfl, hlisted, it, List.mem_of_find?_eq_some hit, hname.symm,
            (Except.ok.inj ha).symm⟩
    · refine .inr (.inl ⟨hend, refusal A .namedMem 3, ?_, 3, by decide, rfl⟩)
      rw [hok]
      rfl
    · refine .inr (.inr ⟨hend, ?_, e, ?_⟩)
      · rintro ⟨c, hc, hlisted, -⟩
        obtain rfl := (hown c).mp hc
        exact hnot hlisted
      · rw [hok]
        rfl
  · rw [happ, ends_of_alien hnone]
    exact .inr (.inl ⟨htail, refusal A .namedMem 1, rfl, 1, by decide, rfl⟩)
  · rw [happ, ends_of_alien hnone]
    refine .inr (.inr ⟨htail, ?_, e, rfl⟩)
    rintro ⟨c, hc, -⟩
    exact hnone c hc

/-- **The requests with a well-formed configuration**: a request is answered as it should be exactly when the
walks of its handler end. -/
theorem policy_iff_ends (hwf : proj.Wf) (hu : r.untyped ≤ nameWordsMax) (ht : r.typed = 0) :
    Policy A proj userBase regions krn kind r ↔ Ends A proj userBase kind r := by
  cases kind with
  | mapIo => exact policy_mapIo hwf hu ht
  | attachInt => exact policy_interrupt (.inl rfl) hwf hu ht
  | detachInt => exact policy_interrupt (.inr rfl) hwf hu ht
  | namedMem => exact policy_namedMem hwf hu ht

/-! ## The ranges of thread numbers -/

theorem assign_entries {l : List AppConfig} {next : Nat} : (assign next l).map Prod.snd = l := by
  induction l generalizing next with
  | nil => rfl
  | cons a l ih => exact congrArg (a :: ·) ih

theorem assign_numbers {l : List AppConfig} {next : Nat} :
    (assign next l).map (fun x => (x.1, x.2.maxThreads)) =
      AlphaState.consecutive next (l.map (·.maxThreads)) := by
  induction l generalizing next with
  | nil => rfl
  | cons a l ih => exact congrArg ((next, a.maxThreads) :: ·) ih

/-- **The ranges** are those of the applications that `main` creates: the entry of a thread is at the place of
the application that has its number. -/
theorem owner_iff_created {alpha : Nat} {cs : List AlphaState.AppStart} {pool : PagePool} {s : AlphaState}
    (hbase : userBase < 2 ^ 12)
    (hstart : AlphaState.createApps A (userBase + 2) cs (AlphaState.init alpha userBase cs pool) = .ok s)
    (hcs : cs.map (·.maxThreads) = (appsOf proj.apps).map (·.maxThreads)) :
    Owner A proj userBase r cfg ↔ ∃ (i : Nat) (e : AlphaApp), s.apps[i]? = some e ∧
      (appsOf proj.apps)[i]? = some cfg ∧ e.has A r.sender = true := by
  have hassign : (assign (userBase + 2) (appsOf proj.apps)).map (fun x => (x.1, x.2.maxThreads)) =
      s.numbers A := by
    rw [assign_numbers, ← hcs, AlphaState.createApps_numbers hbase (AlphaState.init_numbered) hstart]
    rfl
  have hat : ∀ i : Nat, (assign (userBase + 2) (appsOf proj.apps))[i]?.map (fun x => (x.1, x.2.maxThreads)) =
      s.apps[i]?.map fun e => (e.thrnoBegin A, e.threads.length) := by
    intro i
    rw [← List.getElem?_map, ← List.getElem?_map, hassign]
    rfl
  have hentry : ∀ i : Nat, (appsOf proj.apps)[i]? =
      (assign (userBase + 2) (appsOf proj.apps))[i]?.map Prod.snd := by
    intro i
    rw [← List.getElem?_map, assign_entries]
  constructor
  · rintro ⟨no, hmem, hrange⟩
    obtain ⟨i, hi⟩ := List.mem_iff_getElem?.mp hmem
    have hi' := hat i
    rw [hi] at hi'
    obtain ⟨e, he, heq⟩ := Option.map_eq_some_iff.mp hi'.symm
    obtain ⟨hbegin, hlen⟩ := Prod.mk.inj heq
    refine ⟨i, e, he, by rw [hentry, hi]; rfl, ?_⟩
    unfold AlphaApp.has AlphaApp.thrnoEnd
    rw [hbegin, hlen, Bool.and_eq_true, decide_eq_true_eq, decide_eq_true_eq]
    exact hrange
  · rintro ⟨i, e, he, hcfg, hhas⟩
    rw [hentry] at hcfg
    obtain ⟨⟨no, c⟩, hi, rfl⟩ := Option.map_eq_some_iff.mp hcfg
    have hi' := hat i
    rw [hi, he] at hi'
    obtain ⟨hbegin, hlen⟩ := Prod.mk.inj (Option.some.inj hi')
    unfold AlphaApp.has AlphaApp.thrnoEnd at hhas
    rw [← hbegin, ← hlen, Bool.and_eq_true, decide_eq_true_eq, decide_eq_true_eq] at hhas
    exact ⟨no, List.mem_of_getElem? hi, hhas⟩

/-! ## Every configuration that is parsed -/

theorem parseConfig_wf_of_ok {nul : Nat} {K : KrnUart} {str : Ptr} {ok : Bool} {old : ProjConfig}
    (hold : old.Wf) (h : parseConfig A nul K str old = .ok (ok, proj)) : proj.Wf := by
  obtain ⟨ok₁, devices, hdevs, hdevsWf⟩ := parseDevConfig_safe A nul K hold.devices str
  obtain ⟨ok₂, mems, hmems, hmemsWf⟩ := parseMemConfig_safe A nul hold.mems str
  unfold parseConfig at h
  rw [hdevs, ok_bind] at h
  cases ok₁ with
  | false =>
    obtain ⟨-, rfl⟩ := Prod.mk.inj (Except.ok.inj h)
    exact ⟨hdevsWf, hold.mems, hold.apps⟩
  | true =>
    dsimp only at h
    rw [hmems, ok_bind] at h
    cases ok₂ with
    | false =>
      obtain ⟨-, rfl⟩ := Prod.mk.inj (Except.ok.inj h)
      exact ⟨hdevsWf, hmemsWf, hold.apps⟩
    | true =>
      dsimp only at h
      obtain ⟨⟨ok₃, apps⟩, happs, h⟩ := bind_eq_ok.mp h
      obtain ⟨-, rfl⟩ := Prod.mk.inj (Except.ok.inj h)
      obtain ⟨⟨b, t⟩, hwalk, heq⟩ := map_eq_ok happs
      obtain ⟨-, rfl⟩ := Prod.mk.inj heq
      have hstart : (AppState.start old.apps).Wf appsMax := hold.apps
      have hinv : t.Wf appsMax := walk_invariant (fun _ _ _ _ hs hline => appLine_wf hs hline) hstart hwalk
      exact ⟨hdevsWf, hmemsWf, hinv⟩

/-- **Devices, interrupts and named memory.**  With a configuration that was parsed, a request is answered as
it should be exactly when the walks of its handler end. -/
theorem request_iff_ends (A : Arch) (nul : Nat) (K : KrnUart) (str : Ptr) (proj : ProjConfig)
    (hparse : parseConfig A nul K str .zero = .ok (true, proj)) (userBase : Nat) (regions : List NamedRegion)
    (krn : KCall → Nat) (kind : Kind) (r : Request) (hu : r.untyped ≤ nameWordsMax) (ht : r.typed = 0) :
    Policy A proj userBase regions krn kind r ↔ Ends A proj userBase kind r :=
  policy_iff_ends (parseConfig_wf_of_ok ProjConfig.zero_wf hparse) hu ht

/-- A board with one device, `u`, and an application with this list of devices and the memory `u`. -/
def oneDevice (names : String) : Ptr :=
  bytes "DEVICES\n\tu 0 0 0\n\nAPPLICATIONS\n\t\x7b\n\t\tname: a\n\t\tthreads_max: 1\n\t\tdevices: " ++
    bytes names ++ bytes "\n\t\tmemory: u\n\t\x7d\n"

/-- What is parsed. -/
def oneProj (devs : List Name) : ProjConfig where
  devices := ⟨inArray devNameSz [117], 0, 0, 0⟩ :: List.replicate (devsMax - 1) .zero
  mems := ProjConfig.zero.mems
  apps := { AppConfig.zero with
    name := inArray appNameSz [97]
    maxThreads := 1
    devs := devs
    mems := inArray memNameSz [117] :: List.replicate (memListSz - 1) (inArray memNameSz []) } ::
      List.replicate (appsMax - 1) .zero

/-- The thread of the application asks for the device. -/
def askU : Request := ⟨Thrid.createGlobal .x86_64 66 2, 1, 0, [117, 0]⟩

/-- The application that lists the device may have it. -/
theorem listed_answered : Policy .x86_64 (oneProj (inArray devNameSz [117] ::
    List.replicate (devListSz - 1) (inArray devNameSz []))) 64 [] (fun _ => 0) .mapIo askU := by
  have hend : ∀ cfg ∈ (oneProj (inArray devNameSz [117] ::
      List.replicate (devListSz - 1) (inArray devNameSz []))).apps, ∃ n ∈ cfg.devs, isEmpty n = true := by
    decide
  refine (request_iff_ends .x86_64 0x40000000 ⟨0x3f8, 8, 4⟩ (oneDevice "u") _ (by decide +kernel) 64 []
    (fun _ => 0) .mapIo askU (by decide) rfl).mpr ⟨.inr ⟨.zero, List.mem_cons_self, rfl⟩, fun cfg hown => ?_⟩
  exact ⟨.inl ⟨_, List.mem_cons_self, rfl⟩, fun _ => .inr (hend cfg hown.mem)⟩

/-- The name of another device, as often as the list can have it. -/
def fullList : List Name := List.replicate devListSz (inArray devNameSz [98])

/-- With a full list of other devices the request is not refused. -/
theorem fullList_not_refused :
    parseConfig .x86_64 0x40000000 ⟨0x3f8, 8, 4⟩
        (oneDevice "b b b b b b b b b b b b b b b b b b b b b b b b b b b b b b b b") .zero =
      .ok (true, oneProj fullList) ∧
    ¬ Policy .x86_64 (oneProj fullList) 64 [] (fun _ => 0) .mapIo askU := by
  have hparse : parseConfig .x86_64 0x40000000 ⟨0x3f8, 8, 4⟩
      (oneDevice "b b b b b b b b b b b b b b b b b b b b b b b b b b b b b b b b") .zero =
      .ok (true, oneProj fullList) := by
    decide +kernel
  have hwf := parseConfig_wf_of_ok ProjConfig.zero_wf hparse
  refine ⟨hparse, fun hpolicy => ?_⟩
  obtain ⟨-, hends⟩ := (policy_iff_ends hwf (by decide) rfl).mp hpolicy
  have hnames := (hends _ ⟨66, List.mem_cons_self, by decide, by decide⟩).2 ⟨_, List.mem_cons_self, rfl⟩
  rcases hnames with ⟨n, hn, hu⟩ | ⟨n, hn, hempty⟩
  · have hn := (List.takeWhile_sublist _).subset hn
    rw [(List.mem_replicate.mp hn).2] at hu
    exact absurd hu (by decide)
  · rw [(List.mem_replicate.mp hn).2] at hempty
    exact absurd hempty (by decide)

end AlphaDevices
end Wrmos
