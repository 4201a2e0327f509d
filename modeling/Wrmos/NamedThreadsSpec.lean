import Wrmos.NamedThreads

/-!
# The registry of named threads

The table is a look-up by name, and the string that alpha sees in the registers is `seen`.  Two things go
wrong: a new name finds the table full, which panics, and a string that alpha sees is longer than the name in
the words of the request.  A request that fits is answered as the ledger says, and no other is
(`names_sound_iff`).
-/

namespace Wrmos
namespace NamedThreads

open Lib (ensure_bind_of ensure_bind_of_not Meets runAll)
open AlphaConfig (Fault)

/-- A name finds what the ledger has. -/
def Agrees (s : State) : Prop :=
  ∀ n rest, 0 ∉ n → getId s.table (n ++ 0 :: rest) = s.ledger n

/-- The reply to a request: a name is registered once, a rejected registration leaves the table as it is, and
a name is answered with what was registered. -/
def Answered (A : Arch) (s : State) : Event → Prop
  | .register r => ∃ out, processRegister A s.table r = .ok out ∧
      (out.2 = [0, (r.info A).key0, (r.info A).key1] ∧ s.ledger (r.name A) = none ∨
        out.2.head? ≠ some 0 ∧ out.1 = s.table)
  | .getId r => ∃ words, processGetId s.table r = .ok words ∧
      (∀ info, s.ledger (r.name A) = some info → words = [0, info.id, info.key0, info.key1]) ∧
      (s.ledger (r.name A) = none → words.head? ≠ some 0)

/-- Alpha answers the request as it is to be, and the registry holds what the ledger does. -/
def Sound (A : Arch) (s : State) (e : Event) : Prop :=
  Answered A s e ∧ ∃ s', step A s e = .ok s' ∧ Agrees s'

/-- The string that alpha sees. -/
def seen (mem : List UInt8) : Option (List UInt8) :=
  if 0 ∈ mem then some (mem.takeWhile (· ≠ 0)) else none

/-- To register, a string is seen, and it is too long or registered already, or there is room in the table and
it is the name of the request.  To ask, the string that is seen is registered as the name of the request. -/
def Fits (A : Arch) (s : State) : Event → Prop
  | .register r => ∃ n ∈ seen r.mr, nameLenMax A < n.length + 1 ∨ (s.ledger n).isSome ∨
      s.table.length < tableCap ∧ n = r.name A
  | .getId r => (seen r.mr).bind s.ledger = s.ledger (r.name A)

instance (A : Arch) (s : State) : ∀ e, Decidable (Fits A s e)
  | .register r => inferInstanceAs (Decidable (∃ n ∈ seen r.mr, nameLenMax A < n.length + 1 ∨
      (s.ledger n).isSome ∨ s.table.length < tableCap ∧ n = r.name A))
  | .getId r => inferInstanceAs (Decidable ((seen r.mr).bind s.ledger = s.ledger (r.name A)))

variable {A : Arch} {s : State} {table : List NamedThread} {mem n : List UInt8} {r : Request}

/-! ## Strings -/

theorem takeWhile_nul {rest : List UInt8} (h0 : 0 ∉ n) : (n ++ 0 :: rest).takeWhile (· ≠ 0) = n := by
  have hpos : ∀ b ∈ n, decide (b ≠ 0) = true := fun b hb => decide_eq_true (by rintro rfl; exact h0 hb)
  rw [List.takeWhile_append_of_pos hpos]
  simp

theorem seen_eq_some : seen mem = some n ↔ 0 ∉ n ∧ ∃ rest, mem = n ++ 0 :: rest := by
  unfold seen
  constructor
  · intro h
    split_ifs at h with hmem
    obtain rfl := Option.some.inj h
    refine ⟨fun h0 => absurd (List.mem_takeWhile_imp h0) (by decide), ?_⟩
    obtain ⟨pre, rest, hsplit, hpre⟩ := List.eq_append_cons_of_mem hmem
    refine ⟨rest, ?_⟩
    rw [hsplit, takeWhile_nul hpre]
  · rintro ⟨h0, rest, rfl⟩
    rw [if_pos (List.mem_append_right _ List.mem_cons_self), takeWhile_nul h0]

theorem sameName_iff {name : List UInt8} (h0 : 0 ∉ name) :
    sameName mem name = true ↔ seen mem = some name := by
  unfold sameName
  rw [beq_iff_eq, seen_eq_some]
  constructor
  · intro h
    refine ⟨h0, mem.drop (name.length + 1), ?_⟩
    conv_lhs => rw [← List.take_append_drop (name.length + 1) mem, h]
    rw [List.append_assoc]
    rfl
  · rintro ⟨-, rest, rfl⟩
    rw [List.take_length_add_append]
    rfl

/-! ## The table -/

/-- The names in the table are strings that fit, and the ledger has the first entry of each. -/
structure Inv (A : Arch) (s : State) : Prop where
  names : ∀ it ∈ s.table, 0 ∉ it.name ∧ it.name.length + 1 ≤ nameLenMax A
  booked : ∀ n, (s.table.find? fun it => it.name == n).map NamedThread.info = s.ledger n

theorem inv_start : Inv A .start := ⟨nofun, fun _ => rfl⟩

/-- The look-up by a string in an array. -/
theorem find_eq (h : ∀ it ∈ table, 0 ∉ it.name) (mem : List UInt8) :
    find table mem = (seen mem).bind fun n => table.find? fun it => it.name == n := by
  unfold find
  cases hseen : seen mem with
  | none =>
    refine List.find?_eq_none.mpr fun it hit hsame => ?_
    rw [sameName_iff (h it hit), hseen] at hsame
    cases hsame
  | some n =>
    refine List.find?_congr fun it hit => ?_
    rw [Bool.eq_iff_iff, sameName_iff (h it hit), hseen, Option.some.injEq, beq_iff_eq]
    exact eq_comm

theorem Inv.getId_eq (h : Inv A s) (mem : List UInt8) : getId s.table mem = (seen mem).bind s.ledger := by
  unfold getId
  rw [find_eq (fun it hit => (h.names it hit).1)]
  cases seen mem with
  | none => rfl
  | some n => exact h.booked n

theorem Inv.agrees (h : Inv A s) : Agrees s := by
  intro n rest h0
  rw [h.getId_eq, seen_eq_some.mpr ⟨h0, rest, rfl⟩]
  rfl

theorem Inv.isSome_find (h : Inv A s) (hseen : seen mem = some n) :
    (find s.table mem).isSome = (s.ledger n).isSome := by
  rw [find_eq (fun it hit => (h.names it hit).1), hseen, ← h.booked n, Option.isSome_map]
  rfl

/-- A new entry. -/
theorem Inv.add (info : Info) (h : Inv A s) (h0 : 0 ∉ n) (hlen : n.length + 1 ≤ nameLenMax A)
    (hnew : s.ledger n = none) :
    Inv A ⟨s.table ++ [⟨n, info⟩], Function.update s.ledger n (some info)⟩ where
  names it hit := by
    rcases List.mem_append.mp hit with hit | hit
    · exact h.names it hit
    · obtain rfl := List.mem_singleton.mp hit
      exact ⟨h0, hlen⟩
  booked m := by
    have hold := h.booked m
    show ((s.table ++ [NamedThread.mk n info]).find? fun it => it.name == m).map NamedThread.info =
      Function.update s.ledger n (some info) m
    rw [List.find?_append]
    by_cases hm : m = n
    · subst hm
      rw [hnew, Option.map_eq_none_iff] at hold
      rw [hold, Function.update_self, Option.none_or, List.find?_singleton, if_pos (beq_self_eq_true m)]
      rfl
    · rw [Function.update_of_ne hm, ← hold, List.find?_singleton,
        if_neg (by simpa using Ne.symm hm), Option.or_none]

/-! ## Registration -/

theorem strlen_of_seen (hseen : seen mem = some n) : strlen mem = .ok n.length := by
  obtain ⟨h0, rest, rfl⟩ := seen_eq_some.mp hseen
  unfold strlen
  rw [if_pos (List.mem_append_right _ List.mem_cons_self), takeWhile_nul h0]

theorem strlen_of_not_seen (hseen : seen mem = none) : strlen mem = .error (.beyond "mr") := by
  unfold seen at hseen
  unfold strlen
  split_ifs at hseen with hmem
  exact if_neg hmem

/-- The new entry has the string that is seen. -/
theorem mk'_of_seen {info : Info} (hseen : seen mem = some n) (hlen : ¬nameLenMax A < n.length + 1) :
    NamedThread.mk' A mem info = ⟨n, info⟩ := by
  obtain ⟨h0, rest, rfl⟩ := seen_eq_some.mp hseen
  unfold NamedThread.mk'
  rw [takeWhile_nul h0, List.take_of_length_le (by omega)]

theorem record_beyond {info : Info} (hseen : seen mem = none) :
    record A table mem info = .error (.beyond "mr") := by
  unfold record
  rw [strlen_of_not_seen hseen]
  rfl

theorem record_long {info : Info} (hseen : seen mem = some n) (hlen : nameLenMax A < n.length + 1) :
    record A table mem info = .ok (1, table) := by
  unfold record
  rw [strlen_of_seen hseen]
  exact if_pos hlen

theorem Inv.record_known {info : Info} (h : Inv A s) (hseen : seen mem = some n)
    (hlen : ¬nameLenMax A < n.length + 1) (hknown : (s.ledger n).isSome) :
    record A s.table mem info = .ok (2, s.table) := by
  unfold record
  rw [strlen_of_seen hseen]
  refine (if_neg hlen).trans (if_pos ?_)
  rw [h.isSome_find hseen, hknown]

theorem Inv.record_new {info : Info} (h : Inv A s) (hseen : seen mem = some n)
    (hlen : ¬nameLenMax A < n.length + 1) (hnew : s.ledger n = none) :
    record A s.table mem info = if s.table.length < tableCap then .ok (0, s.table ++ [⟨n, info⟩])
      else .error (.panic "list is full") := by
  have hfind : (find s.table mem).isSome ≠ true := by
    rw [h.isSome_find hseen, hnew]
    decide
  unfold record
  rw [strlen_of_seen hseen, mk'_of_seen hseen hlen]
  refine (if_neg hlen).trans ((if_neg hfind).trans ?_)
  by_cases hroom : s.table.length < tableCap
  · rw [ensure_bind_of hroom, if_pos hroom]
    rfl
  · rw [ensure_bind_of_not hroom, if_neg hroom]

/-- What the handlers demand of a message. -/
def Demanded : Event → Prop
  | .register r | .getId r => r.untyped ≤ nameWordsMax ∧ r.typed = 0

instance : ∀ e, Decidable (Demanded e)
  | .register r | .getId r => inferInstanceAs (Decidable (r.untyped ≤ nameWordsMax ∧ r.typed = 0))

/-- The reply to a registration, by its return code. -/
theorem processRegister_eq (hd : Demanded (.register r)) :
    processRegister A table r = (record A table r.mr (r.info A)).map fun out =>
      (out.2, if out.1 ≠ 0 then [1, 1, 2] else [0, (r.info A).key0, (r.info A).key1]) := by
  unfold processRegister
  rw [ensure_bind_of hd.1, ensure_bind_of hd.2]
  cases record A table r.mr (r.info A) with
  | error e => rfl
  | ok out =>
    show (if out.1 ≠ 0 then Except.ok (out.2, [1, 1, 2]) else _) = _
    by_cases hrc : out.1 ≠ 0
    · simp [Except.map, hrc]
    · simp only [Except.map, if_neg hrc]
      rfl

theorem step_register {out : List NamedThread × List Nat} (hout : processRegister A s.table r = .ok out) :
    step A s (.register r) = .ok ⟨out.1, if out.2.head? = some 0 then
      Function.update s.ledger (r.name A) (some (r.info A)) else s.ledger⟩ := by
  show (processRegister A s.table r >>= _) = _
  rw [hout]
  rfl

/-- A registration that is rejected. -/
theorem Inv.sound_rejected (h : Inv A s) (hd : Demanded (.register r)) {rc : ℕ} (hrc : rc ≠ 0)
    (hrec : record A s.table r.mr (r.info A) = .ok (rc, s.table)) :
    Sound A s (.register r) ∧ ∀ s', step A s (.register r) = .ok s' → Inv A s' := by
  have hout : processRegister A s.table r = .ok (s.table, [1, 1, 2]) := by
    rw [processRegister_eq hd, hrec]
    simp [Except.map, hrc]
  have hstep : step A s (.register r) = .ok s := step_register hout
  refine ⟨⟨⟨_, hout, .inr ⟨?_, rfl⟩⟩, s, hstep, h.agrees⟩, fun s' hs' => ?_⟩
  · show some 1 ≠ some 0
    decide
  obtain rfl := Except.ok.inj (hstep.symm.trans hs')
  exact h

/-- A registration for which there is room. -/
theorem Inv.step_new (hd : Demanded (.register r)) (h : Inv A s) (hseen : seen r.mr = some n)
    (hlen : ¬nameLenMax A < n.length + 1) (hnew : s.ledger n = none) (hroom : s.table.length < tableCap) :
    processRegister A s.table r =
        .ok (s.table ++ [⟨n, r.info A⟩], [0, (r.info A).key0, (r.info A).key1]) ∧
      step A s (.register r) = .ok ⟨s.table ++ [⟨n, r.info A⟩],
        Function.update s.ledger (r.name A) (some (r.info A))⟩ := by
  have hout : processRegister A s.table r =
      .ok (s.table ++ [⟨n, r.info A⟩], [0, (r.info A).key0, (r.info A).key1]) := by
    rw [processRegister_eq hd, h.record_new hseen hlen hnew, if_pos hroom]
    rfl
  exact ⟨hout, step_register hout⟩

/-- A registration that fits. -/
theorem Inv.register_fits (h : Inv A s) (hd : Demanded (.register r)) (hf : Fits A s (.register r)) :
    Sound A s (.register r) ∧ ∀ s', step A s (.register r) = .ok s' → Inv A s' := by
  obtain ⟨n, hseen, hcase⟩ := hf
  by_cases hlen : nameLenMax A < n.length + 1
  · exact h.sound_rejected hd (by decide) (record_long hseen hlen)
  by_cases hknown : (s.ledger n).isSome
  · exact h.sound_rejected hd (by decide) (h.record_known hseen hlen hknown)
  obtain ⟨hroom, hname⟩ := (hcase.resolve_left hlen).resolve_left hknown
  have hnew : s.ledger n = none := Option.not_isSome_iff_eq_none.mp hknown
  obtain ⟨hout, hstep⟩ := Inv.step_new hd h hseen hlen hnew hroom
  rw [← hname] at hstep
  have hinv := Inv.add (r.info A) h (seen_eq_some.mp hseen).1 (by omega) hnew
  refine ⟨⟨⟨_, hout, .inl ⟨rfl, hname ▸ hnew⟩⟩, _, hstep, hinv.agrees⟩, fun s' hs' => ?_⟩
  obtain rfl := Except.ok.inj (hstep.symm.trans hs')
  exact hinv

/-- A registration that does not fit. -/
theorem Inv.register_not_fits (h : Inv A s) (hd : Demanded (.register r)) (hf : ¬Fits A s (.register r)) :
    ¬Sound A s (.register r) := by
  rintro ⟨⟨out, hout, -⟩, s', hstep, hagree⟩
  cases hseen : seen r.mr with
  | none =>
    rw [processRegister_eq hd, record_beyond hseen] at hout
    cases hout
  | some n =>
    have hlen : ¬nameLenMax A < n.length + 1 := fun hlen => hf ⟨n, hseen, .inl hlen⟩
    have hknown : ¬(s.ledger n).isSome := fun hknown => hf ⟨n, hseen, .inr (.inl hknown)⟩
    have hnew : s.ledger n = none := Option.not_isSome_iff_eq_none.mp hknown
    by_cases hroom : s.table.length < tableCap
    · have hname : n ≠ r.name A := fun hname => hf ⟨n, hseen, .inr (.inr ⟨hroom, hname⟩)⟩
      obtain ⟨-, hstep'⟩ := Inv.step_new hd h hseen hlen hnew hroom
      obtain rfl := Except.ok.inj (hstep'.symm.trans hstep)
      -- The table has the string that was seen, the ledger does not.
      have h0 := (seen_eq_some.mp hseen).1
      have hinv := Inv.add (r.info A) h h0 (by omega) hnew
      have hboth : some (r.info A) = none := calc
        some (r.info A) = Function.update s.ledger n (some (r.info A)) n :=
          (Function.update_self n (some (r.info A)) s.ledger).symm
        _ = getId (s.table ++ [⟨n, r.info A⟩]) (n ++ [0]) := (hinv.agrees n [] h0).symm
        _ = Function.update s.ledger (r.name A) (some (r.info A)) n := hagree n [] h0
        _ = s.ledger n := Function.update_of_ne hname ..
        _ = none := hnew
      cases hboth
    · rw [processRegister_eq hd, h.record_new hseen hlen hnew, if_neg hroom] at hout
      cases hout

/-! ## Look-up -/

/-- The words of the reply to a look-up. -/
def replyWords : Option Info → List Nat
  | none => [1, 0, 1, 2]
  | some info => [0, info.id, info.key0, info.key1]

theorem Inv.processGetId_eq (h : Inv A s) (hd : Demanded (.getId r)) :
    processGetId s.table r = .ok (replyWords ((seen r.mr).bind s.ledger)) := by
  unfold processGetId
  rw [ensure_bind_of hd.1, ensure_bind_of hd.2, h.getId_eq]
  cases (seen r.mr).bind s.ledger with
  | none => rfl
  | some info => rfl

theorem Inv.step_getId (h : Inv A s) (hd : Demanded (.getId r)) : step A s (.getId r) = .ok s := by
  show (processGetId s.table r >>= _) = _
  rw [h.processGetId_eq hd]
  rfl

/-- A reply answers the ledger's entry, and no other. -/
theorem replyWords_iff {got want : Option Info} :
    ((∀ info, want = some info → replyWords got = [0, info.id, info.key0, info.key1]) ∧
      (want = none → (replyWords got).head? ≠ some 0)) ↔ got = want := by
  constructor
  · rintro ⟨hsome, hnone⟩
    cases want with
    | none =>
      cases got with
      | none => rfl
      | some info => exact absurd rfl (hnone rfl)
    | some info =>
      have hwords := hsome info rfl
      cases got with
      | none => cases hwords
      | some info' =>
        obtain ⟨i, k0, k1⟩ := info
        obtain ⟨i', k0', k1'⟩ := info'
        simpa [replyWords] using hwords
  · rintro rfl
    refine ⟨?_, ?_⟩
    · rintro info rfl
      rfl
    · rintro rfl
      decide

theorem Inv.getId_sound_iff (h : Inv A s) (hd : Demanded (.getId r)) :
    Sound A s (.getId r) ↔ Fits A s (.getId r) := by
  have hstep := h.step_getId hd
  constructor
  · rintro ⟨⟨words, hwords, hans⟩, -⟩
    obtain rfl := Except.ok.inj ((h.processGetId_eq hd).symm.trans hwords)
    exact replyWords_iff.mp hans
  · intro hf
    exact ⟨⟨_, h.processGetId_eq hd, replyWords_iff.mpr hf⟩, s, hstep, h.agrees⟩

/-! ## Runs -/

theorem Inv.step_fits (h : Inv A s) (e : Event) (hd : Demanded e) (hf : Fits A s e) :
    Sound A s e ∧ ∀ s', step A s e = .ok s' → Inv A s' := by
  cases e with
  | register r => exact h.register_fits hd hf
  | getId r =>
    refine ⟨(h.getId_sound_iff hd).mpr hf, fun s' hs' => ?_⟩
    obtain rfl := Except.ok.inj ((h.step_getId hd).symm.trans hs')
    exact h

theorem Inv.fits_of_sound (h : Inv A s) (e : Event) (hd : Demanded e) (hs : Sound A s e) : Fits A s e := by
  cases e with
  | register r => exact Classical.not_not.mp fun hf => h.register_not_fits hd hf hs
  | getId r => exact (h.getId_sound_iff hd).mp hs

/-- **The registry of named threads.**  When every message has the words that the handlers demand, every
request of a run is answered as the ledger says if and only if every request fits. -/
theorem names_sound_iff {es : List Event} (hes : ∀ e ∈ es, Demanded e) :
    Meets (step A) (Sound A) .start es ↔ Meets (step A) (Fits A) .start es := by
  constructor
  · intro hsound
    exact Meets.of_invariant (I := Inv A)
      (fun s e s' h hC hs' => (h.step_fits e hC.1 (h.fits_of_sound e hC.1 hC.2)).2 s' hs')
      (fun s e h hC => h.fits_of_sound e hC.1 hC.2) inv_start (hsound.and hes)
  · intro hfits
    exact Meets.of_invariant (I := Inv A) (fun s e s' h hC hs' => (h.step_fits e hC.1 hC.2).2 s' hs')
      (fun s e h hC => (h.step_fits e hC.1 hC.2).1) inv_start (hfits.and hes)

/-- A request whose name is one letter, in a message of one word. -/
def letter (sender clock : Nat) (c : UInt8) : Request where
  sender := sender
  untyped := 1
  typed := 0
  mr := c :: List.replicate 255 0
  clock0 := clock
  clock1 := clock + 1

/-- A registration, the same name again, and two look-ups. -/
theorem letters_sound : Meets (step .x86) (Sound .x86) .start
    [.register (letter 1 10 97), .register (letter 2 20 97), .getId (letter 3 0 97),
      .getId (letter 3 0 98)] :=
  (names_sound_iff (by decide)).mpr (by decide)

/-- The fifth name: alpha panics. -/
theorem fifth_panics :
    runAll (step .x86) .start
        [.register (letter 1 10 97), .register (letter 1 12 98), .register (letter 1 14 99),
          .register (letter 1 16 100), .register (letter 1 18 101)] = .error (.panic "list is full") ∧
      ¬Meets (step .x86) (Sound .x86) .start
        [.register (letter 1 10 97), .register (letter 1 12 98), .register (letter 1 14 99),
          .register (letter 1 16 100), .register (letter 1 18 101)] := by
  have hpanic : runAll (step .x86) .start
      [.register (letter 1 10 97), .register (letter 1 12 98), .register (letter 1 14 99),
        .register (letter 1 16 100), .register (letter 1 18 101)] = .error (.panic "list is full") := rfl
  refine ⟨hpanic, fun hsound => ?_⟩
  obtain ⟨s', hs'⟩ := Meets.exists_ok (fun s e (h : Sound .x86 s e) => ⟨_, h.2.choose_spec.1⟩) hsound
  rw [hpanic] at hs'
  cases hs'

end NamedThreads
end Wrmos
