import Wrmos.Tcpip

/-!
# The ARP cache

`Arp_cache_t` of `app/tcpip/main.cpp` under any sequence of calls.  `find` removes a record only when it was
asked for it after its time; `add` of a new address removes the first record when the list is full, and
appends; `add` of an address that is there renews its record where it stands.

So the list is in the order in which the addresses came into it and not in the order of their times, and the
record that is removed need not be the next to expire.  A book beside the cache says what was added last for
an address and not removed since.  The cache always answers from the book, and it removes the record that
expires first exactly when the address that came first was also added last the longest time ago
(`cache_sound_iff`).
-/

namespace Wrmos
namespace Tcpip
namespace ArpCache

open Lib (Meets runAll)

/-- A call of the cache. -/
inductive Call where
  | add (ip mac : Nat)
  | find (ip : Nat)
  deriving DecidableEq, Repr

/-- A call, and the time since the one before it. -/
structure Event where
  elapsed : Nat
  call : Call
  deriving DecidableEq, Repr

/-- What was added, and when. -/
structure Added where
  mac : Nat
  time : Nat
  deriving DecidableEq, Repr

/-- The server, and by address what was added last and not removed by another `add` since. -/
structure State where
  net : Net
  book : Nat → Option Added

/-- The cache has a record for the address. -/
def cached (s : Net) (ip : Nat) : Bool := s.arp.any fun r => r.ip == ip

/-- The server at the time of the call. -/
def State.clocked (x : State) (e : Event) : Net := { x.net with now := x.net.now + e.elapsed }

/-- A call.  What an `add` removed is struck out. -/
def step (x : State) (e : Event) : Except Stop State :=
  let s := x.clocked e
  match e.call with
  | .add ip mac =>
    let s' := s.arpAdd ip mac
    .ok ⟨s', fun a =>
      if a = ip then some ⟨mac, s.now⟩ else if cached s a && !cached s' a then none else x.book a⟩
  | .find ip => .ok ⟨(s.arpFind ip).2, x.book⟩

/-- What `find` is to return. -/
def expected (book : Nat → Option Added) (ip now : Nat) : Nat :=
  match book ip with
  | none => macNil
  | some e => if now ≤ e.time + arpTimeoutUsec then e.mac else macNil

/-- A record for each address at most, and no more than there is room for. -/
def Wf (s : Net) : Prop := (s.arp.map ArpRecord.ip).Nodup ∧ s.arp.length ≤ listCap

/-- The call leaves a good cache, a `find` returns what it is to return, and what an `add` of another address
removes is one that expires first. -/
def Sound (x : State) (e : Event) : Prop :=
  (∀ x', step x e = .ok x' → Wf x'.net) ∧
  (∀ ip, e.call = .find ip →
    ((x.clocked e).arpFind ip).1 = expected x.book ip (x.clocked e).now) ∧
  ∀ ip mac, e.call = .add ip mac → ∀ v ∈ x.net.arp, v.ip ≠ ip →
    v ∉ ((x.clocked e).arpAdd ip mac).arp → ∀ r ∈ x.net.arp, v.timeout ≤ r.timeout

/-- When an address was added last. -/
def State.addedAt (x : State) (ip : Nat) : Nat := ((x.book ip).map Added.time).getD 0

/-- When a new address comes into a full cache, the address that came first of those in it was added last no
later than any other. -/
def Fits (x : State) (e : Event) : Prop :=
  ∀ ip mac, e.call = .add ip mac → cached x.net ip = false → x.net.arp.length = listCap →
    ∀ v ∈ x.net.arp.head?, ∀ r ∈ x.net.arp, x.addedAt v.ip ≤ x.addedAt r.ip

instance (x : State) (e : Event) : Decidable (Fits x e) :=
  match h : e.call with
  | .find _ => isTrue fun _ _ hcall => nomatch h.symm.trans hcall
  | .add ip _ =>
    decidable_of_iff (cached x.net ip = false → x.net.arp.length = listCap →
        ∀ v ∈ x.net.arp.head?, ∀ r ∈ x.net.arp, x.addedAt v.ip ≤ x.addedAt r.ip)
      ⟨fun hfits _ _ hcall => (Call.add.inj (h.symm.trans hcall)).1 ▸ hfits, fun hfits => hfits _ _ h⟩

/-- The start: an empty cache. -/
def start (s : Net) : State := ⟨{ s with arp := [] }, fun _ => none⟩

/-! ## The invariant -/

/-- The records are those of the book that have not been found to be out of date. -/
structure Inv (x : State) : Prop where
  wf : Wf x.net
  booked : ∀ r ∈ x.net.arp, ∃ t, r.timeout = t + arpTimeoutUsec ∧ x.book r.ip = some ⟨r.mac, t⟩
  kept : ∀ ip e, x.book ip = some e → cached x.net ip = true ∨ e.time + arpTimeoutUsec < x.net.now

theorem inv_start (s : Net) : Inv (start s) where
  wf := ⟨.nil, Nat.zero_le _⟩
  booked := nofun
  kept := nofun

variable {x x' : State} {e : Event} {s : Net} {ip mac : Nat}

theorem cached_iff : cached s ip = true ↔ ∃ r ∈ s.arp, r.ip = ip := by
  unfold cached
  rw [List.any_eq_true]
  exact exists_congr fun r => and_congr_right fun _ => beq_iff_eq

/-- The one record of an address. -/
theorem Wf.unique (h : Wf s) {r q : ArpRecord} (hr : r ∈ s.arp) (hq : q ∈ s.arp) (hip : r.ip = q.ip) :
    r = q := List.inj_on_of_nodup_map h.1 hr hq hip

/-- A record after `add`. -/
def newRecord (s : Net) (ip mac : Nat) : ArpRecord := ⟨ip, mac, s.now + arpTimeoutUsec⟩

/-- The ways through `find`. -/
theorem arpFind_cases (s : Net) (ip : Nat) :
    cached s ip = false ∧ s.arpFind ip = (macNil, s) ∨
    ∃ r ∈ s.arp, r.ip = ip ∧
      (r.timeout < s.now ∧ s.arpFind ip = (macNil, { s with arp := s.arp.erase r }) ∨
        s.now ≤ r.timeout ∧ s.arpFind ip = (r.mac, s)) := by
  unfold Net.arpFind
  cases hfind : s.arp.find? fun r => r.ip == ip with
  | none =>
    refine .inl ⟨?_, rfl⟩
    rw [← Bool.not_eq_true, cached_iff]
    rintro ⟨r, hr, hip⟩
    exact List.find?_eq_none.mp hfind r hr (beq_iff_eq.mpr hip)
  | some r =>
    have hip : r.ip = ip := by simpa using List.find?_some hfind
    refine .inr ⟨r, List.mem_of_find?_eq_some hfind, hip, ?_⟩
    dsimp only
    by_cases hlate : r.timeout < s.now
    · exact .inl ⟨hlate, if_pos hlate⟩
    · exact .inr ⟨Nat.le_of_not_lt hlate, if_neg hlate⟩

/-- The ways through `add`. -/
theorem arpAdd_cases (s : Net) (ip mac : Nat) :
    cached s ip = true ∧ s.arpAdd ip mac =
      { s with arp := s.arp.map fun r => if r.ip = ip then newRecord s ip mac else r } ∨
    cached s ip = false ∧ s.arp.length ≠ listCap ∧
      s.arpAdd ip mac = { s with arp := s.arp ++ [newRecord s ip mac] } ∨
    ∃ v rest, cached s ip = false ∧ s.arp.length = listCap ∧ s.arp = v :: rest ∧
      s.arpAdd ip mac = { s with arp := rest ++ [newRecord s ip mac] } := by
  unfold Net.arpAdd
  cases hcached : cached s ip with
  | true => exact .inl ⟨rfl, if_pos hcached⟩
  | false =>
    have hnot : ¬ (s.arp.any fun r => r.ip == ip) = true := by
      rw [Bool.not_eq_true]
      exact hcached
    rw [if_neg hnot]
    by_cases hfull : s.arp.length = listCap
    · rw [if_pos hfull]
      cases harp : s.arp with
      | nil =>
        rw [harp] at hfull
        exact absurd hfull (by decide)
      | cons v rest => exact .inr (.inr ⟨v, rest, rfl, harp ▸ hfull, rfl, rfl⟩)
    · rw [if_neg hfull]
      exact .inr (.inl ⟨rfl, hfull, rfl⟩)

/-- `find` answers from the book. -/
theorem Inv.find_expected (h : Inv x) (ip : Nat) :
    ((x.clocked e).arpFind ip).1 = expected x.book ip (x.clocked e).now := by
  unfold expected
  rcases arpFind_cases (x.clocked e) ip with ⟨hnone, hfind⟩ | ⟨r, hr, rfl, hlate⟩
  · rw [hfind]
    cases hbook : x.book ip with
    | none => rfl
    | some a =>
      rcases h.kept ip a hbook with hc | hlate
      · exact absurd (hc.symm.trans hnone) (by decide)
      · have hlater : a.time + arpTimeoutUsec < (x.clocked e).now :=
          Nat.lt_of_lt_of_le hlate (Nat.le_add_right _ _)
        exact (if_neg (Nat.not_le.mpr hlater)).symm
  · obtain ⟨t, ht, hbook⟩ := h.booked r hr
    rw [ht] at hlate
    rw [hbook]
    rcases hlate with ⟨hlate, hfind⟩ | ⟨hin, hfind⟩
    · rw [hfind]
      exact (if_neg (Nat.not_le.mpr hlate)).symm
    · rw [hfind]
      exact (if_pos hin).symm

/-- A look-up keeps the invariant: what it removes is out of date. -/
theorem Inv.find (h : Inv x) (ip : Nat) : Inv ⟨((x.clocked e).arpFind ip).2, x.book⟩ := by
  have hkept : ∀ a e', x.book a = some e' →
      cached (x.clocked e) a = true ∨ e'.time + arpTimeoutUsec < (x.clocked e).now := fun a e' hbook =>
    (h.kept a e' hbook).imp_right fun hlate => Nat.lt_of_lt_of_le hlate (Nat.le_add_right _ _)
  rcases arpFind_cases (x.clocked e) ip with ⟨-, hfind⟩ | ⟨r, hr, rfl, ⟨hlate, hfind⟩ | ⟨-, hfind⟩⟩
  · rw [hfind]
    exact ⟨h.wf, h.booked, hkept⟩
  · rw [hfind]
    refine ⟨⟨?_, ?_⟩, ?_, ?_⟩
    · exact h.wf.1.sublist (List.erase_sublist.map _)
    · exact Nat.le_trans List.erase_sublist.length_le h.wf.2
    · exact fun q hq => h.booked q (List.mem_of_mem_erase hq)
    · intro a e' hbook
      rcases hkept a e' hbook with hc | hout
      · obtain ⟨q, hq, hip⟩ := cached_iff.mp hc
        by_cases hqr : q = r
        · subst hqr
          obtain ⟨t, ht, hbook'⟩ := h.booked q hr
          rw [hip, hbook] at hbook'
          obtain rfl := Option.some.inj hbook'
          rw [ht] at hlate
          exact .inr hlate
        · exact .inl (cached_iff.mpr ⟨q, (List.mem_erase_of_ne hqr).mpr hq, hip⟩)
      · exact .inr hout
  · rw [hfind]
    exact ⟨h.wf, h.booked, hkept⟩

/-- After an `add` the cache has the new record and some of the others, and is as good as before. -/
theorem add_spec (h : Wf s) (ip mac : Nat) : Wf (s.arpAdd ip mac) ∧
    (s.arpAdd ip mac).now = s.now ∧ newRecord s ip mac ∈ (s.arpAdd ip mac).arp ∧
    ∀ r ∈ (s.arpAdd ip mac).arp, r = newRecord s ip mac ∨ r ∈ s.arp ∧ r.ip ≠ ip := by
  have habsent : ∀ r ∈ s.arp, cached s ip = false → r.ip ≠ ip := fun r hr hnone hip =>
    absurd (hnone.symm.trans (cached_iff.mpr ⟨r, hr, hip⟩)) (by decide)
  have hnotin : cached s ip = false → ip ∉ s.arp.map ArpRecord.ip := fun hnone hmem => by
    obtain ⟨r, hr, hip⟩ := List.mem_map.mp hmem
    exact habsent r hr hnone hip
  rcases arpAdd_cases s ip mac with ⟨hcached, hadd⟩ | ⟨hnone, hroom, hadd⟩ | ⟨v, rest, hnone, hfull, harp, hadd⟩
  · have hips : (s.arpAdd ip mac).arp.map ArpRecord.ip = s.arp.map ArpRecord.ip := by
      rw [hadd]
      show (s.arp.map fun r => if r.ip = ip then newRecord s ip mac else r).map ArpRecord.ip = _
      rw [List.map_map]
      refine List.map_congr_left fun r _ => ?_
      show (if r.ip = ip then newRecord s ip mac else r).ip = r.ip
      split_ifs with hip
      · exact hip.symm
      · rfl
    refine ⟨⟨hips ▸ h.1, ?_⟩, by rw [hadd], ?_, fun r hr => ?_⟩
    · have hlen := congrArg List.length hips
      rw [List.length_map, List.length_map] at hlen
      exact hlen.trans_le h.2
    · obtain ⟨r, hr, hip⟩ := cached_iff.mp hcached
      rw [hadd]
      exact List.mem_map.mpr ⟨r, hr, if_pos hip⟩
    · rw [hadd] at hr
      obtain ⟨q, hq, rfl⟩ := List.mem_map.mp hr
      split_ifs with hip
      · exact .inl rfl
      · exact .inr ⟨hq, hip⟩
  · rw [hadd]
    refine ⟨⟨?_, ?_⟩, rfl, List.mem_append_right _ (List.mem_singleton_self _), fun r hr => ?_⟩
    · show ((s.arp ++ [newRecord s ip mac]).map ArpRecord.ip).Nodup
      rw [List.map_append, List.nodup_append_comm]
      exact List.nodup_cons.mpr ⟨hnotin hnone, h.1⟩
    · show (s.arp ++ [newRecord s ip mac]).length ≤ listCap
      rw [List.length_append, List.length_singleton]
      exact Nat.lt_of_le_of_ne h.2 hroom
    · rcases List.mem_append.mp hr with hr | hr
      · exact .inr ⟨hr, habsent r hr hnone⟩
      · exact .inl (List.mem_singleton.mp hr)
  · have hrest : ∀ r ∈ rest, r ∈ s.arp := fun r hr => harp ▸ List.mem_cons_of_mem v hr
    rw [hadd]
    refine ⟨⟨?_, ?_⟩, rfl, List.mem_append_right _ (List.mem_singleton_self _), fun r hr => ?_⟩
    · show ((rest ++ [newRecord s ip mac]).map ArpRecord.ip).Nodup
      have hnodup := h.1
      rw [harp, List.map_cons, List.nodup_cons] at hnodup
      rw [List.map_append, List.nodup_append_comm]
      refine List.nodup_cons.mpr ⟨fun hmem => hnotin hnone ?_, hnodup.2⟩
      rw [harp]
      exact List.mem_cons_of_mem _ hmem
    · show (rest ++ [newRecord s ip mac]).length ≤ listCap
      rw [harp, List.length_cons] at hfull
      rw [List.length_append, List.length_singleton, hfull]
    · rcases List.mem_append.mp hr with hr | hr
      · exact .inr ⟨hrest r hr, habsent r (hrest r hr) hnone⟩
      · exact .inl (List.mem_singleton.mp hr)

/-- **A call keeps the invariant.** -/
theorem Inv.step (h : Inv x) (hstep : step x e = .ok x') : Inv x' := by
  unfold ArpCache.step at hstep
  cases hcall : e.call with
  | find ip =>
    rw [hcall] at hstep
    obtain rfl := Except.ok.inj hstep
    exact h.find ip
  | add ip mac =>
    rw [hcall] at hstep
    obtain rfl := Except.ok.inj hstep
    obtain ⟨hwf, hnow, hnew, hothers⟩ := add_spec (s := x.clocked e) h.wf ip mac
    generalize (x.clocked e).arpAdd ip mac = s' at hwf hnow hnew hothers ⊢
    have hcached : ∀ r ∈ s'.arp, cached s' r.ip = true := fun r hr => cached_iff.mpr ⟨r, hr, rfl⟩
    refine ⟨hwf, fun r hr => ?_, fun a e' hbook => ?_⟩
    · rcases hothers r hr with rfl | ⟨hold, hne⟩
      · exact ⟨(x.clocked e).now, rfl, if_pos rfl⟩
      · obtain ⟨t, ht, hbook⟩ := h.booked r hold
        refine ⟨t, ht, ?_⟩
        dsimp only
        rw [if_neg hne, hcached r hr, Bool.not_true, Bool.and_false, if_neg Bool.false_ne_true]
        exact hbook
    · dsimp only at hbook ⊢
      by_cases ha : a = ip
      · subst ha
        exact .inl (hcached _ hnew)
      · rw [if_neg ha] at hbook
        cases hgone : cached (x.clocked e) a && !cached s' a with
        | true =>
          rw [hgone, if_pos rfl] at hbook
          cases hbook
        | false =>
          rw [hgone, if_neg Bool.false_ne_true] at hbook
          rcases h.kept a e' hbook with hc | hlate
          · have hc' : cached (x.clocked e) a = true := hc
            rw [hc', Bool.true_and, Bool.not_eq_false'] at hgone
            exact .inl hgone
          · rw [hnow]
            exact .inr (Nat.lt_of_lt_of_le hlate (Nat.le_add_right _ _))

/-! ## Eviction -/

/-- The book has the time of a record. -/
theorem Inv.timeout_eq (h : Inv x) {r : ArpRecord} (hr : r ∈ x.net.arp) :
    r.timeout = x.addedAt r.ip + arpTimeoutUsec := by
  obtain ⟨t, ht, hbook⟩ := h.booked r hr
  unfold State.addedAt
  rw [hbook]
  exact ht

/-- **An `add`** of a new address to a full cache removes the record of the address that came first, and no
other `add` removes a record of another address. -/
theorem Inv.removes_iff (h : Inv x) (ip mac : Nat) {v : ArpRecord} (hv : v ∈ x.net.arp) (hne : v.ip ≠ ip) :
    v ∉ ((x.clocked e).arpAdd ip mac).arp ↔
      cached x.net ip = false ∧ x.net.arp.length = listCap ∧ v ∈ x.net.arp.head? := by
  rcases arpAdd_cases (x.clocked e) ip mac with
    ⟨hcached, hadd⟩ | ⟨-, hroom, hadd⟩ | ⟨u, rest, hnone, hfull, harp, hadd⟩
  · refine iff_of_false (fun hgone => hgone ?_) (fun hout => ?_)
    · rw [hadd]
      exact List.mem_map.mpr ⟨v, hv, if_neg hne⟩
    · exact absurd (hout.1.symm.trans hcached) (by decide)
  · refine iff_of_false (fun hgone => hgone ?_) (fun hout => hroom hout.2.1)
    rw [hadd]
    exact List.mem_append_left _ hv
  · have harp' : x.net.arp = u :: rest := harp
    rw [hadd, harp']
    show v ∉ rest ++ [newRecord (x.clocked e) ip mac] ↔ _
    rw [harp'] at hv
    constructor
    · intro hgone
      refine ⟨hnone, by rw [← harp']; exact hfull, ?_⟩
      rcases List.mem_cons.mp hv with rfl | hrest
      · rfl
      · exact absurd (List.mem_append_left _ hrest) hgone
    · rintro ⟨-, -, hhead⟩ hmem
      obtain rfl := Option.some.inj hhead
      have hnodup := h.wf.1
      rw [harp', List.map_cons, List.nodup_cons] at hnodup
      rcases List.mem_append.mp hmem with hrest | hnew
      · exact hnodup.1 (List.mem_map_of_mem hrest)
      · exact hne (congrArg ArpRecord.ip (List.mem_singleton.mp hnew))

/-- Under the invariant a call is sound exactly when it fits. -/
theorem Inv.sound_iff (h : Inv x) : Sound x e ↔ Fits x e := by
  constructor
  · rintro ⟨-, -, hevict⟩ ip mac hcall hnone hfull v hv r hr
    have hmem := List.mem_of_mem_head? hv
    have hne : v.ip ≠ ip := fun hip =>
      absurd (hnone.symm.trans (cached_iff.mpr ⟨v, hmem, hip⟩)) (by decide)
    have hle := hevict ip mac hcall v hmem hne
      ((h.removes_iff ip mac hmem hne).mpr ⟨hnone, hfull, hv⟩) r hr
    rw [h.timeout_eq hmem, h.timeout_eq hr] at hle
    exact Nat.le_of_add_le_add_right hle
  · intro hfits
    refine ⟨fun x' hstep => (h.step hstep).wf, fun ip _ => h.find_expected ip, ?_⟩
    intro ip mac hcall v hv hne hgone r hr
    obtain ⟨hnone, hfull, hhead⟩ := (h.removes_iff ip mac hv hne).mp hgone
    rw [h.timeout_eq hv, h.timeout_eq hr]
    exact Nat.add_le_add_right (hfits ip mac hcall hnone hfull v hhead r hr) _

/-- **The ARP cache.**  For every sequence of calls at times that do not decrease, each call is sound if and
only if each fits. -/
theorem cache_sound_iff (s : Net) (es : List Event) :
    (∃ x, runAll step (start s) es = .ok x) ∧
      (Meets step Sound (start s) es ↔ Meets step Fits (start s) es) := by
  refine ⟨?_, ?_, ?_⟩
  · generalize start s = x
    induction es generalizing x with
    | nil => exact ⟨x, rfl⟩
    | cons e es ih =>
      obtain ⟨x', hstep⟩ : ∃ x', step x e = .ok x' := by
        unfold step
        cases e.call <;> exact ⟨_, rfl⟩
      obtain ⟨y, hy⟩ := ih x'
      exact ⟨y, Lib.bind_eq_ok.mpr ⟨x', hstep, hy⟩⟩
  · exact Meets.of_invariant (fun _ _ _ hx _ hstep => hx.step hstep) (fun _ _ hx => hx.sound_iff.mp)
      (inv_start s)
  · exact Meets.of_invariant (fun _ _ _ hx _ hstep => hx.step hstep) (fun _ _ hx => hx.sound_iff.mpr)
      (inv_start s)

/-- Eight addresses, one a second. -/
def eight : List Event := (List.range 8).map fun i => ⟨1000000, .add (i + 1) (i + 1)⟩

/-- The first one is added again, and then a ninth: the one that was just added is removed. -/
theorem newest_evicted : ¬ Meets step Sound (start (Net.init 0 0))
    (eight ++ [⟨1000000, .add 1 1⟩, ⟨1000000, .add 9 9⟩]) := by
  intro h
  have hfits := Meets.of_invariant (fun _ _ _ hx _ hstep => Inv.step hx hstep)
    (fun _ _ hx => hx.sound_iff.mp) (inv_start _) h
  exact absurd hfits (by decide +kernel)

end ArpCache
end Tcpip
end Wrmos
