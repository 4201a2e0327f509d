import Wrmos.Greth
import Mathlib.Data.List.Basic

/-!
# The descriptor rings of the GRETH driver are queues

What a ring is for is said by `Fifo`: the buffers that were accepted and not freed yet, the oldest
first, and what the core reported for those of them that it has completed, which are the first ones.
`Table.Holds` says how a table shows such a queue, and the three operations of the driver and the
step of the core are shown to do to the queue what their names say.

The core runs beside the driver, but it writes enabled descriptors only, and the driver writes
descriptors that are not enabled: so a write of the driver and a step of the core can be exchanged
(`hw_put`), and all that the core does in the gaps of a function can be thought of as done before
the function writes.
-/

namespace Wrmos
namespace Greth

open Lib

variable {σ γ : Type} {K : Kind σ γ}

/-! ## What a ring is for -/

/-- The buffers that were accepted and not freed, and what the core reported for the first of
them. -/
structure Fifo (γ : Type) where
  bufs : List Nat
  results : List γ
  le : results.length ≤ bufs.length

namespace Fifo

variable {f : Fifo γ}

def nil : Fifo γ := ⟨[], [], Nat.le_refl _⟩

/-- A buffer is accepted. -/
def accept (f : Fifo γ) (b : Nat) : Fifo γ where
  bufs := f.bufs ++ [b]
  results := f.results
  le := by
    have := f.le
    rw [List.length_append]
    omega

/-- The core completes the first buffer that it has not completed yet. -/
def complete (f : Fifo γ) (c : γ) : Fifo γ :=
  if h : f.results.length < f.bufs.length then
    { bufs := f.bufs
      results := f.results ++ [c]
      le := by
        rw [List.length_append]
        exact h }
  else f

/-- The core completes buffers one after another. -/
def completes (f : Fifo γ) (cs : List γ) : Fifo γ := cs.foldl complete f

/-- The oldest buffer is freed. -/
def free (f : Fifo γ) : Fifo γ where
  bufs := f.bufs.tail
  results := f.results.tail
  le := by
    have := f.le
    rw [List.length_tail, List.length_tail]
    omega

@[simp] theorem complete_bufs (c : γ) : (f.complete c).bufs = f.bufs := by
  unfold complete
  split <;> rfl

theorem complete_results (c : γ) : ∃ ds, (f.complete c).results = f.results ++ ds := by
  unfold complete
  split
  · exact ⟨[c], rfl⟩
  · exact ⟨[], (List.append_nil _).symm⟩

@[simp] theorem completes_bufs (cs : List γ) : (f.completes cs).bufs = f.bufs := by
  induction cs generalizing f with
  | nil => rfl
  | cons c cs ih =>
    rw [completes, List.foldl_cons]
    exact ih.trans (complete_bufs c)

/-- What the core reported stays. -/
theorem completes_results (cs : List γ) : ∃ ds, (f.completes cs).results = f.results ++ ds := by
  induction cs generalizing f with
  | nil => exact ⟨[], (List.append_nil _).symm⟩
  | cons c cs ih =>
    obtain ⟨d, hd⟩ := f.complete_results c
    obtain ⟨ds, hds⟩ := ih (f := f.complete c)
    exact ⟨d ++ ds, by rw [completes, List.foldl_cons, ← completes, hds, hd, List.append_assoc]⟩

/-- Once the core has made a step, a buffer that is waited for is complete. -/
theorem complete_ne_nil (c : γ) (h : f.bufs ≠ []) : (f.complete c).results ≠ [] := by
  unfold complete
  split
  · exact List.concat_ne_nil _ _
  · rename_i hlt
    have hlen := List.length_pos_iff.mpr h
    exact List.length_pos_iff.mp (by omega)

end Fifo

/-! ## How a table shows a queue -/

/-- The descriptor `p` of a buffer, with what the core reported for it. -/
def Entry (K : Kind σ γ) (n p b : Nat) (c : Option γ) (d : Desc σ) : Prop :=
  b ≠ 0 ∧ d.addr = b ∧ d.wr = decide (p = n - 1) ∧
    match c with
    | none => d.en = true
    | some c => ∃ d₀, d = K.complete c d₀

/-- A descriptor that is not in use. -/
def Idle (K : Kind σ γ) (d : Desc σ) : Prop := d.en = false ∧ K.used d = false

theorem Entry.done {n p b : Nat} {c : γ} {d : Desc σ} (h : Entry K n p b (some c) d) :
    d.en = false ∧ K.used d = true := by
  obtain ⟨hb, haddr, -, d₀, rfl⟩ := h
  rw [K.complete_addr] at haddr
  exact ⟨K.complete_en c d₀, K.complete_used c d₀ (haddr ▸ hb)⟩

/-- Of the `n` descriptors those from `rd` on hold the buffers of the queue in their order, the
others are not in use, and the core is at the first buffer that is not complete. -/
structure Table.Holds (K : Kind σ γ) (t : Table σ) (n rd : Nat) (f : Fifo γ) : Prop where
  rd_lt : rd < n
  le : f.bufs.length ≤ n
  hwPtr : t.hwPtr = Ring.idx n rd f.results.length
  entry : ∀ i b, f.bufs[i]? = some b →
    Entry K n (Ring.idx n rd i) b f.results[i]? (t.dtb (Ring.idx n rd i))
  idle : ∀ i, f.bufs.length ≤ i → i < n → Idle K (t.dtb (Ring.idx n rd i))

namespace Table

variable {t : Table σ} {n rd : Nat} {f : Fifo γ}

/-! ### The core -/

theorem complete_of_idle {c : γ} (h : (t.dtb t.hwPtr).en = false) : t.complete K c = t := by
  unfold complete
  dsimp only
  rw [h]
  rfl

/-- Where everything is complete the core is at a descriptor that is not enabled. -/
theorem Holds.hw_idle (h : t.Holds K n rd f) (hall : f.results.length = f.bufs.length) :
    (t.dtb t.hwPtr).en = false := by
  rw [h.hwPtr]
  rcases Nat.lt_or_ge f.results.length n with hlt | hge
  · exact (h.idle _ (by omega) hlt).1
  · -- the ring is full, so the core is back at the first buffer
    have hn : f.results.length = n := by
      have := h.le
      omega
    have hpos := h.rd_lt
    rw [hn, Ring.idx_self, ← Ring.idx_zero h.rd_lt]
    obtain ⟨b, hb⟩ : ∃ b, f.bufs[0]? = some b := ⟨f.bufs.get ⟨0, by omega⟩, List.getElem?_eq_getElem _⟩
    have he := h.entry 0 b hb
    rw [List.getElem?_eq_getElem (by omega)] at he
    exact he.done.1

/-- A step of the core completes the first buffer that is not complete. -/
theorem Holds.complete (h : t.Holds K n rd f) (c : γ) : (t.complete K c).Holds K n rd (f.complete c) := by
  by_cases hlt : f.results.length < f.bufs.length
  · have hn : f.results.length < n := Nat.lt_of_lt_of_le hlt h.le
    have hnil : f.results[f.results.length]? = none := List.getElem?_eq_none (Nat.le_refl _)
    have he := h.entry f.results.length _ (List.getElem?_eq_getElem hlt)
    rw [hnil] at he
    obtain ⟨hb, haddr, hwr, hen⟩ := he
    rw [← h.hwPtr] at haddr hwr hen
    have hcomp : t.complete K c = ⟨Function.update t.dtb t.hwPtr (K.complete c (t.dtb t.hwPtr)),
        Ring.idx n rd (f.results.length + 1)⟩ := by
      unfold Table.complete
      dsimp only
      rw [hen, if_pos rfl, hwr, ← Ring.next_idx h.rd_lt hn, ← h.hwPtr]
      have hp := Ring.idx_lt h.rd_lt hn
      rw [← h.hwPtr] at hp
      unfold Ring.next
      congr 1
      by_cases hlast : t.hwPtr = n - 1
      · rw [if_pos (decide_eq_true hlast), if_pos (by omega)]
      · rw [if_neg (by simpa using hlast), if_neg (by omega)]
    have hfifo : f.complete c = ⟨f.bufs, f.results ++ [c], by
        rw [List.length_append]
        exact hlt⟩ := dif_pos hlt
    rw [hcomp, hfifo]
    refine ⟨h.rd_lt, h.le, ?_, fun i b hi => ?_, fun i hi hin => ?_⟩
    · rw [List.length_append]
      rfl
    · have hil : i < f.bufs.length := (List.getElem?_eq_some_iff.mp hi).1
      dsimp only at hi ⊢
      rw [h.hwPtr]
      by_cases hic : i = f.results.length
      · subst hic
        rw [Function.update_self, List.getElem?_concat_length]
        have hbb : f.bufs[f.results.length] = b := by
          rw [List.getElem?_eq_getElem hlt] at hi
          exact Option.some.inj hi
        rw [← h.hwPtr]
        exact ⟨hbb ▸ hb, (K.complete_addr _ _).trans (haddr.trans hbb), (K.complete_wr _ _).trans hwr,
          _, rfl⟩
      · have hne : Ring.idx n rd i ≠ Ring.idx n rd f.results.length := fun heq =>
          hic (Ring.idx_inj (Nat.lt_of_lt_of_le hil h.le) hn heq)
        have hres : (f.results ++ [c])[i]? = f.results[i]? := by
          rcases Nat.lt_or_ge i f.results.length with h1 | h1
          · exact List.getElem?_append_left h1
          · rw [List.getElem?_eq_none h1, List.getElem?_eq_none]
            rw [List.length_append, List.length_singleton]
            omega
        rw [Function.update_of_ne hne, hres]
        exact h.entry i b hi
    · have hne : Ring.idx n rd i ≠ t.hwPtr := by
        rw [h.hwPtr]
        intro heq
        have hi' : f.bufs.length ≤ i := hi
        have := Ring.idx_inj hin hn heq
        omega
      dsimp only
      rw [Function.update_of_ne hne]
      exact h.idle i hi hin
  · have hall : f.results.length = f.bufs.length := Nat.le_antisymm f.le (Nat.not_lt.mp hlt)
    have hfifo : f.complete c = f := dif_neg hlt
    rw [complete_of_idle (h.hw_idle hall), hfifo]
    exact h

theorem Holds.hw (h : t.Holds K n rd f) (cs : List γ) : (t.hw K cs).Holds K n rd (f.completes cs) := by
  induction cs generalizing t f with
  | nil => exact h
  | cons c cs ih => exact ih (h.complete c)

/-! ### The core and the driver beside each other -/

/-- The core leaves a descriptor that is not enabled as it is. -/
theorem complete_dtb {p : Nat} (c : γ) (h : (t.dtb p).en = false) :
    (t.complete K c).dtb p = t.dtb p := by
  by_cases hen : (t.dtb t.hwPtr).en = true
  · have hne : p ≠ t.hwPtr := by
      rintro rfl
      exact absurd (h.symm.trans hen) nofun
    unfold complete
    dsimp only
    rw [if_pos hen]
    exact Function.update_of_ne hne _ _
  · rw [complete_of_idle (by simpa using hen)]

theorem hw_dtb {p : Nat} (cs : List γ) (h : (t.dtb p).en = false) :
    (t.hw K cs).dtb p = t.dtb p := by
  induction cs generalizing t with
  | nil => rfl
  | cons c cs ih =>
    have hc := complete_dtb (K := K) c h
    exact (ih (hc ▸ h)).trans hc

/-- A step of the core and a write of the driver to a descriptor that is not enabled, and stays so,
can be exchanged. -/
theorem complete_put {p : Nat} {d : Desc σ} (c : γ) (h : (t.dtb p).en = false) (hd : d.en = false) :
    (t.put p d).complete K c = (t.complete K c).put p d := by
  by_cases hp : t.hwPtr = p
  · have h1 : (t.dtb t.hwPtr).en = false := hp ▸ h
    have h2 : ((t.put p d).dtb (t.put p d).hwPtr).en = false := by
      show (Function.update t.dtb p d t.hwPtr).en = false
      rw [hp, Function.update_self]
      exact hd
    rw [complete_of_idle h1, complete_of_idle h2]
  · have hsame : (t.put p d).dtb t.hwPtr = t.dtb t.hwPtr := Function.update_of_ne hp _ _
    by_cases hen : (t.dtb t.hwPtr).en = true
    · unfold complete
      dsimp only
      rw [show (t.put p d).hwPtr = t.hwPtr from rfl, hsame, if_pos hen, if_pos hen]
      unfold put
      dsimp only
      rw [Function.update_comm hp]
    · have h1 : (t.dtb t.hwPtr).en = false := by simpa using hen
      have h2 : ((t.put p d).dtb (t.put p d).hwPtr).en = false := by
        show ((t.put p d).dtb t.hwPtr).en = false
        rw [hsame]
        exact h1
      rw [complete_of_idle h1, complete_of_idle h2]

theorem hw_put {p : Nat} {d : Desc σ} (cs : List γ) (h : (t.dtb p).en = false) (hd : d.en = false) :
    (t.put p d).hw K cs = (t.hw K cs).put p d := by
  induction cs generalizing t with
  | nil => rfl
  | cons c cs ih =>
    show ((t.put p d).complete K c).hw K cs = ((t.complete K c).hw K cs).put p d
    rw [complete_put c h hd]
    exact ih (by rw [complete_dtb c h]; exact h)

theorem hw_append (t : Table σ) (cs ds : List γ) : t.hw K (cs ++ ds) = (t.hw K cs).hw K ds :=
  List.foldl_append

@[simp] theorem put_put (t : Table σ) (p : Nat) (d e : Desc σ) : (t.put p d).put p e = t.put p e := by
  unfold put
  rw [Function.update_idem]

@[simp] theorem put_self (t : Table σ) (p : Nat) (d : Desc σ) : (t.put p d).dtb p = d := by
  show Function.update t.dtb p d p = d
  rw [Function.update_self]

/-! ### The driver -/

/-- A full ring has a buffer at its WR descriptor, another ring has an idle one there. -/
theorem Holds.wr_idle_iff (h : t.Holds K n rd f) :
    Idle K (t.dtb (Ring.idx n rd f.bufs.length)) ↔ f.bufs.length ≠ n := by
  constructor
  · rintro ⟨hen, hused⟩ hn
    have hpos := h.rd_lt
    rw [hn, Ring.idx_self, ← Ring.idx_zero h.rd_lt] at hen hused
    have he := h.entry 0 _ (List.getElem?_eq_getElem (by omega))
    rcases hr : f.results[0]? with _ | c
    · rw [hr] at he
      exact absurd (hen.symm.trans he.2.2.2) nofun
    · rw [hr] at he
      exact absurd (hused.symm.trans he.done.2) nofun
  · intro hn
    have := h.le
    exact h.idle _ (Nat.le_refl _) (by omega)

/-- Setting up the WR descriptor appends the buffer. -/
theorem Holds.accept (h : t.Holds K n rd f) (hn : f.bufs.length ≠ n) {d : Desc σ} (hen : d.en = true)
    (hwr : d.wr = decide (Ring.idx n rd f.bufs.length = n - 1)) (haddr : d.addr ≠ 0) :
    (t.put (Ring.idx n rd f.bufs.length) d).Holds K n rd (f.accept d.addr) := by
  have hlt : f.bufs.length < n := Nat.lt_of_le_of_ne h.le hn
  have hother : ∀ i, i < n → i ≠ f.bufs.length →
      (t.put (Ring.idx n rd f.bufs.length) d).dtb (Ring.idx n rd i) = t.dtb (Ring.idx n rd i) :=
    fun i hi hne => Function.update_of_ne (fun he => hne (Ring.idx_inj hi hlt he)) _ _
  refine ⟨h.rd_lt, ?_, h.hwPtr, fun i b hi => ?_, fun i hi hin => ?_⟩
  · show (f.bufs ++ [d.addr]).length ≤ n
    rw [List.length_append]
    exact hlt
  · show Entry K n (Ring.idx n rd i) b f.results[i]? _
    replace hi : (f.bufs ++ [d.addr])[i]? = some b := hi
    by_cases hil : i < f.bufs.length
    · rw [hother i (by omega) (by omega)]
      rw [List.getElem?_append_left hil] at hi
      exact h.entry i b hi
    · obtain rfl : i = f.bufs.length := by
        have := (List.getElem?_eq_some_iff.mp hi).1
        rw [List.length_append, List.length_singleton] at this
        omega
      rw [List.getElem?_concat_length] at hi
      obtain rfl := Option.some.inj hi
      rw [put_self, List.getElem?_eq_none f.le]
      exact ⟨haddr, rfl, hwr, hen⟩
  · replace hi : (f.bufs ++ [d.addr]).length ≤ i := hi
    rw [List.length_append, List.length_singleton] at hi
    rw [hother i hin (by omega)]
    exact h.idle i (by omega) hin

/-- Freeing the RD descriptor removes the oldest buffer. -/
theorem Holds.free (h : t.Holds K n rd f) (hne : f.results ≠ []) :
    (t.put rd (K.free (t.dtb rd))).Holds K n (Ring.next n rd) f.free := by
  have hpos : 0 < f.results.length := List.length_pos_iff.mpr hne
  have hle := f.le
  have hn := h.le
  -- the descriptor behind the new RD pointer, seen from the old one
  have hstep : ∀ i, i < n → Ring.idx n (Ring.next n rd) i = Ring.idx n rd (i + 1) := fun i hi =>
    Ring.idx_next hi
  have hother : ∀ i, i + 1 < n → (t.put rd (K.free (t.dtb rd))).dtb (Ring.idx n rd (i + 1)) =
      t.dtb (Ring.idx n rd (i + 1)) := by
    intro i hi
    refine Function.update_of_ne (fun he => ?_) _ _
    have h0 := Ring.idx_inj hi (k := 0) (by omega) (he.trans (Ring.idx_zero h.rd_lt).symm)
    omega
  refine ⟨Ring.next_lt h.rd_lt, ?_, ?_, fun i b hi => ?_, fun i hi hin => ?_⟩
  · show f.bufs.tail.length ≤ n
    rw [List.length_tail]
    omega
  · show t.hwPtr = Ring.idx n (Ring.next n rd) f.results.tail.length
    rw [List.length_tail, hstep _ (by omega), h.hwPtr, Nat.sub_add_cancel hpos]
  · replace hi : f.bufs.tail[i]? = some b := hi
    show Entry K n _ b f.results.tail[i]? _
    rw [List.getElem?_tail] at hi ⊢
    have hil := (List.getElem?_eq_some_iff.mp hi).1
    rw [hstep i (by omega), hother i (by omega)]
    exact h.entry (i + 1) b hi
  · replace hi : f.bufs.tail.length ≤ i := hi
    rw [List.length_tail] at hi
    rw [hstep i hin]
    by_cases hlast : i + 1 = n
    · -- the descriptor that was freed comes last now
      rw [hlast, Ring.idx_self, put_self]
      obtain ⟨b, hb⟩ : ∃ b, f.bufs[0]? = some b := ⟨_, List.getElem?_eq_getElem (by omega)⟩
      have he := h.entry 0 b hb
      rw [List.getElem?_eq_getElem hpos, Ring.idx_zero h.rd_lt] at he
      exact ⟨(K.free_en _).trans he.done.1, K.free_used _⟩
    · rw [hother i (by omega)]
      exact h.idle (i + 1) (by omega) (by omega)

end Table

/-! ## How a ring shows a queue -/

/-- The descriptor holds one of the `k` buffers from `rd` on. -/
def InUse (n rd k p : Nat) : Prop := ∃ i < k, Ring.idx n rd i = p

theorem inUse_succ {n rd k p : Nat} :
    InUse n rd (k + 1) p ↔ InUse n rd k p ∨ Ring.idx n rd k = p := by
  constructor
  · rintro ⟨i, hi, hp⟩
    rcases Nat.lt_succ_iff_lt_or_eq.mp hi with hi | rfl
    · exact .inl ⟨i, hi, hp⟩
    · exact .inr hp
  · rintro (⟨i, hi, hp⟩ | hp)
    · exact ⟨i, Nat.lt_succ_of_lt hi, hp⟩
    · exact ⟨k, Nat.lt_succ_self k, hp⟩

/-- Without the first buffer. -/
theorem inUse_next {n rd k p : Nat} (hrd : rd < n) (hk : k + 1 ≤ n) :
    InUse n (Ring.next n rd) k p ↔ InUse n rd (k + 1) p ∧ p ≠ rd := by
  constructor
  · rintro ⟨i, hi, rfl⟩
    rw [Ring.idx_next (by omega)]
    refine ⟨⟨i + 1, by omega, rfl⟩, fun he => ?_⟩
    have h0 := Ring.idx_inj (k := 0) (by omega) (by omega) (he.trans (Ring.idx_zero hrd).symm)
    omega
  · rintro ⟨⟨i, hi, rfl⟩, hne⟩
    obtain ⟨i, rfl⟩ : ∃ j, i = j + 1 := by
      refine ⟨i - 1, (Nat.sub_add_cancel (Nat.pos_of_ne_zero ?_)).symm⟩
      rintro rfl
      exact hne (Ring.idx_zero hrd)
    exact ⟨i, by omega, Ring.idx_next (by omega)⟩

/-- The reports so far: each gave the buffer that was the oldest one then. -/
structure Reports (l : List (Nat × Nat)) (queued : List Nat) (freed : Nat) : Prop where
  oldest : ∀ k b, (k, b) ∈ l → queued[k]? = some b ∧ k ≤ freed
  sorted : (l.map Prod.fst).Pairwise (· ≤ ·)

/-- The ring shows the queue; the buffers accepted so far are those freed, in that order, and those
in the queue; and a descriptor in use was enabled once more than it was freed. -/
structure DescRing.Inv (K : Kind σ γ) (r : DescRing σ) (f : Fifo γ) : Prop where
  holds : r.tab.Holds K r.size r.dptrRd f
  wrPtr : r.dptrWr = Ring.idx r.size r.dptrRd f.bufs.length
  queued : r.queued = r.freed ++ f.bufs
  reports : Reports r.reported r.queued r.freed.length
  used : ∀ p, InUse r.size r.dptrRd f.bufs.length p → r.enables p = r.frees p + 1
  unused : ∀ p, ¬ InUse r.size r.dptrRd f.bufs.length p → r.enables p = r.frees p

namespace DescRing

variable {r : DescRing σ} {f : Fifo γ} {g : Nat → List γ}

theorem inv_init [Inhabited σ] {n : Nat} (hn : 0 < n) (hz : K.used (.zero : Desc σ) = false) :
    (DescRing.init n : DescRing σ).Inv K (.nil : Fifo γ) where
  holds :=
    { rd_lt := hn
      le := Nat.zero_le n
      hwPtr := (Ring.idx_zero hn).symm
      entry := fun _ _ h => nomatch h
      idle := fun _ _ _ => ⟨rfl, hz⟩ }
  wrPtr := (Ring.idx_zero hn).symm
  queued := rfl
  reports := ⟨nofun, .nil⟩
  used := fun _ ⟨_, hi, _⟩ => absurd hi (Nat.not_lt_zero _)
  unused := fun _ _ => rfl

theorem next_eq (r : DescRing σ) {p : Nat} (hp : p < r.size) : r.next p = Ring.next r.size p := by
  unfold next Ring.next
  split_ifs <;> omega

/-- What the core does leaves the data of the driver as they are. -/
theorem Inv.hw (h : r.Inv K f) (cs : List γ) : (r.hw K cs).Inv K (f.completes cs) := by
  have hb : (f.completes cs).bufs = f.bufs := Fifo.completes_bufs cs
  exact ⟨h.holds.hw cs, hb ▸ h.wrPtr, hb ▸ h.queued, h.reports, hb ▸ h.used, hb ▸ h.unused⟩

/-! ### `setUp` -/

/-- A full ring is busy. -/
theorem setUp_busy [Inhabited σ] (buf len : Nat) (h : r.Inv K f) (hfull : f.bufs.length = r.size) :
    (r.setUp K g buf len).1 = .busy ∧
      ∃ cs, (r.setUp K g buf len).2.Inv K (f.completes cs) := by
  unfold setUp
  by_cases hen : (r.tab.dtb r.dptrWr).en = true
  · rw [if_pos hen]
    exact ⟨rfl, [], h⟩
  · have hen' : (r.tab.dtb r.dptrWr).en = false := by simpa using hen
    have hsame := Table.hw_dtb (K := K) (g 0) hen'
    have hused : K.used ((r.tab.hw K (g 0)).dtb r.dptrWr) = true := by
      rw [hsame]
      by_contra hno
      rw [h.wrPtr] at hen' hno
      exact (h.holds.wr_idle_iff.mp ⟨hen', by simpa using hno⟩) hfull
    rw [if_neg hen]
    dsimp only
    rw [if_pos hused]
    exact ⟨rfl, g 0, h.hw (g 0)⟩

/-- Another ring accepts the buffer. -/
theorem setUp_ok [Inhabited σ] {buf : Nat} (len : Nat) (h : r.Inv K f) (hfree : f.bufs.length ≠ r.size)
    (hbuf : buf ≠ 0) :
    (r.setUp K g buf len).1 = .ok ∧ (r.setUp K g buf len).2.size = r.size ∧
      (r.setUp K g buf len).2.queued = r.queued ++ [buf] ∧
      ∃ cs ds, (r.setUp K g buf len).2.Inv K (((f.completes cs).accept buf).completes ds) := by
  obtain ⟨hen, hused⟩ := h.wrPtr ▸ h.holds.wr_idle_iff.mpr hfree
  have hlt : f.bufs.length < r.size := Nat.lt_of_le_of_ne h.holds.le hfree
  have hwlt : r.dptrWr < r.size := h.wrPtr ▸ Ring.idx_lt h.holds.rd_lt hlt
  have hsame := Table.hw_dtb (K := K) (g 0) hen
  obtain ⟨d, hd⟩ : ∃ d, d = r.newDesc buf len := ⟨_, rfl⟩
  have hden : d.en = false := hd ▸ rfl
  have htab : (((r.tab.hw K (g 0)).put r.dptrWr d).hw K (g 1)) =
      (r.tab.hw K (g 0 ++ g 1)).put r.dptrWr d := by
    rw [Table.hw_put (g 1) (by rw [hsame]; exact hen) hden, Table.hw_append]
  have hrun : r.setUp K g buf len = (.ok, { r with
      tab := ((r.tab.hw K (g 0 ++ g 1)).put r.dptrWr { d with en := true }).hw K (g 2)
      dptrWr := r.next r.dptrWr
      running := true
      queued := r.queued ++ [buf]
      enables := Function.update r.enables r.dptrWr (r.enables r.dptrWr + 1) }) := by
    unfold setUp
    rw [hen, if_neg nofun]
    dsimp only
    rw [hsame, hused, if_neg nofun, ← hd, htab, Table.put_put, Table.put_self]
  obtain ⟨f', hf'⟩ : ∃ f', f' = f.completes (g 0 ++ g 1) := ⟨_, rfl⟩
  have hb : f'.bufs = f.bufs := hf' ▸ Fifo.completes_bufs _
  have hacc : ((r.tab.hw K (g 0 ++ g 1)).put r.dptrWr { d with en := true }).Holds K r.size r.dptrRd
      (f'.accept buf) := by
    have h' := hf' ▸ h.holds.hw (g 0 ++ g 1)
    have hp : r.dptrWr = Ring.idx r.size r.dptrRd f'.bufs.length := hb ▸ h.wrPtr
    have hda : d.addr = buf := hd ▸ rfl
    have hwr : d.wr = decide (Ring.idx r.size r.dptrRd f'.bufs.length = r.size - 1) := by
      rw [← hp, hd]
      rfl
    rw [hp]
    exact hda ▸ h'.accept (hb ▸ hfree) (d := { d with en := true }) rfl hwr (hda ▸ hbuf)
  have hbufs : ((f'.accept buf).completes (g 2)).bufs = f.bufs ++ [buf] := by
    rw [Fifo.completes_bufs]
    exact congrArg (· ++ [buf]) hb
  have hnot : ¬ InUse r.size r.dptrRd f.bufs.length r.dptrWr := by
    rintro ⟨i, hi, hp⟩
    have := Ring.idx_inj (by omega) hlt (hp.trans h.wrPtr)
    omega
  have hiff : ∀ p, InUse r.size r.dptrRd (f.bufs ++ [buf]).length p ↔
      InUse r.size r.dptrRd f.bufs.length p ∨ p = r.dptrWr := by
    intro p
    rw [List.length_append, List.length_singleton, inUse_succ, ← h.wrPtr]
    exact or_congr_right eq_comm
  rw [hrun]
  refine ⟨rfl, rfl, rfl, g 0 ++ g 1, g 2, ?_⟩
  rw [← hf']
  refine ⟨hacc.hw (g 2), ?_, ?_, ?_, fun p hp => ?_, fun p hp => ?_⟩
  · show r.next r.dptrWr = _
    rw [hbufs, List.length_append, List.length_singleton, next_eq r hwlt, h.wrPtr,
      Ring.next_idx h.holds.rd_lt hlt]
  · show r.queued ++ [buf] = r.freed ++ _
    rw [hbufs, h.queued, List.append_assoc]
  · refine ⟨fun k b hk => ?_, h.reports.sorted⟩
    obtain ⟨hq, hle⟩ := h.reports.oldest k b hk
    exact ⟨(List.getElem?_append_left (List.getElem?_eq_some_iff.mp hq).1).trans hq, hle⟩
  · rw [hbufs] at hp
    show Function.update r.enables r.dptrWr _ p = r.frees p + 1
    rcases (hiff p).mp hp with hp | rfl
    · have hne : p ≠ r.dptrWr := by
        rintro rfl
        exact hnot hp
      rw [Function.update_of_ne hne]
      exact h.used p hp
    · rw [Function.update_self, h.unused _ hnot]
  · rw [hbufs] at hp
    have hp' := mt (hiff p).mpr hp
    show Function.update r.enables r.dptrWr _ p = r.frees p
    rw [Function.update_of_ne (fun he => hp' (.inr he))]
    exact h.unused p fun hin => hp' (.inl hin)

/-! ### The RD descriptor -/

/-- The RD descriptor of an empty ring is idle. -/
theorem Inv.rd_idle (h : r.Inv K f) (hb : f.bufs = []) : Idle K (r.tab.dtb r.dptrRd) := by
  have hidle := h.holds.idle 0 (by rw [hb]; exact Nat.le_refl _) (Nat.zero_lt_of_lt h.holds.rd_lt)
  rwa [Ring.idx_zero h.holds.rd_lt] at hidle

/-- The RD descriptor of another ring holds the oldest buffer. -/
theorem Inv.rd_entry (h : r.Inv K f) {b : Nat} (hb : f.bufs.head? = some b) :
    Entry K r.size r.dptrRd b f.results.head? (r.tab.dtb r.dptrRd) := by
  have he := h.holds.entry 0 b (by rw [← List.head?_eq_getElem?]; exact hb)
  rwa [Ring.idx_zero h.holds.rd_lt, ← List.head?_eq_getElem?] at he

/-- While no buffer is complete there is none or the oldest one is enabled. -/
theorem Inv.rd_en (h : r.Inv K f) :
    (r.tab.dtb r.dptrRd).en = true ↔ f.bufs ≠ [] ∧ f.results = [] := by
  rcases hb : f.bufs.head? with _ | b
  · have hnil := List.head?_eq_none_iff.mp hb
    have hen := (h.rd_idle hnil).1
    simp [hen, hnil]
  · have he := h.rd_entry hb
    have hne : f.bufs ≠ [] := by
      rintro hnil
      rw [hnil] at hb
      cases hb
    rcases hr : f.results.head? with _ | c
    · rw [hr] at he
      simp [he.2.2.2, hne, List.head?_eq_none_iff.mp hr]
    · rw [hr] at he
      have hres : f.results ≠ [] := by
        rintro hnil
        rw [hnil] at hr
        cases hr
      simp [he.done.1, hres]

theorem Inv.rd_used (h : r.Inv K f) (hen : (r.tab.dtb r.dptrRd).en = false) :
    K.used (r.tab.dtb r.dptrRd) = true ↔ f.results ≠ [] := by
  rcases hb : f.bufs.head? with _ | b
  · have hnil := List.head?_eq_none_iff.mp hb
    have hres : f.results = [] := List.length_eq_zero_iff.mp (by have := f.le; simp_all)
    simp [(h.rd_idle hnil).2, hres]
  · have he := h.rd_entry hb
    rcases hr : f.results.head? with _ | c
    · rw [hr] at he
      exact absurd (hen.symm.trans he.2.2.2) nofun
    · rw [hr] at he
      have hres : f.results ≠ [] := by
        rintro hnil
        rw [hnil] at hr
        cases hr
      simp [he.done.2, hres]

/-! ### `freeRd` -/

/-- Without a complete buffer nothing is freed. -/
theorem freeRd_failed (h : r.Inv K f) (hres : f.results = []) :
    (r.freeRd K g).1 = .failed ∧ ∃ cs, (r.freeRd K g).2.Inv K (f.completes cs) := by
  unfold freeRd
  by_cases hen : (r.tab.dtb r.dptrRd).en = true
  · rw [if_pos hen]
    exact ⟨rfl, [], h⟩
  · have hen' : (r.tab.dtb r.dptrRd).en = false := by simpa using hen
    have hused : K.used ((r.tab.hw K (g 0)).dtb r.dptrRd) = false := by
      rw [Table.hw_dtb (g 0) hen']
      exact Bool.eq_false_iff.mpr fun hu => (h.rd_used hen').mp hu hres
    rw [if_neg hen]
    dsimp only
    rw [hused]
    exact ⟨rfl, g 0, h.hw (g 0)⟩

/-- A complete buffer is freed, and it is the oldest one. -/
theorem freeRd_ok (h : r.Inv K f) (hres : f.results ≠ []) :
    (r.freeRd K g).1 = .ok ∧
      (∀ b, f.bufs.head? = some b → (r.freeRd K g).2.freed = r.freed ++ [b]) ∧
      ∃ cs, (r.freeRd K g).2.Inv K ((f.completes cs).free) := by
  have hlen : 0 < f.bufs.length := Nat.lt_of_lt_of_le (List.length_pos_iff.mpr hres) f.le
  obtain ⟨b, hb⟩ : ∃ b, f.bufs.head? = some b := by
    rw [List.head?_eq_getElem?]
    exact ⟨_, List.getElem?_eq_getElem hlen⟩
  have hen : (r.tab.dtb r.dptrRd).en = false :=
    Bool.eq_false_iff.mpr fun he => hres (h.rd_en.mp he).2
  have hsame := Table.hw_dtb (K := K) (g 0) hen
  have hused := (h.rd_used hen).mpr hres
  have haddr : (r.tab.dtb r.dptrRd).addr = b := (h.rd_entry hb).2.1
  have htab : ((r.tab.hw K (g 0)).put r.dptrRd (K.free (r.tab.dtb r.dptrRd))).hw K (g 1) =
      (r.tab.hw K (g 0 ++ g 1)).put r.dptrRd
        (K.free ((r.tab.hw K (g 0 ++ g 1)).dtb r.dptrRd)) := by
    rw [Table.hw_put (g 1) (by rw [hsame]; exact hen) ((K.free_en _).trans hen), ← Table.hw_append,
      Table.hw_dtb (g 0 ++ g 1) hen]
  have hrun : r.freeRd K g = (.ok, { r with
      tab := (r.tab.hw K (g 0 ++ g 1)).put r.dptrRd
        (K.free ((r.tab.hw K (g 0 ++ g 1)).dtb r.dptrRd))
      dptrRd := r.next r.dptrRd
      freed := r.freed ++ [b]
      frees := Function.update r.frees r.dptrRd (r.frees r.dptrRd + 1) }) := by
    unfold freeRd
    rw [hen, if_neg nofun]
    dsimp only
    rw [hsame, hused, Bool.not_true, if_neg nofun, haddr, htab]
  obtain ⟨f', hf'⟩ : ∃ f', f' = f.completes (g 0 ++ g 1) := ⟨_, rfl⟩
  have hb' : f'.bufs = f.bufs := hf' ▸ Fifo.completes_bufs _
  have hres' : f'.results ≠ [] := by
    obtain ⟨ds, hds⟩ := Fifo.completes_results (f := f) (g 0 ++ g 1)
    rw [hf', hds]
    exact List.append_ne_nil_of_left_ne_nil hres ds
  have htail : f.bufs = b :: f.bufs.tail := by
    rcases hl : f.bufs with _ | ⟨c, l⟩
    · rw [hl] at hb
      cases hb
    · rw [hl] at hb
      obtain rfl := Option.some.inj hb
      rfl
  have hle : f.bufs.tail.length + 1 ≤ r.size := by
    have := h.holds.le
    rw [List.length_tail]
    omega
  have hnext : r.next r.dptrRd = Ring.next r.size r.dptrRd := next_eq r h.holds.rd_lt
  have hiff : ∀ p, InUse r.size (Ring.next r.size r.dptrRd) f.bufs.tail.length p ↔
      InUse r.size r.dptrRd f.bufs.length p ∧ p ≠ r.dptrRd := by
    intro p
    rw [inUse_next h.holds.rd_lt hle, List.length_tail, Nat.sub_add_cancel hlen]
  have hin : InUse r.size r.dptrRd f.bufs.length r.dptrRd :=
    ⟨0, hlen, Ring.idx_zero h.holds.rd_lt⟩
  have hbt : f'.free.bufs = f.bufs.tail := congrArg List.tail hb'
  rw [hrun]
  refine ⟨rfl, fun b' hb'' => ?_, g 0 ++ g 1, ?_⟩
  · rw [Option.some.inj (hb.symm.trans hb'')]
  rw [← hf']
  refine ⟨?_, ?_, ?_, ?_, fun p hp => ?_, fun p hp => ?_⟩
  · show Table.Holds K _ r.size (r.next r.dptrRd) _
    rw [hnext]
    exact (hf' ▸ h.holds.hw (g 0 ++ g 1)).free hres'
  · show r.dptrWr = Ring.idx r.size (r.next r.dptrRd) f'.free.bufs.length
    rw [hnext, hbt, Ring.idx_next (by omega), List.length_tail, Nat.sub_add_cancel hlen]
    exact h.wrPtr
  · show r.queued = (r.freed ++ [b]) ++ f'.free.bufs
    rw [hbt, h.queued, List.append_assoc]
    exact congrArg (r.freed ++ ·) htail
  · refine ⟨fun k b' hk => ?_, h.reports.sorted⟩
    obtain ⟨hq, hk'⟩ := h.reports.oldest k b' hk
    refine ⟨hq, Nat.le_trans hk' ?_⟩
    show r.freed.length ≤ (r.freed ++ [b]).length
    rw [List.length_append]
    exact Nat.le_add_right _ _
  · replace hp : InUse r.size (r.next r.dptrRd) f'.free.bufs.length p := hp
    rw [hnext, hbt, hiff] at hp
    show r.enables p = Function.update r.frees r.dptrRd _ p + 1
    rw [Function.update_of_ne hp.2]
    exact h.used p hp.1
  · replace hp : ¬ InUse r.size (r.next r.dptrRd) f'.free.bufs.length p := hp
    rw [hnext, hbt, hiff] at hp
    show r.enables p = Function.update r.frees r.dptrRd _ p
    by_cases hpr : p = r.dptrRd
    · subst hpr
      rw [Function.update_self]
      exact h.used _ hin
    · rw [Function.update_of_ne hpr]
      exact h.unused p fun hu => hp ⟨hu, hpr⟩

/-! ### The status of the RD descriptor -/

theorem hw_atRd (cs : List γ) (hen : r.atRd.en = false) : (r.hw K cs).atRd = r.atRd :=
  Table.hw_dtb cs hen

/-- The RD descriptor of a ring in the three cases of the queue. -/
theorem Inv.atRd_cases (h : r.Inv K f) :
    (f.bufs = [] ∧ Idle K r.atRd) ∨
      (∃ b l, f.bufs = b :: l ∧ f.results = [] ∧ r.atRd.en = true ∧ r.atRd.addr = b) ∨
      ∃ b l c cs d, f.bufs = b :: l ∧ f.results = c :: cs ∧ r.atRd = K.complete c d ∧
        r.atRd.en = false ∧ K.used r.atRd = true ∧ r.atRd.addr = b := by
  rcases hb : f.bufs with _ | ⟨b, l⟩
  · exact .inl ⟨rfl, h.rd_idle hb⟩
  · have he := h.rd_entry (b := b) (by rw [hb]; rfl)
    rcases hr : f.results with _ | ⟨c, cs⟩
    · rw [hr] at he
      exact .inr (.inl ⟨b, l, rfl, rfl, he.2.2.2, he.2.1⟩)
    · rw [hr] at he
      obtain ⟨d, hd⟩ := he.2.2.2
      exact .inr (.inr ⟨b, l, c, cs, d, rfl, rfl, hd, he.done.1, he.done.2, he.2.1⟩)

/-- The address of the oldest buffer is there before and after it is complete. -/
theorem Inv.atRd_addr (h : r.Inv K f) {b : Nat} (hb : f.bufs.head? = some b) : r.atRd.addr = b :=
  (h.rd_entry hb).2.1

/-- A report of the oldest buffer is as promised. -/
theorem Inv.note (h : r.Inv K f) {b : Nat} (hb : f.bufs.head? = some b) : (r.note b).Inv K f := by
  refine ⟨h.holds, h.wrPtr, h.queued, ⟨fun k b' hk => ?_, ?_⟩, h.used, h.unused⟩
  · rcases List.mem_append.mp hk with hk | hk
    · exact h.reports.oldest k b' hk
    · obtain ⟨rfl, rfl⟩ := Prod.mk.inj (List.mem_singleton.mp hk)
      refine ⟨?_, Nat.le_refl _⟩
      show r.queued[r.freed.length]? = some b'
      rw [h.queued, List.getElem?_append_right (Nat.le_refl _), Nat.sub_self,
        ← List.head?_eq_getElem?]
      exact hb
  · show ((r.reported ++ [(r.freed.length, b)]).map Prod.fst).Pairwise (· ≤ ·)
    rw [List.map_append, List.pairwise_append]
    refine ⟨h.reports.sorted, List.pairwise_singleton _ _, fun k hk k' hk' => ?_⟩
    obtain ⟨⟨j, b'⟩, hj, rfl⟩ := List.mem_map.mp hk
    obtain rfl : k' = r.freed.length := by simpa using hk'
    exact (h.reports.oldest j b' hj).2

end DescRing

/-! ## The functions of the driver -/

/-- The status of a transmission ring that shows the queue. -/
def Fifo.txStatus (f : Fifo TxBits) : TxStatus :=
  match f.bufs, f.results with
  | [], _ => .idle
  | _ :: _, [] => .txing
  | _ :: _, c :: _ => if c.ue || c.al then .err else .ok

/-- The status of a reception ring that shows the queue. -/
def Fifo.rxStatus (f : Fifo RxDone) : RxStatus :=
  match f.bufs, f.results with
  | [], _ => .idle
  | _ :: _, [] => .rxing
  | _ :: _, c :: _ => if c.bits.oe || c.bits.ce || c.bits.ft || c.bits.ae then .err else .ok

/-- `greth_txstatus` reports the oldest buffer, with the status it has when `en` is read. -/
theorem grethTxstatus_spec {r : DescRing TxBits} {f : Fifo TxBits} {g : Nat → List TxBits}
    (h : r.Inv txKind f) :
    (∀ b, f.bufs.head? = some b → (grethTxstatus r g).1 = b) ∧
      (grethTxstatus r g).2.1 = (f.completes (g 0)).txStatus ∧
      ∃ cs, (grethTxstatus r g).2.2.Inv txKind (f.completes cs) := by
  have h0 := h.hw (g 0)
  have hb0 : (f.completes (g 0)).bufs = f.bufs := Fifo.completes_bufs _
  have haddr : (grethTxstatus r g).1 = r.atRd.addr := by
    unfold grethTxstatus
    dsimp only
    split_ifs <;> rfl
  refine ⟨fun b hb => haddr.trans (h.atRd_addr hb), ?_⟩
  unfold grethTxstatus
  dsimp only
  rcases h0.atRd_cases with ⟨hnil, hen, hused⟩ | ⟨b, l, hb, hr, hen, -⟩ |
    ⟨b, l, c, cs, d, hb, hr, hd, hen, hused, ha⟩
  · have h1 := DescRing.hw_atRd (K := txKind) (g 1) hen
    have hz : ¬ (r.hw txKind (g 0)).atRd.addr ≠ 0 := by simpa [txKind] using hused
    rw [hen, if_neg nofun, h1, if_neg hz]
    refine ⟨?_, g 0 ++ g 1, ?_⟩
    · unfold Fifo.txStatus
      rw [hnil]
    · rw [Fifo.completes, List.foldl_append]
      exact h0.hw (g 1)
  · rw [if_pos hen]
    refine ⟨?_, g 0, h0⟩
    unfold Fifo.txStatus
    rw [hb, hr]
  · have h1 := DescRing.hw_atRd (K := txKind) (g 1) hen
    have h2 := DescRing.hw_atRd (K := txKind) (g 2) (h1 ▸ hen)
    have hz : (r.hw txKind (g 0)).atRd.addr ≠ 0 := by simpa [txKind] using hused
    rw [hen, if_neg nofun, h1, if_pos hz, h2, h1, hd]
    refine ⟨?_, g 0 ++ g 1 ++ g 2, ?_⟩
    · unfold Fifo.txStatus
      rw [hb, hr]
      rfl
    · have hhead : f.bufs.head? = some b := by rw [← hb0, hb]; rfl
      rw [h.atRd_addr hhead, Fifo.completes, List.foldl_append, List.foldl_append]
      refine ((h0.hw (g 1)).hw (g 2)).note ?_
      rw [Fifo.completes_bufs, Fifo.completes_bufs]
      exact hb ▸ rfl

/-- `greth_rxstatus` reports the oldest buffer, with the status it has when `en` is read; the size is
that of the packet if the packet was complete before the size was read. -/
theorem grethRxstatus_spec {r : DescRing RxBits} {f : Fifo RxDone} {g : Nat → List RxDone}
    (h : r.Inv rxKind f) :
    (∀ b, f.bufs.head? = some b → (grethRxstatus r g).1 = b) ∧
      (∀ c, (f.completes (g 0)).results.head? = some c → (grethRxstatus r g).2.1 = c.len) ∧
      (grethRxstatus r g).2.2.1 = (f.completes (g 0 ++ g 1)).rxStatus ∧
      ∃ cs, (grethRxstatus r g).2.2.2.Inv rxKind (f.completes cs) := by
  have h0 := h.hw (g 0)
  have h01 : ((r.hw rxKind (g 0)).hw rxKind (g 1)).Inv rxKind (f.completes (g 0 ++ g 1)) := by
    rw [Fifo.completes, List.foldl_append]
    exact h0.hw (g 1)
  have hb01 : (f.completes (g 0 ++ g 1)).bufs = f.bufs := Fifo.completes_bufs _
  have haddr : (grethRxstatus r g).1 = r.atRd.addr := by
    unfold grethRxstatus
    dsimp only
    split_ifs <;> rfl
  have hsize : (grethRxstatus r g).2.1 = (r.hw rxKind (g 0)).atRd.len := by
    unfold grethRxstatus
    dsimp only
    split_ifs <;> rfl
  refine ⟨fun b hb => haddr.trans (h.atRd_addr hb), fun c hc => hsize.trans ?_, ?_⟩
  · rcases h0.atRd_cases with ⟨hnil, -⟩ | ⟨b, l, -, hr, -⟩ | ⟨b, l, c', cs, d, -, hr, hd, -⟩
    · have hle := (f.completes (g 0)).le
      rw [hnil] at hle
      rw [List.length_eq_zero_iff.mp (Nat.le_zero.mp hle)] at hc
      cases hc
    · rw [hr] at hc
      cases hc
    · rw [hr] at hc
      obtain rfl := Option.some.inj hc
      rw [hd]
      rfl
  unfold grethRxstatus
  dsimp only
  rcases h01.atRd_cases with ⟨hnil, hen, hused⟩ | ⟨b, l, hb, hr, hen, -⟩ |
    ⟨b, l, c, cs, d, hb, hr, hd, hen, hused, ha⟩
  · have h2 := DescRing.hw_atRd (K := rxKind) (g 2) hen
    have hz : ¬ ((r.hw rxKind (g 0)).hw rxKind (g 1)).atRd.len ≠ 0 := by simpa [rxKind] using hused
    rw [hen, if_neg nofun, h2, if_neg hz]
    refine ⟨?_, g 0 ++ g 1 ++ g 2, ?_⟩
    · unfold Fifo.rxStatus
      rw [hnil]
    · rw [Fifo.completes, List.foldl_append]
      exact h01.hw (g 2)
  · rw [if_pos hen]
    refine ⟨?_, g 0 ++ g 1, h01⟩
    unfold Fifo.rxStatus
    rw [hb, hr]
  · have h2 := DescRing.hw_atRd (K := rxKind) (g 2) hen
    have h3 := DescRing.hw_atRd (K := rxKind) (g 3) (h2 ▸ hen)
    have hz : ((r.hw rxKind (g 0)).hw rxKind (g 1)).atRd.len ≠ 0 := by simpa [rxKind] using hused
    rw [hen, if_neg nofun, h2, if_pos hz, h3, h2, hd]
    refine ⟨?_, g 0 ++ g 1 ++ g 2 ++ g 3, ?_⟩
    · unfold Fifo.rxStatus
      rw [hb, hr]
      rfl
    · have hhead : f.bufs.head? = some b := by rw [← hb01, hb]; rfl
      rw [h.atRd_addr hhead, Fifo.completes, List.foldl_append, List.foldl_append]
      refine ((h01.hw (g 2)).hw (g 3)).note ?_
      rw [Fifo.completes_bufs, Fifo.completes_bufs]
      exact hb ▸ rfl

/-! ## Runs -/

/-- The arguments that `greth_transmit` and `greth_receive` take. -/
def txAccepts (bufPhys size : Nat) : Prop := bufPhys ≠ 0 ∧ bufPhys % 4 = 0 ∧ size ≤ bufMax
def rxAccepts (bufPhys size : Nat) : Prop := bufPhys ≠ 0 ∧ bufPhys % 4 = 0 ∧ bufMax ≤ size

/-- What has happened to the buffers so far: they were freed in the order in which they were
accepted, those that are not freed are the queue, each report gave the oldest one, and no descriptor
was enabled again before it was freed. -/
structure DescRing.InOrder (r : DescRing σ) (f : Fifo γ) : Prop where
  queued : r.queued = r.freed ++ f.bufs
  bound : f.bufs.length ≤ r.size
  reports : Reports r.reported r.queued r.freed.length
  once : ∀ p, r.frees p ≤ r.enables p ∧ r.enables p ≤ r.frees p + 1

/-- How the functions that queue and free buffers answer. -/
structure Answers (K : Kind σ γ) (put : DescRing σ → (Nat → List γ) → Nat → Nat → Err × DescRing σ)
    (accepts : Nat → Nat → Prop) (free : DescRing σ → (Nat → List γ) → Err × DescRing σ)
    (r : DescRing σ) (f : Fifo γ) : Prop where
  busy_iff : ∀ g buf size, accepts buf size →
    ((put r g buf size).1 = .busy ↔ f.bufs.length = r.size)
  accepted : ∀ g buf size, accepts buf size → f.bufs.length ≠ r.size →
    (put r g buf size).1 = .ok ∧ (put r g buf size).2.queued = r.queued ++ [buf]
  refused : ∀ g buf size, ¬ accepts buf size →
    (put r g buf size).1 ≠ .busy ∧ (put r g buf size).1 ≠ .ok ∧ (put r g buf size).2 = r
  freed_iff : ∀ g, (free r g).1 = .ok ↔ f.results ≠ []
  frees : ∀ g b, f.results ≠ [] → f.bufs.head? = some b → (free r g).2.freed = r.freed ++ [b]
  progress : ∀ c g, f.bufs ≠ [] → (free (r.hw K [c]) g).1 = .ok

theorem DescRing.Inv.inOrder {r : DescRing σ} {f : Fifo γ} (h : r.Inv K f) : r.InOrder f := by
  refine ⟨h.queued, h.holds.le, h.reports, fun p => ?_⟩
  by_cases hp : InUse r.size r.dptrRd f.bufs.length p
  · have := h.used p hp
    omega
  · have := h.unused p hp
    omega

/-- The answers follow from what `setUp` and `freeRd` do. -/
theorem DescRing.Inv.answers [Inhabited σ] {r : DescRing σ} {f : Fifo γ} (h : r.Inv K f)
    {put : DescRing σ → (Nat → List γ) → Nat → Nat → Err × DescRing σ} {accepts : Nat → Nat → Prop}
    (len : Nat → Nat) (hnull : ∀ buf size, accepts buf size → buf ≠ 0)
    (hput : ∀ g buf size, accepts buf size → put r g buf size = r.setUp K g buf (len size))
    (hrefuse : ∀ g buf size, ¬ accepts buf size →
      (put r g buf size).1 ≠ .busy ∧ (put r g buf size).1 ≠ .ok ∧ (put r g buf size).2 = r) :
    Answers K put accepts (DescRing.freeRd K) r f where
  busy_iff g buf size ha := by
    rw [hput g buf size ha]
    constructor
    · intro hbusy
      by_contra hne
      rw [(setUp_ok _ h hne (hnull buf size ha)).1] at hbusy
      cases hbusy
    · exact fun hfull => (setUp_busy _ _ h hfull).1
  accepted g buf size ha hne := by
    rw [hput g buf size ha]
    obtain ⟨hok, -, hq, -⟩ := setUp_ok (len size) h hne (hnull buf size ha) (g := g)
    exact ⟨hok, hq⟩
  refused := hrefuse
  freed_iff g := by
    constructor
    · intro hok hnil
      rw [(freeRd_failed h hnil).1] at hok
      cases hok
    · exact fun hne => (freeRd_ok h hne).1
  frees g b hne hb := (freeRd_ok h hne).2.1 b hb
  progress c g hne := (freeRd_ok (h.hw [c]) (Fifo.complete_ne_nil c hne)).1

theorem grethTransmit_eq {r : DescRing TxBits} {g : Nat → List TxBits} {buf size : Nat}
    (h : txAccepts buf size) : grethTransmit r g buf size = r.setUp txKind g buf size := by
  unfold grethTransmit
  rw [if_neg h.1, if_neg (not_not.mpr h.2.1), if_neg (Nat.not_lt.mpr h.2.2)]

theorem grethTransmit_refused {r : DescRing TxBits} {g : Nat → List TxBits} {buf size : Nat}
    (h : ¬ txAccepts buf size) : (grethTransmit r g buf size).1 ≠ .busy ∧
      (grethTransmit r g buf size).1 ≠ .ok ∧ (grethTransmit r g buf size).2 = r := by
  unfold grethTransmit
  split_ifs with h1 h2 h3
  · exact ⟨nofun, nofun, rfl⟩
  · exact ⟨nofun, nofun, rfl⟩
  · exact ⟨nofun, nofun, rfl⟩
  · exact absurd ⟨h1, not_not.mp h2, Nat.not_lt.mp h3⟩ h

theorem grethReceive_eq {r : DescRing RxBits} {g : Nat → List RxDone} {buf size : Nat}
    (h : rxAccepts buf size) : grethReceive r g buf size = r.setUp rxKind g buf 0 := by
  unfold grethReceive
  rw [if_neg h.1, if_neg (not_not.mpr h.2.1), if_neg (Nat.not_lt.mpr h.2.2)]

theorem grethReceive_refused {r : DescRing RxBits} {g : Nat → List RxDone} {buf size : Nat}
    (h : ¬ rxAccepts buf size) : (grethReceive r g buf size).1 ≠ .busy ∧
      (grethReceive r g buf size).1 ≠ .ok ∧ (grethReceive r g buf size).2 = r := by
  unfold grethReceive
  split_ifs with h1 h2 h3
  · exact ⟨nofun, nofun, rfl⟩
  · exact ⟨nofun, nofun, rfl⟩
  · exact ⟨nofun, nofun, rfl⟩
  · exact absurd ⟨h1, not_not.mp h2, Nat.not_lt.mp h3⟩ h

/-- Setting a descriptor up keeps a ring showing a queue. -/
theorem DescRing.Inv.setUp [Inhabited σ] {r : DescRing σ} {f : Fifo γ} (h : r.Inv K f)
    {g : Nat → List γ} {buf len : Nat} (hbuf : buf ≠ 0) :
    ∃ f', (r.setUp K g buf len).2.Inv K f' := by
  by_cases hfull : f.bufs.length = r.size
  · obtain ⟨-, cs, hcs⟩ := setUp_busy (g := g) buf len h hfull
    exact ⟨_, hcs⟩
  · obtain ⟨-, -, -, cs, ds, hcs⟩ := setUp_ok (g := g) len h hfull hbuf
    exact ⟨_, hcs⟩

/-- Freeing a descriptor keeps a ring showing a queue. -/
theorem DescRing.Inv.freeRd {r : DescRing σ} {f : Fifo γ} (h : r.Inv K f) {g : Nat → List γ} :
    ∃ f', (r.freeRd K g).2.Inv K f' := by
  by_cases hres : f.results = []
  · obtain ⟨-, cs, hcs⟩ := freeRd_failed (g := g) h hres
    exact ⟨_, hcs⟩
  · obtain ⟨-, -, cs, hcs⟩ := freeRd_ok (g := g) h hres
    exact ⟨_, hcs⟩

/-- Both rings show a queue. -/
def Dev.Inv (s : Dev) : Prop := (∃ f, s.tx.Inv txKind f) ∧ ∃ f, s.rx.Inv rxKind f

/-- **One event keeps both rings showing a queue.** -/
theorem step_inv {s : Dev} (h : s.Inv) (e : Event) : (step s e).Inv := by
  obtain ⟨⟨f, hf⟩, ⟨f', hf'⟩⟩ := h
  cases e with
  | transmit g buf size =>
    refine ⟨?_, f', hf'⟩
    show ∃ f, (grethTransmit s.tx g buf size).2.Inv txKind f
    by_cases ha : txAccepts buf size
    · rw [grethTransmit_eq ha]
      exact hf.setUp ha.1
    · rw [(grethTransmit_refused ha).2.2]
      exact ⟨f, hf⟩
  | txstatus g =>
    obtain ⟨-, -, cs, hcs⟩ := grethTxstatus_spec (g := g) hf
    exact ⟨⟨_, hcs⟩, f', hf'⟩
  | txfree g => exact ⟨hf.freeRd, f', hf'⟩
  | txComplete c => exact ⟨⟨_, hf.hw [c]⟩, f', hf'⟩
  | receive g buf size =>
    refine ⟨⟨f, hf⟩, ?_⟩
    show ∃ f, (grethReceive s.rx g buf size).2.Inv rxKind f
    by_cases ha : rxAccepts buf size
    · rw [grethReceive_eq ha]
      exact hf'.setUp ha.1
    · rw [(grethReceive_refused ha).2.2]
      exact ⟨f', hf'⟩
  | rxstatus g =>
    obtain ⟨-, -, -, cs, hcs⟩ := grethRxstatus_spec (g := g) hf'
    exact ⟨⟨f, hf⟩, _, hcs⟩
  | rxfree g => exact ⟨⟨f, hf⟩, hf'.freeRd⟩
  | rxComplete c => exact ⟨⟨f, hf⟩, _, hf'.hw [c]⟩

theorem run_inv (es : List Event) : ∀ {s : Dev}, s.Inv → (run s es).Inv := by
  induction es with
  | nil => exact fun h => h
  | cons e es ih => exact fun h => ih (step_inv h e)

/-- `greth_init` leaves two empty rings of the sizes of the tables. -/
theorem grethInit_inv {t : Tables} {s : Dev} (h : grethInit t = .ok s) :
    s.Inv ∧ s.tx.size = t.txDtbSz ∧ s.rx.size = t.rxDtbSz := by
  unfold grethInit at h
  split_ifs at h with h1 h2 h3
  obtain rfl := Except.ok.inj h
  refine ⟨⟨⟨.nil, DescRing.inv_init ?_ rfl⟩, .nil, DescRing.inv_init ?_ rfl⟩, rfl, rfl⟩ <;> omega

theorem setUp_size [Inhabited σ] (r : DescRing σ) (g : Nat → List γ) (buf len : Nat) :
    (r.setUp K g buf len).2.size = r.size := by
  unfold DescRing.setUp
  dsimp only
  split_ifs <;> rfl

theorem freeRd_size (r : DescRing σ) (g : Nat → List γ) : (r.freeRd K g).2.size = r.size := by
  unfold DescRing.freeRd
  dsimp only
  split_ifs <;> rfl

/-- Rings keep their sizes. -/
theorem step_size (s : Dev) (e : Event) :
    (step s e).tx.size = s.tx.size ∧ (step s e).rx.size = s.rx.size := by
  cases e with
  | transmit g buf size =>
    refine ⟨?_, rfl⟩
    show (grethTransmit s.tx g buf size).2.size = s.tx.size
    by_cases ha : txAccepts buf size
    · rw [grethTransmit_eq ha]
      exact setUp_size _ _ _ _
    · rw [(grethTransmit_refused ha).2.2]
  | txstatus g =>
    refine ⟨?_, rfl⟩
    show (grethTxstatus s.tx g).2.2.size = s.tx.size
    unfold grethTxstatus
    dsimp only
    split_ifs <;> rfl
  | txfree g => exact ⟨freeRd_size _ _, rfl⟩
  | txComplete c => exact ⟨rfl, rfl⟩
  | receive g buf size =>
    refine ⟨rfl, ?_⟩
    show (grethReceive s.rx g buf size).2.size = s.rx.size
    by_cases ha : rxAccepts buf size
    · rw [grethReceive_eq ha]
      exact setUp_size _ _ _ _
    · rw [(grethReceive_refused ha).2.2]
  | rxstatus g =>
    refine ⟨rfl, ?_⟩
    show (grethRxstatus s.rx g).2.2.2.size = s.rx.size
    unfold grethRxstatus
    dsimp only
    split_ifs <;> rfl
  | rxfree g => exact ⟨rfl, freeRd_size _ _⟩
  | rxComplete c => exact ⟨rfl, rfl⟩

theorem run_size (es : List Event) :
    ∀ {s : Dev}, (run s es).tx.size = s.tx.size ∧ (run s es).rx.size = s.rx.size := by
  induction es with
  | nil => exact ⟨rfl, rfl⟩
  | cons e es ih =>
    intro s
    obtain ⟨h1, h2⟩ := step_size s e
    obtain ⟨h3, h4⟩ := ih (s := step s e)
    exact ⟨h3.trans h1, h4.trans h2⟩

/-- **The descriptor rings are queues.**  After every run of driver calls and steps of the core, each
ring shows a queue: the buffers accepted so far are those freed, in the same order, and those in the
queue; the reports gave the oldest buffer of their time; no descriptor was enabled again before it
was freed.  A call that queues a buffer answers busy exactly when there are as many buffers in the
queue as the ring has descriptors, the status is that of the oldest buffer, and a buffer is freed
exactly when it is the oldest one and complete. -/
theorem run_fifo {t : Tables} {s : Dev} (h : grethInit t = .ok s) (es : List Event) :
    ((run s es).tx.size = t.txDtbSz ∧
      ∃ f, (run s es).tx.Inv txKind f ∧ (run s es).tx.InOrder f ∧
        Answers txKind grethTransmit txAccepts grethTxfree (run s es).tx f ∧
        ∀ g, (∀ b, f.bufs.head? = some b → (grethTxstatus (run s es).tx g).1 = b) ∧
          (grethTxstatus (run s es).tx g).2.1 = (f.completes (g 0)).txStatus) ∧
    ((run s es).rx.size = t.rxDtbSz ∧
      ∃ f, (run s es).rx.Inv rxKind f ∧ (run s es).rx.InOrder f ∧
        Answers rxKind grethReceive rxAccepts grethRxfree (run s es).rx f ∧
        ∀ g, (∀ b, f.bufs.head? = some b → (grethRxstatus (run s es).rx g).1 = b) ∧
          (grethRxstatus (run s es).rx g).2.2.1 = (f.completes (g 0 ++ g 1)).rxStatus) := by
  obtain ⟨hinv, htx, hrx⟩ := grethInit_inv h
  obtain ⟨⟨f, hf⟩, ⟨f', hf'⟩⟩ := run_inv es hinv
  obtain ⟨hstx, hsrx⟩ := run_size es (s := s)
  refine ⟨⟨hstx.trans htx, f, hf, hf.inOrder, ?_, fun g => ?_⟩,
    ⟨hsrx.trans hrx, f', hf', hf'.inOrder, ?_, fun g => ?_⟩⟩
  · exact hf.answers id (fun _ _ ha => ha.1) (fun _ _ _ ha => grethTransmit_eq ha)
      fun _ _ _ ha => grethTransmit_refused ha
  · obtain ⟨h1, h2, -⟩ := grethTxstatus_spec (g := g) hf
    exact ⟨h1, h2⟩
  · exact hf'.answers (fun _ => 0) (fun _ _ ha => ha.1) (fun _ _ _ ha => grethReceive_eq ha)
      fun _ _ _ ha => grethReceive_refused ha
  · obtain ⟨h1, -, h2, -⟩ := grethRxstatus_spec (g := g) hf'
    exact ⟨h1, h2⟩

/-- Rings of two descriptors: they fill up, are drained while the core goes on, and wrap. -/
theorem twoDescs_fifo :
    let s : Dev := ⟨.init 2, .init 2⟩
    let es : List Event := [.transmit (fun _ => []) 4 60, .transmit (fun _ => [⟨false, false⟩]) 8 60,
      .transmit (fun _ => []) 12 60, .txstatus fun _ => [], .txfree fun _ => [⟨false, true⟩],
      .transmit (fun _ => []) 12 60]
    (run s es).tx.queued = [4, 8, 12] ∧ (run s es).tx.freed = [4] ∧
      ((run s es).tx.size = 2 ∧
        ∃ f, (run s es).tx.Inv txKind f ∧ (run s es).tx.InOrder f ∧
          Answers txKind grethTransmit txAccepts grethTxfree (run s es).tx f ∧
          ∀ g, (∀ b, f.bufs.head? = some b → (grethTxstatus (run s es).tx g).1 = b) ∧
            (grethTxstatus (run s es).tx g).2.1 = (f.completes (g 0)).txStatus) :=
  ⟨by decide, by decide, (run_fifo (t := ⟨1024, 1024, 2048, 2048, 2, 2⟩) rfl _).1⟩

end Greth
end Wrmos
