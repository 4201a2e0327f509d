import Wrmos.L4Types
import Mathlib.Data.List.Basic
import Mathlib.Logic.Function.Basic

/-!
# The page pool of an application

`lib/containers/page_pool.h`: a list of flexpages for each size from `2 ^ 12` to `2 ^ 31`.  A page
of a size that has run out is made by halving a larger one, which is made in the same way.
`PagePool.Wf` says that every page stands in the list of its size; it gives the size of what
`alloc` returns.
-/

namespace Wrmos

open Lib (bits ensure bind_eq_ok ensure_bind_eq_ok)

namespace Fpage

/-- `log2sz(v)`. -/
def setLog2sz (fp v : Nat) : Nat := fp - bits fp 4 6 * 2 ^ 4 + v % 2 ^ 6 * 2 ^ 4

/-- `addr(v)`. -/
def setAddr (A : Arch) (fp v : Nat) : Nat :=
  v / 2 ^ 10 % 2 ^ (A.wordBits - 10) * 2 ^ 10 + fp % 2 ^ 10

theorem log2sz_setLog2sz (fp v : Nat) : log2sz (setLog2sz fp v) = v % 2 ^ 6 :=
  Lib.bits_replace fp v 4 6

theorem log2sz_setAddr (A : Arch) (fp v : Nat) : log2sz (setAddr A fp v) = log2sz fp := by
  unfold log2sz setAddr bits
  omega

end Fpage

/-- `Page_pool_t`. -/
structure PagePool where
  fpages : Nat → List Nat
  sizeBytes : Nat

namespace PagePool

def empty : PagePool := ⟨fun _ => [], 0⟩

/-- `push_back` to one of the lists, which have thirty-two nodes. -/
def pushBack (p : PagePool) (i fp : Nat) : Except Stop PagePool := do
  ensure ((p.fpages i).length < 32) (.panic "list is full")
  pure { p with fpages := Function.update p.fpages i (p.fpages i ++ [fp]) }

/-- `add`. -/
def add (A : Arch) (p : PagePool) (fp : Nat) : Except Stop PagePool := do
  ensure (12 ≤ Fpage.log2sz fp) (.assertion "fpage.log2sz() >= Lgsz_min")
  ensure (Fpage.log2sz fp ≤ 31) (.assertion "fpage.log2sz() <= Lgsz_max")
  let p ← p.pushBack (Fpage.log2sz fp - 12) fp
  pure { p with sizeBytes := A.add p.sizeBytes (Fpage.size A fp) }

/-- Halve the first page of a list: the second part of `split`. -/
def halve (A : Arch) (p : PagePool) (lgsz : Nat) : Except Stop PagePool :=
  match p.fpages (lgsz - 12) with
  | [] => pure p
  | fp :: rest => do
    let pg1 := Fpage.setLog2sz fp (lgsz - 1)
    let pg2 := Fpage.setAddr A pg1 (A.add (Fpage.addr A pg1) (Fpage.size A pg1))
    let p : PagePool := { p with fpages := Function.update p.fpages (lgsz - 12) rest }
    let p ← p.pushBack (lgsz - 1 - 12) pg1
    p.pushBack (lgsz - 1 - 12) pg2

/-- `split`, for `lgsz = 32 - n`: the recursion ends above `Lgsz_max`. -/
def split (A : Arch) : Nat → PagePool → Except Stop PagePool
  | 0, p => pure p
  | n + 1, p =>
    let lgsz := 32 - (n + 1)
    (if p.fpages (lgsz - 12) = [] then split A n p else pure p) >>= fun p => p.halve A lgsz

/-- `lgsz`: zero for what is not a power of two. -/
def lgsz (sz : Nat) : Nat := if sz = 2 ^ Nat.log2 sz then Nat.log2 sz else 0

/-- `(size_t)(1 << lgsz)`, a shift of `int`. -/
def required (A : Arch) (lgsz : Nat) : Nat := if lgsz = 31 then 2 ^ A.wordBits - 2 ^ 31 else 2 ^ lgsz

/-- `alloc`, with `alloc_lgsz`. -/
def alloc (A : Arch) (p : PagePool) (sz : Nat) : Except Stop (PagePool × Nat) :=
  let lg := lgsz sz
  if lg < 12 ∨ 31 < lg ∨ p.sizeBytes < required A lg then pure (p, Fpage.nil)
  else
    (if p.fpages (lg - 12) = [] then split A (32 - (lg + 1)) p else pure p) >>= fun p =>
    match p.fpages (lg - 12) with
    | [] => pure (p, Fpage.nil)
    | fp :: rest =>
      pure (⟨Function.update p.fpages (lg - 12) rest, A.sub p.sizeBytes (Fpage.size A fp)⟩, fp)

/-- Every page stands in the list of its size. -/
def Wf (p : PagePool) : Prop := ∀ i, ∀ fp ∈ p.fpages i, Fpage.log2sz fp = i + 12

variable {A : Arch} {p q : PagePool} {i fp : Nat}

theorem wf_update {l : List Nat} {n : Nat} (hp : p.Wf) (hl : ∀ fp ∈ l, Fpage.log2sz fp = i + 12) :
    Wf ⟨Function.update p.fpages i l, n⟩ := by
  intro j fp hfp
  have hfp : fp ∈ Function.update p.fpages i l j := hfp
  by_cases hj : j = i
  · subst hj
    rw [Function.update_self] at hfp
    exact hl fp hfp
  · rw [Function.update_of_ne hj] at hfp
    exact hp j fp hfp

theorem wf_pushBack (hp : p.Wf) (hfp : Fpage.log2sz fp = i + 12) (h : p.pushBack i fp = .ok q) :
    q.Wf := by
  obtain ⟨_, h⟩ := ensure_bind_eq_ok.mp h
  obtain rfl := Except.ok.inj h
  refine wf_update hp fun fp' hfp' => ?_
  rcases List.mem_append.mp hfp' with h | h
  · exact hp i fp' h
  · rwa [List.mem_singleton.mp h]

theorem wf_add (hp : p.Wf) (h : p.add A fp = .ok q) : q.Wf := by
  obtain ⟨h12, h⟩ := ensure_bind_eq_ok.mp h
  obtain ⟨_, h⟩ := ensure_bind_eq_ok.mp h
  obtain ⟨r, hr, h⟩ := bind_eq_ok.mp h
  obtain rfl := Except.ok.inj h
  have hq : r.Wf := wf_pushBack hp (Nat.sub_add_cancel h12).symm hr
  exact hq

theorem wf_halve {lg : Nat} (hlg : 13 ≤ lg) (hlg' : lg < 32) (hp : p.Wf)
    (h : p.halve A lg = .ok q) : q.Wf := by
  unfold halve at h
  cases hl : p.fpages (lg - 12) with
  | nil =>
    rw [hl] at h
    exact Except.ok.inj h ▸ hp
  | cons fp rest =>
    rw [hl] at h
    obtain ⟨r, hr, h⟩ := bind_eq_ok.mp h
    have hrest : Wf { p with fpages := Function.update p.fpages (lg - 12) rest } :=
      wf_update hp fun fp' hfp' => hp _ fp' (by rw [hl]; exact List.mem_cons_of_mem fp hfp')
    have h1 : Fpage.log2sz (Fpage.setLog2sz fp (lg - 1)) = lg - 1 - 12 + 12 := by
      rw [Fpage.log2sz_setLog2sz]
      omega
    exact wf_pushBack (wf_pushBack hrest h1 hr) (by rw [Fpage.log2sz_setAddr, h1]) h

theorem wf_split : ∀ {n : Nat} {p q : PagePool}, n ≤ 19 → p.Wf → split A n p = .ok q → q.Wf
  | 0, _, _, _, hp, h => Except.ok.inj h ▸ hp
  | n + 1, p, q, hn, hp, h => by
    unfold split at h
    obtain ⟨r, hr, h⟩ := bind_eq_ok.mp h
    refine wf_halve (by omega) (by omega) ?_ h
    split at hr
    · exact wf_split (by omega) hp hr
    · exact Except.ok.inj hr ▸ hp

/-- What `alloc` returns is nil or a page of the size asked for. -/
theorem alloc_spec {sz : Nat} (hp : p.Wf) (h : p.alloc A sz = .ok (q, fp)) :
    q.Wf ∧ (fp = Fpage.nil ∨ Fpage.size A fp = sz) := by
  unfold alloc at h
  simp only at h
  by_cases hc : lgsz sz < 12 ∨ 31 < lgsz sz ∨ p.sizeBytes < required A (lgsz sz)
  · rw [if_pos hc] at h
    obtain ⟨rfl, rfl⟩ := Prod.mk.inj (Except.ok.inj h)
    exact ⟨hp, .inl rfl⟩
  · rw [if_neg hc] at h
    obtain ⟨r, hr, h⟩ := bind_eq_ok.mp h
    have hrw : r.Wf := by
      split at hr
      · exact wf_split (by omega) hp hr
      · exact Except.ok.inj hr ▸ hp
    cases hl : r.fpages (lgsz sz - 12) with
    | nil =>
      rw [hl] at h
      obtain ⟨rfl, rfl⟩ := Prod.mk.inj (Except.ok.inj h)
      exact ⟨hrw, .inl rfl⟩
    | cons fp' rest =>
      rw [hl] at h
      obtain ⟨rfl, rfl⟩ := Prod.mk.inj (Except.ok.inj h)
      have hlog := hrw _ fp' (by rw [hl]; exact List.mem_cons_self)
      refine ⟨wf_update hrw fun fp'' h'' => hrw _ fp'' (by rw [hl]; exact List.mem_cons_of_mem _ h''),
        .inr ?_⟩
      have hpow : sz = 2 ^ lgsz sz := by
        unfold lgsz at hc ⊢
        by_cases hs : sz = 2 ^ Nat.log2 sz
        · rw [if_pos hs]
          exact hs
        · rw [if_neg hs] at hc
          omega
      unfold Fpage.size Fpage.shiftOne
      rw [hlog, show lgsz sz - 12 + 12 = lgsz sz by omega,
        if_pos (lt_of_le_of_lt (show lgsz sz ≤ 31 by omega) (by cases A <;> decide))]
      exact hpow.symm

end PagePool

end Wrmos
