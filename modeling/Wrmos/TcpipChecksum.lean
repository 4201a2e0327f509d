import Wrmos.TcpipParse
import Wrmos.Lib.Words

/-!
# `inet_checksum`

The checksum of `helpers.h` and the two `calc_checksum` of `packets.h` that put a pseudo header behind
the packet.  The code adds words of sixteen bits to an accumulator of 32 bits, first those of the packet
and then those of the second part, folds the carries and complements what is left.

The loops are the code's: the counter of a sum is an `unsigned`, its bound `len - 1` is a `size_t` that
wraps for an empty part, and an addition wraps at 32 bits.  Whether one did is recorded beside the sum.
Under `sum16`, which counts without a bound, nothing wraps for two parts of at most 65535 bytes each
(`inetChecksum_eq`), so that a packet that holds its own checksum verifies (`verifies_inetChecksum`).
The pseudo header is an array of words in the order of the machine.  Its bytes are the same when the
checksum is computed and when it is checked, and nothing else about them is used.
-/

namespace Wrmos
namespace Checksum

open Lib (sum16 fold)

/-- `sum`, and whether an addition to it wrapped, which the code does not ask. -/
structure Acc where
  sum : Nat
  wrapped : Bool
  deriving DecidableEq, Repr

/-- `sum += v`. -/
def Acc.add (s : Acc) (v : Nat) : Acc :=
  ⟨(s.sum + v) % 2 ^ 32, s.wrapped || decide (2 ^ 32 ≤ s.sum + v)⟩

section Code

variable (A : Arch) (m : Lib.Mem)

/-- `for (unsigned i=0; i<len-1; i+=2) sum += (data[i] << 8) + data[i+1]`. -/
def addWords (data len : Nat) : Nat → Nat → Acc → Except Stop Acc
  | 0, _, _ => .error .outOfRounds
  | rounds + 1, i, s =>
    if i < A.sub len 1 then
      addWords data len rounds ((i + 2) % 2 ^ 32) (s.add (m.byte (data + i) * 256 + m.byte (data + i + 1)))
    else .ok s

/-- The words of one part and its last byte, if any. -/
def addData (data len : Nat) (s : Acc) : Except Stop Acc := do
  let s ← addWords A m data len (len / 2 + 1) 0 s
  if len % 2 = 1 then pure (s.add (m.byte (data + (len - 1)) * 256)) else pure s

/-- `while (sum >> 16) sum = (sum & 0xffff) + (sum >> 16)`. -/
def foldSum : Nat → Nat → Except Stop Nat
  | 0, _ => .error .outOfRounds
  | rounds + 1, sum =>
    if sum / 2 ^ 16 ≠ 0 then foldSum rounds (sum % 2 ^ 16 + sum / 2 ^ 16) else .ok sum

/-- `inet_checksum`; a null pointer for the second part is `none`.  The result comes with the record of
the accumulator. -/
def inetChecksum (data1 len1 : Nat) (data2 : Option Nat) (len2 : Nat) : Except Stop (Nat × Bool) := do
  let s ← addData A m data1 len1 ⟨0, false⟩
  let s ←
    match data2 with
    | some data2 => if len2 ≠ 0 then addData A m data2 len2 s else pure s
    | none => pure s
  let sum ← foldSum 3 s.sum
  pure (2 ^ 16 - 1 - sum % 2 ^ 16, s.wrapped)

/-- `uint32_t pseudo_hdr[3] = { ipsrc, ipdst, ((uint32_t)proto << 16) + len }` at an address of the
stack. -/
def storePseudo (stack ipsrc ipdst proto len : Nat) : Lib.Mem :=
  ((m.putWord A.bigEndian 4 stack ipsrc).putWord A.bigEndian 4 (stack + 4) ipdst).putWord A.bigEndian 4
    (stack + 8) ((proto * 2 ^ 16 + len) % 2 ^ 32)

/-- `sizeof(pseudo_hdr)`. -/
def pseudoSz : Nat := 12

/-- `Tcp_packet_t::calc_checksum`. -/
def tcpCalcChecksum (this stack tcplen ipsrc ipdst proto : Nat) : Except Stop (Nat × Bool) :=
  inetChecksum A (storePseudo A m stack ipsrc ipdst proto tcplen) this tcplen (some stack) pseudoSz

/-- `length` of `Udp_packet_t`. -/
def udpLength (this : Nat) : Nat := m.word A.bigEndian 2 (this + 4)

/-- `Udp_packet_t::calc_checksum`. -/
def udpCalcChecksum (this stack ipsrc ipdst proto : Nat) : Except Stop (Nat × Bool) :=
  let m' := storePseudo A m stack ipsrc ipdst proto (udpLength A m this)
  inetChecksum A m' this (udpLength A m' this) (some stack) pseudoSz

end Code

variable {A : Arch} {m : Lib.Mem} {data len rounds i q r : Nat} {s : Acc}

/-! ## The sum -/

theorem Acc.add_of_lt {v : Nat} (h : s.sum + v < 2 ^ 32) (hw : s.wrapped = false) :
    s.add v = ⟨s.sum + v, false⟩ := by
  unfold Acc.add
  rw [Nat.mod_eq_of_lt h, hw, decide_eq_false (by omega)]
  rfl

theorem sub_one (h0 : len ≠ 0) (hl : len < 2 ^ 32) : A.sub len 1 = len - 1 := by
  cases A <;> simp only [Arch.sub, Arch.wordBits] <;> omega

/-- One round of the loop. -/
theorem addWords_succ (hi : i + 1 < len) (hl : len < 2 ^ 32) (hs : s.sum + m.be16 (data + i) < 2 ^ 32)
    (hw : s.wrapped = false) : addWords A m data len (rounds + 1) i s =
      addWords A m data len rounds (i + 2) ⟨s.sum + m.be16 (data + i), false⟩ := by
  rw [addWords, sub_one (by omega) hl, if_pos (by omega), Nat.mod_eq_of_lt (by omega),
    ← Acc.add_of_lt hs hw]
  rfl

/-- The loop adds the whole words from `i` on. -/
theorem addWords_eq (hq : q < rounds) (hi : i + 2 * q + r = len) (hr : r < 2) (h0 : len ≠ 0)
    (hl : len < 2 ^ 32) (hs : s.sum + sum16 m (data + i) (2 * q) < 2 ^ 32) (hw : s.wrapped = false) :
    addWords A m data len rounds i s = .ok ⟨s.sum + sum16 m (data + i) (2 * q), false⟩ := by
  obtain ⟨k, rfl⟩ : ∃ k, rounds = k + 1 := ⟨rounds - 1, by omega⟩
  induction q generalizing k i s with
  | zero =>
    rw [addWords, sub_one h0 hl, if_neg (by omega), ← hw]
    rfl
  | succ q ih =>
    obtain ⟨k, rfl⟩ : ∃ k', k = k' + 1 := ⟨k - 1, by omega⟩
    have hstep : sum16 m (data + i) (2 * (q + 1)) =
        m.be16 (data + i) + sum16 m (data + (i + 2)) (2 * q) := by
      rw [show 2 * (q + 1) = 2 * q + 2 by omega, sum16]
      rfl
    rw [hstep] at hs ⊢
    have hrest : s.sum + m.be16 (data + i) + sum16 m (data + (i + 2)) (2 * q) < 2 ^ 32 := by omega
    rw [addWords_succ (by omega) hl (by omega) hw, ih (by omega) hrest rfl k (by omega)]
    simp only [Nat.add_assoc]

/-- A part adds its `sum16`. -/
theorem addData_eq (h0 : len ≠ 0) (hl : len < 2 ^ 32) (hs : s.sum + sum16 m data len < 2 ^ 32)
    (hw : s.wrapped = false) : addData A m data len s = .ok ⟨s.sum + sum16 m data len, false⟩ := by
  have hlen : len = 2 * (len / 2) + len % 2 := by omega
  have hsplit : sum16 m data len =
      sum16 m data (2 * (len / 2)) + sum16 m (data + 2 * (len / 2)) (len % 2) := by
    conv_lhs => rw [hlen]
    exact Lib.sum16_add
  rw [hsplit] at hs ⊢
  have hwords : addWords A m data len (len / 2 + 1) 0 s = .ok ⟨s.sum + sum16 m data (2 * (len / 2)), false⟩ :=
    addWords_eq (r := len % 2) (by omega) (by omega) (by omega) h0 hl (by rw [Nat.add_zero]; omega) hw
  rw [addData, hwords, Lib.ok_bind]
  rcases Nat.mod_two_eq_zero_or_one len with h | h
  · rw [if_neg (by omega), h]
    rfl
  · rw [h] at hs ⊢
    have hlast : sum16 m (data + 2 * (len / 2)) 1 = m.byte (data + (len - 1)) * 256 := by
      rw [show data + (len - 1) = data + 2 * (len / 2) by omega]
      rfl
    rw [hlast, ← Nat.add_assoc] at hs ⊢
    rw [if_pos rfl, Acc.add_of_lt hs rfl]
    rfl

/-- Folding twice leaves sixteen bits, and the third round sees that. -/
theorem foldSum_eq {sum : Nat} (h : sum < 2 ^ 32) : foldSum 3 sum = .ok (fold 3 sum) := by
  have h1 : sum % 2 ^ 16 + sum / 2 ^ 16 ≤ 2 ^ 17 - 2 := by omega
  unfold foldSum fold
  rw [ite_not]
  split
  · rfl
  · generalize sum % 2 ^ 16 + sum / 2 ^ 16 = t at h1
    have h2 : t % 2 ^ 16 + t / 2 ^ 16 < 2 ^ 16 := by omega
    unfold foldSum fold
    rw [ite_not]
    split
    · rfl
    · unfold foldSum fold
      rw [ite_not, if_pos (by omega), if_pos (by omega)]

/-! ## The checksum -/

/-- What the second part adds. -/
def extraSum (m : Lib.Mem) (data2 : Option Nat) (len2 : Nat) : Nat :=
  (data2.map fun p => sum16 m p len2).getD 0

variable {data1 len1 len2 : Nat} {data2 : Option Nat}

/-- **The checksum is the sum of the words**, folded and complemented, and no addition wraps. -/
theorem inetChecksum_eq (h0 : len1 ≠ 0) (hl1 : len1 < 2 ^ 32) (hl2 : len2 < 2 ^ 32)
    (hs : sum16 m data1 len1 + extraSum m data2 len2 < 2 ^ 32) :
    inetChecksum A m data1 len1 data2 len2 =
      .ok (Lib.inetChecksum m data1 len1 (extraSum m data2 len2), false) := by
  have hfirst : addData A m data1 len1 ⟨0, false⟩ = .ok ⟨0 + sum16 m data1 len1, false⟩ :=
    addData_eq h0 hl1 (by rw [Nat.zero_add]; omega) rfl
  have hlast : ∀ S < 2 ^ 32, (foldSum 3 S >>= fun sum => pure (2 ^ 16 - 1 - sum % 2 ^ 16, false)) =
      (.ok (2 ^ 16 - 1 - fold 3 S, false) : Except Stop (Nat × Bool)) := by
    intro S hS
    rw [foldSum_eq hS, Lib.ok_bind, Nat.mod_eq_of_lt (Lib.fold_lt hS)]
    rfl
  unfold inetChecksum Lib.inetChecksum
  rw [hfirst, Lib.ok_bind, Nat.mod_eq_of_lt hs]
  cases data2 with
  | none =>
    simp only [extraSum, Option.map_none, Option.getD_none, Nat.add_zero, Nat.zero_add] at hs ⊢
    exact hlast _ hs
  | some p =>
    simp only [extraSum, Option.map_some, Option.getD_some] at hs ⊢
    split_ifs with h
    · rw [Nat.zero_add, addData_eq h hl2 hs rfl, Lib.ok_bind]
      exact hlast _ hs
    · have hz : sum16 m p len2 = 0 := by
        rw [show len2 = 0 by omega]
        rfl
      rw [hz, Nat.add_zero] at hs ⊢
      rw [Nat.zero_add]
      exact hlast _ hs

/-- Storing what `check` returns in the field, most significant byte first, makes it return zero, and
neither time does the accumulator wrap. -/
def Verifies (check : Lib.Mem → Except Stop (Nat × Bool)) (m : Lib.Mem) (field : Nat) : Prop :=
  ∃ c, check m = .ok (c, false) ∧ check (m.put16 field c) = .ok (0, false)

/-- The field lies outside the second part. -/
def Apart (data2 : Option Nat) (len2 field : Nat) : Prop :=
  ∀ p ∈ data2, p + len2 ≤ field ∨ field + 2 ≤ p

variable {n j : Nat}

theorem extraSum_put16 {field v : Nat} (h : Apart data2 len2 field) :
    extraSum (m.put16 field v) data2 len2 = extraSum m data2 len2 := by
  cases data2 with
  | none => rfl
  | some p => exact Lib.sum16_congr (Lib.Mem.agreeOn_put16 (h p rfl))

theorem extraSum_le (m : Lib.Mem) (data2 : Option Nat) (len2 : Nat) :
    extraSum m data2 len2 ≤ (2 ^ 16 - 1) * ((len2 + 1) / 2) := by
  cases data2 with
  | none => exact Nat.zero_le _
  | some p => exact Lib.sum16_le_words

/-- **A packet that holds its own checksum verifies.** -/
theorem verifies_inetChecksum (hn : 2 ≤ n) (hn' : n ≤ 65535) (hl2 : len2 ≤ 65535)
    (hj : 2 * j + 2 ≤ n) (hz : m.be16 (data + 2 * j) = 0) (ha : Apart data2 len2 (data + 2 * j)) :
    Verifies (fun m => inetChecksum A m data n data2 len2) m (data + 2 * j) := by
  have hbound : ∀ m : Lib.Mem, sum16 m data n + extraSum m data2 len2 + 2 ^ 16 ≤ 2 ^ 32 := by
    intro m
    have h1 := Lib.sum16_le_words (m := m) (a := data) (n := n)
    have h2 := extraSum_le m data2 len2
    omega
  have hcheck : ∀ m : Lib.Mem, inetChecksum A m data n data2 len2 =
      .ok (Lib.inetChecksum m data n (extraSum m data2 len2), false) := fun m =>
    inetChecksum_eq (by omega) (by omega) (by omega) (by have := hbound m; omega)
  refine ⟨_, hcheck m, ?_⟩
  show inetChecksum A _ data n data2 len2 = _
  rw [hcheck, extraSum_put16 ha, Lib.inetChecksum_put16 hj hz (hbound m)]

/-! ## The pseudo header -/

section Pseudo

variable {this stack len ipsrc ipdst proto : Nat}

theorem agreeOn_storePseudo {a : Nat} (h : a + n ≤ stack ∨ stack + pseudoSz ≤ a) :
    Lib.Mem.AgreeOn m a n (storePseudo A m stack ipsrc ipdst proto len) := by
  unfold pseudoSz at h
  exact (Lib.Mem.agreeOn_putWord (by omega)).trans <|
    (Lib.Mem.agreeOn_putWord (by omega)).trans (Lib.Mem.agreeOn_putWord (by omega))

theorem storePseudo_put16 {field v : Nat} (h : field + 2 ≤ stack ∨ stack + pseudoSz ≤ field) :
    storePseudo A (m.put16 field v) stack ipsrc ipdst proto len =
      (storePseudo A m stack ipsrc ipdst proto len).put16 field v := by
  unfold pseudoSz at h
  unfold storePseudo
  rw [Lib.Mem.putWord_put16 (by omega), Lib.Mem.putWord_put16 (by omega), Lib.Mem.putWord_put16 (by omega)]

/-- The array of the pseudo header lies outside the packet and its header. -/
def OnStack (stack this n : Nat) : Prop := stack + pseudoSz ≤ this ∨ this + max n 8 ≤ stack

theorem verifies_pseudo (len ipsrc ipdst proto : Nat) (hn : 2 ≤ n) (hn' : n ≤ 65535) (hj : 2 * j + 2 ≤ n)
    (hz : m.be16 (this + 2 * j) = 0) (ha : OnStack stack this n) :
    Verifies (fun m => inetChecksum A m this n (some stack) pseudoSz)
      (storePseudo A m stack ipsrc ipdst proto len) (this + 2 * j) := by
  unfold OnStack at ha
  refine verifies_inetChecksum hn hn' (by decide) hj ?_ ?_
  · rw [(agreeOn_storePseudo (a := this + 2 * j) (n := 2) (by omega)).be16 (by omega) (by omega), hz]
  · rintro p ⟨⟩
    omega

/-- **A TCP packet that holds its own checksum verifies.** -/
theorem verifies_tcpCalcChecksum (hn : 2 ≤ n) (hn' : n ≤ 65535) (hj : 2 * j + 2 ≤ n)
    (hz : m.be16 (this + 2 * j) = 0) (ha : OnStack stack this n) :
    Verifies (fun m => tcpCalcChecksum A m this stack n ipsrc ipdst proto) m (this + 2 * j) := by
  obtain ⟨c, hc, hv⟩ := verifies_pseudo (A := A) n ipsrc ipdst proto
    hn hn' hj hz ha
  refine ⟨c, hc, ?_⟩
  unfold OnStack at ha
  show inetChecksum A (storePseudo A (m.put16 _ c) stack ipsrc ipdst proto n) this n _ _ = _
  rw [storePseudo_put16 (by omega)]
  exact hv

/-- A length that is not zero is not in a field of zeros. -/
theorem field_ne_length (hz : m.be16 (this + 2 * j) = 0) (hl : udpLength A m this ≠ 0) : j ≠ 2 := by
  rintro rfl
  apply hl
  rw [show this + 2 * 2 = this + 4 by omega, Lib.Mem.be16] at hz
  obtain ⟨h0, h1⟩ : m.byte (this + 4) = 0 ∧ m.byte (this + 4 + 1) = 0 := by omega
  cases A <;> simp [udpLength, Lib.Mem.word, Lib.number, Lib.Mem.rank, Arch.bigEndian, h0, h1]

/-- **A UDP packet that holds its own checksum verifies.** -/
theorem verifies_udpCalcChecksum (hn : 2 ≤ n) (hn' : n ≤ 65535) (hj : 2 * j + 2 ≤ n)
    (hz : m.be16 (this + 2 * j) = 0) (hl : udpLength A m this = n) (ha : OnStack stack this n) :
    Verifies (fun m => udpCalcChecksum A m this stack ipsrc ipdst proto) m (this + 2 * j) := by
  have hj2 := field_ne_length (A := A) hz (by omega)
  obtain ⟨c, hc, hv⟩ := verifies_pseudo (A := A) n ipsrc ipdst proto
    hn hn' hj hz ha
  unfold OnStack at ha
  have hlen : ∀ m : Lib.Mem,
      udpLength A (storePseudo A m stack ipsrc ipdst proto n) this = udpLength A m this :=
    fun m => (agreeOn_storePseudo (a := this) (n := 8) (by omega)).word (by omega) (by omega)
  have hstored : udpLength A (m.put16 (this + 2 * j) c) this = n := by
    rw [← hl]
    exact (Lib.Mem.agreeOn_put16 (a := this + 4) (n := 2) (by omega)).word (Nat.le_refl _) (Nat.le_refl _)
  refine ⟨c, ?_, ?_⟩
  · show udpCalcChecksum A m this stack ipsrc ipdst proto = _
    rw [udpCalcChecksum, hl, hlen, hl]
    exact hc
  · show udpCalcChecksum A (m.put16 _ c) this stack ipsrc ipdst proto = _
    rw [udpCalcChecksum, hstored, hlen, hstored, storePseudo_put16 (by omega)]
    exact hv

/-! ### The sum of the pseudo header -/

theorem sum16_be32 {a : Nat} :
    sum16 m a (n + 4) = m.be32 a / 2 ^ 16 + m.be32 a % 2 ^ 16 + sum16 m (a + 4) n := by
  have h1 := Lib.Mem.be16_lt (m := m) (a := a)
  have h2 := Lib.Mem.be16_lt (m := m) (a := a + 2)
  have h3 : m.be32 a = m.be16 a * 2 ^ 16 + m.be16 (a + 2) := rfl
  rw [show n + 4 = n + 2 + 2 by omega, sum16, sum16, show a + 2 + 2 = a + 4 by omega]
  omega

/-- On the machine of the server the second part adds the words of the pseudo header. -/
theorem sum16_storePseudo (m : Lib.Mem) (stack : Nat) (hs : ipsrc < 2 ^ 32) (hd : ipdst < 2 ^ 32)
    (hp : proto < 2 ^ 16)
    (hl : len < 2 ^ 16) : sum16 (storePseudo .sparc m stack ipsrc ipdst proto len) stack pseudoSz =
      Tcpip.pseudoSum ipsrc ipdst proto len := by
  have hwords : storePseudo .sparc m stack ipsrc ipdst proto len =
      ((m.put32 stack ipsrc).put32 (stack + 4) ipdst).put32 (stack + 8)
        ((proto * 2 ^ 16 + len) % 2 ^ 32) := by
    unfold storePseudo
    simp only [Arch.bigEndian, Lib.Mem.putWord_four]
  rw [hwords]
  unfold pseudoSz Tcpip.pseudoSum
  rw [sum16_be32 (n := 8), sum16_be32 (n := 4), sum16_be32 (n := 0), sum16]
  simp (disch := omega) only [Nat.add_assoc, Lib.Mem.be32_put32, Lib.Mem.be32_put32_ne]
  omega

/-- `calc_checksum` of a TCP packet is the sum of its words and of the words of its pseudo header. -/
theorem tcpCalcChecksum_eq (hs : ipsrc < 2 ^ 32) (hd : ipdst < 2 ^ 32) (hp : proto < 2 ^ 16)
    (h0 : n ≠ 0) (hn : n < 2 ^ 16) (ha : OnStack stack this n) :
    tcpCalcChecksum .sparc m this stack n ipsrc ipdst proto =
      .ok (Lib.inetChecksum m this n (Tcpip.pseudoSum ipsrc ipdst proto n), false) := by
  have hpseudo := sum16_storePseudo m stack hs hd hp hn
  have hagree : Lib.Mem.AgreeOn m this n (storePseudo .sparc m stack ipsrc ipdst proto n) := by
    unfold OnStack at ha
    exact agreeOn_storePseudo (by omega)
  have hle := Lib.sum16_le_words (m := m) (a := this) (n := n)
  have hextra : extraSum (storePseudo .sparc m stack ipsrc ipdst proto n) (some stack) pseudoSz =
      Tcpip.pseudoSum ipsrc ipdst proto n := hpseudo
  have hsmall : Tcpip.pseudoSum ipsrc ipdst proto n < 2 ^ 20 := by
    unfold Tcpip.pseudoSum
    omega
  rw [tcpCalcChecksum, inetChecksum_eq h0 (by omega) (by decide)
    (by rw [hextra, Lib.sum16_congr hagree]; omega), hextra, Lib.inetChecksum_congr hagree]

/-- The same for a UDP packet, whose length is the one in its header. -/
theorem udpCalcChecksum_eq (hs : ipsrc < 2 ^ 32) (hd : ipdst < 2 ^ 32) (hp : proto < 2 ^ 16)
    (h0 : n ≠ 0) (hn : n < 2 ^ 16) (hl : udpLength .sparc m this = n) (ha : OnStack stack this n) :
    udpCalcChecksum .sparc m this stack ipsrc ipdst proto =
      .ok (Lib.inetChecksum m this n (Tcpip.pseudoSum ipsrc ipdst proto n), false) := by
  have hlen : udpLength .sparc (storePseudo .sparc m stack ipsrc ipdst proto n) this = n := by
    rw [← hl]
    unfold OnStack at ha
    exact (agreeOn_storePseudo (a := this) (n := 8) (by omega)).word (by omega) (by omega)
  rw [udpCalcChecksum, hl, hlen]
  exact tcpCalcChecksum_eq hs hd hp h0 hn ha

end Pseudo

/-- **The checksum verifies.**  For every packet of 2 to 65535 bytes, with any second part beside the
field or none, and for a TCP and a UDP packet with their pseudo header: what the function returns while a
field at an even offset is zero makes it return zero once it is stored there. -/
theorem checksum_verifies (A : Arch) (m : Lib.Mem) (this n j : Nat) (hn : 2 ≤ n) (hn' : n ≤ 65535)
    (hj : 2 * j + 2 ≤ n) (hz : m.be16 (this + 2 * j) = 0) :
    (∀ data2 len2, len2 ≤ 65535 → Apart data2 len2 (this + 2 * j) →
      Verifies (fun m => inetChecksum A m this n data2 len2) m (this + 2 * j)) ∧
    (∀ stack ipsrc ipdst proto, OnStack stack this n →
      Verifies (fun m => tcpCalcChecksum A m this stack n ipsrc ipdst proto) m (this + 2 * j) ∧
      (udpLength A m this = n →
        Verifies (fun m => udpCalcChecksum A m this stack ipsrc ipdst proto) m (this + 2 * j))) :=
  ⟨fun _ _ hl2 ha => verifies_inetChecksum hn hn' hl2 hj hz ha,
    fun _ _ _ _ ha => ⟨verifies_tcpCalcChecksum hn hn' hj hz ha,
      fun hl => verifies_udpCalcChecksum hn hn' hj hz hl ha⟩⟩

/-- A UDP packet of eleven bytes at the address 16, with the checksum field still zero. -/
def smallPacket : Lib.Mem := Lib.Mem.load (fun _ => 0) 16 [0, 53, 0, 99, 0, 11, 0, 0, 104, 105, 33]

theorem smallPacket_verifies :
    Verifies (fun m => inetChecksum .sparc m 16 11 none 0) smallPacket 22 ∧
    Verifies (fun m => udpCalcChecksum .sparc m 16 64 0x0a000001 0x0a000002 17) smallPacket 22 := by
  have h := checksum_verifies .sparc smallPacket 16 11 3 (by decide) (by decide) (by decide)
    (by decide)
  exact ⟨h.1 none 0 (by decide) nofun, (h.2 64 _ _ 17 (.inr (by decide))).2 (by decide)⟩

end Checksum
end Wrmos
