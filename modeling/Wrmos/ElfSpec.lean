import Wrmos.Elf
import Wrmos.Lib.Reads

/-!
# Reading ELF files in bounds

What `elf_foreach` reads of a file that `elf_check` accepts, with the functions of the boot loader.  The
check looks at the end of the section headers, in a sum of thirty-two bits, and at nothing else that is
behind the header: not at the program headers, not at the names, and not at the segments, of which the
loader copies as many bytes as they have in memory.  `Fits` is what would have to be checked, and
`elfForeach_inside_iff` says that exactly the files that fit are read in bounds.
-/

namespace Wrmos
namespace Elf

open Lib (run_inside_iff table_inside_iff string_inside_iff)

variable {A : Arch} {img : Image} {F : Fmt} {sz : Nat}

/-- Everything the access reads is inside the file. -/
def Access.Inside (A : Arch) (img : Image) (sz : Nat) : Access → Prop
  | .bytes off len => ∀ k < len, (off + k) % 2 ^ A.wordBits < sz
  | .str off => ∀ k, (∀ j < k, img.at' A (off + j) ≠ 0) → (off + k) % 2 ^ A.wordBits < sz

/-- The tables, the names and the segments of the file are in its bytes: no sum of an offset and a length
goes beyond the size, with the length a segment has in memory. -/
structure Fits (A : Arch) (img : Image) (F : Fmt) (sz : Nat) : Prop where
  sections : (ehdr A img F).shoff % 2 ^ A.wordBits + (ehdr A img F).shnum * F.shSize ≤ sz
  names : ∀ i < (ehdr A img F).shnum, ∃ k, (shCall A img F i).name % 2 ^ A.wordBits + k < sz ∧
    img.at' A ((shCall A img F i).name % 2 ^ A.wordBits + k) = 0
  programs : (ehdr A img F).phnum = 0 ∨
    (ehdr A img F).phoff % 2 ^ A.wordBits + (ehdr A img F).phnum * F.phSize ≤ sz
  segments : ∀ i < (ehdr A img F).phnum, (phCall A img F i).isLoad = true →
    (phCall A img F i).memsz = 0 ∨
      (phCall A img F i).location % 2 ^ A.wordBits + (phCall A img F i).memsz ≤ sz

/-- What an accepted header says. -/
structure Checked (A : Arch) (img : Image) (F : Fmt) (sz : Nat) : Prop where
  header : F.ehSize ≤ sz
  shentsize : (ehdr A img F).shentsize = F.shSize
  phentsize : (ehdr A img F).phentsize = F.phSize
  shstrndx : (ehdr A img F).shstrndx < (ehdr A img F).shnum

theorem checked_of_checkHdr {code : Nat} (hsz : F.ehSize ≤ sz) {n : Nat} (hcode : code ≠ 0)
    (h : checkHdr A img F n code = 0) : Checked A img F sz := by
  unfold checkHdr at h
  dsimp only at h
  split_ifs at h with h1 h2 h3 h4 h5
  · omega
  · exact ⟨hsz, not_not.mp h3, not_not.mp h5, Nat.not_le.mp h4⟩

theorem checked_of_elfCheck (h : elfCheck A img sz = 0) : Checked A img (img.fmt A) sz := by
  have hle : sz % 2 ^ 32 ≤ sz := Nat.mod_le _ _
  unfold elfCheck at h
  dsimp only at h
  unfold Image.fmt
  split_ifs at h with h1 h2 h3 h4 h5 h6 h7
  · rw [if_pos h6]
    exact checked_of_checkHdr ((Nat.not_lt.mp h1).trans hle) (by decide) h
  · rw [if_neg h6]
    exact checked_of_checkHdr ((Nat.not_lt.mp h7).trans hle) (by decide) h

/-- The formats: the sizes are positive, and the offset of a section is inside its header. -/
theorem fmt_spec (A : Arch) (img : Image) :
    0 < (img.fmt A).shSize ∧ 0 < (img.fmt A).phSize ∧
      8 + 2 * (img.fmt A).word + (img.fmt A).word ≤ (img.fmt A).shSize := by
  unfold Image.fmt
  split <;> decide

/-! ## The loops -/

theorem mem_shLoop {f : ShCall → List Access} {a : Access} : ∀ {n i : Nat},
    a ∈ shLoop A img F f n i ↔ ∃ j, i ≤ j ∧ j < i + n ∧
      (a = .bytes (shdrOff A img F j) F.shSize ∨ a ∈ f (shCall A img F j))
  | 0, i => by
    simp only [shLoop, List.not_mem_nil, false_iff]
    rintro ⟨j, h1, h2, -⟩
    omega
  | n + 1, i => by
    simp only [shLoop, List.cons_append, List.mem_cons, List.mem_append, mem_shLoop (n := n)]
    constructor
    · rintro (h | h | ⟨j, h1, h2, h⟩)
      · exact ⟨i, Nat.le_refl i, by omega, .inl h⟩
      · exact ⟨i, Nat.le_refl i, by omega, .inr h⟩
      · exact ⟨j, by omega, by omega, h⟩
    · rintro ⟨j, h1, h2, h⟩
      rcases Nat.eq_or_lt_of_le h1 with rfl | hlt
      · exact h.elim .inl fun h => .inr (.inl h)
      · exact .inr (.inr ⟨j, hlt, by omega, h⟩)

theorem mem_phLoop {f : PhCall → List Access} {a : Access} : ∀ {n i : Nat},
    a ∈ phLoop A img F f n i ↔ ∃ j, i ≤ j ∧ j < i + n ∧
      (a = .bytes (phdrOff A img F j) F.phSize ∨ a ∈ f (phCall A img F j))
  | 0, i => by
    simp only [phLoop, List.not_mem_nil, false_iff]
    rintro ⟨j, h1, h2, -⟩
    omega
  | n + 1, i => by
    simp only [phLoop, List.cons_append, List.mem_cons, List.mem_append, mem_phLoop (n := n)]
    constructor
    · rintro (h | h | ⟨j, h1, h2, h⟩)
      · exact ⟨i, Nat.le_refl i, by omega, .inl h⟩
      · exact ⟨i, Nat.le_refl i, by omega, .inr h⟩
      · exact ⟨j, by omega, by omega, h⟩
    · rintro ⟨j, h1, h2, h⟩
      rcases Nat.eq_or_lt_of_le h1 with rfl | hlt
      · exact h.elim .inl fun h => .inr (.inl h)
      · exact .inr (.inr ⟨j, hlt, by omega, h⟩)

theorem length_shLoop (n i : Nat) : (shLoop A img F processElfShdr n i).length = 2 * n := by
  induction n generalizing i with
  | zero => rfl
  | succ n ih =>
    simp only [shLoop, processElfShdr, List.length_append, List.length_cons, List.length_nil, ih]
    omega

variable (A img F) in
theorem length_phLoop (n i : Nat) : (phLoop A img F loadElfPhdr n i).length ≤ 2 * n := by
  induction n generalizing i with
  | zero => exact Nat.le_refl 0
  | succ n ih =>
    have hload : (loadElfPhdr (phCall A img F i)).length ≤ 1 := by
      unfold loadElfPhdr
      split
      · exact Nat.le_refl 1
      · exact Nat.zero_le 1
    have := ih (i + 1)
    simp only [phLoop, List.length_append, List.length_cons]
    omega

theorem le_lt (A : Arch) (img : Image) : ∀ (o n : Nat), img.le A o n < 256 ^ n
  | _, 0 => Nat.one_pos
  | o, n + 1 => by
    have hbyte := (img.at' A o).toNat_lt
    have hrest := le_lt A img (o + 1) n
    unfold Image.le
    rw [pow_succ]
    omega

theorem be_lt (A : Arch) (img : Image) : ∀ (o n : Nat), img.be A o n < 256 ^ n
  | _, 0 => Nat.one_pos
  | o, n + 1 => by
    have hbyte := (img.at' A (o + n)).toNat_lt
    have hrest := be_lt A img o n
    unfold Image.be
    rw [pow_succ]
    omega

theorem field_lt (A : Arch) (img : Image) (o n : Nat) : img.field A o n < 256 ^ n := by
  unfold Image.field
  split
  · exact be_lt A img o n
  · exact le_lt A img o n

/-! ## What is read -/

/-- The reads of the section headers with their names. -/
theorem sections_inside_iff (hsz : sz < 2 ^ A.wordBits) (h : Checked A img F sz) (hpos : 0 < F.shSize)
    (hoff : 8 + 2 * F.word + F.word ≤ F.shSize) :
    (∀ a ∈ Access.bytes (strOffset A img F) F.word ::
        shLoop A img F processElfShdr (ehdr A img F).shnum 0, a.Inside A img sz) ↔
      (ehdr A img F).shoff % 2 ^ A.wordBits + (ehdr A img F).shnum * F.shSize ≤ sz ∧
        ∀ i < (ehdr A img F).shnum, ∃ k, (shCall A img F i).name % 2 ^ A.wordBits + k < sz ∧
          img.at' A ((shCall A img F i).name % 2 ^ A.wordBits + k) = 0 := by
  have hnum : (ehdr A img F).shnum ≠ 0 := Nat.ne_of_gt (Nat.zero_lt_of_lt h.shstrndx)
  have htable := table_inside_iff (o := (ehdr A img F).shoff) hsz (n := (ehdr A img F).shnum) hpos
  have hname : ∀ i, (Access.str (shCall A img F i).name).Inside A img sz ↔
      ∃ k, (shCall A img F i).name % 2 ^ A.wordBits + k < sz ∧
        img.at' A ((shCall A img F i).name % 2 ^ A.wordBits + k) = 0 := by
    intro i
    have hmod : ∀ o, img.at' A (o % 2 ^ A.wordBits) = img.at' A o := by
      intro o
      unfold Image.at'
      rw [Nat.mod_mod]
    have hstr := string_inside_iff (o := (shCall A img F i).name) hsz fun o => (img.at' A o).toNat
    simp only [hmod, ← UInt8.toNat_zero, UInt8.toNat_inj, ne_eq] at hstr
    exact hstr
  constructor
  · intro hall
    constructor
    · refine (htable.mp fun i hi k hk => ?_).resolve_left hnum
      have hread := hall (.bytes (shdrOff A img F i) F.shSize)
        (List.mem_cons_of_mem _ (mem_shLoop.mpr ⟨i, Nat.zero_le i, by omega, .inl rfl⟩)) k hk
      unfold shdrOff at hread
      rwa [h.shentsize] at hread
    · intro i hi
      exact (hname i).mp (hall _ (List.mem_cons_of_mem _
        (mem_shLoop.mpr ⟨i, Nat.zero_le i, by omega, .inr (List.mem_singleton.mpr rfl)⟩)))
  · rintro ⟨hfit, hnames⟩ a ha
    have hread := htable.mpr (.inr hfit)
    rcases List.mem_cons.mp ha with rfl | ha
    · -- the offset of the names is a field of one of the headers
      intro k hk
      have := hread _ h.shstrndx (8 + 2 * F.word + k) (by omega)
      unfold strOffset strHdr
      rw [h.shentsize]
      rwa [Nat.add_assoc, Nat.add_assoc, Nat.add_assoc, ← Nat.add_assoc 8, ← Nat.add_assoc] 
    · obtain ⟨i, -, hi, rfl | ha⟩ := mem_shLoop.mp ha
      · intro k hk
        have := hread i (by omega) k hk
        unfold shdrOff
        rwa [h.shentsize]
      · obtain rfl := List.mem_singleton.mp ha
        exact (hname i).mpr (hnames i (by omega))

/-- The reads of the program headers, with the copies of the segments. -/
theorem programs_inside_iff (hsz : sz < 2 ^ A.wordBits) (h : Checked A img F sz) (hpos : 0 < F.phSize) :
    (∀ a ∈ phLoop A img F loadElfPhdr (ehdr A img F).phnum 0, a.Inside A img sz) ↔
      ((ehdr A img F).phnum = 0 ∨
        (ehdr A img F).phoff % 2 ^ A.wordBits + (ehdr A img F).phnum * F.phSize ≤ sz) ∧
      ∀ i < (ehdr A img F).phnum, (phCall A img F i).isLoad = true →
        (phCall A img F i).memsz = 0 ∨
          (phCall A img F i).location % 2 ^ A.wordBits + (phCall A img F i).memsz ≤ sz := by
  have htable := table_inside_iff (o := (ehdr A img F).phoff) hsz (n := (ehdr A img F).phnum) hpos
  constructor
  · intro hall
    constructor
    · refine htable.mp fun i hi k hk => ?_
      have hread := hall (.bytes (phdrOff A img F i) F.phSize)
        (mem_phLoop.mpr ⟨i, Nat.zero_le i, by omega, .inl rfl⟩) k hk
      unfold phdrOff at hread
      rwa [h.phentsize] at hread
    · intro i hi hload
      refine (run_inside_iff hsz).mp (hall (.bytes _ _) (mem_phLoop.mpr
        ⟨i, Nat.zero_le i, by omega, .inr ?_⟩))
      unfold loadElfPhdr
      rw [if_pos hload]
      exact List.mem_singleton.mpr rfl
  · rintro ⟨hfit, hseg⟩ a ha
    obtain ⟨i, -, hi, rfl | ha⟩ := mem_phLoop.mp ha
    · intro k hk
      have := htable.mpr hfit i (by omega) k hk
      unfold phdrOff
      rwa [h.phentsize]
    · unfold loadElfPhdr at ha
      split at ha
      · next hload =>
        obtain rfl := List.mem_singleton.mp ha
        exact (run_inside_iff hsz).mpr (hseg i (by omega) hload)
      · cases ha

/-- **Reading ELF files.**  When `elf_check` accepts a file, `elf_foreach` makes at most two reads for each
of its headers and two more, and with the functions of the boot loader all of them are inside the file
exactly when it fits. -/
theorem elfForeach_inside_iff (hsz : sz < 2 ^ A.wordBits) (h : elfCheck A img sz = 0) :
    (∃ l, elfForeach A img sz (some processElfShdr) (some loadElfPhdr) = .ok l ∧
      l.length ≤ 2 + 2 * 65535 + 2 * 65535 ∧ ∀ a ∈ l, a.Inside A img sz) ↔
    Fits A img (img.fmt A) sz := by
  have hchecked := checked_of_elfCheck h
  obtain ⟨hsh, hph, hword⟩ := fmt_spec A img
  have hrun : elfForeach A img sz (some processElfShdr) (some loadElfPhdr) =
      .ok (foreach A img (img.fmt A) (some processElfShdr) (some loadElfPhdr)) := by
    unfold elfForeach
    rw [h]
    rfl
  have hlen : (foreach A img (img.fmt A) (some processElfShdr) (some loadElfPhdr)).length ≤
      2 + 2 * 65535 + 2 * 65535 := by
    have h1 : (ehdr A img (img.fmt A)).shnum < 65536 := field_lt A img _ 2
    have h2 : (ehdr A img (img.fmt A)).phnum < 65536 := field_lt A img _ 2
    have h3 := length_phLoop A img (img.fmt A) (ehdr A img (img.fmt A)).phnum 0
    simp only [foreach, List.length_cons, List.length_append, length_shLoop]
    omega
  have hheader : (Access.bytes 0 (img.fmt A).ehSize).Inside A img sz :=
    (run_inside_iff hsz).mpr (.inr (by simpa using hchecked.header))
  have hsections := sections_inside_iff hsz hchecked hsh hword
  have hprograms := programs_inside_iff hsz hchecked hph
  constructor
  · rintro ⟨l, hl, -, hall⟩
    obtain rfl := Except.ok.inj (hrun.symm.trans hl)
    have hall' := fun a ha => hall a (List.mem_cons_of_mem _ ha)
    obtain ⟨h1, h2⟩ := hsections.mp fun a ha => hall' a (List.mem_append_left _ ha)
    obtain ⟨h3, h4⟩ := hprograms.mp fun a ha => hall' a (List.mem_append_right _ ha)
    exact ⟨h1, h2, h3, h4⟩
  · rintro ⟨h1, h2, h3, h4⟩
    refine ⟨_, hrun, hlen, fun a ha => ?_⟩
    rcases List.mem_cons.mp ha with rfl | ha
    · exact hheader
    · rcases List.mem_append.mp ha with ha | ha
      · exact hsections.mpr ⟨h1, h2⟩ a ha
      · exact hprograms.mpr ⟨h3, h4⟩ a ha

/-- A file of 124 bytes for a little-endian machine of thirty-two bits: the header, one segment that is
loaded, with 16 bytes in the file and `memsz` of them in memory, and one section, with the names. -/
def small (memsz : UInt8) : Image where
  addr := 0x8000
  byte o := [
    0x7f, 0x45, 0x4c, 0x46, 1, 1, 1, 0, 0, 0, 0, 0, 0, 0, 0, 0, 2, 0, 3, 0, 1, 0, 0, 0, 0, 0, 0x10,
    0, 0x34, 0, 0, 0, 0x54, 0, 0, 0, 0, 0, 0, 0, 0x34, 0, 0x20, 0, 1, 0, 0x28, 0, 1, 0, 0, 0,
    1, 0, 0, 0, 0, 0, 0, 0, 0, 0, 0x10, 0, 0, 0, 0x10, 0, 0x10, 0, 0, 0,
    0, memsz, 0, 0,
    7, 0, 0, 0, 4, 0, 0, 0,
    0, 0, 0, 0, 3, 0, 0, 0, 0, 0, 0, 0, 0, 0, 0, 0, 0, 0, 0, 0, 0x10, 0, 0, 0, 0, 0, 0, 0, 0, 0, 0,
    0, 1, 0, 0, 0, 0, 0, 0, 0].getD o 0

theorem small_inside :
    (∃ l, elfForeach .x86 (small 0) 124 (some processElfShdr) (some loadElfPhdr) = .ok l ∧
      l.length ≤ 2 + 2 * 65535 + 2 * 65535 ∧ ∀ a ∈ l, a.Inside .x86 (small 0) 124) ↔
    Fits .x86 (small 0) ((small 0).fmt .x86) 124 :=
  elfForeach_inside_iff (by decide) (by decide)

/-- With 4096 bytes in memory the file is accepted as well, and the loader copies them all. -/
theorem small_not_inside : elfCheck .x86 (small 0x10) 124 = 0 ∧
    ∃ l, elfForeach .x86 (small 0x10) 124 (some processElfShdr) (some loadElfPhdr) = .ok l ∧
      .bytes 0 0x1000 ∈ l ∧ ¬ (Access.bytes 0 0x1000).Inside .x86 (small 0x10) 124 := by
  refine ⟨by decide, _, rfl, by decide, fun h => ?_⟩
  exact absurd (h 124 (by decide)) (by decide)

end Elf
end Wrmos
