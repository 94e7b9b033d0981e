/-
  A listing goes through a section from its first byte to its last. `Swept` says
  so line by line, without the loop: a line stands at the word where the one
  before it ended, shows what can be decoded there (`Line.Shows`), and takes the
  bytes of its words, or what is left of them. A line of two words is that of an
  instruction, which lies inside the section; so only a word that does not decode
  is ever cut off by the end.

  `sweep_covers`: the bytes of the lines, put together, are the section, whatever
  it holds. `sweep` is a total function, so every section has a listing; it needs
  no more lines than there are words.
-/
import Ebpf.Proofs.Listing
import Mathlib.Data.List.Chain

namespace Ebpf

variable {d : Decoder} {o : ByteOrder} {pc : Nat} {code : List UInt8} {l : Line}
  {lines : List Line}

/-! ## Single lines -/

theorem Slot.words_eq (s : Slot) : s.words = 1 ∨ s.words = 2 := by
  unfold words
  split
  · exact .inr rfl
  · exact .inl rfl

namespace Line

/-- What a line shows of the bytes from its word on: the instruction there, or why there is none. -/
inductive Shows (d : Decoder) (o : ByteOrder) (code : List UInt8) (l : Line) : Prop
  | insn {slot : Slot} (hd : d.decode o code = .ok slot) (hwords : l.words = slot.words)
      (htext : l.text = slot.insn.text) : Shows d o code l
  | error {f : Fault} (hd : d.decode o code = .error f) (hwords : l.words = 1)
      (htext : l.text = ".error " ++ f.message) : Shows d o code l

theorem shows_ofCode (d : Decoder) (o : ByteOrder) (pc : Nat) (code : List UInt8) :
    (ofCode d o pc code).Shows d o code := by
  unfold ofCode
  split
  · next slot hd => exact .insn hd rfl rfl
  · next f hd => exact .error hd rfl rfl

theorem bytes_ofCode (d : Decoder) (o : ByteOrder) (pc : Nat) (code : List UInt8) :
    (ofCode d o pc code).bytes = code.take (Word.size * (ofCode d o pc code).words) := by
  unfold ofCode
  split <;> rfl

theorem Shows.words_eq (h : l.Shows d o code) : l.words = 1 ∨ l.words = 2 := by
  rcases h with ⟨-, hwords, -⟩ | ⟨-, hwords, -⟩
  · rw [hwords]
    exact Slot.words_eq _
  · exact .inl hwords

/-- What the end of the section cuts off is a single word. -/
theorem Shows.words_of_short (h : l.Shows d o code) (hshort : code.length < Word.size * l.words) :
    l.words = 1 := by
  rcases h with ⟨hd, hwords, -⟩ | ⟨-, hwords, -⟩
  · have hinside := (decode_effect d o code).words_le hd
    rw [hwords] at hshort
    omega
  · exact hwords

end Line

/-! ## All lines -/

/-- Lines that go through the rest of a section, the first of them at word `pc`. -/
inductive Swept (d : Decoder) (o : ByteOrder) : Nat → List UInt8 → List Line → Prop
  | nil {pc : Nat} : Swept d o pc [] []
  | cons {pc : Nat} {code : List UInt8} {l : Line} {lines : List Line} (hne : code ≠ [])
      (hpc : l.pc = pc) (hshows : l.Shows d o code)
      (hbytes : l.bytes = code.take (Word.size * l.words))
      (rest : Swept d o (pc + l.words) (code.drop (Word.size * l.words)) lines) :
      Swept d o pc code (l :: lines)

theorem swept_sweepFrom (d : Decoder) (o : ByteOrder) (pc : Nat) (code : List UInt8) :
    Swept d o pc code (sweepFrom d o pc code) := by
  induction pc, code using sweepFrom.induct d o with
  | case1 pc code hnil =>
    rw [List.isEmpty_iff.mp hnil, sweepFrom_nil]
    exact .nil
  | case2 pc code hne first ih =>
    have hcode : code ≠ [] := by simpa using hne
    rw [sweepFrom_of_ne_nil pc hcode]
    exact .cons hcode (Line.pc_ofCode pc code) (Line.shows_ofCode d o pc code)
      (Line.bytes_ofCode d o pc code) ih

namespace Swept

theorem eq_nil_iff (h : Swept d o pc code lines) : lines = [] ↔ code = [] := by
  cases h with
  | nil => simp
  | cons hne => simp [hne]

theorem pc_of_head (h : Swept d o pc code lines) (hl : lines.head? = some l) : l.pc = pc := by
  cases h with
  | nil => cases hl
  | cons _ hpc =>
    rw [List.head?_cons, Option.some.injEq] at hl
    rw [← hl, hpc]

/-- No byte is left out and none is listed twice. -/
theorem flatMap_bytes (h : Swept d o pc code lines) : lines.flatMap Line.bytes = code := by
  induction h with
  | nil => rfl
  | cons _ _ _ hbytes _ ih => rw [List.flatMap_cons, hbytes, ih, List.take_append_drop]

/-- Each line stands right behind the one before it. -/
theorem isChain (h : Swept d o pc code lines) :
    lines.IsChain fun l l' => l'.pc = l.pc + l.words := by
  induction h with
  | nil => exact .nil
  | cons _ hpc _ _ rest ih =>
    refine List.isChain_cons.mpr ⟨fun l' hl' => ?_, ih⟩
    rw [hpc]
    exact rest.pc_of_head hl'

/-- There are no more lines than words, the last of which may be incomplete. -/
theorem size_mul_length_lt (h : Swept d o pc code lines) :
    Word.size * lines.length < code.length + Word.size := by
  induction h with
  | nil => decide
  | cons hne _ hshows _ _ ih =>
    have hpos := List.length_pos_iff.mpr hne
    have hwords := hshows.words_eq
    rw [List.length_drop] at ih
    rw [List.length_cons]
    unfold Word.size at ih ⊢
    omega

/-- All lines but the last have all of their bytes. -/
theorem length_bytes_of_mem_dropLast (h : Swept d o pc code lines) (hl : l ∈ lines.dropLast) :
    l.bytes.length = Word.size * l.words := by
  induction h with
  | nil => cases hl
  | @cons pc code first lines _ _ _ hbytes rest ih =>
    by_cases hlast : lines = []
    · rw [hlast] at hl
      cases hl
    · rw [List.dropLast_cons_of_ne_nil hlast] at hl
      rcases List.mem_cons.mp hl with rfl | hlater
      · -- something is left behind the line, so it was not cut off
        have hleft := List.length_pos_iff.mpr (mt rest.eq_nil_iff.mpr hlast)
        rw [List.length_drop] at hleft
        rw [hbytes, List.length_take]
        omega
      · exact ih hlater

/-- The last line lacks bytes if the section ends within a word. -/
theorem length_bytes_of_getLast (h : Swept d o pc code lines) (hl : lines.getLast? = some l) :
    l.bytes.length ≤ Word.size * l.words ∧
      (l.bytes.length < Word.size * l.words ↔ ¬Word.size ∣ code.length) := by
  induction h with
  | nil => cases hl
  | @cons pc code first lines hne _ hshows hbytes rest ih =>
    by_cases hlast : lines = []
    · rw [hlast, List.getLast?_singleton, Option.some.injEq] at hl
      subst hl
      have hpos := List.length_pos_iff.mpr hne
      have hle : code.length ≤ Word.size * first.words :=
        List.drop_eq_nil_iff.mp (rest.eq_nil_iff.mp hlast)
      have hshort := hshows.words_of_short
      have hwords := hshows.words_eq
      rw [hbytes, List.take_of_length_le hle]
      unfold Word.size at hle hshort ⊢
      omega
    · rw [List.getLast?_cons_of_ne_nil hlast] at hl
      have hleft := List.length_pos_iff.mpr (mt rest.eq_nil_iff.mpr hlast)
      have hrest := ih hl
      rw [List.length_drop] at hleft hrest
      unfold Word.size at hleft hrest ⊢
      omega

end Swept

/-! ## Main statement -/

/-- Lines that cover a section from its first byte to its last. -/
structure Covers (d : Decoder) (o : ByteOrder) (code : List UInt8) (lines : List Line) : Prop where
  bytes : lines.flatMap Line.bytes = code
  count : Word.size * lines.length < code.length + Word.size
  first : ∀ l, lines.head? = some l → l.pc = 0
  next : lines.IsChain fun l l' => l'.pc = l.pc + l.words
  words : ∀ l ∈ lines, l.words = 1 ∨ l.words = 2
  whole : ∀ l ∈ lines.dropLast, l.bytes.length = Word.size * l.words
  last : ∀ l, lines.getLast? = some l → l.bytes.length ≤ Word.size * l.words ∧
    (l.bytes.length < Word.size * l.words ↔ ¬Word.size ∣ code.length)
  shows : ∀ l ∈ lines, l.Shows d o (code.drop (Word.size * l.pc))

theorem shows_of_mem_sweep (h : l ∈ sweep d o code) :
    l.Shows d o (code.drop (Word.size * l.pc)) := by
  have hshows := Line.shows_ofCode d o l.pc (code.drop (Word.size * l.pc))
  rw [← eq_ofCode_of_mem_sweep h] at hshows
  exact hshows

/-- A listing covers every byte of a section once, for every byte string, byte order and decoder. The
bytes of its lines, in order, are the section. The first line is at word zero, and each other one at
the word where the one before it ends; there are no more lines than words, whole or not. A line takes
one word or two, and has all bytes of them; only the last one may have less, and has if and only if
the length of the section is no multiple of eight. Each line shows the instruction that is decoded at
its word or, over one word, the fault. -/
theorem sweep_covers (d : Decoder) (o : ByteOrder) (code : List UInt8) :
    Covers d o code (sweep d o code) := by
  have hswept : Swept d o 0 code (sweep d o code) := swept_sweepFrom d o 0 code
  refine ⟨hswept.flatMap_bytes, hswept.size_mul_length_lt, ?_, hswept.isChain, ?_, ?_, ?_, ?_⟩
  · intro l hl
    exact hswept.pc_of_head hl
  · intro l hl
    exact (shows_of_mem_sweep hl).words_eq
  · intro l hl
    exact hswept.length_bytes_of_mem_dropLast hl
  · intro l hl
    exact hswept.length_bytes_of_getLast hl
  · intro l hl
    exact shows_of_mem_sweep hl

end Ebpf
