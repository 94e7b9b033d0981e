/-
  Assembled programs and their listings. A `Statement` is a well-formed
  instruction as an assembler is given it, in words; its type holds what makes it
  well-formed, so that a program is any list of statements.

  `listing_of_assembled`: the listing of an assembled program has one line for
  each statement, with its place, its words and its text. What a continuation
  carries is never taken for an instruction.
-/
import Ebpf.Proofs.Encoding
import Ebpf.Proofs.LineText
import Ebpf.Proofs.Listing

namespace Ebpf

/-! ## Statements -/

/-- A word that an instruction can start with. -/
structure Word.WellFormed (w : Word) : Prop where
  dst_le : w.dst ≤ 10
  src_le : w.src ≤ 10
  supported : Opcode.Supported w.opcode w.imm

namespace Word.WellFormed

variable {w : Word}

theorem dst_lt (h : w.WellFormed) : w.dst.toNat < 11 :=
  (Reg.le_ten_iff w.dst).mp h.dst_le

theorem src_lt (h : w.WellFormed) : w.src.toNat < 11 :=
  (Reg.le_ten_iff w.src).mp h.src_le

theorem isSome_ofWord? (h : w.WellFormed) : (Op.ofWord? w).isSome = true :=
  (isSome_ofWord?_iff w).mpr h.supported

/-- Valid register numbers fit into their half bytes. -/
theorem fits (h : w.WellFormed) : w.Fits := by
  have hdst := UInt8.le_iff_toNat_le.mp h.dst_le
  have hsrc := UInt8.le_iff_toNat_le.mp h.src_le
  have h10 : (10 : UInt8).toNat = 10 := rfl
  have h16 : (16 : UInt8).toNat = 16 := rfl
  refine ⟨UInt8.lt_iff_toNat_lt.mpr ?_, UInt8.lt_iff_toNat_lt.mpr ?_⟩
  · omega
  · omega

end Word.WellFormed

/-- A well-formed instruction in words. One that takes two words has a continuation behind it, with
any number. -/
inductive Statement (d : Decoder) where
  | single (w : Word) (hw : w.WellFormed) (hone : ¬ d.TakesTwo w.opcode w.imm)
  | wide (w : Word) (hw : w.WellFormed) (htwo : d.TakesTwo w.opcode w.imm) (high : Int32)

namespace Statement

variable {d : Decoder} {o : ByteOrder}

/-- The first word. -/
def head : Statement d → Word
  | single w _ _ => w
  | wide w _ _ _ => w

theorem wellFormed_head (s : Statement d) : s.head.WellFormed := by
  cases s with
  | single w hw => exact hw
  | wide w hw => exact hw

/-- The words that are assembled. -/
def words : Statement d → List Word
  | single w _ _ => [w]
  | wide w _ _ high => [w, .continuation high]

/-- The immediate: sign-extended, or composed from both words. -/
def imm : Statement d → Int64
  | single w _ _ => w.imm.toInt64
  | wide w _ _ high => (high.toUInt32.toUInt64 <<< 32 ||| w.imm.toUInt32.toUInt64).toInt64

/-- The instruction that is meant. -/
def insn (s : Statement d) : Insn where
  op := (Op.ofWord? s.head).get s.wellFormed_head.isSome_ofWord?
  opcode := s.head.opcode
  dst := ⟨s.head.dst.toNat, s.wellFormed_head.dst_lt⟩
  src := ⟨s.head.src.toNat, s.wellFormed_head.src_lt⟩
  off := s.head.off
  imm := s.imm

theorem ofWord?_head (s : Statement d) : Op.ofWord? s.head = some s.insn.op :=
  (Option.some_get _).symm

/-- The operation that is meant is the one that the opcode's fields stand for. -/
theorem denotes_op (s : Statement d) : Opcode.Denotes s.head.opcode s.head.imm s.insn.op :=
  denotes_of_ofWord? s.ofWord?_head

/-! ## Decoding a statement -/

theorem length_words_pos (s : Statement d) : 0 < s.words.length := by
  cases s <;> simp [words]

/-- The words of a statement decode to its instruction, whatever follows. -/
theorem exists_decode (s : Statement d) (o : ByteOrder) (x : List UInt8) :
    ∃ slot, d.decode o (Word.assemble o s.words ++ x) = .ok slot ∧ slot.insn = s.insn ∧
      slot.words = s.words.length := by
  have hw := s.wellFormed_head
  have hdst : Reg.ofNumber s.head.dst = .ok ⟨s.head.dst.toNat, hw.dst_lt⟩ := dif_pos hw.dst_lt
  have hsrc : Reg.ofNumber s.head.src = .ok ⟨s.head.src.toNat, hw.src_lt⟩ := dif_pos hw.src_lt
  have hop := s.ofWord?_head
  cases s with
  | single w hw' hone =>
    have hnarrow : d.isWide (single w hw' hone).insn.op = false := by
      rw [Bool.eq_false_iff]
      intro hwide
      exact hone ((isWide_iff hop).mp hwide)
    rw [words, Word.assemble_cons, Word.assemble_nil, List.append_nil]
    exact ⟨_, decode_single (hw.fits.read?_toBytes o x) hdst hsrc hop hnarrow, rfl, rfl⟩
  | wide w hw' htwo high =>
    have hwide := (isWide_iff hop).mpr htwo
    have hread := hw.fits.read?_toBytes o ((Word.continuation high).toBytes o ++ x)
    have hread' := Word.read?_toBytes o (Word.continuation high) x
    have hc : (Word.continuation high).IsContinuation := ⟨rfl, rfl, rfl, rfl⟩
    rw [words, Word.assemble_cons, Word.assemble_cons, Word.assemble_nil, List.append_nil,
      List.append_assoc]
    refine ⟨_, decode_wide hread hdst hsrc hop hwide hread' hc, ?_, rfl⟩
    rw [Word.wideImm_eq]
    rfl

/-- The line of a statement. -/
def line (o : ByteOrder) (pc : Nat) (s : Statement d) : Line :=
  { pc
    words := s.words.length
    bytes := Word.assemble o s.words
    text := s.insn.text }

theorem ofCode_assemble (pc : Nat) (s : Statement d) (x : List UInt8) :
    Line.ofCode d o pc (Word.assemble o s.words ++ x) = s.line o pc := by
  obtain ⟨slot, hd, hinsn, hwords⟩ := s.exists_decode o x
  have hlen : Word.size * slot.words = (Word.assemble o s.words).length := by
    rw [hwords, Word.length_assemble]
  rw [Line.ofCode_of_ok hd, hlen, List.take_left, hinsn, hwords]
  rfl

end Statement

/-! ## Listing a program -/

variable {d : Decoder} {o : ByteOrder}

/-- A listing takes the words of a statement and goes on behind them. -/
theorem sweepFrom_cons (pc : Nat) (s : Statement d) (x : List UInt8) :
    sweepFrom d o pc (Word.assemble o s.words ++ x) =
      s.line o pc :: sweepFrom d o (pc + s.words.length) x := by
  have hlen : Word.size * (s.line o pc).words = (Word.assemble o s.words).length := by
    rw [Word.length_assemble]
    rfl
  have hne : Word.assemble o s.words ++ x ≠ [] := by
    intro hnil
    have hpos := s.length_words_pos
    have hzero := congrArg List.length (List.append_eq_nil_iff.mp hnil).1
    rw [Word.length_assemble, Word.size, List.length_nil] at hzero
    omega
  rw [sweepFrom_of_ne_nil pc hne, Statement.ofCode_assemble, hlen, List.drop_left]
  rfl

theorem sweepFrom_assemble (pc : Nat) (prog : List (Statement d)) :
    sweepFrom d o pc (Word.assemble o (prog.flatMap Statement.words)) =
      prog.mapIdx fun i s => s.line o (pc + ((prog.take i).flatMap Statement.words).length) := by
  induction prog generalizing pc with
  | nil => exact sweepFrom_nil pc
  | cons s prog ih =>
    rw [List.flatMap_cons, Word.assemble_append, sweepFrom_cons, ih, List.mapIdx_cons]
    congr 2
    funext i t
    rw [List.take_succ_cons, List.flatMap_cons, List.length_append, Nat.add_assoc]

/-! ## Wide loads -/

/-- The word pair of a wide load is a statement, with the register and the number it was made of. -/
theorem exists_loadWide (d : Decoder) {dst : UInt8} (hdst : dst ≤ 10) (value : UInt64) :
    ∃ s : Statement d,
      s.words = [(Word.loadWide dst value).1, (Word.loadWide dst value).2] ∧
      s.insn.dst.val = dst.toNat ∧
      s.insn.text = "lddw " ++ s.insn.dst.name ++ ", " ++ Text.hex0x value.toNat := by
  have hsupported : Opcode.Supported 0x18 value.toUInt32.toInt32 :=
    .inr (.inr (.inr (.inr (.inl (by decide)))))
  have hw : (Word.loadWide dst value).1.WellFormed :=
    ⟨hdst, show (0 : UInt8) ≤ 10 by decide, hsupported⟩
  let s : Statement d := .wide _ hw (.inl rfl) (value >>> 32).toUInt32.toInt32
  have hload : Op.ofWord? s.head = some .loadImm64 := by
    have hopcode : s.head.opcode = 0x18 := rfl
    rw [Op.ofWord?, hopcode]
    rfl
  have hop : s.insn.op = .loadImm64 := Option.some.inj (s.ofWord?_head.symm.trans hload)
  have himm : s.insn.imm = value.toInt64 := by
    have himm' : s.insn.imm =
        ((value >>> 32).toUInt32.toUInt64 <<< 32 ||| value.toUInt32.toUInt64).toInt64 := rfl
    rw [himm', joinHalves_halves]
  refine ⟨s, rfl, rfl, ?_⟩
  simp only [Insn.text, hop, himm, UInt64.toUInt64_toInt64]

/-! ## Main statement -/

/-- The listing of an assembled program is the program. It has one line for each statement, in their
order: at the number of words before it, with its words and their bytes, and with the text of its
instruction, whose operation is the one that the fields of its opcode stand for. None of them is the
line of a word that does not decode. The word pair of a wide load, for any valid register and any
number, is such a statement. -/
theorem listing_of_assembled (d : Decoder) (o : ByteOrder) (prog : List (Statement d)) :
    sweep d o (Word.assemble o (prog.flatMap Statement.words)) =
      (prog.mapIdx fun i s =>
        { pc := ((prog.take i).flatMap Statement.words).length
          words := s.words.length
          bytes := Word.assemble o s.words
          text := s.insn.text }) ∧
    (∀ line ∈ sweep d o (Word.assemble o (prog.flatMap Statement.words)), line.isError = false) ∧
    (∀ s : Statement d, Opcode.Denotes s.head.opcode s.head.imm s.insn.op) ∧
    ∀ dst value, dst ≤ 10 → ∃ s : Statement d,
      s.words = [(Word.loadWide dst value).1, (Word.loadWide dst value).2] ∧
      s.insn.dst.val = dst.toNat ∧
      s.insn.text = "lddw " ++ s.insn.dst.name ++ ", " ++ Text.hex0x value.toNat := by
  have hlines : sweep d o (Word.assemble o (prog.flatMap Statement.words)) =
      prog.mapIdx fun i s => s.line o ((prog.take i).flatMap Statement.words).length := by
    rw [sweep, sweepFrom_assemble]
    simp only [Nat.zero_add]
  refine ⟨hlines, ?_, Statement.denotes_op, fun dst value hdst => exists_loadWide d hdst value⟩
  intro line hline
  rw [hlines] at hline
  obtain ⟨i, hi, rfl⟩ := List.mem_mapIdx.mp hline
  exact (Statement.insn _).undotted_text.not_startsWith

/-- A wide load and a wide byte swap, both with the opcode of an exit in their second word, and an
exit. -/
def wideSwap : List (Statement {}) :=
  [.wide ⟨0x18, 1, 0, 0, 0x18⟩ ⟨by decide, by decide, by decide⟩ (by decide) 0x95,
   .wide ⟨0xdc, 1, 0, 0, 64⟩ ⟨by decide, by decide, by decide⟩ (by decide) 0x95,
   .single ⟨0x95, 0, 0, 0, 0⟩ ⟨by decide, by decide, by decide⟩ (by decide)]

/-- Its listing in big endian order has the three statements, and nothing else; and a wide load of the
largest number is a statement with that number in its text. -/
theorem listing_of_assembled_wideSwap :
    (sweep {} .big (Word.assemble .big (wideSwap.flatMap Statement.words))).map
        (fun line => (line.pc, line.words, line.text)) =
      [(0, 2, "lddw r1, 0x9500000018"), (2, 2, "be64 r1"), (4, 1, "exit")] ∧
    ∃ s : Statement {},
      s.words = [⟨0x18, 10, 0, 0, -1⟩, .continuation (-1)] ∧ s.insn.dst.val = 10 ∧
      s.insn.text = "lddw " ++ s.insn.dst.name ++ ", " ++ "0xffffffffffffffff" := by
  obtain ⟨hlines, -, -, hload⟩ := listing_of_assembled {} .big wideSwap
  refine ⟨?_, hload 10 0xffffffffffffffff (by decide)⟩
  rw [hlines]
  rfl

end Ebpf
