/-
  Encoding: the words of a decoded instruction, and what decoding keeps of the
  bytes. A slot holds all that its words hold, so it can be written again.

  `decode_lossless`: the words of a slot have exactly the bytes that the slot was
  decoded from, and no byte behind them matters.
-/
import Ebpf.Proofs.Grammar

namespace Ebpf

/-! ## The words of a slot -/

/-- The first word of an instruction, with the low half of its immediate. -/
def Insn.word (i : Insn) : Word :=
  { opcode := i.opcode
    dst := UInt8.ofNat i.dst.val
    src := UInt8.ofNat i.src.val
    off := i.off
    imm := i.imm.toInt32 }

/-- The words of a slot; the second one, if there is one, carries the high half of the immediate. -/
def Slot.encode (s : Slot) : List Word :=
  if s.wide then
    [s.insn.word, Word.continuation (s.insn.imm.toUInt64 >>> 32).toUInt32.toInt32]
  else [s.insn.word]

theorem Slot.length_encode (s : Slot) : s.encode.length = s.words := by
  unfold encode words
  split <;> rfl

/-! ## Halves of a wide immediate -/

namespace Word

theorem low_wideImm (low high : Word) : (wideImm low high).toInt32 = low.imm := by
  have hlow := low.imm.toUInt32.toNat_lt
  have hcut (x : Int64) : x.toInt32 = x.toUInt64.toUInt32.toInt32 := by
    apply Int32.toBitVec_inj.mp
    rw [Int64.toBitVec_toInt32, BitVec.signExtend_eq_setWidth_of_le _ (by decide)]
    exact (UInt64.toBitVec_toUInt32 _).symm
  have hnat : (wideImm low high).toUInt64.toUInt32 = low.imm.toUInt32 := by
    apply UInt32.toNat_inj.mp
    rw [UInt64.toNat_toUInt32, toNat_wideImm]
    omega
  rw [hcut, hnat, Int32.toInt32_toUInt32]

theorem high_wideImm (low high : Word) :
    ((wideImm low high).toUInt64 >>> 32).toUInt32.toInt32 = high.imm := by
  have hlow := low.imm.toUInt32.toNat_lt
  have hnat : ((wideImm low high).toUInt64 >>> 32).toUInt32 = high.imm.toUInt32 := by
    apply UInt32.toNat_inj.mp
    rw [toNat_upperHalf, toNat_wideImm]
    omega
  rw [hnat, Int32.toInt32_toUInt32]

/-- A continuation is all in its immediate. -/
theorem IsContinuation.eq {w : Word} (h : w.IsContinuation) : continuation w.imm = w := by
  obtain ⟨hopcode, hdst, hsrc, hoff⟩ := h
  cases w
  cases hopcode
  cases hdst
  cases hsrc
  cases hoff
  rfl

end Word

/-! ## Writing what was decoded -/

theorem Reg.ofNat_of_ofNumber {n : UInt8} {r : Reg} (h : Reg.ofNumber n = .ok r) :
    UInt8.ofNat r.val = n := by
  rw [(Reg.of_ofNumber_ok h).2, UInt8.ofNat_toNat]

/-- An instruction with the fields of a word has that word. -/
theorem Insn.word_eq {w : Word} {dst src : Reg} {imm : Int64} (op : Op)
    (hdst : Reg.ofNumber w.dst = .ok dst) (hsrc : Reg.ofNumber w.src = .ok src)
    (himm : imm.toInt32 = w.imm) :
    Insn.word { op, opcode := w.opcode, dst, src, off := w.off, imm } = w := by
  rw [word]
  dsimp only
  rw [Reg.ofNat_of_ofNumber hdst, Reg.ofNat_of_ofNumber hsrc, himm]

section

variable {d : Decoder} {o : ByteOrder} {bytes : List UInt8}

/-- What was decoded begins with the words of the slot. -/
theorem DecodeEffect.exists_encode {r : Except Fault Slot} (h : DecodeEffect d o bytes r)
    {slot : Slot} (hs : r = .ok slot) : ∃ rest, Word.assemble o slot.encode ++ rest = bytes := by
  cases h with
  | truncated | badDst | badSrc | unsupported | cut | badContinuation => cases hs
  | @single w rest dst src op hw hdst hsrc hop hwide =>
    cases hs
    have hword := Insn.word_eq op hdst hsrc (Int32.toInt32_toInt64 w.imm)
    refine ⟨rest, ?_⟩
    rw [Slot.encode, if_neg (by simp), hword, Word.assemble_cons, Word.assemble_nil,
      List.append_nil]
    exact Word.toBytes_append_of_read? hw
  | @wide w next rest tail dst src op hw hdst hsrc hop hwide hnext hc =>
    cases hs
    have hword := Insn.word_eq op hdst hsrc (Word.low_wideImm w next)
    have hsecond := Word.toBytes_append_of_read? hnext
    refine ⟨tail, ?_⟩
    rw [Slot.encode, if_pos rfl, hword, Word.high_wideImm, hc.eq, Word.assemble_cons,
      Word.assemble_cons, Word.assemble_nil, List.append_nil, List.append_assoc, hsecond]
    exact Word.toBytes_append_of_read? hw

theorem assemble_encode {slot : Slot} (h : d.decode o bytes = .ok slot) :
    Word.assemble o slot.encode = bytes.take (Word.size * slot.words) := by
  obtain ⟨rest, hrest⟩ := (decode_effect d o bytes).exists_encode h
  have hlen : (Word.assemble o slot.encode).length = Word.size * slot.words := by
    rw [Word.length_assemble, slot.length_encode]
  rw [← hrest, ← hlen, List.take_left]

/-! ## Decoding what was written -/

theorem decode_single {w : Word} {rest : List UInt8} {dst src : Reg} {op : Op}
    (hw : Word.read? o bytes = some (w, rest)) (hdst : Reg.ofNumber w.dst = .ok dst)
    (hsrc : Reg.ofNumber w.src = .ok src) (hop : Op.ofWord? w = some op)
    (hwide : d.isWide op = false) :
    d.decode o bytes =
      .ok { insn := { op, opcode := w.opcode, dst, src, off := w.off, imm := w.imm.toInt64 }
            wide := false } := by
  simp [Decoder.decode, hw, hdst, hsrc, hop, hwide]

theorem decode_wide {w next : Word} {rest tail : List UInt8} {dst src : Reg} {op : Op}
    (hw : Word.read? o bytes = some (w, rest)) (hdst : Reg.ofNumber w.dst = .ok dst)
    (hsrc : Reg.ofNumber w.src = .ok src) (hop : Op.ofWord? w = some op)
    (hwide : d.isWide op = true) (hnext : Word.read? o rest = some (next, tail))
    (hc : next.IsContinuation) :
    d.decode o bytes =
      .ok { insn :=
              { op, opcode := w.opcode, dst, src, off := w.off, imm := Word.wideImm w next }
            wide := true } := by
  simp [Decoder.decode, hw, hdst, hsrc, hop, hwide, hnext, hc]

/-- The bytes of an instruction decode to it, whatever stands behind them. -/
theorem DecodeEffect.decode_take_append {r : Except Fault Slot} (h : DecodeEffect d o bytes r)
    {slot : Slot} (hs : r = .ok slot) (x : List UInt8) :
    d.decode o (bytes.take (Word.size * slot.words) ++ x) = .ok slot := by
  cases h with
  | truncated | badDst | badSrc | unsupported | cut | badContinuation => cases hs
  | single hw hdst hsrc hop hwide =>
    cases hs
    exact decode_single (Word.read?_take_append hw x) hdst hsrc hop hwide
  | @wide w next rest tail dst src op hw hdst hsrc hop hwide hnext hc =>
    cases hs
    -- the sixteen bytes are the first word and the eight bytes of the second
    have htake : bytes.take (Word.size * 2) = bytes.take Word.size ++ rest.take Word.size := by
      rw [Word.eq_drop_of_read? hw, ← List.take_add]
      rfl
    have hfirst := Word.read?_take_append hw (rest.take Word.size ++ x)
    rw [← List.append_assoc, ← htake] at hfirst
    exact decode_wide hfirst hdst hsrc hop hwide (Word.read?_take_append hnext x) hc

end

/-! ## Main statement -/

/-- Decoding loses nothing and looks no further than the instruction. The words of a decoded slot,
written in the same byte order, are the bytes it was decoded from; and these bytes decode to the same
slot, whatever follows them. -/
theorem decode_lossless (d : Decoder) (o : ByteOrder) (bytes : List UInt8) (slot : Slot)
    (h : d.decode o bytes = .ok slot) :
    Word.assemble o slot.encode = bytes.take (Word.size * slot.words) ∧
      ∀ x, d.decode o (bytes.take (Word.size * slot.words) ++ x) = .ok slot :=
  ⟨assemble_encode h, fun x => (decode_effect d o bytes).decode_take_append h x⟩

/-- A wide load in big endian order whose immediate has its sign bit set in both halves, and junk
behind it. -/
theorem decode_lossless_wide :
    ∃ slot, Decoder.decode {} .big
        [0x18, 0x90, 0xff, 0xfe, 0x80, 0, 0, 1, 0, 0, 0, 0, 0xff, 0, 0, 2, 0xaa] = .ok slot ∧
      slot.insn.imm = -72057583300509695 ∧
      Word.assemble .big slot.encode =
        [0x18, 0x90, 0xff, 0xfe, 0x80, 0, 0, 1, 0, 0, 0, 0, 0xff, 0, 0, 2] ∧
      Decoder.decode {} .big
        ([0x18, 0x90, 0xff, 0xfe, 0x80, 0, 0, 1, 0, 0, 0, 0, 0xff, 0, 0, 2] ++ [0xbb]) =
          .ok slot := by
  have hdecode : Decoder.decode {} .big
      [0x18, 0x90, 0xff, 0xfe, 0x80, 0, 0, 1, 0, 0, 0, 0, 0xff, 0, 0, 2, 0xaa] =
        .ok { insn := { op := .loadImm64, opcode := 0x18, dst := 9, src := 0, off := -2,
                        imm := -72057583300509695 }
              wide := true } := rfl
  obtain ⟨hbytes, hrest⟩ := decode_lossless _ _ _ _ hdecode
  exact ⟨_, hdecode, rfl, hbytes, hrest [0xbb]⟩

end Ebpf
