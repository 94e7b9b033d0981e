/-
  What decoding can come to. `decode_effect` lists the outcomes with the checks
  that lead to each, in the order in which they are made. Read off the list:
  decoding raises four kinds of fault, and an instruction that it returns lies
  inside the bytes given. The second word of a wide instruction is no
  instruction by itself (`decode_inside`), so no two instructions overlap.
-/
import Ebpf.Insn.Decode

namespace Ebpf

theorem Word.eq_drop_of_read? {o : ByteOrder} {bytes rest : List UInt8} {w : Word}
    (h : Word.read? o bytes = some (w, rest)) : rest = bytes.drop Word.size := by
  unfold Word.read? at h
  split at h
  · cases h
    rfl
  · cases h

/-! ## Outcomes -/

/-- What decoding a byte string can come to. -/
inductive DecodeEffect (d : Decoder) (o : ByteOrder) (bytes : List UInt8) :
    Except Fault Slot → Prop
  | truncated (hw : Word.read? o bytes = none) :
      DecodeEffect d o bytes (.error (.truncated bytes.length Word.size))
  | badDst {w : Word} {rest : List UInt8} {f : Fault} (hw : Word.read? o bytes = some (w, rest))
      (hdst : Reg.ofNumber w.dst = .error f) : DecodeEffect d o bytes (.error f)
  | badSrc {w : Word} {rest : List UInt8} {dst : Reg} {f : Fault}
      (hw : Word.read? o bytes = some (w, rest)) (hdst : Reg.ofNumber w.dst = .ok dst)
      (hsrc : Reg.ofNumber w.src = .error f) : DecodeEffect d o bytes (.error f)
  | unsupported {w : Word} {rest : List UInt8} {dst src : Reg}
      (hw : Word.read? o bytes = some (w, rest)) (hdst : Reg.ofNumber w.dst = .ok dst)
      (hsrc : Reg.ofNumber w.src = .ok src) (hop : Op.ofWord? w = none) :
      DecodeEffect d o bytes (.error (.unsupportedOpcode w.opcode))
  | single {w : Word} {rest : List UInt8} {dst src : Reg} {op : Op}
      (hw : Word.read? o bytes = some (w, rest)) (hdst : Reg.ofNumber w.dst = .ok dst)
      (hsrc : Reg.ofNumber w.src = .ok src) (hop : Op.ofWord? w = some op)
      (hwide : d.isWide op = false) :
      DecodeEffect d o bytes
        (.ok { insn := { op, opcode := w.opcode, dst, src, off := w.off, imm := w.imm.toInt64 }
               wide := false })
  | cut {w : Word} {rest : List UInt8} {dst src : Reg} {op : Op}
      (hw : Word.read? o bytes = some (w, rest)) (hdst : Reg.ofNumber w.dst = .ok dst)
      (hsrc : Reg.ofNumber w.src = .ok src) (hop : Op.ofWord? w = some op)
      (hwide : d.isWide op = true) (hnext : Word.read? o rest = none) :
      DecodeEffect d o bytes (.error (.truncated bytes.length (2 * Word.size)))
  | badContinuation {w next : Word} {rest tail : List UInt8} {dst src : Reg} {op : Op}
      (hw : Word.read? o bytes = some (w, rest)) (hdst : Reg.ofNumber w.dst = .ok dst)
      (hsrc : Reg.ofNumber w.src = .ok src) (hop : Op.ofWord? w = some op)
      (hwide : d.isWide op = true) (hnext : Word.read? o rest = some (next, tail))
      (hc : ¬ next.IsContinuation) :
      DecodeEffect d o bytes (.error (.badContinuation (rest.take Word.size)))
  | wide {w next : Word} {rest tail : List UInt8} {dst src : Reg} {op : Op}
      (hw : Word.read? o bytes = some (w, rest)) (hdst : Reg.ofNumber w.dst = .ok dst)
      (hsrc : Reg.ofNumber w.src = .ok src) (hop : Op.ofWord? w = some op)
      (hwide : d.isWide op = true) (hnext : Word.read? o rest = some (next, tail))
      (hc : next.IsContinuation) :
      DecodeEffect d o bytes
        (.ok { insn :=
                 { op, opcode := w.opcode, dst, src, off := w.off, imm := Word.wideImm w next }
               wide := true })

theorem decode_effect (d : Decoder) (o : ByteOrder) (bytes : List UInt8) :
    DecodeEffect d o bytes (d.decode o bytes) := by
  unfold Decoder.decode
  split
  · next hw => exact .truncated hw
  · next w rest hw =>
    split
    · next hdst => exact .badDst hw hdst
    · next hdst hsrc => exact .badSrc hw hdst hsrc
    · next dst src hdst hsrc =>
      split
      · next hop => exact .unsupported hw hdst hsrc hop
      · next op hop =>
        dsimp only
        split
        · next hwide =>
          split
          · next hnext => exact .cut hw hdst hsrc hop hwide hnext
          · next next tail hnext =>
            split
            · next hc => exact .wide hw hdst hsrc hop hwide hnext hc
            · next hc => exact .badContinuation hw hdst hsrc hop hwide hnext hc
        · next hwide => exact .single hw hdst hsrc hop (Bool.not_eq_true _ ▸ hwide)

/-! ## What follows -/

/-- The faults that decoding raises. -/
inductive Fault.OfDecoding : Fault → Prop
  | truncated (remaining needed : Nat) : OfDecoding (.truncated remaining needed)
  | badContinuation (bytes : List UInt8) : OfDecoding (.badContinuation bytes)
  | invalidRegister (reg : UInt8) : OfDecoding (.invalidRegister reg)
  | unsupportedOpcode (opcode : UInt8) : OfDecoding (.unsupportedOpcode opcode)

theorem Reg.ofDecoding_of_error {n : UInt8} {f : Fault} (h : Reg.ofNumber n = .error f) :
    f.OfDecoding := by
  unfold Reg.ofNumber at h
  split at h
  · cases h
  · cases h
    exact .invalidRegister n

namespace DecodeEffect

variable {d : Decoder} {o : ByteOrder} {bytes : List UInt8} {r : Except Fault Slot}

theorem ofDecoding (h : DecodeEffect d o bytes r) {f : Fault} (hf : r = .error f) :
    f.OfDecoding := by
  cases h with
  | truncated hw =>
    cases hf
    exact .truncated _ _
  | badDst hw hdst =>
    cases hf
    exact Reg.ofDecoding_of_error hdst
  | badSrc hw hdst hsrc =>
    cases hf
    exact Reg.ofDecoding_of_error hsrc
  | unsupported hw hdst hsrc hop =>
    cases hf
    exact .unsupportedOpcode _
  | single hw hdst hsrc hop hwide => cases hf
  | cut hw hdst hsrc hop hwide hnext =>
    cases hf
    exact .truncated _ _
  | badContinuation hw hdst hsrc hop hwide hnext hc =>
    cases hf
    exact .badContinuation _
  | wide hw hdst hsrc hop hwide hnext hc => cases hf

/-- An instruction takes no more bytes than there are. -/
theorem words_le (h : DecodeEffect d o bytes r) {slot : Slot} (hs : r = .ok slot) :
    Word.size * slot.words ≤ bytes.length := by
  cases h with
  | truncated | badDst | badSrc | unsupported | cut | badContinuation => cases hs
  | single hw hdst hsrc hop hwide =>
    cases hs
    have hlen := Word.length_of_read? hw
    simp only [Slot.words, Bool.false_eq_true, if_false]
    omega
  | wide hw hdst hsrc hop hwide hnext hc =>
    cases hs
    have hlen := Word.length_of_read? hw
    have hlen' := Word.length_of_read? hnext
    simp only [Slot.words, if_true] at hlen ⊢
    omega

/-- The operation alone decides whether an instruction is wide. -/
theorem wide_eq_isWide (h : DecodeEffect d o bytes r) {slot : Slot} (hs : r = .ok slot) :
    slot.wide = d.isWide slot.insn.op := by
  cases h with
  | truncated | badDst | badSrc | unsupported | cut | badContinuation => cases hs
  | single hw hdst hsrc hop hwide =>
    cases hs
    exact hwide.symm
  | wide hw hdst hsrc hop hwide hnext hc =>
    cases hs
    exact hwide.symm

/-- The first word of an instruction has an operation. -/
theorem ofWord?_ne_none (h : DecodeEffect d o bytes r) {slot : Slot} (hs : r = .ok slot) :
    ∃ w rest, Word.read? o bytes = some (w, rest) ∧ Op.ofWord? w ≠ none := by
  cases h with
  | truncated | badDst | badSrc | unsupported | cut | badContinuation => cases hs
  | single hw hdst hsrc hop hwide => exact ⟨_, _, hw, by rw [hop]; simp⟩
  | wide hw hdst hsrc hop hwide hnext hc => exact ⟨_, _, hw, by rw [hop]; simp⟩

/-- The second word of a wide instruction is a continuation. -/
theorem isContinuation (h : DecodeEffect d o bytes r) {slot : Slot} (hs : r = .ok slot)
    (hwide : slot.wide = true) :
    ∃ w rest, Word.read? o (bytes.drop Word.size) = some (w, rest) ∧ w.IsContinuation := by
  cases h with
  | truncated | badDst | badSrc | unsupported | cut | badContinuation => cases hs
  | single =>
    cases hs
    cases hwide
  | wide hw hdst hsrc hop hwide hnext hc =>
    rw [← Word.eq_drop_of_read? hw]
    exact ⟨_, _, hnext, hc⟩

end DecodeEffect

/-! ## Instructions do not overlap -/

theorem Op.ofWord?_of_isContinuation {w : Word} (h : w.IsContinuation) : Op.ofWord? w = none := by
  rw [Op.ofWord?, h.1]
  rfl

/-- No instruction starts inside another. -/
theorem decode_inside {d : Decoder} {o : ByteOrder} {bytes : List UInt8} {slot : Slot} {k : Nat}
    (hs : d.decode o bytes = .ok slot) (hpos : 0 < k) (hk : k < slot.words) :
    ∃ f, d.decode o (bytes.drop (Word.size * k)) = .error f := by
  have hwide : slot.wide = true := by
    unfold Slot.words at hk
    split at hk
    · assumption
    · omega
  have hone : k = 1 := by
    simp only [Slot.words, hwide, if_true] at hk
    omega
  obtain ⟨w, rest, hw, hc⟩ := (decode_effect d o bytes).isContinuation hs hwide
  cases hr : d.decode o (bytes.drop (Word.size * k)) with
  | error f => exact ⟨f, rfl⟩
  | ok inner =>
    obtain ⟨w', rest', hw', hop⟩ := (decode_effect d o _).ofWord?_ne_none hr
    rw [hone, Nat.mul_one, hw] at hw'
    cases hw'
    exact absurd (Op.ofWord?_of_isContinuation hc) hop

end Ebpf
