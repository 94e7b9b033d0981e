/-
  The grammar of instructions, said of bytes: which opcodes there are, which of
  them take a second word, which operation each of them stands for, and which
  checks a byte string has to pass, in their order. Nothing here goes through the decoder's own case distinctions; the
  fields of an opcode are quotients and remainders of its number.

  `decode_accepts_grammar`: decoding succeeds exactly on the byte strings that
  pass all checks, with the operation and the immediate that the bytes stand for,
  and otherwise raises the fault of the first check that fails.
-/
import Ebpf.Proofs.Codec
import Ebpf.Proofs.Decode

namespace Ebpf

/-! ## Opcodes -/

namespace Opcode

/-- The class, in bits 0 to 2. -/
def cls (c : UInt8) : Nat := c.toNat % 8

/-- The source bit of an arithmetic or jump opcode, bit 3. -/
def source (c : UInt8) : Nat := c.toNat / 8 % 2

/-- The operation of an arithmetic or jump opcode, bits 4 to 7. -/
def operation (c : UInt8) : Nat := c.toNat / 16

/-- The size of a load or store, bits 3 and 4: word, half, byte, double. -/
def size (c : UInt8) : Nat := c.toNat / 8 % 4

/-- The mode of a load or store, bits 5 to 7. -/
def mode (c : UInt8) : Nat := c.toNat / 32

/-- Arithmetic over 32 bits (class 4) or 64 bits (class 7). Operation 8, the negation, has no
register operand. -/
def IsArithmetic (c : UInt8) : Prop :=
  (cls c = 4 ∨ cls c = 7) ∧
    (operation c ≤ 7 ∨ operation c = 8 ∧ source c = 0 ∨ 9 ≤ operation c ∧ operation c ≤ 12)

/-- Byte swaps, in the 32-bit class alone. -/
def IsByteSwap (c : UInt8) : Prop :=
  cls c = 4 ∧ operation c = 13

/-- Conditional jumps over 64 bits (class 5) or 32 bits (class 6). -/
def IsConditionalJump (c : UInt8) : Prop :=
  (cls c = 5 ∨ cls c = 6) ∧
    (1 ≤ operation c ∧ operation c ≤ 7 ∨ 10 ≤ operation c ∧ operation c ≤ 13)

/-- The jump, the call and the exit. -/
def IsPlainJump (c : UInt8) : Prop :=
  c = 0x05 ∨ c = 0x85 ∨ c = 0x95

/-- The 64-bit immediate load, and loads from the packet, absolute or indirect. -/
def IsDirectLoad (c : UInt8) : Prop :=
  cls c = 0 ∧ (c = 0x18 ∨ mode c = 1 ∨ mode c = 2)

/-- Loads from the stack and stores to it, of a register or an immediate. -/
def IsStackAccess (c : UInt8) : Prop :=
  (cls c = 1 ∨ cls c = 2 ∨ cls c = 3) ∧ mode c = 3

/-- Additions to a stack cell of four or eight bytes. -/
def IsAtomicAdd (c : UInt8) : Prop :=
  cls c = 3 ∧ mode c = 6 ∧ (size c = 0 ∨ size c = 3)

/-- The opcodes that there are. Of the byte swaps, there are those over 16, 32 and 64 bits. -/
def Supported (c : UInt8) (imm : Int32) : Prop :=
  IsArithmetic c ∨ IsByteSwap c ∧ (imm = 16 ∨ imm = 32 ∨ imm = 64) ∨ IsConditionalJump c ∨
    IsPlainJump c ∨ IsDirectLoad c ∨ IsStackAccess c ∨ IsAtomicAdd c

instance (c : UInt8) : Decidable (IsArithmetic c) := inferInstanceAs (Decidable (_ ∧ _))
instance (c : UInt8) : Decidable (IsByteSwap c) := inferInstanceAs (Decidable (_ ∧ _))
instance (c : UInt8) : Decidable (IsConditionalJump c) := inferInstanceAs (Decidable (_ ∧ _))
instance (c : UInt8) : Decidable (IsPlainJump c) := inferInstanceAs (Decidable (_ ∨ _))
instance (c : UInt8) : Decidable (IsDirectLoad c) := inferInstanceAs (Decidable (_ ∧ _))
instance (c : UInt8) : Decidable (IsStackAccess c) := inferInstanceAs (Decidable (_ ∧ _))
instance (c : UInt8) : Decidable (IsAtomicAdd c) := inferInstanceAs (Decidable (_ ∧ _))
instance (c : UInt8) (imm : Int32) : Decidable (Supported c imm) :=
  inferInstanceAs (Decidable (_ ∨ _))

end Opcode

/-- The instructions of two words: the 64-bit immediate load, and byte swaps over 64 bits if the
decoder takes them so. -/
def Decoder.TakesTwo (d : Decoder) (c : UInt8) (imm : Int32) : Prop :=
  c = 0x18 ∨ d.wideByteswap = true ∧ Opcode.IsByteSwap c ∧ imm = 64

instance (d : Decoder) (c : UInt8) (imm : Int32) : Decidable (d.TakesTwo c imm) :=
  inferInstanceAs (Decidable (_ ∨ _))

/-! ## What opcodes stand for -/

/-- The number of an arithmetic operation, in bits 4 to 7 of its opcodes. -/
def AluOp.code : AluOp → Nat
  | add => 0
  | sub => 1
  | mul => 2
  | div => 3
  | or => 4
  | and => 5
  | lsh => 6
  | rsh => 7
  | neg => 8
  | mod => 9
  | xor => 10
  | mov => 11
  | arsh => 12

/-- The number of a jump condition, in bits 4 to 7 of its opcodes. -/
def Cond.code : Cond → Nat
  | eq => 1
  | gt => 2
  | ge => 3
  | set => 4
  | ne => 5
  | sgt => 6
  | sge => 7
  | lt => 10
  | le => 11
  | slt => 12
  | sle => 13

/-- The source bit of an operand. -/
def Source.code : Source → Nat
  | imm => 0
  | reg => 1

/-- The number of an access size, in bits 3 and 4 of its opcodes. -/
def Size.code : Size → Nat
  | word => 0
  | half => 1
  | byte => 2
  | double => 3

/-- The source bit of a byte swap, which gives the order it swaps to. -/
def ByteOrder.swapCode : ByteOrder → Nat
  | little => 0
  | big => 1

/-- The class of arithmetic over a width. -/
def Width.aluClass : Width → Nat
  | w32 => 4
  | w64 => 7

/-- The class of jumps that compare over a width. -/
def Width.jumpClass : Width → Nat
  | w32 => 6
  | w64 => 5

namespace Opcode

/-- The fields of an opcode stand for an operation. Of the immediate only the width of a byte swap
matters. -/
def Denotes (c : UInt8) (imm : Int32) : Op → Prop
  | .alu op width src =>
    cls c = width.aluClass ∧ operation c = op.code ∧ source c = src.code
  | .swap target width =>
    cls c = 4 ∧ operation c = 13 ∧ source c = target.swapCode ∧ imm = .ofNat width.bits
  | .loadImm64 => cls c = 0 ∧ mode c = 0 ∧ size c = 3
  | .loadPacket s indirect =>
    cls c = 0 ∧ mode c = (if indirect then 2 else 1) ∧ size c = s.code
  | .load s => cls c = 1 ∧ mode c = 3 ∧ size c = s.code
  | .store s src => cls c = 2 + src.code ∧ mode c = 3 ∧ size c = s.code
  | .atomicAdd s => cls c = 3 ∧ mode c = 6 ∧ size c = s.code
  | .jmp cond width src =>
    cls c = width.jumpClass ∧ operation c = cond.code ∧ source c = src.code
  | .ja => cls c = 5 ∧ operation c = 0 ∧ source c = 0
  | .call => cls c = 5 ∧ operation c = 8 ∧ source c = 0
  | .exit => cls c = 5 ∧ operation c = 9 ∧ source c = 0

instance (c : UInt8) (imm : Int32) (op : Op) : Decidable (Denotes c imm op) :=
  match op with
  | .alu .. | .swap .. | .loadImm64 | .loadPacket .. | .load _ | .store .. | .atomicAdd _
  | .jmp .. | .ja | .call | .exit => inferInstanceAs (Decidable (_ ∧ _))

end Opcode

/-! ## The table of operations -/

/-- An opcode with an immediate, and nothing else. -/
def Opcode.sample (c : UInt8) (imm : Int32) : Word :=
  { opcode := c, dst := 0, src := 0, off := 0, imm }

/-- All immediates but those that select a byte swap are alike. -/
theorem exists_sample_imm (imm : Int32) :
    ∃ i ∈ ([0, 16, 32, 64] : List Int32),
      (imm = 16 ↔ i = 16) ∧ (imm = 32 ↔ i = 32) ∧ (imm = 64 ↔ i = 64) := by
  by_cases h₁ : imm = 16
  · exact ⟨16, by decide, by rw [h₁]; decide⟩
  by_cases h₂ : imm = 32
  · exact ⟨32, by decide, by rw [h₂]; decide⟩
  by_cases h₃ : imm = 64
  · exact ⟨64, by decide, by rw [h₃]; decide⟩
  exact ⟨0, by decide, by simp [h₁, h₂, h₃]⟩

/-- The table itself, with one column for each sample immediate: an operation for the supported
opcodes and for no others, of two words as the grammar says, and the one that the fields of the
opcode stand for. -/
theorem ofWord?_sample {imm : Int32} (himm : imm ∈ ([0, 16, 32, 64] : List Int32)) :
    ∀ n, n < 256 →
      ((Op.ofWord? (Opcode.sample (UInt8.ofNat n) imm)).isSome = true ↔
        Opcode.Supported (UInt8.ofNat n) imm) ∧
      (∀ wideByteswap, ((Op.ofWord? (Opcode.sample (UInt8.ofNat n) imm)).any
        (Decoder.isWide ⟨wideByteswap⟩) = true ↔
          Decoder.TakesTwo ⟨wideByteswap⟩ (UInt8.ofNat n) imm)) ∧
      (Op.ofWord? (Opcode.sample (UInt8.ofNat n) imm)).all
        (fun op => Opcode.Denotes (UInt8.ofNat n) imm op) = true := by
  simp only [List.mem_cons, List.not_mem_nil, or_false] at himm
  obtain rfl | rfl | rfl | rfl := himm
  · decide +kernel
  · decide +kernel
  · decide +kernel
  · decide +kernel

theorem Op.ofWord?_congr {w w' : Word} (hc : w.opcode = w'.opcode)
    (hs : SwapWidth.ofImm? w.imm = SwapWidth.ofImm? w'.imm) : Op.ofWord? w = Op.ofWord? w' := by
  unfold ofWord? arithmetic?
  rw [hc, hs]

/-- To decoding and to the grammar, a word is one of the samples. -/
theorem exists_sample (w : Word) :
    ∃ imm ∈ ([0, 16, 32, 64] : List Int32),
      Op.ofWord? w = Op.ofWord? (Opcode.sample w.opcode imm) ∧
      (Opcode.Supported w.opcode w.imm ↔ Opcode.Supported w.opcode imm) ∧
      (∀ d : Decoder, d.TakesTwo w.opcode w.imm ↔ d.TakesTwo w.opcode imm) ∧
      ∀ op, Opcode.Denotes w.opcode w.imm op ↔ Opcode.Denotes w.opcode imm op := by
  obtain ⟨imm, hmem, h₁, h₂, h₃⟩ := exists_sample_imm w.imm
  have hs : SwapWidth.ofImm? w.imm = SwapWidth.ofImm? imm := by
    simp only [SwapWidth.ofImm?, h₁, h₂, h₃]
  have hbits (width : SwapWidth) : w.imm = .ofNat width.bits ↔ imm = .ofNat width.bits := by
    cases width with
    | b16 => exact h₁
    | b32 => exact h₂
    | b64 => exact h₃
  refine ⟨imm, hmem, Op.ofWord?_congr rfl hs, ?_, fun d => ?_, fun op => ?_⟩
  · simp only [Opcode.Supported, h₁, h₂, h₃]
  · simp only [Decoder.TakesTwo, h₃]
  · cases op with
    | swap target width => simp only [Opcode.Denotes, hbits]
    | _ => exact Iff.rfl

/-- A word has an operation exactly if its opcode is in the grammar. -/
theorem isSome_ofWord?_iff (w : Word) :
    (Op.ofWord? w).isSome = true ↔ Opcode.Supported w.opcode w.imm := by
  obtain ⟨imm, hmem, hop, hsupported, -⟩ := exists_sample w
  have htable := (ofWord?_sample hmem w.opcode.toNat w.opcode.toNat_lt).1
  rw [UInt8.ofNat_toNat] at htable
  rw [hop, hsupported]
  exact htable

theorem ofWord?_eq_none_iff (w : Word) :
    Op.ofWord? w = none ↔ ¬ Opcode.Supported w.opcode w.imm := by
  rw [← isSome_ofWord?_iff, Option.not_isSome_iff_eq_none]

/-- An operation takes two words exactly if the grammar says so. -/
theorem isWide_iff {d : Decoder} {w : Word} {op : Op} (h : Op.ofWord? w = some op) :
    d.isWide op = true ↔ d.TakesTwo w.opcode w.imm := by
  obtain ⟨imm, hmem, hop, -, htwo, -⟩ := exists_sample w
  have htable := (ofWord?_sample hmem w.opcode.toNat w.opcode.toNat_lt).2.1 d.wideByteswap
  rw [UInt8.ofNat_toNat, ← hop, h, Option.any_some] at htable
  rw [htwo]
  exact htable

/-- The operation of a word is the one that the fields of its opcode stand for. -/
theorem denotes_of_ofWord? {w : Word} {op : Op} (h : Op.ofWord? w = some op) :
    Opcode.Denotes w.opcode w.imm op := by
  obtain ⟨imm, hmem, hop, -, -, hdenotes⟩ := exists_sample w
  have htable := (ofWord?_sample hmem w.opcode.toNat w.opcode.toNat_lt).2.2
  rw [UInt8.ofNat_toNat, ← hop, h, Option.all_some, decide_eq_true_iff] at htable
  exact (hdenotes op).mpr htable

/-! ## Fields of a byte string -/

/-- The byte at an index; zero behind the end. -/
def byteAt (bytes : List UInt8) (i : Nat) : UInt8 :=
  bytes.getD i 0

/-- The destination register of a word: half of its second byte. -/
def dstAt (o : ByteOrder) (bytes : List UInt8) : UInt8 :=
  match o with
  | .little => byteAt bytes 1 % 16
  | .big => byteAt bytes 1 / 16

/-- The source register of a word: the other half. -/
def srcAt (o : ByteOrder) (bytes : List UInt8) : UInt8 :=
  match o with
  | .little => byteAt bytes 1 / 16
  | .big => byteAt bytes 1 % 16

/-- The signed number in the four bytes from an index on. -/
def immAt (o : ByteOrder) (bytes : List UInt8) (i : Nat) : Int32 :=
  o.readInt32 (byteAt bytes i) (byteAt bytes (i + 1)) (byteAt bytes (i + 2)) (byteAt bytes (i + 3))

theorem byteAt_drop (bytes : List UInt8) (n i : Nat) :
    byteAt (bytes.drop n) i = byteAt bytes (n + i) := by
  simp only [byteAt, List.getD_eq_getElem?_getD, List.getElem?_drop]

theorem immAt_drop (o : ByteOrder) (bytes : List UInt8) (n i : Nat) :
    immAt o (bytes.drop n) i = immAt o bytes (n + i) := by
  simp only [immAt, byteAt_drop, Nat.add_assoc]

theorem ByteOrder.splitRegisters_eq (o : ByteOrder) (bytes : List UInt8) :
    o.splitRegisters (byteAt bytes 1) = (dstAt o bytes, srcAt o bytes) := by
  have h16 : (16 : UInt8).toNat = 16 := rfl
  have hlow (b : UInt8) : b &&& 0x0f = b % 16 := by
    apply UInt8.toNat_inj.mp
    rw [toNat_lowHalf, UInt8.toNat_mod, h16]
  have hhigh (b : UInt8) : b >>> 4 = b / 16 := by
    apply UInt8.toNat_inj.mp
    rw [toNat_highHalf, UInt8.toNat_div, h16]
  cases o with
  | little => rw [splitRegisters, dstAt, srcAt, hlow, hhigh]
  | big => rw [splitRegisters, dstAt, srcAt, hlow, hhigh]

/-- A word whose first four bytes are zero: it carries nothing but an immediate. -/
def IsBare (bytes : List UInt8) : Prop :=
  ∀ i ∈ [0, 1, 2, 3], byteAt bytes i = 0

instance (bytes : List UInt8) : Decidable (IsBare bytes) :=
  inferInstanceAs (Decidable (∀ i ∈ _, _))

/-- What a word that was read holds. -/
structure Word.ReadFrom (o : ByteOrder) (bytes : List UInt8) (w : Word) : Prop where
  size_le : Word.size ≤ bytes.length
  opcode : w.opcode = byteAt bytes 0
  dst : w.dst = dstAt o bytes
  src : w.src = srcAt o bytes
  off : w.off = o.readInt16 (byteAt bytes 2) (byteAt bytes 3)
  imm : w.imm = immAt o bytes 4

theorem Word.readFrom_of_read? {o : ByteOrder} {bytes rest : List UInt8} {w : Word}
    (h : Word.read? o bytes = some (w, rest)) : w.ReadFrom o bytes := by
  have hlen := Word.length_of_read? h
  have hregs := o.splitRegisters_eq bytes
  unfold Word.read? at h
  split at h
  · cases h
    refine ⟨by omega, rfl, ?_, ?_, rfl, rfl⟩
    · exact congrArg Prod.fst hregs
    · exact congrArg Prod.snd hregs
  · cases h

theorem Word.ReadFrom.isContinuation_iff {o : ByteOrder} {bytes : List UInt8} {w : Word}
    (h : w.ReadFrom o bytes) : w.IsContinuation ↔ IsBare bytes := by
  have hregs : dstAt o bytes = 0 ∧ srcAt o bytes = 0 ↔ byteAt bytes 1 = 0 := by
    have hpack := o.packRegisters_splitRegisters (byteAt bytes 1)
    rw [o.splitRegisters_eq] at hpack
    constructor
    · rintro ⟨hdst, hsrc⟩
      rw [← hpack, hdst, hsrc]
      cases o <;> rfl
    · intro hzero
      cases o <;> simp [dstAt, srcAt, hzero]
  have hoff : o.readInt16 (byteAt bytes 2) (byteAt bytes 3) = 0 ↔
      byteAt bytes 2 = 0 ∧ byteAt bytes 3 = 0 := by
    have hwrite := o.writeInt16_readInt16 (byteAt bytes 2) (byteAt bytes 3)
    have hzeros : o.writeInt16 0 = [0, 0] := by cases o <;> rfl
    constructor
    · intro hzero
      rw [hzero, hzeros] at hwrite
      simpa using hwrite.symm
    · rintro ⟨h₂, h₃⟩
      rw [h₂, h₃]
      cases o <;> rfl
  have hfour : IsBare bytes ↔
      byteAt bytes 0 = 0 ∧ byteAt bytes 1 = 0 ∧ byteAt bytes 2 = 0 ∧ byteAt bytes 3 = 0 := by
    simp [IsBare]
  rw [IsContinuation, h.opcode, h.dst, h.src, h.off, hfour, hoff, ← hregs, and_assoc]

/-- What holds of two words that were read one after the other. -/
theorem Word.two_read {o : ByteOrder} {bytes rest tail : List UInt8} {w next : Word}
    (hw : Word.read? o bytes = some (w, rest)) (hnext : Word.read? o rest = some (next, tail)) :
    2 * Word.size ≤ bytes.length ∧ (next.IsContinuation ↔ IsBare (bytes.drop Word.size)) ∧
      next.imm = immAt o bytes 12 := by
  have hlen := Word.length_of_read? hw
  have hlen' := Word.length_of_read? hnext
  have hr := Word.readFrom_of_read? hnext
  dsimp only at hlen hlen'
  refine ⟨by omega, ?_, ?_⟩
  · rw [hr.isContinuation_iff, Word.eq_drop_of_read? hw]
  · rw [hr.imm, Word.eq_drop_of_read? hw, immAt_drop]
    rfl

/-! ## The checks -/

/-- A check, and the fault of what does not pass it. -/
structure Check where
  passes : Bool
  fault : Fault

/-- What a byte string has to pass in order to be decoded, in the order of the checks. -/
def Decoder.checks (d : Decoder) (o : ByteOrder) (bytes : List UInt8) : List Check :=
  [{ passes := Word.size ≤ bytes.length
     fault := .truncated bytes.length Word.size },
   { passes := dstAt o bytes ≤ 10
     fault := .invalidRegister (dstAt o bytes) },
   { passes := srcAt o bytes ≤ 10
     fault := .invalidRegister (srcAt o bytes) },
   { passes := Opcode.Supported (byteAt bytes 0) (immAt o bytes 4)
     fault := .unsupportedOpcode (byteAt bytes 0) },
   { passes := d.TakesTwo (byteAt bytes 0) (immAt o bytes 4) → 2 * Word.size ≤ bytes.length
     fault := .truncated bytes.length (2 * Word.size) },
   { passes := d.TakesTwo (byteAt bytes 0) (immAt o bytes 4) → IsBare (bytes.drop Word.size)
     fault := .badContinuation ((bytes.drop Word.size).take Word.size) }]

/-- The fault of the first check that fails, if one does. -/
def Decoder.firstFault? (d : Decoder) (o : ByteOrder) (bytes : List UInt8) : Option Fault :=
  (d.checks o bytes).findSome? fun c => if c.passes then none else some c.fault

theorem Reg.le_ten_iff (n : UInt8) : n ≤ 10 ↔ n.toNat < 11 := by
  rw [UInt8.le_iff_toNat_le]
  exact Nat.lt_succ_iff.symm

theorem Reg.of_ofNumber_ok {n : UInt8} {r : Reg} (h : Reg.ofNumber n = .ok r) :
    n ≤ 10 ∧ r.val = n.toNat := by
  unfold Reg.ofNumber at h
  split at h
  · next hlt =>
    cases h
    exact ⟨(le_ten_iff n).mpr hlt, rfl⟩
  · cases h

theorem Reg.of_ofNumber_error {n : UInt8} {f : Fault} (h : Reg.ofNumber n = .error f) :
    ¬ n ≤ 10 ∧ f = .invalidRegister n := by
  unfold Reg.ofNumber at h
  split at h
  · cases h
  · next hlt =>
    cases h
    exact ⟨fun hle => hlt ((le_ten_iff n).mp hle), rfl⟩

namespace Word.ReadFrom

variable {o : ByteOrder} {bytes : List UInt8} {w : Word} {r : Reg} {op : Op}

theorem dst_le (h : w.ReadFrom o bytes) (hdst : Reg.ofNumber w.dst = .ok r) :
    dstAt o bytes ≤ 10 := by
  rw [← h.dst]
  exact (Reg.of_ofNumber_ok hdst).1

theorem src_le (h : w.ReadFrom o bytes) (hsrc : Reg.ofNumber w.src = .ok r) :
    srcAt o bytes ≤ 10 := by
  rw [← h.src]
  exact (Reg.of_ofNumber_ok hsrc).1

theorem supported (h : w.ReadFrom o bytes) (hop : Op.ofWord? w = some op) :
    Opcode.Supported (byteAt bytes 0) (immAt o bytes 4) := by
  rw [← h.opcode, ← h.imm, ← isSome_ofWord?_iff, hop, Option.isSome_some]

theorem takesTwo_iff (h : w.ReadFrom o bytes) (hop : Op.ofWord? w = some op) (d : Decoder) :
    d.TakesTwo (byteAt bytes 0) (immAt o bytes 4) ↔ d.isWide op = true := by
  rw [← h.opcode, ← h.imm, isWide_iff hop]

end Word.ReadFrom

namespace DecodeEffect

variable {d : Decoder} {o : ByteOrder} {bytes : List UInt8} {r : Except Fault Slot}

/-- What decoding refuses fails the checks, and first of all the one that the fault names. -/
theorem firstFault_of_error (h : DecodeEffect d o bytes r) {f : Fault} (hf : r = .error f) :
    d.firstFault? o bytes = some f := by
  unfold Decoder.firstFault? Decoder.checks
  cases h with
  | truncated hw =>
    cases hf
    have hlen := Word.read?_eq_none_iff.mp hw
    simp [Nat.not_le.mpr hlen]
  | badDst hw hdst =>
    cases hf
    have hr := Word.readFrom_of_read? hw
    obtain ⟨hreg, hfault⟩ := Reg.of_ofNumber_error hdst
    rw [hr.dst] at hreg hfault
    simp [hr.size_le, hreg, hfault]
  | badSrc hw hdst hsrc =>
    cases hf
    have hr := Word.readFrom_of_read? hw
    obtain ⟨hreg, hfault⟩ := Reg.of_ofNumber_error hsrc
    rw [hr.src] at hreg hfault
    simp [hr.size_le, hr.dst_le hdst, hreg, hfault]
  | unsupported hw hdst hsrc hop =>
    cases hf
    have hr := Word.readFrom_of_read? hw
    rw [ofWord?_eq_none_iff, hr.opcode, hr.imm] at hop
    simp [hr.size_le, hr.dst_le hdst, hr.src_le hsrc, hop, hr.opcode]
  | cut hw hdst hsrc hop hwide hnext =>
    cases hf
    have hr := Word.readFrom_of_read? hw
    have hlen := Word.length_of_read? hw
    have hshort := Word.read?_eq_none_iff.mp hnext
    have hcut : ¬ 2 * Word.size ≤ bytes.length := by
      dsimp only at hlen
      omega
    simp [hr.size_le, hr.dst_le hdst, hr.src_le hsrc, hr.supported hop, hr.takesTwo_iff hop, hwide,
      hcut]
  | badContinuation hw hdst hsrc hop hwide hnext hc =>
    cases hf
    have hr := Word.readFrom_of_read? hw
    obtain ⟨hlong, hbare, -⟩ := Word.two_read hw hnext
    rw [hbare] at hc
    rw [Word.eq_drop_of_read? hw]
    simp [hr.size_le, hr.dst_le hdst, hr.src_le hsrc, hr.supported hop, hr.takesTwo_iff hop, hwide,
      hlong, hc]
  | single | wide => cases hf

/-- What is decoded passes the checks. -/
theorem firstFault_of_ok (h : DecodeEffect d o bytes r) {slot : Slot} (hs : r = .ok slot) :
    d.firstFault? o bytes = none := by
  unfold Decoder.firstFault? Decoder.checks
  cases h with
  | truncated | badDst | badSrc | unsupported | cut | badContinuation => cases hs
  | single hw hdst hsrc hop hwide =>
    have hr := Word.readFrom_of_read? hw
    simp [hr.size_le, hr.dst_le hdst, hr.src_le hsrc, hr.supported hop, hr.takesTwo_iff hop, hwide]
  | wide hw hdst hsrc hop hwide hnext hc =>
    have hr := Word.readFrom_of_read? hw
    obtain ⟨hlong, hbare, -⟩ := Word.two_read hw hnext
    rw [hbare] at hc
    simp [hr.size_le, hr.dst_le hdst, hr.src_le hsrc, hr.supported hop, hlong, hc]

/-- The fields of an instruction are those of the bytes. -/
theorem fields_of_ok (h : DecodeEffect d o bytes r) {slot : Slot} (hs : r = .ok slot) :
    slot.insn.opcode = byteAt bytes 0 ∧ slot.insn.dst.val = (dstAt o bytes).toNat ∧
      slot.insn.src.val = (srcAt o bytes).toNat ∧
      slot.insn.off = o.readInt16 (byteAt bytes 2) (byteAt bytes 3) := by
  cases h with
  | truncated | badDst | badSrc | unsupported | cut | badContinuation => cases hs
  | single hw hdst hsrc | wide hw hdst hsrc =>
    cases hs
    have hr := Word.readFrom_of_read? hw
    rw [← hr.dst, ← hr.src]
    exact ⟨hr.opcode, (Reg.of_ofNumber_ok hdst).2, (Reg.of_ofNumber_ok hsrc).2, hr.off⟩

/-- The operation of an instruction is that of the bytes. -/
theorem denotes_of_ok (h : DecodeEffect d o bytes r) {slot : Slot} (hs : r = .ok slot) :
    Opcode.Denotes (byteAt bytes 0) (immAt o bytes 4) slot.insn.op := by
  cases h with
  | truncated | badDst | badSrc | unsupported | cut | badContinuation => cases hs
  | single hw _ _ hop | wide hw _ _ hop =>
    cases hs
    have hr := Word.readFrom_of_read? hw
    rw [← hr.opcode, ← hr.imm]
    exact denotes_of_ofWord? hop

/-- An instruction is wide if the grammar says so, and its immediate is composed accordingly. -/
theorem imm_of_ok (h : DecodeEffect d o bytes r) {slot : Slot} (hs : r = .ok slot) :
    (slot.wide = true ↔ d.TakesTwo (byteAt bytes 0) (immAt o bytes 4)) ∧
      slot.insn.imm =
        if slot.wide then
          ((immAt o bytes 12).toUInt32.toUInt64 <<< 32 ||| (immAt o bytes 4).toUInt32.toUInt64).toInt64
        else (immAt o bytes 4).toInt64 := by
  cases h with
  | truncated | badDst | badSrc | unsupported | cut | badContinuation => cases hs
  | single hw hdst hsrc hop hwide =>
    cases hs
    have hr := Word.readFrom_of_read? hw
    rw [hr.takesTwo_iff hop, hwide]
    exact ⟨Iff.rfl, by rw [hr.imm]; rfl⟩
  | wide hw hdst hsrc hop hwide hnext hc =>
    cases hs
    have hr := Word.readFrom_of_read? hw
    obtain ⟨-, -, hhigh⟩ := Word.two_read hw hnext
    rw [hr.takesTwo_iff hop, hwide]
    exact ⟨Iff.rfl, by rw [Word.wideImm_eq, hhigh, hr.imm]; rfl⟩

end DecodeEffect

/-- All checks, one by one. -/
theorem Decoder.firstFault?_eq_none_iff (d : Decoder) (o : ByteOrder) (bytes : List UInt8) :
    d.firstFault? o bytes = none ↔
      8 ≤ bytes.length ∧ dstAt o bytes ≤ 10 ∧ srcAt o bytes ≤ 10 ∧
        Opcode.Supported (byteAt bytes 0) (immAt o bytes 4) ∧
        (d.TakesTwo (byteAt bytes 0) (immAt o bytes 4) →
          16 ≤ bytes.length ∧ ∀ i, 8 ≤ i → i < 12 → byteAt bytes i = 0) := by
  have hbare : IsBare (bytes.drop Word.size) ↔ ∀ i, 8 ≤ i → i < 12 → byteAt bytes i = 0 := by
    simp only [IsBare, byteAt_drop, Word.size]
    constructor
    · intro h i hle hlt
      have hi := h (i - 8) (by simp; omega)
      rwa [Nat.add_sub_cancel' hle] at hi
    · intro h i hi
      refine h (8 + i) (by omega) ?_
      simp only [List.mem_cons, List.not_mem_nil, or_false] at hi
      omega
  have hpass (c : Check) : (if c.passes then none else some c.fault) = none ↔ c.passes = true := by
    cases c.passes <;> simp
  simp only [firstFault?, checks, List.findSome?_eq_none_iff, hpass, List.forall_mem_cons,
    decide_eq_true_eq, hbare, imp_and]
  simp [Word.size]

/-! ## Main statement -/

/-- Decoding accepts exactly what the grammar allows. It succeeds if and only if there are eight
bytes, both register numbers are at most ten, the opcode is supported and, if it takes two words,
there are sixteen bytes and those from eight to eleven are zero. On success the fields are those of
the bytes, and the operation is the one that the opcode's fields stand for; the instruction is wide exactly in the last case, with the second word's immediate above
the first word's, and else its immediate is sign-extended. On failure the fault is that of the
first check that fails. -/
theorem decode_accepts_grammar (d : Decoder) (o : ByteOrder) (bytes : List UInt8) :
    ((∃ slot, d.decode o bytes = .ok slot) ↔
      8 ≤ bytes.length ∧ dstAt o bytes ≤ 10 ∧ srcAt o bytes ≤ 10 ∧
        Opcode.Supported (byteAt bytes 0) (immAt o bytes 4) ∧
        (d.TakesTwo (byteAt bytes 0) (immAt o bytes 4) →
          16 ≤ bytes.length ∧ ∀ i, 8 ≤ i → i < 12 → byteAt bytes i = 0)) ∧
    (∀ slot, d.decode o bytes = .ok slot →
      (slot.insn.opcode = byteAt bytes 0 ∧ slot.insn.dst.val = (dstAt o bytes).toNat ∧
        slot.insn.src.val = (srcAt o bytes).toNat ∧
        slot.insn.off = o.readInt16 (byteAt bytes 2) (byteAt bytes 3)) ∧
      Opcode.Denotes (byteAt bytes 0) (immAt o bytes 4) slot.insn.op ∧
      (slot.wide = true ↔ d.TakesTwo (byteAt bytes 0) (immAt o bytes 4)) ∧
      slot.insn.imm =
        if slot.wide then
          ((immAt o bytes 12).toUInt32.toUInt64 <<< 32 ||| (immAt o bytes 4).toUInt32.toUInt64).toInt64
        else (immAt o bytes 4).toInt64) ∧
    (∀ f, d.decode o bytes = .error f ↔ d.firstFault? o bytes = some f) := by
  have heffect := decode_effect d o bytes
  refine ⟨?_, ?_, ?_⟩
  · rw [← d.firstFault?_eq_none_iff o bytes]
    constructor
    · rintro ⟨slot, hslot⟩
      exact heffect.firstFault_of_ok hslot
    · intro hnone
      cases hd : d.decode o bytes with
      | ok slot => exact ⟨slot, rfl⟩
      | error f =>
        have hsome := heffect.firstFault_of_error hd
        rw [hnone] at hsome
        cases hsome
  · intro slot hslot
    exact ⟨heffect.fields_of_ok hslot, heffect.denotes_of_ok hslot, heffect.imm_of_ok hslot⟩
  · intro f
    constructor
    · intro hd
      exact heffect.firstFault_of_error hd
    · intro hsome
      cases hd : d.decode o bytes with
      | ok slot =>
        have hnone := heffect.firstFault_of_ok hd
        rw [hsome] at hnone
        cases hnone
      | error g =>
        have hsome' := heffect.firstFault_of_error hd
        rw [hsome] at hsome'
        cases hsome'
        rfl

/-- A wide load whose register and second word are both wrong: the register is checked first. And one
that is right: the low half of its immediate is not sign-extended. -/
theorem decode_accepts_grammar_two_faults :
    Decoder.decode {} .little [0x18, 0x0b, 0, 0, 0, 0, 0, 0, 1, 0, 0, 0, 0, 0, 0, 0] =
      .error (.invalidRegister 11) ∧
    ∃ slot,
      Decoder.decode {} .little
        [0x18, 1, 0, 0, 0xff, 0xff, 0xff, 0xff, 0, 0, 0, 0, 1, 0, 0, 0] = .ok slot ∧
      slot.wide = true ∧ slot.insn.imm = 0x1ffffffff := by
  have hdecode : Decoder.decode {} .little
      [0x18, 1, 0, 0, 0xff, 0xff, 0xff, 0xff, 0, 0, 0, 0, 1, 0, 0, 0] =
        .ok { insn := { op := .loadImm64, opcode := 0x18, dst := 1, src := 0, off := 0,
                        imm := 0x1ffffffff }
              wide := true } := rfl
  obtain ⟨-, -, hwide, himm⟩ := (decode_accepts_grammar {} .little _).2.1 _ hdecode
  refine ⟨((decode_accepts_grammar {} .little _).2.2 _).mpr (by decide), _, hdecode, ?_, himm⟩
  exact hwide.mpr (by decide)

end Ebpf
