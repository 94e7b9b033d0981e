/-
  Decoding: from the bytes at a program counter to an instruction.

  An opcode's low three bits are its class. Arithmetic and jump classes keep
  the operation in the high four bits and the operand's source in bit 3; load
  and store classes keep the access size in bits 3 and 4 and the addressing
  mode in the high three. Checks come in a fixed order: enough bytes for one
  word, destination and source register, opcode, enough bytes for a second
  word if the instruction is wide, and the shape of that second word.
-/
import Ebpf.Insn
import Ebpf.Word

namespace Ebpf

/-! ## Fields of an opcode -/

/-- Bit 3 of an arithmetic or jump opcode chooses the second operand. -/
def Source.ofOpcode (opcode : UInt8) : Source :=
  if opcode &&& 0x08 = 0 then .imm else .reg

/-- Bits 3 and 4 of a load or store opcode give the access size. -/
def Size.ofOpcode (opcode : UInt8) : Size :=
  match opcode &&& 0x18 with
  | 0x00 => .word
  | 0x08 => .half
  | 0x10 => .byte
  | _ => .double

/-- The two-operand arithmetic operation of the high four bits of an opcode. -/
def AluOp.ofCode? : UInt8 → Option AluOp
  | 0x0 => some .add
  | 0x1 => some .sub
  | 0x2 => some .mul
  | 0x3 => some .div
  | 0x4 => some .or
  | 0x5 => some .and
  | 0x6 => some .lsh
  | 0x7 => some .rsh
  | 0x9 => some .mod
  | 0xa => some .xor
  | 0xb => some .mov
  | 0xc => some .arsh
  | _ => none

/-- The jump condition of the high four bits of an opcode. -/
def Cond.ofCode? : UInt8 → Option Cond
  | 0x1 => some .eq
  | 0x2 => some .gt
  | 0x3 => some .ge
  | 0x4 => some .set
  | 0x5 => some .ne
  | 0x6 => some .sgt
  | 0x7 => some .sge
  | 0xa => some .lt
  | 0xb => some .le
  | 0xc => some .slt
  | 0xd => some .sle
  | _ => none

/-! ## Operations by class -/

namespace Op

/-- Arithmetic. Negation takes no register operand, and byte swaps exist in
the 32-bit class only, with the immediate as their width. -/
def arithmetic? (w : Word) (width : Width) : Option Op :=
  match w.opcode >>> 4 with
  | 0x8 =>
    match Source.ofOpcode w.opcode with
    | .imm => some (.alu .neg width .imm)
    | .reg => none
  | 0xd =>
    match width, Source.ofOpcode w.opcode with
    | .w32, .imm => (SwapWidth.ofImm? w.imm).map (.swap .little)
    | .w32, .reg => (SwapWidth.ofImm? w.imm).map (.swap .big)
    | .w64, _ => none
  | code => (AluOp.ofCode? code).map fun op => .alu op width (Source.ofOpcode w.opcode)

/-- Jumps. The unconditional jump, the call and the exit have one opcode each. -/
def jump? (opcode : UInt8) (width : Width) : Option Op :=
  match opcode with
  | 0x05 => some .ja
  | 0x85 => some .call
  | 0x95 => some .exit
  | _ => (Cond.ofCode? (opcode >>> 4)).map fun c => .jmp c width (Source.ofOpcode opcode)

/-- Loads that are not from the stack: the 64-bit immediate, and the packet. -/
def loadDirect? (opcode : UInt8) : Option Op :=
  match opcode &&& 0xe0 with
  | 0x00 =>
    match Size.ofOpcode opcode with
    | .double => some .loadImm64
    | _ => none
  | 0x20 => some (.loadPacket (Size.ofOpcode opcode) false)
  | 0x40 => some (.loadPacket (Size.ofOpcode opcode) true)
  | _ => none

/-- Stores from a register, and additions to a cell of four or eight bytes. -/
def storeRegister? (opcode : UInt8) : Option Op :=
  match opcode &&& 0xe0 with
  | 0x60 => some (.store (Size.ofOpcode opcode) .reg)
  | 0xc0 =>
    match Size.ofOpcode opcode with
    | .word => some (.atomicAdd .word)
    | .double => some (.atomicAdd .double)
    | _ => none
  | _ => none

/-- The operation of a word, if it has one. Beside the opcode only the
immediate matters, as the width of a byte swap. -/
def ofWord? (w : Word) : Option Op :=
  match w.opcode &&& 0x07 with
  | 0 => loadDirect? w.opcode
  | 1 => if w.opcode &&& 0xe0 = 0x60 then some (.load (Size.ofOpcode w.opcode)) else none
  | 2 => if w.opcode &&& 0xe0 = 0x60 then some (.store (Size.ofOpcode w.opcode) .imm) else none
  | 3 => storeRegister? w.opcode
  | 4 => arithmetic? w .w32
  | 5 => jump? w.opcode .w64
  | 6 => jump? w.opcode .w32
  | _ => arithmetic? w .w64

end Op

/-! ## Whole instructions -/

/-- The one choice in the encoding: whether byte swaps over 64 bits take a
second word. -/
structure Decoder where
  wideByteswap : Bool := true
deriving DecidableEq

namespace Decoder

/-- Whether an operation takes two words. -/
def isWide (d : Decoder) : Op → Bool
  | .loadImm64 => true
  | .swap _ .b64 => d.wideByteswap
  | _ => false

/-- Decodes the instruction at the head of a byte string. -/
def decode (d : Decoder) (o : ByteOrder) (bytes : List UInt8) : Except Fault Slot :=
  match Word.read? o bytes with
  | none => .error (.truncated bytes.length Word.size)
  | some (w, rest) =>
    match Reg.ofNumber w.dst, Reg.ofNumber w.src with
    | .error e, _ => .error e
    | .ok _, .error e => .error e
    | .ok dst, .ok src =>
      match Op.ofWord? w with
      | none => .error (.unsupportedOpcode w.opcode)
      | some op =>
        let insn : Insn :=
          { op, opcode := w.opcode, dst, src, off := w.off, imm := w.imm.toInt64 }
        if d.isWide op then
          match Word.read? o rest with
          | none => .error (.truncated bytes.length (2 * Word.size))
          | some (next, _) =>
            if next.IsContinuation then
              .ok { insn := { insn with imm := Word.wideImm w next }, wide := true }
            else .error (.badContinuation (rest.take Word.size))
        else .ok { insn, wide := false }

/-- Decoding looks at the first two words only. -/
theorem decode_take (d : Decoder) (o : ByteOrder) (bytes : List UInt8) :
    d.decode o (bytes.take (2 * Word.size)) = d.decode o bytes := by
  by_cases hlen : bytes.length ≤ 2 * Word.size
  · rw [List.take_of_length_le hlen]
  · have hr := Word.read?_take o bytes Word.size
    rw [← Nat.two_mul] at hr
    unfold decode
    cases h₁ : Word.read? o bytes with
    | none =>
      have := Word.read?_eq_none_iff.1 h₁
      omega
    | some r =>
      obtain ⟨w, rest⟩ := r
      have hrest := Word.length_of_read? h₁
      have hr' := Word.read?_take o rest 0
      cases h₂ : Word.read? o rest with
      | none =>
        have := Word.read?_eq_none_iff.1 h₂
        dsimp only at hrest
        omega
      | some next =>
        rw [h₂, Nat.add_zero] at hr'
        rw [hr, h₁]
        simp only [Option.map_some, hr', h₂, List.take_take, Nat.min_self]

end Decoder

end Ebpf
