/-
  Assembly text of instructions: a mnemonic, then the operands. A 32-bit
  operation is marked by `32` after its mnemonic and a memory access by the
  letter of its size; offsets always carry a sign.
-/
import Ebpf.Insn

namespace Ebpf

/-- The mnemonic of an arithmetic operation. -/
def AluOp.mnemonic : AluOp → String
  | add => "add"
  | sub => "sub"
  | mul => "mul"
  | div => "div"
  | or => "or"
  | and => "and"
  | lsh => "lsh"
  | rsh => "rsh"
  | neg => "neg"
  | mod => "mod"
  | xor => "xor"
  | mov => "mov"
  | arsh => "arsh"

/-- The mnemonic of a conditional jump. -/
def Cond.mnemonic : Cond → String
  | eq => "jeq"
  | ne => "jne"
  | gt => "jgt"
  | ge => "jge"
  | lt => "jlt"
  | le => "jle"
  | sgt => "jsgt"
  | sge => "jsge"
  | slt => "jslt"
  | sle => "jsle"
  | set => "jset"

/-- The letters that mark an access size. -/
def Size.letters : Size → String
  | byte => "b"
  | half => "h"
  | word => "w"
  | double => "dw"

/-- The mark of a 32-bit operation. -/
def Width.mark : Width → String
  | w32 => "32"
  | w64 => ""

/-- The mnemonic that names a byte order. -/
def ByteOrder.mnemonic : ByteOrder → String
  | little => "le"
  | big => "be"

namespace Insn

/-- A stack operand, as in `[r10-8]`. -/
def cellText (base : Reg) (off : Int16) : String :=
  "[" ++ base.name ++ Text.signed off.toInt ++ "]"

/-- The second operand of an arithmetic, jump or store instruction. -/
def operandText (i : Insn) : Source → String
  | .reg => i.src.name
  | .imm => Text.integer i.imm.toInt

/-- The assembly text of an instruction. -/
def text (i : Insn) : String :=
  match i.op with
  | .alu .neg width _ => "neg" ++ width.mark ++ " " ++ i.dst.name
  | .alu op width source =>
    op.mnemonic ++ width.mark ++ " " ++ i.dst.name ++ ", " ++ i.operandText source
  | .swap target width => target.mnemonic ++ Text.decimal width.bits ++ " " ++ i.dst.name
  | .loadImm64 => "lddw " ++ i.dst.name ++ ", " ++ Text.hex0x i.imm.toUInt64.toNat
  | .loadPacket size false => "ldabs" ++ size.letters ++ " " ++ Text.integer i.imm.toInt
  | .loadPacket size true =>
    "ldind" ++ size.letters ++ " " ++ i.src.name ++ ", " ++ Text.integer i.imm.toInt
  | .load size => "ldx" ++ size.letters ++ " " ++ i.dst.name ++ ", " ++ cellText i.src i.off
  | .store size .imm =>
    "st" ++ size.letters ++ " " ++ cellText i.dst i.off ++ ", " ++ Text.integer i.imm.toInt
  | .store size .reg =>
    "stx" ++ size.letters ++ " " ++ cellText i.dst i.off ++ ", " ++ i.src.name
  | .atomicAdd size =>
    "xadd" ++ size.letters ++ " " ++ cellText i.dst i.off ++ ", " ++ i.src.name
  | .ja => "ja " ++ Text.signed i.off.toInt
  | .jmp cond width source =>
    cond.mnemonic ++ width.mark ++ " " ++ i.dst.name ++ ", " ++ i.operandText source ++ ", " ++
      Text.signed i.off.toInt
  | .call => "call " ++ Text.integer i.imm.toInt
  | .exit => "exit"

end Insn

end Ebpf
