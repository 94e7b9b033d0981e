/-
  Instructions: what each operation is, independent of how words encode it.
-/
import Ebpf.ByteOrder
import Ebpf.Registers

namespace Ebpf

/-- The width of an arithmetic or comparison operand. -/
inductive Width where
  | w32
  | w64
deriving DecidableEq

/-- Arithmetic and logic operations. -/
inductive AluOp where
  | add | sub | mul | div | or | and | lsh | rsh | neg | mod | xor | mov | arsh
deriving DecidableEq

/-- Where the second operand comes from. -/
inductive Source where
  | reg
  | imm
deriving DecidableEq

/-- How many bits a byte swap covers. -/
inductive SwapWidth where
  | b16 | b32 | b64
deriving DecidableEq

/-- The size of a memory access. -/
inductive Size where
  | byte | half | word | double
deriving DecidableEq

/-- The conditions of conditional jumps; those named with an `s` compare signed
numbers, and `set` asks for a common one bit. -/
inductive Cond where
  | eq | ne | gt | ge | lt | le | sgt | sge | slt | sle | set
deriving DecidableEq

/-- Operations. -/
inductive Op where
  /-- Combine the destination register with the second operand. -/
  | alu (op : AluOp) (width : Width) (source : Source)
  /-- Convert the destination register to the target byte order. -/
  | swap (target : ByteOrder) (width : SwapWidth)
  /-- Load a 64-bit immediate. -/
  | loadImm64
  /-- Load from the packet into `r0`, at the immediate, plus the source register if indirect. -/
  | loadPacket (size : Size) (indirect : Bool)
  /-- Load from the stack, at the source register plus the offset. -/
  | load (size : Size)
  /-- Store to the stack, at the destination register plus the offset. -/
  | store (size : Size) (source : Source)
  /-- Add the source register to a stack cell. -/
  | atomicAdd (size : Size)
  /-- Jump. -/
  | ja
  /-- Jump if the condition holds between the destination register and the second operand. -/
  | jmp (cond : Cond) (width : Width) (source : Source)
  /-- Call the helper whose number is the immediate. -/
  | call
  /-- End the program. -/
  | exit
deriving DecidableEq

/-- A decoded instruction. The immediate is the sign-extended one of a single
word, or the 64-bit one of a wide instruction. -/
structure Insn where
  op : Op
  opcode : UInt8
  dst : Reg
  src : Reg
  off : Int16
  imm : Int64
deriving DecidableEq

/-- An instruction together with the room it takes: one word, or two if wide. -/
structure Slot where
  insn : Insn
  wide : Bool
deriving DecidableEq

/-- The number of words of a slot. -/
def Slot.words (s : Slot) : Nat :=
  if s.wide then 2 else 1

theorem Slot.words_pos (s : Slot) : 0 < s.words := by
  unfold Slot.words
  split <;> decide

/-- The number of bytes of an access. -/
def Size.bytes : Size → Nat
  | byte => 1
  | half => 2
  | word => 4
  | double => 8

namespace SwapWidth

/-- The number of bits of a swap. -/
def bits : SwapWidth → Nat
  | b16 => 16
  | b32 => 32
  | b64 => 64

/-- The number of bytes of a swap. -/
def bytes : SwapWidth → Nat
  | b16 => 2
  | b32 => 4
  | b64 => 8

/-- The swap over a count of bits: 16 and 32 stand for themselves, and any
other count for the whole register. -/
def ofBits (n : Nat) : SwapWidth :=
  if n = 16 then b16 else if n = 32 then b32 else b64

/-- The swap that an immediate selects; only 16, 32 and 64 select one. -/
def ofImm? (imm : Int32) : Option SwapWidth :=
  if imm = 16 then some b16 else if imm = 32 then some b32 else if imm = 64 then some b64 else none

end SwapWidth

end Ebpf
