/-
  Arithmetic, byte swaps and comparisons on register values.

  Operations of both widths share one definition. A 32-bit operand is the low
  half of a register, read as unsigned by `Width.low` and as signed by
  `Width.signed`; the result of a 32-bit operation has a zero high half.
-/
import Ebpf.Insn

namespace Ebpf

/-! ## Operands -/

namespace Width

/-- The number of bits. -/
def bits : Width → Nat
  | w32 => 32
  | w64 => 64

/-- The bits of a register value that count, as an unsigned number. -/
def low (width : Width) (v : UInt64) : UInt64 :=
  match width with
  | w32 => v.toUInt32.toUInt64
  | w64 => v

/-- The bits of a register value that count, as a signed number. -/
def signed (width : Width) (v : UInt64) : Int64 :=
  match width with
  | w32 => v.toUInt32.toInt32.toInt64
  | w64 => v.toInt64

/-- A shift amount, taken modulo the width. -/
def shift (width : Width) (v : UInt64) : UInt64 :=
  match width with
  | w32 => v % 32
  | w64 => v % 64

end Width

/-! ## Arithmetic -/

/-- An arithmetic operation on register values. Results wrap at the width, and
division and remainder by zero give zero. -/
def AluOp.execute (op : AluOp) (width : Width) (dst src : UInt64) : UInt64 :=
  let x := width.low dst
  let y := width.low src
  width.low <|
    match op with
    | add => x + y
    | sub => x - y
    | mul => x * y
    | div => x / y
    | mod => if y = 0 then 0 else x % y
    | or => x ||| y
    | and => x &&& y
    | xor => x ^^^ y
    | lsh => x <<< width.shift y
    | rsh => x >>> width.shift y
    | arsh => ⟨(width.signed dst).toBitVec.sshiftRight (width.shift y).toNat⟩
    | neg => -x
    | mov => y

/-! ## Byte swaps -/

/-- Converts a value held in the machine's order to the target order within
the given width: the bytes are reversed when the two orders differ, and the
bits above the width are dropped either way. -/
def SwapWidth.convert (width : SwapWidth) (native target : ByteOrder) (v : UInt64) : UInt64 :=
  let bytes := ByteOrder.digits v width.bytes
  ByteOrder.ofDigits (if target = native then bytes else bytes.reverse)

/-! ## Conditions -/

/-- Whether a condition holds between two register values. -/
def Cond.holds (c : Cond) (width : Width) (x y : UInt64) : Bool :=
  match c with
  | eq => width.low x = width.low y
  | ne => width.low x ≠ width.low y
  | gt => width.low x > width.low y
  | ge => width.low x ≥ width.low y
  | lt => width.low x < width.low y
  | le => width.low x ≤ width.low y
  | sgt => width.signed x > width.signed y
  | sge => width.signed x ≥ width.signed y
  | slt => width.signed x < width.signed y
  | sle => width.signed x ≤ width.signed y
  | set => width.low x &&& width.low y ≠ 0

end Ebpf
