/-
  Instruction words exactly as they lie in memory: eight bytes holding an
  opcode, two register numbers, a signed 16-bit offset and a signed 32-bit
  immediate.

      byte 0      opcode
      byte 1      destination and source register, one half byte each
      bytes 2-3   offset
      bytes 4-7   immediate
-/
import Ebpf.ByteOrder

namespace Ebpf

/-- One instruction word. Register numbers are kept as read, valid or not. -/
structure Word where
  opcode : UInt8
  dst : UInt8
  src : UInt8
  off : Int16
  imm : Int32
deriving DecidableEq

namespace Word

/-- The number of bytes in a word. -/
def size : Nat := 8

/-- Reads the word at the head of a byte string, with the bytes after it. -/
def read? (o : ByteOrder) : List UInt8 → Option (Word × List UInt8)
  | b₀ :: b₁ :: b₂ :: b₃ :: b₄ :: b₅ :: b₆ :: b₇ :: rest =>
    some
      ({ opcode := b₀
         dst := (o.splitRegisters b₁).1
         src := (o.splitRegisters b₁).2
         off := o.readInt16 b₂ b₃
         imm := o.readInt32 b₄ b₅ b₆ b₇ }, rest)
  | _ => none

/-- Reading looks at the first eight bytes only. -/
theorem read?_take (o : ByteOrder) (bytes : List UInt8) (n : Nat) :
    read? o (bytes.take (size + n)) = (read? o bytes).map fun r => (r.1, r.2.take n) := by
  unfold size
  rw [Nat.add_comm]
  match bytes with
  | [] | [_] | [_, _] | [_, _, _] | [_, _, _, _] | [_, _, _, _, _] | [_, _, _, _, _, _]
  | [_, _, _, _, _, _, _] => simp [read?]
  | _ :: _ :: _ :: _ :: _ :: _ :: _ :: _ :: _ => simp [read?]

theorem read?_eq_none_iff {o : ByteOrder} {bytes : List UInt8} :
    read? o bytes = none ↔ bytes.length < size := by
  unfold size
  match bytes with
  | [] | [_] | [_, _] | [_, _, _] | [_, _, _, _] | [_, _, _, _, _] | [_, _, _, _, _, _]
  | [_, _, _, _, _, _, _] => simp [read?]
  | _ :: _ :: _ :: _ :: _ :: _ :: _ :: _ :: _ => simp [read?]

theorem length_of_read? {o : ByteOrder} {bytes : List UInt8} {r : Word × List UInt8}
    (h : read? o bytes = some r) : bytes.length = size + r.2.length := by
  unfold read? at h
  split at h
  · cases h
    simp only [size, List.length_cons]
    omega
  · cases h

/-- The eight bytes of a word. -/
def toBytes (o : ByteOrder) (w : Word) : List UInt8 :=
  w.opcode :: o.packRegisters w.dst w.src :: (o.writeInt16 w.off ++ o.writeInt32 w.imm)

/-- The image of a sequence of words. -/
def assemble (o : ByteOrder) (words : List Word) : List UInt8 :=
  words.flatMap (toBytes o)

@[simp] theorem length_toBytes (o : ByteOrder) (w : Word) : (w.toBytes o).length = size := by
  simp [toBytes, ByteOrder.writeInt16, ByteOrder.writeInt32, size]

@[simp] theorem length_assemble (o : ByteOrder) (words : List Word) :
    (assemble o words).length = size * words.length := by
  induction words with
  | nil => rfl
  | cons w ws ih =>
    have hcons : assemble o (w :: ws) = w.toBytes o ++ assemble o ws := rfl
    rw [hcons, List.length_append, length_toBytes, ih, List.length_cons, Nat.mul_succ,
      Nat.add_comm]

/-- The second word of a wide instruction, which carries the high half of its immediate. -/
def continuation (high : Int32) : Word :=
  { opcode := 0, dst := 0, src := 0, off := 0, imm := high }

/-- A word that carries nothing but an immediate. -/
def IsContinuation (w : Word) : Prop :=
  w.opcode = 0 ∧ w.dst = 0 ∧ w.src = 0 ∧ w.off = 0

instance (w : Word) : Decidable w.IsContinuation :=
  inferInstanceAs (Decidable (_ ∧ _))

/-- The opcode of the 64-bit immediate load. -/
def loadWideOpcode : UInt8 := 0x18

/-- The pair of words that loads a 64-bit immediate into `dst`. -/
def loadWide (dst : UInt8) (value : UInt64) : Word × Word :=
  ({ opcode := loadWideOpcode, dst, src := 0, off := 0, imm := value.toUInt32.toInt32 },
   continuation (value >>> 32).toUInt32.toInt32)

/-- The 64-bit immediate held by two words, the first of them the low half. -/
def wideImm (low high : Word) : Int64 :=
  (high.imm.toUInt32.toUInt64 * 0x100000000 + low.imm.toUInt32.toUInt64).toInt64

end Word

end Ebpf
