/-
  Spans of a file and the numbers that stand in its headers. Offsets are
  checked against the file in exact arithmetic before they are used.
-/
import Ebpf.ByteOrder

namespace Ebpf.ObjectFile

/-- Whether a span lies inside the file. -/
def fits (bytes : List UInt8) (offset size : Nat) : Bool :=
  offset + size ≤ bytes.length

/-- The bytes of a span, if it lies inside the file. -/
def span? (bytes : List UInt8) (offset size : Nat) : Option (List UInt8) :=
  if fits bytes offset size then some ((bytes.drop offset).take size) else none

/-- Where a header holds a number: how far from its start, and in how many bytes. -/
structure Field where
  offset : Nat
  size : Nat

/-- The unsigned number in a field of the header that starts at `start`. -/
def Field.read (f : Field) (order : ByteOrder) (bytes : List UInt8) (start : Nat) : Nat :=
  (order.read ((bytes.drop (start + f.offset)).take f.size)).toNat

end Ebpf.ObjectFile
