/-
  Packets: read-only byte sources for the packet loads. A packet states its
  length; a read inside that length may still fail, with a reason of its own.

  A packet keeps no state between reads: equal reads get equal answers, however
  often and in whatever order they are made. A source whose answers change with
  time, or with the reads it has served, is not a packet in this sense.
-/
import Ebpf.Text.Numeral

namespace Ebpf

/-- A byte source of a given length. -/
structure Packet where
  length : Nat
  read : UInt64 → Nat → Except String (List UInt8)

namespace Packet

/-- A packet held in memory. -/
def ofBytes (bytes : List UInt8) : Packet where
  length := bytes.length
  read addr len :=
    if addr.toNat + len ≤ bytes.length then .ok ((bytes.drop addr.toNat).take len)
    else .error (Text.decimal len ++ " byte(s) at " ++ Text.hex0x addr.toNat ++ " past end of " ++
      Text.decimal bytes.length ++ "-byte buffer")

/-- A packet every read of which fails. -/
def failing (length : Nat) (reason : String) : Packet where
  length
  read _ _ := .error reason

end Packet

end Ebpf
