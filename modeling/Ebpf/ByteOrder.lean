/-
  Byte order: how a run of bytes stands for a number, and which half of the
  register byte of an instruction word names the destination.

  `digits` and `ofDigits` are the base-256 expansion, least significant byte
  first; `write` and `read` lay the same bytes out in the order asked for.
  Numbers are 64 bits wide, so `read` is meant for at most eight bytes.
-/

namespace Ebpf

/-- The two orders in which a number's bytes can lie in memory. -/
inductive ByteOrder where
  | little
  | big
deriving DecidableEq, Inhabited

namespace ByteOrder

/-! ## Unsigned numbers -/

/-- The number whose base-256 digits are given, least significant first. -/
def ofDigits : List UInt8 → UInt64
  | [] => 0
  | b :: bs => b.toUInt64 + 256 * ofDigits bs

/-- The lowest `n` base-256 digits of `v`, least significant first. -/
def digits (v : UInt64) : Nat → List UInt8
  | 0 => []
  | n + 1 => v.toUInt8 :: digits (v / 256) n

/-- The unsigned number that a run of at most eight bytes stands for. -/
def read (o : ByteOrder) (bytes : List UInt8) : UInt64 :=
  match o with
  | little => ofDigits bytes
  | big => ofDigits bytes.reverse

/-- The low `n` bytes of `v`, laid out in this order. -/
def write (o : ByteOrder) (v : UInt64) (n : Nat) : List UInt8 :=
  match o with
  | little => digits v n
  | big => (digits v n).reverse

@[simp] theorem length_digits (v : UInt64) (n : Nat) : (digits v n).length = n := by
  induction n generalizing v with
  | zero => rfl
  | succ n ih => simp [digits, ih]

@[simp] theorem length_write (o : ByteOrder) (v : UInt64) (n : Nat) :
    (o.write v n).length = n := by
  cases o <;> simp [write]

/-! ## Signed fields of an instruction word -/

/-- The signed 16-bit number held by two bytes. -/
def readInt16 (o : ByteOrder) (b₀ b₁ : UInt8) : Int16 :=
  (o.read [b₀, b₁]).toUInt16.toInt16

/-- The signed 32-bit number held by four bytes. -/
def readInt32 (o : ByteOrder) (b₀ b₁ b₂ b₃ : UInt8) : Int32 :=
  (o.read [b₀, b₁, b₂, b₃]).toUInt32.toInt32

/-- The two bytes of a signed 16-bit number. -/
def writeInt16 (o : ByteOrder) (v : Int16) : List UInt8 :=
  o.write v.toUInt16.toUInt64 2

/-- The four bytes of a signed 32-bit number. -/
def writeInt32 (o : ByteOrder) (v : Int32) : List UInt8 :=
  o.write v.toUInt32.toUInt64 4

/-! ## The register byte -/

/-- Splits the register byte into destination and source: the destination is
the low half of a little-endian word and the high half of a big-endian one. -/
def splitRegisters (o : ByteOrder) (byte : UInt8) : UInt8 × UInt8 :=
  match o with
  | little => (byte &&& 0x0f, byte >>> 4)
  | big => (byte >>> 4, byte &&& 0x0f)

/-- Packs two register numbers into one byte; only their low halves survive. -/
def packRegisters (o : ByteOrder) (dst src : UInt8) : UInt8 :=
  match o with
  | little => (src <<< 4) ||| (dst &&& 0x0f)
  | big => (dst <<< 4) ||| (src &&& 0x0f)

end ByteOrder

end Ebpf
