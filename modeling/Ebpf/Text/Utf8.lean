/-
  Reading bytes as UTF-8 when they may be malformed.

  Each maximal run of bytes that begins a well-formed sequence and then breaks
  off, and each byte that begins none, becomes one replacement character; the
  byte that broke a sequence off is read afresh. The reader looks at one byte
  at a time and keeps an unfinished sequence as its state.
-/

namespace Ebpf.Text.Utf8

/-- An unfinished sequence: the payload read so far, how many bytes are still
missing (at least one), and the range that the next byte must lie in. -/
structure Pending where
  payload : Nat
  missing : Nat
  low : UInt8
  high : UInt8

/-- The character that stands for malformed bytes. -/
def replacement : Char := '\ufffd'

/-- The sequence that a byte of 0x80 or above begins, if it can begin one. The
second byte's range shuts out overlong forms, surrogates and numbers above
the last code point. -/
def Pending.ofLead? (b : UInt8) : Option Pending :=
  if 0xc2 ≤ b ∧ b ≤ 0xdf then some ⟨b.toNat % 32, 1, 0x80, 0xbf⟩
  else if b = 0xe0 then some ⟨b.toNat % 16, 2, 0xa0, 0xbf⟩
  else if b = 0xed then some ⟨b.toNat % 16, 2, 0x80, 0x9f⟩
  else if 0xe1 ≤ b ∧ b ≤ 0xef then some ⟨b.toNat % 16, 2, 0x80, 0xbf⟩
  else if b = 0xf0 then some ⟨b.toNat % 8, 3, 0x90, 0xbf⟩
  else if 0xf1 ≤ b ∧ b ≤ 0xf3 then some ⟨b.toNat % 8, 3, 0x80, 0xbf⟩
  else if b = 0xf4 then some ⟨b.toNat % 8, 3, 0x80, 0x8f⟩
  else none

/-- Reads a byte with no sequence open: the characters it completes, and the
sequence it leaves open. -/
def start (b : UInt8) : List Char × Option Pending :=
  if b < 0x80 then ([Char.ofNat b.toNat], none)
  else
    match Pending.ofLead? b with
    | some p => ([], some p)
    | none => ([replacement], none)

/-- Reads a byte in any state. -/
def feed : Option Pending → UInt8 → List Char × Option Pending
  | none, b => start b
  | some p, b =>
    if p.low ≤ b ∧ b ≤ p.high then
      let payload := p.payload * 64 + b.toNat % 64
      if p.missing = 1 then ([Char.ofNat payload], none)
      else ([], some ⟨payload, p.missing - 1, 0x80, 0xbf⟩)
    else (replacement :: (start b).1, (start b).2)

/-- Reads the remaining bytes; `read` holds the characters so far, last first.
A sequence left open at the end is malformed. -/
def decodeFrom (read : List Char) : Option Pending → List UInt8 → List Char
  | none, [] => read.reverse
  | some _, [] => (replacement :: read).reverse
  | state, b :: bs =>
    decodeFrom ((feed state b).1.reverse ++ read) (feed state b).2 bs

/-- The text of a byte string, with malformed parts replaced. -/
def decodeLossy (bytes : List UInt8) : List Char :=
  decodeFrom [] none bytes

end Ebpf.Text.Utf8
