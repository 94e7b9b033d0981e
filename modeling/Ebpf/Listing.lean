/-
  Listings: a code section from its first word to its last, one line for each
  instruction. A word that does not decode takes a line of its own with the
  reason; the last line may hold less than a word.
-/
import Ebpf.Insn.Decode
import Ebpf.Insn.Text

namespace Ebpf

/-- A line of a listing. -/
structure Line where
  pc : Nat
  words : Nat
  bytes : List UInt8
  text : String
deriving DecidableEq

namespace Line

/-- The line of the instruction at the head of a byte string. -/
def ofCode (d : Decoder) (o : ByteOrder) (pc : Nat) (code : List UInt8) : Line :=
  match d.decode o code with
  | .ok slot =>
    { pc
      words := slot.words
      bytes := code.take (Word.size * slot.words)
      text := slot.insn.text }
  | .error fault =>
    { pc, words := 1, bytes := code.take Word.size, text := ".error " ++ fault.message }

/-- The line as shown, with its bytes if asked for. -/
def render (l : Line) (showBytes : Bool) : String :=
  if showBytes then
    Text.decimal4 l.pc ++ ": " ++ String.join (l.bytes.map fun b => Text.hexByte b ++ " ") ++
      "  " ++ l.text
  else Text.decimal4 l.pc ++ ": " ++ l.text

theorem words_pos (d : Decoder) (o : ByteOrder) (pc : Nat) (code : List UInt8) :
    0 < (ofCode d o pc code).words := by
  unfold ofCode
  split
  · exact Slot.words_pos _
  · exact Nat.one_pos

end Line

/-- The lines of the rest of a section, the first of them at word `pc`. -/
def sweepFrom (d : Decoder) (o : ByteOrder) (pc : Nat) (code : List UInt8) : List Line :=
  if code.isEmpty then []
  else
    let line := Line.ofCode d o pc code
    line :: sweepFrom d o (pc + line.words) (code.drop (Word.size * line.words))
termination_by code.length
decreasing_by
  rename_i h
  have hw := Line.words_pos d o pc code
  have hc : 0 < code.length := by
    cases code with
    | nil => simp at h
    | cons b bs => simp
  simp only [List.length_drop, Word.size]
  omega

/-- The listing of a section. -/
def sweep (d : Decoder) (o : ByteOrder) (code : List UInt8) : List Line :=
  sweepFrom d o 0 code

end Ebpf
