/-
  What can be read off the text of a line. The program counter in front of an
  instruction can be read back (`pc_of_numbered`), so lines of different words
  differ; and a word that does not decode is marked by a text that no instruction
  has (`isError_ofCode_iff`).
-/
import Ebpf.Listing

namespace Ebpf

/-! ## Numbered lines -/

namespace Text

theorem toList_decimal4 (n : Nat) :
    (decimal4 n).toList =
      List.replicate (4 - (Nat.toDigits 10 n).length) '0' ++ Nat.toDigits 10 n := by
  rw [decimal4, zeroFill, String.toList_ofList]

/-- Leading zeros do not change the value of a numeral. -/
theorem ofDigitChars_replicate_append (k : Nat) (ds : List Char) :
    Nat.ofDigitChars 10 (List.replicate k '0' ++ ds) 0 = Nat.ofDigitChars 10 ds 0 := by
  induction k with
  | zero => rfl
  | succ k ih =>
    rw [List.replicate_succ, List.cons_append]
    exact ih

theorem ofDigitChars_decimal4 (n : Nat) : Nat.ofDigitChars 10 (decimal4 n).toList 0 = n := by
  rw [toList_decimal4, ofDigitChars_replicate_append,
    Nat.ofDigitChars_toDigits (by decide) (by decide)]

theorem isDigit_of_mem_decimal4 {n : Nat} {c : Char} (h : c ∈ (decimal4 n).toList) :
    c.isDigit = true := by
  rw [toList_decimal4] at h
  rcases List.mem_append.mp h with hzero | hdigit
  · rw [List.eq_of_mem_replicate hzero]
    decide
  · exact Nat.isDigit_of_mem_toDigits (by decide) (by decide) hdigit

/-- The number in front of a colon can be read back. -/
theorem pc_of_numbered {m n : Nat} {s t : String}
    (h : decimal4 m ++ ": " ++ s = decimal4 n ++ ": " ++ t) : m = n := by
  have hread (k : Nat) (u : String) :
      (decimal4 k ++ ": " ++ u).toList.takeWhile Char.isDigit = (decimal4 k).toList := by
    have hall : ∀ c ∈ (decimal4 k).toList, c.isDigit = true := fun c hc =>
      isDigit_of_mem_decimal4 hc
    rw [String.toList_append, String.toList_append, List.append_assoc,
      List.takeWhile_append_of_pos hall]
    exact List.append_nil _
  have hdigits : (decimal4 m).toList = (decimal4 n).toList := by
    rw [← hread m s, ← hread n t, h]
  rw [← ofDigitChars_decimal4 m, ← ofDigitChars_decimal4 n, hdigits]

end Text

/-! ## Lines of words that do not decode -/

/-- A line that gives the reason for which a word does not decode. -/
def Line.isError (l : Line) : Bool :=
  l.text.startsWith ".error"

/-- A text that is not empty and does not start with a full stop. -/
def Undotted (s : String) : Prop :=
  ∃ c cs, s.toList = c :: cs ∧ c ≠ '.'

theorem Undotted.append {s : String} (h : Undotted s) (t : String) : Undotted (s ++ t) := by
  obtain ⟨c, cs, hs, hc⟩ := h
  exact ⟨c, cs ++ t.toList, by rw [String.toList_append, hs]; rfl, hc⟩

theorem Undotted.of_toList {s : String} (h : s.toList.head?.any (· != '.') = true) : Undotted s := by
  cases hs : s.toList with
  | nil => simp [hs] at h
  | cons c cs => exact ⟨c, cs, hs, by simpa [hs] using h⟩

theorem AluOp.undotted_mnemonic (op : AluOp) : Undotted op.mnemonic := by
  cases op <;> exact .of_toList (by decide)

theorem Cond.undotted_mnemonic (c : Cond) : Undotted c.mnemonic := by
  cases c <;> exact .of_toList (by decide)

theorem ByteOrder.undotted_mnemonic (o : ByteOrder) : Undotted o.mnemonic := by
  cases o <;> exact .of_toList (by decide)

theorem Insn.undotted_text (i : Insn) : Undotted i.text := by
  unfold text
  -- each text is a mnemonic with the operands behind it
  split
  all_goals repeat with_reducible apply Undotted.append
  all_goals
    first
    | with_reducible exact AluOp.undotted_mnemonic _
    | with_reducible exact Cond.undotted_mnemonic _
    | with_reducible exact ByteOrder.undotted_mnemonic _
    | exact .of_toList (by decide)

theorem Undotted.not_startsWith {s : String} (h : Undotted s) : s.startsWith ".error" = false := by
  obtain ⟨c, cs, hs, hc⟩ := h
  rw [Bool.eq_false_iff]
  intro herror
  have hprefix := String.startsWith_string_iff.mp herror
  rw [hs] at hprefix
  exact hc (List.cons_prefix_cons.mp hprefix).1.symm

/-- The lines of words that do not decode are told by their text. -/
theorem Line.isError_ofCode_iff (d : Decoder) (o : ByteOrder) (pc : Nat) (code : List UInt8) :
    (Line.ofCode d o pc code).isError = true ↔ ∃ f, d.decode o code = .error f := by
  unfold ofCode isError
  split
  · next slot hd =>
    simp [slot.insn.undotted_text.not_startsWith, hd]
  · next f hd =>
    have htext : (".error " ++ f.message).startsWith ".error" = true := by
      rw [String.startsWith_string_iff, String.toList_append]
      exact (show ".error".toList <+: ".error ".toList by decide).trans (List.prefix_append _ _)
    simp [htext, hd]

end Ebpf
