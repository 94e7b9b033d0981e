/-
  Listings and executions. A listing goes through a section word by word, while
  an execution jumps; both decode the same bytes. They agree because a listing
  never gets out of step: it would have to pass over the start of an
  instruction, and no instruction starts inside another.

  `listing_shows_execution`: wherever an instruction can be decoded, the listing
  has exactly one line for it, and every instruction line of a trace is a line
  of the listing, whichever way the execution came there.
-/
import Ebpf.Listing
import Ebpf.Proofs.Tracing
import Mathlib.Data.List.Pairwise

namespace Ebpf

variable {d : Decoder} {o : ByteOrder}

/-! ## Lines of a listing -/

theorem Line.ofCode_of_ok {pc : Nat} {code : List UInt8} {slot : Slot}
    (h : d.decode o code = .ok slot) :
    Line.ofCode d o pc code =
      { pc
        words := slot.words
        bytes := code.take (Word.size * slot.words)
        text := slot.insn.text } := by
  rw [ofCode, h]

theorem Line.pc_ofCode (pc : Nat) (code : List UInt8) : (Line.ofCode d o pc code).pc = pc := by
  unfold ofCode
  split <;> rfl

/-- No instruction starts inside that of a line. -/
theorem Line.words_le_of_decode {pc k : Nat} {code : List UInt8} {slot : Slot}
    (h : d.decode o (code.drop (Word.size * k)) = .ok slot) (hk : 0 < k) :
    (Line.ofCode d o pc code).words ≤ k := by
  unfold ofCode
  split
  · next first hfirst =>
    refine Nat.le_of_not_lt fun hinside => ?_
    obtain ⟨f, hf⟩ := decode_inside hfirst hk hinside
    rw [h] at hf
    cases hf
  · exact hk

theorem decode_nil : ∃ f, d.decode o [] = .error f :=
  ⟨_, rfl⟩

theorem sweepFrom_nil (pc : Nat) : sweepFrom d o pc [] = [] := by
  rw [sweepFrom]
  rfl

theorem sweepFrom_of_ne_nil (pc : Nat) {code : List UInt8} (h : code ≠ []) :
    sweepFrom d o pc code =
      Line.ofCode d o pc code ::
        sweepFrom d o (pc + (Line.ofCode d o pc code).words)
          (code.drop (Word.size * (Line.ofCode d o pc code).words)) := by
  rw [sweepFrom, if_neg (by simpa using h)]

theorem le_pc_of_mem_sweepFrom {pc : Nat} {code : List UInt8} {line : Line}
    (h : line ∈ sweepFrom d o pc code) : pc ≤ line.pc := by
  induction pc, code using sweepFrom.induct d o with
  | case1 pc code hnil =>
    rw [List.isEmpty_iff.mp hnil, sweepFrom_nil] at h
    cases h
  | case2 pc code hne first ih =>
    rw [sweepFrom_of_ne_nil pc (by simpa using hne)] at h
    rcases List.mem_cons.mp h with rfl | hrest
    · exact Nat.le_of_eq (Line.pc_ofCode pc code).symm
    · exact Nat.le_trans (Nat.le_add_right _ _) (ih hrest)

/-- Each line is that of the word it stands at. -/
theorem exists_of_mem_sweepFrom {pc : Nat} {code : List UInt8} {line : Line}
    (h : line ∈ sweepFrom d o pc code) :
    ∃ k, line = Line.ofCode d o (pc + k) (code.drop (Word.size * k)) := by
  induction pc, code using sweepFrom.induct d o with
  | case1 pc code hnil =>
    rw [List.isEmpty_iff.mp hnil, sweepFrom_nil] at h
    cases h
  | case2 pc code hne first ih =>
    rw [sweepFrom_of_ne_nil pc (by simpa using hne)] at h
    rcases List.mem_cons.mp h with rfl | hrest
    · exact ⟨0, rfl⟩
    · obtain ⟨k, hk⟩ := ih hrest
      refine ⟨first.words + k, ?_⟩
      rw [hk, List.drop_drop, ← Nat.mul_add, Nat.add_assoc]

/-- The words of a line end before the next one. -/
theorem pairwise_sweepFrom (d : Decoder) (o : ByteOrder) (pc : Nat) (code : List UInt8) :
    (sweepFrom d o pc code).Pairwise fun l l' => l.pc + l.words ≤ l'.pc := by
  induction pc, code using sweepFrom.induct d o with
  | case1 pc code hnil =>
    rw [List.isEmpty_iff.mp hnil, sweepFrom_nil]
    exact .nil
  | case2 pc code hne first ih =>
    rw [sweepFrom_of_ne_nil pc (by simpa using hne), List.pairwise_cons]
    refine ⟨fun line hline => ?_, ih⟩
    rw [Line.pc_ofCode]
    exact le_pc_of_mem_sweepFrom hline

/-- A listing has one line for each word at which an instruction can be decoded. -/
theorem filter_sweepFrom (pc : Nat) (code : List UInt8) {k : Nat} {slot : Slot}
    (h : d.decode o (code.drop (Word.size * k)) = .ok slot) :
    (sweepFrom d o pc code).filter (·.pc == pc + k) =
      [Line.ofCode d o (pc + k) (code.drop (Word.size * k))] := by
  induction pc, code using sweepFrom.induct d o generalizing k with
  | case1 pc code hnil =>
    obtain ⟨f, hf⟩ := decode_nil (d := d) (o := o)
    rw [List.isEmpty_iff.mp hnil, List.drop_nil, hf] at h
    cases h
  | case2 pc code hne first =>
    rename_i ih
    have hfirst : first.pc = pc := Line.pc_ofCode pc code
    have hsweep : sweepFrom d o pc code =
        first :: sweepFrom d o (pc + first.words) (code.drop (Word.size * first.words)) :=
      sweepFrom_of_ne_nil pc (by simpa using hne)
    rw [hsweep, List.filter_cons]
    by_cases hzero : k = 0
    · subst hzero
      -- all lines after the first stand behind it
      have hrest : (sweepFrom d o (pc + first.words)
          (code.drop (Word.size * first.words))).filter (·.pc == pc + 0) = [] := by
        rw [List.filter_eq_nil_iff]
        intro line hline
        have hle := le_pc_of_mem_sweepFrom hline
        have hpos : 0 < first.words := Line.words_pos d o pc code
        rw [beq_iff_eq]
        omega
      rw [if_pos (by rw [beq_iff_eq, hfirst, Nat.add_zero]), hrest]
      rfl
    · have hbehind : first.words ≤ k := Line.words_le_of_decode h (Nat.pos_of_ne_zero hzero)
      obtain ⟨j, rfl⟩ := Nat.exists_eq_add_of_le hbehind
      have hdrop : code.drop (Word.size * (first.words + j)) =
          (code.drop (Word.size * first.words)).drop (Word.size * j) := by
        rw [List.drop_drop, Nat.mul_add]
      rw [hdrop] at h ⊢
      rw [if_neg (by rw [beq_iff_eq, hfirst]; omega), ← Nat.add_assoc]
      exact ih h

/-! ## Main statement -/

/-- Trace lines whose instructions all stand in a listing, with the same program counter and the
same text. -/
def Listed (lines : List Line) (trace : Array TraceLine) : Prop :=
  ∀ pc i, .insn pc i ∈ trace →
    ∃ line ∈ lines, line.pc = pc ∧ (TraceLine.insn pc i).text = line.render false

theorem exists_line {code : List UInt8} {pc : Nat} {slot : Slot}
    (h : d.decode o (code.drop (Word.size * pc)) = .ok slot) :
    ∃ line, (sweep d o code).filter (·.pc == pc) = [line] ∧
      line.words = slot.words ∧ line.text = slot.insn.text := by
  have hfilter := filter_sweepFrom 0 code h
  rw [Nat.zero_add, Line.ofCode_of_ok h] at hfilter
  exact ⟨_, hfilter, rfl, rfl⟩

theorem eq_ofCode_of_mem_sweep {code : List UInt8} {line : Line} (h : line ∈ sweep d o code) :
    line = Line.ofCode d o line.pc (code.drop (Word.size * line.pc)) := by
  obtain ⟨k, hk⟩ := exists_of_mem_sweepFrom h
  rw [Nat.zero_add] at hk
  rw [hk, Line.pc_ofCode]

theorem words_pos_of_mem_sweep {code : List UInt8} {line : Line} (h : line ∈ sweep d o code) :
    0 < line.words := by
  rw [eq_ofCode_of_mem_sweep h]
  exact Line.words_pos d o _ _

theorem ascending_sweep (d : Decoder) (o : ByteOrder) (code : List UInt8) :
    (sweep d o code).Pairwise fun l l' => l.pc < l'.pc := by
  refine (pairwise_sweepFrom d o 0 code).imp_of_mem fun {l l'} hl _ hle => ?_
  have hpos := words_pos_of_mem_sweep hl
  omega

/-- No line stands at a later word of another. -/
theorem eq_of_mem_sweep {code : List UInt8} {l l' : Line} (hl : l ∈ sweep d o code)
    (hl' : l' ∈ sweep d o code) (hle : l.pc ≤ l'.pc) (hlt : l'.pc < l.pc + l.words) : l' = l := by
  have hpos := words_pos_of_mem_sweep hl'
  have hsymm : Std.Symm fun k k' : Line => k.pc + k.words ≤ k'.pc ∨ k'.pc + k'.words ≤ k.pc :=
    ⟨fun _ _ h => h.symm⟩
  have hapart : (sweep d o code).Pairwise fun k k' =>
      k.pc + k.words ≤ k'.pc ∨ k'.pc + k'.words ≤ k.pc :=
    (pairwise_sweepFrom d o 0 code).imp .inl
  by_contra hne
  have hcases := hapart.forall hl hl' (Ne.symm hne)
  omega

namespace Machine

variable {σ : Type}

theorem Holds.listed {m : Machine} {code : List UInt8} (hm : m.Holds o code) {t : Trace}
    {lines : List TraceLine} (h : m.Decoded d lines) :
    Listed (sweep d o code) (lines.filter t.takes).toArray := by
  intro pc i hmem
  have hoffered : .insn pc i ∈ lines := (List.mem_filter.mp (List.mem_toArray.mp hmem)).1
  obtain ⟨slot, hd, rfl⟩ := h pc i hoffered
  rw [hm.fetch d pc] at hd
  obtain ⟨line, hfilter, -, htext⟩ := exists_line hd
  have hline : line ∈ (sweep d o code).filter (·.pc == pc) := by
    rw [hfilter]
    exact List.mem_singleton_self line
  obtain ⟨hmem', hpc⟩ := List.mem_filter.mp hline
  have hpc : line.pc = pc := beq_iff_eq.mp hpc
  refine ⟨line, hmem', hpc, ?_⟩
  rw [TraceLine.text, Line.render, hpc, htext]
  rfl

/-- A listing shows what is executed. Wherever an instruction can be decoded, the listing has exactly
one line, with the words and the text of that instruction. Whatever a machine that holds the section
executes, from whichever word it starts, by single steps or by a run: every instruction line that
its trace gains is a line of the listing. And a trace that takes instruction lines gains one for
every instruction that a step decodes. -/
theorem listing_shows_execution (d : Decoder) (o : ByteOrder) (code : List UInt8) :
    (∀ pc slot, d.decode o (code.drop (Word.size * pc)) = .ok slot →
      ∃ line, (sweep d o code).filter (·.pc == pc) = [line] ∧
        line.words = slot.words ∧ line.text = slot.insn.text) ∧
    ∀ (env : Env σ) (m : Machine) (t : Trace), m.Holds o code → env.trace = some t →
      (∀ n env' m', Steps d n env m env' m' →
        ∃ new, (step d env' m').env.trace = some { t with lines := t.lines ++ new } ∧
          Listed (sweep d o code) new ∧
          ∀ slot, m'.state = .running → m'.fetch d m'.pc = .ok slot → t.insns = true →
            .insn m'.pc slot.insn ∈ new) ∧
      ∃ new, (run d env m).env.trace = some { t with lines := t.lines ++ new } ∧
        Listed (sweep d o code) new := by
  refine ⟨fun pc slot h => exists_line h, fun env m t hm ht => ⟨?_, ?_⟩⟩
  · intro n env' m' h
    obtain ⟨lines, htrace, hlines⟩ := h.trace_step
    refine ⟨((lines ++ offered d env' m').filter t.takes).toArray, ?_, hm.listed hlines, ?_⟩
    · rw [htrace, ht, Option.map_some, Trace.addAll_eq]
    · intro slot hrunning hd hinsns
      rw [List.mem_toArray, List.mem_filter]
      exact ⟨List.mem_append_right lines (mem_offered hrunning hd), hinsns⟩
  · obtain ⟨lines, htrace, hlines⟩ := trace_run d env m
    refine ⟨(lines.filter t.takes).toArray, ?_, hm.listed hlines⟩
    rw [htrace, ht, Option.map_some, Trace.addAll_eq]

/-- A wide load whose immediate holds the opcode of an exit in both halves, and an exit behind it. -/
def wideThenExit : List UInt8 :=
  [0x18, 0, 0, 0, 0x95, 0, 0, 0, 0, 0, 0, 0, 0x95, 0, 0, 0, 0x95, 0, 0, 0, 0, 0, 0, 0]

/-- The exit has its one line at word two, and a run that is traced shows only lines of the
listing. -/
theorem listing_shows_execution_wide :
    (∃ line, (sweep {} .little wideThenExit).filter (·.pc == 2) = [line] ∧ line.text = "exit") ∧
      ∃ new,
        (run {} ({ trace := some ⟨true, false, #[]⟩ } : Env Unit)
          ((Machine.new { stackSize := 8 }).load wideThenExit)).env.trace =
            some ⟨true, false, #[] ++ new⟩ ∧
        Listed (sweep {} .little wideThenExit) new := by
  obtain ⟨hlines, htraces⟩ := @listing_shows_execution Unit {} .little wideThenExit
  have hdecode : Decoder.decode {} .little (wideThenExit.drop (Word.size * 2)) =
      .ok { insn := { op := .exit, opcode := 0x95, dst := 0, src := 0, off := 0, imm := 0 }
            wide := false } := by rfl
  obtain ⟨line, hfilter, -, htext⟩ := hlines 2 _ hdecode
  refine ⟨⟨line, hfilter, htext⟩, ?_⟩
  exact (htraces _ _ ⟨true, false, #[]⟩ (holds_load _ _) rfl).2

end Machine

end Ebpf
