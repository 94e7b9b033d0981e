/-
  What the assembly text of an instruction tells. A line falls apart at its
  blanks into the mnemonic and the operands, since neither holds a blank. No two
  operations have the same mnemonic, except that arithmetic and jumps leave it
  to the operand whether it is a register or an immediate, and each operand can
  be read off its text. `text_determines_behaviour`: instructions with the same
  text take the same room and do the same to every machine in every
  surroundings. The converse does not hold, and the fields that a line leaves
  out can differ: they are those that execution does not read.
-/
import Ebpf.Proofs.Decode
import Ebpf.Proofs.Numeral
import Ebpf.Insn.Text
import Ebpf.Machine.Exec
import Mathlib.Data.List.Nodup

namespace Ebpf

/-! ## Mnemonics -/

namespace Op

/-- The mnemonic of an operation, with the mark of its width or size. -/
def mnemonic : Op → String
  | .alu op width _ => op.mnemonic ++ width.mark
  | .swap target width => target.mnemonic ++ Text.decimal width.bits
  | .loadImm64 => "lddw"
  | .loadPacket size false => "ldabs" ++ size.letters
  | .loadPacket size true => "ldind" ++ size.letters
  | .load size => "ldx" ++ size.letters
  | .store size .imm => "st" ++ size.letters
  | .store size .reg => "stx" ++ size.letters
  | .atomicAdd size => "xadd" ++ size.letters
  | .ja => "ja"
  | .jmp cond width _ => cond.mnemonic ++ width.mark
  | .call => "call"
  | .exit => "exit"

/-- The operation with another source of its second operand, where the mnemonic
does not say which. -/
def withSource (source : Source) : Op → Op
  | .alu op width _ => .alu op width source
  | .jmp cond width _ => .jmp cond width source
  | op => op

/-- The source of the second operand, where the mnemonic does not say which. -/
def source : Op → Source
  | .alu _ _ source | .jmp _ _ source => source
  | _ => .imm

/-- All operations, up to what the mnemonic does not say. -/
def shapes : List Op :=
  let widths : List Width := [.w32, .w64]
  let alus : List AluOp :=
    [.add, .sub, .mul, .div, .or, .and, .lsh, .rsh, .neg, .mod, .xor, .mov, .arsh]
  let conds : List Cond := [.eq, .ne, .gt, .ge, .lt, .le, .sgt, .sge, .slt, .sle, .set]
  let arithmetic : List Op := alus.flatMap fun op => widths.map fun width => .alu op width .imm
  let jumps : List Op := conds.flatMap fun cond => widths.map fun width => .jmp cond width .imm
  let swaps : List Op := [SwapWidth.b16, .b32, .b64].flatMap fun width =>
    [.swap .little width, .swap .big width]
  let accesses : List Op := [Size.byte, .half, .word, .double].flatMap fun size =>
    [.loadPacket size false, .loadPacket size true, .load size, .store size .imm,
     .store size .reg, .atomicAdd size]
  arithmetic ++ jumps ++ swaps ++ accesses ++ [.loadImm64, .ja, .call, .exit]

theorem withSource_mem_shapes (op : Op) : op.withSource .imm ∈ shapes := by
  cases op with
  | alu op width source =>
    show Op.alu op width .imm ∈ shapes
    cases op <;> cases width <;> decide +kernel
  | jmp cond width source =>
    show Op.jmp cond width .imm ∈ shapes
    cases cond <;> cases width <;> decide +kernel
  | swap target width => cases target <;> cases width <;> decide +kernel
  | loadPacket size indirect => cases size <;> cases indirect <;> decide +kernel
  | store size source => cases size <;> cases source <;> decide +kernel
  | load size | atomicAdd size => cases size <;> decide +kernel
  | loadImm64 | ja | call | exit => decide +kernel

theorem mnemonic_withSource (op : Op) (source : Source) :
    (op.withSource source).mnemonic = op.mnemonic := by
  cases op <;> rfl

theorem nodup_mnemonics : (shapes.map mnemonic).Nodup := by
  decide +kernel

/-- Operations of one mnemonic differ in the source of the second operand only. -/
theorem eq_withSource_of_mnemonic {p q : Op} (h : p.mnemonic = q.mnemonic) :
    q = p.withSource q.source := by
  have hself : q.withSource q.source = q := by cases q <;> rfl
  have htwice (r : Op) : (r.withSource .imm).withSource q.source = r.withSource q.source := by
    cases r <;> rfl
  have hshape : p.withSource .imm = q.withSource .imm := by
    apply List.inj_on_of_nodup_map nodup_mnemonics (withSource_mem_shapes p)
      (withSource_mem_shapes q)
    rw [mnemonic_withSource, mnemonic_withSource, h]
  rw [← htwice p, hshape, htwice q, hself]

end Op

/-! ## Lines and their parts -/

namespace Text

/-- A text without blanks. -/
def Spaceless (s : String) : Prop :=
  ' ' ∉ s.toList

instance (s : String) : Decidable (Spaceless s) :=
  inferInstanceAs (Decidable (' ' ∉ s.toList))

theorem Spaceless.append {s t : String} (hs : Spaceless s) (ht : Spaceless t) :
    Spaceless (s ++ t) := by
  unfold Spaceless
  rw [String.toList_append, List.mem_append, not_or]
  exact ⟨hs, ht⟩

theorem spaceless_toDigits {b : Nat} (hb : 1 < b) (hb' : b ≤ 16) (n : Nat) :
    Spaceless (String.ofList (Nat.toDigits b n)) := by
  intro h
  rw [String.toList_ofList] at h
  obtain ⟨d, hd, hc⟩ := exists_digit_of_mem_toDigits hb h
  have hdigits : ∀ d, d < 16 → ' ' ≠ Nat.digitChar d := by decide
  exact hdigits d (by omega) hc

theorem spaceless_decimal (n : Nat) : Spaceless (decimal n) :=
  spaceless_toDigits (by decide) (by decide) n

theorem spaceless_hex0x (n : Nat) : Spaceless (hex0x n) :=
  .append (by decide) (spaceless_toDigits (by decide) (by decide) n)

theorem spaceless_integer (i : Int) : Spaceless (integer i) := by
  unfold integer
  split
  · exact .append (by decide) (spaceless_decimal _)
  · exact spaceless_decimal _

theorem spaceless_signed (i : Int) : Spaceless (signed i) := by
  unfold signed
  split
  · exact .append (by decide) (spaceless_decimal _)
  · exact .append (by decide) (spaceless_decimal _)

/-- Texts without blanks can be read off the line that they make. -/
theorem intercalate_inj {ss ts : List String} (hs : ∀ s ∈ ss, Spaceless s)
    (ht : ∀ t ∈ ts, Spaceless t) (hss : ss ≠ []) (hts : ts ≠ [])
    (h : " ".intercalate ss = " ".intercalate ts) : ss = ts := by
  have hsplit {us : List String} (hu : ∀ u ∈ us, Spaceless u) (hus : us ≠ []) :
      (" ".intercalate us).toList.splitOn ' ' = us.map String.toList := by
    rw [String.toList_intercalate]
    apply List.splitOn_intercalate
    · intro cs hcs
      obtain ⟨u, hmem, rfl⟩ := List.mem_map.mp hcs
      exact hu u hmem
    · exact fun hnil => hus (List.map_eq_nil_iff.mp hnil)
  have hmap : ss.map String.toList = ts.map String.toList := by
    rw [← hsplit hs hss, ← hsplit ht hts, h]
  exact List.map_inj_right (fun _ _ => String.toList_inj.mp) |>.mp hmap

/-- A comma divides the operands. -/
theorem pair_inj {a b c d : String} (h : [a ++ ",", b] = [c ++ ",", d]) : a = c ∧ b = d := by
  obtain ⟨hfirst, hrest⟩ := List.cons_eq_cons.mp h
  exact ⟨(String.append_left_inj ",").mp hfirst, List.singleton_inj.mp hrest⟩

end Text

namespace Reg

theorem spaceless_name (r : Reg) : Text.Spaceless r.name :=
  .append (by decide) (Text.spaceless_decimal _)

theorem name_inj {r s : Reg} (h : r.name = s.name) : r = s :=
  Fin.ext (Text.decimal_inj ((String.append_right_inj _).mp h))

end Reg

theorem Op.spaceless_mnemonic (op : Op) : Text.Spaceless op.mnemonic := by
  have hletters (size : Size) : Text.Spaceless size.letters := by cases size <;> decide
  have hmark (width : Width) : Text.Spaceless width.mark := by cases width <;> decide
  cases op with
  | alu op width source => exact .append (by cases op <;> decide) (hmark width)
  | jmp cond width source => exact .append (by cases cond <;> decide) (hmark width)
  | swap target width => exact .append (by cases target <;> decide) (Text.spaceless_decimal _)
  | loadPacket size indirect =>
    cases indirect with
    | false | true => exact .append (by decide) (hletters size)
  | store size source =>
    cases source with
    | reg | imm => exact .append (by decide) (hletters size)
  | load size | atomicAdd size => exact .append (by decide) (hletters size)
  | loadImm64 | ja | call | exit => decide

namespace Insn

/-- The operands in the line of an operation, each but the last with the comma after it. -/
def operands (i : Insn) : Op → List String
  | .alu .neg _ _ => [i.dst.name]
  | .alu _ _ source => [i.dst.name ++ ",", i.operandText source]
  | .swap _ _ => [i.dst.name]
  | .loadImm64 => [i.dst.name ++ ",", Text.hex0x i.imm.toUInt64.toNat]
  | .loadPacket _ false => [Text.integer i.imm.toInt]
  | .loadPacket _ true => [i.src.name ++ ",", Text.integer i.imm.toInt]
  | .load _ => [i.dst.name ++ ",", cellText i.src i.off]
  | .store _ source => [cellText i.dst i.off ++ ",", i.operandText source]
  | .atomicAdd _ => [cellText i.dst i.off ++ ",", i.src.name]
  | .ja => [Text.signed i.off.toInt]
  | .jmp _ _ source =>
    [i.dst.name ++ ",", i.operandText source ++ ",", Text.signed i.off.toInt]
  | .call => [Text.integer i.imm.toInt]
  | .exit => []

theorem operands_alu (i : Insn) {op : AluOp} (hneg : op ≠ .neg) (width : Width)
    (source : Source) :
    i.operands (.alu op width source) = [i.dst.name ++ ",", i.operandText source] := by
  cases op with
  | neg => exact absurd rfl hneg
  | _ => rfl

theorem text_eq_intercalate (i : Insn) :
    i.text = " ".intercalate (i.op.mnemonic :: i.operands i.op) := by
  unfold text
  split <;>
    simp [*, operands, Op.mnemonic, AluOp.mnemonic, operandText, String.append_assoc]

/-! ## Operands -/

theorem spaceless_operandText (i : Insn) (source : Source) :
    Text.Spaceless (i.operandText source) := by
  cases source with
  | reg => exact i.src.spaceless_name
  | imm => exact Text.spaceless_integer _

theorem spaceless_cellText (base : Reg) (off : Int16) : Text.Spaceless (cellText base off) := by
  have hopen : Text.Spaceless "[" := by decide
  have hclose : Text.Spaceless "]" := by decide
  exact ((hopen.append base.spaceless_name).append (Text.spaceless_signed _)).append hclose

theorem spaceless_operands (i : Insn) (op : Op) : ∀ s ∈ i.operands op, Text.Spaceless s := by
  have hcomma : Text.Spaceless "," := by decide
  unfold operands
  split <;> simp [Text.Spaceless.append, hcomma, Reg.spaceless_name, spaceless_cellText,
    spaceless_operandText, Text.spaceless_integer, Text.spaceless_signed, Text.spaceless_hex0x]

/-- Instructions with the same text have the same mnemonic and the same operands. -/
theorem parts_eq_of_text {i j : Insn} (h : i.text = j.text) :
    i.op.mnemonic = j.op.mnemonic ∧ i.operands i.op = j.operands j.op := by
  have hspaceless (k : Insn) : ∀ s ∈ k.op.mnemonic :: k.operands k.op, Text.Spaceless s := by
    intro s hs
    rcases List.mem_cons.mp hs with rfl | hs
    · exact k.op.spaceless_mnemonic
    · exact k.spaceless_operands k.op s hs
  rw [text_eq_intercalate, text_eq_intercalate] at h
  have hparts := Text.intercalate_inj (hspaceless i) (hspaceless j) (List.cons_ne_nil _ _)
    (List.cons_ne_nil _ _) h
  exact List.cons_eq_cons.mp hparts

theorem off_eq_of_signed {i j : Insn} (h : Text.signed i.off.toInt = Text.signed j.off.toInt) :
    i.off = j.off :=
  Int16.toInt_inj.mp (Text.signed_inj h)

theorem imm_eq_of_integer {i j : Insn}
    (h : Text.integer i.imm.toInt = Text.integer j.imm.toInt) : i.imm = j.imm :=
  Int64.toInt_inj.mp (Text.integer_inj h)

theorem imm_eq_of_hex0x {i j : Insn}
    (h : Text.hex0x i.imm.toUInt64.toNat = Text.hex0x j.imm.toUInt64.toNat) : i.imm = j.imm := by
  have hbits := UInt64.toNat_inj.mp (Text.hex0x_inj h)
  have hsigned := congrArg UInt64.toInt64 hbits
  rwa [Int64.toInt64_toUInt64, Int64.toInt64_toUInt64] at hsigned

theorem cellText_inj {b c : Reg} {x y : Int16} (h : cellText b x = cellText c y) :
    b = c ∧ x = y := by
  unfold cellText Reg.name at h
  simp only [String.append_assoc, String.append_right_inj] at h
  obtain ⟨hbase, hoff⟩ := Text.decimal_append_inj (Text.undigited_signed_append _ _)
    (Text.undigited_signed_append _ _) h
  have hint := Text.signed_inj ((String.append_left_inj _).mp hoff)
  exact ⟨Fin.ext hbase, Int16.toInt_inj.mp hint⟩

/-- Two instructions take their second operand from the same place, be it a
register or the immediate. -/
inductive SameOperand (i j : Insn) : Source → Source → Prop
  | reg (h : i.src = j.src) : SameOperand i j .reg .reg
  | imm (h : i.imm = j.imm) : SameOperand i j .imm .imm

theorem name_ne_integer (r : Reg) (n : Int) : r.name ≠ Text.integer n := by
  unfold Text.integer
  split
  · exact Text.append_ne_append rfl rfl (by decide) _ _
  · have hname : Text.Undigited r.name := Text.undigited_append rfl (by decide) _
    exact hname.ne_decimal _

theorem sameOperand_of_operandText {i j : Insn} {s t : Source}
    (h : i.operandText s = j.operandText t) : SameOperand i j s t := by
  cases s with
  | reg =>
    cases t with
    | reg => exact .reg (Reg.name_inj h)
    | imm => exact absurd h (name_ne_integer _ _)
  | imm =>
    cases t with
    | reg => exact absurd h.symm (name_ne_integer _ _)
    | imm => exact .imm (imm_eq_of_integer h)

/-! ## What a line says -/

/-- `p` and `q` are one operation, up to the source of an operand, and the
instructions `i` and `j` agree in the fields that it reads. -/
inductive Agree (i j : Insn) : (p q : Op) → Prop
  | neg {width : Width} {s t : Source} (hdst : i.dst = j.dst) :
      Agree i j (.alu .neg width s) (.alu .neg width t)
  | alu {op : AluOp} {width : Width} {s t : Source} (hdst : i.dst = j.dst)
      (hoperand : SameOperand i j s t) : Agree i j (.alu op width s) (.alu op width t)
  | swap {target : ByteOrder} {width : SwapWidth} (hdst : i.dst = j.dst) :
      Agree i j (.swap target width) (.swap target width)
  | loadImm64 (hdst : i.dst = j.dst) (himm : i.imm = j.imm) : Agree i j .loadImm64 .loadImm64
  | loadAbsolute {size : Size} (himm : i.imm = j.imm) :
      Agree i j (.loadPacket size false) (.loadPacket size false)
  | loadIndirect {size : Size} (hsrc : i.src = j.src) (himm : i.imm = j.imm) :
      Agree i j (.loadPacket size true) (.loadPacket size true)
  | load {size : Size} (hdst : i.dst = j.dst) (hsrc : i.src = j.src) (hoff : i.off = j.off) :
      Agree i j (.load size) (.load size)
  | store {size : Size} {source : Source} (hdst : i.dst = j.dst) (hoff : i.off = j.off)
      (hoperand : SameOperand i j source source) :
      Agree i j (.store size source) (.store size source)
  | atomicAdd {size : Size} (hdst : i.dst = j.dst) (hoff : i.off = j.off) (hsrc : i.src = j.src) :
      Agree i j (.atomicAdd size) (.atomicAdd size)
  | ja (hoff : i.off = j.off) : Agree i j .ja .ja
  | jmp {cond : Cond} {width : Width} {s t : Source} (hdst : i.dst = j.dst)
      (hoperand : SameOperand i j s t) (hoff : i.off = j.off) :
      Agree i j (.jmp cond width s) (.jmp cond width t)
  | call (himm : i.imm = j.imm) : Agree i j .call .call
  | exit : Agree i j .exit .exit

/-- The operands of a line show every field that the operation reads. -/
theorem agree_of_operands {i j : Insn} {p : Op} {source : Source}
    (h : i.operands p = j.operands (p.withSource source)) :
    Agree i j p (p.withSource source) := by
  cases p with
  | alu op width s =>
    by_cases hneg : op = .neg
    · subst hneg
      exact .neg (Reg.name_inj (List.singleton_inj.mp h))
    · rw [Op.withSource, operands_alu _ hneg, operands_alu _ hneg] at h
      obtain ⟨hdst, hoperand⟩ := Text.pair_inj h
      exact .alu (Reg.name_inj hdst) (sameOperand_of_operandText hoperand)
  | swap target width => exact .swap (Reg.name_inj (List.singleton_inj.mp h))
  | loadImm64 =>
    obtain ⟨hdst, himm⟩ := Text.pair_inj h
    exact .loadImm64 (Reg.name_inj hdst) (imm_eq_of_hex0x himm)
  | loadPacket size indirect =>
    cases indirect with
    | false => exact .loadAbsolute (imm_eq_of_integer (List.singleton_inj.mp h))
    | true =>
      obtain ⟨hsrc, himm⟩ := Text.pair_inj h
      exact .loadIndirect (Reg.name_inj hsrc) (imm_eq_of_integer himm)
  | load size =>
    obtain ⟨hdst, hcell⟩ := Text.pair_inj h
    obtain ⟨hsrc, hoff⟩ := cellText_inj hcell
    exact .load (Reg.name_inj hdst) hsrc hoff
  | store size s =>
    obtain ⟨hcell, hoperand⟩ := Text.pair_inj h
    obtain ⟨hdst, hoff⟩ := cellText_inj hcell
    exact .store hdst hoff (sameOperand_of_operandText hoperand)
  | atomicAdd size =>
    obtain ⟨hcell, hsrc⟩ := Text.pair_inj h
    obtain ⟨hdst, hoff⟩ := cellText_inj hcell
    exact .atomicAdd hdst hoff (Reg.name_inj hsrc)
  | ja => exact .ja (off_eq_of_signed (List.singleton_inj.mp h))
  | jmp cond width s =>
    obtain ⟨hfirst, hrest⟩ := List.cons_eq_cons.mp h
    obtain ⟨hoperand, hoff⟩ := Text.pair_inj hrest
    have hdst := (String.append_left_inj ",").mp hfirst
    exact .jmp (Reg.name_inj hdst) (sameOperand_of_operandText hoperand) (off_eq_of_signed hoff)
  | call => exact .call (imm_eq_of_integer (List.singleton_inj.mp h))
  | exit => exact .exit

/-- Instructions with the same text do the same, on the same operands. -/
theorem agree_of_text {i j : Insn} (h : i.text = j.text) : Agree i j i.op j.op := by
  obtain ⟨hmnemonic, hoperands⟩ := parts_eq_of_text h
  have hop := Op.eq_withSource_of_mnemonic hmnemonic
  rw [hop] at hoperands ⊢
  exact agree_of_operands hoperands

end Insn

/-! ## Behaviour -/

namespace Machine

variable {σ : Type} {i j : Insn}

theorem operand_congr {s t : Source} (h : i.SameOperand j s t) (m : Machine) (width : Width) :
    m.operand i s width = m.operand j t width := by
  cases h with
  | reg hsrc => rw [operand, operand, hsrc]
  | imm himm => cases width <;> rw [operand, operand, himm]

theorem storeOperand_congr {s t : Source} (h : i.SameOperand j s t) (m : Machine) :
    m.storeOperand i s = m.storeOperand j t := by
  cases h with
  | reg hsrc => rw [storeOperand, storeOperand, hsrc]
  | imm himm => rw [storeOperand, storeOperand, himm]

/-- Execution reads no other fields. -/
theorem exec_congr {p q : Op} (h : i.Agree j p q) (hp : i.op = p) (hq : j.op = q) (env : Env σ)
    (m : Machine) : exec env m i = exec env m j := by
  cases h with
  | neg hdst =>
    simp only [exec, hp, hq, hdst]
    -- negation does not look at its second operand
    rfl
  | alu hdst hoperand => simp only [exec, hp, hq, hdst, operand_congr hoperand]
  | swap hdst => simp only [exec, hp, hq, hdst]
  | loadImm64 hdst himm => simp only [exec, hp, hq, hdst, himm]
  | loadAbsolute himm =>
    simp only [exec, hp, hq, execLoadPacket, packetAddress, himm, Bool.false_eq_true, if_false]
  | loadIndirect hsrc himm => simp only [exec, hp, hq, execLoadPacket, packetAddress, hsrc, himm]
  | load hdst hsrc hoff => simp only [exec, hp, hq, execLoad, hdst, hsrc, hoff]
  | store hdst hoff hoperand =>
    simp only [exec, hp, hq, hdst, hoff, storeOperand_congr hoperand]
  | atomicAdd hdst hoff hsrc => simp only [exec, hp, hq, execAtomicAdd, hdst, hoff, hsrc]
  | ja hoff => simp only [exec, hp, hq, hoff]
  | jmp hdst hoperand hoff => simp only [exec, hp, hq, hdst, hoff, operand_congr hoperand]
  | call himm => simp only [exec, hp, hq, execCall, himm]
  | exit => simp only [exec, hp, hq]

end Machine

theorem Insn.Agree.isWide_eq {i j : Insn} {p q : Op} (h : i.Agree j p q) (d : Decoder) :
    d.isWide p = d.isWide q := by
  cases h <;> rfl

/-- Instructions with the same text take the same number of words, and executing
them comes to the same on every machine and in all surroundings. -/
theorem text_determines_behaviour {d : Decoder} {o : ByteOrder} {bytes₁ bytes₂ : List UInt8}
    {s₁ s₂ : Slot} (h₁ : d.decode o bytes₁ = .ok s₁) (h₂ : d.decode o bytes₂ = .ok s₂)
    (ht : s₁.insn.text = s₂.insn.text) :
    s₁.words = s₂.words ∧ ∀ (σ : Type) (env : Env σ) (m : Machine),
      Machine.exec env m s₁.insn = Machine.exec env m s₂.insn := by
  have hagree := Insn.agree_of_text ht
  refine ⟨?_, fun σ env m => Machine.exec_congr hagree rfl rfl env m⟩
  have hwide : s₁.wide = s₂.wide := by
    rw [(decode_effect d o bytes₁).wide_eq_isWide h₁, (decode_effect d o bytes₂).wide_eq_isWide h₂,
      hagree.isWide_eq d]
  rw [Slot.words, Slot.words, hwide]

/-- A negation with an operand that its line does not show. -/
theorem text_determines_behaviour_neg :
    ∃ s₁ s₂ : Slot,
      Decoder.decode { } .little [0x87, 0x03, 0, 0, 0, 0, 0, 0] = .ok s₁ ∧
      Decoder.decode { } .little [0x87, 0x23, 5, 0, 1, 0, 0, 0x80] = .ok s₂ ∧
      s₁.insn ≠ s₂.insn ∧ s₁.insn.text = s₂.insn.text ∧ s₁.words = s₂.words ∧
      ∀ (σ : Type) (env : Env σ) (m : Machine),
        Machine.exec env m s₁.insn = Machine.exec env m s₂.insn := by
  have h₁ : Decoder.decode { } .little [0x87, 0x03, 0, 0, 0, 0, 0, 0] = .ok
      { insn := { op := .alu .neg .w64 .imm, opcode := 0x87, dst := 3, src := 0, off := 0,
                  imm := 0 },
        wide := false } := by decide
  have h₂ : Decoder.decode { } .little [0x87, 0x23, 5, 0, 1, 0, 0, 0x80] = .ok
      { insn := { op := .alu .neg .w64 .imm, opcode := 0x87, dst := 3, src := 2, off := 5,
                  imm := -2147483647 },
        wide := false } := by decide
  exact ⟨_, _, h₁, h₂, by decide, rfl, text_determines_behaviour h₁ h₂ rfl⟩

end Ebpf
