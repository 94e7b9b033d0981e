/-
  What the byte order of a machine has to do with its programs: nothing, apart
  from the bytes themselves. Every field of an instruction word is laid out
  differently in the two orders, and decoding undoes the difference. What is
  left of it is in the faults and traps, which quote bytes; `withoutBytes`
  forgets the quotations.

  `byte_order_isolated`: the images of one program in two orders decode to the
  same instructions, and machines that hold them stay alike for as long as no
  instruction reads or writes more than a single byte at a time.
-/
import Ebpf.Proofs.Atomicity
import Ebpf.Proofs.Codec
import Ebpf.Proofs.Lockstep
import Ebpf.Proofs.Steps

namespace Ebpf

variable {σ σ' : Type}

/-! ## Quoted bytes -/

/-- A fault without the bytes that it quotes. -/
def Fault.withoutBytes : Fault → Fault
  | .badContinuation _ => .badContinuation []
  | f => f

/-- A trap without the bytes that it quotes; whether there was a word to quote is still told. -/
def Trap.withoutBytes (t : Trap) : Trap :=
  { t with word := t.word.map fun _ => [], fault := t.fault.withoutBytes }

/-! ## Decoding images -/

/-- An image decodes alike in either order, up to the bytes that a fault quotes. -/
theorem decode_assemble (d : Decoder) {words : List Word} (hfit : ∀ w ∈ words, w.Fits)
    (o o' : ByteOrder) :
    (d.decode o (Word.assemble o words)).mapError Fault.withoutBytes =
      (d.decode o' (Word.assemble o' words)).mapError Fault.withoutBytes := by
  match words, hfit with
  | [], _ => rfl
  | w :: ws, hfit =>
    have hw := hfit w List.mem_cons_self
    unfold Decoder.decode
    simp only [Word.assemble_cons, hw.read?_toBytes, List.length_append, Word.length_toBytes,
      Word.length_assemble]
    match ws, hfit with
    | [], _ => rfl
    | next :: rest, hfit =>
      have hnext := hfit next (List.mem_cons_of_mem w List.mem_cons_self)
      simp only [Word.assemble_cons, hnext.read?_toBytes]
      split
      · rfl
      · rfl
      · split
        · rfl
        · split
          · split
            · rfl
            · rfl
          · rfl

theorem decode_drop_assemble (d : Decoder) {words : List Word} (hfit : ∀ w ∈ words, w.Fits)
    (o o' : ByteOrder) (i : Nat) :
    (d.decode o ((Word.assemble o words).drop (Word.size * i))).mapError Fault.withoutBytes =
      (d.decode o' ((Word.assemble o' words).drop (Word.size * i))).mapError
        Fault.withoutBytes := by
  rw [Word.drop_assemble, Word.drop_assemble]
  exact decode_assemble d (fun w hw => hfit w (List.mem_of_mem_drop hw)) o o'

/-! ## Instructions without a byte order -/

/-- The operations whose effect does not depend on the byte order: arithmetic, jumps, the exit, and
accesses to a single byte. -/
def Op.OrderFree : Op → Prop
  | .alu .. | .loadImm64 | .ja | .jmp .. | .exit | .load .byte | .store .byte _ => True
  | _ => False

theorem ByteOrder.write_one (o o' : ByteOrder) (v : UInt64) : o.write v 1 = o'.write v 1 := by
  cases o <;> cases o' <;> rfl

/-- One byte stands for the same number in either order. -/
theorem ByteOrder.read_one (o o' : ByteOrder) {bytes : List UInt8} (h : bytes.length ≤ 1) :
    o.read bytes = o'.read bytes := by
  match bytes, h with
  | [], _ => cases o <;> cases o' <;> rfl
  | [b], _ => cases o <;> cases o' <;> rfl

theorem Stack.load_one (s : Stack) (o o' : ByteOrder) (addr : Int64) :
    s.load o addr 1 = s.load o' addr 1 := by
  unfold load read
  split
  · have hlen : (s.bytes.extract addr.toInt.toNat (addr.toInt.toNat + 1)).toList.length ≤ 1 := by
      rw [Array.length_toList, Array.size_extract]
      omega
    exact congrArg Except.ok (o.read_one o' hlen)
  · rfl

namespace Machine

/-- Machines with the same registers and the same stack. -/
structure SameData (m m' : Machine) : Prop where
  regs : m.regs = m'.regs
  stack : m.stack = m'.stack

namespace SameData

variable {m m' : Machine}

theorem writeRegister (h : SameData m m') (r : Reg) (v : UInt64) :
    (m.writeRegister r v).fault? = (m'.writeRegister r v).fault? ∧
      SameData (m.writeRegister r v).machine (m'.writeRegister r v).machine := by
  unfold Machine.writeRegister
  split
  · exact ⟨rfl, h⟩
  · exact ⟨rfl, congrArg (·.put r v) h.regs, h.stack⟩

theorem storeByte (h : SameData m m') (addr : Int64) (v : UInt64) :
    (m.storeCell addr .byte v).fault? = (m'.storeCell addr .byte v).fault? ∧
      SameData (m.storeCell addr .byte v).machine (m'.storeCell addr .byte v).machine := by
  unfold storeCell
  rw [h.stack]
  split
  · refine ⟨rfl, h.regs, ?_⟩
    show Stack.put m'.stack m.config.order _ 1 v = Stack.put m'.stack m'.config.order _ 1 v
    rw [Stack.put, Stack.put, ByteOrder.write_one m.config.order m'.config.order v]
  · exact ⟨rfl, h⟩

theorem loadByte (h : SameData m m') (i : Insn) :
    (m.execLoad i .byte).fault? = (m'.execLoad i .byte).fault? ∧
      SameData (m.execLoad i .byte).machine (m'.execLoad i .byte).machine := by
  have haddr : m.address i.src i.off = m'.address i.src i.off := by
    rw [address, address, h.regs]
  have hload : m.loadCell (m.address i.src i.off) .byte =
      m'.loadCell (m'.address i.src i.off) .byte := by
    rw [loadCell, loadCell, h.stack, haddr]
    exact Stack.load_one _ _ _ _
  unfold execLoad
  rw [hload]
  split
  · exact ⟨rfl, h⟩
  · exact h.writeRegister _ _

theorem operand (h : SameData m m') (i : Insn) (source : Source) (width : Width) :
    m.operand i source width = m'.operand i source width := by
  unfold Machine.operand
  rw [h.regs]

theorem settle {a a' : Attempt} (h : a.fault? = a'.fault? ∧ SameData a.machine a'.machine)
    (env : Env σ) (env' : Env σ') :
    (a.settle env).result = (a'.settle env').result ∧
      SameData (a.settle env).machine (a'.settle env').machine := by
  obtain ⟨hfault, hdata⟩ := h
  rw [machine_settle, machine_settle]
  refine ⟨?_, hdata⟩
  unfold Attempt.settle
  rw [hfault]
  split <;> rfl

/-- Without a byte order, an instruction does to registers and stack what they decide alone. -/
theorem exec (h : SameData m m') {i : Insn} (hop : i.op.OrderFree) (env : Env σ) (env' : Env σ') :
    (Machine.exec env m i).result = (Machine.exec env' m' i).result ∧
      SameData (Machine.exec env m i).machine (Machine.exec env' m' i).machine := by
  unfold Machine.exec
  cases hcase : i.op with
  | alu op width source =>
    dsimp only
    rw [h.regs, h.operand i source width]
    exact settle (h.writeRegister _ _) env env'
  | loadImm64 => exact settle (h.writeRegister _ _) env env'
  | load size =>
    rw [hcase] at hop
    match size, hop with
    | .byte, _ => exact settle (h.loadByte i) env env'
  | store size source =>
    rw [hcase] at hop
    match size, hop with
    | .byte, _ =>
      have haddr : m.address i.dst i.off = m'.address i.dst i.off := by
        rw [address, address, h.regs]
      have hvalue : m.storeOperand i source = m'.storeOperand i source := by
        unfold storeOperand
        rw [h.regs]
      dsimp only
      rw [haddr, hvalue]
      exact settle (h.storeByte _ _) env env'
  | ja | exit => exact ⟨rfl, h⟩
  | jmp cond width source =>
    dsimp only
    rw [h.regs, h.operand i source width]
    exact ⟨rfl, h⟩
  | swap | loadPacket | atomicAdd | call =>
    rw [hcase] at hop
    cases hop

end SameData

/-! ## Twins -/

/-- Machines alike in all but the byte order, each with the image of the same words in its own. -/
structure Twins (o o' : ByteOrder) (words : List Word) (m m' : Machine) : Prop where
  left : m.Holds o (Word.assemble o words)
  right : m'.Holds o' (Word.assemble o' words)
  config : { m.config with order := o' } = m'.config
  pc : m.pc = m'.pc
  regs : m.regs = m'.regs
  stack : m.stack = m'.stack
  state : m.state = m'.state
  steps : m.steps = m'.steps

/-- Machines made and loaded alike are twins. -/
theorem twins_load (o o' : ByteOrder) (words : List Word) (config : Config) :
    Twins o o' words ((Machine.new { config with order := o }).load (Word.assemble o words))
      ((Machine.new { config with order := o' }).load (Word.assemble o' words)) :=
  { left := ⟨rfl, rfl⟩
    right := ⟨rfl, rfl⟩
    config := rfl
    pc := rfl
    regs := rfl
    stack := rfl
    state := rfl
    steps := rfl }

namespace Twins

variable {o o' : ByteOrder} {words : List Word} {m m' : Machine}

/-- Whoever keeps program and configuration has only to keep the rest alike. -/
theorem of_code (h : Twins o o' words m m') {n n' : Machine} (hcode : n.code = m.code)
    (hcode' : n'.code = m'.code) (hpc : n.pc = n'.pc) (hregs : n.regs = n'.regs)
    (hstack : n.stack = n'.stack) (hstate : n.state = n'.state) (hsteps : n.steps = n'.steps) :
    Twins o o' words n n' := by
  have hconfig : n.config = m.config := congrArg Prod.snd hcode
  have hconfig' : n'.config = m'.config := congrArg Prod.snd hcode'
  exact
    { left := h.left.of_code hcode
      right := h.right.of_code hcode'
      config := by rw [hconfig, hconfig', h.config]
      pc := hpc
      regs := hregs
      stack := hstack
      state := hstate
      steps := hsteps }

theorem size_program (h : Twins o o' words m m') : m.program.size = m'.program.size := by
  rw [← Array.length_toList, ← Array.length_toList, h.left.program, h.right.program,
    Word.length_assemble, Word.length_assemble]

/-- Twins fetch the same slot, or are refused one for the same fault. -/
theorem fetch (h : Twins o o' words m m') (hfit : ∀ w ∈ words, w.Fits) (d : Decoder) :
    (∃ slot, m.fetch d m.pc = .ok slot ∧ m'.fetch d m'.pc = .ok slot) ∨
      ∃ f f', m.fetch d m.pc = .error f ∧ m'.fetch d m'.pc = .error f' ∧
        f.withoutBytes = f'.withoutBytes := by
  have hdecode := decode_drop_assemble d hfit o o' m.pc
  rw [← h.left.fetch, ← h.right.fetch, h.pc] at hdecode
  rw [h.pc]
  cases hd : m.fetch d m'.pc with
  | error f =>
    cases hd' : m'.fetch d m'.pc with
    | error f' =>
      rw [hd, hd'] at hdecode
      exact .inr ⟨f, f', rfl, rfl, Except.error.inj hdecode⟩
    | ok slot' =>
      rw [hd, hd'] at hdecode
      cases hdecode
  | ok slot =>
    cases hd' : m'.fetch d m'.pc with
    | error f' =>
      rw [hd, hd'] at hdecode
      cases hdecode
    | ok slot' =>
      rw [hd, hd'] at hdecode
      cases hdecode
      exact .inl ⟨slot, rfl, rfl⟩

theorem trap (h : Twins o o' words m m') {α : Type} {f f' : Fault}
    (hf : f.withoutBytes = f'.withoutBytes) (env : Env σ) (env' : Env σ') :
    (Machine.trap env m f : Outcome σ (Except Trap α)).result.mapError Trap.withoutBytes =
        (Machine.trap env' m' f' : Outcome σ' (Except Trap α)).result.mapError
          Trap.withoutBytes ∧
      Twins o o' words (Machine.trap env m f : Outcome σ (Except Trap α)).machine
        (Machine.trap env' m' f' : Outcome σ' (Except Trap α)).machine := by
  have hstate (m : Machine) (f : Fault) : m.stateAfter f.withoutBytes = m.stateAfter f := by
    cases f <;> rfl
  have hafter : m.stateAfter f = m'.stateAfter f' := by
    rw [← hstate m f, ← hstate m' f', hf]
    unfold stateAfter
    rw [h.state]
  have hword : (m.wordAt? m.pc).map (fun _ => ([] : List UInt8)) =
      (m'.wordAt? m'.pc).map fun _ => [] := by
    rw [wordAt?_eq, wordAt?_eq, h.pc, h.size_program]
    split <;> rfl
  refine ⟨?_, h.of_code rfl rfl h.pc h.regs h.stack hafter h.steps⟩
  show Except.error (Trap.withoutBytes _) = Except.error (Trap.withoutBytes _)
  unfold Trap.withoutBytes
  dsimp only
  rw [hword, hf, h.pc]

theorem advance (h : Twins o o' words m m') (words' : Nat) (flow : Flow) (env : Env σ)
    (env' : Env σ') :
    (Machine.advance env m words' flow).result.mapError Trap.withoutBytes =
        (Machine.advance env' m' words' flow).result.mapError Trap.withoutBytes ∧
      Twins o o' words (Machine.advance env m words' flow).machine
        (Machine.advance env' m' words' flow).machine := by
  have hsteps : m.steps + 1 = m'.steps + 1 := congrArg (· + 1) h.steps
  cases flow with
  | next =>
    have hpc : m.pc + words' = m'.pc + words' := congrArg (· + words') h.pc
    exact ⟨rfl, h.of_code rfl rfl hpc h.regs h.stack h.state hsteps⟩
  | branch off =>
    have htarget : m.target off = m'.target off := by rw [target, target, h.pc]
    have hwords : m.programWords = m'.programWords := by
      rw [programWords, programWords, h.size_program]
    have hin : m.InProgram (m.target off) ↔ m'.InProgram (m'.target off) := by
      rw [InProgram, InProgram, htarget, hwords]
    rw [advance_branch, advance_branch]
    by_cases ht : m.InProgram (m.target off)
    · rw [if_pos ht, if_pos (hin.mp ht)]
      have hpc : (m.target off).toNat = (m'.target off).toNat := congrArg Int.toNat htarget
      exact ⟨rfl, h.of_code rfl rfl hpc h.regs h.stack h.state hsteps⟩
    · rw [if_neg ht, if_neg (mt hin.mpr ht), htarget, hwords]
      exact h.trap rfl env env'
  | exit =>
    refine ⟨?_, h.of_code rfl rfl h.pc h.regs h.stack rfl hsteps⟩
    show Except.ok (Status.exited (m.regs.get Reg.result)) = _
    rw [h.regs]
    rfl

/-- An instruction without a byte order leaves twins behind. -/
theorem execAt (h : Twins o o' words m m') {i : Insn} (hop : i.op.OrderFree) (env : Env σ)
    (env' : Env σ') :
    (Machine.execAt env m i).result = (Machine.execAt env' m' i).result ∧
      Twins o o' words (Machine.execAt env m i).machine (Machine.execAt env' m' i).machine := by
  have hdata : SameData m m' := ⟨h.regs, h.stack⟩
  obtain ⟨hresult, hafter⟩ := hdata.exec hop (env.announce m.pc i) (env'.announce m'.pc i)
  have hc := (execAt_effect env m i).confined
  have hc' := (execAt_effect env' m' i).confined
  refine ⟨hresult, h.of_code (code_exec _ m i) (code_exec _ m' i) ?_ hafter.regs hafter.stack ?_ ?_⟩
  · rw [hc, hc', h.pc]
  · rw [hc, hc', h.state]
  · rw [hc, hc', h.steps]

theorem stepSlot (h : Twins o o' words m m') {slot : Slot} (hop : slot.insn.op.OrderFree)
    (env : Env σ) (env' : Env σ') :
    (Machine.stepSlot env m slot).result.mapError Trap.withoutBytes =
        (Machine.stepSlot env' m' slot).result.mapError Trap.withoutBytes ∧
      Twins o o' words (Machine.stepSlot env m slot).machine
        (Machine.stepSlot env' m' slot).machine := by
  obtain ⟨hresult, htwins⟩ := h.execAt hop env env'
  cases he : (Machine.execAt env m slot.insn).result with
  | error f =>
    rw [stepSlot_of_error he, stepSlot_of_error (hresult ▸ he)]
    exact htwins.trap rfl _ _
  | ok flow =>
    rw [stepSlot_of_ok he, stepSlot_of_ok (hresult ▸ he)]
    exact htwins.advance slot.words flow _ _

theorem step (h : Twins o o' words m m') (hfit : ∀ w ∈ words, w.Fits) {d : Decoder}
    (hop : m.ExecutesOnly d Op.OrderFree) (env : Env σ) (env' : Env σ') :
    (Machine.step d env m).result.mapError Trap.withoutBytes =
        (Machine.step d env' m').result.mapError Trap.withoutBytes ∧
      Twins o o' words (Machine.step d env m).machine (Machine.step d env' m').machine := by
  by_cases hm : m.state = .running
  · have hm' : m'.state = .running := h.state ▸ hm
    rcases h.fetch hfit d with ⟨slot, hd, hd'⟩ | ⟨f, f', hd, hd', hf⟩
    · rw [step_running hm hd, step_running hm' hd']
      exact h.stepSlot (hop hm slot hd) env env'
    · rw [step_undecoded hm hd, step_undecoded hm' hd']
      exact h.trap hf env env'
  · have hm' : m'.state ≠ .running := h.state ▸ hm
    rw [step_halted d env hm, step_halted d env' hm', h.state]
    exact h.trap rfl env env'

end Twins

/-! ## Main statement -/

/-- Byte order is isolated. Let the words of a program have register numbers that fit. From every
word on, the images of the program in two orders decode to the same slot or are refused for the same
fault. And twins that hold these images, in whatever surroundings, return the same to every call of
`step` and are still twins after it, for as long as the instructions executed have no byte order.
Faults and traps are compared without the bytes that they quote. -/
theorem byte_order_isolated (d : Decoder) (words : List Word)
    (hfit : ∀ w ∈ words, w.dst < 16 ∧ w.src < 16) (o o' : ByteOrder) :
    (∀ i, (d.decode o ((Word.assemble o words).drop (Word.size * i))).mapError
          Fault.withoutBytes =
        (d.decode o' ((Word.assemble o' words).drop (Word.size * i))).mapError
          Fault.withoutBytes) ∧
      ∀ (env : Env σ) (env' : Env σ') (m m' : Machine), Twins o o' words m m' →
        ∀ n, (∀ k ≤ n, (afterCalls d k env m).2.ExecutesOnly d Op.OrderFree) →
          (answerAfter d n env m).mapError Trap.withoutBytes =
              (answerAfter d n env' m').mapError Trap.withoutBytes ∧
            Twins o o' words (afterCalls d (n + 1) env m).2 (afterCalls d (n + 1) env' m').2 := by
  refine ⟨decode_drop_assemble d hfit o o', ?_⟩
  intro env env' m m' htwins n hkind
  exact lockstep (fun env env' m m' h hop => h.step hfit hop env env') n env env' htwins hkind

/-- `stb [r10-1], 7`, `ldxb r0, [r10-1]` and `exit`. -/
def passByte : List Word :=
  [⟨0x72, 10, 0, -1, 7⟩, ⟨0x71, 0, 10, -1, 0⟩, ⟨0x95, 0, 0, 0, 0⟩]

/-- A machine of eight bytes of stack, loaded with this program in an order. -/
def passingByte (o : ByteOrder) : Machine :=
  (Machine.new { stackSize := 8, order := o }).load (Word.assemble o passByte)

/-- The images of the program differ from the second byte on, and both machines exit with the byte
that went through the stack. -/
theorem byte_order_isolated_passByte :
    (Word.assemble .little passByte).take 2 = [0x72, 0x0a] ∧
      (Word.assemble .big passByte).take 2 = [0x72, 0xa0] ∧
      (answerAfter {} 2 ({} : Env Unit) (passingByte .little)).mapError Trap.withoutBytes =
        .ok (.exited 7) ∧
      (answerAfter {} 2 ({} : Env Unit) (passingByte .big)).mapError Trap.withoutBytes =
        .ok (.exited 7) := by
  have hfit : ∀ w ∈ passByte, w.dst < 16 ∧ w.src < 16 := by decide
  have hkind : ∀ k ≤ 2,
      (afterCalls {} k ({} : Env Unit) (passingByte .little)).2.ExecutesOnly {} Op.OrderFree := by
    intro k hk hm slot hd
    match k, hk with
    | 0, _ | 1, _ | 2, _ =>
      cases hd
      trivial
  have hlittle : (answerAfter {} 2 ({} : Env Unit) (passingByte .little)).mapError
      Trap.withoutBytes = .ok (.exited 7) := rfl
  have hsame := ((byte_order_isolated {} passByte hfit .little .big).2 ({} : Env Unit)
    ({} : Env Unit) _ _ (twins_load .little .big passByte { stackSize := 8 }) 2 hkind).1
  exact ⟨rfl, rfl, hlittle, hsame.symm.trans hlittle⟩

end Machine

end Ebpf
