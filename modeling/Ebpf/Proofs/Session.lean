/-
  Sessions: anything an owner of a machine may do to it, in any order. A session
  starts from a new machine and goes on by loads, resets, single steps, runs and
  direct writes to registers and stack; each of them may fail.

  `Sound` is the invariant of sessions: the frame register holds the stack's
  size, the stack has the configured size, and the program counter stands inside
  the program or right behind it. `session_sound` says that it holds at the end
  of every session and wherever a step is taken on the way, and that the
  arithmetic of such a step stays within 64 bits.
-/
import Ebpf.Proofs.Run
import Ebpf.Proofs.StepFaults

namespace Ebpf

variable {σ : Type}

/-! ## Sessions -/

/-- A call of one of the two drivers of a machine, with what it is given. -/
inductive Drive (σ : Type) where
  | step (d : Decoder) (env : Env σ)
  | run (d : Decoder) (env : Env σ)

namespace Drive

/-- The surroundings that a call is given. -/
def env : Drive σ → Env σ
  | step _ env => env
  | run _ env => env

/-- The machine after a call. -/
def after (m : Machine) : Drive σ → Machine
  | step d env => (Machine.step d env m).machine
  | run d env => (Machine.run d env m).machine

/-- The machines that a call comes by before it is over, each with the decoder and the surroundings
at that point. All steps of the call are taken at such machines. -/
inductive Visits (m : Machine) : Drive σ → Decoder → Env σ → Machine → Prop
  | step (d : Decoder) (env : Env σ) : Visits m (.step d env) d env m
  | run (d : Decoder) (env : Env σ) (n : Nat)
      (hn : (Machine.runFor (Machine.step d) n env m).result = none) :
      Visits m (.run d env) d (Machine.runFor (Machine.step d) n env m).env
        (Machine.runFor (Machine.step d) n env m).machine

end Drive

/-- What an owner may do to a machine. -/
inductive Action (σ : Type) where
  | load (program : List UInt8)
  /-- Load what a source yields, if it can be read to its end. -/
  | loadFrom (source : Except String (List UInt8))
  | reset
  | drive (c : Drive σ)
  | writeRegister (n : UInt8) (v : UInt64)
  | writeStack (addr : Int64) (bytes : List UInt8)

namespace Action

/-- The machine after an action. A load, a register write or a stack write that fails leaves it as
it was. -/
def apply (m : Machine) : Action σ → Machine
  | load program => m.load program
  | loadFrom source =>
    match source with
    | .ok program => m.load program
    | .error _ => m
  | reset => m.reset
  | drive c => c.after m
  | writeRegister n v =>
    match m.regs.write n v with
    | .ok regs => { m with regs }
    | .error _ => m
  | writeStack addr bytes =>
    match m.stack.write addr bytes with
    | .ok stack => { m with stack }
    | .error _ => m

/-- The helpers that an action gives to the machine never change the size of the stack. -/
def KeepsStackSize : Action σ → Prop
  | drive c => c.env.EveryReply Helper.KeepsStackSize
  | _ => True

end Action

namespace Machine

/-- The machine at the end of a session. -/
def play (m : Machine) (actions : List (Action σ)) : Machine :=
  actions.foldl Action.apply m

/-! ## The invariant -/

/-- What holds of a machine at all times of a session on a configuration. -/
structure Sound (config : Config) (m : Machine) : Prop where
  config_eq : m.config = config
  size_stack : m.stack.size = config.stackSize.toNat
  frame : (m.regs.get Reg.frame).toNat = m.stack.size
  pc_le : m.pc ≤ m.programWords

/-- A machine that differs in nothing that the invariant looks at, but for the program counter. -/
theorem Sound.of_eq {config : Config} {m m' : Machine} (h : Sound config m)
    (hcode : m'.code = m.code) (hframe : m'.regs.get Reg.frame = m.regs.get Reg.frame)
    (hsize : m'.stack.size = m.stack.size) (hpc : m'.pc ≤ m.programWords) : Sound config m' := by
  have hprogram : m'.program = m.program := congrArg Prod.fst hcode
  have hconfig : m'.config = m.config := congrArg Prod.snd hcode
  refine ⟨hconfig.trans h.config_eq, hsize.trans h.size_stack, ?_, ?_⟩
  · rw [hframe, hsize, h.frame]
  · unfold programWords at hpc ⊢
    rw [hprogram]
    exact hpc

theorem sound_reset {config : Config} {m : Machine} (hc : m.config = config)
    (hs : m.stack.size = config.stackSize.toNat) : Sound config m.reset := by
  have hsize : m.reset.stack.size = m.stack.size := Array.size_replicate
  have hframe : m.reset.regs.get Reg.frame = UInt64.ofNat m.stack.size :=
    Registers.get_put_self _ _ _
  refine ⟨hc, hsize.trans hs, ?_, Nat.zero_le _⟩
  rw [hframe, hsize, hs, UInt64.ofNat_toNat]

theorem sound_new (config : Config) : Sound config (Machine.new config) :=
  sound_reset rfl Array.size_replicate

namespace Sound

variable {config : Config} {m : Machine}

theorem reset (h : Sound config m) : Sound config m.reset :=
  sound_reset h.config_eq h.size_stack

theorem load (h : Sound config m) (program : List UInt8) : Sound config (m.load program) :=
  sound_reset h.config_eq h.size_stack

theorem writeRegister (h : Sound config m) {n : UInt8} {v : UInt64} {regs : Registers}
    (hw : m.regs.write n v = .ok regs) : Sound config { m with regs } := by
  unfold Registers.write Registers.set at hw
  cases hr : Reg.ofNumber n with
  | error e =>
    rw [hr] at hw
    cases hw
  | ok r =>
    rw [hr] at hw
    change (if r = Reg.frame then _ else _) = _ at hw
    split at hw
    · cases hw
    · next hne =>
      cases hw
      exact h.of_eq rfl (Registers.get_put_of_ne _ _ (Ne.symm hne)) rfl h.pc_le

theorem writeStack (h : Sound config m) {addr : Int64} {bytes : List UInt8} {stack : Stack}
    (hw : m.stack.write addr bytes = .ok stack) : Sound config { m with stack } :=
  h.of_eq rfl rfl (Stack.size_write hw) h.pc_le

theorem step (h : Sound config m) (d : Decoder) {env : Env σ}
    (henv : env.EveryReply Helper.KeepsStackSize) : Sound config (Machine.step d env m).machine :=
  have heff := step_effect d env m
  h.of_eq (code_step d env m) heff.frame (heff.size_stack henv) (heff.pc_le h.pc_le)

/-- A run is sound at every round, and so are its helpers. -/
theorem runFor (h : Sound config m) (d : Decoder) {env : Env σ}
    (henv : env.EveryReply Helper.KeepsStackSize) (n : Nat) :
    (Machine.runFor (Machine.step d) n env m).env.EveryReply Helper.KeepsStackSize ∧
      Sound config (Machine.runFor (Machine.step d) n env m).machine := by
  refine runFor_invariant (I := fun env m => env.EveryReply Helper.KeepsStackSize ∧ Sound config m)
    ?_ ?_ n ⟨henv, h⟩
  · rintro env m ⟨henv, h⟩
    exact ⟨(step_effect d env m).everyReply henv, h.step d henv⟩
  · rintro env m limit ⟨henv, h⟩ -
    exact ⟨henv.of_helpers_eq (Env.helpers_record _ _), h.of_eq rfl rfl rfl h.pc_le⟩

theorem after (h : Sound config m) {c : Drive σ} (hc : c.env.EveryReply Helper.KeepsStackSize) :
    Sound config (c.after m) := by
  cases c with
  | step d env => exact h.step d hc
  | run d env =>
    show Sound config (Machine.run d env m).machine
    rw [run_eq]
    exact (h.runFor d hc _).2

theorem visits (h : Sound config m) {c : Drive σ} (hc : c.env.EveryReply Helper.KeepsStackSize)
    {d : Decoder} {env : Env σ} {m' : Machine} (hv : c.Visits m d env m') :
    env.EveryReply Helper.KeepsStackSize ∧ Sound config m' := by
  cases hv with
  | step d env => exact ⟨hc, h⟩
  | run d env n hn => exact h.runFor d hc n

theorem apply (h : Sound config m) {a : Action σ} (ha : a.KeepsStackSize) :
    Sound config (a.apply m) := by
  cases a with
  | load program => exact h.load program
  | loadFrom source =>
    cases source with
    | error e => exact h
    | ok program => exact h.load program
  | reset => exact h.reset
  | drive c => exact h.after ha
  | writeRegister n v =>
    dsimp only [Action.apply]
    split
    · next regs hw => exact h.writeRegister hw
    · exact h
  | writeStack addr bytes =>
    dsimp only [Action.apply]
    split
    · next stack hw => exact h.writeStack hw
    · exact h

theorem play (h : Sound config m) {actions : List (Action σ)}
    (ha : ∀ a ∈ actions, a.KeepsStackSize) : Sound config (m.play actions) := by
  induction actions generalizing m with
  | nil => exact h
  | cons a rest ih =>
    have hfirst := h.apply (ha a List.mem_cons_self)
    exact ih hfirst fun b hb => ha b (List.mem_cons_of_mem a hb)

end Sound

/-! ## Arithmetic of a step -/

/-- The numbers that a step at a machine computes for its program counter fit their words: the byte
address of the instruction and the index behind it fit 64 unsigned bits, the target of a jump and
the sum on the way to it fit 64 signed ones. -/
structure PcFits (d : Decoder) (m : Machine) : Prop where
  address : Word.size * m.pc < UInt64.size
  next : ∀ slot, m.fetch d m.pc = .ok slot → m.pc + slot.words < UInt64.size
  successor : (m.pc : Int) + 1 ≤ Int64.maxValue.toInt
  target : ∀ slot, m.fetch d m.pc = .ok slot →
    Int64.minValue.toInt ≤ m.target slot.insn.off ∧
      m.target slot.insn.off ≤ Int64.maxValue.toInt

theorem pcFits_of_le {m : Machine} (d : Decoder) (hpc : m.pc ≤ m.programWords)
    (hsize : m.program.size ≤ Int64.maxValue.toInt) : PcFits d m := by
  have hbound : Word.size * m.pc ≤ m.program.size := by
    unfold programWords at hpc
    unfold Word.size at *
    omega
  unfold Word.size at hbound
  rw [Int64.toInt_maxValue] at hsize
  refine ⟨?_, ?_, ?_, ?_⟩
  · unfold Word.size UInt64.size
    omega
  · intro slot hd
    have hwords := words_le_of_fetch hd
    unfold programWords Word.size at hwords
    unfold UInt64.size
    omega
  · rw [Int64.toInt_maxValue]
    omega
  · intro slot hd
    have hlow := slot.insn.off.le_toInt
    have hhigh := slot.insn.off.toInt_lt
    rw [Int64.toInt_minValue, Int64.toInt_maxValue, Machine.target]
    omega

/-! ## Main statement -/

/-- Sessions are sound. Whatever is done to a new machine, in any order and with any helpers that
keep the size of the stack: afterwards the machine satisfies the invariant, and so does every
machine at which a further call takes a step. Such a step lands inside the program if it jumps, and
unless the program has more bytes than a 64-bit memory can hold, nothing that it computes for the
program counter overflows. -/
theorem session_sound (config : Config) (actions : List (Action σ))
    (h : ∀ a ∈ actions, a.KeepsStackSize) :
    Sound config ((Machine.new config).play actions) ∧
      ∀ c : Drive σ, c.env.EveryReply Helper.KeepsStackSize →
        ∀ d env m, c.Visits ((Machine.new config).play actions) d env m →
          Sound config m ∧
          (∀ slot, m.fetch d m.pc = .ok slot → slot.insn.Jumps m →
            ∀ status, (step d env m).result = .ok status →
              (step d env m).machine.pc < (step d env m).machine.programWords) ∧
          (m.program.size ≤ Int64.maxValue.toInt → PcFits d m) := by
  have hsound := (sound_new config).play h
  refine ⟨hsound, fun c hc d env m hv => ?_⟩
  obtain ⟨henv, hm⟩ := hsound.visits hc hv
  refine ⟨hm, fun slot hd hj status hs => ?_, pcFits_of_le d hm.pc_le⟩
  have hwords : (step d env m).machine.programWords = m.programWords := by
    have hprogram : (step d env m).machine.program = m.program :=
      congrArg Prod.fst (code_step d env m)
    rw [programWords, programWords, hprogram]
  rw [hwords]
  exact (step_effect d env m).pc_lt_of_jump hd hj hs

/-- A run without a program, a load and a refused write to the frame register, and then a step that
calls a helper which writes to the stack. -/
theorem session_sound_double :
    let env : Env UInt64 :=
      { helpers := some (HelperTable.empty.register 1 (.ofStock "double" .double)) }
    let m := (Machine.new { stackSize := 8 }).play
      [.drive (.run {} env), .load [0x85, 0, 0, 0, 1, 0, 0, 0], .writeRegister 10 0]
    Sound { stackSize := 8 } m ∧ PcFits {} m := by
  intro env m
  have henv : env.EveryReply Helper.KeepsStackSize :=
    .of_table rfl
      ((HelperTable.EveryReply.empty _).register 1 (Helper.Stock.keepsStackSize .double))
  have hkeeps : ∀ a ∈ [.drive (.run {} env), .load [0x85, 0, 0, 0, 1, 0, 0, 0],
      .writeRegister 10 0], Action.KeepsStackSize a := by
    intro a ha
    simp only [List.mem_cons, List.not_mem_nil, or_false] at ha
    rcases ha with rfl | rfl | rfl
    · exact henv
    · trivial
    · trivial
  obtain ⟨hsound, hvisits⟩ := session_sound { stackSize := 8 } _ hkeeps
  have hsize : m.program.size ≤ Int64.maxValue.toInt := by
    show (8 : Int) ≤ Int64.maxValue.toInt
    decide
  exact ⟨hsound, (hvisits (.step {} env) henv {} env m (.step {} env)).2.2 hsize⟩

end Machine

end Ebpf
