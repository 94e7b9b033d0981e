/-
  Loading a program erases what ran before. A reset makes new registers and a new
  stack, but it takes the size of the stack from the stack that is there, not from
  the configuration, and it keeps program and configuration. `reset_eq_iff` says
  that these three are all that survives it. Sessions keep the first of them at
  the configured size and never touch the configuration, so nothing is left that
  could tell two histories apart.

  `load_erases_history`: after any session on a new machine, a load leaves the
  machine that the same load makes of a new one, and a reset leaves the machine
  that loading the last program again would.
-/
import Ebpf.Proofs.Session

namespace Ebpf

variable {σ τ : Type}

/-! ## Programs of a session -/

/-- The program that an action installs, if it installs one. -/
def Action.installed? : Action σ → Option (List UInt8)
  | load program => some program
  | loadFrom source => source.toOption
  | _ => none

/-- The program at the end of a session on a new machine: the last one that was installed, or none. -/
def lastInstalled (actions : List (Action σ)) : List UInt8 :=
  (actions.filterMap Action.installed?).getLast?.getD []

theorem Drive.code_after (m : Machine) (c : Drive σ) : (c.after m).code = m.code := by
  cases c with
  | step d env => exact Machine.code_step d env m
  | run d env => exact Machine.code_run d env m

/-- An action keeps the program, unless it installs another. -/
theorem Action.program_apply (m : Machine) (a : Action σ) :
    (a.apply m).program.toList = a.installed?.getD m.program.toList := by
  cases a with
  | load program => rfl
  | loadFrom source => cases source <;> rfl
  | reset => rfl
  | drive c =>
    have hprogram : (c.after m).program = m.program := congrArg Prod.fst (c.code_after m)
    exact congrArg Array.toList hprogram
  | writeRegister n v =>
    dsimp only [apply]
    split <;> rfl
  | writeStack addr bytes =>
    dsimp only [apply]
    split <;> rfl

namespace Machine

theorem program_play (m : Machine) (actions : List (Action σ)) :
    (m.play actions).program.toList =
      (actions.filterMap Action.installed?).getLast?.getD m.program.toList := by
  induction actions generalizing m with
  | nil => rfl
  | cons a rest ih =>
    have hfirst := a.program_apply m
    rw [play, List.foldl_cons, ← play, ih, hfirst, List.filterMap_cons]
    cases a.installed? with
    | none => rfl
    | some program => rw [List.getLast?_cons, Option.getD_some, Option.getD_some]

/-! ## What a reset keeps -/

theorem reset_eq_iff {m m' : Machine} :
    m.reset = m'.reset ↔
      m.stack.size = m'.stack.size ∧ m.config = m'.config ∧ m.program = m'.program := by
  constructor
  · intro h
    have hsize (m : Machine) : m.reset.stack.size = m.stack.size := Array.size_replicate
    have hcode : m.reset.code = m'.reset.code := congrArg Machine.code h
    refine ⟨?_, congrArg Prod.snd hcode, congrArg Prod.fst hcode⟩
    rw [← hsize m, ← hsize m', h]
  · rintro ⟨hsize, hconfig, hprogram⟩
    rw [reset, reset, hsize, hconfig, hprogram]

/-- A load keeps the size of the stack and the configuration, and nothing else. -/
theorem load_eq_iff {m m' : Machine} {p p' : List UInt8} :
    m.load p = m'.load p' ↔ m.stack.size = m'.stack.size ∧ m.config = m'.config ∧ p = p' := by
  rw [load, load, reset_eq_iff]
  exact and_congr_right fun _ => and_congr_right fun _ => ⟨List.toArray_inj, congrArg List.toArray⟩

/-- A reset loads the program that is there. -/
theorem reset_eq_load (m : Machine) : m.reset = m.load m.program.toList := by
  rw [load, Array.toArray_toList]

/-- In a session, a load leaves what it makes of a new machine. -/
theorem Sound.load_eq {config : Config} {m : Machine} (h : Sound config m) (p : List UInt8) :
    m.load p = (Machine.new config).load p := by
  have hnew := sound_new config
  refine load_eq_iff.mpr ⟨?_, ?_, rfl⟩
  · rw [h.size_stack, hnew.size_stack]
  · rw [h.config_eq, hnew.config_eq]

/-! ## Main statement -/

/-- Loading erases history. Whatever was done to a new machine, in any order and with any helpers
that keep the size of the stack, whether it ended well, faulted or ran out of its budget: a load
leaves exactly the machine that it makes of a new one, so a run of the program comes to the same in
the same surroundings. A reset leaves what loading the current program again leaves, and that is the
new machine with the last program that the session installed. -/
theorem load_erases_history (config : Config) (actions : List (Action σ))
    (h : ∀ a ∈ actions, a.KeepsStackSize) :
    (∀ p, ((Machine.new config).play actions).load p = (Machine.new config).load p) ∧
      (∀ p (d : Decoder) (env : Env τ),
        run d env (((Machine.new config).play actions).load p) =
          run d env ((Machine.new config).load p)) ∧
      ((Machine.new config).play actions).reset =
        ((Machine.new config).play actions).load
          ((Machine.new config).play actions).program.toList ∧
      ((Machine.new config).play actions).reset =
        (Machine.new config).load (lastInstalled actions) := by
  have hload := ((sound_new config).play h).load_eq
  have hprogram : ((Machine.new config).play actions).program.toList = lastInstalled actions :=
    program_play (Machine.new config) actions
  refine ⟨hload, fun p d env => by rw [hload p], reset_eq_load _, ?_⟩
  rw [reset_eq_load, hload, hprogram]

/-- A jump to itself that runs out of its budget, then writes to a register and to the stack. -/
def spoil : List (Action Unit) :=
  [.load [0x05, 0, 0xff, 0xff, 0, 0, 0, 0], .drive (.run {} {}), .writeRegister 1 9,
    .writeStack 0 [0xaa]]

/-- The session leaves a faulted machine with a register and a byte of its stack written. After a
load there is nothing left of it, and `mov r0, 7` and `exit` run within the budget. -/
theorem load_erases_history_spoil :
    let config : Config := { stackSize := 8, maxSteps := some 2 }
    let m := (Machine.new config).play spoil
    let seven := [0xb7, 0, 0, 0, 7, 0, 0, 0, 0x95, 0, 0, 0, 0, 0, 0, 0]
    m.state = .faulted .control ∧ m.steps = 2 ∧ m.regs.get 1 = 9 ∧ m.stack.bytes[0]? = some 0xaa ∧
      m.load seven = (Machine.new config).load seven ∧
      (run {} ({} : Env Unit) (m.load seven)).machine.state = .exited ∧
      (run {} ({} : Env Unit) (m.load seven)).machine.regs.get 0 = 7 := by
  intro config m seven
  have hkeeps : ∀ a ∈ spoil, a.KeepsStackSize := by
    intro a ha
    simp only [spoil, List.mem_cons, List.not_mem_nil, or_false] at ha
    rcases ha with rfl | rfl | rfl | rfl
    · trivial
    · intro table ht
      cases ht
    · trivial
    · trivial
  have hspoilt : m.state = .faulted .control ∧ m.steps = 2 ∧ m.regs.get 1 = 9 ∧
      m.stack.bytes[0]? = some 0xaa := by decide +kernel
  obtain ⟨hstate, hsteps, hreg, hbyte⟩ := hspoilt
  obtain ⟨hload, hrun, -⟩ := load_erases_history config spoil hkeeps
  refine ⟨hstate, hsteps, hreg, hbyte, hload seven, ?_⟩
  rw [hrun seven {} ({} : Env Unit)]
  decide +kernel

end Machine

end Ebpf
