/-
  Snapshots: a machine as JSON text, and back.

  Reading accepts more than writing produces. A record may also be given as
  an array of its fields in order; a choice may also be given as an object
  with one key; fields may come in any order and unknown ones are skipped. A
  field must not come twice, and only a missing budget is excused.
-/
import Ebpf.Json.Printer
import Ebpf.Json.Reader
import Ebpf.Machine

namespace Ebpf

/-! ## Writing -/

/-- The name of a byte order in a snapshot. -/
def ByteOrder.snapshotName : ByteOrder → String
  | little => "Little"
  | big => "Big"

/-- A run state in a snapshot. -/
def RunState.toJson : RunState → Json
  | running => .str "Running"
  | exited => .str "Exited"
  | faulted cls => .obj [("Faulted", .str cls.name)]

/-- A configuration in a snapshot. -/
def Config.toJson (c : Config) : Json :=
  .obj
    [("endian", .str c.order.snapshotName),
     ("stack_size", .nat c.stackSize.toNat),
     ("max_steps", match c.maxSteps with
       | some limit => .nat limit.toNat
       | none => .null)]

/-- A byte string in a snapshot. -/
def Json.ofBytes (bytes : List UInt8) : Json :=
  .arr (bytes.map fun b => .nat b.toNat)

/-- A machine in a snapshot. -/
def Machine.toJson (m : Machine) : Json :=
  .obj
    [("pc", .nat m.pc),
     ("regs", .obj [("r", .arr (m.regs.values.toList.map fun v => .nat v.toNat))]),
     ("stack", .obj [("bytes", .ofBytes m.stack.bytes.toList)]),
     ("state", m.state.toJson),
     ("steps", .nat m.steps.toNat),
     ("cfg", m.config.toJson),
     ("program", .ofBytes m.program.toList)]

/-! ## Reading parts -/

namespace Json

/-- A natural number below a bound. -/
def natBelow? (bound : Nat) : Json → Option Nat
  | nat n => if n < bound then some n else none
  | _ => none

/-- A 64-bit number. -/
def uint64? (v : Json) : Option UInt64 :=
  (v.natBelow? UInt64.size).map UInt64.ofNat

/-- A byte. -/
def uint8? (v : Json) : Option UInt8 :=
  (v.natBelow? 256).map UInt8.ofNat

/-- Null, or something. -/
def nullable? {α : Type} (read : Json → Option α) : Json → Option (Option α)
  | null => some none
  | v => (read v).map some

/-- A list all items of which can be read; `done` holds those so far, last first. -/
def listFrom? {α : Type} (read : Json → Option α) (done : List α) : List Json → Option (List α)
  | [] => some done.reverse
  | v :: vs =>
    match read v with
    | some a => listFrom? read (a :: done) vs
    | none => none

/-- An array all items of which can be read. -/
def list? {α : Type} (read : Json → Option α) : Json → Option (List α)
  | arr items => listFrom? read [] items
  | _ => none

/-- The fields of a record, in the order of `names`: from an object in which
no name comes twice, where some may be missing, or from an array of exactly
these fields. -/
def record? (names : List String) : Json → Option (List (Option Json))
  | obj fields =>
    if names.all fun n => fields.countP (fun f => f.1 = n) ≤ 1 then
      some (names.map fun n => fields.lookup n)
    else none
  | arr items => if items.length = names.length then some (items.map some) else none
  | _ => none

/-- A choice: its name, and what comes with it. -/
def choice? : Json → Option (String × Option Json)
  | str name => some (name, none)
  | obj [(name, v)] => some (name, some v)
  | _ => none

/-- The name of a choice that nothing comes with. -/
def plainChoice? (v : Json) : Option String :=
  match v.choice? with
  | some (name, none) => some name
  | some (name, some null) => some name
  | _ => none

end Json

/-- Reads a byte order. -/
def ByteOrder.ofJson? (v : Json) : Option ByteOrder :=
  match v.plainChoice? with
  | some "Little" => some .little
  | some "Big" => some .big
  | _ => none

/-- Reads a fault class. -/
def FaultClass.ofJson? (v : Json) : Option FaultClass :=
  match v.plainChoice? with
  | some "Decode" => some .decode
  | some "Register" => some .register
  | some "Memory" => some .memory
  | some "Opcode" => some .opcode
  | some "Call" => some .call
  | some "Control" => some .control
  | _ => none

/-- Reads a run state. -/
def RunState.ofJson? (v : Json) : Option RunState :=
  match v.choice? with
  | some ("Faulted", some cls) => (FaultClass.ofJson? cls).map .faulted
  | _ =>
    match v.plainChoice? with
    | some "Running" => some .running
    | some "Exited" => some .exited
    | _ => none

/-- Reads a configuration. -/
def Config.ofJson? (v : Json) : Option Config :=
  match v.record? ["endian", "stack_size", "max_steps"] with
  | some [some order, some stackSize, maxSteps] => do
    let order ← ByteOrder.ofJson? order
    let stackSize ← stackSize.uint64?
    let maxSteps ← (maxSteps.getD .null).nullable? Json.uint64?
    some { order, stackSize, maxSteps }
  | _ => none

/-- Reads the registers: exactly eleven numbers. -/
def Registers.ofJson? (v : Json) : Option Registers :=
  match v.record? ["r"] with
  | some [some values] =>
    match values.list? Json.uint64? with
    | some vs => if h : vs.length = 11 then some ⟨⟨vs.toArray, by simpa using h⟩⟩ else none
    | none => none
  | _ => none

/-- Reads a stack, of whatever size. -/
def Stack.ofJson? (v : Json) : Option Stack :=
  match v.record? ["bytes"] with
  | some [some bytes] => (bytes.list? Json.uint8?).map fun bs => ⟨bs.toArray⟩
  | _ => none

/-! ## Machines -/

namespace Machine

/-- Reads a machine. -/
def ofJson? (v : Json) : Option Machine :=
  match v.record? ["pc", "regs", "stack", "state", "steps", "cfg", "program"] with
  | some [some pc, some regs, some stack, some state, some steps, some config, some program] => do
    let pc ← pc.natBelow? UInt64.size
    let regs ← Registers.ofJson? regs
    let stack ← Stack.ofJson? stack
    let state ← RunState.ofJson? state
    let steps ← steps.uint64?
    let config ← Config.ofJson? config
    let program ← program.list? Json.uint8?
    some { pc, regs, stack, state, steps, config, program := program.toArray }
  | _ => none

/-- The compact snapshot of a machine. -/
def snapshot (m : Machine) : String :=
  m.toJson.compact

/-- The machine that a snapshot describes. -/
def ofSnapshot? (text : String) : Option Machine :=
  (Json.parse? text).bind ofJson?

end Machine

end Ebpf
