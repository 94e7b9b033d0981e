/-
  A machine is read back from its snapshot (`ofSnapshot?_snapshot`): whatever its
  registers, its stack, its state, its configuration and its program hold, and
  also where the stack is not as long as the configuration says. So a restored
  machine goes on as the one that was saved. Only the program counter has to fit
  into 64 bits.
-/
import Ebpf.Machine.Run
import Ebpf.Machine.Snapshot
import Ebpf.Proofs.JsonValue
import Mathlib.Data.List.Nodup

namespace Ebpf

/-! ## Numbers, lists and records -/

namespace Json

theorem natBelow?_nat {n bound : Nat} (h : n < bound) : (nat n).natBelow? bound = some n :=
  if_pos h

theorem uint64?_nat (v : UInt64) : (nat v.toNat).uint64? = some v := by
  rw [uint64?, natBelow?_nat v.toNat_lt, Option.map_some, UInt64.ofNat_toNat]

theorem uint8?_nat (b : UInt8) : (nat b.toNat).uint8? = some b := by
  rw [uint8?, natBelow?_nat b.toNat_lt, Option.map_some, UInt8.ofNat_toNat]

theorem listFrom?_map {α : Type} {read : Json → Option α} {write : α → Json}
    (h : ∀ a, read (write a) = some a) (as done : List α) :
    listFrom? read done (as.map write) = some (done.reverse ++ as) := by
  induction as generalizing done with
  | nil => rw [List.map_nil, listFrom?, List.append_nil]
  | cons a as ih =>
    rw [List.map_cons, listFrom?, h]
    dsimp only
    rw [ih, List.reverse_cons, List.append_assoc, List.singleton_append]

/-- A list is read back if each of its items is. -/
theorem list?_map {α : Type} {read : Json → Option α} {write : α → Json}
    (h : ∀ a, read (write a) = some a) (as : List α) :
    (arr (as.map write)).list? read = some as :=
  listFrom?_map h as []

theorem list?_ofBytes (bytes : List UInt8) : (ofBytes bytes).list? uint8? = some bytes :=
  list?_map uint8?_nat bytes

theorem lookup_of_mem {fields : List (String × Json)} (hnodup : (fields.map Prod.fst).Nodup)
    {f : String × Json} (hf : f ∈ fields) : fields.lookup f.1 = some f.2 := by
  induction fields with
  | nil => cases hf
  | cons g gs ih =>
    rw [List.map_cons, List.nodup_cons] at hnodup
    rcases List.mem_cons.mp hf with rfl | hmem
    · exact List.lookup_cons_self
    · have hne : f.1 ≠ g.1 := by
        intro h
        exact hnodup.1 (h ▸ List.mem_map_of_mem hmem)
      rw [List.lookup_cons, beq_false_of_ne hne]
      exact ih hnodup.2 hmem

/-- A record is read back field by field. -/
theorem record?_obj {names : List String} {fields : List (String × Json)}
    (hnames : fields.map Prod.fst = names) (hnodup : names.Nodup) :
    (obj fields).record? names = some (fields.map fun f => some f.2) := by
  subst hnames
  have honce :
      ((fields.map Prod.fst).all fun n => fields.countP (fun f => f.1 = n) ≤ 1) = true := by
    rw [List.all_eq_true]
    intro n _
    have hcount := List.nodup_iff_count_le_one.mp hnodup n
    rw [List.count, List.countP_map] at hcount
    exact decide_eq_true hcount
  have hfields : ((fields.map Prod.fst).map fun n => fields.lookup n) =
      fields.map fun f => some f.2 := by
    rw [List.map_map]
    exact List.map_congr_left fun f hf => lookup_of_mem hnodup hf
  rw [record?, if_pos honce, hfields]

theorem supported_numbers {α : Type} (f : α → Nat) (as : List α) :
    Supported (.arr (as.map fun a => .nat (f a))) := by
  apply Supported.arr
  intro v hv
  obtain ⟨a, -, rfl⟩ := List.mem_map.mp hv
  exact .nat (f a)

end Json

/-! ## Parts of a machine -/

theorem ByteOrder.ofJson?_snapshotName (o : ByteOrder) :
    ByteOrder.ofJson? (.str o.snapshotName) = some o := by
  cases o <;> rfl

theorem FaultClass.ofJson?_name (cls : FaultClass) :
    FaultClass.ofJson? (.str cls.name) = some cls := by
  cases cls <;> rfl

theorem RunState.ofJson?_toJson (s : RunState) : RunState.ofJson? s.toJson = some s := by
  cases s with
  | running | exited => rfl
  | faulted cls =>
    show (FaultClass.ofJson? (.str cls.name)).map RunState.faulted = some (.faulted cls)
    rw [FaultClass.ofJson?_name, Option.map_some]

theorem RunState.supported_toJson (s : RunState) : s.toJson.Supported := by
  cases s with
  | running | exited => exact .str _
  | faulted cls => exact .obj (List.forall_mem_singleton.mpr (.str _))

theorem Config.ofJson?_toJson (c : Config) : Config.ofJson? c.toJson = some c := by
  obtain ⟨order, stackSize, maxSteps⟩ := c
  rw [ofJson?, toJson, Json.record?_obj]
  · simp only [List.map_cons, List.map_nil, ByteOrder.ofJson?_snapshotName, Json.uint64?_nat,
      Option.getD_some]
    cases maxSteps with
    | none => rfl
    | some limit =>
      simp only [Json.nullable?, Json.uint64?_nat]
      rfl
  · rfl
  · decide

theorem Config.supported_toJson (c : Config) : c.toJson.Supported := by
  apply Json.Supported.obj
  simp only [List.forall_mem_cons]
  refine ⟨.str _, .nat _, ?_, nofun⟩
  cases c.maxSteps with
  | none => exact .null
  | some limit => exact .nat _

theorem Registers.ofJson?_obj (regs : Registers) :
    Registers.ofJson? (.obj [("r", .arr (regs.values.toList.map fun v => .nat v.toNat))]) =
      some regs := by
  rw [ofJson?, Json.record?_obj]
  · simp only [List.map_cons, List.map_nil, Json.list?_map Json.uint64?_nat]
    exact dif_pos regs.values.length_toList
  · rfl
  · decide

theorem Stack.ofJson?_obj (s : Stack) :
    Stack.ofJson? (.obj [("bytes", .ofBytes s.bytes.toList)]) = some s := by
  rw [ofJson?, Json.record?_obj]
  · simp only [List.map_cons, List.map_nil, Json.list?_ofBytes, Option.map_some]
  · rfl
  · decide

/-! ## Machines -/

namespace Machine

theorem supported_toJson (m : Machine) : m.toJson.Supported := by
  have hnil : ∀ f ∈ ([] : List (String × Json)), f.2.Supported := nofun
  have hregs :
      (Json.obj [("r", .arr (m.regs.values.toList.map fun v => .nat v.toNat))]).Supported :=
    .obj (List.forall_mem_cons.mpr ⟨Json.supported_numbers UInt64.toNat _, hnil⟩)
  have hstack : (Json.obj [("bytes", .ofBytes m.stack.bytes.toList)]).Supported :=
    .obj (List.forall_mem_cons.mpr ⟨Json.supported_numbers UInt8.toNat _, hnil⟩)
  apply Json.Supported.obj
  simp only [List.forall_mem_cons]
  exact ⟨.nat _, hregs, hstack, m.state.supported_toJson, .nat _, m.config.supported_toJson,
    Json.supported_numbers UInt8.toNat _, hnil⟩

theorem ofJson?_toJson {m : Machine} (h : m.pc < UInt64.size) : ofJson? m.toJson = some m := by
  rw [ofJson?, toJson, Json.record?_obj]
  · simp only [List.map_cons, List.map_nil, Json.natBelow?_nat h, Registers.ofJson?_obj,
      Stack.ofJson?_obj, RunState.ofJson?_toJson, Json.uint64?_nat, Config.ofJson?_toJson,
      Json.list?_ofBytes]
    rfl
  · rfl
  · decide

theorem ofSnapshot?_eq_some {m : Machine} (h : m.pc < UInt64.size) :
    ofSnapshot? m.snapshot = some m := by
  rw [ofSnapshot?, snapshot, Json.parse?_compact m.supported_toJson, Option.bind_some,
    ofJson?_toJson h]

/-- A machine is read back from its snapshot, and goes on as if it had never
been saved. -/
theorem ofSnapshot?_snapshot (m : Machine) (h : m.pc < UInt64.size) :
    ofSnapshot? m.snapshot = some m ∧
      ∀ restored, ofSnapshot? m.snapshot = some restored →
        ∀ (σ : Type) (d : Decoder) (env : Env σ),
          step d env restored = step d env m ∧ run d env restored = run d env m := by
  have hread := ofSnapshot?_eq_some h
  refine ⟨hread, fun restored hrestored => ?_⟩
  have heq : restored = m := Option.some.inj (hrestored.symm.trans hread)
  subst heq
  exact fun σ d env => ⟨rfl, rfl⟩

/-- The largest numbers everywhere, an empty stack where 512 bytes were asked
for, and a fault. -/
theorem ofSnapshot?_snapshot_extreme :
    let m : Machine :=
      { pc := UInt64.size - 1
        regs := ⟨Vector.replicate 11 0xffffffffffffffff⟩
        stack := ⟨#[]⟩
        state := .faulted .memory
        steps := 0xffffffffffffffff
        config := { order := .big, maxSteps := some 0xffffffffffffffff }
        program := #[0, 0xff] }
    m.pc < UInt64.size ∧ ofSnapshot? m.snapshot = some m ∧
      ∀ restored, ofSnapshot? m.snapshot = some restored →
        ∀ (σ : Type) (d : Decoder) (env : Env σ),
          step d env restored = step d env m ∧ run d env restored = run d env m := by
  intro m
  have hpc : m.pc < UInt64.size := by decide
  exact ⟨hpc, ofSnapshot?_snapshot m hpc⟩

end Machine

end Ebpf
