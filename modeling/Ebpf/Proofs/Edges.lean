/-
  The edges of a flow graph, compared with its executions. `entry_edge_iff`: when
  an execution passes from one instruction to the first of a block, there is an
  edge for it exactly if the instruction is a jump. Where a block ends only
  because the word after it is the target of a jump elsewhere, control falls
  into the next block without an edge (`falls_into_block_without_edge`): edges
  are those of the jumps, and the list of edges alone does not say how blocks
  follow one another. The end of the block does: it is the start of the other.
-/
import Ebpf.Proofs.Coverage

namespace Ebpf

variable {d : Decoder} {o : ByteOrder} {code : List UInt8} {len : Nat} {queue : List Nat}
  {vs : List Visit}

/-! ## Edges and blocks of a walk -/

namespace FlowGraph

/-- Blocks start at leaders inside the section. -/
theorem leader_of_mem_blocks (h : Walked d o code len queue vs) {b : Block}
    (hb : b ∈ (ofVisits len vs).blocks) :
    isLeader (ofVisits len vs).edges b.start = true ∧ b.start < len := by
  obtain ⟨v, hv, hleader, rfl⟩ := mem_blocks_iff.mp hb
  exact ⟨hleader, h.inside v hv⟩

/-- The edges that leave a visited word are those of the instruction there. -/
theorem mem_edges_of_source (h : Walked d o code len queue vs) {v : Visit} (hv : v ∈ vs)
    {e : Edge} (he : e ∈ (ofVisits len vs).edges) (hsource : e.source = v.pc) :
    e ∈ v.edges len := by
  obtain ⟨w, hw, hmem⟩ := List.mem_flatMap.mp he
  rw [Visit.source_of_mem_edges hmem] at hsource
  rw [← h.eq_of_pc_eq hw hv hsource]
  exact hmem

/-- A jump has an edge to each of its successors. -/
theorem exists_edge_of_endsBlock {v : Visit} (hv : v ∈ vs) (hends : v.endsBlock = true) {pc : Nat}
    (hpc : pc ∈ v.successors len) :
    ∃ e ∈ (ofVisits len vs).edges, e.source = v.pc ∧ e.target = pc := by
  rw [← Visit.targets_edges hends] at hpc
  obtain ⟨e, he, htarget⟩ := List.mem_map.mp hpc
  exact ⟨e, List.mem_flatMap.mpr ⟨v, hv, he⟩, Visit.source_of_mem_edges he, htarget⟩

/-- An instruction before a leader is the last of a block. -/
theorem exists_block_before (h : Walked d o code len queue vs) {v : Visit} (hv : v ∈ vs)
    (hleader : isLeader (ofVisits len vs).edges v.next = true) :
    ∃ b ∈ (ofVisits len vs).blocks, b.stop = v.next ∧ b.insns.getLast? = some v.text := by
  obtain ⟨u, hu, hstart, hin⟩ := exists_mem_insnsFrom h hv
  have hlast := (isBlock_insnsFrom len vs u).getLast_of_leader hin hleader
  have hends : (Block.ofChain u (insnsFrom len vs u)).EndsWith v := Block.endsWith_ofChain hlast
  exact ⟨_, mem_blocks_iff.mpr ⟨u, hu, hstart, rfl⟩, hends.stop, hends.insns⟩

end FlowGraph

/-! ## Main statement -/

namespace Machine

variable {σ : Type}

/-- Entering a block. If an execution from the first word passes from an instruction to the start of
a block, the graph has an edge for it exactly if the instruction is a jump. Otherwise it has no edge
from the instruction at all, and the instruction is the last one of a block that ends where the other
starts. -/
theorem entry_edge_iff (d : Decoder) (o : ByteOrder) (code : List UInt8) (limit : Nat)
    (hl : sectionWords code ≤ limit) (env : Env σ) (m : Machine) (hm : m.Holds o code)
    (hpc : m.pc = 0) (n : Nat) (env' : Env σ) (m' : Machine) (slot : Slot)
    (h : Steps d n env m env' m') (hd : m'.fetch d m'.pc = .ok slot)
    (hr : (step d env' m').result = .ok .running) (b : Block)
    (hb : b ∈ (FlowGraph.analyze d o code limit).blocks)
    (hstart : b.start = (step d env' m').machine.pc) :
    ((∃ e ∈ (FlowGraph.analyze d o code limit).edges, e.source = m'.pc ∧ e.target = b.start) ↔
      Visit.endsBlock ⟨m'.pc, slot⟩ = true) ∧
    (Visit.endsBlock ⟨m'.pc, slot⟩ = false →
      (∀ e ∈ (FlowGraph.analyze d o code limit).edges, e.source ≠ m'.pc) ∧
      ∃ b' ∈ (FlowGraph.analyze d o code limit).blocks, b'.stop = b.start ∧
        b'.insns.getLast? = some (TraceLine.insn m'.pc slot.insn).text) := by
  have hw := walked_visits d o hl
  have hv := h.mem_visits hl hm hpc hd
  obtain ⟨hleader, hin⟩ := FlowGraph.leader_of_mem_blocks hw hb
  have hsucc : b.start ∈ Visit.successors (sectionWords code) ⟨m'.pc, slot⟩ := by
    have hnext := (step_effect d env' m').pc_mem_successors hr hd
    rw [(hm.of_code h.code).programWords, ← hstart] at hnext
    exact hnext.resolve_right (Nat.not_le.mpr hin)
  have hnone : Visit.endsBlock ⟨m'.pc, slot⟩ = false →
      ∀ e ∈ (FlowGraph.analyze d o code limit).edges, e.source ≠ m'.pc := by
    intro hends e he hsource
    have hmem := FlowGraph.mem_edges_of_source hw hv he hsource
    rw [Visit.edges_of_falls_through hends] at hmem
    cases hmem
  refine ⟨⟨?_, ?_⟩, fun hends => ⟨hnone hends, ?_⟩⟩
  · rintro ⟨e, he, hsource, -⟩
    cases hends : Visit.endsBlock ⟨m'.pc, slot⟩ with
    | true => rfl
    | false => exact absurd hsource (hnone hends e he)
  · intro hends
    exact FlowGraph.exists_edge_of_endsBlock hv hends hsucc
  · rw [Visit.successors_of_falls_through hends] at hsucc
    have heq := List.mem_singleton.mp hsucc
    rw [heq] at hleader ⊢
    exact FlowGraph.exists_block_before hw hv hleader

/-- The jump at word zero is not taken, and there is an edge for that. -/
theorem entry_edge_iff_jump :
    sectionWords jumpOverMove ≤ 3 ∧
      (step {} ({} : Env Unit) atJump).result = .ok .running ∧
      (step {} ({} : Env Unit) atJump).machine.pc = 1 ∧
      ∃ e ∈ (FlowGraph.analyze {} .little jumpOverMove 3).edges, e.source = 0 ∧ e.target = 1 := by
  have hjump : atJump.fetch {} 0 =
      .ok { insn := { op := .jmp .ne .w64 .imm, opcode := 0x55, dst := 1, src := 0, off := 1,
                      imm := 0 }
            wide := false } := rfl
  have hmove : ∃ v ∈ visits {} .little jumpOverMove 3, v.pc = 1 ∧
      isLeader (FlowGraph.analyze {} .little jumpOverMove 3).edges v.pc = true := by decide
  obtain ⟨v, hv, hpc, hleader⟩ := hmove
  have hb := FlowGraph.mem_blocks_iff.mpr ⟨v, hv, hleader, rfl⟩
  have hedge := (entry_edge_iff {} .little jumpOverMove 3 (by decide) ({} : Env Unit) atJump
    (holds_load _ _) rfl 0 _ _ _ (.refl _ _) hjump rfl _ hb hpc).1
  obtain ⟨e, he, hsource, htarget⟩ := hedge.mpr rfl
  exact ⟨by decide, rfl, rfl, e, he, hsource, htarget.trans hpc⟩

/-- Both words are executed, one after the other, and a block starts at the second one, but there is
no edge between them: the `mov` at word one falls through to the `exit`, which starts a block as the
target of the jump. -/
theorem falls_into_block_without_edge :
    sectionWords jumpOverMove ≤ 3 ∧ atJump.Holds .little jumpOverMove ∧ atJump.pc = 0 ∧
      ∃ (env' : Env Unit) (m' : Machine) (move exit : Slot),
        Steps {} 1 {} atJump env' m' ∧ m'.pc = 1 ∧ m'.fetch {} 1 = .ok move ∧
        (step {} env' m').result = .ok .running ∧ (step {} env' m').machine.pc = 2 ∧
        (step {} env' m').machine.fetch {} 2 = .ok exit ∧
        (∃ b ∈ (FlowGraph.analyze {} .little jumpOverMove 3).blocks, b.start = 2) ∧
        ¬ ∃ e ∈ (FlowGraph.analyze {} .little jumpOverMove 3).edges,
          e.source = 1 ∧ e.target = 2 := by
  have hexit : ∃ v ∈ visits {} .little jumpOverMove 3, v.pc = 2 ∧
      isLeader (FlowGraph.analyze {} .little jumpOverMove 3).edges v.pc = true := by decide
  obtain ⟨v, hv, hpc, hleader⟩ := hexit
  refine ⟨by decide, holds_load _ _, rfl, _, _, _, _, .cons rfl (.refl _ _), rfl, rfl, rfl, rfl, rfl,
    ⟨_, FlowGraph.mem_blocks_iff.mpr ⟨v, hv, hleader, rfl⟩, hpc⟩, by decide⟩

end Machine

end Ebpf
