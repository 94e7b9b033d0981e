/-
  The blocks of a flow graph cut the visited instructions into parts. An
  instruction stands in a block if it can be decoded at a word of the block
  (`Block.Has`). No instruction starts inside another, so these are the
  instructions that the block was made of (`has_iff`): neither a jump into the
  second word of a wide instruction nor a limit that stops the walk early makes
  two blocks overlap or leaves a line out.

  `blocks_partition`: the blocks are in order and apart, every visit is in one of
  them, a block shows the lines that the listing has for its words, and edges
  pass from last instructions to first ones only.
-/
import Ebpf.Proofs.Edges
import Ebpf.Proofs.LineText
import Ebpf.Proofs.Listing
import Mathlib.Data.List.Sort

namespace Ebpf

variable {d : Decoder} {o : ByteOrder} {code : List UInt8} {len : Nat} {queue : List Nat}
  {vs : List Visit}

/-! ## Lines of instructions -/

namespace Visit

/-- Instructions with the same text stand at the same word. -/
theorem pc_of_text {v w : Visit} (h : v.text = w.text) : v.pc = w.pc :=
  Text.pc_of_numbered h

/-- The line of a listing for an instruction. -/
def line (d : Decoder) (o : ByteOrder) (code : List UInt8) (v : Visit) : Line :=
  Line.ofCode d o v.pc (code.drop (Word.size * v.pc))

theorem pc_line (d : Decoder) (o : ByteOrder) (code : List UInt8) (v : Visit) :
    (v.line d o code).pc = v.pc :=
  Line.pc_ofCode _ _

namespace StandsIn

variable {v : Visit}

theorem words_line (h : v.StandsIn d o code) : (v.line d o code).words = v.slot.words := by
  rw [line, Line.ofCode_of_ok h]

theorem render_line (h : v.StandsIn d o code) : (v.line d o code).render false = v.text := by
  rw [line, Line.ofCode_of_ok h]
  rfl

theorem isError_line (h : v.StandsIn d o code) : (v.line d o code).isError = false := by
  rw [Bool.eq_false_iff]
  intro herror
  obtain ⟨f, hf⟩ := (Line.isError_ofCode_iff d o _ _).mp herror
  rw [h] at hf
  cases hf

theorem line_mem_sweep (h : v.StandsIn d o code) : v.line d o code ∈ sweep d o code := by
  obtain ⟨l, hfilter, -⟩ := exists_line h
  have hl : l ∈ (sweep d o code).filter (·.pc == v.pc) := by
    rw [hfilter]
    exact List.mem_singleton_self l
  obtain ⟨hmem, hpc⟩ := List.mem_filter.mp hl
  have hofCode := eq_ofCode_of_mem_sweep hmem
  rw [beq_iff_eq.mp hpc] at hofCode
  rw [line, ← hofCode]
  exact hmem

/-- A listing has no other line at the words of an instruction. -/
theorem eq_line_of_inside (h : v.StandsIn d o code) {l : Line} (hl : l ∈ sweep d o code)
    (hle : v.pc ≤ l.pc) (hlt : l.pc < v.next) : l = v.line d o code := by
  refine eq_of_mem_sweep h.line_mem_sweep hl ?_ ?_
  · rw [pc_line]
    exact hle
  · rw [pc_line, h.words_line]
    exact hlt

end StandsIn

end Visit

/-! ## Instructions of a block -/

namespace Block

/-- An instruction of the section that stands at a word of the block. -/
structure Has (d : Decoder) (o : ByteOrder) (code : List UInt8) (b : Block) (v : Visit) : Prop where
  standsIn : v.StandsIn d o code
  start_le : b.start ≤ v.pc
  lt_stop : v.pc < b.stop

/-- The lines of the listing that stand at the words of the block. -/
def lines (d : Decoder) (o : ByteOrder) (code : List UInt8) (b : Block) : List Line :=
  (sweep d o code).filter fun l => b.start ≤ l.pc ∧ l.pc < b.stop

theorem mem_lines_iff {b : Block} {l : Line} :
    l ∈ b.lines d o code ↔ l ∈ sweep d o code ∧ b.start ≤ l.pc ∧ l.pc < b.stop := by
  rw [lines, List.mem_filter, decide_eq_true_eq]

end Block

namespace Walked

variable {u u' v : Visit}

open FlowGraph (insnsFrom isBlock_insnsFrom)

/-- The instructions that a block was made of are those that stand in it. -/
theorem has_iff (h : Walked d o code len queue vs) (hu : u ∈ vs) :
    (Block.ofChain u (insnsFrom len vs u)).Has d o code v ↔ v ∈ insnsFrom len vs u := by
  have hblock := isBlock_insnsFrom len vs u
  have hsub := hblock.subset_visits hu
  constructor
  · intro hv
    obtain ⟨w, hw, hle, hlt⟩ := hblock.exists_around hv.start_le hv.lt_stop
    have heq := (h.standsIn (hsub hw)).eq_of_inside hv.standsIn hle hlt
    rw [heq]
    exact hw
  · intro hv
    refine ⟨h.standsIn (hsub hv), hblock.le_pc hv, ?_⟩
    obtain ⟨last, hlast, hbefore⟩ := hblock.exists_last
    rw [Block.ofChain, hlast, Option.getD_some]
    exact hbefore v hv

theorem has_start (h : Walked d o code len queue vs) (hu : u ∈ vs) :
    (Block.ofChain u (insnsFrom len vs u)).Has d o code u :=
  (h.has_iff hu).mpr (isBlock_insnsFrom len vs u).start_mem

/-- A block shows the listing of its words. -/
theorem lines_eq (h : Walked d o code len queue vs) (hu : u ∈ vs) :
    (Block.ofChain u (insnsFrom len vs u)).lines d o code =
      (insnsFrom len vs u).map (Visit.line d o code) := by
  have hblock := isBlock_insnsFrom len vs u
  have hanti : Std.Antisymm fun l l' : Line => l.pc < l'.pc :=
    ⟨fun _ _ hlt hgt => absurd hlt (Nat.lt_asymm hgt)⟩
  have hirrefl : Std.Irrefl fun l l' : Line => l.pc < l'.pc := ⟨fun l => Nat.lt_irrefl l.pc⟩
  -- both lists ascend, so it is enough that they have the same members
  have hlines : ((Block.ofChain u (insnsFrom len vs u)).lines d o code).Pairwise
      fun l l' => l.pc < l'.pc :=
    (ascending_sweep d o code).filter _
  have hinsns : ((insnsFrom len vs u).map (Visit.line d o code)).Pairwise
      fun l l' => l.pc < l'.pc := by
    refine List.pairwise_map.mpr (hblock.pairwise_next_le.imp fun {v w} hle => ?_)
    rw [Visit.pc_line, Visit.pc_line]
    exact Nat.lt_of_lt_of_le v.pc_lt_next hle
  refine hlines.eq_of_mem_iff hinsns fun l => ?_
  rw [Block.mem_lines_iff, List.mem_map]
  constructor
  · rintro ⟨hl, hle, hlt⟩
    obtain ⟨w, hw, hwle, hwlt⟩ := hblock.exists_around hle hlt
    have hstands := h.standsIn (hblock.subset_visits hu hw)
    exact ⟨w, hw, (hstands.eq_line_of_inside hl hwle hwlt).symm⟩
  · rintro ⟨w, hw, rfl⟩
    have hhas := (h.has_iff hu).mpr hw
    rw [Visit.pc_line]
    exact ⟨hhas.standsIn.line_mem_sweep, hhas.start_le, hhas.lt_stop⟩

/-- A block ends before the next leader. -/
theorem stop_le (h : Walked d o code len queue vs) (hu : u ∈ vs) (hu' : u' ∈ vs)
    (hleader : isLeader (vs.flatMap (Visit.edges len)) u'.pc = true) (hlt : u.pc < u'.pc) :
    (Block.ofChain u (insnsFrom len vs u)).stop ≤ u'.pc := by
  refine Nat.le_of_not_lt fun hinside => ?_
  have hmem := (h.has_iff hu).mp ⟨h.standsIn hu', Nat.le_of_lt hlt, hinside⟩
  have heq := (isBlock_insnsFrom len vs u).eq_start_of_leader hmem hleader
  rw [heq] at hlt
  exact Nat.lt_irrefl _ hlt

/-- No instruction is in the blocks of two leaders. -/
theorem leader_unique (h : Walked d o code len queue vs) (hu : u ∈ vs) (hu' : u' ∈ vs)
    (hleader : isLeader (vs.flatMap (Visit.edges len)) u.pc = true)
    (hleader' : isLeader (vs.flatMap (Visit.edges len)) u'.pc = true)
    (hv : v ∈ insnsFrom len vs u) (hv' : v ∈ insnsFrom len vs u') : u = u' := by
  have hhas := (h.has_iff hu).mpr hv
  have hhas' := (h.has_iff hu').mpr hv'
  rcases Nat.lt_trichotomy u.pc u'.pc with hlt | heq | hgt
  · have hstop := h.stop_le hu hu' hleader' hlt
    exact absurd (Nat.lt_of_lt_of_le hhas.lt_stop hstop) (Nat.not_lt.mpr hhas'.start_le)
  · exact h.eq_of_pc_eq hu hu' heq
  · have hstop := h.stop_le hu' hu hleader hgt
    exact absurd (Nat.lt_of_lt_of_le hhas'.lt_stop hstop) (Nat.not_lt.mpr hhas.start_le)

/-- Sorted visits are in strictly ascending order. -/
theorem ascending_mergeSort (h : Walked d o code len queue vs) (p : Visit → Bool) :
    ((vs.filter p).mergeSort fun v w => v.pc ≤ w.pc).Pairwise fun v w => v.pc < w.pc := by
  have hsorted : ((vs.filter p).mergeSort fun v w => v.pc ≤ w.pc).Pairwise
      fun v w => decide (v.pc ≤ w.pc) = true := by
    refine List.pairwise_mergeSort ?_ ?_ _
    · intro a b c hab hbc
      exact decide_eq_true (Nat.le_trans (of_decide_eq_true hab) (of_decide_eq_true hbc))
    · intro a b
      rw [Bool.or_eq_true, decide_eq_true_eq, decide_eq_true_eq]
      exact Nat.le_total a.pc b.pc
  have hdistinct : ((vs.filter p).mergeSort fun v w => v.pc ≤ w.pc).Pairwise
      fun v w => v.pc ≠ w.pc := by
    rw [(List.mergeSort_perm _ _).pairwise_iff Ne.symm]
    exact (List.pairwise_map.mp h.distinct).filter p
  refine hsorted.imp₂ (fun v w hle hne => ?_) hdistinct
  exact Nat.lt_of_le_of_ne (of_decide_eq_true hle) hne

end Walked

/-! ## Main statement -/

namespace FlowGraph

/-- The blocks of a graph are the parts of a list of visits to a section, and edges pass from the
ends of parts to their starts. -/
structure Partitions (d : Decoder) (o : ByteOrder) (code : List UInt8) (vs : List Visit)
    (g : FlowGraph) : Prop where
  nonempty : ∀ b ∈ g.blocks, b.start < b.stop
  ascending : g.blocks.Pairwise fun b c => b.start < c.start ∧ b.stop ≤ c.start
  visited : ∀ b ∈ g.blocks, ∀ v, b.Has d o code v → v ∈ vs
  exactly_one : ∀ v ∈ vs, ∃ b ∈ g.blocks, b.Has d o code v ∧ b.insns.count v.text = 1 ∧
    ∀ c ∈ g.blocks, v.text ∈ c.insns → c = b
  listed : ∀ b ∈ g.blocks, b.insns = (b.lines d o code).map (·.render false) ∧
    ∀ l ∈ b.lines d o code, l.isError = false
  only_last : ∀ b ∈ g.blocks, ∀ v, b.Has d o code v → v.endsBlock = true → b.EndsWith v
  edge_source : ∀ e ∈ g.edges, ∃ b ∈ g.blocks, ∃ v, b.Has d o code v ∧ e.source = v.pc ∧
    b.EndsWith v
  edge_target : ∀ e ∈ g.edges, ∀ b ∈ g.blocks, ∀ v, b.Has d o code v → e.target = v.pc →
    v.pc = b.start

/-- A block shows each of its instructions once. -/
theorem count_text {u v : Visit} (hv : v ∈ insnsFrom len vs u) :
    (Block.ofChain u (insnsFrom len vs u)).insns.count v.text = 1 := by
  have hnodup : ((insnsFrom len vs u).map Visit.text).Nodup := by
    refine List.pairwise_map.mpr ((isBlock_insnsFrom len vs u).pairwise_next_le.imp ?_)
    intro w w' hle htext
    have hpc := Visit.pc_of_text htext
    have hlt := w.pc_lt_next
    omega
  exact List.count_eq_one_of_mem hnodup (List.mem_map_of_mem hv)

theorem partitions_ofVisits (h : Walked d o code len queue vs) :
    (ofVisits len vs).Partitions d o code vs where
  nonempty := by
    intro b hb
    obtain ⟨u, hu, -, rfl⟩ := mem_blocks_iff.mp hb
    exact (h.has_start hu).lt_stop
  ascending := by
    refine List.pairwise_map.mpr ((h.ascending_mergeSort _).imp_of_mem fun {u u'} hu hu' hlt => ?_)
    obtain ⟨hmem, -⟩ := List.mem_filter.mp (List.mem_mergeSort.mp hu)
    obtain ⟨hmem', hleader⟩ := List.mem_filter.mp (List.mem_mergeSort.mp hu')
    exact ⟨hlt, h.stop_le hmem hmem' hleader hlt⟩
  visited := by
    intro b hb v hv
    obtain ⟨u, hu, -, rfl⟩ := mem_blocks_iff.mp hb
    exact (isBlock_insnsFrom len vs u).subset_visits hu ((h.has_iff hu).mp hv)
  exactly_one := by
    intro v hv
    obtain ⟨u, hu, hleader, hin⟩ := exists_mem_insnsFrom h hv
    refine ⟨_, mem_blocks_iff.mpr ⟨u, hu, hleader, rfl⟩, (h.has_iff hu).mpr hin,
      count_text hin, ?_⟩
    intro c hc htext
    obtain ⟨u', hu', hleader', rfl⟩ := mem_blocks_iff.mp hc
    obtain ⟨w, hw, heq⟩ := List.mem_map.mp htext
    have hvisit := (isBlock_insnsFrom len vs u').subset_visits hu' hw
    rw [h.eq_of_pc_eq hvisit hv (Visit.pc_of_text heq)] at hw
    rw [h.leader_unique hu' hu hleader' hleader hw hin]
  listed := by
    intro b hb
    obtain ⟨u, hu, -, rfl⟩ := mem_blocks_iff.mp hb
    rw [h.lines_eq hu]
    constructor
    · rw [List.map_map]
      refine List.map_congr_left fun v hv => ?_
      exact ((h.has_iff hu).mpr hv).standsIn.render_line.symm
    · intro l hl
      obtain ⟨v, hv, rfl⟩ := List.mem_map.mp hl
      exact ((h.has_iff hu).mpr hv).standsIn.isError_line
  only_last := by
    intro b hb v hv hends
    obtain ⟨u, hu, -, rfl⟩ := mem_blocks_iff.mp hb
    have hin := (h.has_iff hu).mp hv
    exact Block.endsWith_ofChain ((isBlock_insnsFrom len vs u).getLast_of_stops hin (.inl hends))
  edge_source := by
    intro e he
    obtain ⟨v, hv, hedge⟩ := List.mem_flatMap.mp he
    have hends : v.endsBlock = true := by
      by_contra hfalls
      rw [Visit.edges_of_falls_through (Bool.eq_false_iff.mpr hfalls)] at hedge
      cases hedge
    obtain ⟨u, hu, hleader, hin⟩ := exists_mem_insnsFrom h hv
    have hlast := (isBlock_insnsFrom len vs u).getLast_of_stops hin (.inl hends)
    exact ⟨_, mem_blocks_iff.mpr ⟨u, hu, hleader, rfl⟩, v, (h.has_iff hu).mpr hin,
      Visit.source_of_mem_edges hedge, Block.endsWith_ofChain hlast⟩
  edge_target := by
    intro e he b hb v hv htarget
    obtain ⟨u, hu, -, rfl⟩ := mem_blocks_iff.mp hb
    have hleader : isLeader (vs.flatMap (Visit.edges len)) v.pc = true := by
      rw [← htarget]
      exact isLeader_of_mem he
    rw [(isBlock_insnsFrom len vs u).eq_start_of_leader ((h.has_iff hu).mp hv) hleader]
    rfl

/-- Blocks partition the visited instructions, for every section and every limit. They are not empty,
in strictly ascending order, and each ends before the next one starts. What stands in them was
visited, and every visit is shown by exactly one block, once. A block shows the lines of the listing
for its words, in order, and no line of a word that does not decode. Only its last instruction can
jump or exit. Every edge leaves the last instruction of a block, and none comes to an instruction of
a block other than its first one. -/
theorem blocks_partition (d : Decoder) (o : ByteOrder) (code : List UInt8) (limit : Nat) :
    (analyze d o code limit).Partitions d o code (visits d o code limit) := by
  obtain ⟨rest, hwalked⟩ := exists_walked_visits d o code limit
  exact partitions_ofVisits hwalked

end FlowGraph

end Ebpf
