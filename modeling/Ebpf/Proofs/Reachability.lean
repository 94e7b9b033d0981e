/-
  What a flow graph says, in terms of the section alone. `Reachable` is the least
  set of instructions that has the one at the first word, if there is one, and
  with an instruction those at the words that control may go on to from it. It
  mentions no queue, no order and no limit.

  The walk visits reachable instructions only (`Grounded`, kept by every round),
  and under a limit that is not below the number of words it visits all of them,
  because nothing is left that is due (`mem_visits_iff`). That every visit is due
  is not enough for the first half: the visits of a loop that is never entered
  would make one another due.

  `analyze_describes`: the blocks list the reachable instructions in ascending
  order, each once; exits, strays and edges are those of reachable instructions.
-/
import Ebpf.Proofs.Partition
import Mathlib.Data.List.Nodup

namespace Ebpf

/-! ## Where control may go -/

/-- Whether the operation is a conditional jump. -/
def Op.isConditional : Op → Bool
  | .jmp .. => true
  | _ => false

namespace Visit

/-- The word that a jump leads to, inside the section or not. -/
def destination (v : Visit) : Int :=
  v.pc + 1 + v.slot.insn.off.toInt

/-- Control may go on from an instruction to a word: to the one after it, unless it jumps
unconditionally or ends the program, and to the destination of a jump. -/
inductive Follows (v : Visit) (q : Int) : Prop
  | next (hja : v.slot.insn.op ≠ .ja) (hexit : v.slot.insn.op ≠ .exit)
      (hq : q = v.pc + v.slot.words)
  | jump (hop : v.slot.insn.op = .ja ∨ v.slot.insn.op.isConditional = true)
      (hq : q = v.destination)

/-- A jump whose destination, or whose next word if it may not be taken, is outside a section of
`len` words. -/
inductive LeadsOut (len : Nat) (v : Visit) : Prop
  | jump (hop : v.slot.insn.op = .ja ∨ v.slot.insn.op.isConditional = true)
      (hout : ¬(0 ≤ v.destination ∧ v.destination < len))
  | next (hop : v.slot.insn.op.isConditional = true) (hout : len ≤ v.pc + 1)

/-- The edges of an instruction: those of a jump, to words of the section. -/
inductive HasEdge (len : Nat) (v : Visit) : Edge → Prop
  | branch {t : Nat} (hop : v.slot.insn.op = .ja) (ht : (t : Int) = v.destination)
      (hin : t < len) : HasEdge len v ⟨v.pc, t, .branch⟩
  | condBranch {t : Nat} (hop : v.slot.insn.op.isConditional = true)
      (ht : (t : Int) = v.destination) (hin : t < len) : HasEdge len v ⟨v.pc, t, .condBranch⟩
  | fallthrough (hop : v.slot.insn.op.isConditional = true) (hin : v.pc + 1 < len) :
      HasEdge len v ⟨v.pc, v.pc + 1, .fallthrough⟩

end Visit

/-- The instructions of a section that control can come to from its first word. -/
inductive Reachable (d : Decoder) (o : ByteOrder) (code : List UInt8) : Visit → Prop
  | first {v : Visit} (hv : v.StandsIn d o code) (hin : v.pc < sectionWords code)
      (hpc : v.pc = 0) : Reachable d o code v
  | follow {u v : Visit} (hu : Reachable d o code u) (hv : v.StandsIn d o code)
      (hin : v.pc < sectionWords code) (hpc : u.Follows v.pc) : Reachable d o code v

variable {d : Decoder} {o : ByteOrder} {code : List UInt8} {len limit : Nat} {queue : List Nat}
  {seen vs : List Visit} {v : Visit}

/-! ## What the graph reads off an instruction -/

theorem Op.isConditional_iff {op : Op} : op.isConditional = true ↔ ∃ c w s, op = .jmp c w s := by
  constructor
  · intro h
    cases op with
    | jmp c w s => exact ⟨c, w, s, rfl⟩
    | _ => cases h
  · rintro ⟨c, w, s, rfl⟩
    rfl

namespace Visit

theorem target?_eq_destination (len : Nat) (v : Visit) :
    v.target? len =
      if 0 ≤ v.destination ∧ v.destination < len then some v.destination.toNat else none :=
  rfl

theorem target?_eq_some_iff {t : Nat} :
    v.target? len = some t ↔ (t : Int) = v.destination ∧ t < len := by
  rw [target?_eq_destination]
  split
  · rw [Option.some.injEq]
    omega
  · constructor
    · intro h
      cases h
    · intro h
      omega

theorem isNone_target?_iff :
    (v.target? len).isNone = true ↔ ¬(0 ≤ v.destination ∧ v.destination < len) := by
  rw [target?_eq_destination, Option.isNone_iff_eq_none, ite_eq_right_iff]
  simp

/-- Conditional jumps take one word. -/
theorem StandsIn.next_of_conditional (h : v.StandsIn d o code)
    (hop : v.slot.insn.op.isConditional = true) : v.next = v.pc + 1 := by
  have hwide := (decode_effect _ _ _).wide_eq_isWide h
  obtain ⟨c, w, s, hjmp⟩ := Op.isConditional_iff.mp hop
  rw [hjmp] at hwide
  rw [next, Slot.words, hwide]
  rfl

theorem follows_of_mem_successors {q : Nat} (h : q ∈ v.successors len) : v.Follows q := by
  unfold successors at h
  split at h
  · next hop =>
    rw [Option.mem_toList, target?_eq_some_iff] at h
    exact .jump (.inl hop) h.1
  · next hop =>
    rcases List.mem_append.mp h with htarget | hnext
    · rw [Option.mem_toList, target?_eq_some_iff] at htarget
      exact .jump (.inr (Op.isConditional_iff.mpr ⟨_, _, _, hop⟩)) htarget.1
    · split at hnext
      · rw [List.mem_singleton.mp hnext]
        exact .next (by rw [hop]; simp) (by rw [hop]; simp) rfl
      · cases hnext
  · cases h
  · next hja _ hexit =>
    rw [List.mem_singleton.mp h]
    exact .next hja hexit rfl

theorem mem_successors_of_follows {q : Nat} (h : v.Follows q) (hin : q < len) :
    q ∈ v.successors len := by
  cases h with
  | next hja hexit hq =>
    have heq : q = v.next := Int.ofNat.inj hq
    rw [heq] at hin ⊢
    exact next_mem_successors hja hexit hin
  | jump hop hq =>
    have htarget : q ∈ (v.target? len).toList :=
      Option.mem_toList.mpr (target?_eq_some_iff.mpr ⟨hq, hin⟩)
    rcases hop with hja | hcond
    · rw [successors, hja]
      exact htarget
    · obtain ⟨c, w, s, hjmp⟩ := Op.isConditional_iff.mp hcond
      rw [successors, hjmp]
      exact List.mem_append_left _ htarget

theorem isExit_iff : v.isExit = true ↔ v.slot.insn.op = .exit := by
  unfold isExit
  split
  · next hop => exact ⟨fun _ => hop, fun _ => rfl⟩
  · next hop => exact ⟨fun h => absurd h Bool.false_ne_true, fun h => absurd h hop⟩

theorem StandsIn.isStray_iff (h : v.StandsIn d o code) :
    v.isStray len = true ↔ v.LeadsOut len := by
  constructor
  · intro hstray
    unfold isStray at hstray
    split at hstray
    · next hop => exact .jump (.inl hop) (isNone_target?_iff.mp hstray)
    · next hop =>
      have hcond := Op.isConditional_iff.mpr ⟨_, _, _, hop⟩
      rw [Bool.or_eq_true, decide_eq_true_eq, h.next_of_conditional hcond] at hstray
      rcases hstray with htarget | hnext
      · exact .jump (.inr hcond) (isNone_target?_iff.mp htarget)
      · exact .next hcond hnext
    · cases hstray
  · rintro (⟨hja | hcond, hout⟩ | ⟨hcond, hout⟩)
    · rw [isStray, hja]
      exact isNone_target?_iff.mpr hout
    · obtain ⟨c, w, s, hjmp⟩ := Op.isConditional_iff.mp hcond
      rw [isStray, hjmp]
      exact Bool.or_eq_true_iff.mpr (.inl (isNone_target?_iff.mpr hout))
    · rw [← h.next_of_conditional hcond] at hout
      obtain ⟨c, w, s, hjmp⟩ := Op.isConditional_iff.mp hcond
      rw [isStray, hjmp]
      exact Bool.or_eq_true_iff.mpr (.inr (decide_eq_true hout))

theorem StandsIn.mem_edges_iff (h : v.StandsIn d o code) {e : Edge} :
    e ∈ v.edges len ↔ v.HasEdge len e := by
  constructor
  · intro he
    unfold edges at he
    split at he
    · next hop =>
      obtain ⟨t, ht, rfl⟩ := List.mem_map.mp he
      obtain ⟨heq, hin⟩ := target?_eq_some_iff.mp (Option.mem_toList.mp ht)
      exact .branch hop heq hin
    · next hop =>
      have hcond := Op.isConditional_iff.mpr ⟨_, _, _, hop⟩
      rcases List.mem_append.mp he with hjump | hnext
      · obtain ⟨t, ht, rfl⟩ := List.mem_map.mp hjump
        obtain ⟨heq, hin⟩ := target?_eq_some_iff.mp (Option.mem_toList.mp ht)
        exact .condBranch hcond heq hin
      · rw [h.next_of_conditional hcond] at hnext
        split at hnext
        · next hin =>
          rw [List.mem_singleton.mp hnext]
          exact .fallthrough hcond hin
        · cases hnext
    · cases he
  · intro he
    cases he with
    | branch hop ht hin =>
      rw [edges, hop]
      exact List.mem_map_of_mem (Option.mem_toList.mpr (target?_eq_some_iff.mpr ⟨ht, hin⟩))
    | condBranch hcond ht hin =>
      obtain ⟨c, w, s, hjmp⟩ := Op.isConditional_iff.mp hcond
      rw [edges, hjmp]
      refine List.mem_append_left _ (List.mem_map_of_mem ?_)
      exact Option.mem_toList.mpr (target?_eq_some_iff.mpr ⟨ht, hin⟩)
    | fallthrough hcond hin =>
      rw [← h.next_of_conditional hcond] at hin ⊢
      obtain ⟨c, w, s, hjmp⟩ := Op.isConditional_iff.mp hcond
      rw [edges, hjmp, if_pos hin]
      exact List.mem_append_right _ (List.mem_singleton_self _)

/-- The two edges of a conditional jump are of different kinds. -/
theorem nodup_edges (len : Nat) (v : Visit) : (v.edges len).Nodup := by
  unfold edges
  split
  · cases v.target? len <;> simp
  · cases v.target? len <;> split <;> simp
  · exact List.nodup_nil

end Visit

/-! ## The walk visits what can be reached -/

/-- A word that control may come to: the first one, or one that follows a reachable instruction. -/
def Awaited (d : Decoder) (o : ByteOrder) (code : List UInt8) (pc : Nat) : Prop :=
  pc = 0 ∨ ∃ v, Reachable d o code v ∧ v.Follows pc

theorem Awaited.reachable (h : Awaited d o code v.pc) (hv : v.StandsIn d o code)
    (hin : v.pc < sectionWords code) : Reachable d o code v := by
  rcases h with hzero | ⟨u, hu, hfollows⟩
  · exact .first hv hin hzero
  · exact .follow hu hv hin hfollows

theorem Reachable.standsIn (h : Reachable d o code v) : v.StandsIn d o code := by
  cases h with
  | first hv | follow _ hv => exact hv

/-- What was visited is reachable, and what is queued will be, if it is an instruction. -/
structure Grounded (d : Decoder) (o : ByteOrder) (code : List UInt8) (queue : List Nat)
    (seen : List Visit) : Prop where
  awaited : ∀ pc ∈ queue, Awaited d o code pc
  reachable : ∀ v ∈ seen, Reachable d o code v

namespace Grounded

theorem start (d : Decoder) (o : ByteOrder) (code : List UInt8) : Grounded d o code [0] [] where
  awaited := by simp [Awaited]
  reachable := by simp

theorem skip {pc : Nat} (h : Grounded d o code (pc :: queue) seen) :
    Grounded d o code queue seen where
  awaited := fun q hq => h.awaited q (List.mem_cons_of_mem pc hq)
  reachable := h.reachable

theorem visit (h : Grounded d o code (v.pc :: queue) seen) (hv : v.StandsIn d o code)
    (hin : v.pc < sectionWords code) :
    Grounded d o code (queue ++ v.successors len) (v :: seen) := by
  have hreach : Reachable d o code v := (h.awaited v.pc List.mem_cons_self).reachable hv hin
  refine ⟨fun q hq => ?_, List.forall_mem_cons.mpr ⟨hreach, h.reachable⟩⟩
  rcases List.mem_append.mp hq with hold | hsucc
  · exact h.awaited q (List.mem_cons_of_mem _ hold)
  · exact .inr ⟨v, hreach, Visit.follows_of_mem_successors hsucc⟩

/-- The walk visits reachable instructions only. -/
theorem reachable_of_mem_walk (h : Grounded d o code queue seen) {rounds : Nat}
    (hv : v ∈ walk d o code (sectionWords code) limit rounds queue seen) :
    Reachable d o code v := by
  induction rounds generalizing queue seen with
  | zero => exact h.reachable v (List.mem_reverse.mp hv)
  | succ rounds ih =>
    cases queue with
    | nil => exact h.reachable v (List.mem_reverse.mp hv)
    | cons pc queue =>
      rw [walk] at hv
      split at hv
      · exact h.reachable v (List.mem_reverse.mp hv)
      · split at hv
        · exact ih h.skip hv
        · next hopen =>
          split at hv
          · exact ih h.skip hv
          · next slot hd =>
            rw [not_or, Nat.not_le] at hopen
            exact ih (Grounded.visit (v := ⟨pc, slot⟩) h hd hopen.1) hv

end Grounded

/-- A complete walk has visited what can be reached. -/
theorem Reachable.mem_of_walked (h : Reachable d o code v)
    (hw : Walked d o code (sectionWords code) [] vs) : v ∈ vs := by
  induction h with
  | first hv hin hpc => exact hw.mem_of_due (.inl hpc) hv hin
  | @follow u v _ hv hin hfollows ih =>
    exact hw.mem_of_due (.inr ⟨u, ih, Visit.mem_successors_of_follows hfollows hin⟩) hv hin

theorem mem_visits_iff (hl : sectionWords code ≤ limit) :
    v ∈ visits d o code limit ↔ Reachable d o code v :=
  ⟨(Grounded.start d o code).reachable_of_mem_walk, fun h => h.mem_of_walked (walked_visits d o hl)⟩

/-! ## Lists of a graph -/

namespace FlowGraph

/-- The visits that blocks start with, in order. -/
def leaders (len : Nat) (vs : List Visit) : List Visit :=
  (vs.filter fun v => isLeader (vs.flatMap (Visit.edges len)) v.pc).mergeSort
    fun v w => v.pc ≤ w.pc

/-- The visits as the blocks list them. -/
def listed (len : Nat) (vs : List Visit) : List Visit :=
  (leaders len vs).flatMap (insnsFrom len vs)

theorem mem_leaders_iff {u : Visit} :
    u ∈ leaders len vs ↔ u ∈ vs ∧ isLeader (vs.flatMap (Visit.edges len)) u.pc = true := by
  rw [leaders, List.mem_mergeSort, List.mem_filter]

theorem flatMap_insns_blocks (len : Nat) (vs : List Visit) :
    (ofVisits len vs).blocks.flatMap Block.insns = (listed len vs).map Visit.text := by
  rw [ofVisits, List.flatMap_map, listed, List.map_flatMap]
  rfl

end FlowGraph

namespace Walked

open FlowGraph (insnsFrom isBlock_insnsFrom)

/-- The instructions of the block of a leader stand before those of the next one. -/
theorem pc_lt_of_leader {u u' v v' : Visit} (h : Walked d o code len queue vs) (hu : u ∈ vs)
    (hu' : u' ∈ vs) (hleader : isLeader (vs.flatMap (Visit.edges len)) u'.pc = true)
    (hlt : u.pc < u'.pc) (hv : v ∈ insnsFrom len vs u) (hv' : v' ∈ insnsFrom len vs u') :
    v.pc < v'.pc :=
  calc v.pc
    _ < (Block.ofChain u (insnsFrom len vs u)).stop := ((h.has_iff hu).mpr hv).lt_stop
    _ ≤ u'.pc := h.stop_le hu hu' hleader hlt
    _ ≤ v'.pc := (isBlock_insnsFrom len vs u').le_pc hv'

theorem ascending_listed (h : Walked d o code len queue vs) :
    (FlowGraph.listed len vs).Pairwise (·.pc < ·.pc) := by
  refine List.pairwise_flatMap.mpr ⟨fun u _ => ?_, (h.ascending_mergeSort _).imp_of_mem ?_⟩
  · refine (isBlock_insnsFrom len vs u).pairwise_next_le.imp fun {v w} hle => ?_
    exact Nat.lt_of_lt_of_le v.pc_lt_next hle
  · intro u u' hu hu' hlt v hv v' hv'
    obtain ⟨hvisit, -⟩ := FlowGraph.mem_leaders_iff.mp hu
    obtain ⟨hvisit', hleader⟩ := FlowGraph.mem_leaders_iff.mp hu'
    exact h.pc_lt_of_leader hvisit hvisit' hleader hlt hv hv'

theorem mem_listed_iff (h : Walked d o code len queue vs) :
    v ∈ FlowGraph.listed len vs ↔ v ∈ vs := by
  rw [FlowGraph.listed, List.mem_flatMap]
  constructor
  · rintro ⟨u, hu, hv⟩
    exact (isBlock_insnsFrom len vs u).subset_visits (FlowGraph.mem_leaders_iff.mp hu).1 hv
  · intro hv
    obtain ⟨u, hu, hleader, hin⟩ := FlowGraph.exists_mem_insnsFrom h hv
    exact ⟨u, FlowGraph.mem_leaders_iff.mpr ⟨hu, hleader⟩, hin⟩

/-- The words of some of the visits, sorted, are in strictly ascending order. -/
theorem ascending_pcs (h : Walked d o code len queue vs) (p : Visit → Bool) :
    ((vs.filter p).map Visit.pc).mergeSort.Pairwise (· < ·) := by
  have hsorted : ((vs.filter p).map Visit.pc).mergeSort.Pairwise (· ≤ ·) :=
    List.pairwise_mergeSort' _ _
  have hdistinct : ((vs.filter p).map Visit.pc).mergeSort.Nodup := by
    rw [(List.mergeSort_perm _ _).nodup_iff]
    exact h.distinct.sublist (List.filter_sublist.map Visit.pc)
  exact hsorted.imp₂ (fun a b hle hne => Nat.lt_of_le_of_ne hle hne) hdistinct

theorem nodup_edges (h : Walked d o code len queue vs) :
    (vs.flatMap (Visit.edges len)).Nodup := by
  refine List.nodup_flatMap.mpr ⟨fun v _ => v.nodup_edges len, ?_⟩
  -- edges of different visits have different sources
  refine (List.pairwise_map.mp h.distinct).imp fun {v w} hne e hv hw => hne ?_
  rw [← Visit.source_of_mem_edges hv, Visit.source_of_mem_edges hw]

end Walked

/-! ## Main statement -/

namespace FlowGraph

/-- A graph says of a section what can be reached in it, and nothing else. -/
structure Describes (d : Decoder) (o : ByteOrder) (code : List UInt8) (g : FlowGraph) : Prop where
  listed : ∃ us : List Visit, us.Pairwise (·.pc < ·.pc) ∧ (∀ v, v ∈ us ↔ Reachable d o code v) ∧
    g.blocks.flatMap Block.insns = us.map Visit.text
  exits_ascending : g.exits.Pairwise (· < ·)
  mem_exits : ∀ pc, pc ∈ g.exits ↔ ∃ v, Reachable d o code v ∧ v.pc = pc ∧ v.slot.insn.op = .exit
  strays_ascending : g.strays.Pairwise (· < ·)
  mem_strays : ∀ pc, pc ∈ g.strays ↔
    ∃ v, Reachable d o code v ∧ v.pc = pc ∧ v.LeadsOut (sectionWords code)
  edges_nodup : g.edges.Nodup
  mem_edges : ∀ e, e ∈ g.edges ↔ ∃ v, Reachable d o code v ∧ v.HasEdge (sectionWords code) e

/-- The graph of a section is what can be reached in it, for every section, byte order and decoder,
if the limit is not below the number of words. The lines of the blocks are those of the reachable
instructions, in ascending order and without repetition. Exits are, in ascending order, the words of
the reachable exits, and strays those of the reachable jumps that lead out of the section. Edges
are, without repetition, the jumps from reachable instructions to words of the section, and the ways
past those of them that are conditional. -/
theorem analyze_describes (d : Decoder) (o : ByteOrder) (code : List UInt8) (limit : Nat)
    (hl : sectionWords code ≤ limit) : (analyze d o code limit).Describes d o code where
  listed := by
    have hw := walked_visits d o hl
    refine ⟨_, hw.ascending_listed, fun v => ?_, flatMap_insns_blocks _ _⟩
    rw [hw.mem_listed_iff, mem_visits_iff hl]
  exits_ascending := (walked_visits d o hl).ascending_pcs _
  mem_exits := by
    intro pc
    rw [analyze, mem_exits_iff]
    constructor
    · rintro ⟨v, hv, hexit, hpc⟩
      exact ⟨v, (mem_visits_iff hl).mp hv, hpc, Visit.isExit_iff.mp hexit⟩
    · rintro ⟨v, hv, hpc, hop⟩
      exact ⟨v, (mem_visits_iff hl).mpr hv, Visit.isExit_iff.mpr hop, hpc⟩
  strays_ascending := (walked_visits d o hl).ascending_pcs _
  mem_strays := by
    intro pc
    rw [analyze, mem_strays_iff]
    constructor
    · rintro ⟨v, hv, hstray, hpc⟩
      have hreach := (mem_visits_iff hl).mp hv
      exact ⟨v, hreach, hpc, hreach.standsIn.isStray_iff.mp hstray⟩
    · rintro ⟨v, hv, hpc, hout⟩
      exact ⟨v, (mem_visits_iff hl).mpr hv, hv.standsIn.isStray_iff.mpr hout, hpc⟩
  edges_nodup := (walked_visits d o hl).nodup_edges
  mem_edges := by
    intro e
    rw [analyze, ofVisits, List.mem_flatMap]
    constructor
    · rintro ⟨v, hv, he⟩
      have hreach := (mem_visits_iff hl).mp hv
      exact ⟨v, hreach, hreach.standsIn.mem_edges_iff.mp he⟩
    · rintro ⟨v, hv, he⟩
      exact ⟨v, (mem_visits_iff hl).mpr hv, hv.standsIn.mem_edges_iff.mpr he⟩

/-- `jeq r1, 0, +2` over `exit` and a jump to itself, to a jump before the section. -/
def overLoop : List UInt8 :=
  [0x15, 1, 2, 0, 0, 0, 0, 0, 0x95, 0, 0, 0, 0, 0, 0, 0,
    0x05, 0, 0xff, 0xff, 0, 0, 0, 0, 0x05, 0, 0xfb, 0xff, 0, 0, 0, 0]

/-- The loop at word two decodes but is not reachable: it would have an edge to itself. The jump
behind it is reachable, leads out, and is listed. -/
theorem analyze_describes_loop :
    sectionWords overLoop ≤ 4 ∧
      (∃ v : Visit, v.StandsIn {} .little overLoop ∧ v.pc = 2 ∧
        ¬Reachable {} .little overLoop v) ∧
      (∃ v : Visit, Reachable {} .little overLoop v ∧ v.pc = 3 ∧ v.LeadsOut 4 ∧
        ∃ b ∈ (analyze {} .little overLoop 4).blocks, v.text ∈ b.insns) := by
  have hdescribes := analyze_describes {} .little overLoop 4 (by decide)
  refine ⟨by decide, ?_, ?_⟩
  · refine ⟨⟨2, ⟨⟨.ja, 0x05, 0, 0, -1, 0⟩, false⟩⟩, rfl, rfl, fun hreach => ?_⟩
    have hedge := (hdescribes.mem_edges ⟨2, 2, .branch⟩).mpr
      ⟨_, hreach, .branch rfl rfl (by decide)⟩
    revert hedge
    decide
  · have hstray : 3 ∈ (analyze {} .little overLoop 4).strays := by decide +kernel
    obtain ⟨v, hreach, hpc, hout⟩ := (hdescribes.mem_strays 3).mp hstray
    obtain ⟨us, -, hmem, hlines⟩ := hdescribes.listed
    have htext : v.text ∈ us.map Visit.text := List.mem_map_of_mem ((hmem v).mpr hreach)
    rw [← hlines] at htext
    exact ⟨v, hreach, hpc, hout, List.mem_flatMap.mp htext⟩

end FlowGraph

end Ebpf
