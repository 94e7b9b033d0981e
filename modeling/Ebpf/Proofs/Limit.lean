/-
  What a limit on the number of instructions takes away from a flow graph. The
  queue does not depend on the limit, so a walk that stops early has visited the
  first instructions of a longer one (`visits_eq_take`), and edges, exits and
  strays are read off the list of visits one by one. Blocks are not: where an edge
  was not found two of them stand as one, so graphs are compared by the lines that
  their blocks show.

  `analyze_limited`: a smaller limit only takes away, no graph shows more
  instructions than its limit, and from the number of reachable instructions on
  (`ncard_reachable`) the limit makes no difference.
-/
import Ebpf.Proofs.Reachability
import Mathlib.Data.Set.Card

namespace Ebpf

variable {d : Decoder} {o : ByteOrder} {code : List UInt8} {len limit limit' : Nat}
  {queue : List Nat} {vs : List Visit}

/-! ## Visits under a limit -/

/-- What has been visited stays, in its order. -/
theorem reverse_prefix_walk (d : Decoder) (o : ByteOrder) (code : List UInt8)
    (len limit rounds : Nat) (queue : List Nat) (seen : List Visit) :
    seen.reverse <+: walk d o code len limit rounds queue seen := by
  induction rounds generalizing queue seen with
  | zero => exact List.prefix_refl _
  | succ rounds ih =>
    match queue with
    | [] => exact List.prefix_refl _
    | pc :: queue =>
      rw [walk]
      split
      · exact List.prefix_refl _
      · split
        · exact ih queue seen
        · split
          · exact ih queue seen
          · next slot _ =>
            have hlonger := ih (queue ++ Visit.successors len ⟨pc, slot⟩) (⟨pc, slot⟩ :: seen)
            rw [List.reverse_cons] at hlonger
            exact (List.prefix_append _ _).trans hlonger

/-- A walk under a smaller limit is the beginning of the walk under a larger one. -/
theorem walk_eq_take (hle : limit ≤ limit') (rounds : Nat) (queue : List Nat) (seen : List Visit)
    (hseen : seen.length ≤ limit) :
    walk d o code len limit rounds queue seen =
      (walk d o code len limit' rounds queue seen).take limit := by
  have hall (seen : List Visit) (h : seen.length ≤ limit) :
      seen.reverse = seen.reverse.take limit := by
    rw [List.take_of_length_le (by rw [List.length_reverse]; exact h)]
  induction rounds generalizing queue seen with
  | zero => exact hall seen hseen
  | succ rounds ih =>
    match queue with
    | [] => exact hall seen hseen
    | pc :: queue =>
      by_cases hfull : limit ≤ seen.length
      · -- the walk under the smaller limit stops here, and the other one only adds to its visits
        have hlength : seen.reverse.length = limit := by
          rw [List.length_reverse]
          omega
        have hfirst := List.prefix_iff_eq_take.mp
          (reverse_prefix_walk d o code len limit' (rounds + 1) (pc :: queue) seen)
        rw [hlength] at hfirst
        rw [walk, if_pos hfull]
        exact hfirst
      · have hfull' : ¬limit' ≤ seen.length := by omega
        rw [walk, walk, if_neg hfull, if_neg hfull']
        split
        · exact ih queue seen hseen
        · split
          · exact ih queue seen hseen
          · next slot _ =>
            refine ih _ _ ?_
            rw [List.length_cons]
            omega

theorem visits_eq_take (d : Decoder) (o : ByteOrder) (code : List UInt8) (hle : limit ≤ limit') :
    visits d o code limit = (visits d o code limit').take limit :=
  walk_eq_take hle _ _ _ (Nat.zero_le _)

theorem visits_mono (d : Decoder) (o : ByteOrder) (code : List UInt8) (hle : limit ≤ limit') :
    visits d o code limit <+: visits d o code limit' := by
  rw [visits_eq_take d o code hle]
  exact List.take_prefix _ _

theorem length_visits_le (d : Decoder) (o : ByteOrder) (code : List UInt8) (limit : Nat) :
    (visits d o code limit).length ≤ limit := by
  rw [visits_eq_take d o code (Nat.le_refl limit)]
  exact List.length_take_le _ _

/-! ## Counting what can be reached -/

theorem setOf_reachable (d : Decoder) (o : ByteOrder) (hl : sectionWords code ≤ limit) :
    {v | Reachable d o code v} = {v | v ∈ visits d o code limit} := by
  ext v
  exact (mem_visits_iff hl).symm

theorem finite_reachable (d : Decoder) (o : ByteOrder) (code : List UInt8) :
    {v | Reachable d o code v}.Finite := by
  rw [setOf_reachable d o (Nat.le_refl _)]
  exact List.finite_toSet _

theorem Walked.nodup (h : Walked d o code len queue vs) : vs.Nodup :=
  h.distinct.of_map Visit.pc

/-- A complete walk counts the reachable instructions. -/
theorem ncard_reachable (d : Decoder) (o : ByteOrder) (hl : sectionWords code ≤ limit) :
    {v | Reachable d o code v}.ncard = (visits d o code limit).length := by
  have hnodup := (walked_visits d o hl).nodup
  rw [setOf_reachable d o hl, ← List.coe_toFinset, Set.ncard_coe_finset,
    List.toFinset_card_of_nodup hnodup]

theorem length_visits_le_ncard (d : Decoder) (o : ByteOrder) (code : List UInt8) (limit : Nat) :
    (visits d o code limit).length ≤ {v | Reachable d o code v}.ncard := by
  rw [ncard_reachable d o (Nat.le_max_left (sectionWords code) limit)]
  exact (visits_mono d o code (Nat.le_max_right _ _)).length_le

/-- A limit that leaves room for all reachable instructions makes no difference. -/
theorem visits_eq_of_ncard_le (h : {v | Reachable d o code v}.ncard ≤ limit)
    (h' : {v | Reachable d o code v}.ncard ≤ limit') :
    visits d o code limit = visits d o code limit' := by
  wlog hle : limit ≤ limit' generalizing limit limit'
  · exact (this h' h (Nat.le_of_not_le hle)).symm
  · have hlength := length_visits_le_ncard d o code limit'
    rw [visits_eq_take d o code hle]
    exact List.take_of_length_le (Nat.le_trans hlength h)

/-! ## What the blocks show -/

namespace FlowGraph

/-- The lines of the instructions that a graph shows, in the order of its blocks. -/
def shown (g : FlowGraph) : List String :=
  g.blocks.flatMap Block.insns

theorem mem_shown_iff (h : Walked d o code len queue vs) {text : String} :
    text ∈ (ofVisits len vs).shown ↔ ∃ v ∈ vs, v.text = text := by
  rw [shown, flatMap_insns_blocks, List.mem_map]
  simp only [h.mem_listed_iff]

theorem length_shown (h : Walked d o code len queue vs) :
    (ofVisits len vs).shown.length = vs.length := by
  have hlisted : (listed len vs).Nodup :=
    h.ascending_listed.imp fun {v w} hlt heq => Nat.ne_of_lt hlt (congrArg Visit.pc heq)
  have hperm : (listed len vs).Perm vs :=
    (List.perm_ext_iff_of_nodup hlisted h.nodup).mpr fun v => h.mem_listed_iff
  rw [shown, flatMap_insns_blocks, List.length_map, hperm.length_eq]

/-! ## Main statement -/

/-- A graph that says nothing which another does not say: its edges are the first ones of the other,
and its exits, strays and lines are among those of the other. -/
structure IsPart (g g' : FlowGraph) : Prop where
  edges : g.edges <+: g'.edges
  exits : g.exits ⊆ g'.exits
  strays : g.strays ⊆ g'.strays
  shown : g.shown ⊆ g'.shown

theorem isPart_ofVisits {queue' : List Nat} {vs' : List Visit} (h : Walked d o code len queue vs)
    (h' : Walked d o code len queue' vs') (hvs : vs <+: vs') :
    (ofVisits len vs).IsPart (ofVisits len vs') where
  edges := hvs.flatMap (Visit.edges len)
  exits := by
    intro pc hpc
    obtain ⟨v, hv, hexit⟩ := mem_exits_iff.mp hpc
    exact mem_exits_iff.mpr ⟨v, hvs.subset hv, hexit⟩
  strays := by
    intro pc hpc
    obtain ⟨v, hv, hstray⟩ := mem_strays_iff.mp hpc
    exact mem_strays_iff.mpr ⟨v, hvs.subset hv, hstray⟩
  shown := by
    intro text htext
    obtain ⟨v, hv, heq⟩ := (mem_shown_iff h).mp htext
    exact (mem_shown_iff h').mpr ⟨v, hvs.subset hv, heq⟩

/-- A limit only takes away, for every section, byte order and decoder. The blocks show no more
instructions than the limit. The graph under a smaller limit is a part of the one under a larger
limit. And all limits that are not below the number of reachable instructions, which is finite, give
the same graph. -/
theorem analyze_limited (d : Decoder) (o : ByteOrder) (code : List UInt8) :
    (∀ limit, (analyze d o code limit).shown.length ≤ limit) ∧
    (∀ limit limit', limit ≤ limit' →
      (analyze d o code limit).IsPart (analyze d o code limit')) ∧
    {v | Reachable d o code v}.Finite ∧
    ∀ limit limit', {v | Reachable d o code v}.ncard ≤ limit →
      {v | Reachable d o code v}.ncard ≤ limit' →
      analyze d o code limit = analyze d o code limit' := by
  refine ⟨?_, ?_, finite_reachable d o code, ?_⟩
  · intro limit
    obtain ⟨rest, hwalked⟩ := exists_walked_visits d o code limit
    rw [analyze, length_shown hwalked]
    exact length_visits_le d o code limit
  · intro limit limit' hle
    obtain ⟨rest, hwalked⟩ := exists_walked_visits d o code limit
    obtain ⟨rest', hwalked'⟩ := exists_walked_visits d o code limit'
    exact isPart_ofVisits hwalked hwalked' (visits_mono d o code hle)
  · intro limit limit' h h'
    rw [analyze, analyze, visits_eq_of_ncard_le h h']

/-- `mov r0, 1`, and `add r0, 1` with a jump back to it. -/
def backToAdd : List UInt8 :=
  [0xb7, 0, 0, 0, 1, 0, 0, 0, 0x07, 0, 0, 0, 1, 0, 0, 0, 0x05, 0, 0xfe, 0xff, 0, 0, 0, 0]

/-- Three instructions can be reached. Two of them make one block, which is none of the whole graph:
there the jump back cuts it. Its lines are still among those of the whole graph, which a limit of
three gives as well as any larger one. -/
theorem analyze_limited_backToAdd :
    {v | Reachable {} .little backToAdd v}.ncard = 3 ∧
      (analyze {} .little backToAdd 2).blocks.map Block.stop = [2] ∧
      (∀ b ∈ (analyze {} .little backToAdd 3).blocks, b.stop ≠ 2) ∧
      (analyze {} .little backToAdd 2).shown.length ≤ 2 ∧
      (analyze {} .little backToAdd 2).IsPart (analyze {} .little backToAdd 3) ∧
      analyze {} .little backToAdd 3 = analyze {} .little backToAdd 1000 := by
  have hcount : {v | Reachable {} .little backToAdd v}.ncard = 3 := by
    rw [ncard_reachable {} .little (show sectionWords backToAdd ≤ 3 by decide)]
    decide
  have hcut : ∀ v ∈ visits {} .little backToAdd 3,
      isLeader (analyze {} .little backToAdd 3).edges v.pc = true →
        (Block.ofChain v (insnsFrom 3 (visits {} .little backToAdd 3) v)).stop ≠ 2 := by decide
  obtain ⟨hlength, hpart, -, hequal⟩ := analyze_limited {} .little backToAdd
  refine ⟨hcount, by decide +kernel, ?_, hlength 2, hpart 2 3 (by decide), ?_⟩
  · intro b hb
    obtain ⟨v, hv, hleader, rfl⟩ := mem_blocks_iff.mp hb
    exact hcut v hv hleader
  · exact hequal 3 1000 (by rw [hcount]) (by rw [hcount]; decide)

end FlowGraph

end Ebpf
