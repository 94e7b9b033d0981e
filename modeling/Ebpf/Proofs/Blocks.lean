/-
  Blocks of a flow graph. `IsBlock` says without a bound which instructions make
  up the block that starts at a visit: each falls through to the next, and the
  last one jumps, exits, or stands right before a leader or a word that was not
  visited. `isBlock_chain` says that `chain` finds them; every statement about
  blocks is read off `IsBlock`.

  `exists_isBlock`: every visit is in the block of some leader. A visit that is
  no leader was reached by falling through from a smaller word, so the proof is
  by induction on the word.
-/
import Ebpf.Proofs.Walk

namespace Ebpf

/-! ## Edges of a visit -/

namespace Visit

variable {len : Nat} {v : Visit}

/-- A jump has an edge to every word that may follow it. -/
theorem targets_edges (h : v.endsBlock = true) :
    (v.edges len).map Edge.target = v.successors len := by
  unfold endsBlock at h
  unfold edges successors
  split at h
  · next hop =>
    rw [hop, List.map_map]
    exact List.map_id _
  · next hop =>
    rw [hop]
    dsimp only
    rw [List.map_append, List.map_map]
    congr 1
    · exact List.map_id _
    · split <;> rfl
  · next hop =>
    rw [hop]
    rfl
  · cases h

/-- An instruction that falls through has no edge. -/
theorem edges_of_falls_through (h : v.endsBlock = false) : v.edges len = [] := by
  unfold endsBlock at h
  unfold edges
  split at h
  · cases h
  · cases h
  · cases h
  · next hja hjmp _ =>
    split
    · next hop => exact absurd hop hja
    · next hop => exact absurd hop (hjmp _ _ _)
    · rfl

theorem successors_of_falls_through (h : v.endsBlock = false) : v.successors len = [v.next] := by
  unfold endsBlock at h
  unfold successors
  split at h
  · cases h
  · cases h
  · cases h
  · rfl

theorem source_of_mem_edges {e : Edge} (h : e ∈ v.edges len) : e.source = v.pc := by
  unfold edges at h
  split at h
  · obtain ⟨t, -, rfl⟩ := List.mem_map.mp h
    rfl
  · rcases List.mem_append.mp h with hjump | hnext
    · obtain ⟨t, -, rfl⟩ := List.mem_map.mp hjump
      rfl
    · split at hnext
      · rw [List.mem_singleton.mp hnext]
      · cases hnext
  · cases h

theorem pc_lt_next (v : Visit) : v.pc < v.next :=
  Nat.lt_add_of_pos_right v.slot.words_pos

end Visit

/-! ## Blocks without a bound -/

/-- The instructions of the block that starts at a visit. -/
inductive IsBlock (vs : List Visit) (edges : List Edge) : Visit → List Visit → Prop
  | last {v : Visit}
      (h : v.endsBlock = true ∨ isLeader edges v.next = true ∨
        vs.find? (·.pc == v.next) = none) : IsBlock vs edges v [v]
  | cons {v w : Visit} {run : List Visit} (hends : v.endsBlock = false)
      (hleader : isLeader edges v.next = false) (hfind : vs.find? (·.pc == v.next) = some w)
      (rest : IsBlock vs edges w run) : IsBlock vs edges v (v :: run)

variable {vs : List Visit} {edges : List Edge}

theorem pc_of_find {w : Visit} {pc : Nat} (h : vs.find? (·.pc == pc) = some w) :
    w ∈ vs ∧ w.pc = pc :=
  ⟨List.mem_of_find?_eq_some h, beq_iff_eq.mp (List.find?_some (p := fun u : Visit => u.pc == pc) h)⟩

/-- Fewer visits lie behind a visit than behind one before it. -/
theorem length_filter_lt {v w : Visit} (hw : w ∈ vs) (hlt : v.pc < w.pc) :
    (vs.filter (w.pc < ·.pc)).length < (vs.filter (v.pc < ·.pc)).length := by
  have hfilter : vs.filter (w.pc < ·.pc) = (vs.filter (v.pc < ·.pc)).filter (w.pc < ·.pc) := by
    rw [List.filter_filter]
    congr 1
    funext u
    rw [Bool.eq_iff_iff]
    simp only [decide_eq_true_eq, Bool.and_eq_true]
    omega
  rw [hfilter, List.length_filter_lt_length_iff_exists]
  refine ⟨w, List.mem_filter.mpr ⟨hw, ?_⟩, ?_⟩
  · exact decide_eq_true hlt
  · simp

/-- With room for all visits behind its start, a chain is a block. -/
theorem isBlock_chain (room : Nat) (v : Visit)
    (hroom : (vs.filter (v.pc < ·.pc)).length ≤ room) :
    IsBlock vs edges v (chain vs edges room v) := by
  induction room generalizing v with
  | zero =>
    refine .last (.inr (.inr ?_))
    -- a visit at the next word would be one of those behind `v`, of which there are none
    cases hfind : vs.find? (·.pc == v.next) with
    | none => rfl
    | some w =>
      obtain ⟨hw, hpc⟩ := pc_of_find hfind
      have hlt := length_filter_lt (v := v) hw (by rw [hpc]; exact v.pc_lt_next)
      omega
  | succ room ih =>
    rw [chain]
    split
    · next hstop =>
      rw [Bool.or_eq_true] at hstop
      exact .last (hstop.imp id .inl)
    · next hgo =>
      rw [Bool.or_eq_true, not_or, Bool.not_eq_true, Bool.not_eq_true] at hgo
      split
      · next hfind => exact .last (.inr (.inr hfind))
      · next w hfind =>
        obtain ⟨hw, hpc⟩ := pc_of_find hfind
        have hlt := length_filter_lt (v := v) hw (by rw [hpc]; exact v.pc_lt_next)
        exact .cons hgo.1 hgo.2 hfind (ih w (by omega))

namespace IsBlock

variable {v w : Visit} {run : List Visit}

theorem start_mem (h : IsBlock vs edges v run) : v ∈ run := by
  cases h with
  | last => exact List.mem_cons_self
  | cons => exact List.mem_cons_self

theorem le_pc (h : IsBlock vs edges v run) (hw : w ∈ run) : v.pc ≤ w.pc := by
  induction h with
  | last => exact Nat.le_of_eq (by rw [List.mem_singleton.mp hw])
  | @cons v u run hends hleader hfind rest ih =>
    rcases List.mem_cons.mp hw with rfl | hrest
    · exact Nat.le_refl _
    · have hnext := v.pc_lt_next
      have hu := (pc_of_find hfind).2
      have hle := ih hrest
      omega

/-- A block has a last instruction, and all others stand before its end. -/
theorem exists_last (h : IsBlock vs edges v run) :
    ∃ last, run.getLast? = some last ∧ ∀ w ∈ run, w.pc < last.next := by
  induction h with
  | @last v h =>
    refine ⟨v, rfl, fun w hw => ?_⟩
    rw [List.mem_singleton.mp hw]
    exact v.pc_lt_next
  | @cons v u run hends hleader hfind rest ih =>
    obtain ⟨last, hlast, hbefore⟩ := ih
    refine ⟨last, ?_, List.forall_mem_cons.mpr ⟨?_, hbefore⟩⟩
    · rw [List.getLast?_cons, hlast, Option.getD_some]
    · have hnext := v.pc_lt_next
      have hu := (pc_of_find hfind).2
      have hlt := hbefore u rest.start_mem
      omega

/-- A block goes on where its instructions fall through to visits that are no leaders. -/
theorem next_mem {u : Visit} (h : IsBlock vs edges v run) (hw : w ∈ run)
    (hends : w.endsBlock = false) (hleader : isLeader edges w.next = false)
    (hfind : vs.find? (·.pc == w.next) = some u) : u ∈ run := by
  induction h with
  | last h =>
    rw [List.mem_singleton.mp hw] at hends hleader hfind
    rw [hends, hleader, hfind] at h
    simp at h
  | cons _ _ hfind' rest ih =>
    rcases List.mem_cons.mp hw with rfl | hrest
    · rw [hfind] at hfind'
      cases hfind'
      exact List.mem_cons_of_mem _ rest.start_mem
    · exact List.mem_cons_of_mem _ (ih hrest)

/-- A block ends at a jump, at an exit and before a leader. -/
theorem getLast_of_stops (h : IsBlock vs edges v run) (hw : w ∈ run)
    (hstops : w.endsBlock = true ∨ isLeader edges w.next = true) : run.getLast? = some w := by
  induction h with
  | last => rw [List.mem_singleton.mp hw, List.getLast?_singleton]
  | cons hends hleader _ _ ih =>
    rcases List.mem_cons.mp hw with rfl | hrest
    · rw [hends, hleader] at hstops
      simp at hstops
    · rw [List.getLast?_cons, ih hrest, Option.getD_some]

theorem getLast_of_leader (h : IsBlock vs edges v run) (hw : w ∈ run)
    (hleader : isLeader edges w.next = true) : run.getLast? = some w :=
  h.getLast_of_stops hw (.inr hleader)

/-- No leader stands in a block behind its start. -/
theorem eq_start_of_leader (h : IsBlock vs edges v run) (hw : w ∈ run)
    (hleader : isLeader edges w.pc = true) : w = v := by
  induction h with
  | last => exact List.mem_singleton.mp hw
  | @cons v u run hends hnext hfind rest ih =>
    rcases List.mem_cons.mp hw with rfl | hrest
    · rfl
    · have heq := ih hrest
      rw [heq, (pc_of_find hfind).2, hnext] at hleader
      cases hleader

theorem subset_visits (h : IsBlock vs edges v run) (hv : v ∈ vs) : run ⊆ vs := by
  induction h with
  | last => exact List.cons_subset.mpr ⟨hv, List.nil_subset _⟩
  | cons _ _ hfind _ ih => exact List.cons_subset.mpr ⟨hv, ih (pc_of_find hfind).1⟩

/-- The instructions of a block stand one behind the other. -/
theorem pairwise_next_le (h : IsBlock vs edges v run) :
    run.Pairwise fun w u => w.next ≤ u.pc := by
  induction h with
  | last => exact List.pairwise_singleton _ _
  | cons _ _ hfind rest ih =>
    refine List.pairwise_cons.mpr ⟨fun u hu => ?_, ih⟩
    rw [← (pc_of_find hfind).2]
    exact rest.le_pc hu

/-- There is no gap in a block. -/
theorem exists_around (h : IsBlock vs edges v run) {pc : Nat} (hpc : v.pc ≤ pc)
    (hstop : pc < (run.getLast?.getD v).next) : ∃ w ∈ run, w.pc ≤ pc ∧ pc < w.next := by
  induction h with
  | @last v _ => exact ⟨v, List.mem_singleton_self v, hpc, hstop⟩
  | @cons v u run _ _ hfind rest ih =>
    by_cases hfirst : pc < v.next
    · exact ⟨v, List.mem_cons_self, hpc, hfirst⟩
    · have hu : u.pc ≤ pc := by
        rw [(pc_of_find hfind).2]
        exact Nat.not_lt.mp hfirst
      obtain ⟨last, hlast, -⟩ := rest.exists_last
      rw [List.getLast?_cons, hlast] at hstop
      rw [hlast] at ih
      obtain ⟨w, hw, haround⟩ := ih hu hstop
      exact ⟨w, List.mem_cons_of_mem v hw, haround⟩

end IsBlock

/-! ## Every visit is in a block -/

section Walked

variable {d : Decoder} {o : ByteOrder} {code : List UInt8} {len : Nat} {queue : List Nat}

/-- The instruction is the one that a section has at its word. -/
def Visit.StandsIn (d : Decoder) (o : ByteOrder) (code : List UInt8) (v : Visit) : Prop :=
  d.decode o (code.drop (Word.size * v.pc)) = .ok v.slot

theorem Visit.StandsIn.eq_of_pc_eq {v w : Visit} (hv : v.StandsIn d o code)
    (hw : w.StandsIn d o code) (hpc : v.pc = w.pc) : v = w := by
  have hslot : (.ok v.slot : Except Fault Slot) = .ok w.slot := by
    rw [← hv, ← hw, hpc]
  cases v
  cases w
  cases hslot
  cases hpc
  rfl

/-- No instruction starts at a later word of another. -/
theorem Visit.StandsIn.eq_of_inside {v w : Visit} (hv : v.StandsIn d o code)
    (hw : w.StandsIn d o code) (hle : v.pc ≤ w.pc) (hlt : w.pc < v.next) : w = v := by
  obtain ⟨k, hk⟩ := Nat.exists_eq_add_of_le hle
  by_cases hzero : k = 0
  · exact hw.eq_of_pc_eq hv (by omega)
  · have hinside : k < v.slot.words := by
      unfold next at hlt
      omega
    obtain ⟨f, hf⟩ := decode_inside hv (Nat.pos_of_ne_zero hzero) hinside
    rw [List.drop_drop, ← Nat.mul_add, ← hk, hw] at hf
    cases hf

theorem Walked.standsIn (h : Walked d o code len queue vs) {v : Visit} (hv : v ∈ vs) :
    v.StandsIn d o code :=
  h.decoded v hv

theorem Walked.eq_of_pc_eq (h : Walked d o code len queue vs) {v w : Visit} (hv : v ∈ vs)
    (hw : w ∈ vs) (hpc : v.pc = w.pc) : v = w :=
  (h.standsIn hv).eq_of_pc_eq (h.standsIn hw) hpc

theorem Walked.find_eq (h : Walked d o code len queue vs) {v : Visit} (hv : v ∈ vs) :
    vs.find? (·.pc == v.pc) = some v := by
  cases hfind : vs.find? (·.pc == v.pc) with
  | none =>
    have hnone := List.find?_eq_none.mp hfind v hv
    simp at hnone
  | some w =>
    obtain ⟨hw, hpc⟩ := pc_of_find hfind
    rw [h.eq_of_pc_eq hw hv hpc]

/-- A complete walk has visited what is due. -/
theorem Walked.mem_of_due (h : Walked d o code len [] vs) {v : Visit} (hdue : Due len vs v.pc)
    (hv : v.StandsIn d o code) (hin : v.pc < len) : v ∈ vs := by
  rcases h.covered v.pc hdue with hnil | ⟨w, hw, hpc⟩ | hout | ⟨f, hf⟩
  · cases hnil
  · rw [← (h.standsIn hw).eq_of_pc_eq hv hpc]
    exact hw
  · omega
  · rw [hv] at hf
    cases hf

theorem isLeader_of_mem {e : Edge} (h : e ∈ edges) : isLeader edges e.target = true := by
  rw [isLeader, Bool.or_eq_true]
  exact .inr (List.any_eq_true.mpr ⟨e, h, beq_self_eq_true _⟩)

/-- Every visit is in the block of a leader. -/
theorem Walked.exists_isBlock (h : Walked d o code len queue vs) {v : Visit} (hv : v ∈ vs) :
    ∃ u ∈ vs, isLeader (vs.flatMap (Visit.edges len)) u.pc = true ∧
      ∀ run, IsBlock vs (vs.flatMap (Visit.edges len)) u run → v ∈ run := by
  induction hpc : v.pc using Nat.strongRecOn generalizing v with
  | _ pc ih =>
    subst hpc
    cases hleader : isLeader (vs.flatMap (Visit.edges len)) v.pc with
    | true => exact ⟨v, hv, hleader, fun run hrun => hrun.start_mem⟩
    | false =>
      rcases h.due_seen v hv with hzero | ⟨w, hw, hsucc⟩
      · rw [isLeader, hzero] at hleader
        cases hleader
      · cases hends : w.endsBlock with
        | true =>
          -- a jump has an edge to `v`, which would make `v` a leader
          rw [← Visit.targets_edges hends] at hsucc
          obtain ⟨e, he, htarget⟩ := List.mem_map.mp hsucc
          have hmem : e ∈ vs.flatMap (Visit.edges len) := List.mem_flatMap.mpr ⟨w, hw, he⟩
          rw [← htarget, isLeader_of_mem hmem] at hleader
          cases hleader
        | false =>
          rw [Visit.successors_of_falls_through hends] at hsucc
          have hnext : v.pc = w.next := List.mem_singleton.mp hsucc
          have hlt : w.pc < v.pc := by
            rw [hnext]
            exact w.pc_lt_next
          obtain ⟨u, hu, hlead, hblock⟩ := ih w.pc hlt hw rfl
          refine ⟨u, hu, hlead, fun run hrun => ?_⟩
          have hfind := h.find_eq hv
          rw [hnext] at hleader hfind
          exact hrun.next_mem (hblock run hrun) hends hleader hfind

end Walked

/-! ## Blocks of a graph -/

/-- The block ends where the instruction does, and the text of the instruction is its last one. -/
structure Block.EndsWith (b : Block) (v : Visit) : Prop where
  stop : b.stop = v.next
  insns : b.insns.getLast? = some v.text

theorem Block.endsWith_ofChain {u v : Visit} {run : List Visit} (hlast : run.getLast? = some v) :
    (Block.ofChain u run).EndsWith v := by
  constructor
  · rw [ofChain, hlast, Option.getD_some]
  · rw [ofChain, List.getLast?_map, hlast, Option.map_some]

namespace FlowGraph

variable {len : Nat}

/-- The instructions of the block of a leader. -/
def insnsFrom (len : Nat) (vs : List Visit) (v : Visit) : List Visit :=
  chain vs (vs.flatMap (Visit.edges len)) vs.length v

theorem isBlock_insnsFrom (len : Nat) (vs : List Visit) (v : Visit) :
    IsBlock vs (vs.flatMap (Visit.edges len)) v (insnsFrom len vs v) :=
  isBlock_chain _ _ (List.length_filter_le _ _)

theorem exists_mem_insnsFrom {d : Decoder} {o : ByteOrder} {code : List UInt8} {queue : List Nat}
    (h : Walked d o code len queue vs) {v : Visit} (hv : v ∈ vs) :
    ∃ u ∈ vs, isLeader (vs.flatMap (Visit.edges len)) u.pc = true ∧ v ∈ insnsFrom len vs u := by
  obtain ⟨u, hu, hleader, hmem⟩ := h.exists_isBlock hv
  exact ⟨u, hu, hleader, hmem _ (isBlock_insnsFrom len vs u)⟩

theorem mem_blocks_iff {b : Block} :
    b ∈ (ofVisits len vs).blocks ↔
      ∃ v ∈ vs, isLeader (vs.flatMap (Visit.edges len)) v.pc = true ∧
        b = Block.ofChain v (insnsFrom len vs v) := by
  simp only [ofVisits, List.mem_map, List.mem_mergeSort, List.mem_filter]
  constructor
  · rintro ⟨v, ⟨hv, hleader⟩, rfl⟩
    exact ⟨v, hv, hleader, rfl⟩
  · rintro ⟨v, hv, hleader, rfl⟩
    exact ⟨v, ⟨hv, hleader⟩, rfl⟩

theorem mem_exits_iff {pc : Nat} :
    pc ∈ (ofVisits len vs).exits ↔ ∃ v ∈ vs, v.isExit = true ∧ v.pc = pc := by
  simp only [ofVisits, List.mem_mergeSort, List.mem_map, List.mem_filter, and_assoc]

theorem mem_strays_iff {pc : Nat} :
    pc ∈ (ofVisits len vs).strays ↔ ∃ v ∈ vs, v.isStray len = true ∧ v.pc = pc := by
  simp only [ofVisits, List.mem_mergeSort, List.mem_map, List.mem_filter, and_assoc]

end FlowGraph

end Ebpf
