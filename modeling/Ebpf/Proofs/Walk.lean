/-
  The walk through a section. `Walked` is its invariant, over the queue and the
  visits so far. A word is due if it is the first one or follows a visit; every
  due word is queued or settled: visited, outside the section, or not decodable.

  `exists_walked_visits`: the visits satisfy the invariant with what is left of
  the queue, under any limit. `walked_visits`: if the limit is not below the
  number of words, nothing is left. The walk stops early only when it has visited
  every word, and the number of words taken from the queue suffices.
-/
import Ebpf.FlowGraph
import Ebpf.Proofs.Decode
import Mathlib.Data.List.Perm.Subperm

namespace Ebpf

/-! ## The invariant -/

/-- A word that control may come to: the first one, or one that follows a visit. -/
def Due (len : Nat) (seen : List Visit) (pc : Nat) : Prop :=
  pc = 0 ∨ ∃ v ∈ seen, pc ∈ v.successors len

/-- A word that needs no visit any more. -/
def Settled (d : Decoder) (o : ByteOrder) (code : List UInt8) (len : Nat) (seen : List Visit)
    (pc : Nat) : Prop :=
  (∃ v ∈ seen, v.pc = pc) ∨ len ≤ pc ∨ ∃ f, d.decode o (code.drop (Word.size * pc)) = .error f

/-- What the walk through a section of `len` words keeps to. -/
structure Walked (d : Decoder) (o : ByteOrder) (code : List UInt8) (len : Nat) (queue : List Nat)
    (seen : List Visit) : Prop where
  inside : ∀ v ∈ seen, v.pc < len
  decoded : ∀ v ∈ seen, d.decode o (code.drop (Word.size * v.pc)) = .ok v.slot
  distinct : (seen.map Visit.pc).Nodup
  due_seen : ∀ v ∈ seen, Due len seen v.pc
  due_queue : ∀ pc ∈ queue, Due len seen pc
  covered : ∀ pc, Due len seen pc → pc ∈ queue ∨ Settled d o code len seen pc

theorem Due.mono {len pc : Nat} {seen seen' : List Visit} (h : Due len seen pc)
    (hsub : seen ⊆ seen') : Due len seen' pc := by
  rcases h with hzero | ⟨v, hv, hpc⟩
  · exact .inl hzero
  · exact .inr ⟨v, hsub hv, hpc⟩

variable {d : Decoder} {o : ByteOrder} {code : List UInt8} {len limit pc : Nat} {queue : List Nat}
  {seen : List Visit}

theorem Settled.mono {seen' : List Visit} (h : Settled d o code len seen pc)
    (hsub : seen ⊆ seen') : Settled d o code len seen' pc := by
  rcases h with ⟨v, hv, hpc⟩ | hrest
  · exact .inl ⟨v, hsub hv, hpc⟩
  · exact .inr hrest

theorem Visit.length_successors (len : Nat) (v : Visit) : (v.successors len).length ≤ 2 := by
  have htarget : (v.target? len).toList.length ≤ 1 := by
    cases v.target? len with
    | none => exact Nat.zero_le 1
    | some t => exact Nat.le_refl 1
  unfold successors
  split
  · omega
  · rw [List.length_append]
    split
    · exact Nat.add_le_add htarget (Nat.le_refl 1)
    · exact Nat.le_trans htarget (by decide)
  · exact Nat.zero_le 2
  · exact Nat.le_succ 1

namespace Walked

/-! ## One round of the walk -/

theorem start (d : Decoder) (o : ByteOrder) (code : List UInt8) (len : Nat) :
    Walked d o code len [0] [] where
  inside := by simp
  decoded := by simp
  distinct := by simp
  due_seen := by simp
  due_queue := by simp [Due]
  covered := by simp [Due]

/-- A settled word is taken from the queue. -/
theorem skip (h : Walked d o code len (pc :: queue) seen) (hpc : Settled d o code len seen pc) :
    Walked d o code len queue seen where
  inside := h.inside
  decoded := h.decoded
  distinct := h.distinct
  due_seen := h.due_seen
  due_queue := fun q hq => h.due_queue q (List.mem_cons_of_mem pc hq)
  covered := by
    intro q hq
    rcases h.covered q hq with hmem | hsettled
    · rcases List.mem_cons.mp hmem with rfl | hlater
      · exact .inr hpc
      · exact .inl hlater
    · exact .inr hsettled

/-- A word is visited and what follows it is queued. -/
theorem visit (h : Walked d o code len (pc :: queue) seen) {slot : Slot} (hlt : pc < len)
    (hnew : ∀ v ∈ seen, v.pc ≠ pc) (hd : d.decode o (code.drop (Word.size * pc)) = .ok slot) :
    Walked d o code len (queue ++ Visit.successors len ⟨pc, slot⟩) (⟨pc, slot⟩ :: seen) := by
  have hsub : seen ⊆ ⟨pc, slot⟩ :: seen := List.subset_cons_self _ _
  refine ⟨?_, ?_, ?_, ?_, ?_, ?_⟩
  · exact List.forall_mem_cons.mpr ⟨hlt, h.inside⟩
  · exact List.forall_mem_cons.mpr ⟨hd, h.decoded⟩
  · rw [List.map_cons, List.nodup_cons]
    refine ⟨fun hmem => ?_, h.distinct⟩
    obtain ⟨v, hv, heq⟩ := List.mem_map.mp hmem
    exact hnew v hv heq
  · refine List.forall_mem_cons.mpr ⟨?_, fun v hv => (h.due_seen v hv).mono hsub⟩
    exact (h.due_queue pc List.mem_cons_self).mono hsub
  · intro q hq
    rcases List.mem_append.mp hq with hold | hsucc
    · exact (h.due_queue q (List.mem_cons_of_mem pc hold)).mono hsub
    · exact .inr ⟨_, List.mem_cons_self, hsucc⟩
  · intro q hq
    -- what was due before is queued, settled or the word itself; the rest is newly queued
    have hold (hq : Due len seen q) : q ∈ queue ++ Visit.successors len ⟨pc, slot⟩ ∨
        Settled d o code len (⟨pc, slot⟩ :: seen) q := by
      rcases h.covered q hq with hmem | hsettled
      · rcases List.mem_cons.mp hmem with rfl | hlater
        · exact .inr (.inl ⟨_, List.mem_cons_self, rfl⟩)
        · exact .inl (List.mem_append_left _ hlater)
      · exact .inr (hsettled.mono hsub)
    rcases hq with hzero | ⟨v, hv, hsucc⟩
    · exact hold (.inl hzero)
    · rcases List.mem_cons.mp hv with rfl | hseen
      · exact .inl (List.mem_append_right _ hsucc)
      · exact hold (.inr ⟨v, hseen, hsucc⟩)

theorem reverse (h : Walked d o code len queue seen) :
    Walked d o code len queue seen.reverse := by
  have hsub : seen ⊆ seen.reverse := fun v hv => List.mem_reverse.mpr hv
  have hsub' : seen.reverse ⊆ seen := fun v hv => List.mem_reverse.mp hv
  refine ⟨?_, ?_, ?_, ?_, ?_, ?_⟩
  · exact fun v hv => h.inside v (hsub' hv)
  · exact fun v hv => h.decoded v (hsub' hv)
  · rw [List.map_reverse]
    exact (List.reverse_perm _).nodup_iff.mpr h.distinct
  · exact fun v hv => (h.due_seen v (hsub' hv)).mono hsub
  · exact fun q hq => (h.due_queue q hq).mono hsub
  · exact fun q hq => (h.covered q (hq.mono hsub')).imp id (·.mono hsub)

/-! ## Counting -/

theorem subset_range (h : Walked d o code len queue seen) :
    seen.map Visit.pc ⊆ List.range len := by
  intro pc hpc
  obtain ⟨v, hv, rfl⟩ := List.mem_map.mp hpc
  exact List.mem_range.mpr (h.inside v hv)

/-- There are no more visits than words. -/
theorem length_le (h : Walked d o code len queue seen) : seen.length ≤ len := by
  have hle := (List.subperm_of_subset h.distinct h.subset_range).length_le
  rw [List.length_map, List.length_range] at hle
  exact hle

/-- With as many visits as words, every word is visited. -/
theorem mem_of_length_le (h : Walked d o code len queue seen) (hlen : len ≤ seen.length)
    (hpc : pc < len) : ∃ v ∈ seen, v.pc = pc := by
  have hperm : (seen.map Visit.pc).Perm (List.range len) := by
    refine (List.subperm_of_subset h.distinct h.subset_range).perm_of_length_le ?_
    rw [List.length_map, List.length_range]
    exact hlen
  have hmem : pc ∈ seen.map Visit.pc := hperm.mem_iff.mpr (List.mem_range.mpr hpc)
  exact List.mem_map.mp hmem

/-- With as many visits as words, the queue does not matter. -/
theorem of_length_le (h : Walked d o code len queue seen) (hlen : len ≤ seen.length) :
    Walked d o code len [] seen := by
  refine ⟨h.inside, h.decoded, h.distinct, h.due_seen, by simp, fun pc _ => .inr ?_⟩
  by_cases hpc : pc < len
  · exact .inl (h.mem_of_length_le hlen hpc)
  · exact .inr (.inl (Nat.not_lt.mp hpc))

end Walked

/-! ## The whole walk -/

/-- The walk keeps its invariant. If it was given rounds for every word that can still be queued, it
leaves nothing in the queue, unless it met the limit. -/
theorem exists_walked_walk (limit rounds : Nat) (h : Walked d o code len queue seen) :
    ∃ rest, Walked d o code len rest (walk d o code len limit rounds queue seen) ∧
      (queue.length + 2 * (len - seen.length) ≤ rounds →
        rest = [] ∨ limit ≤ (walk d o code len limit rounds queue seen).length) := by
  induction rounds generalizing queue seen with
  | zero =>
    refine ⟨queue, h.reverse, fun hrounds => .inl ?_⟩
    exact List.eq_nil_of_length_eq_zero (by omega)
  | succ rounds ih =>
    cases queue with
    | nil => exact ⟨[], h.reverse, fun _ => .inl rfl⟩
    | cons pc queue =>
      rw [walk]
      split
      · next hfull =>
        refine ⟨_, h.reverse, fun _ => .inr ?_⟩
        rw [List.length_reverse]
        exact hfull
      · split
        · next hdone =>
          have hsettled : Settled d o code len seen pc := by
            rcases hdone with hout | hseen
            · exact .inr (.inl hout)
            · obtain ⟨v, hv, heq⟩ := List.any_eq_true.mp hseen
              exact .inl ⟨v, hv, beq_iff_eq.mp heq⟩
          obtain ⟨rest, hrest, hfuel⟩ := ih (h.skip hsettled)
          refine ⟨rest, hrest, fun hrounds => hfuel ?_⟩
          rw [List.length_cons] at hrounds
          omega
        · next hopen =>
          rw [not_or] at hopen
          split
          · next f hd =>
            obtain ⟨rest, hrest, hfuel⟩ := ih (h.skip (.inr (.inr ⟨f, hd⟩)))
            refine ⟨rest, hrest, fun hrounds => hfuel ?_⟩
            rw [List.length_cons] at hrounds
            omega
          · next slot hd =>
            have hnew : ∀ v ∈ seen, v.pc ≠ pc := fun v hv heq =>
              hopen.2 (List.any_eq_true.mpr ⟨v, hv, beq_iff_eq.mpr heq⟩)
            have hvisit := h.visit (Nat.not_le.mp hopen.1) hnew hd
            have hroom := hvisit.length_le
            have hsucc := Visit.length_successors len ⟨pc, slot⟩
            obtain ⟨rest, hrest, hfuel⟩ := ih hvisit
            refine ⟨rest, hrest, fun hrounds => hfuel ?_⟩
            rw [List.length_cons] at hrounds hroom ⊢
            rw [List.length_append]
            omega

theorem exists_walked_visits (d : Decoder) (o : ByteOrder) (code : List UInt8) (limit : Nat) :
    ∃ rest, Walked d o code (sectionWords code) rest (visits d o code limit) := by
  obtain ⟨rest, hrest, -⟩ := exists_walked_walk limit (2 * sectionWords code + 1)
    (Walked.start d o code (sectionWords code))
  exact ⟨rest, hrest⟩

/-- Under a limit that is not below the number of words, the walk is complete. -/
theorem walked_visits (d : Decoder) (o : ByteOrder) {code : List UInt8} {limit : Nat}
    (hl : sectionWords code ≤ limit) :
    Walked d o code (sectionWords code) [] (visits d o code limit) := by
  obtain ⟨rest, hrest, hfuel⟩ := exists_walked_walk limit (2 * sectionWords code + 1)
    (Walked.start d o code (sectionWords code))
  have hrounds : [0].length + 2 * (sectionWords code - ([] : List Visit).length) ≤
      2 * sectionWords code + 1 := by
    simp only [List.length_cons, List.length_nil]
    omega
  rcases hfuel hrounds with hnil | hfull
  · rw [hnil] at hrest
    exact hrest
  · exact hrest.of_length_le (Nat.le_trans hl hfull)

end Ebpf
