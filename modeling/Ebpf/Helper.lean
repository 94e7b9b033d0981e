/-
  Helpers: functions outside the program that a call instruction reaches by
  number. A helper gets five arguments and the stack, may change the stack,
  and keeps a state of its own between calls. What a failing helper did to
  its state and to the stack stays done.

  A table keeps its helpers in ascending order of their numbers, one helper
  to a number; it carries the proof of that order, and registering a helper
  keeps it (`HelperTable.pairwise_insert`).
-/
import Ebpf.Event
import Ebpf.Stack

namespace Ebpf

/-- What one call of a helper leaves behind: a value or the reason of its
failure, the helper's new state, the stack, and what it wants logged. -/
structure Helper.Reply (σ : Type) where
  result : Except String UInt64
  state : σ
  stack : Stack
  events : List Event

/-- A named helper and its current state. -/
structure Helper (σ : Type) where
  name : String
  state : σ
  act : σ → Args → Stack → Helper.Reply σ

namespace HelperTable

variable {σ : Type}

/-- Puts a helper at its place in an ascending list, over an earlier one of the same number. -/
def insert (id : UInt32) (h : Helper σ) : List (UInt32 × Helper σ) → List (UInt32 × Helper σ)
  | [] => [(id, h)]
  | (k, g) :: rest =>
    if id < k then (id, h) :: (k, g) :: rest
    else if id = k then (id, h) :: rest
    else (k, g) :: insert id h rest

theorem mem_insert {id : UInt32} {h : Helper σ} {entries : List (UInt32 × Helper σ)}
    {e : UInt32 × Helper σ} (he : e ∈ insert id h entries) : e = (id, h) ∨ e ∈ entries := by
  induction entries with
  | nil => exact .inl (List.mem_singleton.mp he)
  | cons f rest ih =>
    rw [insert] at he
    split at he
    · exact List.mem_cons.mp he
    · split at he
      · rcases List.mem_cons.mp he with rfl | hrest
        · exact .inl rfl
        · exact .inr (List.mem_cons_of_mem f hrest)
      · rcases List.mem_cons.mp he with rfl | hrest
        · exact .inr List.mem_cons_self
        · exact (ih hrest).imp_right (List.mem_cons_of_mem f)

/-- An ascending list stays one. -/
theorem pairwise_insert (id : UInt32) (h : Helper σ) {entries : List (UInt32 × Helper σ)}
    (hp : entries.Pairwise fun e f => e.1 < f.1) :
    (insert id h entries).Pairwise fun e f => e.1 < f.1 := by
  induction entries with
  | nil => exact List.pairwise_singleton _ _
  | cons f rest ih =>
    obtain ⟨hhead, hrest⟩ := List.pairwise_cons.mp hp
    rw [insert]
    split
    · next hlt =>
      refine List.pairwise_cons.mpr ⟨fun e he => ?_, hp⟩
      rcases List.mem_cons.mp he with rfl | hmem
      · exact hlt
      · exact UInt32.lt_trans hlt (hhead e hmem)
    · next hge =>
      split
      · next heq =>
        refine List.pairwise_cons.mpr ⟨fun e he => ?_, hrest⟩
        rw [heq]
        exact hhead e he
      · next hne =>
        refine List.pairwise_cons.mpr ⟨fun e he => ?_, ih hrest⟩
        rcases mem_insert he with rfl | hmem
        · exact UInt32.lt_of_le_of_ne (UInt32.not_lt.mp hge) (Ne.symm hne)
        · exact hhead e hmem

end HelperTable

/-- Helpers by number: one helper to a number, in ascending order of the numbers. -/
structure HelperTable (σ : Type) where
  entries : List (UInt32 × Helper σ)
  ascending : entries.Pairwise fun e f => e.1 < f.1

namespace HelperTable

/-- The table without helpers. -/
def empty {σ : Type} : HelperTable σ := ⟨[], .nil⟩

/-- Registers a helper; an earlier one of the same number is gone, state and all. -/
def register {σ : Type} (t : HelperTable σ) (id : UInt32) (h : Helper σ) : HelperTable σ :=
  ⟨insert id h t.entries, pairwise_insert id h t.ascending⟩

/-- The helper of a number. -/
def find? {σ : Type} (t : HelperTable σ) (id : UInt32) : Option (Helper σ) :=
  t.entries.lookup id

/-- The name of the helper of a number. -/
def name? {σ : Type} (t : HelperTable σ) (id : UInt32) : Option String :=
  (t.find? id).map (·.name)

/-- What a call through the table leaves behind. -/
structure Call (σ : Type) where
  result : Except Fault UInt64
  table : HelperTable σ
  stack : Stack
  events : List Event

/-- Calls the helper of a number. -/
def call {σ : Type} (t : HelperTable σ) (id : UInt32) (args : Args) (stack : Stack) : Call σ :=
  match t.find? id with
  | none => { result := .error (.unknownHelper id), table := t, stack, events := [] }
  | some h =>
    let reply := h.act h.state args stack
    { result := reply.result.mapError (Fault.helper id)
      table := t.register id { h with state := reply.state }
      stack := reply.stack
      events := .helperCall id h.name args :: reply.events }

end HelperTable

end Ebpf
