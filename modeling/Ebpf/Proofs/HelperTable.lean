/-
  Helper tables under calls. A call replaces the state of the helper it reached
  and nothing else in the table, so what is promised of every reply of every
  helper (`EveryReply`) is still promised after any number of calls.

  Two promises matter to the machine: that a helper leaves the stack alone when
  it fails (`FailsCleanly`), and that it never changes the stack's size
  (`KeepsStackSize`). The ready-made helpers make both.
-/
import Ebpf.Helper.Stock

namespace Ebpf

variable {σ : Type}

/-! ## Look-up -/

namespace HelperTable

theorem lookup_cons (k j : UInt32) (g : Helper σ) (rest : List (UInt32 × Helper σ)) :
    ((j, g) :: rest).lookup k = if k = j then some g else rest.lookup k := by
  rw [List.lookup_cons]
  by_cases hk : k = j
  · rw [beq_iff_eq.mpr hk, if_pos hk]
  · rw [beq_eq_false_iff_ne.mpr hk, if_neg hk]

theorem lookup_insert (id k : UInt32) (h : Helper σ) (entries : List (UInt32 × Helper σ)) :
    (insert id h entries).lookup k = if k = id then some h else entries.lookup k := by
  induction entries with
  | nil => rw [insert, lookup_cons]
  | cons entry rest ih =>
    obtain ⟨j, g⟩ := entry
    rw [insert]
    split
    · rw [lookup_cons]
    · split
      · next hj =>
        subst hj
        rw [lookup_cons, lookup_cons]
        split <;> rfl
      · next hj =>
        rw [lookup_cons, lookup_cons, ih]
        by_cases hk : k = id
        · rw [if_pos hk, if_pos hk, if_neg (by rw [hk]; exact hj)]
        · rw [if_neg hk, if_neg hk]

/-- A registration is found under its own number and hides nothing else. -/
theorem find?_register (t : HelperTable σ) (id k : UInt32) (h : Helper σ) :
    (t.register id h).find? k = if k = id then some h else t.find? k :=
  lookup_insert id k h t.entries

theorem mapError_eq_error_iff {α ε δ : Type} {x : Except ε α} {g : ε → δ} {e : δ} :
    x.mapError g = .error e ↔ ∃ reason, x = .error reason ∧ e = g reason := by
  cases x with
  | error reason =>
    constructor
    · intro h
      cases h
      exact ⟨reason, rfl, rfl⟩
    · rintro ⟨_, hr, rfl⟩
      cases hr
      rfl
  | ok v =>
    constructor
    · intro h
      cases h
    · rintro ⟨_, hr, -⟩
      cases hr

/-- A call fails for want of a helper, or for the helper's own reason. -/
theorem call_eq_error_iff {t : HelperTable σ} {id : UInt32} {args : Args} {stack : Stack}
    {f : Fault} :
    (t.call id args stack).result = .error f ↔
      (t.find? id = none ∧ f = .unknownHelper id) ∨
      ∃ h reason, t.find? id = some h ∧ (h.act h.state args stack).result = .error reason ∧
        f = .helper id reason := by
  unfold HelperTable.call
  cases hfind : t.find? id with
  | none => simp [eq_comm]
  | some h => simp [mapError_eq_error_iff]

/-! ## What every reply keeps to -/

/-- Every helper of a table, in every state it may be in, replies to every call
as `P` says of the stack it was given. -/
def EveryReply (P : Stack → Helper.Reply σ → Prop) (t : HelperTable σ) : Prop :=
  ∀ id h, t.find? id = some h → ∀ s args stack, P stack (h.act s args stack)

theorem EveryReply.empty (P : Stack → Helper.Reply σ → Prop) :
    (empty : HelperTable σ).EveryReply P := by
  intro id h hfind
  cases hfind

theorem EveryReply.register {P : Stack → Helper.Reply σ → Prop} {t : HelperTable σ}
    (ht : t.EveryReply P) (id : UInt32) {h : Helper σ}
    (hh : ∀ s args stack, P stack (h.act s args stack)) : (t.register id h).EveryReply P := by
  intro k g hg
  rw [find?_register] at hg
  split at hg
  · cases hg
    exact hh
  · exact ht k g hg

theorem EveryReply.call {P : Stack → Helper.Reply σ → Prop} {t : HelperTable σ}
    (ht : t.EveryReply P) (id : UInt32) (args : Args) (stack : Stack) :
    (t.call id args stack).table.EveryReply P := by
  unfold HelperTable.call
  split
  · exact ht
  · next h hfind => exact ht.register id (ht id h hfind)

end HelperTable

/-- A reply that reports a failure comes with the stack that the helper was given. -/
def Helper.FailsCleanly (stack : Stack) (reply : Helper.Reply σ) : Prop :=
  ∀ reason, reply.result = .error reason → reply.stack = stack

/-- A reply comes with a stack of the size that the helper was given. -/
def Helper.KeepsStackSize (stack : Stack) (reply : Helper.Reply σ) : Prop :=
  reply.stack.size = stack.size

namespace HelperTable

theorem EveryReply.stack_call_of_error {t : HelperTable σ} (ht : t.EveryReply Helper.FailsCleanly)
    {id : UInt32} {args : Args} {stack : Stack} {f : Fault}
    (hf : (t.call id args stack).result = .error f) : (t.call id args stack).stack = stack := by
  unfold HelperTable.call at hf ⊢
  split at hf
  · rfl
  · next h hfind =>
    obtain ⟨reason, hr, -⟩ := mapError_eq_error_iff.mp hf
    exact ht id h hfind _ _ _ reason hr

theorem EveryReply.size_call {t : HelperTable σ} (ht : t.EveryReply Helper.KeepsStackSize)
    (id : UInt32) (args : Args) (stack : Stack) :
    (t.call id args stack).stack.size = stack.size := by
  unfold HelperTable.call
  split
  · rfl
  · next h hfind => exact ht id h hfind _ _ _

end HelperTable

/-! ## Ready-made helpers -/

namespace Helper

theorem size_doubleCell {args : Args} {stack : Stack} {r : UInt64 × Stack}
    (h : doubleCell args stack = .ok r) : r.2.size = stack.size := by
  unfold doubleCell at h
  split at h
  · cases h
  · next v _ =>
    cases hs : stack.store .little args[0].toInt64 8 (2 * v) with
    | error e =>
      rw [hs] at h
      cases h
    | ok s =>
      rw [hs] at h
      cases h
      exact Stack.size_write hs

theorem Stock.failsCleanly (kind : Stock) (calls : UInt64) (args : Args) (stack : Stack) :
    FailsCleanly stack (kind.act calls args stack) := by
  intro reason h
  cases kind with
  | tracePrintk | sum | count | fail => rfl
  | double =>
    unfold Stock.act at h ⊢
    dsimp only at h ⊢
    split at h
    · rfl
    · cases h

theorem Stock.keepsStackSize (kind : Stock) (calls : UInt64) (args : Args) (stack : Stack) :
    KeepsStackSize stack (kind.act calls args stack) := by
  cases kind with
  | tracePrintk | sum | count | fail => rfl
  | double =>
    unfold KeepsStackSize Stock.act
    dsimp only
    split
    · rfl
    · next h => exact size_doubleCell h

end Helper

end Ebpf
