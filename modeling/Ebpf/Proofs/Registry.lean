/-
  The history of a helper table. A table starts empty and is then asked to
  register helpers, to name them and to call them, in any order. What it answers
  about a number depends on nothing but the requests for that number: the helper
  that was last registered under it, and the calls it got since then, whether they
  failed or not (`find?_of_lastRegistered`).

  `find?_after` says what one request does to one number; what a history does is
  read off it by induction. `entries_independent` is the main statement. It also
  says that the text of a table shows the names of its helpers in ascending order
  of their numbers, and nothing of its history.
-/
import Ebpf.Helper.Text
import Ebpf.Proofs.HelperTable
import Mathlib.Data.List.Perm.Basic
import Mathlib.Data.List.Pairwise

namespace Ebpf

variable {σ τ : Type}

/-! ## One helper under calls -/

/-- The state of a helper after calls, each with its arguments and the stack it was given. -/
def Helper.stateAfter (h : Helper σ) (calls : List (Args × Stack)) : σ :=
  calls.foldl (fun s c => (h.act s c.1 c.2).state) h.state

/-- A helper after calls: only its state has changed. -/
def Helper.afterCalls (h : Helper σ) (calls : List (Args × Stack)) : Helper σ :=
  { h with state := h.stateAfter calls }

theorem Helper.afterCalls_append (h : Helper σ) (calls calls' : List (Args × Stack)) :
    h.afterCalls (calls ++ calls') = (h.afterCalls calls).afterCalls calls' := by
  unfold afterCalls stateAfter
  rw [List.foldl_append]

theorem Helper.map_afterCalls_nil (h? : Option (Helper σ)) :
    (h?.map fun h => h.afterCalls []) = h? := by
  cases h? <;> rfl

namespace HelperTable

/-! ## Requests -/

/-- A request to a table. -/
inductive Request (σ : Type) where
  | register (id : UInt32) (h : Helper σ)
  | name (id : UInt32)
  | call (id : UInt32) (args : Args) (stack : Stack)

namespace Request

/-- The helper that a request puts under a number. -/
def helper? (id : UInt32) : Request σ → Option (Helper σ)
  | register k h => if k = id then some h else none
  | name _ => none
  | call _ _ _ => none

/-- The arguments and the stack with which a request calls a number. -/
def callTo? (id : UInt32) : Request σ → Option (Args × Stack)
  | register _ _ => none
  | name _ => none
  | call k args stack => if k = id then some (args, stack) else none

/-- A request that registers or calls a number. -/
def concerns (id : UInt32) (r : Request σ) : Bool :=
  (r.helper? id).isSome || (r.callTo? id).isSome

theorem helper?_eq_some_iff {id : UInt32} {r : Request σ} {h : Helper σ} :
    r.helper? id = some h ↔ r = register id h := by
  cases r with
  | register k g =>
    rw [helper?]
    split
    · next hk => simp [hk]
    · next hk => simp [hk]
  | name k => simp [helper?]
  | call k args stack => simp [helper?]

end Request

/-- The table after a request. -/
def after (t : HelperTable σ) : Request σ → HelperTable σ
  | .register id h => t.register id h
  | .name _ => t
  | .call id args stack => (t.call id args stack).table

/-- The table that requests have made of the empty one. -/
def afterAll (rs : List (Request σ)) : HelperTable σ :=
  rs.foldl after empty

/-- What the caller sees of a call. -/
def Call.seen (c : Call σ) : Except Fault UInt64 × Stack × List Event :=
  (c.result, c.stack, c.events)

/-- What the caller sees depends on the helper that is found. -/
theorem seen_call_congr {t u : HelperTable σ} {id : UInt32} (h : t.find? id = u.find? id)
    (args : Args) (stack : Stack) :
    (t.call id args stack).seen = (u.call id args stack).seen := by
  unfold call
  rw [h]
  split <;> rfl

/-- One request changes the helper of a number if it registers one there, or if it calls it. -/
theorem find?_after (t : HelperTable σ) (r : Request σ) (id : UInt32) :
    (t.after r).find? id =
      (r.helper? id).or ((t.find? id).map fun h => h.afterCalls (r.callTo? id).toList) := by
  cases r with
  | register k h =>
    rw [after, find?_register, Request.helper?]
    by_cases hk : k = id
    · rw [if_pos hk.symm, if_pos hk, Option.some_or]
    · rw [if_neg (Ne.symm hk), if_neg hk, Option.none_or]
      exact (Helper.map_afterCalls_nil _).symm
  | name k => exact (Helper.map_afterCalls_nil _).symm
  | call k args stack =>
    rw [after, Request.helper?, Request.callTo?, Option.none_or, call]
    by_cases hk : k = id
    · subst hk
      rw [if_pos rfl]
      split
      · next hfind => rw [hfind, Option.map_none]
      · next h hfind =>
        rw [find?_register, if_pos rfl, hfind, Option.map_some]
        rfl
    · rw [if_neg hk]
      split
      · exact (Helper.map_afterCalls_nil _).symm
      · rw [find?_register, if_neg (Ne.symm hk)]
        exact (Helper.map_afterCalls_nil _).symm

/-! ## Histories -/

/-- As long as nothing is registered under a number, its helper gets the calls and stays. -/
theorem find?_foldl_of_unregistered {id : UInt32} {rs : List (Request σ)}
    (hrs : ∀ h, Request.register id h ∉ rs) (t : HelperTable σ) :
    (rs.foldl after t).find? id =
      (t.find? id).map fun h => h.afterCalls (rs.filterMap (·.callTo? id)) := by
  induction rs generalizing t with
  | nil => exact (Helper.map_afterCalls_nil _).symm
  | cons r rs ih =>
    have hnone : r.helper? id = none := by
      cases hr : r.helper? id with
      | none => rfl
      | some h =>
        rw [Request.helper?_eq_some_iff.mp hr] at hrs
        exact absurd List.mem_cons_self (hrs h)
    have hcalls : (r :: rs).filterMap (·.callTo? id) =
        (r.callTo? id).toList ++ rs.filterMap (·.callTo? id) := by
      rw [List.filterMap_cons]
      split
      · next hr => rw [hr, Option.toList_none, List.nil_append]
      · next c hr => rw [hr, Option.toList_some, List.singleton_append]
    rw [List.foldl_cons, ih (fun h hmem => hrs h (List.mem_cons_of_mem r hmem)), find?_after, hnone,
      Option.none_or, Option.map_map, hcalls]
    exact congrArg (fun f => (t.find? id).map f)
      (funext fun h => (h.afterCalls_append _ _).symm)

/-- The helper that was last registered under a number, and the calls it got since then. -/
def LastRegistered (id : UInt32) (rs : List (Request σ)) (h : Helper σ)
    (calls : List (Args × Stack)) : Prop :=
  ∃ before since, rs = before ++ .register id h :: since ∧
    (∀ g, Request.register id g ∉ since) ∧ calls = since.filterMap (·.callTo? id)

theorem exists_lastRegistered {id : UInt32} {rs : List (Request σ)}
    (hsome : ∃ h, Request.register id h ∈ rs) : ∃ h calls, LastRegistered id rs h calls := by
  induction rs with
  | nil =>
    obtain ⟨h, hmem⟩ := hsome
    cases hmem
  | cons r rs ih =>
    by_cases hlater : ∃ h, Request.register id h ∈ rs
    · obtain ⟨h, calls, before, since, rfl, hsince, hcalls⟩ := ih hlater
      exact ⟨h, calls, r :: before, since, rfl, hsince, hcalls⟩
    · obtain ⟨h, hmem⟩ := hsome
      have hr : Request.register id h = r :=
        (List.mem_cons.mp hmem).resolve_right fun hin => hlater ⟨h, hin⟩
      subst hr
      exact ⟨h, _, [], rs, rfl, fun g hg => hlater ⟨g, hg⟩, rfl⟩

theorem find?_of_lastRegistered {id : UInt32} {rs : List (Request σ)} {h : Helper σ}
    {calls : List (Args × Stack)} (hlast : LastRegistered id rs h calls) :
    (afterAll rs).find? id = some (h.afterCalls calls) := by
  obtain ⟨before, since, rfl, hsince, rfl⟩ := hlast
  rw [afterAll, List.foldl_append, List.foldl_cons, find?_foldl_of_unregistered hsince, after,
    find?_register, if_pos rfl, Option.map_some]

theorem find?_of_unregistered {id : UInt32} {rs : List (Request σ)}
    (hrs : ∀ h, Request.register id h ∉ rs) : (afterAll rs).find? id = none := by
  rw [afterAll, find?_foldl_of_unregistered hrs]
  rfl

/-- A number is unknown as long as nothing was registered under it. -/
theorem find?_afterAll_eq_none_iff {id : UInt32} {rs : List (Request σ)} :
    (afterAll rs).find? id = none ↔ ∀ h, Request.register id h ∉ rs := by
  refine ⟨fun hnone h hmem => ?_, find?_of_unregistered⟩
  obtain ⟨g, calls, hlast⟩ := exists_lastRegistered ⟨h, hmem⟩
  rw [find?_of_lastRegistered hlast] at hnone
  cases hnone

/-- Requests for other numbers leave the helper of a number as it is. -/
theorem find?_foldl_filter {id : UInt32} (rs : List (Request σ)) {t u : HelperTable σ}
    (h : t.find? id = u.find? id) :
    ((rs.filter (·.concerns id)).foldl after t).find? id = (rs.foldl after u).find? id := by
  induction rs generalizing t u with
  | nil => exact h
  | cons r rs ih =>
    by_cases hr : r.concerns id = true
    · rw [List.filter_cons_of_pos hr, List.foldl_cons, List.foldl_cons]
      apply ih
      rw [find?_after, find?_after, h]
    · rw [List.filter_cons_of_neg hr, List.foldl_cons]
      apply ih
      rw [Request.concerns, Bool.or_eq_true, not_or, Option.not_isSome_iff_eq_none,
        Option.not_isSome_iff_eq_none] at hr
      rw [find?_after, hr.1, hr.2, Option.none_or, h]
      exact (Helper.map_afterCalls_nil _).symm

/-! ## Calls -/

theorem call_of_some {t : HelperTable σ} {id : UInt32} {h : Helper σ} (hfind : t.find? id = some h)
    (args : Args) (stack : Stack) :
    (t.call id args stack).seen =
      ((h.act h.state args stack).result.mapError (.helper id), (h.act h.state args stack).stack,
        .helperCall id h.name args :: (h.act h.state args stack).events) := by
  unfold call
  rw [hfind]
  rfl

theorem unknownHelper_iff {t : HelperTable σ} {id : UInt32} {args : Args} {stack : Stack} :
    (t.call id args stack).result = .error (.unknownHelper id) ↔ t.find? id = none := by
  rw [call_eq_error_iff]
  constructor
  · rintro (⟨hnone, -⟩ | ⟨h, reason, -, -, hfault⟩)
    · exact hnone
    · cases hfault
  · intro hnone
    exact .inl ⟨hnone, rfl⟩

/-! ## The text of a table -/

/-- The numbers and names of a table, as its text shows them. -/
def names (t : HelperTable σ) : List (UInt32 × String) :=
  t.entries.map fun e => (e.1, e.2.name)

/-- In ascending entries, what stands under a number is what is found there. -/
theorem mem_iff_lookup {entries : List (UInt32 × Helper σ)}
    (hp : entries.Pairwise fun e f => e.1 < f.1) {id : UInt32} {h : Helper σ} :
    (id, h) ∈ entries ↔ entries.lookup id = some h := by
  induction entries with
  | nil => simp
  | cons e rest ih =>
    obtain ⟨k, g⟩ := e
    obtain ⟨hhead, hrest⟩ := List.pairwise_cons.mp hp
    rw [lookup_cons, List.mem_cons, Prod.mk.injEq]
    by_cases hk : id = k
    · have hnot : (id, h) ∉ rest := by
        intro hmem
        have hlt : k < id := hhead _ hmem
        rw [hk] at hlt
        exact UInt32.lt_irrefl k hlt
      rw [if_pos hk, or_iff_left hnot, and_iff_right hk, Option.some.injEq, eq_comm]
    · rw [if_neg hk, or_iff_right fun hboth => hk hboth.1]
      exact ih hrest

theorem mem_names_iff (t : HelperTable σ) {id : UInt32} {name : String} :
    (id, name) ∈ t.names ↔ t.name? id = some name := by
  rw [names, List.mem_map, name?, Option.map_eq_some_iff]
  constructor
  · rintro ⟨⟨k, h⟩, hmem, heq⟩
    obtain ⟨rfl, rfl⟩ := Prod.mk.inj heq
    exact ⟨h, (mem_iff_lookup t.ascending).mp hmem, rfl⟩
  · rintro ⟨h, hfind, rfl⟩
    exact ⟨(id, h), (mem_iff_lookup t.ascending).mpr hfind, rfl⟩

theorem pairwise_names (t : HelperTable σ) : t.names.Pairwise fun e f => e.1 < f.1 :=
  List.pairwise_map.mpr t.ascending

theorem describe_eq (t : HelperTable σ) :
    t.describe =
      "HelperTable \x7b fns: " ++ Text.bracketed (t.names.map fun e => showEntry e.1 e.2) ++
        " \x7d" := by
  have hshown : (t.entries.map fun e => showEntry e.1 e.2.name) =
      t.names.map fun e => showEntry e.1 e.2 := by
    rw [names, List.map_map]
    rfl
  exact congrArg (fun items => "HelperTable \x7b fns: " ++ Text.bracketed items ++ " \x7d") hshown

/-- Strictly ascending lists with the same members are the same. -/
theorem eq_of_ascending {l l' : List (UInt32 × String)} (hl : l.Pairwise fun e f => e.1 < f.1)
    (hl' : l'.Pairwise fun e f => e.1 < f.1) (hmem : ∀ e, e ∈ l ↔ e ∈ l') : l = l' := by
  have hnodup {l : List (UInt32 × String)} (h : l.Pairwise fun e f => e.1 < f.1) : l.Nodup := by
    refine h.imp fun {e f} hlt heq => ?_
    rw [heq] at hlt
    exact UInt32.lt_irrefl f.1 hlt
  refine List.Perm.eq_of_pairwise (fun e f _ _ hef hfe => ?_) hl hl'
    ((List.perm_ext_iff_of_nodup (hnodup hl) (hnodup hl')).mpr hmem)
  exact absurd (UInt32.lt_trans hef hfe) (UInt32.lt_irrefl e.1)

/-- The text of a table is the same for all tables that give every number the same name. -/
theorem describe_congr {t : HelperTable σ} {u : HelperTable τ}
    (h : ∀ id, t.name? id = u.name? id) : t.describe = u.describe := by
  have hnames : t.names = u.names := by
    refine eq_of_ascending t.pairwise_names u.pairwise_names fun e => ?_
    rw [t.mem_names_iff, u.mem_names_iff, h]
  rw [describe_eq, describe_eq, hnames]

/-! ## Main statement -/

/-- The entries of a helper table are independent. Take any history of registrations, questions for
names and calls, and a number. The number has no name, and a call of it finds no helper, if and only
if nothing was ever registered under it. Otherwise it has the name that was registered last, and a
call gives what that helper replies in the state that the calls of this very number since then have
left it in; so it comes to the same as if all requests for other numbers had not been made. The text
of the table lists each number that has a name once, in ascending order, and is the same after
every history that leads to the same names. -/
theorem entries_independent (rs : List (Request σ)) :
    let t := afterAll rs
    (∀ id, (t.name? id = none ↔ ∀ h, Request.register id h ∉ rs) ∧
      (∀ args stack, (t.call id args stack).result = .error (.unknownHelper id) ↔
        ∀ h, Request.register id h ∉ rs) ∧
      ((∃ h, Request.register id h ∈ rs) → ∃ h calls, LastRegistered id rs h calls) ∧
      (∀ h calls, LastRegistered id rs h calls →
        t.name? id = some h.name ∧
        ∀ args stack,
          let reply := h.act (h.stateAfter calls) args stack
          (t.call id args stack).seen =
            (reply.result.mapError (.helper id), reply.stack,
              .helperCall id h.name args :: reply.events)) ∧
      ∀ args stack,
        ((afterAll (rs.filter (·.concerns id))).call id args stack).seen =
          (t.call id args stack).seen) ∧
    (∃ shown : List (UInt32 × String),
      shown.Pairwise (fun e f => e.1 < f.1) ∧
      (∀ id name, (id, name) ∈ shown ↔ t.name? id = some name) ∧
      t.describe =
        "HelperTable \x7b fns: " ++ Text.bracketed (shown.map fun e => showEntry e.1 e.2) ++
          " \x7d") ∧
    ∀ (τ : Type) (rs' : List (Request τ)), (∀ id, (afterAll rs').name? id = t.name? id) →
      (afterAll rs').describe = t.describe := by
  intro t
  refine ⟨fun id => ⟨?_, ?_, exists_lastRegistered, ?_, ?_⟩, ?_, ?_⟩
  · rw [name?, Option.map_eq_none_iff]
    exact find?_afterAll_eq_none_iff
  · intro args stack
    exact unknownHelper_iff.trans find?_afterAll_eq_none_iff
  · intro h calls hlast
    have hfind : t.find? id = some (h.afterCalls calls) := find?_of_lastRegistered hlast
    refine ⟨?_, fun args stack => call_of_some hfind args stack⟩
    rw [name?, hfind]
    rfl
  · intro args stack
    exact seen_call_congr (find?_foldl_filter rs rfl) args stack
  · exact ⟨t.names, t.pairwise_names, fun id name => t.mem_names_iff, describe_eq t⟩
  · intro τ rs' hnames
    exact describe_congr hnames

/-- A counter that is registered, called, registered anew and called twice, with another helper
between the calls. -/
def recount : List (Request UInt64) :=
  let count := Helper.ofStock "count" .count
  let args := Vector.replicate 5 0
  [.register 7 count, .call 7 args (.zeros 8), .register 7 count, .call 7 args (.zeros 8),
    .register 3 (.ofStock "fail" (.fail "no")), .call 3 args (.zeros 8), .name 3,
    .call 7 args (.zeros 8)]

/-- The same two helpers, registered in the order of their numbers and never called. -/
def inOrder : List (Request UInt64) :=
  [.register 3 (.ofStock "fail" (.fail "no")), .register 7 (.ofStock "count" .count)]

/-- The next call counts three. The text is that of the helpers registered in order: it has the later
registration first, and nothing of the calls. -/
theorem entries_independent_recount :
    LastRegistered 7 recount (.ofStock "count" .count)
        [(Vector.replicate 5 0, .zeros 8), (Vector.replicate 5 0, .zeros 8)] ∧
      ((afterAll recount).call 7 (Vector.replicate 5 0) (.zeros 8)).result = .ok 3 ∧
      ((afterAll recount).call 9 (Vector.replicate 5 0) (.zeros 8)).result =
        .error (.unknownHelper 9) ∧
      (afterAll inOrder).describe = (afterAll recount).describe ∧
      (afterAll recount).describe =
        "HelperTable \x7b fns: [(3, \"fail\"), (7, \"count\")] \x7d" := by
  obtain ⟨hnumbers, -, htext⟩ := entries_independent recount
  have hlast : LastRegistered 7 recount (.ofStock "count" .count)
      [(Vector.replicate 5 0, .zeros 8), (Vector.replicate 5 0, .zeros 8)] := by
    refine ⟨recount.take 2, recount.drop 3, rfl, fun g hg => ?_, rfl⟩
    simp [recount] at hg
  have hnever : ∀ h, Request.register 9 h ∉ recount := by
    intro h hmem
    simp [recount] at hmem
  have hnames : ∀ id, (afterAll inOrder).name? id = (afterAll recount).name? id := by
    intro id
    rw [name?, name?, find?, find?]
    show (List.lookup id [(3, _), (7, _)]).map _ = (List.lookup id [(3, _), (7, _)]).map _
    simp only [lookup_cons]
    split
    · rfl
    · split <;> rfl
  obtain ⟨-, hseen⟩ := (hnumbers 7).2.2.2.1 _ _ hlast
  have hsame := htext UInt64 inOrder hnames
  have hshown : (afterAll inOrder).describe =
      "HelperTable \x7b fns: [(3, \"fail\"), (7, \"count\")] \x7d" := by decide +kernel
  exact ⟨hlast, congrArg Prod.fst (hseen (Vector.replicate 5 0) (.zeros 8)),
    ((hnumbers 9).2.1 _ _).mpr hnever, hsame, hsame.symm.trans hshown⟩

end HelperTable

end Ebpf
