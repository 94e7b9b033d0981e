/-
  JSON values are read back from their compact text (`parse?_compact`): the
  tokens of a value are legible, and reading them with any tokens behind comes
  to the value with those tokens still to read, whatever arrays and objects are
  open around it. This is so for all values that can be written; an unsupported
  value stands as null and is lost.
-/
import Ebpf.Proofs.JsonText

namespace Ebpf.Json

/-- The values that can be written. -/
inductive Supported : Json → Prop
  | null : Supported .null
  | bool (b : Bool) : Supported (.bool b)
  | nat (n : Nat) : Supported (.nat n)
  | str (s : String) : Supported (.str s)
  | arr {items : List Json} (h : ∀ v ∈ items, Supported v) : Supported (.arr items)
  | obj {fields : List (String × Json)} (h : ∀ f ∈ fields, Supported f.2) : Supported (.obj fields)

/-! ## Tokens of a value -/

/-- The tokens of the items after the first. -/
def itemTokens (vs : List Json) : List Token :=
  vs.flatMap fun v => .comma :: v.tokens

/-- The tokens of the fields after the first. -/
def fieldTokens (fs : List (String × Json)) : List Token :=
  fs.flatMap fun f => .comma :: .str (some f.1) :: .colon :: f.2.tokens

theorem itemTokens_cons (v : Json) (vs : List Json) :
    itemTokens (v :: vs) = .comma :: (v.tokens ++ itemTokens vs) := by
  simp only [itemTokens, List.flatMap_cons, List.cons_append]

theorem fieldTokens_cons (k : String) (v : Json) (fs : List (String × Json)) :
    fieldTokens ((k, v) :: fs) =
      .comma :: .str (some k) :: .colon :: (v.tokens ++ fieldTokens fs) := by
  simp only [fieldTokens, List.flatMap_cons, List.cons_append]

/-- Pushing a value puts its tokens, last first, in front. -/
def Pushes (v : Json) : Prop :=
  ∀ rev, pushTokens rev v = v.tokens.reverse ++ rev

theorem pushItems_eq {vs : List Json} (h : ∀ v ∈ vs, Pushes v) (rev : List Token) :
    pushItems rev vs = (itemTokens vs).reverse ++ rev := by
  induction vs generalizing rev with
  | nil => rfl
  | cons v vs ih =>
    obtain ⟨hv, hvs⟩ := List.forall_mem_cons.mp h
    rw [pushItems, hv, ih hvs, itemTokens_cons]
    simp only [List.reverse_cons, List.reverse_append, List.append_assoc, List.singleton_append]

theorem pushFields_eq {fs : List (String × Json)} (h : ∀ f ∈ fs, Pushes f.2) (rev : List Token) :
    pushFields rev fs = (fieldTokens fs).reverse ++ rev := by
  induction fs generalizing rev with
  | nil => rfl
  | cons f fs ih =>
    obtain ⟨hf, hfs⟩ := List.forall_mem_cons.mp h
    rw [pushFields, hf, ih hfs, fieldTokens_cons]
    simp only [List.reverse_cons, List.reverse_append, List.append_assoc, List.cons_append,
      List.nil_append]

theorem pushTokens_arr {v : Json} {vs : List Json} (h : ∀ w ∈ v :: vs, Pushes w)
    (rev : List Token) :
    pushTokens rev (.arr (v :: vs)) =
      (.openArr :: (v.tokens ++ (itemTokens vs ++ [.closeArr]))).reverse ++ rev := by
  obtain ⟨hv, hvs⟩ := List.forall_mem_cons.mp h
  rw [pushTokens, hv, pushItems_eq hvs]
  simp only [List.reverse_cons, List.reverse_append, List.reverse_nil, List.append_assoc,
    List.cons_append, List.nil_append]

theorem pushTokens_obj {k : String} {v : Json} {fs : List (String × Json)}
    (h : ∀ f ∈ (k, v) :: fs, Pushes f.2) (rev : List Token) :
    pushTokens rev (.obj ((k, v) :: fs)) =
      (.openObj :: .str (some k) :: .colon ::
        (v.tokens ++ (fieldTokens fs ++ [.closeObj]))).reverse ++ rev := by
  obtain ⟨hv, hfs⟩ := List.forall_mem_cons.mp h
  rw [pushTokens, hv, pushFields_eq hfs]
  simp only [List.reverse_cons, List.reverse_append, List.reverse_nil, List.append_assoc,
    List.cons_append, List.nil_append]

namespace Supported

theorem pushes {v : Json} (h : Supported v) : Pushes v := by
  induction h with
  | null | bool | nat | str => exact fun _ => rfl
  | @arr items _ ih =>
    cases items with
    | nil => exact fun _ => rfl
    | cons v vs =>
      intro rev
      rw [tokens, pushTokens_arr ih rev, pushTokens_arr ih [], List.append_nil,
        List.reverse_reverse]
  | @obj fields _ ih =>
    cases fields with
    | nil => exact fun _ => rfl
    | cons f fs =>
      intro rev
      rw [tokens, pushTokens_obj ih rev, pushTokens_obj ih [], List.append_nil,
        List.reverse_reverse]

theorem tokens_arr {v : Json} {vs : List Json} (h : ∀ w ∈ v :: vs, Supported w) :
    (Json.arr (v :: vs)).tokens = .openArr :: (v.tokens ++ (itemTokens vs ++ [.closeArr])) := by
  rw [tokens, pushTokens_arr (fun w hw => (h w hw).pushes), List.append_nil, List.reverse_reverse]

theorem tokens_obj {k : String} {v : Json} {fs : List (String × Json)}
    (h : ∀ f ∈ (k, v) :: fs, Supported f.2) :
    (Json.obj ((k, v) :: fs)).tokens =
      .openObj :: .str (some k) :: .colon :: (v.tokens ++ (fieldTokens fs ++ [.closeObj])) := by
  rw [tokens, pushTokens_obj (fun f hf => (h f hf).pushes), List.append_nil, List.reverse_reverse]

end Supported

/-! ## Tokens to text and back -/

theorem legible_items {v : Json} {vs : List Json} (h : ∀ w ∈ v :: vs, Legible w.tokens) :
    Legible (v.tokens ++ (itemTokens vs ++ [.closeArr])) := by
  induction vs generalizing v with
  | nil =>
    have hclose : Legible [.closeArr] := Legible.nil.cons rfl rfl
    exact (h v List.mem_cons_self).append hclose rfl
  | cons w ws ih =>
    obtain ⟨hv, hws⟩ := List.forall_mem_cons.mp h
    rw [itemTokens_cons, List.cons_append, List.append_assoc]
    exact hv.append ((ih hws).cons rfl rfl) rfl

theorem legible_fields {v : Json} {fs : List (String × Json)} (hv : Legible v.tokens)
    (h : ∀ f ∈ fs, Legible f.2.tokens) : Legible (v.tokens ++ (fieldTokens fs ++ [.closeObj])) := by
  induction fs generalizing v with
  | nil =>
    have hclose : Legible [.closeObj] := Legible.nil.cons rfl rfl
    exact hv.append hclose rfl
  | cons f fs ih =>
    obtain ⟨hf, hfs⟩ := List.forall_mem_cons.mp h
    rw [fieldTokens_cons, List.cons_append, List.cons_append, List.cons_append, List.append_assoc]
    exact hv.append ((((ih hf hfs).cons rfl rfl).cons rfl rfl).cons rfl rfl) rfl

theorem Supported.legible {v : Json} (h : Supported v) : Legible v.tokens := by
  have hsingle {t : Token} (ht : t.isKept = true) : Legible [t] :=
    ⟨List.forall_mem_singleton.mpr ht, .singleton t⟩
  induction h with
  | null | bool | nat | str => exact hsingle rfl
  | @arr items hitems ih =>
    cases items with
    | nil => exact (hsingle rfl).cons rfl rfl
    | cons v vs =>
      rw [Supported.tokens_arr hitems]
      exact (legible_items ih).cons rfl rfl
  | @obj fields hfields ih =>
    cases fields with
    | nil => exact (hsingle rfl).cons rfl rfl
    | cons f fs =>
      obtain ⟨hf, hfs⟩ := List.forall_mem_cons.mp ih
      rw [Supported.tokens_obj hfields]
      exact (((legible_fields hf hfs).cons rfl rfl).cons rfl rfl).cons rfl rfl

theorem toList_compact (v : Json) :
    v.compact.toList = v.tokens.flatMap fun t => t.text.toList := by
  have hfold (ts : List Token) (s : String) :
      (ts.foldl (fun text t => text ++ t.text) s).toList =
        s.toList ++ ts.flatMap fun t => t.text.toList := by
    induction ts generalizing s with
    | nil => rw [List.foldl_nil, List.flatMap_nil, List.append_nil]
    | cons t ts ih =>
      rw [List.foldl_cons, ih, String.toList_append, List.flatMap_cons, List.append_assoc]
  exact hfold v.tokens ""

/-! ## Tokens to values -/

/-- No value starts by closing an array. -/
theorem Supported.head?_tokens {v : Json} (h : Supported v) (ts : List Token) :
    (v.tokens ++ ts).head? ≠ some .closeArr := by
  intro hclose
  cases h with
  | null | bool | nat | str => cases hclose
  | @arr items hitems =>
    cases items with
    | nil => cases hclose
    | cons v vs =>
      rw [tokens_arr hitems] at hclose
      cases hclose
  | @obj fields hfields =>
    cases fields with
    | nil => cases hclose
    | cons f fs =>
      rw [tokens_obj hfields] at hclose
      cases hclose

theorem readFrom_openArr {frames : List Frame} {ts : List Token}
    (h : ts.head? ≠ some .closeArr) :
    readFrom none frames (.openArr :: ts) = readFrom none (.arr [] :: frames) ts := by
  cases ts with
  | nil => rfl
  | cons t ts =>
    cases t <;> first | rfl | exact absurd rfl h

/-- Reading the tokens of a value comes to the value. -/
def Reads (v : Json) : Prop :=
  ∀ frames ts, readFrom none frames (v.tokens ++ ts) = readFrom (some v) frames ts

theorem readFrom_items {vs : List Json} (h : ∀ v ∈ vs, Reads v) (v : Json) (done : List Json)
    (frames : List Frame) (ts : List Token) :
    readFrom (some v) (.arr done :: frames) (itemTokens vs ++ .closeArr :: ts) =
      readFrom (some (.arr (done.reverse ++ v :: vs))) frames ts := by
  induction vs generalizing v done with
  | nil => rw [itemTokens, List.flatMap_nil, List.nil_append, readFrom, List.reverse_cons]
  | cons w ws ih =>
    obtain ⟨hw, hws⟩ := List.forall_mem_cons.mp h
    rw [itemTokens_cons, List.cons_append, readFrom, List.append_assoc, hw, ih hws,
      List.reverse_cons, List.append_assoc, List.singleton_append]

theorem closeObject_reverse (fs : List (String × Json)) :
    closeObject (fs.map fun f => (some f.1, f.2)).reverse = .obj fs := by
  have hkeys : (fs.map fun f => (some f.1, f.2)).mapM (fun f => f.1.map fun k => (k, f.2)) =
      some fs := by
    induction fs with
    | nil => rfl
    | cons f fs ih => rw [List.map_cons, List.mapM_cons, ih]; rfl
  rw [closeObject, List.reverse_reverse, hkeys]

theorem readFrom_fields {fs : List (String × Json)} (h : ∀ f ∈ fs, Reads f.2) (key : Option String)
    (v : Json) (done : List (Option String × Json)) (frames : List Frame) (ts : List Token) :
    readFrom (some v) (.obj done key :: frames) (fieldTokens fs ++ .closeObj :: ts) =
      readFrom (some (closeObject ((fs.map fun f => (some f.1, f.2)).reverse ++ (key, v) :: done)))
        frames ts := by
  induction fs generalizing key v done with
  | nil => rw [fieldTokens, List.flatMap_nil, List.nil_append, readFrom]; rfl
  | cons f fs ih =>
    obtain ⟨hf, hfs⟩ := List.forall_mem_cons.mp h
    rw [fieldTokens_cons, List.cons_append, List.cons_append, List.cons_append, readFrom,
      List.append_assoc, hf, ih hfs, List.map_cons, List.reverse_cons, List.append_assoc,
      List.singleton_append]

theorem Supported.reads {v : Json} (h : Supported v) : Reads v := by
  intro frames ts
  induction h generalizing frames ts with
  | null | bool | nat | str => rfl
  | @arr items hitems ih =>
    cases items with
    | nil => rfl
    | cons v vs =>
      obtain ⟨hv, hvs⟩ := List.forall_mem_cons.mp ih
      have hstart := (hitems v List.mem_cons_self).head?_tokens
      rw [tokens_arr hitems, List.cons_append, List.append_assoc, readFrom_openArr (hstart _), hv,
        List.append_assoc, List.singleton_append, readFrom_items hvs]
      rfl
  | @obj fields hfields ih =>
    cases fields with
    | nil => rfl
    | cons f fs =>
      obtain ⟨hf, hfs⟩ := List.forall_mem_cons.mp ih
      rw [tokens_obj hfields, List.cons_append, List.cons_append, List.cons_append, readFrom,
        List.append_assoc, hf, List.append_assoc, List.singleton_append, readFrom_fields hfs,
        ← closeObject_reverse (f :: fs), List.map_cons, List.reverse_cons]

/-- A value is read back from its compact text. -/
theorem parse?_compact {v : Json} (h : Supported v) : parse? v.compact = some v := by
  rw [parse?, toList_compact, tokenize?_text h.legible, Option.bind_some,
    ← List.append_nil v.tokens, h.reads]
  rfl

end Ebpf.Json
