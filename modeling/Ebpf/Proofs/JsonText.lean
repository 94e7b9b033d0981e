/-
  JSON text falls back into the tokens that it was written from. A quoted text
  comes out with its quotes, backslashes and control characters as they went in,
  and a number or a word ends where the next token starts, unless that is one
  too. `tokenize?_text`: hence all tokens are read back in which no two numbers
  or words stand side by side. A number that is not natural and a text that
  holds half of a surrogate pair are left out: they have no text of their own.
-/
import Ebpf.Json.Printer
import Ebpf.Json.Reader
import Ebpf.Proofs.Numeral
import Mathlib.Data.List.Chain
import Mathlib.Tactic.SplitIfs

namespace Ebpf.Json

theorem scanFrom_of_scan {state next : Scan} {c : Char} {ts : List Token}
    (h : scan state c = some (ts, next)) (done : List Token) (cs : List Char) :
    scanFrom done state (c :: cs) = scanFrom (ts ++ done) next cs := by
  rw [scanFrom, h]

/-! ## Quoted texts -/

theorem textOf?_map_toNat (cs : List Char) : textOf? (cs.map Char.toNat) = some cs := by
  have hplain (c : Char) : isHighSurrogate c.toNat = false ∧ isLowSurrogate c.toNat = false := by
    have hvalid : c.toNat < 0xd800 ∨ 0xdfff < c.toNat ∧ c.toNat < 0x110000 := c.valid
    unfold isHighSurrogate isLowSurrogate
    constructor
    · rw [Bool.and_eq_false_iff, decide_eq_false_iff_not, decide_eq_false_iff_not]
      omega
    · rw [Bool.and_eq_false_iff, decide_eq_false_iff_not, decide_eq_false_iff_not]
      omega
  induction cs with
  | nil => rfl
  | cons c cs ih =>
    obtain ⟨hhigh, hlow⟩ := hplain c
    cases cs with
    | nil => simp [textOf?, hhigh, hlow, Char.ofNat_toNat]
    | cons d ds =>
      simp only [List.map_cons] at ih ⊢
      rw [textOf?, hhigh, hlow, ih]
      simp [Char.ofNat_toNat]

theorem hexDigit?_digitChar {d : Nat} (h : d < 16) : hexDigit? (Nat.digitChar d) = some d := by
  have htable : ∀ d, d < 16 → hexDigit? (Nat.digitChar d) = some d := by decide
  exact htable d h

theorem scanFrom_numbered (done : List Token) (rev : List Nat) {n : Nat} (hn : n < 256)
    (cs : List Char) :
    scanFrom done (.quoted rev)
      ('\\' :: 'u' :: '0' :: '0' :: Nat.digitChar (n / 16) :: Nat.digitChar (n % 16) :: cs) =
      scanFrom done (.quoted (n :: rev)) cs := by
  have hhigh : scan (.numbered rev 2 0) (Nat.digitChar (n / 16)) =
      some ([], .numbered rev 1 (n / 16)) := by
    rw [scan, hexDigit?_digitChar (by omega), Option.map_some, if_neg (by decide), Nat.mul_zero,
      Nat.zero_add]
  have hlow : scan (.numbered rev 1 (n / 16)) (Nat.digitChar (n % 16)) =
      some ([], .quoted (n :: rev)) := by
    rw [scan, hexDigit?_digitChar (by omega), Option.map_some, if_pos (by decide),
      Nat.div_add_mod]
  calc scanFrom done (.quoted rev) _
      = scanFrom done (.numbered rev 2 0)
          (Nat.digitChar (n / 16) :: Nat.digitChar (n % 16) :: cs) := rfl
    _ = scanFrom done (.numbered rev 1 (n / 16)) (Nat.digitChar (n % 16) :: cs) :=
          scanFrom_of_scan hhigh done _
    _ = scanFrom done (.quoted (n :: rev)) cs := scanFrom_of_scan hlow done cs

/-- An escaped character is read back. -/
theorem scanFrom_escape (done : List Token) (rev : List Nat) (c : Char) (cs : List Char) :
    scanFrom done (.quoted rev) (escape c ++ cs) =
      scanFrom done (.quoted (c.toNat :: rev)) cs := by
  unfold escape
  split_ifs with hquote hbackslash hb hf hn hr ht hcontrol
  · rw [hquote]
    rfl
  · rw [hbackslash]
    rfl
  · rw [hb]
    rfl
  · rw [hf]
    rfl
  · rw [hn]
    rfl
  · rw [hr]
    rfl
  · rw [ht]
    rfl
  · exact scanFrom_numbered done rev (by omega) cs
  · have hscan : scan (.quoted rev) c = some ([], .quoted (c.toNat :: rev)) := by
      rw [scan, if_neg hquote, if_neg hbackslash, if_neg hcontrol]
    exact scanFrom_of_scan hscan done cs

theorem scanFrom_quoted (done : List Token) (text : List Char) (rev : List Nat)
    (cs : List Char) :
    scanFrom done (.quoted rev) (text.flatMap escape ++ cs) =
      scanFrom done (.quoted ((text.map Char.toNat).reverse ++ rev)) cs := by
  induction text generalizing rev with
  | nil => rfl
  | cons c text ih =>
    rw [List.flatMap_cons, List.append_assoc, scanFrom_escape, ih, List.map_cons,
      List.reverse_cons, List.append_assoc]
    rfl

/-- A quoted text is read back. -/
theorem scanFrom_quote (done : List Token) (s : String) (cs : List Char) :
    scanFrom done .gap ((quote s).toList ++ cs) = scanFrom (.str (some s) :: done) .gap cs := by
  have hclose : scan (.quoted (s.toList.map Char.toNat).reverse) '"' =
      some ([.str (some s)], .gap) := by
    rw [scan, if_pos rfl, List.reverse_reverse, textOf?_map_toNat, Option.map_some,
      String.ofList_toList]
  calc scanFrom done .gap ((quote s).toList ++ cs)
      = scanFrom done (.quoted []) (s.toList.flatMap escape ++ '"' :: cs) := by
        unfold quote
        rw [String.toList_ofList, List.cons_append, List.append_assoc]
        rfl
    _ = scanFrom done (.quoted (s.toList.map Char.toNat).reverse) ('"' :: cs) := by
        rw [scanFrom_quoted, List.append_nil]
    _ = scanFrom (.str (some s) :: done) .gap cs := scanFrom_of_scan hclose done cs

/-! ## Numbers and words -/

/-- A text in which no number and no word goes on. -/
def Stops (cs : List Char) : Prop :=
  ∀ c ∈ cs.head?, isBare c = false

theorem scanGap_of_isBare {c : Char} (h : isBare c = true) :
    scanGap c = some ([], .bare [c]) := by
  unfold scanGap
  split
  case h_12 => rw [if_pos h]
  -- the others are blanks and marks
  all_goals exact absurd h (by decide)

theorem scanFrom_bare_append (done : List Token) (rev : List Char) {word : List Char}
    (hword : ∀ c ∈ word, isBare c = true) (cs : List Char) :
    scanFrom done (.bare rev) (word ++ cs) = scanFrom done (.bare (word.reverse ++ rev)) cs := by
  induction word generalizing rev with
  | nil => rfl
  | cons c word ih =>
    obtain ⟨hc, hrest⟩ := List.forall_mem_cons.mp hword
    have hscan : scan (.bare rev) c = some ([], .bare (c :: rev)) := by
      rw [scan, if_pos hc]
    rw [List.cons_append, scanFrom_of_scan hscan, List.nil_append, ih (c :: rev) hrest,
      List.reverse_cons, List.append_assoc]
    rfl

theorem scanFrom_bare_stop (done : List Token) {rev cs : List Char} {t : Token}
    (ht : Token.ofBare? rev.reverse = some t) (hstop : Stops cs) :
    scanFrom done (.bare rev) cs = scanFrom (t :: done) .gap cs := by
  cases cs with
  | nil => simp only [scanFrom, ht, Option.map_some]
  | cons c cs =>
    have hc : isBare c = false := hstop c rfl
    simp only [scanFrom, scan, hc, ht, Bool.false_eq_true, if_false]
    cases scanGap c with
    | none => rfl
    | some p => simp only [List.append_assoc, List.singleton_append]

/-- A number or a word is read back where it stops. -/
theorem scanFrom_word (done : List Token) {word cs : List Char} {t : Token} (hne : word ≠ [])
    (hword : word.all isBare = true) (ht : Token.ofBare? word = some t) (hstop : Stops cs) :
    scanFrom done .gap (word ++ cs) = scanFrom (t :: done) .gap cs := by
  obtain ⟨c, rest, rfl⟩ := List.exists_cons_of_ne_nil hne
  obtain ⟨hc, hrest⟩ := List.forall_mem_cons.mp (List.all_eq_true.mp hword)
  have hscan : scan .gap c = some ([], .bare [c]) := scanGap_of_isBare hc
  rw [List.cons_append, scanFrom_of_scan hscan, scanFrom_bare_append _ _ hrest]
  apply scanFrom_bare_stop _ _ hstop
  rwa [List.reverse_append, List.reverse_reverse]

theorem isPlain_cons {c : Char} {cs : List Char} (hdigits : ∀ d ∈ c :: cs, d.isDigit = true)
    (hzero : c ≠ '0') : isPlain (c :: cs) = true := by
  have hc := hdigits c List.mem_cons_self
  cases cs with
  | nil => exact hc
  | cons d ds =>
    have hrest : (d :: ds).all Char.isDigit = true :=
      List.all_eq_true.mpr fun e he => hdigits e (List.mem_cons_of_mem c he)
    rw [isPlain, hc, hrest, Bool.true_and, Bool.and_true]
    · exact decide_eq_true hzero
    · exact List.cons_ne_nil d ds

theorem isPlain_decimal (n : Nat) : isPlain (Text.decimal n).toList = true := by
  by_cases hn : n = 0
  · subst hn
    decide
  · obtain ⟨c, cs, hc, -⟩ := Text.exists_decimal_cons n
    have hzero := Text.head?_toDigits_ne_zero (b := 10) (by decide) (by decide)
      (Nat.pos_of_ne_zero hn)
    rw [← Text.toList_decimal, hc] at hzero
    rw [hc]
    apply isPlain_cons
    · intro d hd
      exact Text.isDigit_of_mem_decimal (hc ▸ hd)
    · exact fun h => hzero (congrArg some h)

theorem ofBare?_decimal (n : Nat) : Token.ofBare? (Text.decimal n).toList = some (.nat n) := by
  have hvalue : digitsValue (Text.decimal n).toList = n := by
    rw [Text.toList_decimal]
    exact Nat.ofDigitChars_toDigits (by decide) (by decide)
  rw [Token.ofBare?, if_pos (isPlain_decimal n), hvalue]

/-! ## Tokens -/

namespace Token

/-- The tokens that have a text of their own. -/
def isKept : Token → Bool
  | .numeral | .str none => false
  | _ => true

/-- The tokens whose text does not show where it ends. -/
def isWord : Token → Bool
  | .null | .bool _ | .nat _ | .numeral | .str none => true
  | _ => false

/-- Tokens that may stand side by side. -/
def Apart (t u : Token) : Prop :=
  t.isWord = true → u.isWord = false

theorem stops_text {t : Token} (h : t.isWord = false) (cs : List Char) :
    Stops (t.text.toList ++ cs) := by
  have hhead : ∃ c rest, t.text.toList = c :: rest ∧ isBare c = false := by
    cases t with
    | openArr | closeArr | openObj | closeObj | comma | colon => exact ⟨_, _, rfl, by decide⟩
    | null | bool | nat | numeral => cases h
    | str text =>
      cases text with
      | none => cases h
      | some s => exact ⟨'"', _, String.toList_ofList, by decide⟩
  obtain ⟨c, rest, htext, hc⟩ := hhead
  intro d hd
  rw [htext] at hd
  have hcd : c = d := Option.some.inj hd
  rwa [← hcd]

end Token

/-- The text of a token is read back where it ends. -/
theorem scanFrom_token (done : List Token) {t : Token} (hkept : t.isKept = true) {cs : List Char}
    (hstop : t.isWord = true → Stops cs) :
    scanFrom done .gap (t.text.toList ++ cs) = scanFrom (t :: done) .gap cs := by
  cases t with
  | openArr | closeArr | openObj | closeObj | comma | colon => rfl
  | null => exact scanFrom_word done (by decide) (by decide) (by decide) (hstop rfl)
  | bool b =>
    cases b with
    | false => exact scanFrom_word done (by decide) (by decide) (by decide) (hstop rfl)
    | true => exact scanFrom_word done (by decide) (by decide) (by decide) (hstop rfl)
  | nat n =>
    apply scanFrom_word done _ _ (ofBare?_decimal n) (hstop rfl)
    · obtain ⟨c, cs, hc, -⟩ := Text.exists_decimal_cons n
      exact hc ▸ List.cons_ne_nil c cs
    · rw [List.all_eq_true]
      intro c hc
      have hdigit := Text.isDigit_of_mem_decimal hc
      rw [isBare, Char.isAlphanum, hdigit, Bool.or_true]
      rfl
  | numeral => cases hkept
  | str text =>
    cases text with
    | none => cases hkept
    | some s => exact scanFrom_quote done s cs

/-- Tokens that their texts in a row tell apart. -/
structure Legible (ts : List Token) : Prop where
  kept : ∀ t ∈ ts, t.isKept = true
  apart : ts.IsChain Token.Apart

namespace Legible

theorem nil : Legible [] where
  kept := fun _ ht => nomatch ht
  apart := .nil

/-- Before a number or a word any other token may stand. -/
theorem cons {t : Token} {ts : List Token} (h : Legible ts) (hkept : t.isKept = true)
    (hword : t.isWord = false) : Legible (t :: ts) where
  kept := List.forall_mem_cons.mpr ⟨hkept, h.kept⟩
  apart := h.apart.cons fun u _ ht => absurd ht (by rw [hword]; decide)

/-- After a number or a word any other token may stand. -/
theorem append {t : Token} {ts us : List Token} (hts : Legible ts) (hus : Legible (t :: us))
    (hword : t.isWord = false) : Legible (ts ++ t :: us) where
  kept := List.forall_mem_append.mpr ⟨hts.kept, hus.kept⟩
  apart := by
    apply hts.apart.append hus.apart
    intro u _ v hv _
    have htv : t = v := Option.some.inj hv
    rwa [← htv]

end Legible

theorem scanFrom_text (done : List Token) {ts : List Token} (h : Legible ts) :
    scanFrom done .gap (ts.flatMap fun t => t.text.toList) = some (done.reverse ++ ts) := by
  induction ts generalizing done with
  | nil => simp only [List.flatMap_nil, scanFrom, List.append_nil]
  | cons t ts ih =>
    obtain ⟨hkept, hkept'⟩ := List.forall_mem_cons.mp h.kept
    have hstop (ht : t.isWord = true) : Stops (ts.flatMap fun t => t.text.toList) := by
      cases ts with
      | nil =>
        intro c hc
        cases hc
      | cons u us =>
        rw [List.flatMap_cons]
        exact Token.stops_text ((List.isChain_cons_cons.mp h.apart).1 ht) _
    rw [List.flatMap_cons, scanFrom_token done hkept hstop, ih (t :: done) ⟨hkept', h.apart.tail⟩,
      List.reverse_cons, List.append_assoc, List.singleton_append]

/-- Tokens are read back from their text. -/
theorem tokenize?_text {ts : List Token} (h : Legible ts) :
    tokenize? (ts.flatMap fun t => t.text.toList) = some ts :=
  scanFrom_text [] h

end Ebpf.Json
