/-
  Numbers can be read off their text. `toDigits_inj` is the fact behind all of
  it: no two numbers have the same digits, in any base up to sixteen. With it
  decimal, signed and hexadecimal numerals are told apart, and a decimal numeral
  also where other text follows that does not start with a digit
  (`decimal_append_inj`).
-/
import Ebpf.Text.Numeral

namespace Ebpf.Text

/-! ## Digits -/

theorem digitChar_inj {d e : Nat} (hd : d < 16) (he : e < 16)
    (h : Nat.digitChar d = Nat.digitChar e) : d = e := by
  have htable : ∀ d, d < 16 → ∀ e, e < 16 → Nat.digitChar d = Nat.digitChar e → d = e := by
    decide
  exact htable d hd e he h

theorem toDigits_ne_nil {b : Nat} (hb : 1 < b) (n : Nat) : Nat.toDigits b n ≠ [] := by
  by_cases hn : n < b
  · rw [Nat.toDigits_of_lt_base hn]
    exact List.cons_ne_nil _ _
  · rw [Nat.toDigits_of_base_le hb (by omega)]
    exact List.append_ne_nil_of_right_ne_nil _ (List.cons_ne_nil _ _)

theorem exists_digit_of_mem_toDigits {b n : Nat} {c : Char} (hb : 1 < b)
    (h : c ∈ Nat.toDigits b n) : ∃ d, d < b ∧ c = Nat.digitChar d := by
  induction n using Nat.strongRecOn with
  | ind n ih =>
    by_cases hn : n < b
    · rw [Nat.toDigits_of_lt_base hn, List.mem_singleton] at h
      exact ⟨n, hn, h⟩
    · rw [Nat.toDigits_of_base_le hb (by omega), List.mem_append, List.mem_singleton] at h
      rcases h with hinit | hlast
      · exact ih (n / b) (Nat.div_lt_self (by omega) hb) hinit
      · exact ⟨n % b, Nat.mod_lt n (by omega), hlast⟩

/-- Numbers with the same digits are the same. -/
theorem toDigits_inj {b m n : Nat} (hb : 1 < b) (hb' : b ≤ 16)
    (h : Nat.toDigits b m = Nat.toDigits b n) : m = n := by
  -- the last digits are the remainders, and the digits before them belong to the quotients
  induction m using Nat.strongRecOn generalizing n with
  | ind m ih =>
    have hlast (k : Nat) (hk : b ≤ k) : Nat.toDigits b k =
        Nat.toDigits b (k / b) ++ [Nat.digitChar (k % b)] := Nat.toDigits_of_base_le hb hk
    have hshort (j k : Nat) (hj : j < b) (hk : b ≤ k) : Nat.toDigits b j ≠ Nat.toDigits b k := by
      intro heq
      rw [Nat.toDigits_of_lt_base hj, hlast k hk] at heq
      have hlen := congrArg List.length heq
      have hpos := List.length_pos_iff.mpr (toDigits_ne_nil hb (k / b))
      rw [List.length_append, List.length_singleton, List.length_singleton] at hlen
      omega
    by_cases hm : m < b
    · by_cases hn : n < b
      · rw [Nat.toDigits_of_lt_base hm, Nat.toDigits_of_lt_base hn] at h
        exact digitChar_inj (by omega) (by omega) (List.singleton_inj.mp h)
      · exact absurd h (hshort m n hm (by omega))
    · by_cases hn : n < b
      · exact absurd h.symm (hshort n m hn (by omega))
      · rw [hlast m (by omega), hlast n (by omega)] at h
        obtain ⟨hinit, hrem⟩ := List.append_inj' h rfl
        have hquot := ih (m / b) (Nat.div_lt_self (by omega) hb) hinit
        have hm' := Nat.mod_lt m (show 0 < b by omega)
        have hn' := Nat.mod_lt n (show 0 < b by omega)
        have hrem' := digitChar_inj (by omega) (by omega) (List.singleton_inj.mp hrem)
        rw [← Nat.div_add_mod m b, ← Nat.div_add_mod n b, hquot, hrem']

/-- No numeral starts with a needless zero. -/
theorem head?_toDigits_ne_zero {b n : Nat} (hb : 1 < b) (hb' : b ≤ 16) (hn : 0 < n) :
    (Nat.toDigits b n).head? ≠ some '0' := by
  induction n using Nat.strongRecOn with
  | ind n ih =>
    by_cases hlt : n < b
    · rw [Nat.toDigits_of_lt_base hlt, List.head?_cons]
      intro h
      have hzero : n = 0 := digitChar_inj (by omega) (by decide) (Option.some.inj h)
      omega
    · obtain ⟨c, cs, hc⟩ := List.exists_cons_of_ne_nil (toDigits_ne_nil hb (n / b))
      have hquot := ih (n / b) (Nat.div_lt_self hn hb) (Nat.div_pos (by omega) (by omega))
      rw [Nat.toDigits_of_base_le hb (by omega), hc]
      rwa [hc] at hquot

/-! ## Decimal numerals -/

theorem toList_decimal (n : Nat) : (decimal n).toList = Nat.toDigits 10 n :=
  String.toList_ofList

theorem isDigit_of_mem_decimal {n : Nat} {c : Char} (h : c ∈ (decimal n).toList) :
    c.isDigit = true := by
  rw [toList_decimal] at h
  exact Nat.isDigit_of_mem_toDigits (by decide) (by decide) h

theorem decimal_inj {m n : Nat} (h : decimal m = decimal n) : m = n := by
  have hdigits := congrArg String.toList h
  rw [toList_decimal, toList_decimal] at hdigits
  exact toDigits_inj (by decide) (by decide) hdigits

/-- A numeral starts with a digit. -/
theorem exists_decimal_cons (n : Nat) :
    ∃ c cs, (decimal n).toList = c :: cs ∧ c.isDigit = true := by
  have hne : (decimal n).toList ≠ [] := by
    rw [toList_decimal]
    exact toDigits_ne_nil (by decide) n
  obtain ⟨c, cs, hc⟩ := List.exists_cons_of_ne_nil hne
  exact ⟨c, cs, hc, isDigit_of_mem_decimal (hc ▸ List.mem_cons_self)⟩

/-- A text that is empty or does not start with a digit. -/
def Undigited (s : String) : Prop :=
  ∀ c ∈ s.toList.head?, c.isDigit = false

/-- A numeral ends where the digits end. -/
theorem takeWhile_decimal_append (n : Nat) {s : String} (hs : Undigited s) :
    (decimal n ++ s).toList.takeWhile Char.isDigit = (decimal n).toList := by
  have hall : ∀ c ∈ (decimal n).toList, c.isDigit = true := fun c hc => isDigit_of_mem_decimal hc
  have hrest : s.toList.takeWhile Char.isDigit = [] := by
    unfold Undigited at hs
    match h : s.toList with
    | [] => rfl
    | c :: cs =>
      have hc := hs c (by rw [h]; rfl)
      rw [List.takeWhile_cons_of_neg (by rw [hc]; decide)]
  rw [String.toList_append, List.takeWhile_append_of_pos hall, hrest, List.append_nil]

theorem decimal_append_inj {m n : Nat} {s t : String} (hs : Undigited s) (ht : Undigited t)
    (h : decimal m ++ s = decimal n ++ t) : m = n ∧ s = t := by
  have hdigits : (decimal m).toList = (decimal n).toList := by
    rw [← takeWhile_decimal_append m hs, ← takeWhile_decimal_append n ht, h]
  have hnum : m = n := decimal_inj (String.toList_inj.mp hdigits)
  subst hnum
  exact ⟨rfl, (String.append_right_inj _).mp h⟩

/-! ## Signs and other bases -/

/-- Texts that start differently differ. -/
theorem append_ne_append {p q : String} {c d : Char} {cs ds : List Char} (hp : p.toList = c :: cs)
    (hq : q.toList = d :: ds) (hne : c ≠ d) (s t : String) : p ++ s ≠ q ++ t := by
  intro h
  have hlist := congrArg String.toList h
  rw [String.toList_append, String.toList_append, hp, hq] at hlist
  exact hne (List.cons_eq_cons.mp hlist).1

theorem undigited_append {p : String} {c : Char} {cs : List Char} (hp : p.toList = c :: cs)
    (hc : c.isDigit = false) (s : String) : Undigited (p ++ s) := by
  intro d hd
  rw [String.toList_append, hp] at hd
  have hhead : c = d := Option.some.inj hd
  rwa [← hhead]

theorem Undigited.ne_decimal {s : String} (hs : Undigited s) (n : Nat) : s ≠ decimal n := by
  intro h
  obtain ⟨c, cs, hc, hdigit⟩ := exists_decimal_cons n
  have hnot := hs c (by rw [h, hc]; rfl)
  rw [hdigit] at hnot
  exact absurd hnot (by decide)

theorem undigited_minus_append (s : String) : Undigited ("-" ++ s) :=
  undigited_append rfl (by decide) s

theorem undigited_plus_append (s : String) : Undigited ("+" ++ s) :=
  undigited_append rfl (by decide) s

theorem integer_inj {i j : Int} (h : integer i = integer j) : i = j := by
  unfold integer at h
  split at h
  · split at h
    · have habs := decimal_inj ((String.append_right_inj _).mp h)
      omega
    · exact absurd h ((undigited_minus_append _).ne_decimal _)
  · split at h
    · exact absurd h.symm ((undigited_minus_append _).ne_decimal _)
    · have habs := decimal_inj h
      omega

theorem signed_inj {i j : Int} (h : signed i = signed j) : i = j := by
  have hsigns (s t : String) : "-" ++ s ≠ "+" ++ t := append_ne_append rfl rfl (by decide) s t
  unfold signed at h
  split at h
  · split at h
    · have habs := decimal_inj ((String.append_right_inj _).mp h)
      omega
    · exact absurd h (hsigns _ _)
  · split at h
    · exact absurd h.symm (hsigns _ _)
    · have habs := decimal_inj ((String.append_right_inj _).mp h)
      omega

theorem undigited_signed_append (i : Int) (s : String) : Undigited (signed i ++ s) := by
  unfold signed
  split
  · rw [String.append_assoc]
    exact undigited_minus_append _
  · rw [String.append_assoc]
    exact undigited_plus_append _

theorem hex0x_inj {m n : Nat} (h : hex0x m = hex0x n) : m = n := by
  have hdigits := congrArg String.toList ((String.append_right_inj _).mp h)
  unfold hex at hdigits
  rw [String.toList_ofList, String.toList_ofList] at hdigits
  exact toDigits_inj (by decide) (by decide) hdigits

end Ebpf.Text
