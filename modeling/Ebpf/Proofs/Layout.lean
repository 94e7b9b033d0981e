/-
  Where the bytes of a number lie. In either byte order every byte of a number
  stands for a power of 256, its place; the orders differ in which index has
  which place, and in nothing else.

  `getElem?_write` gives the bytes that writing lays out, `toNat_read` the number
  that reading makes of bytes, both through places. `toNat_read_append` takes a
  number apart into two shorter ones that lie side by side.
-/
import Ebpf.Proofs.Codec
import Mathlib.Algebra.BigOperators.Intervals
import Mathlib.Algebra.BigOperators.Ring.Finset

namespace Ebpf.ByteOrder

/-- The power of 256 that the byte at an index stands for, in a number of `n` bytes. -/
def place (o : ByteOrder) (n i : Nat) : Nat :=
  match o with
  | little => i
  | big => n - 1 - i

/-- The byte at an index of a number of `n` bytes. -/
def byteOf (o : ByteOrder) (n v i : Nat) : UInt8 :=
  UInt8.ofNat (v / 256 ^ o.place n i)

/-- The lowest `n` bytes of a number, one after the other. -/
def layout (o : ByteOrder) (n v : Nat) : List UInt8 :=
  (List.range n).map (o.byteOf n v)

/-- The number of two numbers side by side, the first of `n` bytes and the second of `n'`. -/
def join (o : ByteOrder) (n n' v v' : Nat) : Nat :=
  match o with
  | little => v + 256 ^ n * v'
  | big => 256 ^ n' * v + v'

/-! ## Writing -/

theorem getElem?_digits (v : UInt64) {n i : Nat} (h : i < n) :
    (digits v n)[i]? = some (UInt8.ofNat (v.toNat / 256 ^ i)) := by
  induction n generalizing v i with
  | zero => omega
  | succ n ih =>
    cases i with
    | zero =>
      rw [digits, List.getElem?_cons_zero, Nat.pow_zero, Nat.div_one]
      rfl
    | succ i =>
      have h256 : (256 : UInt64).toNat = 256 := rfl
      rw [digits, List.getElem?_cons_succ, ih (v / 256) (by omega), UInt64.toNat_div, h256,
        Nat.div_div_eq_div_mul, ← Nat.pow_succ']

theorem getElem?_write (o : ByteOrder) (v : UInt64) {n i : Nat} (h : i < n) :
    (o.write v n)[i]? = some (o.byteOf n v.toNat i) := by
  cases o with
  | little => exact getElem?_digits v h
  | big =>
    rw [write, List.getElem?_reverse (by rw [length_digits]; exact h), length_digits]
    exact getElem?_digits v (by omega)

theorem write_eq_layout (o : ByteOrder) (v : UInt64) (n : Nat) :
    o.write v n = o.layout n v.toNat := by
  apply List.ext_getElem?
  intro i
  by_cases hi : i < n
  · rw [o.getElem?_write v hi, layout, List.getElem?_map, List.getElem?_range hi, Option.map_some]
  · rw [List.getElem?_eq_none (by rw [o.length_write]; omega),
      List.getElem?_eq_none (by rw [layout, List.length_map, List.length_range]; omega)]

/-- Of a number that is written with `n` bytes, only its residue shows. -/
theorem write_congr (o : ByteOrder) {v w : UInt64} {n : Nat} (hn : n ≤ 8)
    (h : v.toNat % 256 ^ n = w.toNat % 256 ^ n) : o.write v n = o.write w n := by
  have hdigits : digits v n = digits w n := digits_eq_of_mod_eq hn h
  cases o with
  | little => exact hdigits
  | big => exact congrArg List.reverse hdigits

/-- The other order lays the same bytes out backwards. -/
theorem write_of_ne {o o' : ByteOrder} (h : o ≠ o') (v : UInt64) (n : Nat) :
    o'.write v n = (o.write v n).reverse := by
  cases o <;> cases o' <;> simp [write] at h ⊢

/-! ## Reading -/

theorem read_of_ne {o o' : ByteOrder} (h : o ≠ o') (bs : List UInt8) :
    o'.read bs = o.read bs.reverse := by
  cases o <;> cases o' <;> simp [read] at h ⊢

theorem toNat_ofDigits_cons_of_lt (b : UInt8) {bs : List UInt8} (h : bs.length < 8) :
    (ofDigits (b :: bs)).toNat = b.toNat + 256 * (ofDigits bs).toNat := by
  have hlt := toNat_ofDigits_lt bs (by omega)
  have hle : 256 ^ bs.length ≤ 256 ^ 7 := Nat.pow_le_pow_right (by decide) (by omega)
  exact toNat_ofDigits_cons b bs (by omega)

theorem toNat_ofDigits (bs : List UInt8) (h : bs.length ≤ 8) :
    (ofDigits bs).toNat = ∑ i ∈ Finset.range bs.length, (bs.getD i 0).toNat * 256 ^ i := by
  induction bs with
  | nil => rfl
  | cons b bs ih =>
    rw [List.length_cons] at h
    have hterm (i : Nat) : 256 * ((bs.getD i 0).toNat * 256 ^ i) =
        ((b :: bs).getD (i + 1) 0).toNat * 256 ^ (i + 1) := by
      rw [List.getD_cons_succ, Nat.pow_succ, Nat.mul_left_comm, Nat.mul_comm 256]
    rw [toNat_ofDigits_cons_of_lt b h, ih (by omega), List.length_cons, Finset.sum_range_succ',
      Finset.mul_sum]
    simp only [hterm, List.getD_cons_zero, Nat.pow_zero, Nat.mul_one, Nat.add_comm]

/-- The number that a run of bytes stands for: each byte counts for as much as its place says. -/
theorem toNat_read (o : ByteOrder) (bs : List UInt8) (h : bs.length ≤ 8) :
    (o.read bs).toNat =
      ∑ i ∈ Finset.range bs.length, (bs.getD i 0).toNat * 256 ^ o.place bs.length i := by
  cases o with
  | little => exact toNat_ofDigits bs h
  | big =>
    rw [read, toNat_ofDigits _ (by rwa [List.length_reverse]), List.length_reverse,
      ← Finset.sum_range_reflect]
    refine Finset.sum_congr rfl fun i hi => ?_
    have hlt := Finset.mem_range.mp hi
    have hback : bs.length - 1 - (bs.length - 1 - i) = i := by omega
    rw [place, List.getD_eq_getElem?_getD, List.getD_eq_getElem?_getD,
      List.getElem?_reverse (by omega), hback]

theorem toNat_ofDigits_append (bs bs' : List UInt8) (h : bs.length + bs'.length ≤ 8) :
    (ofDigits (bs ++ bs')).toNat = (ofDigits bs).toNat + 256 ^ bs.length * (ofDigits bs').toNat := by
  induction bs with
  | nil => simp [ofDigits]
  | cons b bs ih =>
    rw [List.length_cons] at h ⊢
    rw [List.cons_append, toNat_ofDigits_cons_of_lt b (by rw [List.length_append]; omega),
      toNat_ofDigits_cons_of_lt b (by omega), ih (by omega), Nat.mul_add, Nat.pow_succ',
      Nat.mul_assoc, Nat.add_assoc]

theorem toNat_read_append (o : ByteOrder) (bs bs' : List UInt8) (h : bs.length + bs'.length ≤ 8) :
    (o.read (bs ++ bs')).toNat =
      o.join bs.length bs'.length (o.read bs).toNat (o.read bs').toNat := by
  cases o with
  | little => exact toNat_ofDigits_append bs bs' h
  | big =>
    have hrev : bs'.reverse.length + bs.reverse.length ≤ 8 := by
      rw [List.length_reverse, List.length_reverse]
      omega
    rw [read, List.reverse_append, toNat_ofDigits_append _ _ hrev, List.length_reverse, Nat.add_comm]
    rfl

end Ebpf.ByteOrder
