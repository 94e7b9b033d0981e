/-
  Writing and reading are inverse to each other, for numbers, for the fields of
  an instruction word and for whole words, in either byte order.

  A run of at most eight bytes is the number it stands for (`write_read`), and a
  number that is written with `n` bytes reads back modulo `256 ^ n`
  (`toNat_read_write`). Of a word all is kept but the high halves of its register
  numbers: `toBytes_append_of_read?` gives back the bytes of a word that was
  read, and `read?_toBytes` the word of bytes that were written.
-/
import Ebpf.Word
import Mathlib.Algebra.Group.Nat.Defs

namespace Ebpf

namespace ByteOrder

/-! ## Digits -/

/-- The digits in front of at most seven others leave room for one more. -/
theorem toNat_ofDigits_cons (b : UInt8) (bs : List UInt8)
    (h : (ofDigits bs).toNat < 256 ^ 7) :
    (ofDigits (b :: bs)).toNat = b.toNat + 256 * (ofDigits bs).toNat := by
  have hb := b.toNat_lt
  have h256 : (256 : UInt64).toNat = 256 := rfl
  have hmul : (256 * ofDigits bs).toNat = 256 * (ofDigits bs).toNat := by
    rw [UInt64.toNat_mul, h256]
    omega
  rw [ofDigits, UInt64.toNat_add, UInt8.toNat_toUInt64, hmul]
  omega

theorem toNat_ofDigits_lt (bs : List UInt8) (h : bs.length ≤ 8) :
    (ofDigits bs).toNat < 256 ^ bs.length := by
  induction bs with
  | nil => decide
  | cons b bs ih =>
    rw [List.length_cons] at h ⊢
    have hlt := ih (by omega)
    have hle : 256 ^ bs.length ≤ 256 ^ 7 := Nat.pow_le_pow_right (by decide) (by omega)
    have hb := b.toNat_lt
    rw [toNat_ofDigits_cons b bs (by omega), Nat.pow_succ]
    omega

/-- The number of a run of bytes has these bytes as its digits. -/
theorem digits_ofDigits (bs : List UInt8) (h : bs.length ≤ 8) :
    digits (ofDigits bs) bs.length = bs := by
  induction bs with
  | nil => rfl
  | cons b bs ih =>
    rw [List.length_cons] at h ⊢
    have hlt := toNat_ofDigits_lt bs (by omega)
    have hle : 256 ^ bs.length ≤ 256 ^ 7 := Nat.pow_le_pow_right (by decide) (by omega)
    have hcons := toNat_ofDigits_cons b bs (by omega)
    have hb := b.toNat_lt
    have hlow : (ofDigits (b :: bs)).toUInt8 = b := by
      apply UInt8.toNat_inj.mp
      rw [UInt64.toNat_toUInt8, hcons]
      omega
    have hhigh : ofDigits (b :: bs) / 256 = ofDigits bs := by
      apply UInt64.toNat_inj.mp
      have h256 : (256 : UInt64).toNat = 256 := rfl
      rw [UInt64.toNat_div, hcons, h256]
      omega
    rw [digits, hlow, hhigh, ih (by omega)]

/-- The lowest `n` digits stand for the number modulo `256 ^ n`. -/
theorem toNat_ofDigits_digits (v : UInt64) {n : Nat} (h : n ≤ 8) :
    (ofDigits (digits v n)).toNat = v.toNat % 256 ^ n := by
  induction n generalizing v with
  | zero => simp [digits, ofDigits, Nat.mod_one]
  | succ n ih =>
    have hlen : (digits (v / 256) n).length ≤ 7 := by
      rw [length_digits]
      omega
    have hlt := toNat_ofDigits_lt (digits (v / 256) n) (by omega)
    have hle : 256 ^ (digits (v / 256) n).length ≤ 256 ^ 7 :=
      Nat.pow_le_pow_right (by decide) hlen
    have h256 : (256 : UInt64).toNat = 256 := rfl
    have hsplit : v.toNat % 256 ^ (n + 1) = v.toNat % 256 + 256 * (v.toNat / 256 % 256 ^ n) := by
      rw [Nat.pow_succ', Nat.mod_mul]
    rw [digits, toNat_ofDigits_cons _ _ (by omega), ih _ (by omega), UInt64.toNat_toUInt8,
      UInt64.toNat_div, h256, hsplit]

/-- The lowest `n` digits are those of the number modulo `256 ^ n`. -/
theorem digits_eq_of_mod_eq {v w : UInt64} {n : Nat} (hn : n ≤ 8)
    (h : v.toNat % 256 ^ n = w.toNat % 256 ^ n) : digits v n = digits w n := by
  have hsame : ofDigits (digits v n) = ofDigits (digits w n) := by
    apply UInt64.toNat_inj.mp
    rw [toNat_ofDigits_digits v hn, toNat_ofDigits_digits w hn, h]
  have hback (x : UInt64) : digits (ofDigits (digits x n)) n = digits x n := by
    have hlen := length_digits x n
    have hdigits := digits_ofDigits (digits x n) (by omega)
    rwa [hlen] at hdigits
  rw [← hback v, hsame, hback w]

/-! ## Unsigned numbers -/

theorem toNat_read_lt (o : ByteOrder) {bs : List UInt8} (h : bs.length ≤ 8) :
    (o.read bs).toNat < 256 ^ bs.length := by
  cases o with
  | little => exact toNat_ofDigits_lt bs h
  | big =>
    have hrev := toNat_ofDigits_lt bs.reverse (by rwa [List.length_reverse])
    rwa [List.length_reverse] at hrev

theorem write_read (o : ByteOrder) {bs : List UInt8} (h : bs.length ≤ 8) :
    o.write (o.read bs) bs.length = bs := by
  cases o with
  | little => exact digits_ofDigits bs h
  | big =>
    have hrev := digits_ofDigits bs.reverse (by rwa [List.length_reverse])
    rw [List.length_reverse] at hrev
    rw [write, read, hrev, List.reverse_reverse]

theorem toNat_read_write (o : ByteOrder) (v : UInt64) {n : Nat} (h : n ≤ 8) :
    (o.read (o.write v n)).toNat = v.toNat % 256 ^ n := by
  cases o with
  | little => exact toNat_ofDigits_digits v h
  | big =>
    rw [write, read, List.reverse_reverse]
    exact toNat_ofDigits_digits v h

/-! ## Signed fields -/

theorem writeInt16_readInt16 (o : ByteOrder) (b₀ b₁ : UInt8) :
    o.writeInt16 (o.readInt16 b₀ b₁) = [b₀, b₁] := by
  have hlen : [b₀, b₁].length ≤ 8 := by simp
  have hlt := o.toNat_read_lt hlen
  have hcast : (o.read [b₀, b₁]).toUInt16.toUInt64 = o.read [b₀, b₁] := by
    apply UInt64.toNat_inj.mp
    simp only [List.length_cons, List.length_nil] at hlt
    rw [UInt16.toNat_toUInt64, UInt64.toNat_toUInt16]
    omega
  rw [writeInt16, readInt16, UInt16.toUInt16_toInt16, hcast]
  exact o.write_read hlen

theorem writeInt32_readInt32 (o : ByteOrder) (b₀ b₁ b₂ b₃ : UInt8) :
    o.writeInt32 (o.readInt32 b₀ b₁ b₂ b₃) = [b₀, b₁, b₂, b₃] := by
  have hlen : [b₀, b₁, b₂, b₃].length ≤ 8 := by simp
  have hlt := o.toNat_read_lt hlen
  have hcast : (o.read [b₀, b₁, b₂, b₃]).toUInt32.toUInt64 = o.read [b₀, b₁, b₂, b₃] := by
    apply UInt64.toNat_inj.mp
    simp only [List.length_cons, List.length_nil] at hlt
    rw [UInt32.toNat_toUInt64, UInt64.toNat_toUInt32]
    omega
  rw [writeInt32, readInt32, UInt32.toUInt32_toInt32, hcast]
  exact o.write_read hlen

theorem exists_writeInt16 (o : ByteOrder) (v : Int16) :
    ∃ b₀ b₁, o.writeInt16 v = [b₀, b₁] ∧ o.readInt16 b₀ b₁ = v := by
  have hlen : (o.writeInt16 v).length = 2 := o.length_write _ 2
  match hbytes : o.writeInt16 v, hlen with
  | [b₀, b₁], _ =>
    have hv := v.toUInt16.toNat_lt
    have hread := o.toNat_read_write v.toUInt16.toUInt64 (n := 2) (by decide)
    have hnat : (o.read [b₀, b₁]).toUInt16 = v.toUInt16 := by
      apply UInt16.toNat_inj.mp
      rw [UInt64.toNat_toUInt16, ← hbytes, writeInt16, hread, UInt16.toNat_toUInt64]
      omega
    refine ⟨b₀, b₁, rfl, ?_⟩
    rw [readInt16, hnat, Int16.toInt16_toUInt16]

theorem exists_writeInt32 (o : ByteOrder) (v : Int32) :
    ∃ b₀ b₁ b₂ b₃, o.writeInt32 v = [b₀, b₁, b₂, b₃] ∧ o.readInt32 b₀ b₁ b₂ b₃ = v := by
  have hlen : (o.writeInt32 v).length = 4 := o.length_write _ 4
  match hbytes : o.writeInt32 v, hlen with
  | [b₀, b₁, b₂, b₃], _ =>
    have hv := v.toUInt32.toNat_lt
    have hread := o.toNat_read_write v.toUInt32.toUInt64 (n := 4) (by decide)
    have hnat : (o.read [b₀, b₁, b₂, b₃]).toUInt32 = v.toUInt32 := by
      apply UInt32.toNat_inj.mp
      rw [UInt64.toNat_toUInt32, ← hbytes, writeInt32, hread, UInt32.toNat_toUInt64]
      omega
    refine ⟨b₀, b₁, b₂, b₃, rfl, ?_⟩
    rw [readInt32, hnat, Int32.toInt32_toUInt32]

/-! ## The register byte -/

theorem toNat_lowHalf (b : UInt8) : (b &&& 0x0f).toNat = b.toNat % 16 := by
  have hmask : (0x0f : UInt8).toNat = 2 ^ 4 - 1 := rfl
  rw [UInt8.toNat_and, hmask, Nat.and_two_pow_sub_one_eq_mod]

theorem toNat_highHalf (b : UInt8) : (b >>> 4).toNat = b.toNat / 16 := by
  have hshift : (4 : UInt8).toNat % 8 = 4 := rfl
  rw [UInt8.toNat_shiftRight, hshift, Nat.shiftRight_eq_div_pow]

theorem toNat_halves (high low : UInt8) :
    ((high <<< 4) ||| (low &&& 0x0f)).toNat = 16 * (high.toNat % 16) + low.toNat % 16 := by
  have hshift : (4 : UInt8).toNat % 8 = 4 := rfl
  have hhigh : high.toNat <<< 4 % 2 ^ 8 = (high.toNat % 16) <<< 4 := by
    rw [Nat.shiftLeft_eq, Nat.shiftLeft_eq]
    omega
  have hlow : low.toNat % 16 < 2 ^ 4 := Nat.mod_lt _ (by decide)
  rw [UInt8.toNat_or, UInt8.toNat_shiftLeft, hshift, hhigh, toNat_lowHalf,
    ← Nat.shiftLeft_add_eq_or_of_lt hlow, Nat.shiftLeft_eq]
  omega

theorem packRegisters_splitRegisters (o : ByteOrder) (b : UInt8) :
    o.packRegisters (o.splitRegisters b).1 (o.splitRegisters b).2 = b := by
  have hb := b.toNat_lt
  apply UInt8.toNat_inj.mp
  cases o with
  | little =>
    rw [packRegisters, splitRegisters, toNat_halves, toNat_lowHalf, toNat_highHalf]
    omega
  | big =>
    rw [packRegisters, splitRegisters, toNat_halves, toNat_lowHalf, toNat_highHalf]
    omega

/-- Of the register numbers that are packed, the low halves survive. -/
theorem splitRegisters_packRegisters (o : ByteOrder) (dst src : UInt8) :
    o.splitRegisters (o.packRegisters dst src) = (dst % 16, src % 16) := by
  have h16 : (16 : UInt8).toNat = 16 := rfl
  have hlow (high low : UInt8) : ((high <<< 4) ||| (low &&& 0x0f)) &&& 0x0f = low % 16 := by
    apply UInt8.toNat_inj.mp
    rw [toNat_lowHalf, toNat_halves, UInt8.toNat_mod, h16]
    omega
  have hhigh (high low : UInt8) : ((high <<< 4) ||| (low &&& 0x0f)) >>> 4 = high % 16 := by
    apply UInt8.toNat_inj.mp
    rw [toNat_highHalf, toNat_halves, UInt8.toNat_mod, h16]
    omega
  cases o with
  | little => rw [packRegisters, splitRegisters, hlow, hhigh]
  | big => rw [packRegisters, splitRegisters, hlow, hhigh]

end ByteOrder

/-! ## Halves of a number -/

/-- Two halves side by side. -/
theorem toNat_joinHalves (high low : UInt32) :
    (high.toUInt64 <<< 32 ||| low.toUInt64).toNat = 2 ^ 32 * high.toNat + low.toNat := by
  have hlow := low.toNat_lt
  have hhigh := high.toNat_lt
  have hshift : (32 : UInt64).toNat % 64 = 32 := rfl
  have hfit : high.toNat <<< 32 % 2 ^ 64 = high.toNat <<< 32 := by
    rw [Nat.shiftLeft_eq]
    omega
  rw [UInt64.toNat_or, UInt64.toNat_shiftLeft, UInt32.toNat_toUInt64, UInt32.toNat_toUInt64, hshift,
    hfit, ← Nat.shiftLeft_add_eq_or_of_lt hlow, Nat.shiftLeft_eq]
  omega

theorem toNat_upperHalf (v : UInt64) : (v >>> 32).toUInt32.toNat = v.toNat / 2 ^ 32 := by
  have hv := v.toNat_lt
  have hshift : (32 : UInt64).toNat % 64 = 32 := rfl
  rw [UInt64.toNat_toUInt32, UInt64.toNat_shiftRight, hshift, Nat.shiftRight_eq_div_pow]
  omega

/-- The halves of a number, put together again. -/
theorem joinHalves_halves (v : UInt64) :
    (v >>> 32).toUInt32.toUInt64 <<< 32 ||| v.toUInt32.toUInt64 = v := by
  apply UInt64.toNat_inj.mp
  rw [toNat_joinHalves, toNat_upperHalf, UInt64.toNat_toUInt32]
  omega

/-! ## Words -/

namespace Word

theorem toNat_wideImm (low high : Word) :
    (wideImm low high).toUInt64.toNat =
      2 ^ 32 * high.imm.toUInt32.toNat + low.imm.toUInt32.toNat := by
  have hlow := low.imm.toUInt32.toNat_lt
  have hhigh := high.imm.toUInt32.toNat_lt
  have hfactor : (0x100000000 : UInt64).toNat = 2 ^ 32 := rfl
  rw [wideImm, UInt64.toUInt64_toInt64, UInt64.toNat_add, UInt64.toNat_mul, UInt32.toNat_toUInt64,
    UInt32.toNat_toUInt64, hfactor]
  omega

/-- A wide immediate is its two halves side by side. -/
theorem wideImm_eq (low high : Word) :
    wideImm low high =
      (high.imm.toUInt32.toUInt64 <<< 32 ||| low.imm.toUInt32.toUInt64).toInt64 := by
  have hbits : (wideImm low high).toUInt64 =
      high.imm.toUInt32.toUInt64 <<< 32 ||| low.imm.toUInt32.toUInt64 := by
    apply UInt64.toNat_inj.mp
    rw [toNat_wideImm, toNat_joinHalves]
  rw [← hbits, Int64.toInt64_toUInt64]

/-- The bytes of a word that was read, with those behind it, are the bytes it was read from. -/
theorem toBytes_append_of_read? {o : ByteOrder} {bytes rest : List UInt8} {w : Word}
    (h : read? o bytes = some (w, rest)) : w.toBytes o ++ rest = bytes := by
  unfold read? at h
  split at h
  · cases h
    rw [toBytes, ByteOrder.packRegisters_splitRegisters, ByteOrder.writeInt16_readInt16,
      ByteOrder.writeInt32_readInt32]
    rfl
  · cases h

/-- A word reads back, but for the high halves of its register numbers. -/
theorem read?_toBytes (o : ByteOrder) (w : Word) (rest : List UInt8) :
    read? o (w.toBytes o ++ rest) = some ({ w with dst := w.dst % 16, src := w.src % 16 }, rest) := by
  obtain ⟨b₂, b₃, hoff, hoff'⟩ := o.exists_writeInt16 w.off
  obtain ⟨b₄, b₅, b₆, b₇, himm, himm'⟩ := o.exists_writeInt32 w.imm
  rw [toBytes, hoff, himm]
  simp only [List.cons_append, List.nil_append, read?, ByteOrder.splitRegisters_packRegisters,
    hoff', himm']

/-- Register numbers that fit their half bytes. -/
def Fits (w : Word) : Prop :=
  w.dst < 16 ∧ w.src < 16

/-- A word with such register numbers reads back as it was. -/
theorem Fits.read?_toBytes {w : Word} (h : w.Fits) (o : ByteOrder) (rest : List UInt8) :
    read? o (w.toBytes o ++ rest) = some (w, rest) := by
  have hmod (n : UInt8) (hn : n < 16) : n % 16 = n := by
    have h16 : (16 : UInt8).toNat = 16 := rfl
    have hlt := UInt8.lt_iff_toNat_lt.mp hn
    apply UInt8.toNat_inj.mp
    rw [UInt8.toNat_mod, h16]
    omega
  rw [Word.read?_toBytes, hmod w.dst h.1, hmod w.src h.2]

theorem assemble_nil (o : ByteOrder) : assemble o [] = [] := rfl

theorem assemble_cons (o : ByteOrder) (w : Word) (ws : List Word) :
    assemble o (w :: ws) = w.toBytes o ++ assemble o ws := rfl

theorem assemble_append (o : ByteOrder) (ws ws' : List Word) :
    assemble o (ws ++ ws') = assemble o ws ++ assemble o ws' :=
  List.flatMap_append

/-- The image from a word on is the image of the words from there on. -/
theorem drop_assemble (o : ByteOrder) (ws : List Word) (i : Nat) :
    (assemble o ws).drop (size * i) = assemble o (ws.drop i) := by
  induction i generalizing ws with
  | zero => rfl
  | succ i ih =>
    match ws with
    | [] => simp [assemble_nil]
    | w :: ws =>
      have hsplit : size * (i + 1) = (w.toBytes o).length + size * i := by
        rw [length_toBytes, Nat.mul_succ, Nat.add_comm]
      rw [assemble_cons, hsplit, List.drop_length_add_append, ih, List.drop_succ_cons]

/-- Reading looks at nothing behind the word. -/
theorem read?_take_append {o : ByteOrder} {bytes rest : List UInt8} {w : Word}
    (h : read? o bytes = some (w, rest)) (x : List UInt8) :
    read? o (bytes.take size ++ x) = some (w, x) := by
  unfold read? at h
  split at h
  · cases h
    rfl
  · cases h

end Word

end Ebpf
