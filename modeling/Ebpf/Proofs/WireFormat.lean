/-
  Bytes on the wire, from numbers and from words and back. Numbers are read by
  shifting one byte in after the other, and written by shifting them out
  (`ofDigits_eq_foldr`, `write_eq_shifts`); a program image is cut into pieces of
  eight bytes, each of them a word.

  `codecs_inverse`: reading and writing a number of at most eight bytes undo each
  other, and the two byte orders mirror each other. `images_bijective`: programs
  and images whose length is a multiple of eight stand for each other, one for
  one, once register numbers are taken modulo 16.
-/
import Ebpf.Proofs.Layout
import Mathlib.Data.Set.Function

namespace Ebpf

/-! ## Numbers by shifts -/

namespace ByteOrder

/-- The number so far with one more byte behind it. -/
def shiftIn (acc : UInt64) (b : UInt8) : UInt64 :=
  acc <<< 8 ||| b.toUInt64

/-- The lowest byte of a number that is shifted down by `k` bytes. -/
def shiftOut (v : UInt64) (k : Nat) : UInt8 :=
  (v >>> (8 * k).toUInt64).toUInt8

/-- Shifting by a byte leaves room for it, and drops what does not fit any more. -/
theorem shiftIn_eq (acc : UInt64) (b : UInt8) : shiftIn acc b = b.toUInt64 + 256 * acc := by
  apply UInt64.toNat_inj.mp
  have hb := b.toNat_lt
  have h256 : (256 : UInt64).toNat = 256 := rfl
  have hshift : (8 : UInt64).toNat % 64 = 8 := rfl
  have hroom : acc.toNat <<< 8 % 2 ^ 64 = (acc.toNat % 2 ^ 56) <<< 8 := by
    rw [Nat.shiftLeft_eq, Nat.shiftLeft_eq]
    omega
  rw [shiftIn, UInt64.toNat_or, UInt64.toNat_shiftLeft, hshift, hroom, UInt8.toNat_toUInt64,
    ← Nat.shiftLeft_add_eq_or_of_lt hb, Nat.shiftLeft_eq, UInt64.toNat_add, UInt64.toNat_mul,
    UInt8.toNat_toUInt64, h256]
  omega

theorem ofDigits_eq_foldr (bs : List UInt8) :
    ofDigits bs = bs.foldr (fun b acc => shiftIn acc b) 0 := by
  induction bs with
  | nil => rfl
  | cons b bs ih => rw [ofDigits, List.foldr_cons, shiftIn_eq, ih]

theorem read_little_eq_shifts (bs : List UInt8) :
    read .little bs = bs.reverse.foldl shiftIn 0 := by
  rw [read, ofDigits_eq_foldr, List.foldl_reverse]

theorem read_big_eq_shifts (bs : List UInt8) : read .big bs = bs.foldl shiftIn 0 := by
  rw [read, ofDigits_eq_foldr, List.foldr_reverse]

theorem shiftOut_eq (v : UInt64) {k : Nat} (h : k < 8) :
    shiftOut v k = UInt8.ofNat (v.toNat / 256 ^ k) := by
  apply UInt8.toNat_inj.mp
  have hshift : (8 * k).toUInt64.toNat % 64 = 8 * k := by
    rw [Nat.toUInt64_eq, UInt64.toNat_ofNat']
    omega
  have hpow : 2 ^ (8 * k) = 256 ^ k := Nat.pow_mul 2 8 k
  rw [shiftOut, UInt64.toNat_toUInt8, UInt64.toNat_shiftRight, hshift, Nat.shiftRight_eq_div_pow,
    hpow, UInt8.toNat_ofNat']

theorem write_eq_shifts (o : ByteOrder) (v : UInt64) {n : Nat} (h : n ≤ 8) :
    o.write v n = (List.range n).map fun i => shiftOut v (o.place n i) := by
  rw [write_eq_layout, layout]
  refine List.map_congr_left fun i hi => ?_
  have hlt := List.mem_range.mp hi
  have hplace : o.place n i < 8 := by
    cases o with
    | little =>
      rw [place]
      omega
    | big =>
      rw [place]
      omega
  rw [byteOf, shiftOut_eq v hplace]

/-- Reading and writing numbers of at most eight bytes are inverse to each other: a number is read
back modulo its room, and bytes are written back as they were. The big-endian codecs are the
little-endian ones on reversed bytes, and what is read fits its bytes. Writing shifts each byte down
from its place; reading shifts the bytes in, the most significant one first. -/
theorem codecs_inverse (o : ByteOrder) :
    (∀ (v : UInt64) (n : Nat), n ≤ 8 →
      (o.read (o.write v n)).toNat = v.toNat % 256 ^ n ∧
      write .big v n = (write .little v n).reverse ∧
      o.write v n = (List.range n).map fun i => shiftOut v (o.place n i)) ∧
    ∀ bs : List UInt8, bs.length ≤ 8 →
      o.write (o.read bs) bs.length = bs ∧
      read .big bs = read .little bs.reverse ∧
      (o.read bs).toNat < 256 ^ bs.length ∧
      read .big bs = bs.foldl shiftIn 0 ∧
      read .little bs = bs.reverse.foldl shiftIn 0 := by
  constructor
  · intro v n hn
    exact ⟨o.toNat_read_write v hn, write_of_ne (by decide) v n, o.write_eq_shifts v hn⟩
  · intro bs hbs
    exact ⟨o.write_read hbs, read_of_ne (by decide) bs, o.toNat_read_lt hbs, read_big_eq_shifts bs,
      read_little_eq_shifts bs⟩

/-- Five bytes, a length that no instruction reads or writes. -/
theorem codecs_inverse_five :
    (read .big (write .big 0x1122334455667788 5)).toNat = 0x4455667788 ∧
      write .big (read .big [0xff, 0, 0x80, 0, 1]) 5 = [0xff, 0, 0x80, 0, 1] := by
  obtain ⟨hnumber, hbytes⟩ := codecs_inverse .big
  exact ⟨(hnumber 0x1122334455667788 5 (by decide)).1, (hbytes [0xff, 0, 0x80, 0, 1] (by decide)).1⟩

end ByteOrder

/-! ## Images -/

namespace Word

/-- The pieces of eight bytes that a byte string is cut into; what is left at its end is dropped. -/
def cut : List UInt8 → List (List UInt8)
  | b₀ :: b₁ :: b₂ :: b₃ :: b₄ :: b₅ :: b₆ :: b₇ :: rest =>
    [b₀, b₁, b₂, b₃, b₄, b₅, b₆, b₇] :: cut rest
  | _ => []

theorem cut_append {piece : List UInt8} (h : piece.length = size) (rest : List UInt8) :
    cut (piece ++ rest) = piece :: cut rest := by
  match piece, h with
  | [_, _, _, _, _, _, _, _], _ => rfl

/-- Each piece of an image is the word it was made from, less the high halves of its register
numbers. -/
theorem map_read?_cut_assemble (o : ByteOrder) (ws : List Word) :
    (cut (assemble o ws)).map (read? o) =
      ws.map fun w => some ({ w with dst := w.dst % 16, src := w.src % 16 }, []) := by
  induction ws with
  | nil => rfl
  | cons w ws ih =>
    have hword := read?_toBytes o w []
    rw [List.append_nil] at hword
    rw [assemble_cons, cut_append (length_toBytes o w), List.map_cons, List.map_cons, hword, ih]

theorem map_read?_cut_of_fits {ws : List Word} (h : ∀ w ∈ ws, w.Fits) (o : ByteOrder) :
    (cut (assemble o ws)).map (read? o) = ws.map fun w => some (w, []) := by
  rw [map_read?_cut_assemble]
  refine List.map_congr_left fun w hw => ?_
  rw [← read?_toBytes o w [], (h w hw).read?_toBytes]

/-- What is read from a word's own bytes is the word. -/
theorem read?_toBytes_of_read? {o : ByteOrder} {bytes rest : List UInt8} {w : Word}
    (h : read? o bytes = some (w, rest)) : read? o (w.toBytes o) = some (w, []) := by
  have hbytes := toBytes_append_of_read? h
  have hread := read?_take_append h []
  rwa [← hbytes, List.take_left' (length_toBytes o w), List.append_nil] at hread

theorem fits_of_read? {o : ByteOrder} {bytes rest : List UInt8} {w : Word}
    (h : read? o bytes = some (w, rest)) : w.Fits := by
  have hself := read?_toBytes_of_read? h
  have hmod := read?_toBytes o w []
  rw [List.append_nil, hself] at hmod
  have hw := congrArg Prod.fst (Option.some.inj hmod)
  have hlt (n : UInt8) : n % 16 < 16 := UInt8.mod_lt n (by decide)
  constructor
  · rw [congrArg Word.dst hw]
    exact hlt w.dst
  · rw [congrArg Word.src hw]
    exact hlt w.src

/-- Bytes that can be cut without rest are the image of the words read from the pieces. -/
theorem exists_words (o : ByteOrder) (bytes : List UInt8) (h : size ∣ bytes.length) :
    ∃ ws, (cut bytes).map (read? o) = ws.map (fun w => some (w, [])) ∧ assemble o ws = bytes ∧
      ∀ w ∈ ws, w.Fits := by
  induction hn : bytes.length using Nat.strongRecOn generalizing bytes with
  | ind n ih =>
    match hread : read? o bytes with
    | none =>
      have hlt := read?_eq_none_iff.mp hread
      have hnil := List.length_eq_zero_iff.mp (Nat.eq_zero_of_dvd_of_lt h hlt)
      subst hnil
      exact ⟨[], rfl, rfl, by simp⟩
    | some (w, rest) =>
      have hlen : bytes.length = size + rest.length := length_of_read? hread
      have hbytes := toBytes_append_of_read? hread
      have hrest : size ∣ rest.length := by
        rw [hlen] at h
        exact (Nat.dvd_add_right (Nat.dvd_refl size)).mp h
      have hshorter : rest.length < n := by
        rw [← hn, hlen]
        exact Nat.lt_add_of_pos_left (by decide)
      obtain ⟨ws, hcut, hassemble, hfits⟩ := ih rest.length hshorter rest hrest rfl
      refine ⟨w :: ws, ?_, ?_, ?_⟩
      · rw [← hbytes, cut_append (length_toBytes o w), List.map_cons, List.map_cons,
          read?_toBytes_of_read? hread, hcut]
      · rw [assemble_cons, hassemble, hbytes]
      · intro w' hw'
        rcases List.mem_cons.mp hw' with rfl | hmem
        · exact fits_of_read? hread
        · exact hfits w' hmem

/-- Programs and images stand for each other. The image of any words has eight bytes for each of
them; cut into pieces of eight bytes, it gives every word back with its register numbers modulo 16,
and so as it was if these fit their half bytes. Every byte string whose length is a multiple of
eight is the image of the words that its pieces hold. So assembling is a bijection from programs
whose register numbers fit to byte strings of such a length. -/
theorem images_bijective (o : ByteOrder) :
    (∀ ws : List Word,
      (cut (assemble o ws)).map (read? o) =
          ws.map (fun w => some ({ w with dst := w.dst % 16, src := w.src % 16 }, [])) ∧
        (assemble o ws).length = 8 * ws.length ∧
        ((∀ w ∈ ws, w.dst < 16 ∧ w.src < 16) →
          (cut (assemble o ws)).map (read? o) = ws.map fun w => some (w, []))) ∧
    (∀ bytes : List UInt8, 8 ∣ bytes.length →
      ∃ ws, (cut bytes).map (read? o) = ws.map (fun w => some (w, [])) ∧ assemble o ws = bytes) ∧
    Set.BijOn (assemble o) {ws | ∀ w ∈ ws, w.Fits} {bytes | 8 ∣ bytes.length} := by
  refine ⟨?_, ?_, ?_, ?_, ?_⟩
  · intro ws
    exact ⟨map_read?_cut_assemble o ws, length_assemble o ws, fun h => map_read?_cut_of_fits h o⟩
  · intro bytes hdvd
    obtain ⟨ws, hcut, hassemble, -⟩ := exists_words o bytes hdvd
    exact ⟨ws, hcut, hassemble⟩
  · intro ws _
    exact ⟨ws.length, length_assemble o ws⟩
  · intro ws hws ws' hws' heq
    have hpieces := map_read?_cut_of_fits hws o
    rw [heq, map_read?_cut_of_fits hws' o] at hpieces
    have hinj : Function.Injective fun w : Word => some (w, ([] : List UInt8)) := by
      intro w w' h
      exact congrArg Prod.fst (Option.some.inj h)
    exact (List.map_injective_iff.mpr hinj hpieces).symm
  · intro bytes hdvd
    obtain ⟨ws, -, hassemble, hfits⟩ := exists_words o bytes hdvd
    exact ⟨ws, hfits, hassemble⟩

/-- A word whose register numbers do not fit, and the word that its bytes hold. -/
theorem images_bijective_highRegisters :
    let w : Word := { opcode := 0xbf, dst := 0x2a, src := 0xf1, off := -1, imm := -2147483648 }
    let held : Word := { opcode := 0xbf, dst := 0xa, src := 0x1, off := -1, imm := -2147483648 }
    (cut (assemble .big [w, held])).map (read? .big) = [some (held, []), some (held, [])] ∧
      (cut (assemble .big [held])).map (read? .big) = [some (held, [])] := by
  intro w held
  obtain ⟨hwords, -, -⟩ := images_bijective .big
  have hfits : ∀ w ∈ [held], w.dst < 16 ∧ w.src < 16 := by
    intro w hw
    rw [List.mem_singleton.mp hw]
    decide
  exact ⟨(hwords [w, held]).1.trans (by decide), (hwords [held]).2.2 hfits⟩

end Word

end Ebpf
