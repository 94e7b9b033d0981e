/-
  What the lossy reader makes of bytes. `Reads` says it without the reader: bytes
  that encode a character are that character; a malformed run, which is either a
  byte that starts no character or the start of a character that the next byte
  does not go on with, is one replacement character.

  `decodeLossy_eq_iff` ties the two together. The reader keeps an unfinished
  sequence as its state; `Opened` ties that state to the bytes read so far: it
  allows exactly the characters whose encoding starts with them.

  A text has at least as many bytes as it was read from, and at most three times as
  many (`Reads.size_bounds`); for valid bytes it has just as many
  (`Reads.utf8ByteSize_of_valid`).
-/
import Ebpf.Text.Utf8
import Mathlib.Algebra.Group.Nat.Defs
import Mathlib.Data.List.Infix

namespace Ebpf.Text.Utf8

open String (utf8EncodeChar)

/-! ## Malformed bytes -/

/-- Bytes that no character starts with. -/
def Dead (bs : List UInt8) : Prop :=
  ∀ c : Char, ¬ bs <+: utf8EncodeChar c

/-- A malformed run of bytes, in front of the bytes that follow it. -/
inductive Malformed : List UInt8 → List UInt8 → Prop where
  /-- A byte that no character starts with. -/
  | stray {b : UInt8} {rest : List UInt8} (hb : Dead [b]) : Malformed [b] rest
  /-- The start of a character, not all of it, that the next byte does not go on with. -/
  | brokenOff {seg rest : List UInt8} {c : Char} (hne : seg ≠ [])
      (hstart : seg <+: utf8EncodeChar c) (hshort : seg ≠ utf8EncodeChar c)
      (hnext : ∀ b ∈ rest.head?, Dead (seg ++ [b])) : Malformed seg rest

/-- The text that bytes stand for, with each malformed run replaced. -/
inductive Reads : List UInt8 → List Char → Prop where
  | nil : Reads [] []
  | char {bs : List UInt8} {cs : List Char} (c : Char) (h : Reads bs cs) :
      Reads (utf8EncodeChar c ++ bs) (c :: cs)
  | malformed {seg bs : List UInt8} {cs : List Char} (hseg : Malformed seg bs) (h : Reads bs cs) :
      Reads (seg ++ bs) (replacement :: cs)

theorem Dead.append {bs : List UInt8} (h : Dead bs) (bs' : List UInt8) : Dead (bs ++ bs') :=
  fun c hc => h c ((List.prefix_append bs bs').trans hc)

/-- No character's bytes start with those of another. -/
theorem char_eq_of_starts {c c' : Char} (h : utf8EncodeChar c <+: utf8EncodeChar c') : c = c' := by
  obtain ⟨rest, hrest⟩ := h
  have hc := ByteArray.utf8DecodeChar?_utf8EncodeChar_append (b := rest.toByteArray) (c := c)
  have hc' := ByteArray.utf8DecodeChar?_utf8EncodeChar_append (b := ByteArray.empty) (c := c')
  rw [ByteArray.append_empty, ← hrest, List.toByteArray_append, hc] at hc'
  exact Option.some.inj hc'

namespace Malformed

variable {seg rest : List UInt8}

theorem ne_nil (h : Malformed seg rest) : seg ≠ [] := by
  cases h with
  | stray hb => simp
  | brokenOff hne => exact hne

/-- The byte that follows does not continue the run. -/
theorem dead_next {b : UInt8} {rest' : List UInt8} (h : Malformed seg (b :: rest')) :
    Dead (seg ++ [b]) := by
  cases h with
  | stray hb => exact hb.append [b]
  | brokenOff hne hstart hshort hnext => exact hnext b rfl

/-- A run of more than one byte is the start of a character. -/
theorem length_eq_one_or (h : Malformed seg rest) :
    seg.length = 1 ∨ ∃ c, seg <+: utf8EncodeChar c ∧ seg ≠ utf8EncodeChar c := by
  cases h with
  | stray hb => exact .inl rfl
  | @brokenOff _ _ c hne hstart hshort hnext => exact .inr ⟨c, hstart, hshort⟩

theorem length_le (h : Malformed seg rest) : seg.length ≤ 3 := by
  rcases h.length_eq_one_or with hone | ⟨c, hstart, hshort⟩
  · omega
  · have hfour := c.utf8Size_le_four
    have hle := hstart.length_le
    have hne : seg.length ≠ (utf8EncodeChar c).length := fun heq => hshort (hstart.eq_of_length heq)
    rw [String.length_utf8EncodeChar] at hle hne
    omega

/-- A run does not start with all bytes of a character. -/
theorem not_whole (h : Malformed seg rest) (c : Char) : ¬ utf8EncodeChar c <+: seg := by
  intro hc
  cases h with
  | @stray b _ hb =>
    rcases List.prefix_cons_iff.mp hc with hnil | ⟨t, ht, hnil⟩
    · exact String.utf8EncodeChar_ne_nil hnil
    · refine hb c ?_
      rw [ht, List.prefix_nil.mp hnil]
  | @brokenOff _ _ c' hne hstart hshort hnext =>
    obtain rfl := char_eq_of_starts (hc.trans hstart)
    exact hshort (hstart.eq_of_length_le hc.length_le)

/-- No character is encoded at the place of a malformed run. -/
theorem not_encoded (h : Malformed seg rest) (c : Char) : ¬ utf8EncodeChar c <+: seg ++ rest := by
  intro hc
  -- The run and the encoding start at the same place, so one of them starts with the other.
  rcases List.prefix_or_prefix_of_prefix hc (List.prefix_append seg rest) with hwhole | ⟨t, ht⟩
  · exact h.not_whole c hwhole
  · match t, rest with
    | [], _ =>
      rw [List.append_nil] at ht
      exact h.not_whole c (ht ▸ List.prefix_rfl)
    | b :: t, [] =>
      have hlen := hc.length_le
      rw [← ht, List.append_nil, List.length_append, List.length_cons] at hlen
      omega
    | b :: t, b' :: rest =>
      rw [← ht, List.prefix_append_right_inj, List.cons_prefix_cons] at hc
      refine h.dead_next c ⟨t, ?_⟩
      rw [← ht, ← hc.1, List.append_assoc, List.singleton_append]

theorem eq_of_starts {seg' rest' : List UInt8} (h : Malformed seg rest) (h' : Malformed seg' rest')
    (heq : seg ++ rest = seg' ++ rest') (hpre : seg <+: seg') : seg = seg' := by
  obtain ⟨t, rfl⟩ := hpre
  match t with
  | [] => exact (List.append_nil seg).symm
  | b :: t =>
    -- A longer run would start with `seg` and the byte behind it, which no character does.
    have hrest : rest = b :: (t ++ rest') := by
      rwa [List.append_assoc, List.append_cancel_left_eq] at heq
    subst hrest
    have hpos := List.length_pos_iff.mpr h.ne_nil
    rcases h'.length_eq_one_or with hone | ⟨c, hstart, -⟩
    · rw [List.length_append, List.length_cons] at hone
      omega
    · refine absurd (List.IsPrefix.trans ⟨t, ?_⟩ hstart) (h.dead_next c)
      rw [List.append_assoc, List.singleton_append]

/-- How far a malformed run goes is settled by the bytes. -/
theorem unique {seg' rest' : List UInt8} (h : Malformed seg rest) (h' : Malformed seg' rest')
    (heq : seg ++ rest = seg' ++ rest') : seg = seg' := by
  have hpre : seg <+: seg' ++ rest' := ⟨rest, heq⟩
  rcases List.prefix_or_prefix_of_prefix hpre (List.prefix_append seg' rest') with hle | hge
  · exact h.eq_of_starts h' heq hle
  · exact (h'.eq_of_starts h heq.symm hge).symm

end Malformed

theorem utf8ByteSize_cons (c : Char) (cs : List Char) :
    (String.ofList (c :: cs)).utf8ByteSize = c.utf8Size + (String.ofList cs).utf8ByteSize := by
  rw [String.ofList_cons, String.utf8ByteSize_append, String.utf8ByteSize_singleton]

namespace Reads

/-- Bytes stand for one text only. -/
theorem unique {bs : List UInt8} {cs cs' : List Char} (h : Reads bs cs) (h' : Reads bs cs') :
    cs = cs' := by
  induction h generalizing cs' with
  | nil =>
    generalize hx : ([] : List UInt8) = x at h'
    cases h' with
    | nil => rfl
    | char c h' =>
      exact absurd (List.append_eq_nil_iff.mp hx.symm).1 String.utf8EncodeChar_ne_nil
    | malformed hseg h' => exact absurd (List.append_eq_nil_iff.mp hx.symm).1 hseg.ne_nil
  | @char bs cs c h ih =>
    generalize hx : utf8EncodeChar c ++ bs = x at h'
    cases h' with
    | nil => exact absurd (List.append_eq_nil_iff.mp hx).1 String.utf8EncodeChar_ne_nil
    | @char bs' cs' c' h' =>
      have hpre : utf8EncodeChar c <+: utf8EncodeChar c' ++ bs' := ⟨bs, hx⟩
      have hc : c = c' := by
        rcases List.prefix_or_prefix_of_prefix hpre (List.prefix_append _ bs') with hle | hge
        · exact char_eq_of_starts hle
        · exact (char_eq_of_starts hge).symm
      subst hc
      rw [List.append_cancel_left_eq] at hx
      subst hx
      rw [ih h']
    | malformed hseg h' => exact absurd ⟨bs, hx⟩ (hseg.not_encoded c)
  | @malformed seg bs cs hseg h ih =>
    generalize hx : seg ++ bs = x at h'
    cases h' with
    | nil => exact absurd (List.append_eq_nil_iff.mp hx).1 hseg.ne_nil
    | char c h' => exact absurd ⟨_, hx.symm⟩ (hseg.not_encoded c)
    | @malformed seg' bs' cs' hseg' h' =>
      obtain rfl := hseg.unique hseg' hx
      rw [List.append_cancel_left_eq] at hx
      subst hx
      rw [ih h']

theorem flatMap (cs : List Char) : Reads (cs.flatMap utf8EncodeChar) cs := by
  induction cs with
  | nil => exact .nil
  | cons c cs ih => exact .char c ih

/-- A text has at least as many bytes as it was read from, and at most three times as many. -/
theorem size_bounds {bs : List UInt8} {cs : List Char} (h : Reads bs cs) :
    bs.length ≤ (String.ofList cs).utf8ByteSize ∧
      (String.ofList cs).utf8ByteSize ≤ 3 * bs.length := by
  induction h with
  | nil => exact ⟨Nat.le_refl 0, Nat.le_refl 0⟩
  | char c h ih =>
    have hpos := c.utf8Size_pos
    rw [utf8ByteSize_cons, List.length_append, String.length_utf8EncodeChar]
    omega
  | malformed hseg h ih =>
    have hthree : replacement.utf8Size = 3 := rfl
    have hle := hseg.length_le
    have hpos := List.length_pos_iff.mpr hseg.ne_nil
    rw [utf8ByteSize_cons, List.length_append, hthree]
    omega

/-- Bytes that are valid are kept, so their text is as long as they are. -/
theorem utf8ByteSize_of_valid {bs : List UInt8} {cs : List Char} (h : Reads bs cs)
    (hvalid : bs.toByteArray.IsValidUTF8) : (String.ofList cs).utf8ByteSize = bs.length := by
  obtain ⟨m, hm⟩ := hvalid
  have hbytes : bs = m.flatMap utf8EncodeChar := List.toByteArray_inj.mp hm
  subst hbytes
  obtain rfl := h.unique (.flatMap m)
  rw [← String.size_toByteArray, String.toByteArray_ofList, List.utf8Encode, List.size_toByteArray]

end Reads

/-! ## Unfinished sequences -/

/-- The first byte of the character with a code point. -/
def leadByte (v : Nat) : Nat :=
  if v < 0x80 then v else if v < 0x800 then 192 + v / 64 else if v < 0x10000 then 224 + v / 4096
  else 240 + v / 262144

/-- The number of bytes that follow it. -/
def tailLength (v : Nat) : Nat :=
  if v < 0x80 then 0 else if v < 0x800 then 1 else if v < 0x10000 then 2 else 3

/-- The last `n` bytes of a character: six bits of its code point each. -/
def tailBytes (v : Nat) : Nat → List UInt8
  | 0 => []
  | n + 1 => UInt8.ofNat (128 + v / 64 ^ n % 64) :: tailBytes v n

/-- A character's bytes, by the number of them. -/
theorem utf8EncodeChar_eq (c : Char) :
    utf8EncodeChar c =
      UInt8.ofNat (leadByte c.toNat) :: tailBytes c.toNat (tailLength c.toNat) := by
  have hv : c.val.toNat = c.toNat := rfl
  have hvalid : c.toNat.isValidChar := c.valid
  simp only [utf8EncodeChar, hv, leadByte, tailLength]
  by_cases h1 : c.toNat < 0x80
  · rw [if_pos (by omega), if_pos h1, if_pos h1]
    rfl
  · rw [if_neg (by omega), if_neg h1, if_neg h1]
    by_cases h2 : c.toNat < 0x800
    · have hlead : c.toNat / 64 % 32 + 192 = 192 + c.toNat / 64 := by omega
      rw [if_pos (by omega), if_pos h2, if_pos h2, hlead]
      simp [tailBytes, Nat.add_comm]
    · rw [if_neg (by omega), if_neg h2, if_neg h2]
      by_cases h3 : c.toNat < 0x10000
      · have hlead : c.toNat / 4096 % 16 + 224 = 224 + c.toNat / 4096 := by omega
        rw [if_pos (by omega), if_pos h3, if_pos h3, hlead]
        simp [tailBytes, Nat.add_comm]
      · have hlead : c.toNat / 262144 % 8 + 240 = 240 + c.toNat / 262144 := by omega
        rw [if_neg (by omega), if_neg h3, if_neg h3, hlead]
        simp [tailBytes, Nat.add_comm]

/-- A byte that opens no sequence is no character's first byte. -/
theorem leadByte_ne {b : UInt8} (hb : 0x80 ≤ b) (h : Pending.ofLead? b = none) (c : Char) :
    leadByte c.toNat ≠ b.toNat := by
  have hvalid : c.toNat.isValidChar := c.valid
  have hhigh : 128 ≤ b.toNat := UInt8.le_iff_toNat_le.mp hb
  have hnone : b.toNat < 194 ∨ 244 < b.toNat := by
    unfold Pending.ofLead? at h
    simp only [UInt8.le_iff_toNat_le, ← UInt8.toNat_inj, UInt8.reduceToNat] at h
    grind
  unfold leadByte
  split_ifs <;> omega

/-- The first byte of a character's encoding. -/
theorem leadByte_of_starts {b : UInt8} {c : Char} (h : [b] <+: utf8EncodeChar c) :
    leadByte c.toNat = b.toNat := by
  have hvalid : c.toNat.isValidChar := c.valid
  have hlt : leadByte c.toNat < 256 := by
    unfold leadByte
    split_ifs <;> omega
  rw [utf8EncodeChar_eq, List.cons_prefix_cons] at h
  rw [h.1, UInt8.toNat_ofNat', Nat.mod_eq_of_lt hlt]

theorem dead_of_ofLead?_eq_none {b : UInt8} (hb : 0x80 ≤ b) (h : Pending.ofLead? b = none) :
    Dead [b] :=
  fun c hc => leadByte_ne hb h c (leadByte_of_starts hc)

namespace Pending

/-- The byte that comes next if the sequence becomes the character with a code point. -/
def nextByte (p : Pending) (v : Nat) : Nat :=
  128 + v / 64 ^ (p.missing - 1) % 64

/-- The code points that an unfinished sequence can still become: their leading bits are the
payload, and the byte that comes next is allowed. -/
def Fits (p : Pending) (v : Nat) : Prop :=
  v / 64 ^ p.missing = p.payload ∧ p.low.toNat ≤ p.nextByte v ∧ p.nextByte v ≤ p.high.toNat

/-- Bytes are still missing, and some byte of a character's tail is allowed next. -/
structure Sound (p : Pending) : Prop where
  missing_pos : 0 < p.missing
  low_ge : 128 ≤ p.low.toNat
  low_le : p.low.toNat ≤ p.high.toNat
  high_le : p.high.toNat ≤ 191

/-- The first bytes of sequences, and what each of them opens. -/
theorem ofLead?_cases {b : UInt8} {p : Pending} (h : ofLead? b = some p) :
    (194 ≤ b.toNat ∧ b.toNat ≤ 223 ∧ p = ⟨b.toNat % 32, 1, 0x80, 0xbf⟩) ∨
    (b.toNat = 224 ∧ p = ⟨b.toNat % 16, 2, 0xa0, 0xbf⟩) ∨
    (b.toNat = 237 ∧ p = ⟨b.toNat % 16, 2, 0x80, 0x9f⟩) ∨
    (225 ≤ b.toNat ∧ b.toNat ≤ 239 ∧ b.toNat ≠ 237 ∧ p = ⟨b.toNat % 16, 2, 0x80, 0xbf⟩) ∨
    (b.toNat = 240 ∧ p = ⟨b.toNat % 8, 3, 0x90, 0xbf⟩) ∨
    (241 ≤ b.toNat ∧ b.toNat ≤ 243 ∧ p = ⟨b.toNat % 8, 3, 0x80, 0xbf⟩) ∨
    (b.toNat = 244 ∧ p = ⟨b.toNat % 8, 3, 0x80, 0x8f⟩) := by
  unfold ofLead? at h
  simp only [UInt8.le_iff_toNat_le, ← UInt8.toNat_inj, UInt8.reduceToNat] at h
  split_ifs at h <;> grind

theorem sound_of_lead {b : UInt8} {p : Pending} (h : ofLead? b = some p) : p.Sound := by
  rcases ofLead?_cases h with ⟨_, _, rfl⟩ | ⟨_, rfl⟩ | ⟨_, rfl⟩ | ⟨_, _, _, rfl⟩ | ⟨_, rfl⟩ |
    ⟨_, _, rfl⟩ | ⟨_, rfl⟩
  all_goals constructor <;> dsimp only <;> decide

/-- What a first byte opens can become the characters with this first byte. -/
theorem fits_iff_of_lead {b : UInt8} {p : Pending} (h : ofLead? b = some p) (v : Nat) :
    p.Fits v ↔ v.isValidChar ∧ leadByte v = b.toNat := by
  unfold leadByte
  rcases ofLead?_cases h with ⟨_, _, rfl⟩ | ⟨_, rfl⟩ | ⟨_, rfl⟩ | ⟨_, _, _, rfl⟩ | ⟨_, rfl⟩ |
    ⟨_, _, rfl⟩ | ⟨_, rfl⟩
  all_goals
    simp only [Fits, nextByte, Nat.isValidChar, UInt8.reduceToNat]
    split_ifs <;> omega

theorem tailLength_of_lead {b : UInt8} {p : Pending} (h : ofLead? b = some p) {v : Nat}
    (hlead : leadByte v = b.toNat) : tailLength v = p.missing := by
  unfold tailLength
  unfold leadByte at hlead
  rcases ofLead?_cases h with ⟨_, _, rfl⟩ | ⟨_, rfl⟩ | ⟨_, rfl⟩ | ⟨_, _, _, rfl⟩ | ⟨_, rfl⟩ |
    ⟨_, _, rfl⟩ | ⟨_, rfl⟩
  all_goals
    dsimp only
    split_ifs at hlead ⊢ <;> omega

/-- One more byte fixes six more bits. -/
theorem quotient_eq_iff {p : Pending} (hp : p.Sound) {b : UInt8} (hlow : p.low ≤ b)
    (hhigh : b ≤ p.high) (v : Nat) :
    v / 64 ^ (p.missing - 1) = p.payload * 64 + b.toNat % 64 ↔
      p.Fits v ∧ p.nextByte v = b.toNat := by
  have hge := hp.low_ge
  have hle := hp.high_le
  have hlow' := UInt8.le_iff_toNat_le.mp hlow
  have hhigh' := UInt8.le_iff_toNat_le.mp hhigh
  have hpow : 64 ^ p.missing = 64 ^ (p.missing - 1) * 64 := by
    rw [← Nat.pow_succ, Nat.succ_eq_add_one, Nat.sub_add_cancel hp.missing_pos]
  rw [Fits, nextByte, hpow, ← Nat.div_div_eq_div_mul]
  omega

end Pending

theorem tailBytes_of_pos (p : Pending) (hpos : 0 < p.missing) (v : Nat) :
    tailBytes v p.missing = UInt8.ofNat (p.nextByte v) :: tailBytes v (p.missing - 1) := by
  obtain ⟨m, hm⟩ := Nat.exists_eq_succ_of_ne_zero (Nat.ne_of_gt hpos)
  rw [Pending.nextByte, hm]
  rfl

/-- The unfinished sequence `p` is what the bytes `seg` have opened: it can become exactly the
characters that start with these bytes, and these have the bytes left that are missing. -/
structure Opened (seg : List UInt8) (p : Pending) : Prop where
  ne_nil : seg ≠ []
  sound : p.Sound
  encodes : ∀ v, p.Fits v →
    ∃ c : Char, c.toNat = v ∧ utf8EncodeChar c = seg ++ tailBytes v p.missing
  fits : ∀ c : Char, seg <+: utf8EncodeChar c → p.Fits c.toNat

namespace Opened

variable {seg : List UInt8} {p : Pending}

theorem lead {b : UInt8} (h : Pending.ofLead? b = some p) : Opened [b] p where
  ne_nil := List.cons_ne_nil b []
  sound := Pending.sound_of_lead h
  encodes := by
    intro v hv
    obtain ⟨hvalid, hlead⟩ := (Pending.fits_iff_of_lead h v).mp hv
    have hc : (Char.ofNatAux v hvalid).toNat = v := rfl
    refine ⟨Char.ofNatAux v hvalid, hc, ?_⟩
    rw [utf8EncodeChar_eq, hc, Pending.tailLength_of_lead h hlead, hlead, UInt8.ofNat_toNat]
    rfl
  fits := by
    intro c hc
    exact (Pending.fits_iff_of_lead h c.toNat).mpr ⟨c.valid, leadByte_of_starts hc⟩

theorem encode_eq (h : Opened seg p) {c : Char} (hc : seg <+: utf8EncodeChar c) :
    utf8EncodeChar c =
      seg ++ UInt8.ofNat (p.nextByte c.toNat) :: tailBytes c.toNat (p.missing - 1) := by
  obtain ⟨c', hc', heq⟩ := h.encodes c.toNat (h.fits c hc)
  obtain rfl := Char.toNat_inj.mp hc'
  rw [heq, tailBytes_of_pos p h.sound.missing_pos]

/-- A byte that comes next in a character is allowed next. -/
theorem nextByte_eq (h : Opened seg p) {b : UInt8} {c : Char}
    (hc : seg ++ [b] <+: utf8EncodeChar c) : p.Fits c.toNat ∧ p.nextByte c.toNat = b.toNat := by
  have hseg : seg <+: utf8EncodeChar c := (List.prefix_append seg [b]).trans hc
  obtain ⟨hquot, hlow, hhigh⟩ := h.fits c hseg
  have hle := h.sound.high_le
  rw [h.encode_eq hseg, List.prefix_append_right_inj, List.cons_prefix_cons] at hc
  refine ⟨⟨hquot, hlow, hhigh⟩, ?_⟩
  rw [hc.1, UInt8.toNat_ofNat', Nat.mod_eq_of_lt (by omega)]

theorem dead (h : Opened seg p) {b : UInt8} (hb : ¬ (p.low ≤ b ∧ b ≤ p.high)) :
    Dead (seg ++ [b]) := by
  intro c hc
  obtain ⟨⟨-, hlow, hhigh⟩, hnext⟩ := h.nextByte_eq hc
  rw [hnext] at hlow hhigh
  exact hb ⟨UInt8.le_iff_toNat_le.mpr hlow, UInt8.le_iff_toNat_le.mpr hhigh⟩

/-- The characters that are left when one more byte has come. -/
theorem exists_char (h : Opened seg p) {b : UInt8} (hlow : p.low ≤ b) (hhigh : b ≤ p.high) {v : Nat}
    (hv : v / 64 ^ (p.missing - 1) = p.payload * 64 + b.toNat % 64) :
    ∃ c : Char, c.toNat = v ∧ utf8EncodeChar c = seg ++ [b] ++ tailBytes v (p.missing - 1) := by
  obtain ⟨hfits, hnext⟩ := (Pending.quotient_eq_iff h.sound hlow hhigh v).mp hv
  obtain ⟨c, hc, heq⟩ := h.encodes v hfits
  refine ⟨c, hc, ?_⟩
  rw [heq, tailBytes_of_pos p h.sound.missing_pos, hnext, UInt8.ofNat_toNat, List.append_assoc,
    List.singleton_append]

theorem next (h : Opened seg p) {b : UInt8} (hlow : p.low ≤ b) (hhigh : b ≤ p.high)
    (hmany : p.missing ≠ 1) :
    Opened (seg ++ [b]) ⟨p.payload * 64 + b.toNat % 64, p.missing - 1, 0x80, 0xbf⟩ where
  ne_nil := by simp
  sound :=
    { missing_pos := by
        have hpos := h.sound.missing_pos
        dsimp only
        omega
      low_ge := Nat.le_refl 128
      low_le := (by decide : 128 ≤ 191)
      high_le := Nat.le_refl 191 }
  encodes := fun v hv => h.exists_char hlow hhigh hv.1
  fits := by
    intro c hc
    refine ⟨(Pending.quotient_eq_iff h.sound hlow hhigh c.toNat).mpr (h.nextByte_eq hc), ?_, ?_⟩
    all_goals
      rw [Pending.nextByte]
      simp only [UInt8.reduceToNat]
      omega

/-- The last byte of a sequence makes it a character. -/
theorem last (h : Opened seg p) {b : UInt8} (hlow : p.low ≤ b) (hhigh : b ≤ p.high)
    (hone : p.missing = 1) :
    utf8EncodeChar (Char.ofNat (p.payload * 64 + b.toNat % 64)) = seg ++ [b] := by
  have hquot : (p.payload * 64 + b.toNat % 64) / 64 ^ (p.missing - 1) =
      p.payload * 64 + b.toNat % 64 := by
    rw [hone, Nat.sub_self, Nat.pow_zero, Nat.div_one]
  obtain ⟨c, hc, heq⟩ := h.exists_char hlow hhigh hquot
  rw [← hc, Char.ofNat_toNat, heq, hone]
  exact List.append_nil _

/-- Some character starts with the bytes read so far, and has more of them. -/
theorem begins (h : Opened seg p) : ∃ c, seg <+: utf8EncodeChar c ∧ seg ≠ utf8EncodeChar c := by
  have hpos : 0 < 64 ^ (p.missing - 1) := Nat.pow_pos (by decide)
  have hhigh : p.low ≤ p.high := UInt8.le_iff_toNat_le.mpr h.sound.low_le
  obtain ⟨c, -, heq⟩ := h.exists_char (UInt8.le_refl p.low) hhigh
    (Nat.mul_div_cancel (p.payload * 64 + p.low.toNat % 64) hpos)
  refine ⟨c, ?_, ?_⟩
  · rw [heq, List.append_assoc]
    exact List.prefix_append seg _
  · intro hseg
    have hlen := congrArg List.length (hseg.trans heq)
    rw [List.length_append, List.length_append, List.length_singleton] at hlen
    omega

theorem malformed (h : Opened seg p) {rest : List UInt8}
    (hnext : ∀ b ∈ rest.head?, ¬ (p.low ≤ b ∧ b ≤ p.high)) : Malformed seg rest := by
  obtain ⟨c, hstart, hshort⟩ := h.begins
  exact .brokenOff h.ne_nil hstart hshort fun b hb => h.dead (hnext b hb)

end Opened

/-! ## The reader -/

/-- What was read before stands in front of what is read now. -/
theorem decodeFrom_eq (read : List Char) (state : Option Pending) (bs : List UInt8) :
    decodeFrom read state bs = read.reverse ++ decodeFrom [] state bs := by
  induction bs generalizing read state with
  | nil =>
    cases state with
    | none => simp [decodeFrom]
    | some p => simp [decodeFrom]
  | cons b bs ih =>
    rw [decodeFrom, decodeFrom, ih, ih ((feed state b).1.reverse ++ [])]
    simp

theorem decodeFrom_cons (state : Option Pending) (b : UInt8) (bs : List UInt8) :
    decodeFrom [] state (b :: bs) = (feed state b).1 ++ decodeFrom [] (feed state b).2 bs := by
  rw [decodeFrom, decodeFrom_eq, List.append_nil, List.reverse_reverse]

theorem utf8EncodeChar_ofNat {b : UInt8} (h : b < 0x80) :
    utf8EncodeChar (Char.ofNat b.toNat) = [b] := by
  have hlt : b.toNat < 128 := UInt8.lt_iff_toNat_lt.mp h
  have hvalid : b.toNat.isValidChar := .inl (by omega)
  have hc : (Char.ofNat b.toNat).toNat = b.toNat := by
    rw [Char.ofNat, dif_pos hvalid]
    rfl
  rw [utf8EncodeChar_eq, hc, leadByte, tailLength, if_pos hlt, if_pos hlt, UInt8.ofNat_toNat]
  rfl

/-- Bytes that are read with nothing open, if those behind the first are read as they should. -/
theorem reads_start {b : UInt8} {bs : List UInt8} (hnone : Reads bs (decodeFrom [] none bs))
    (hsome : ∀ p, Opened [b] p → Reads ([b] ++ bs) (decodeFrom [] (some p) bs)) :
    Reads (b :: bs) ((start b).1 ++ decodeFrom [] (start b).2 bs) := by
  unfold start
  split
  · next hascii =>
    have hchar := Reads.char (Char.ofNat b.toNat) hnone
    rwa [utf8EncodeChar_ofNat hascii] at hchar
  · next hhigh =>
    split
    · next p hp => exact hsome p (.lead hp)
    · next hp =>
      exact .malformed (.stray (dead_of_ofLead?_eq_none (UInt8.not_lt.mp hhigh) hp)) hnone

/-- The reader makes of bytes what they stand for, in whatever state it is. -/
theorem reads_decodeFrom (bs : List UInt8) :
    Reads bs (decodeFrom [] none bs) ∧
      ∀ seg p, Opened seg p → Reads (seg ++ bs) (decodeFrom [] (some p) bs) := by
  induction bs with
  | nil =>
    refine ⟨.nil, fun seg p h => ?_⟩
    exact .malformed (h.malformed (by simp)) .nil
  | cons b bs ih =>
    have hstart : Reads (b :: bs) ((start b).1 ++ decodeFrom [] (start b).2 bs) :=
      reads_start ih.1 (ih.2 [b])
    refine ⟨?_, fun seg p h => ?_⟩
    · rw [decodeFrom_cons]
      exact hstart
    · rw [decodeFrom_cons, feed]
      split
      · next hrange =>
        dsimp only
        split
        · next hone =>
          have hchar := Reads.char (Char.ofNat (p.payload * 64 + b.toNat % 64)) ih.1
          rw [h.last hrange.1 hrange.2 hone, List.append_assoc] at hchar
          exact hchar
        · next hmany =>
          have hopen := ih.2 _ _ (h.next hrange.1 hrange.2 hmany)
          rw [List.append_assoc] at hopen
          exact hopen
      · next hrange =>
        refine .malformed (h.malformed fun b' hb' => ?_) hstart
        obtain rfl : b = b' := Option.some.inj hb'
        exact hrange

/-- The lossy reader keeps well-formed sequences, and replaces each malformed run by one
character. -/
theorem decodeLossy_eq_iff {bs : List UInt8} {cs : List Char} :
    decodeLossy bs = cs ↔ Reads bs cs := by
  have hreads : Reads bs (decodeLossy bs) := (reads_decodeFrom bs).1
  constructor
  · rintro rfl
    exact hreads
  · exact hreads.unique

end Ebpf.Text.Utf8
