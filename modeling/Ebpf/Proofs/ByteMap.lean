/-
  The stack as a map from indices to bytes. Writes put bytes into it, numbers and
  byte strings alike, at any signed address; one that does not fit is refused and
  leaves no byte behind. So each byte is what the last write that was not refused
  put there (`byte_afterWrites`), and a number is the sum of its bytes, each at its
  place (`toNat_number`).

  `bounded_byte_map` puts this together for a new stack of any size and any
  sequence of writes, with addresses compared as integers that do not wrap.
-/
import Ebpf.Proofs.Layout
import Ebpf.Stack

namespace Ebpf

/-- A span that fits, counted from its index. -/
theorem InBounds.fits {addr : Int64} {len size : Nat} (h : InBounds addr len size) :
    addr.toInt.toNat + len ≤ size := by
  have hlow := h.1
  have hhigh := h.2
  omega

namespace Stack

/-! ## Bytes and numbers -/

/-- The byte at an index, zero outside the stack. -/
def byte (s : Stack) (j : Nat) : UInt8 :=
  s.bytes[j]?.getD 0

/-- The number that the `len` bytes from an index on stand for. -/
def number (s : Stack) (o : ByteOrder) (i len : Nat) : UInt64 :=
  o.read (s.bytes.extract i (i + len)).toList

theorem load_of_inBounds {s : Stack} {addr : Int64} {len : Nat} (h : InBounds addr len s.size)
    (o : ByteOrder) : s.load o addr len = .ok (s.number o addr.toInt.toNat len) := by
  rw [load, read, if_pos h]
  rfl

theorem load_of_not_inBounds {s : Stack} {addr : Int64} {len : Nat}
    (h : ¬ InBounds addr len s.size) (o : ByteOrder) :
    s.load o addr len = .error (.memoryBounds .stack addr len) := by
  rw [load, read, if_neg h]
  rfl

theorem store_of_inBounds {s : Stack} {addr : Int64} {len : Nat} (h : InBounds addr len s.size)
    (o : ByteOrder) (v : UInt64) :
    s.store o addr len v = .ok (s.put o addr.toInt.toNat len v) := by
  rw [store, write, o.length_write, if_pos h]
  rfl

theorem getElem?_bytes {s : Stack} {j : Nat} (h : j < s.size) : s.bytes[j]? = some (s.byte j) := by
  have hin : j < s.bytes.size := h
  rw [byte, Array.getElem?_eq_getElem hin, Option.getD_some]

theorem getElem?_bytes_congr {s t : Stack} (hsize : t.size = s.size) {j : Nat}
    (h : t.byte j = s.byte j) : t.bytes[j]? = s.bytes[j]? := by
  by_cases hj : j < s.size
  · rw [getElem?_bytes hj, getElem?_bytes (by omega), h]
  · have hs : s.bytes.size ≤ j := Nat.not_lt.mp hj
    have ht : t.bytes.size ≤ j := hsize.trans_le hs
    rw [Array.getElem?_eq_none hs, Array.getElem?_eq_none ht]

theorem eq_of_byte_eq {s t : Stack} (hsize : t.size = s.size) (h : ∀ j, t.byte j = s.byte j) :
    t = s := by
  have hbytes : t.bytes = s.bytes :=
    Array.ext_getElem? fun j => getElem?_bytes_congr hsize (h j)
  cases s
  cases t
  exact congrArg Stack.mk hbytes

section Span

variable {s : Stack} {i len : Nat}

theorem length_span (h : i + len ≤ s.size) : (s.bytes.extract i (i + len)).toList.length = len := by
  have hsize : i + len ≤ s.bytes.size := h
  rw [Array.length_toList, Array.size_extract]
  omega

theorem getElem?_span (h : i + len ≤ s.size) {k : Nat} (hk : k < len) :
    (s.bytes.extract i (i + len)).toList[k]? = some (s.byte (i + k)) := by
  have hsize : i + len ≤ s.bytes.size := h
  rw [Array.getElem?_toList, Array.getElem?_extract, if_pos (by omega),
    getElem?_bytes (s := s) (by omega)]

theorem toNat_number (h : i + len ≤ s.size) (hlen : len ≤ 8) (o : ByteOrder) :
    (s.number o i len).toNat =
      ∑ k ∈ Finset.range len, (s.byte (i + k)).toNat * 256 ^ o.place len k := by
  have hspan := length_span h
  rw [number, o.toNat_read _ (by omega), hspan]
  refine Finset.sum_congr rfl fun k hk => ?_
  rw [List.getD_eq_getElem?_getD, getElem?_span h (Finset.mem_range.mp hk), Option.getD_some]

theorem toNat_number_add {len' : Nat} (h : i + len + len' ≤ s.size) (hlen : len + len' ≤ 8)
    (o : ByteOrder) :
    (s.number o i (len + len')).toNat =
      o.join len len' (s.number o i len).toNat (s.number o (i + len) len').toNat := by
  have hfirst : (s.bytes.extract i (i + len)).toList.length = len := length_span (by omega)
  have hsecond : (s.bytes.extract (i + len) (i + len + len')).toList.length = len' :=
    length_span (by omega)
  have happend : (s.bytes.extract i (i + (len + len'))).toList =
      (s.bytes.extract i (i + len)).toList ++
        (s.bytes.extract (i + len) (i + len + len')).toList := by
    rw [← Array.toList_append, Array.extract_append_extract, Nat.min_eq_left (by omega),
      Nat.max_eq_right (by omega), Nat.add_assoc]
  rw [number, happend, o.toNat_read_append _ _ (by omega), hfirst, hsecond]
  rfl

end Span

section Put

variable {s : Stack} {i : Nat}

theorem byte_overwrite {new : List UInt8} (h : i + new.length ≤ s.size) (j : Nat) :
    (Stack.mk (overwrite s.bytes i new)).byte j =
      if i ≤ j ∧ j < i + new.length then new.getD (j - i) 0 else s.byte j := by
  rw [byte, getElem?_overwrite _ _ _ h]
  split
  · exact (List.getD_eq_getElem?_getD).symm
  · rfl

variable {len : Nat}

theorem size_put (s : Stack) (o : ByteOrder) (i len : Nat) (v : UInt64) :
    (s.put o i len v).size = s.size :=
  size_overwrite _ _ _

theorem byte_put (h : i + len ≤ s.size) (o : ByteOrder) (v : UInt64) (j : Nat) :
    (s.put o i len v).byte j =
      if i ≤ j ∧ j < i + len then o.byteOf len v.toNat (j - i) else s.byte j := by
  rw [put, byte_overwrite (by rwa [o.length_write]), o.length_write]
  split
  · rw [List.getD_eq_getElem?_getD, o.getElem?_write v (by omega), Option.getD_some]
  · rfl

/-- A number that was put somewhere is there, modulo the room it had. -/
theorem toNat_number_put (h : i + len ≤ s.size) (hlen : len ≤ 8) (o : ByteOrder) (v : UInt64) :
    ((s.put o i len v).number o i len).toNat = v.toNat % 256 ^ len := by
  have h' : i + len ≤ (s.put o i len v).size := by rwa [size_put]
  have hspan : ((s.put o i len v).bytes.extract i (i + len)).toList = o.write v len := by
    apply List.ext_getElem?
    intro k
    by_cases hk : k < len
    · rw [getElem?_span h' hk, byte_put h, if_pos (by omega), o.getElem?_write v hk,
        Nat.add_sub_cancel_left]
    · rw [List.getElem?_eq_none (by rw [length_span h']; omega),
        List.getElem?_eq_none (by rw [o.length_write]; omega)]
  rw [number, hspan, o.toNat_read_write v hlen]

/-- A number depends on its own bytes only. -/
theorem number_congr {t : Stack} (h : i + len ≤ s.size) (hsize : t.size = s.size)
    (hbytes : ∀ j, i ≤ j → j < i + len → t.byte j = s.byte j) (o : ByteOrder) :
    t.number o i len = s.number o i len := by
  have h' : i + len ≤ t.size := by rwa [hsize]
  have hspan : (t.bytes.extract i (i + len)).toList = (s.bytes.extract i (i + len)).toList := by
    apply List.ext_getElem?
    intro k
    by_cases hk : k < len
    · rw [getElem?_span h' hk, getElem?_span h hk, hbytes _ (by omega) (by omega)]
    · rw [List.getElem?_eq_none (by rw [length_span h']; omega),
        List.getElem?_eq_none (by rw [length_span h]; omega)]
  rw [number, number, hspan]

end Put

/-! ## Loads -/

section Loads

variable {s : Stack} {addr : Int64} {len : Nat}

/-- A number that was stored is loaded again, modulo the room it had. -/
theorem exists_load_store (h : InBounds addr len s.size) (hlen : len ≤ 8) (o : ByteOrder)
    (v : UInt64) :
    ∃ t r, s.store o addr len v = .ok t ∧ t.load o addr len = .ok r ∧
      r.toNat = v.toNat % 256 ^ len := by
  have hafter : InBounds addr len (s.put o addr.toInt.toNat len v).size := by
    rwa [size_put]
  exact ⟨_, _, store_of_inBounds h o v, load_of_inBounds hafter o,
    toNat_number_put h.fits hlen o v⟩

/-- A load is put together from those of two parts of its span. -/
theorem exists_load_add {addr' : Int64} {len' : Nat} (h : InBounds addr (len + len') s.size)
    (hlen : len + len' ≤ 8) (haddr : addr'.toInt = addr.toInt + len) (o : ByteOrder) :
    ∃ v v' r, s.load o addr len = .ok v ∧ s.load o addr' len' = .ok v' ∧
      s.load o addr (len + len') = .ok r ∧ r.toNat = o.join len len' v.toNat v'.toNat := by
  have hlow := h.1
  have hhigh := h.2
  have hfirst : InBounds addr len s.size := ⟨hlow, by omega⟩
  have hsecond : InBounds addr' len' s.size := ⟨by omega, by omega⟩
  have hnext : addr'.toInt.toNat = addr.toInt.toNat + len := by omega
  refine ⟨_, _, _, load_of_inBounds hfirst o, load_of_inBounds hsecond o, load_of_inBounds h o, ?_⟩
  rw [hnext]
  exact toNat_number_add (by omega) hlen o

end Loads

/-! ## Writes -/

/-- A write to a stack: bytes as they are, or a number of at most eight bytes in either order. -/
inductive Write where
  | bytes (addr : Int64) (new : List UInt8)
  | number (o : ByteOrder) (addr : Int64) (len : Nat) (v : UInt64) (hlen : len ≤ 8)

namespace Write

/-- The address of a write. -/
def addr : Write → Int64
  | bytes addr _ => addr
  | number _ addr _ _ _ => addr

/-- The number of bytes of a write. -/
def len : Write → Nat
  | bytes _ new => new.length
  | number _ _ len _ _ => len

/-- What a write comes to on a stack. -/
def apply (s : Stack) : Write → Except Fault Stack
  | bytes addr new => s.write addr new
  | number o addr len v _ => s.store o addr len v

/-- The stack after a write. One that is refused leaves the stack as it was. -/
def after (s : Stack) (w : Write) : Stack :=
  match w.apply s with
  | .ok t => t
  | .error _ => s

/-- The byte that a write puts at an index of its span. -/
def byteAt (w : Write) (i : Nat) : UInt8 :=
  match w with
  | bytes _ new => new.getD i 0
  | number o _ len v _ => o.byteOf len v.toNat i

/-- A write that fits a stack of the given size and reaches an index of it. -/
def Covers (size j : Nat) (w : Write) : Prop :=
  InBounds w.addr w.len size ∧ w.addr.toInt ≤ j ∧ j < w.addr.toInt + w.len

instance (size j : Nat) (w : Write) : Decidable (w.Covers size j) :=
  inferInstanceAs (Decidable (_ ∧ _))

/-- All bytes of a write. -/
def data : Write → List UInt8
  | bytes _ new => new
  | number o _ len v _ => o.write v len

theorem length_data (w : Write) : w.data.length = w.len := by
  cases w with
  | bytes addr new => rfl
  | number o addr len v hlen => exact o.length_write v len

theorem getD_data {w : Write} {i : Nat} (h : i < w.len) : w.data.getD i 0 = w.byteAt i := by
  cases w with
  | bytes addr new => rfl
  | number o addr len v hlen =>
    have hi : i < len := h
    rw [List.getD_eq_getElem?_getD, data, o.getElem?_write v hi, Option.getD_some]
    rfl

theorem apply_eq (s : Stack) (w : Write) : w.apply s = s.write w.addr w.data := by
  cases w <;> rfl

theorem apply_of_inBounds {s : Stack} {w : Write} (h : InBounds w.addr w.len s.size) :
    w.apply s = .ok ⟨overwrite s.bytes w.addr.toInt.toNat w.data⟩ := by
  rw [apply_eq, write, length_data, if_pos h]

theorem apply_of_not_inBounds {s : Stack} {w : Write} (h : ¬ InBounds w.addr w.len s.size) :
    w.apply s = .error (.memoryBounds .stack w.addr w.len) := by
  rw [apply_eq, write, length_data, if_neg h]

theorem exists_apply_iff (s : Stack) (w : Write) :
    (∃ t, w.apply s = .ok t) ↔ InBounds w.addr w.len s.size := by
  constructor
  · rintro ⟨t, ht⟩
    by_contra hnot
    rw [apply_of_not_inBounds hnot] at ht
    cases ht
  · intro h
    exact ⟨_, apply_of_inBounds h⟩

theorem size_after (s : Stack) (w : Write) : (w.after s).size = s.size := by
  unfold after
  split
  · next t ht =>
    rw [apply_eq] at ht
    exact size_write ht
  · rfl

/-- What a write changes: the bytes that it covers, if it is not refused. -/
theorem byte_after (s : Stack) (w : Write) (j : Nat) :
    (w.after s).byte j =
      if w.Covers s.size j then w.byteAt (j - w.addr.toInt.toNat) else s.byte j := by
  by_cases h : InBounds w.addr w.len s.size
  · have hlow := h.1
    have hroom : w.addr.toInt.toNat + w.data.length ≤ s.size := by
      rw [length_data]
      exact h.fits
    have hcovers : w.Covers s.size j ↔
        w.addr.toInt.toNat ≤ j ∧ j < w.addr.toInt.toNat + w.len := by
      unfold Covers
      rw [and_iff_right h]
      omega
    rw [after, apply_of_inBounds h]
    dsimp only
    rw [byte_overwrite hroom, length_data]
    simp only [hcovers]
    split
    · rw [getD_data (by omega)]
    · rfl
  · rw [after, apply_of_not_inBounds h, if_neg (fun hc => h hc.1)]

end Write

/-- The stack after writes, one after the other. -/
def afterWrites (s : Stack) (ws : List Write) : Stack :=
  ws.foldl Write.after s

/-- The byte that writes to a new stack leave at an index: what the last of them that fits and
reaches the index put there, or zero if there is none. -/
def lastByte (size : Nat) (ws : List Write) (j : Nat) : UInt8 :=
  match ws.reverse.find? fun w => w.Covers size j with
  | some w => w.byteAt (j - w.addr.toInt.toNat)
  | none => 0

theorem afterWrites_concat (s : Stack) (ws : List Write) (w : Write) :
    s.afterWrites (ws ++ [w]) = w.after (s.afterWrites ws) :=
  List.foldl_append

theorem lastByte_concat (size : Nat) (ws : List Write) (w : Write) (j : Nat) :
    lastByte size (ws ++ [w]) j =
      if w.Covers size j then w.byteAt (j - w.addr.toInt.toNat) else lastByte size ws j := by
  unfold lastByte
  rw [List.reverse_append, List.reverse_singleton, List.singleton_append, List.find?_cons]
  by_cases h : w.Covers size j
  · simp only [h, decide_true, if_true]
  · simp only [h, decide_false, if_false]

theorem size_afterWrites (size : Nat) (ws : List Write) :
    ((zeros size).afterWrites ws).size = size := by
  induction ws using List.reverseRecOn with
  | nil => exact Array.size_replicate
  | append_singleton ws w ih => rw [afterWrites_concat, Write.size_after, ih]

theorem byte_afterWrites (size : Nat) (ws : List Write) (j : Nat) :
    ((zeros size).afterWrites ws).byte j = lastByte size ws j := by
  induction ws using List.reverseRecOn with
  | nil =>
    show (Array.replicate size (0 : UInt8))[j]?.getD 0 = 0
    rw [Array.getElem?_replicate]
    split <;> rfl
  | append_singleton ws w ih =>
    rw [afterWrites_concat, Write.byte_after, size_afterWrites, lastByte_concat, ih]

/-! ## Main statement -/

/-- A stack is a bounded map from indices to bytes. Take a new stack of any size after any writes,
in either byte order and at any addresses. It has the size it had, and each byte is the one that the
last write covering it left, or zero. One more write succeeds if and only if its span lies inside the
stack as a span of integers; otherwise the fault names address and length, and nothing changes. A load
succeeds under the same condition, and gives the sum of its bytes, each at the place that the byte
order gives it. So a load gives back what was stored in its span, modulo the room there, and it is
put together from the loads of two parts of its span. -/
theorem bounded_byte_map (size : Nat) (ws : List Write) :
    let s := (zeros size).afterWrites ws
    s.size = size ∧
    (∀ j < size, s.bytes[j]? = some (lastByte size ws j)) ∧
    (∀ w : Write,
      ((∃ t, w.apply s = .ok t) ↔ 0 ≤ w.addr.toInt ∧ w.addr.toInt + w.len ≤ size) ∧
      (¬ (0 ≤ w.addr.toInt ∧ w.addr.toInt + w.len ≤ size) →
        w.apply s = .error (.memoryBounds .stack w.addr w.len) ∧ w.after s = s)) ∧
    (∀ (o : ByteOrder) (addr : Int64) (len : Nat), len ≤ 8 →
      if 0 ≤ addr.toInt ∧ addr.toInt + len ≤ size then
        ∃ v, s.load o addr len = .ok v ∧
          v.toNat =
            ∑ k ∈ Finset.range len, (s.byte (addr.toInt.toNat + k)).toNat * 256 ^ o.place len k
      else s.load o addr len = .error (.memoryBounds .stack addr len)) ∧
    (∀ (o : ByteOrder) (addr : Int64) (len : Nat) (v : UInt64), len ≤ 8 →
      0 ≤ addr.toInt → addr.toInt + len ≤ size →
      ∃ t r, s.store o addr len v = .ok t ∧ t.load o addr len = .ok r ∧
        r.toNat = v.toNat % 256 ^ len) ∧
    ∀ (o : ByteOrder) (addr addr' : Int64) (len len' : Nat), len + len' ≤ 8 →
      0 ≤ addr.toInt → addr.toInt + (len + len' : Nat) ≤ size → addr'.toInt = addr.toInt + len →
      ∃ v v' r, s.load o addr len = .ok v ∧ s.load o addr' len' = .ok v' ∧
        s.load o addr (len + len') = .ok r ∧ r.toNat = o.join len len' v.toNat v'.toNat := by
  intro s
  have hsize : s.size = size := size_afterWrites size ws
  refine ⟨hsize, ?_, ?_, ?_, ?_, ?_⟩
  · intro j hj
    rw [getElem?_bytes (by omega), byte_afterWrites]
  · intro w
    rw [← hsize]
    refine ⟨w.exists_apply_iff s, fun hnot => ?_⟩
    have hfault := Write.apply_of_not_inBounds (s := s) (w := w) hnot
    refine ⟨hfault, ?_⟩
    rw [Write.after, hfault]
  · intro o addr len hlen
    rw [← hsize]
    split
    · next hb => exact ⟨_, load_of_inBounds hb o, toNat_number (InBounds.fits hb) hlen o⟩
    · next hb => exact load_of_not_inBounds hb o
  · intro o addr len v hlen hlow hhigh
    rw [← hsize] at hhigh
    exact exists_load_store ⟨hlow, hhigh⟩ hlen o v
  · intro o addr addr' len len' hlen hlow hhigh haddr
    rw [← hsize] at hhigh
    exact exists_load_add ⟨hlow, hhigh⟩ hlen haddr o

/-- A number in each order, the second over half of the first, and then two writes that do not fit. -/
def overlapping : List Write :=
  [.number .big 0 4 0x11223344 (by decide), .number .little 2 4 0xaabbccdd (by decide),
    .bytes (-1) [0xff, 0xff], .bytes 7 [0xff, 0xff]]

/-- The stack then holds `11 22 dd cc bb aa 00 00`; a load of its bytes one to three crosses from the
first number into the second. -/
theorem bounded_byte_map_overlapping :
    let s := (zeros 8).afterWrites overlapping
    s.load .big 1 3 = .ok 0x22ddcc ∧
      s.load .little 6 4 = .error (.memoryBounds .stack 6 4) ∧
      ∃ t r, s.store .big 6 2 0x12345678 = .ok t ∧ t.load .big 6 2 = .ok r ∧ r.toNat = 0x5678 := by
  intro s
  obtain ⟨-, -, -, hload, hstored, -⟩ := bounded_byte_map 8 overlapping
  refine ⟨?_, hload .little 6 4 (by decide), ?_⟩
  · obtain ⟨v, hv, hsum⟩ := hload .big 1 3 (by decide)
    have hvalue : v = 0x22ddcc := UInt64.toNat_inj.mp (hsum.trans rfl)
    rw [hv, hvalue]
  · exact hstored .big 6 2 0x12345678 (by decide) (by decide) (by decide)

end Stack

end Ebpf
