/-
  The stack: a fixed number of bytes, addressed from zero. Every access names
  a signed address and a length and is checked against the stack's size in
  exact arithmetic; an access of length zero may also lie at the very top.

  `getElem?_overwrite` says what a write does to each byte; the other
  operations are built on it.
-/
import Ebpf.ByteOrder
import Ebpf.Fault

namespace Ebpf

/-- A span of `len` bytes at a signed address lies inside a region of `size` bytes. -/
def InBounds (addr : Int64) (len size : Nat) : Prop :=
  0 ≤ addr.toInt ∧ addr.toInt + len ≤ size

instance (addr : Int64) (len size : Nat) : Decidable (InBounds addr len size) :=
  inferInstanceAs (Decidable (_ ∧ _))

/-- The bytes of the stack, lowest address first. -/
structure Stack where
  bytes : Array UInt8
deriving DecidableEq

namespace Stack

/-- The size of a stack when none is asked for. -/
def defaultSize : UInt64 := 512

/-- A stack of zero bytes. -/
def zeros (size : Nat) : Stack := ⟨Array.replicate size 0⟩

/-- The number of bytes. -/
def size (s : Stack) : Nat := s.bytes.size

/-- Replaces the bytes from index `i` on, one by one. -/
def overwrite (bytes : Array UInt8) (i : Nat) : List UInt8 → Array UInt8
  | [] => bytes
  | b :: bs => overwrite (bytes.setIfInBounds i b) (i + 1) bs

/-- The bytes of a span. -/
def read (s : Stack) (addr : Int64) (len : Nat) : Except Fault (List UInt8) :=
  if InBounds addr len s.size then
    .ok (s.bytes.extract addr.toInt.toNat (addr.toInt.toNat + len)).toList
  else .error (.memoryBounds .stack addr len)

/-- Replaces the bytes of a span. -/
def write (s : Stack) (addr : Int64) (new : List UInt8) : Except Fault Stack :=
  if InBounds addr new.length s.size then .ok ⟨overwrite s.bytes addr.toInt.toNat new⟩
  else .error (.memoryBounds .stack addr new.length)

/-- The unsigned number held by a span. -/
def load (s : Stack) (o : ByteOrder) (addr : Int64) (len : Nat) : Except Fault UInt64 :=
  (s.read addr len).map o.read

/-- Puts the low `len` bytes of a number at an index. -/
def put (s : Stack) (o : ByteOrder) (i len : Nat) (v : UInt64) : Stack :=
  ⟨overwrite s.bytes i (o.write v len)⟩

/-- Puts the low `len` bytes of a number into a span. -/
def store (s : Stack) (o : ByteOrder) (addr : Int64) (len : Nat) (v : UInt64) :
    Except Fault Stack :=
  s.write addr (o.write v len)

/-! ## The byte view of a write -/

@[simp] theorem size_overwrite (bytes : Array UInt8) (i : Nat) (new : List UInt8) :
    (overwrite bytes i new).size = bytes.size := by
  induction new generalizing bytes i with
  | nil => rfl
  | cons b bs ih => simp [overwrite, ih]

theorem getElem?_overwrite (bytes : Array UInt8) (i : Nat) (new : List UInt8)
    (h : i + new.length ≤ bytes.size) (j : Nat) :
    (overwrite bytes i new)[j]? =
      if i ≤ j ∧ j < i + new.length then new[j - i]? else bytes[j]? := by
  induction new generalizing bytes i with
  | nil =>
    rw [if_neg (by simp)]
    rfl
  | cons b bs ih =>
    simp only [List.length_cons] at h
    rw [overwrite, ih _ _ (by simp; omega), Array.getElem?_setIfInBounds]
    simp only [List.length_cons]
    by_cases hj : i = j
    · subst hj
      rw [if_neg (by omega), if_pos rfl, if_pos (by omega), if_pos (by omega)]
      simp
    · by_cases hin : i + 1 ≤ j ∧ j < i + 1 + bs.length
      · rw [if_pos hin, if_pos (by omega)]
        have hs : j - i = (j - (i + 1)) + 1 := by omega
        rw [hs, List.getElem?_cons_succ]
      · rw [if_neg hin, if_neg hj, if_neg (by omega)]

theorem size_write {s t : Stack} {addr : Int64} {new : List UInt8} (h : s.write addr new = .ok t) :
    t.size = s.size := by
  unfold write at h
  split at h
  · cases h
    exact size_overwrite _ _ _
  · cases h

end Stack

end Ebpf
