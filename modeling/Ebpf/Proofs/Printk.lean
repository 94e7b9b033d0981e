/-
  A print call on arbitrary stack data. The call takes a signed address and a length
  that nobody has checked, the text ends at the first zero or with the span, and its
  bytes may be malformed in every way. All the call looks at are the bytes of the
  text and the zero behind them (`textBytes_congr`), and what it returns is the
  length of the text as the lossy reader reads it (`tracePrintk_of_inBounds`).

  `tracePrintk_exact` puts together when the call fails, what it leaves alone and
  between which bounds its result lies.
-/
import Ebpf.Helper.Stock
import Ebpf.Proofs.ByteMap
import Ebpf.Proofs.Utf8

namespace Ebpf

/-! ## The bytes of a text -/

/-- What stands in front of the first element that fails a test depends on no element behind that
one. -/
theorem takeWhile_congr {α : Type} {keep : α → Bool} {l l' : List α}
    (h : ∀ k ≤ (l.takeWhile keep).length, l'[k]? = l[k]?) :
    l'.takeWhile keep = l.takeWhile keep := by
  induction l generalizing l' with
  | nil =>
    have hlen : l'.length ≤ 0 := List.getElem?_eq_none_iff.mp (h 0 (Nat.zero_le _))
    rw [List.length_eq_zero_iff.mp (Nat.le_zero.mp hlen)]
  | cons a l ih =>
    match l', h 0 (Nat.zero_le _) with
    | a' :: l', hhead =>
      obtain rfl : a' = a := Option.some.inj hhead
      rw [List.takeWhile_cons, List.takeWhile_cons]
      split
      · next hkeep =>
        congr 1
        refine ih fun k hk => h (k + 1) ?_
        rw [List.takeWhile_cons, if_pos hkeep]
        exact Nat.succ_le_succ hk
      · rfl

namespace Stack

/-- The bytes of a span before its first zero, or all of them if there is none. -/
def textBytes (s : Stack) (i len : Nat) : List UInt8 :=
  (s.bytes.extract i (i + len)).toList.takeWhile (· ≠ 0)

variable {s : Stack} {i len : Nat}

theorem length_textBytes_le (h : i + len ≤ s.size) : (s.textBytes i len).length ≤ len :=
  (List.takeWhile_prefix _).length_le.trans_eq (length_span h)

/-- A text depends on its own bytes and on the zero that ends it. -/
theorem textBytes_congr {t : Stack} (h : i + len ≤ s.size) (h' : i + len ≤ t.size)
    (hbytes : ∀ j, i ≤ j → j ≤ i + (s.textBytes i len).length → j < i + len →
      t.byte j = s.byte j) :
    t.textBytes i len = s.textBytes i len := by
  refine takeWhile_congr fun k hk => ?_
  by_cases hlt : k < len
  · rw [getElem?_span h' hlt, getElem?_span h hlt,
      hbytes _ (Nat.le_add_right i k) (Nat.add_le_add_left hk i) (Nat.add_lt_add_left hlt i)]
  · rw [List.getElem?_eq_none (by rw [length_span h']; omega),
      List.getElem?_eq_none (by rw [length_span h]; omega)]

end Stack

/-! ## The call -/

namespace Helper

open Text.Utf8 (Reads decodeLossy decodeLossy_eq_iff)

variable {a₀ a₁ a₂ a₃ a₄ : UInt64} {stack : Stack}

/-- The result comes from the first two arguments; the rest is logged only. -/
theorem result_tracePrintk :
    (tracePrintk #v[a₀, a₁, a₂, a₃, a₄] stack).1 =
      (stack.read a₀.toInt64 a₁.toNat).map fun bytes =>
        .ofNat (String.ofList (printedText bytes)).utf8ByteSize := by
  unfold tracePrintk
  split
  · next e h =>
    have hread : stack.read a₀.toInt64 a₁.toNat = .error e := h
    rw [hread]
    rfl
  · next bytes h =>
    have hread : stack.read a₀.toInt64 a₁.toNat = .ok bytes := h
    rw [hread]
    rfl

theorem tracePrintk_of_not_inBounds (h : ¬ InBounds a₀.toInt64 a₁.toNat stack.size) :
    (tracePrintk #v[a₀, a₁, a₂, a₃, a₄] stack).1 =
      .error (.memoryBounds .stack a₀.toInt64 a₁.toNat) := by
  rw [result_tracePrintk, Stack.read, if_neg h]
  rfl

theorem tracePrintk_of_inBounds (h : InBounds a₀.toInt64 a₁.toNat stack.size) :
    (tracePrintk #v[a₀, a₁, a₂, a₃, a₄] stack).1 = .ok (.ofNat (String.ofList
      (decodeLossy (stack.textBytes a₀.toInt64.toInt.toNat a₁.toNat))).utf8ByteSize) := by
  rw [result_tracePrintk, Stack.read, if_pos h]
  rfl

theorem exists_tracePrintk_error_iff :
    (∃ e, (tracePrintk #v[a₀, a₁, a₂, a₃, a₄] stack).1 = .error e) ↔
      ¬ InBounds a₀.toInt64 a₁.toNat stack.size := by
  constructor
  · rintro ⟨e, he⟩ h
    rw [tracePrintk_of_inBounds h] at he
    cases he
  · intro h
    exact ⟨_, tracePrintk_of_not_inBounds h⟩

/-- The bytes of the text, with the zero behind them, are all of the stack that matters. -/
theorem tracePrintk_congr {stack' : Stack} (h : InBounds a₀.toInt64 a₁.toNat stack.size)
    (h' : InBounds a₀.toInt64 a₁.toNat stack'.size)
    (hbytes : ∀ j : Nat, a₀.toInt64.toInt ≤ j →
      j ≤ a₀.toInt64.toInt + (stack.textBytes a₀.toInt64.toInt.toNat a₁.toNat).length →
      j < a₀.toInt64.toInt + a₁.toNat → stack'.byte j = stack.byte j) (b₂ b₃ b₄ : UInt64) :
    (tracePrintk #v[a₀, a₁, b₂, b₃, b₄] stack').1 =
      (tracePrintk #v[a₀, a₁, a₂, a₃, a₄] stack).1 := by
  have hlow := h.1
  have htext : stack'.textBytes a₀.toInt64.toInt.toNat a₁.toNat =
      stack.textBytes a₀.toInt64.toInt.toNat a₁.toNat :=
    Stack.textBytes_congr h.fits h'.fits fun j hfrom hto hlast =>
      hbytes j (by omega) (by omega) (by omega)
  rw [tracePrintk_of_inBounds h, tracePrintk_of_inBounds h', htext]

/-- The bounds of a text's length hold for the number that is returned. From above they do so even
if the length does not fit the number. -/
theorem toNat_size_bounds {p : List UInt8} {cs : List Char} (h : Reads p cs) :
    let n := UInt64.ofNat (String.ofList cs).utf8ByteSize
    ((String.ofList cs).utf8ByteSize < 2 ^ 64 → p.length ≤ n.toNat) ∧ n.toNat ≤ 3 * p.length := by
  have hsize := h.size_bounds
  dsimp only
  rw [UInt64.toNat_ofNat']
  omega

/-- A print call on any stack, with any arguments. It never changes the stack. It fails if and only
if its span does not lie inside the stack as a span of integers, and the fault then names the span.
Otherwise let `p` be the bytes of the span before the first zero. The call returns the length in
bytes of the text that `p` is read as: at least the number of bytes of `p` and at most three times
that, and just that number if `p` is valid. For the number returned, the lower bound is that of a
text whose length fits 64 bits, as it does in any memory with 64-bit addresses; the other bounds
need no such condition. No argument but the first two has a part in the result, and no byte of the
stack outside `p` and the zero that ends it. -/
theorem tracePrintk_exact (a₀ a₁ a₂ a₃ a₄ : UInt64) (stack : Stack) (calls : UInt64) :
    let addr := a₀.toInt64
    let len := a₁.toNat
    let result := (tracePrintk #v[a₀, a₁, a₂, a₃, a₄] stack).1
    let reply := Stock.tracePrintk.act calls #v[a₀, a₁, a₂, a₃, a₄] stack
    reply.stack = stack ∧ reply.result = result.mapError Fault.message ∧
    ((∃ e, result = .error e) ↔ ¬ (0 ≤ addr.toInt ∧ addr.toInt + len ≤ stack.size)) ∧
    (¬ (0 ≤ addr.toInt ∧ addr.toInt + len ≤ stack.size) →
      result = .error (.memoryBounds .stack addr len)) ∧
    (0 ≤ addr.toInt → addr.toInt + len ≤ stack.size →
      let p := stack.textBytes addr.toInt.toNat len
      ∃ text n, Reads p text ∧ result = .ok n ∧
        n = .ofNat (String.ofList text).utf8ByteSize ∧
        (p.length ≤ (String.ofList text).utf8ByteSize ∧
          (String.ofList text).utf8ByteSize ≤ 3 * p.length) ∧
        ((String.ofList text).utf8ByteSize < 2 ^ 64 → p.length ≤ n.toNat) ∧
        n.toNat ≤ 3 * p.length ∧
        (p.toByteArray.IsValidUTF8 → n.toNat = p.length) ∧
        ∀ (b₂ b₃ b₄ : UInt64) (stack' : Stack), addr.toInt + len ≤ stack'.size →
          (∀ j : Nat, addr.toInt ≤ j → j ≤ addr.toInt + p.length → j < addr.toInt + len →
            stack'.byte j = stack.byte j) →
          (tracePrintk #v[a₀, a₁, b₂, b₃, b₄] stack').1 = .ok n) := by
  intro addr len result reply
  refine ⟨rfl, rfl, exists_tracePrintk_error_iff, tracePrintk_of_not_inBounds, ?_⟩
  intro hlow hhigh p
  have hin : InBounds addr len stack.size := ⟨hlow, hhigh⟩
  have hreads : Reads p (decodeLossy p) := decodeLossy_eq_iff.mp rfl
  have hresult : result = .ok (.ofNat (String.ofList (decodeLossy p)).utf8ByteSize) :=
    tracePrintk_of_inBounds hin
  obtain ⟨hge, hle⟩ := toNat_size_bounds hreads
  refine ⟨_, _, hreads, hresult, rfl, hreads.size_bounds, hge, hle, ?_, ?_⟩
  · intro hvalid
    -- A text as long as its bytes is no longer than the span, whose length is a 64-bit number.
    have hlen : p.length ≤ len := Stack.length_textBytes_le hin.fits
    have hlt : len < 2 ^ 64 := a₁.toNat_lt
    rw [hreads.utf8ByteSize_of_valid hvalid, UInt64.toNat_ofNat', Nat.mod_eq_of_lt (by omega)]
  · intro b₂ b₃ b₄ stack' hhigh' hbytes
    rw [← hresult]
    exact tracePrintk_congr hin ⟨hlow, hhigh'⟩ hbytes b₂ b₃ b₄

/-- A text with a sequence that breaks off and a stray byte, a zero behind it, and then a valid
text. -/
def twoTexts : Stack := ⟨#[0x41, 0xe2, 0x82, 0x41, 0xff, 0x00, 0x68, 0xc3, 0xa9]⟩

/-- The second text is three bytes long, also when all bytes of the first are others. A span that
starts one byte later is out of bounds. -/
theorem tracePrintk_exact_twoTexts :
    (∃ n, (tracePrintk #v[0, 6, 1, 2, 3] twoTexts).1 = .ok n ∧ 5 ≤ n.toNat ∧ n.toNat ≤ 15) ∧
      (∃ n, (tracePrintk #v[6, 3, 1, 2, 3] twoTexts).1 = .ok n ∧ n.toNat = 3 ∧
        (tracePrintk #v[6, 3, 4, 5, 6] ⟨#[1, 2, 3, 4, 5, 6, 0x68, 0xc3, 0xa9]⟩).1 = .ok n) ∧
      (tracePrintk #v[7, 3, 1, 2, 3] twoTexts).1 = .error (.memoryBounds .stack 7 3) := by
  refine ⟨?_, ?_, ?_⟩
  · obtain ⟨-, -, -, -, hok⟩ := tracePrintk_exact 0 6 1 2 3 twoTexts 0
    obtain ⟨text, n, -, hn, -, hsize, hge, hle, -, -⟩ := hok (by decide) (by decide)
    have hshort : (String.ofList text).utf8ByteSize ≤ 15 := hsize.2
    exact ⟨n, hn, hge (by omega), hle⟩
  · obtain ⟨-, -, -, -, hok⟩ := tracePrintk_exact 6 3 1 2 3 twoTexts 0
    obtain ⟨text, n, -, hn, -, -, -, -, hvalid, hsame⟩ := hok (by decide) (by decide)
    refine ⟨n, hn, hvalid ⟨['h', 'é'], rfl⟩, ?_⟩
    refine hsame 4 5 6 _ (by decide) fun j hfrom _ hlast => ?_
    have hj : j = 6 ∨ j = 7 ∨ j = 8 := by
      have hfrom' : (6 : Int) ≤ j := hfrom
      have hlast' : (j : Int) < 9 := hlast
      omega
    rcases hj with rfl | rfl | rfl <;> rfl
  · obtain ⟨-, -, -, hfault, -⟩ := tracePrintk_exact 7 3 1 2 3 twoTexts 0
    exact hfault (by decide)

end Helper

end Ebpf
