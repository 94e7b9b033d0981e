/-
  Numbers as text: decimal, decimal with an explicit sign, hexadecimal in
  lower case, and zero-padded forms of both.
-/

namespace Ebpf.Text

/-- Decimal digits of a natural number, without leading zeros. -/
def decimal (n : Nat) : String :=
  String.ofList (Nat.toDigits 10 n)

/-- Decimal text of an integer; only negative numbers carry a sign. -/
def integer (i : Int) : String :=
  if i < 0 then "-" ++ decimal i.natAbs else decimal i.natAbs

/-- Decimal text of an integer that always carries a sign; zero is `+0`. -/
def signed (i : Int) : String :=
  if i < 0 then "-" ++ decimal i.natAbs else "+" ++ decimal i.natAbs

/-- Lower-case hexadecimal digits, without leading zeros. -/
def hex (n : Nat) : String :=
  String.ofList (Nat.toDigits 16 n)

/-- Hexadecimal text marked by a leading `0x`. -/
def hex0x (n : Nat) : String :=
  "0x" ++ hex n

/-- Fills a list of digits up to `width` with zeros on the left. -/
def zeroFill (width : Nat) (digits : List Char) : String :=
  String.ofList (List.replicate (width - digits.length) '0' ++ digits)

/-- Decimal text of at least four digits, as program counters are listed. -/
def decimal4 (n : Nat) : String :=
  zeroFill 4 (Nat.toDigits 10 n)

/-- The two hexadecimal digits of a byte. -/
def hexByte (b : UInt8) : String :=
  zeroFill 2 (Nat.toDigits 16 b.toNat)

/-- The two-digit bytes of a byte string, with `gap` between them. -/
def hexBytes (gap : String) (bytes : List UInt8) : String :=
  gap.intercalate (bytes.map hexByte)

/-- A bracketed list of items, with a comma and a space between them. -/
def bracketed (items : List String) : String :=
  "[" ++ ", ".intercalate items ++ "]"

end Ebpf.Text
