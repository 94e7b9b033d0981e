/-
  Reading JSON text: characters to tokens, then tokens to a value.

  Both passes look at their input once, from left to right. The first keeps
  the token it is inside of, the second the arrays and objects it is inside
  of, so that no nesting is too deep.
-/
import Ebpf.Json

namespace Ebpf.Json

/-! ## Numbers and words -/

/-- A non-empty run of digits without a needless zero in front. -/
def isPlain : List Char → Bool
  | [] => false
  | [c] => c.isDigit
  | c :: cs => c.isDigit && c ≠ '0' && cs.all Char.isDigit

/-- A non-empty run of digits. -/
def isDigits (cs : List Char) : Bool :=
  !cs.isEmpty && cs.all Char.isDigit

/-- The end of a number: nothing, or a power of ten. -/
def isExponent : List Char → Bool
  | [] => true
  | 'e' :: '+' :: cs | 'e' :: '-' :: cs | 'E' :: '+' :: cs | 'E' :: '-' :: cs => isDigits cs
  | 'e' :: cs | 'E' :: cs => isDigits cs
  | _ => false

/-- What may follow the whole part of a number. -/
def isFraction : List Char → Bool
  | '.' :: cs =>
    isDigits (cs.takeWhile Char.isDigit) && isExponent (cs.dropWhile Char.isDigit)
  | cs => isExponent cs

/-- A JSON number without its sign. -/
def isUnsigned (cs : List Char) : Bool :=
  isPlain (cs.takeWhile Char.isDigit) && isFraction (cs.dropWhile Char.isDigit)

/-- A JSON number. -/
def isNumeral : List Char → Bool
  | '-' :: cs => isUnsigned cs
  | cs => isUnsigned cs

/-- The number that a run of digits stands for. -/
def digitsValue (cs : List Char) : Nat :=
  cs.foldl (fun n c => 10 * n + (c.toNat - '0'.toNat)) 0

/-- The token that a run of letters, digits, signs and points forms. -/
def Token.ofBare? (cs : List Char) : Option Token :=
  if isPlain cs then some (.nat (digitsValue cs))
  else if cs = ['n', 'u', 'l', 'l'] then some .null
  else if cs = ['t', 'r', 'u', 'e'] then some (.bool true)
  else if cs = ['f', 'a', 'l', 's', 'e'] then some (.bool false)
  else if isNumeral cs then some .numeral
  else none

/-! ## Quoted texts -/

/-- The first half of a surrogate pair. -/
def isHighSurrogate (n : Nat) : Bool := 0xd800 ≤ n && n < 0xdc00

/-- The second half of a surrogate pair. -/
def isLowSurrogate (n : Nat) : Bool := 0xdc00 ≤ n && n < 0xe000

/-- The text of a sequence of code points in which a surrogate pair stands for
one character; none if half a pair stands alone. -/
def textOf? : List Nat → Option (List Char)
  | [] => some []
  | h :: l :: rest =>
    if isHighSurrogate h then
      if isLowSurrogate l then
        (textOf? rest).map (Char.ofNat (0x10000 + (h - 0xd800) * 0x400 + (l - 0xdc00)) :: ·)
      else none
    else if isLowSurrogate h then none
    else (textOf? (l :: rest)).map (Char.ofNat h :: ·)
  | [c] => if isHighSurrogate c || isLowSurrogate c then none else some [Char.ofNat c]

/-- The character that a letter stands for after a backslash. -/
def unescape? : Char → Option Nat
  | '"' => some 0x22
  | '\\' => some 0x5c
  | '/' => some 0x2f
  | 'b' => some 0x08
  | 'f' => some 0x0c
  | 'n' => some 0x0a
  | 'r' => some 0x0d
  | 't' => some 0x09
  | _ => none

/-- The value of a hexadecimal digit, in either case. -/
def hexDigit? (c : Char) : Option Nat :=
  if c.isDigit then some (c.toNat - '0'.toNat)
  else if 'a' ≤ c ∧ c ≤ 'f' then some (c.toNat - 'a'.toNat + 10)
  else if 'A' ≤ c ∧ c ≤ 'F' then some (c.toNat - 'A'.toNat + 10)
  else none

/-! ## Characters to tokens -/

/-- The token that the reader is inside of; what was read of it stands last first. -/
inductive Scan where
  /-- Between tokens. -/
  | gap
  /-- In a number or a word. -/
  | bare (rev : List Char)
  /-- In a quoted text. -/
  | quoted (rev : List Nat)
  /-- After a backslash in a quoted text. -/
  | escaped (rev : List Nat)
  /-- In an escape by number, with `left` digits to come. -/
  | numbered (rev : List Nat) (left value : Nat)

/-- Characters of numbers and words. -/
def isBare (c : Char) : Bool :=
  c.isAlphanum || c = '-' || c = '+' || c = '.'

/-- Reads a character between tokens. -/
def scanGap : Char → Option (List Token × Scan)
  | ' ' | '\t' | '\n' | '\r' => some ([], .gap)
  | '[' => some ([.openArr], .gap)
  | ']' => some ([.closeArr], .gap)
  | '\x7b' => some ([.openObj], .gap)
  | '\x7d' => some ([.closeObj], .gap)
  | ',' => some ([.comma], .gap)
  | ':' => some ([.colon], .gap)
  | '"' => some ([], .quoted [])
  | c => if isBare c then some ([], .bare [c]) else none

/-- Reads a character: the tokens it completes, last first, and where it leaves the reader. -/
def scan : Scan → Char → Option (List Token × Scan)
  | .gap, c => scanGap c
  | .bare rev, c =>
    if isBare c then some ([], .bare (c :: rev))
    else
      match Token.ofBare? rev.reverse, scanGap c with
      | some t, some (ts, next) => some (ts ++ [t], next)
      | _, _ => none
  | .quoted rev, c =>
    if c = '"' then some ([.str ((textOf? rev.reverse).map String.ofList)], .gap)
    else if c = '\\' then some ([], .escaped rev)
    else if c.toNat < 0x20 then none
    else some ([], .quoted (c.toNat :: rev))
  | .escaped rev, c =>
    if c = 'u' then some ([], .numbered rev 4 0)
    else (unescape? c).map fun n => ([], .quoted (n :: rev))
  | .numbered rev left value, c =>
    (hexDigit? c).map fun d =>
      if left ≤ 1 then ([], .quoted ((16 * value + d) :: rev))
      else ([], .numbered rev (left - 1) (16 * value + d))

/-- Reads the remaining characters; `done` holds the tokens so far, last first. -/
def scanFrom (done : List Token) : Scan → List Char → Option (List Token)
  | .gap, [] => some done.reverse
  | .bare rev, [] => (Token.ofBare? rev.reverse).map fun t => (t :: done).reverse
  | _, [] => none
  | state, c :: cs =>
    match scan state c with
    | none => none
    | some (ts, next) => scanFrom (ts ++ done) next cs

/-- The tokens of a text. -/
def tokenize? (cs : List Char) : Option (List Token) :=
  scanFrom [] .gap cs

/-! ## Tokens to a value -/

/-- An array or object that has been opened and not yet closed, with what it
holds so far, last first, and the key that waits for its value. -/
inductive Frame where
  | arr (items : List Json)
  | obj (fields : List (Option String × Json)) (key : Option String)

/-- An object with its fields last first; unsupported if one of its keys is. -/
def closeObject (fields : List (Option String × Json)) : Json :=
  match fields.reverse.mapM fun f => f.1.map fun k => (k, f.2) with
  | some fs => .obj fs
  | none => .unsupported

/-- The value of a token that is a value by itself. -/
def Token.value? : Token → Option Json
  | .null => some .null
  | .bool b => some (.bool b)
  | .nat n => some (.nat n)
  | .numeral => some .unsupported
  | .str (some s) => some (.str s)
  | .str none => some .unsupported
  | _ => none

/-- Reads the remaining tokens. `pending` is the value just completed, if the
last token completed one; `frames` are the open arrays and objects, innermost first. -/
def readFrom : Option Json → List Frame → List Token → Option Json
  | some v, [], [] => some v
  | none, frames, .openArr :: .closeArr :: ts => readFrom (some (.arr [])) frames ts
  | none, frames, .openArr :: ts => readFrom none (.arr [] :: frames) ts
  | none, frames, .openObj :: .closeObj :: ts => readFrom (some (.obj [])) frames ts
  | none, frames, .openObj :: .str k :: .colon :: ts => readFrom none (.obj [] k :: frames) ts
  | none, frames, t :: ts =>
    match t.value? with
    | some v => readFrom (some v) frames ts
    | none => none
  | some v, .arr items :: frames, .comma :: ts => readFrom none (.arr (v :: items) :: frames) ts
  | some v, .arr items :: frames, .closeArr :: ts =>
    readFrom (some (.arr (v :: items).reverse)) frames ts
  | some v, .obj fields key :: frames, .comma :: .str k :: .colon :: ts =>
    readFrom none (.obj ((key, v) :: fields) k :: frames) ts
  | some v, .obj fields key :: frames, .closeObj :: ts =>
    readFrom (some (closeObject ((key, v) :: fields))) frames ts
  | _, _, _ => none

/-- The value of a text, if it holds one and nothing else. -/
def parse? (text : String) : Option Json :=
  (tokenize? text.toList).bind (readFrom none [])

end Ebpf.Json
