/-
  JSON values and their tokens.

  Values hold what this library writes: natural numbers, texts, arrays and
  objects with their fields in order. Reading also meets well-formed values
  that have no place here, such as fractions; they become `unsupported`.
-/

namespace Ebpf

/-- A JSON value. -/
inductive Json where
  | null
  | bool (b : Bool)
  | nat (n : Nat)
  | str (text : String)
  | arr (items : List Json)
  | obj (fields : List (String × Json))
  /-- A well-formed value that is none of the above: a number that is not a
  plain natural number, or a text or key that holds half of a surrogate pair. -/
  | unsupported

namespace Json

/-- The pieces that a JSON text is made of, white space apart. -/
inductive Token where
  | openArr
  | closeArr
  | openObj
  | closeObj
  | comma
  | colon
  | null
  | bool (b : Bool)
  | nat (n : Nat)
  /-- A number that is not a plain natural number. -/
  | numeral
  /-- A quoted text; none if it holds half of a surrogate pair. -/
  | str (text : Option String)
deriving DecidableEq

mutual

/-- Puts the tokens of a value, last first, in front of `rev`. -/
def pushTokens (rev : List Token) : Json → List Token
  | null => .null :: rev
  | bool b => .bool b :: rev
  | nat n => .nat n :: rev
  | str s => .str (some s) :: rev
  | arr [] => .closeArr :: .openArr :: rev
  | arr (v :: vs) => .closeArr :: pushItems (pushTokens (.openArr :: rev) v) vs
  | obj [] => .closeObj :: .openObj :: rev
  | obj ((k, v) :: fs) =>
    .closeObj :: pushFields (pushTokens (.colon :: .str (some k) :: .openObj :: rev) v) fs
  | unsupported => .null :: rev

/-- Puts the tokens of the items after the first in front of `rev`. -/
def pushItems (rev : List Token) : List Json → List Token
  | [] => rev
  | v :: vs => pushItems (pushTokens (.comma :: rev) v) vs

/-- Puts the tokens of the fields after the first in front of `rev`. -/
def pushFields (rev : List Token) : List (String × Json) → List Token
  | [] => rev
  | (k, v) :: fs => pushFields (pushTokens (.colon :: .str (some k) :: .comma :: rev) v) fs

end

/-- The tokens of a value. An unsupported value stands as null. -/
def tokens (v : Json) : List Token :=
  (pushTokens [] v).reverse

end Json

end Ebpf
