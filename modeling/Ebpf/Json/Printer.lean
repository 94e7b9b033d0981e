/-
  JSON text: the compact form, which has no white space, and the indented
  form, which puts every item and field on a line of its own.
-/
import Ebpf.Json
import Ebpf.Text.Numeral

namespace Ebpf.Json

/-! ## Tokens as text -/

/-- A character inside a quoted text. Quotes, backslashes and control
characters are escaped, by a letter where there is one. -/
def escape (c : Char) : List Char :=
  if c = '"' then ['\\', '"']
  else if c = '\\' then ['\\', '\\']
  else if c = '\x08' then ['\\', 'b']
  else if c = '\x0c' then ['\\', 'f']
  else if c = '\n' then ['\\', 'n']
  else if c = '\r' then ['\\', 'r']
  else if c = '\t' then ['\\', 't']
  else if c.toNat < 0x20 then
    ['\\', 'u', '0', '0', Nat.digitChar (c.toNat / 16), Nat.digitChar (c.toNat % 16)]
  else [c]

/-- A text in quotes. -/
def quote (s : String) : String :=
  String.ofList ('"' :: (s.toList.flatMap escape ++ ['"']))

/-- The text of a token; numbers and texts that are not kept stand as null. -/
def Token.text : Token → String
  | openArr => "["
  | closeArr => "]"
  | openObj => "\x7b"
  | closeObj => "\x7d"
  | comma => ","
  | colon => ":"
  | null => "null"
  | bool true => "true"
  | bool false => "false"
  | nat n => Text.decimal n
  | numeral => "null"
  | str (some s) => quote s
  | str none => "null"

/-! ## Layouts -/

/-- The compact text of a value. -/
def compact (v : Json) : String :=
  v.tokens.foldl (fun text t => text ++ t.text) ""

/-- A line end and the indentation of a depth. -/
def newline (depth : Nat) : String :=
  String.ofList ('\n' :: List.replicate (2 * depth) ' ')

/-- Lays out the remaining tokens after `text`; empty brackets stay together. -/
def layout (text : String) (depth : Nat) : List Token → String
  | [] => text
  | .openArr :: .closeArr :: ts => layout (text ++ "[]") depth ts
  | .openObj :: .closeObj :: ts => layout (text ++ "\x7b\x7d") depth ts
  | .openArr :: ts => layout (text ++ "[" ++ newline (depth + 1)) (depth + 1) ts
  | .openObj :: ts => layout (text ++ "\x7b" ++ newline (depth + 1)) (depth + 1) ts
  | .closeArr :: ts => layout (text ++ newline (depth - 1) ++ "]") (depth - 1) ts
  | .closeObj :: ts => layout (text ++ newline (depth - 1) ++ "\x7d") (depth - 1) ts
  | .comma :: ts => layout (text ++ "," ++ newline depth) depth ts
  | .colon :: ts => layout (text ++ ": ") depth ts
  | t :: ts => layout (text ++ t.text) depth ts

/-- The indented text of a value. -/
def pretty (v : Json) : String :=
  layout "" 0 v.tokens

end Ebpf.Json
