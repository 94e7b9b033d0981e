/-
  Names in double quotes. Quotes and backslashes are escaped, as are tabs,
  line ends and NUL, each by a letter or digit; other characters that cannot
  be shown stand as their code point in braces.
-/
import Ebpf.Text.Numeral
import Ebpf.Text.Printable

namespace Ebpf.Text

/-- A character inside a quoted name. -/
def showChar (c : Char) : String :=
  if c = '\x00' then "\\0"
  else if c = '\t' then "\\t"
  else if c = '\n' then "\\n"
  else if c = '\r' then "\\r"
  else if c = '"' then "\\\""
  else if c = '\\' then "\\\\"
  else if isPrintable c then c.toString
  else "\\u\x7b" ++ hex c.toNat ++ "\x7d"

/-- A name in quotes. -/
def showQuoted (s : String) : String :=
  "\"" ++ String.join (s.toList.map showChar) ++ "\""

end Ebpf.Text
