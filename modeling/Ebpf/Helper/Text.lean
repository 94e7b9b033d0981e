/-
  A helper table as text: the number and name of each helper, in ascending
  order of the numbers.
-/
import Ebpf.Helper
import Ebpf.Text.Quoted

namespace Ebpf.HelperTable

/-- A number and a name as a pair. -/
def showEntry (id : UInt32) (name : String) : String :=
  "(" ++ Text.decimal id.toNat ++ ", " ++ Text.showQuoted name ++ ")"

/-- The text of a table. -/
def describe {σ : Type} (t : HelperTable σ) : String :=
  "HelperTable \x7b fns: " ++ Text.bracketed (t.entries.map fun e => showEntry e.1 e.2.name) ++
    " \x7d"

end Ebpf.HelperTable
