/-
  Paths: names divided by slashes. Several slashes in a row count as one; a
  slash at the start makes a path absolute, and one at the end asks for a
  directory.
-/

namespace Ebpf.CommandLine

/-- A path taken apart. -/
structure Path where
  absolute : Bool
  /-- The names before the last, which lead to a directory. -/
  route : List String
  /-- The last name; the root has none. -/
  last : Option String
  /-- Whether a slash follows the last name. -/
  slashed : Bool

namespace Path

/-- The most bytes that a path can have. -/
def maxSize : Nat := 4095

/-- The most bytes that a name can have. -/
def maxNameSize : Nat := 255

/-- Takes a path apart. -/
def ofString (text : String) : Path :=
  let parts := text.splitOn "/"
  let names := parts.filter (· ≠ "")
  { absolute := parts.head? = some ""
    route := names.dropLast
    last := names.getLast?
    slashed := parts.getLast? = some "" }

end Path

end Ebpf.CommandLine
