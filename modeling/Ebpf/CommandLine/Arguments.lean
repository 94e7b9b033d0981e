/-
  Arguments: options, operands and a command word.

  An option is written `--name`, with its value in the next argument or after
  an equals sign; counted options also have a letter, and letters can be run
  together. A lone `--` ends the options. Where command words are known, the
  first argument that is one ends the arguments before it.
-/

namespace Ebpf.CommandLine

/-- What may be written after an option, and how often it may be given. -/
inductive Arity where
  /-- No value, once. -/
  | flag
  /-- No value, any number of times, also by its letter. -/
  | counted (letter : Char)
  /-- A value, once. -/
  | value
deriving DecidableEq

/-- The options of a command, by name. -/
abbrev Options := List (String × Arity)

/-- The arguments of a command, sorted. -/
structure Arguments where
  flags : List String := []
  values : List (String × String) := []
  operands : List String := []

/-- A command word and the arguments after it. -/
structure Command where
  word : String
  args : List String

namespace Arguments

/-- The value of an option, if it was given. -/
def value? (a : Arguments) (name : String) : Option String :=
  a.values.lookup name

/-- Whether an option was given at all. -/
def given (a : Arguments) (name : String) : Bool :=
  a.flags.contains name || (a.value? name).isSome

/-- How often an option without a value was given. -/
def count (a : Arguments) (name : String) : Nat :=
  a.flags.count name

/-- Adds an option without a value; a second time only if it is counted. -/
def addFlag? (a : Arguments) (name : String) : Arity → Option Arguments
  | .counted _ => some { a with flags := name :: a.flags }
  | _ => if a.given name then none else some { a with flags := name :: a.flags }

/-- Adds an option with its value, unless it was given before. -/
def addValue? (a : Arguments) (name value : String) : Option Arguments :=
  if a.given name then none else some { a with values := (name, value) :: a.values }

/-- Adds a run of option letters. -/
def addLetters? (options : Options) (a : Arguments) : List Char → Option Arguments
  | [] => some a
  | c :: cs =>
    match options.find? fun o => o.2 = .counted c with
    | none => none
    | some (name, arity) => (a.addFlag? name arity).bind fun a => addLetters? options a cs

/-- Whether an argument has the form of an option; a lone hyphen has not. -/
def looksLikeOption : List Char → Bool
  | ['-'] => false
  | '-' :: _ => true
  | _ => false

/-- Splits a text at the first equals sign. -/
def splitAtEquals (cs : List Char) : String × Option String :=
  match cs.dropWhile (· ≠ '=') with
  | _ :: value => (String.ofList (cs.takeWhile (· ≠ '=')), some (String.ofList value))
  | [] => (String.ofList cs, none)

/-- Sorts arguments; no result if they break the rules. -/
def sort? (options : Options) (commands : List String) (a : Arguments) :
    List String → Option (Arguments × Option Command)
  | [] => some ({ a with operands := a.operands.reverse }, none)
  | arg :: rest =>
    if commands.contains arg then
      some ({ a with operands := a.operands.reverse }, some { word := arg, args := rest })
    else
      match arg.toList with
      | ['-', '-'] => some ({ a with operands := a.operands.reverse ++ rest }, none)
      | '-' :: '-' :: long =>
        let (name, value) := splitAtEquals long
        match options.lookup name, value, rest with
        | none, _, _ => none
        | some .value, some v, rest => (a.addValue? name v).bind (sort? options commands · rest)
        | some .value, none, v :: rest =>
          if looksLikeOption v.toList then none
          else (a.addValue? name v).bind (sort? options commands · rest)
        | some .value, none, [] => none
        | some _, some _, _ => none
        | some arity, none, rest => (a.addFlag? name arity).bind (sort? options commands · rest)
      | '-' :: c :: letters =>
        (addLetters? options a (c :: letters)).bind (sort? options commands · rest)
      | _ => sort? options commands { a with operands := arg :: a.operands } rest

/-! ## Values -/

/-- A 64-bit number in decimal, with an optional plus sign. -/
def uint64? (text : String) : Option UInt64 :=
  let digits := match text.toList with
    | '+' :: cs => cs
    | cs => cs
  if digits.isEmpty || !digits.all Char.isDigit then none
  else
    let n := digits.foldl (fun n c => 10 * n + (c.toNat - '0'.toNat)) 0
    if n < UInt64.size then some (UInt64.ofNat n) else none

/-- A path, which is not empty. -/
def path? (text : String) : Option String :=
  if text = "" then none else some text

/-- The value of an option, read by `read`; missing is fine, unreadable is not. -/
def optional? {α : Type} (a : Arguments) (name : String) (read : String → Option α) :
    Option (Option α) :=
  match a.value? name with
  | none => some none
  | some text => (read text).map some

/-- The value of an option, or a default if it is missing. -/
def withDefault? {α : Type} (a : Arguments) (name : String) (read : String → Option α) (default : α) :
    Option α :=
  (a.optional? name read).map (·.getD default)

/-- The one operand of a command, a path. -/
def onlyPath? (a : Arguments) : Option String :=
  match a.operands with
  | [path] => path? path
  | _ => none

end Arguments

end Ebpf.CommandLine
