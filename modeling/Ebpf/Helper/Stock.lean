/-
  Ready-made helpers. `tracePrintk` is the one that programs are run with. The
  others stand for no helper of the machine: `sum`, `double`, `count` and `fail`
  are the smallest helpers that read their arguments, change the stack, keep a
  state and refuse, and serve to try the machine out and to show that what is
  said of helpers is said of some.

  All of them share one kind of state, a counter, so that they can stand in one
  table.
-/
import Ebpf.Helper
import Ebpf.Text.Blank
import Ebpf.Text.Utf8

namespace Ebpf.Helper

/-- The number under which programs expect `tracePrintk`. -/
def tracePrintkId : UInt32 := 6

/-- The text that a print call shows: the bytes before the first zero, read as UTF-8. -/
def printedText (bytes : List UInt8) : List Char :=
  Text.Utf8.decodeLossy (bytes.takeWhile (· ≠ 0))

/-- Prints the text that lies on the stack at the first argument, in a span as
long as the second; the other three arguments are logged beside it, and the
text is logged without the white space at its end. The result is the
length of the whole text in bytes. -/
def tracePrintk (args : Args) (stack : Stack) : Except Fault UInt64 × List Event :=
  match stack.read args[0].toInt64 args[1].toNat with
  | .error e => (.error e, [])
  | .ok bytes =>
    let text := printedText bytes
    (.ok (UInt64.ofNat (String.ofList text).utf8ByteSize),
     [.printk args[2] args[3] args[4] (String.ofList (Text.trimEnd text))])

/-- Doubles the little-endian 8-byte number at the first argument and gives its old value. -/
def doubleCell (args : Args) (stack : Stack) : Except Fault (UInt64 × Stack) :=
  match stack.load .little args[0].toInt64 8 with
  | .error e => .error e
  | .ok v => (stack.store .little args[0].toInt64 8 (2 * v)).map fun s => (v, s)

/-- The kinds of ready-made helper: the one for programs, and those for trying the machine out. -/
inductive Stock where
  | tracePrintk
  /-- The sum of the arguments. -/
  | sum
  /-- Doubles a stack cell. -/
  | double
  /-- Counts its own calls. -/
  | count
  /-- Fails with a given reason. -/
  | fail (reason : String)

/-- What a ready-made helper does on one call. -/
def Stock.act (kind : Stock) (calls : UInt64) (args : Args) (stack : Stack) : Reply UInt64 :=
  match kind with
  | tracePrintk =>
    let (result, events) := Helper.tracePrintk args stack
    { result := result.mapError Fault.message, state := calls, stack, events }
  | sum =>
    { result := .ok (args.foldl (· + ·) 0), state := calls, stack, events := [] }
  | double =>
    match doubleCell args stack with
    | .error e => { result := .error e.message, state := calls, stack, events := [] }
    | .ok (v, stack) => { result := .ok v, state := calls, stack, events := [] }
  | count => { result := .ok (calls + 1), state := calls + 1, stack, events := [] }
  | fail reason => { result := .error reason, state := calls, stack, events := [] }

/-- A ready-made helper under a name of choice, not yet called. -/
def ofStock (name : String) (kind : Stock) : Helper UInt64 :=
  { name, state := 0, act := kind.act }

end Ebpf.Helper
