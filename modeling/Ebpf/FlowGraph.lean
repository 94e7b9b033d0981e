/-
  The control flow of a code section: the instructions that can be reached
  from its first word, cut into basic blocks, and the jumps between them.

  The instructions are found breadth first, jump targets before the
  instruction that follows, until a limit on their number is met; words that
  do not decode are left out. Everything else is read off the list of visits:
  edges in the order of discovery, exits and stray jumps in ascending order,
  and blocks, which start at the first word and at every jump target.
-/
import Ebpf.Insn.Decode
import Ebpf.Insn.Text

namespace Ebpf

/-! ## Visits -/

/-- An instruction that the walk has reached. -/
structure Visit where
  pc : Nat
  slot : Slot
deriving DecidableEq

namespace Visit

/-- The word after the instruction. -/
def next (v : Visit) : Nat :=
  v.pc + v.slot.words

/-- Where the instruction jumps to, if that is inside a section of `len` words. -/
def target? (len : Nat) (v : Visit) : Option Nat :=
  let t : Int := v.pc + 1 + v.slot.insn.off.toInt
  if 0 ≤ t ∧ t < len then some t.toNat else none

/-- The words that the walk goes on to, in order. -/
def successors (len : Nat) (v : Visit) : List Nat :=
  match v.slot.insn.op with
  | .ja => (v.target? len).toList
  | .jmp .. => (v.target? len).toList ++ (if v.next < len then [v.next] else [])
  | .exit => []
  | _ => [v.next]

/-- Whether the instruction ends the program. -/
def isExit (v : Visit) : Bool :=
  match v.slot.insn.op with
  | .exit => true
  | _ => false

/-- Whether no block goes on past the instruction. -/
def endsBlock (v : Visit) : Bool :=
  match v.slot.insn.op with
  | .ja | .jmp .. | .exit => true
  | _ => false

/-- Whether the instruction jumps, or falls through a conditional jump, out of the section. -/
def isStray (len : Nat) (v : Visit) : Bool :=
  match v.slot.insn.op with
  | .ja => (v.target? len).isNone
  | .jmp .. => (v.target? len).isNone || len ≤ v.next
  | _ => false

/-- The instruction as listed. -/
def text (v : Visit) : String :=
  Text.decimal4 v.pc ++ ": " ++ v.slot.insn.text

end Visit

/-- Visits the queued words of a section of `len` words, and all that follow
from them. The number counted down bounds the words taken from the queue, and
`limit` the visits; `seen` holds the visits so far, last first. -/
def walk (d : Decoder) (o : ByteOrder) (code : List UInt8) (len limit : Nat) :
    Nat → List Nat → List Visit → List Visit
  | 0, _, seen => seen.reverse
  | _, [], seen => seen.reverse
  | rounds + 1, pc :: queue, seen =>
    if limit ≤ seen.length then seen.reverse
    else if len ≤ pc ∨ seen.any (·.pc == pc) then walk d o code len limit rounds queue seen
    else
      match d.decode o (code.drop (Word.size * pc)) with
      | .error _ => walk d o code len limit rounds queue seen
      | .ok slot =>
        let v : Visit := { pc, slot }
        walk d o code len limit rounds (queue ++ v.successors len) (v :: seen)

/-- The number of whole words of a section. -/
def sectionWords (code : List UInt8) : Nat :=
  code.length / Word.size

/-- The reachable instructions in the order of discovery. Every visit queues
at most two words, so twice the number of words, and the first one, suffice. -/
def visits (d : Decoder) (o : ByteOrder) (code : List UInt8) (limit : Nat) : List Visit :=
  let len := sectionWords code
  walk d o code len limit (2 * len + 1) [0] []

/-! ## Edges -/

/-- How control passes along an edge. -/
inductive EdgeKind where
  /-- Past a conditional jump that is not taken. -/
  | fallthrough
  /-- Along an unconditional jump. -/
  | branch
  /-- Along a conditional jump. -/
  | condBranch
deriving DecidableEq

/-- An edge from the last instruction of a block to the first of another. -/
structure Edge where
  source : Nat
  target : Nat
  kind : EdgeKind
deriving DecidableEq

/-- The edges that leave an instruction. -/
def Visit.edges (len : Nat) (v : Visit) : List Edge :=
  match v.slot.insn.op with
  | .ja => (v.target? len).toList.map fun t => ⟨v.pc, t, .branch⟩
  | .jmp .. =>
    (v.target? len).toList.map (fun t => ⟨v.pc, t, .condBranch⟩) ++
      (if v.next < len then [⟨v.pc, v.next, .fallthrough⟩] else [])
  | _ => []

/-! ## Blocks -/

/-- Instructions that run one after the other. -/
structure Block where
  start : Nat
  stop : Nat
  insns : List String
deriving DecidableEq

/-- A word at which a block starts: the first of the section, or the target of an edge. -/
def isLeader (edges : List Edge) (pc : Nat) : Bool :=
  pc == 0 || edges.any (·.target == pc)

/-- The instructions of the block that starts with `v`, of which there are at
most `room` after it. -/
def chain (vs : List Visit) (edges : List Edge) : Nat → Visit → List Visit
  | 0, v => [v]
  | room + 1, v =>
    if v.endsBlock || isLeader edges v.next then [v]
    else
      match vs.find? (·.pc == v.next) with
      | none => [v]
      | some w => v :: chain vs edges room w

/-- The block of a run of instructions that starts with `v`. -/
def Block.ofChain (v : Visit) (run : List Visit) : Block :=
  { start := v.pc
    stop := (run.getLast?.getD v).next
    insns := run.map Visit.text }

/-! ## Graphs -/

/-- The control flow of a section. -/
structure FlowGraph where
  blocks : List Block
  edges : List Edge
  exits : List Nat
  strays : List Nat
deriving DecidableEq

namespace FlowGraph

/-- The graph of a list of visits to a section of `len` words. -/
def ofVisits (len : Nat) (vs : List Visit) : FlowGraph :=
  let edges := vs.flatMap (Visit.edges len)
  let leaders := (vs.filter fun v => isLeader edges v.pc).mergeSort fun v w => v.pc ≤ w.pc
  { blocks := leaders.map fun v => Block.ofChain v (chain vs edges vs.length v)
    edges
    exits := ((vs.filter Visit.isExit).map Visit.pc).mergeSort
    strays := ((vs.filter (Visit.isStray len)).map Visit.pc).mergeSort }

/-- The graph of a section, from at most `limit` instructions. -/
def analyze (d : Decoder) (o : ByteOrder) (code : List UInt8) (limit : Nat) : FlowGraph :=
  ofVisits (sectionWords code) (visits d o code limit)

end FlowGraph

end Ebpf
