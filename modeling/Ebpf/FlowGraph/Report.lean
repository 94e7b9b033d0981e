/-
  Flow graphs as reports: a plain text for readers, and JSON for programs.
-/
import Ebpf.FlowGraph
import Ebpf.Json.Printer

namespace Ebpf

/-- The kind of an edge in a plain report. -/
def EdgeKind.name : EdgeKind → String
  | fallthrough => "Fallthrough"
  | branch => "Branch"
  | condBranch => "CondBranch"

/-- The kind of an edge in JSON. -/
def EdgeKind.tag : EdgeKind → String
  | fallthrough => "fallthrough"
  | branch => "branch"
  | condBranch => "condbranch"

namespace FlowGraph

/-- Program counters as a bracketed list. -/
def showPcs (pcs : List Nat) : String :=
  Text.bracketed (pcs.map Text.decimal)

/-- The counts at the head of a plain report; stray jumps are shown only if there are any. -/
def summaryLines (g : FlowGraph) : List String :=
  ["Analysis summary:",
   "  blocks : " ++ Text.decimal g.blocks.length,
   "  edges  : " ++ Text.decimal g.edges.length,
   "  exits  : " ++ showPcs g.exits] ++
  (if g.strays.isEmpty then [] else ["  out-of-range jumps: " ++ showPcs g.strays])

/-- A block in a plain report. -/
def blockLines (b : Block) : List String :=
  "" :: ("block_" ++ Text.decimal4 b.start ++ " [" ++ Text.decimal b.start ++ ", " ++
    Text.decimal b.stop ++ "):") :: b.insns.map ("  " ++ ·)

/-- An edge in a plain report. -/
def edgeLine (e : Edge) : String :=
  "  " ++ Text.decimal4 e.source ++ " -> " ++ Text.decimal4 e.target ++ " (" ++ e.kind.name ++ ")"

/-- The plain report, every line ended. -/
def report (g : FlowGraph) : String :=
  let lines := g.summaryLines ++ g.blocks.flatMap blockLines ++ ["", "Edges:"] ++
    g.edges.map edgeLine
  String.join (lines.map (· ++ "\n"))

/-- The graph as JSON. -/
def toJson (g : FlowGraph) : Json :=
  .obj
    [("blocks", .arr (g.blocks.map fun b =>
       .obj [("start", .nat b.start), ("end", .nat b.stop), ("insns", .arr (b.insns.map .str))])),
     ("edges", .arr (g.edges.map fun e =>
       .obj [("from", .nat e.source), ("to", .nat e.target), ("kind", .str e.kind.tag)])),
     ("exits", .arr (g.exits.map .nat)),
     ("out_of_range", .arr (g.strays.map .nat))]

end FlowGraph

end Ebpf
