import RegColor.Allocator

/-!
# Graphs as dot text

Control flow and interference as graphs in the dot language. A block is a record whose lines are its
instructions, each ended by `\l`; with liveness, the set before each instruction and the set after
the block stand between them, in square brackets because braces would open a group in a record.
-/

namespace RegColor

namespace Dot

/-- A string literal. Backslashes keep the meaning that labels give them. -/
def quote (s : String) : String :=
  "\"" ++ String.ofList (s.toList.flatMap (fun c => if c = '"' then ['\\', '"'] else [c])) ++ "\""

/-- A line of a label, aligned left. -/
def line (s : String) : String := s ++ "\\l"

/-- The line of a live set. -/
def setLine (l : Listing) (s : SymbolSet) : String := line ("- " ++ l.setText "[" "]" s)

/-- The lines of an instruction. -/
def instrLines (l : Listing) (live : Option LiveSets) (i : Instr) : String :=
  let before := if i.isLabel then none else live.bind (·.before? i.id)
  ((before.map (setLine l)).getD "") ++ line (l.instrText i)

/-- The label of a block, with live sets if they are given. -/
def blockLabel (l : Listing) (live : Option LiveSets) (b : Block) : String :=
  let after := live.bind (·.after? b.last.id)
  String.join (b.instrs.map (instrLines l live)) ++ ((after.map (setLine l)).getD "")

/-- The control flow of a function. -/
def flow (l : Listing) (f : Function) (a : Annotation) (withLiveness : Bool) : String :=
  let live := if withLiveness then some a.live else none
  let vertex : Block × Nat → String := fun (b, k) =>
    s!"  {k} [ shape=\"Mrecord\" label={quote (blockLabel l live b)} ];\n"
  let edges (g : Digraph) (k : Nat) : String :=
    String.join ((g.outEdges k).map (fun t => s!"  {k} -> {t};\n"))
  s!"digraph {quote (l.nameOf f)} \x7b\n" ++
    String.join (a.blocks.zipIdx.map vertex) ++
    ((a.flow.map (fun g => String.join ((List.range a.blocks.length).map (edges g)))).getD "") ++
    "\x7d\n"

/-- The interference between the webs of a function. -/
def interference (l : Listing) (r : Webs) : String :=
  let f := l.functions.getD r.function default
  s!"graph {quote (l.nameOf f)} \x7b\n" ++
    String.join (r.webs.map (fun w => s!"  {w.id} [ label={quote (w.label l)} ];\n")) ++
    String.join (r.graph.edges.map (fun e => s!"  {e.1} -- {e.2};\n")) ++ "\x7d\n"

/-- The file for the control flow of a function. -/
def flowFile (name : String) : String := "cfg." ++ name ++ ".dot"

/-- The file for the interference in a function. -/
def interferenceFile (name : String) : String := "web." ++ name ++ ".dot"

end Dot

end RegColor
