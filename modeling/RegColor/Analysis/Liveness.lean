import RegColor.Analysis.Flow
import RegColor.Listing.Access

/-!
# Liveness

A symbol is live before an instruction if the instruction uses it, or if it is live after it and the
instruction does not write it. After the last instruction of a block everything is live that is live
on entry to a successor. A call uses what is live on entry to its callee, so all functions of a
listing are solved together.

A pass over all instructions adds to the sets what these rules ask for, and tells whether one of
them has grown. A sweep is a pass of which only the sets are kept. Passes are repeated until one
tells that nothing has grown.
-/

namespace RegColor

namespace Liveness

/-- Gives every instruction of the blocks empty live sets. -/
def start (as : List Annotation) : List Annotation :=
  as.map (fun a => { a with live := .ofBlocks a.blocks })

/-- What is live on entry to the function at a position. -/
def entries (as : List Annotation) (k : Nat) : List SymbolId := (as.getD k default).entry

variable (l : Listing)

/-- Adds to the set before an instruction of function `k` what the instruction asks for. -/
def transfer (k : Nat) (as : List Annotation) (i : Instr) : Except Fault (List Annotation) :=
  match (as.getD k default).live.before? i.id, (as.getD k default).live.after? i.id with
  | some _, some after =>
    let new := (after.diff (.ofList i.defs)).union (.ofList (l.uses (entries as) i))
    .ok (as.modify k (fun a => { a with live := a.live.growBefore i.id new }))
  | _, _ => .error (.undefined .noLiveSets)

/-- Adds to the set after a block of function `k` what is live on entry to one of its successors. -/
def join (k : Nat) (b : Block) (as : List Annotation) (successor : Nat) :
    Except Fault (List Annotation) :=
  let a := as.getD k default
  match a.entryOf? (a.blocks.getD successor default) with
  | none => .error (.undefined .noLiveSets)
  | some entry =>
    .ok (as.modify k (fun a => { a with live := a.live.growAfter b.last.id entry }))

/-- Takes a step that adds to one set, and notes whether the set has grown, or one before it has. -/
def noting {α : Type} (step : List Annotation → α → Except Fault (List Annotation))
    (set : List Annotation → α → Option SymbolSet) (s : List Annotation × Bool) (x : α) :
    Except Fault (List Annotation × Bool) :=
  (step s.1 x).map fun as =>
    (as, s.2 || (set s.1 x).map OrdSet.size ≠ (set as x).map OrdSet.size)

/-- Adds to the set after block `n` of function `k` what is live on entry to its successors. -/
def passEdges (k : Nat) (s : List Annotation × Bool) (block : Block × Nat) :
    Except Fault (List Annotation × Bool) :=
  match (s.1.getD k default).flow with
  | none => .error (.undefined .noFlowGraph)
  | some g =>
    (g.successors block.2).foldlM
      (noting (join k block.1) fun as _ => (as.getD k default).exitOf? block.1) s

/-- One pass over function `k`: the blocks in order, each from its last instruction to its first,
then the sets after the blocks. -/
def passFunction (s : List Annotation × Bool) (k : Nat) : Except Fault (List Annotation × Bool) := do
  let blocks := (s.1.getD k default).blocks
  let s ← (blocks.flatMap (·.instrs.reverse)).foldlM
    (noting (transfer l k) fun as i => (as.getD k default).live.before? i.id) s
  blocks.zipIdx.foldlM (passEdges k) s

/-- One pass over all functions, and whether a set has grown in it. -/
def pass (as : List Annotation) : Except Fault (List Annotation × Bool) :=
  (List.range l.functions.length).foldlM (passFunction l) (as, false)

/-- The live sets after one pass over all functions. -/
def sweep (as : List Annotation) : Except Fault (List Annotation) := (pass l as).map Prod.fst

/-- Passes until nothing grows, at most `fuel` times, and counts the passes. -/
def sweeps : Nat → List Annotation → Except Fault (List Annotation × Nat)
  | 0, as => .ok (as, 0)
  | fuel + 1, as => do
    let (as', grown) ← pass l as
    if grown then
      let (as'', n) ← sweeps fuel as'
      .ok (as'', n + 1)
    else .ok (as', 1)

/-- The symbols that can become live: the operands of instructions, constants left out. -/
def candidates (as : List Annotation) : SymbolSet :=
  .ofList ((as.flatMap fun a => a.blocks.flatMap fun b => b.instrs.flatMap Instr.operands).filter
    fun s => !l.isConstant s)

/-- The number of live sets in all functions. -/
def setCount (as : List Annotation) : Nat := as.foldr (fun a n => a.live.size + n) 0

/-- A number of sweeps that is always enough: every sweep but the last adds a symbol to a set. -/
def enough (as : List Annotation) : Nat := setCount as * (candidates l as).size + 1

/-- Sweeps until nothing grows and counts the sweeps, the last one included. -/
def run (as : List Annotation) : Except Fault (List Annotation × Nat) :=
  sweeps l (enough l as) as

end Liveness

/-! ## Snapshots -/

/-- The live sets of a listing at one moment, by function and instruction. -/
structure Snapshot where
  before : List ((Nat × InstrId) × SymbolSet) := []
  after : List ((Nat × InstrId) × SymbolSet) := []
deriving DecidableEq

namespace Snapshot

/-- The live sets of all instructions that have them. -/
def take (l : Listing) (as : List Annotation) : Snapshot :=
  let collect (get : LiveSets → InstrId → Option SymbolSet) :
      List ((Nat × InstrId) × SymbolSet) :=
    l.functions.zipIdx.flatMap fun (f, k) =>
      f.code.filterMap fun i =>
        (get (as.getD k default).live i.id).map (((k, i.id), ·))
  { before := collect LiveSets.before?, after := collect LiveSets.after? }

/-- Whether every set of one collection is part of the same set of another. -/
def covered (s t : List ((Nat × InstrId) × SymbolSet)) : Bool :=
  s.all fun (key, set) =>
    match t.lookup key with
    | some other => set.subset other
    | none => false

/-- Whether every set is part of the same set of a later snapshot. -/
def subset (s later : Snapshot) : Bool :=
  covered s.before later.before && covered s.after later.after

/-- Whether two snapshots hold the same sets. -/
def equal (s t : Snapshot) : Bool := s.subset t && t.subset s

end Snapshot

end RegColor
