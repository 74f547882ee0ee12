import RegColor.Analysis.LiveSets
import RegColor.Digraph

/-!
# Control flow

What the analyses attach to a function is an `Annotation`: its blocks, the graph of control flow
between them, the instructions marked as leaders and the live sets.

`Listing.buildFlow` marks the leaders of a function (its first instruction, every branch target and
every instruction after a branch), cuts it into blocks and connects them. When it fails, the
annotation keeps what was done before the failure.
-/

namespace RegColor

/-- What the analyses know about a function. -/
structure Annotation where
  blocks : List Block := []
  flow : Option Digraph := none
  leaders : List InstrId := []
  live : LiveSets := {}
deriving DecidableEq

namespace Annotation

instance : Inhabited Annotation := ⟨{}⟩

/-- Forgets blocks and control flow. -/
def reset (a : Annotation) : Annotation := { a with blocks := [], flow := none }

/-- The set before the first instruction of a block. -/
def entryOf? (a : Annotation) (b : Block) : Option SymbolSet := a.live.before? b.leader.id

/-- The set after the last instruction of a block. -/
def exitOf? (a : Annotation) (b : Block) : Option SymbolSet := a.live.after? b.last.id

/-- The symbols live on entry to the function, none before they are known. -/
def entry (a : Annotation) : List SymbolId :=
  match a.blocks with
  | [] => []
  | b :: _ => ((a.entryOf? b).map OrdSet.toList).getD []

end Annotation

namespace Listing

variable (l : Listing) (f : Function)

/-! ## Leaders -/

/-- Marks leaders: `next` tells whether the first of the instructions is one. The marks made before
a failure are returned with it. -/
def markLeaders (next : Bool) : List Instr → List InstrId × Option Fault
  | [] => ([], none)
  | i :: is =>
    let here := if next then [i.id] else []
    match l.branchTarget f i with
    | .error e => (here, some e)
    | .ok target =>
      let (more, fault) := markLeaders target.isSome is
      (here ++ (target.map Instr.id).toList ++ more, fault)

/-! ## Edges -/

/-- The block that an instruction leads. -/
def blockLedBy (blocks : List Block) (i : Instr) : Except Fault Nat :=
  match Block.ledBy? blocks i.id with
  | some k => .ok k
  | none => .error (.noBlock (l.nameOf f) (l.instrText i))

/-- The edges that leave block `k`: to the next block if control falls through, and to the block of
the branch target. -/
def edgesFrom (blocks : List Block) (k : Nat) (b : Block) : Except Fault (List (Nat × Nat)) :=
  let next := if k + 1 < blocks.length ∧ b.last.fallsThrough then [(k, k + 1)] else []
  match l.branchTarget f b.last with
  | .error e => .error e
  | .ok none => .ok next
  | .ok (some target) =>
    match l.blockLedBy f blocks target with
    | .error e => .error (.branchIn (l.nameOf f) k e)
    | .ok t => .ok (next ++ [(k, t)])

/-- The edges that leave blocks, the first of which is block `k`. -/
def allEdges (blocks : List Block) (k : Nat) : List Block → Except Fault (List (Nat × Nat))
  | [] => .ok []
  | b :: bs =>
    match l.edgesFrom f blocks k b with
    | .error e => .error e
    | .ok es => (allEdges blocks (k + 1) bs).map (es ++ ·)

/-- The graph of control flow between blocks. -/
def connect (blocks : List Block) : Except Fault Digraph := do
  let edges ← l.allEdges f blocks 0 blocks
  edges.foldlM (fun g e => g.addEdge e.1 e.2) (.new blocks.length)

/-! ## Building -/

/-- The first instruction with a wrong number of operands, as a fault. -/
def malformed? : Option Fault :=
  f.code.findSome? fun i =>
    match l.checkOperands f i with
    | .error e => some e
    | .ok () => none

/-- Cuts a function into blocks and connects them. -/
def buildFlow (a : Annotation) : Annotation × Option Fault :=
  if f.code.isEmpty then (a, some (.emptyFunction (l.nameOf f)))
  else
    match l.malformed? f with
    | some e => (a, some e)
    | none =>
      let (leaders, fault) := l.markLeaders f true f.code
      let a := { a.reset with leaders }
      match fault with
      | some e => (a, some e)
      | none =>
        let blocks := Block.split (fun i => i.id ∈ leaders) f.code
        match l.connect f blocks with
        | .error e => ({ a with blocks }, some e)
        | .ok g => ({ a with blocks, flow := some g }, none)

/-- Builds the control flow of functions in order, up to the first failure. -/
def buildFlows : List Function → List Annotation → List Annotation × Option Fault
  | f :: fs, a :: as =>
    match l.buildFlow f a with
    | (a, some e) => (a :: as, some e)
    | (a, none) =>
      let (as, fault) := buildFlows fs as
      (a :: as, fault)
  | _, as => (as, none)

/-- The annotations of a listing that no analysis has seen. -/
def freshAnnotations : List Annotation := l.functions.map (fun _ => {})

end Listing

end RegColor
