import RegColor.Data.OrdSet
import RegColor.Fault

/-!
# Directed graphs

A directed graph over the vertices `0, 1, …, order - 1`. Parallel edges and loops are allowed. An
edge stands in two tables: its target in the list of its source, its source in the list of its
target. Both lists keep the order in which edges were added.
-/

namespace RegColor

/-- A directed graph: for each vertex, the targets of the edges that leave it and the sources of
those that enter it, oldest first. -/
structure Digraph where
  succ : List (List Nat)
  pred : List (List Nat)
deriving DecidableEq, Repr, Inhabited

namespace Digraph

/-- `n` vertices without edges. -/
def new (n : Nat) : Digraph := ⟨List.replicate n [], List.replicate n []⟩

/-- The number of vertices. -/
def order (g : Digraph) : Nat := g.succ.length

/-- Adds a vertex and gives it. -/
def addVertex (g : Digraph) : Digraph × Nat :=
  let g := ⟨g.succ ++ [[]], g.pred ++ [[]]⟩
  (g, g.order - 1)

/-- Puts `x` at the end of the list at `k`, which must be there. -/
def push (table : List (List Nat)) (k x : Nat) : Except Fault (List (List Nat)) :=
  match table[k]? with
  | some xs => .ok (table.set k (xs ++ [x]))
  | none => .error (.undefined .outOfRange)

/-- Adds an edge between two vertices of the graph, first to one table and then to the other. -/
def addEdge (g : Digraph) (u v : Nat) : Except Fault Digraph := do
  let succ ← push g.succ u v
  let pred ← push g.pred v u
  .ok { succ, pred }

/-- The targets of the edges that leave `v`, none if it is no vertex. -/
def outEdges (g : Digraph) (v : Nat) : List Nat := g.succ.getD v []

/-- The sources of the edges that enter `v`, none if it is no vertex. -/
def inEdges (g : Digraph) (v : Nat) : List Nat := g.pred.getD v []

/-- Goes through a list and puts what was not seen before behind `out`. -/
def unseen (seen : OrdSet Nat) (out : List Nat) : List Nat → List Nat
  | [] => out
  | v :: vs => if v ∈ seen then unseen seen out vs else unseen (seen.insert v) (out ++ [v]) vs

/-- The members of a list in the order of their first occurrences. -/
def distinct (vs : List Nat) : List Nat := if vs.length < 2 then vs else unseen ∅ [] vs

/-- The distinct targets of the edges that leave `v`. -/
def successors (g : Digraph) (v : Nat) : List Nat := distinct (g.outEdges v)

/-- The distinct sources of the edges that enter `v`. -/
def predecessors (g : Digraph) (v : Nat) : List Nat := distinct (g.inEdges v)

/-- The number of edges, parallel ones counted apart. -/
def edgeCount (g : Digraph) : Nat := g.succ.foldl (fun n targets => n + targets.length) 0

/-- The edge lists at a vertex: targets, successors, predecessors. -/
def edgesAt (g : Digraph) (v : Nat) : Except Fault (List Nat × List Nat × List Nat) :=
  match g.succ[v]?, g.pred[v]? with
  | some targets, some sources => .ok (targets, distinct targets, distinct sources)
  | _, _ => .error (.undefined .outOfRange)

end Digraph

end RegColor
