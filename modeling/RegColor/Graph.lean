import RegColor.Adjacency

/-!
# Undirected graphs

A simple graph over integers: neighbour sets that agree, without loops. Each change of a graph is
the change of its neighbour sets, which keeps them simple.
-/

namespace RegColor

/-- A simple undirected graph. -/
structure Graph extends Adjacency where
  simple : toAdjacency.Simple

namespace Graph

/-- The graph without vertices. -/
def empty : Graph := ⟨.empty, .empty⟩

instance : Inhabited Graph := ⟨empty⟩

/-- Adds a vertex. -/
def addVertex (g : Graph) (v : Int) : Graph := ⟨g.toAdjacency.addVertex v, g.simple.addVertex v⟩

/-- Adds an edge and its ends; a loop adds the vertex only. -/
def addEdge (g : Graph) (u v : Int) : Graph :=
  ⟨(g.toAdjacency.addEdge u v).1, g.simple.addEdge u v⟩

/-- Adds the edges between the members of a list, those of the first one first. -/
def addClique (g : Graph) : List Int → Graph
  | [] => g
  | v :: vs => addClique (vs.foldl (fun g u => g.addEdge v u) g) vs

/-- Removes a vertex and the edges at it. In a simple graph this never meets a missing set. -/
def removeVertex (g : Graph) (v : Int) : Graph :=
  match removed : g.toAdjacency.removeVertex v with
  | .ok rest => ⟨rest, g.simple.removeVertex removed⟩
  | .error _ => absurd removed (g.simple.removeVertex_ne_error v)

/-- A copy that shares nothing. -/
def clone (g : Graph) : Graph := ⟨g.toAdjacency.clone, g.toAdjacency.clone_eq.symm ▸ g.simple⟩

theorem clone_eq (g : Graph) : g.clone = g := by
  cases g
  simp only [clone, Adjacency.clone_eq]

theorem removeVertex_eq_ok (g : Graph) (v : Int) :
    g.toAdjacency.removeVertex v = .ok (g.removeVertex v).toAdjacency := by
  unfold removeVertex
  split
  · assumption
  · next removed => exact absurd removed (g.simple.removeVertex_ne_error v)

theorem vertices_removeVertex (g : Graph) (v : Int) :
    (g.removeVertex v).vertices = g.vertices.erase v := by
  refine OrdSet.ext_mem fun x => ?_
  rw [OrdSet.mem_erase]
  exact g.simple.mem_vertices_removeVertex (g.removeVertex_eq_ok v)

theorem order_removeVertex_lt {g : Graph} {v : Int} (h : v ∈ g.vertices) :
    (g.removeVertex v).order < g.order := by
  rw [Adjacency.order_eq_size, vertices_removeVertex, Adjacency.order_eq_size]
  exact List.length_filter_lt_length_iff_exists.2 ⟨v, h, by simp⟩

end Graph

end RegColor
