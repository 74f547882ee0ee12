import RegColor.Data.OrdMap
import RegColor.Data.OrdSet
import RegColor.Fault

/-!
# Neighbour sets

An undirected graph over integers is a map from its vertices to the sets of their neighbours. An
edge stands in two of these sets, once for each end, and each change to an edge is made in one set
after the other. Nothing in the type says that the two agree: `Adjacency.Simple` says it, and that
no vertex is its own neighbour.

* `addEdge_new_iff`: whether an edge is new is told by the set of one end only;
* `Simple.mem_neighbors_addEdge`: but then it is new for both, and both sets get it;
* `Simple.exists_removeVertex`: a vertex is taken out of the sets of its neighbours, all of which
  have one.
-/

namespace RegColor

/-- The neighbours of each vertex. -/
structure Adjacency where
  sets : OrdMap Int (OrdSet Int)
deriving DecidableEq, Inhabited

namespace Adjacency

/-! ## Questions -/

def hasVertex (g : Adjacency) (v : Int) : Bool := g.sets.contains v

/-- The neighbours of `v`, none if it is no vertex. -/
def neighbors (g : Adjacency) (v : Int) : OrdSet Int := (g.sets.get? v).getD ∅

/-- Whether `v` is a neighbour of `u`. -/
def adjacent (g : Adjacency) (u v : Int) : Bool := v ∈ g.neighbors u

/-- The number of neighbours. -/
def degree (g : Adjacency) (v : Int) : Nat := (g.neighbors v).size

def vertices (g : Adjacency) : OrdSet Int := .ofList g.sets.keys

/-- The number of vertices. -/
def order (g : Adjacency) : Nat := g.sets.size

/-- The edges, each from its smaller end. -/
def edges (g : Adjacency) : List (Int × Int) :=
  g.vertices.toList.flatMap fun u => ((g.neighbors u).toList.filter (u < ·)).map (u, ·)

/-- The number of edges: half the number of neighbours in all sets. -/
def edgeCount (g : Adjacency) : Nat := g.sets.values.foldl (fun n s => n + s.size) 0 / 2

/-! ## Changes -/

/-- The graph without vertices. -/
def empty : Adjacency := ⟨∅⟩

/-- Gives `v` another set of neighbours. -/
def put (g : Adjacency) (v : Int) (s : OrdSet Int) : Adjacency := ⟨g.sets.insert v s⟩

/-- Adds a vertex, unless it is there already. -/
def addVertex (g : Adjacency) (v : Int) : Adjacency := if g.hasVertex v then g else g.put v ∅

/-- Adds an edge and its ends, and tells whether the edge is new. A loop adds the vertex only. -/
def addEdge (g : Adjacency) (u v : Int) : Adjacency × Bool :=
  let g := (g.addVertex u).addVertex v
  if u = v then (g, false)
  else
    -- Both ends have sets by now.
    let (s, new) := (g.neighbors u).add v
    let g := g.put u s
    if new then (g.put v ((g.neighbors v).insert u), true) else (g, false)

/-- Takes `v` out of the neighbours of `u`, which must be a vertex. -/
def detach (v : Int) (g : Adjacency) (u : Int) : Except Fault Adjacency :=
  match g.sets.get? u with
  | some s => .ok (g.put u (s.erase v))
  | none => .error (.undefined .missingVertex)

/-- Removes a vertex, if it is there, after taking it out of the sets of its neighbours. -/
def removeVertex (g : Adjacency) (v : Int) : Except Fault Adjacency :=
  match g.sets.get? v with
  | none => .ok g
  | some s => do
    let g ← s.toList.foldlM (detach v) g
    .ok ⟨g.sets.filterKeys (· ≠ v)⟩

/-- A graph with copies of all sets. -/
def clone (g : Adjacency) : Adjacency := ⟨g.sets.map OrdSet.copy⟩

/-! ## What each change does to the sets -/

variable {g : Adjacency} {s : OrdSet Int} {u v x y : Int}

theorem neighbors_put : (g.put v s).neighbors x = if x = v then s else g.neighbors x := by
  rw [neighbors, put, OrdMap.get?_insert]
  split
  · rfl
  · rfl

theorem hasVertex_put : (g.put v s).hasVertex x = true ↔ x = v ∨ g.hasVertex x = true := by
  rw [hasVertex, OrdMap.contains, put, OrdMap.get?_insert]
  by_cases e : x = v
  · simp [e]
  · simp [e, hasVertex, OrdMap.contains]

theorem hasVertex_of_mem_neighbors (h : u ∈ g.neighbors v) : g.hasVertex v = true := by
  rw [hasVertex, OrdMap.contains]
  rw [neighbors] at h
  cases found : g.sets.get? v with
  | some s => rfl
  | none =>
    rw [found] at h
    exact absurd h (OrdSet.not_mem_empty u)

/-- A new vertex has no neighbours. -/
theorem neighbors_addVertex : (g.addVertex v).neighbors x = g.neighbors x := by
  unfold addVertex
  split
  · rfl
  · next new =>
    rw [neighbors_put]
    split
    · next e =>
      subst e
      refine OrdSet.ext_mem fun y => iff_of_false (OrdSet.not_mem_empty y) fun old => ?_
      exact new (hasVertex_of_mem_neighbors old)
    · rfl

theorem hasVertex_addVertex :
    (g.addVertex v).hasVertex x = true ↔ x = v ∨ g.hasVertex x = true := by
  unfold addVertex
  split
  · next old => exact (or_iff_right_of_imp fun e => e ▸ old).symm
  · exact hasVertex_put

theorem hasVertex_addEdge :
    (g.addEdge u v).1.hasVertex x = true ↔ x = v ∨ x = u ∨ g.hasVertex x = true := by
  have ends : ((g.addVertex u).addVertex v).hasVertex x = true ↔
      x = v ∨ x = u ∨ g.hasVertex x = true := by
    rw [hasVertex_addVertex, hasVertex_addVertex]
  unfold addEdge
  dsimp only
  split
  · exact ends
  · split
    · rw [hasVertex_put, hasVertex_put, ends, or_left_comm (a := x = u), or_self_left,
        or_left_comm (a := x = u), or_self_left, or_left_comm]
    · rw [hasVertex_put, ends, or_left_comm, or_self_left]

/-- The set of the first end tells whether an edge is new. -/
theorem addEdge_new_iff : (g.addEdge u v).2 = true ↔ u ≠ v ∧ g.adjacent u v = false := by
  unfold addEdge
  dsimp only
  split
  · next e => exact iff_of_false (fun h => by cases h) fun h => h.1 e
  · next ne =>
    have grows : ((((g.addVertex u).addVertex v).neighbors u).add v).2 = true ↔
        g.adjacent u v = false := by
      rw [OrdSet.add_grows_iff, neighbors_addVertex, neighbors_addVertex, adjacent,
        decide_eq_false_iff_not]
    split
    · next new => exact iff_of_true rfl ⟨ne, grows.1 new⟩
    · next old => exact iff_of_false (fun h => by cases h) fun h => old (grows.2 h.2)

/-- Taking `v` out of the sets of vertices that are there, one after the other. -/
theorem exists_foldlM_detach (us : List Int) (there : ∀ u ∈ us, g.hasVertex u = true) :
    ∃ g', us.foldlM (detach v) g = .ok g' ∧ ∀ x, g'.sets.get? x =
      if x ∈ us then (g.sets.get? x).map (·.erase v) else g.sets.get? x := by
  induction us generalizing g with
  | nil => exact ⟨g, rfl, fun x => rfl⟩
  | cons u us ih =>
    obtain ⟨here, others⟩ := List.forall_mem_cons.1 there
    obtain ⟨s, found⟩ := Option.isSome_iff_exists.1 here
    have step : detach v g u = .ok (g.put u (s.erase v)) := by rw [detach, found]
    obtain ⟨g', run, sets⟩ := ih (g := g.put u (s.erase v)) fun w hw =>
      hasVertex_put.2 (.inr (others w hw))
    refine ⟨g', by rw [List.foldlM_cons, step]; exact run, fun x => ?_⟩
    rw [sets, put, OrdMap.get?_insert]
    by_cases e : x = u
    · subst e
      have twice : (s.erase v).erase v = s.erase v := OrdSet.ext_mem fun y => by simp
      simp [found, twice]
    · simp [e]

/-! ## Simple graphs -/

/-- No vertex is its own neighbour, and each is a neighbour of its neighbours. -/
structure Simple (g : Adjacency) : Prop where
  irrefl : ∀ v, ¬ v ∈ g.neighbors v
  symm : ∀ {u v}, v ∈ g.neighbors u → u ∈ g.neighbors v

namespace Simple

theorem hasVertex (h : g.Simple) (hu : u ∈ g.neighbors v) : g.hasVertex u = true :=
  hasVertex_of_mem_neighbors (h.symm hu)

theorem empty : Adjacency.empty.Simple where
  irrefl := OrdSet.not_mem_empty
  symm {_ v} mem := absurd mem (OrdSet.not_mem_empty v)

theorem addVertex (h : g.Simple) (v : Int) : (g.addVertex v).Simple where
  irrefl x := by
    rw [neighbors_addVertex]
    exact h.irrefl x
  symm {x y} mem := by
    rw [neighbors_addVertex] at mem ⊢
    exact h.symm mem

/-- Either the sets of both ends have the edge, or neither has it and both get it. -/
theorem mem_neighbors_addEdge (h : g.Simple) : y ∈ (g.addEdge u v).1.neighbors x ↔
    (u ≠ v ∧ (x = u ∧ y = v ∨ x = v ∧ y = u)) ∨ y ∈ g.neighbors x := by
  have plain (x : Int) : ((g.addVertex u).addVertex v).neighbors x = g.neighbors x := by
    rw [neighbors_addVertex, neighbors_addVertex]
  unfold Adjacency.addEdge
  dsimp only
  split
  · next e =>
    rw [plain]
    exact (or_iff_right fun new => new.1 e).symm
  · next ne =>
    split
    · rw [neighbors_put, neighbors_put, neighbors_put, if_neg (Ne.symm ne), plain, plain, plain]
      by_cases ev : x = v
      · subst ev
        simp [ne, Ne.symm ne]
      · by_cases eu : x = u
        · subst eu
          simp [OrdSet.add, ne]
        · simp [ev, eu]
    · next old =>
      rw [OrdSet.add_grows_iff, plain, Classical.not_not] at old
      have same : ((g.neighbors u).add v).1 = g.neighbors u := OrdSet.insert_eq_self old
      have unchanged : y ∈ (((g.addVertex u).addVertex v).put u
          ((((g.addVertex u).addVertex v).neighbors u).add v).1).neighbors x ↔
          y ∈ g.neighbors x := by
        rw [neighbors_put, plain, plain, same]
        split
        · next e => rw [e]
        · rfl
      rw [unchanged]
      refine (or_iff_right_of_imp fun both => ?_).symm
      rcases both.2 with ⟨rfl, rfl⟩ | ⟨rfl, rfl⟩
      · exact old
      · exact h.symm old

theorem addEdge (h : g.Simple) (u v : Int) : (g.addEdge u v).1.Simple where
  irrefl x mem := by
    rcases h.mem_neighbors_addEdge.1 mem with ⟨ne, ⟨rfl, e⟩ | ⟨rfl, e⟩⟩ | old
    · exact ne e
    · exact ne e.symm
    · exact h.irrefl x old
  symm {x y} mem := by
    rw [h.mem_neighbors_addEdge] at mem ⊢
    rcases mem with ⟨ne, ⟨rfl, rfl⟩ | ⟨rfl, rfl⟩⟩ | old
    · exact .inl ⟨ne, .inr ⟨rfl, rfl⟩⟩
    · exact .inl ⟨ne, .inl ⟨rfl, rfl⟩⟩
    · exact .inr (h.symm old)

/-- A vertex stands in the sets of its neighbours only. -/
theorem map_erase (h : g.Simple) (other : ¬ x ∈ g.neighbors v) :
    (g.sets.get? x).map (·.erase v) = g.sets.get? x := by
  cases found : g.sets.get? x with
  | none => rfl
  | some s =>
    refine congrArg some (OrdSet.ext_mem fun y => ?_)
    rw [OrdSet.mem_erase]
    refine and_iff_left_of_imp fun hy e => other (h.symm ?_)
    rw [neighbors, found]
    exact e ▸ hy

/-- Every neighbour has a set to take the vertex out of, and no other set has it. -/
theorem exists_removeVertex (h : g.Simple) (v : Int) :
    ∃ g', g.removeVertex v = .ok g' ∧ ∀ x, g'.sets.get? x =
      if x = v then none else (g.sets.get? x).map (·.erase v) := by
  unfold Adjacency.removeVertex
  split
  · next none =>
    refine ⟨g, rfl, fun x => ?_⟩
    split
    · next e => rw [e, none]
    · refine (h.map_erase ?_).symm
      rw [neighbors, none]
      exact OrdSet.not_mem_empty x
  · next s found =>
    have mine : g.neighbors v = s := by rw [neighbors, found]; rfl
    obtain ⟨g', run, sets⟩ := exists_foldlM_detach (g := g) (v := v) s.toList fun u hu =>
      h.hasVertex (mine ▸ hu)
    refine ⟨⟨g'.sets.filterKeys (· ≠ v)⟩, by rw [run]; rfl, fun x => ?_⟩
    rw [OrdMap.get?_filterKeys, sets]
    by_cases e : x = v
    · simp [e]
    · rw [if_pos (by simpa using e), if_neg e]
      split
      · rfl
      · next other => exact (h.map_erase (mine ▸ other)).symm

theorem removeVertex_ne_error (h : g.Simple) (v : Int) {e : Fault} :
    g.removeVertex v ≠ .error e := by
  intro failed
  obtain ⟨g', run, -⟩ := h.exists_removeVertex v
  cases run.symm.trans failed

section Removed

variable {g' : Adjacency}

theorem mem_neighbors_removeVertex (h : g.Simple) (removed : g.removeVertex v = .ok g') :
    y ∈ g'.neighbors x ↔ y ∈ g.neighbors x ∧ x ≠ v ∧ y ≠ v := by
  obtain ⟨g'', run, sets⟩ := h.exists_removeVertex v
  cases removed.symm.trans run
  rw [neighbors, sets, neighbors]
  by_cases e : x = v
  · simp [e]
  · cases g.sets.get? x with
    | none => simp
    | some s => simp [e]

theorem hasVertex_removeVertex (h : g.Simple) (removed : g.removeVertex v = .ok g') :
    g'.hasVertex x = true ↔ g.hasVertex x = true ∧ x ≠ v := by
  obtain ⟨g'', run, sets⟩ := h.exists_removeVertex v
  cases removed.symm.trans run
  rw [Adjacency.hasVertex, OrdMap.contains, sets, Adjacency.hasVertex, OrdMap.contains]
  by_cases e : x = v
  · simp [e]
  · simp [e]

theorem removeVertex (h : g.Simple) (removed : g.removeVertex v = .ok g') : g'.Simple where
  irrefl x mem := h.irrefl x ((h.mem_neighbors_removeVertex removed).1 mem).1
  symm {x y} mem := by
    rw [h.mem_neighbors_removeVertex removed] at mem ⊢
    exact ⟨h.symm mem.1, mem.2.2, mem.2.1⟩

end Removed

end Simple

/-- A copy answers as its original does. -/
theorem clone_eq (g : Adjacency) : g.clone = g := by
  obtain ⟨entries, increasing⟩ := g
  have same : entries.map (fun e => (e.1, e.2.copy)) = entries := by
    simp only [OrdSet.copy_eq, List.map_id']
  simp only [clone, OrdMap.map, same]

/-! ## Vertices and adjacency -/

theorem mem_vertices : v ∈ g.vertices ↔ g.hasVertex v = true := by
  rw [vertices, OrdSet.mem_ofList]
  simp [hasVertex, OrdMap.contains, OrdMap.get?, OrdMap.keys, List.find?_isSome]

theorem toList_vertices (g : Adjacency) : g.vertices.toList = g.sets.keys := by
  have increasing : g.sets.keys.Pairwise (fun u v => compare u v = .lt) :=
    List.pairwise_map.2 g.sets.increasing
  have same : g.vertices = ⟨g.sets.keys, increasing⟩ := OrdSet.ext_mem fun _ => OrdSet.mem_ofList
  rw [same]

theorem order_eq_size (g : Adjacency) : g.order = g.vertices.size := by
  rw [OrdSet.size, toList_vertices]
  exact (List.length_map ..).symm

theorem mem_vertices_addVertex : x ∈ (g.addVertex v).vertices ↔ x = v ∨ x ∈ g.vertices := by
  rw [mem_vertices, mem_vertices, hasVertex_addVertex]

theorem mem_vertices_addEdge :
    x ∈ (g.addEdge u v).1.vertices ↔ x = v ∨ x = u ∨ x ∈ g.vertices := by
  rw [mem_vertices, mem_vertices, hasVertex_addEdge]

theorem adjacent_iff : g.adjacent u v = true ↔ v ∈ g.neighbors u := decide_eq_true_iff

theorem adjacent_addVertex : (g.addVertex v).adjacent x y = g.adjacent x y := by
  rw [adjacent, neighbors_addVertex, adjacent]

namespace Simple

variable {g' : Adjacency}

theorem mem_vertices_removeVertex (h : g.Simple) (removed : g.removeVertex v = .ok g') :
    x ∈ g'.vertices ↔ x ∈ g.vertices ∧ x ≠ v := by
  rw [mem_vertices, mem_vertices, h.hasVertex_removeVertex removed]

theorem adjacent_comm (h : g.Simple) : g.adjacent u v = g.adjacent v u := by
  rw [Bool.eq_iff_iff, adjacent_iff, adjacent_iff]
  exact ⟨h.symm, h.symm⟩

theorem adjacent_self (h : g.Simple) (v : Int) : g.adjacent v v = false :=
  decide_eq_false (h.irrefl v)

theorem adjacent_addEdge (h : g.Simple) : (g.addEdge u v).1.adjacent x y = true ↔
    (u ≠ v ∧ (x = u ∧ y = v ∨ x = v ∧ y = u)) ∨ g.adjacent x y = true := by
  rw [adjacent_iff, adjacent_iff, h.mem_neighbors_addEdge]

theorem adjacent_removeVertex (h : g.Simple) (removed : g.removeVertex v = .ok g') :
    g'.adjacent x y = true ↔ g.adjacent x y = true ∧ x ≠ v ∧ y ≠ v := by
  rw [adjacent_iff, adjacent_iff, h.mem_neighbors_removeVertex removed]

end Simple

end Adjacency

end RegColor
