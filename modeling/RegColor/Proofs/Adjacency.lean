import RegColor.Adjacency
import RegColor.Proofs.Data

/-!
# Simple graphs under any calls

Neighbour sets start out simple, and every call keeps them so. `Adjacency.Call` is such a call,
`Adjacency.Action` one that is made on one of several graphs, or the copying of one of them. A graph
has a history: the calls made on it, and before them those made on the graph it was copied from.
`Adjacency.Records` says that a graph is simple, and tells its vertices and its edges from its
history: something is there if it was added and has not been removed since (`Since`). One call
succeeds and keeps this (`Records.apply`), hence so does every sequence of actions
(`exists_graphs`).

All other answers of simple neighbour sets agree with each other. The main one is about counting:

* `length_edges`: the walk through the sets meets an edge at its smaller end;
* `total_lower`: as many neighbours stand below a vertex as above one, taken over all vertices;
* `total_degree`, `edgeCount_eq_length`: so the sets together have each edge twice;
* `graphs_simple`: what every graph answers after any actions.
-/

namespace RegColor

/-! ## Histories -/

section Since

variable {α : Type} {p q : α → Prop} {h : List α} {c : α}

/-- An event for which `p` holds has happened, and none for which `q` holds since. -/
def Since (p q : α → Prop) (h : List α) : Prop :=
  ∃ before c after, h = before ++ c :: after ∧ p c ∧ ∀ d ∈ after, ¬q d

theorem not_since_nil : ¬Since p q [] := by
  rintro ⟨before, c, after, split, -⟩
  exact List.append_ne_nil_of_right_ne_nil before (List.cons_ne_nil c after) split.symm

theorem since_concat : Since p q (h ++ [c]) ↔ p c ∨ Since p q h ∧ ¬q c := by
  constructor
  · rintro ⟨before, d, after, split, holds, none⟩
    rcases List.eq_nil_or_concat after with rfl | ⟨after, e, rfl⟩
    · obtain ⟨-, last⟩ := List.append_inj' split rfl
      cases last
      exact .inl holds
    · rw [List.concat_eq_append, ← List.cons_append, ← List.append_assoc] at split
      obtain ⟨first, last⟩ := List.append_inj' split rfl
      cases last
      obtain ⟨others, here⟩ := List.forall_mem_append.1 (List.concat_eq_append ▸ none)
      exact .inr ⟨⟨before, d, after, first, holds, others⟩, here c (List.mem_singleton_self c)⟩
  · rintro (holds | ⟨⟨before, d, after, rfl, holds, none⟩, here⟩)
    · exact ⟨h, c, [], rfl, holds, List.forall_mem_nil _⟩
    · refine ⟨before, d, after ++ [c], by simp, holds, ?_⟩
      exact List.forall_mem_append.2 ⟨none, List.forall_mem_singleton.2 here⟩

end Since

/-! ## Counting -/

section Counting

variable {α β : Type}

theorem length_flatMap_eq_total {f : α → List β} {xs : List α} :
    (xs.flatMap f).length = total (fun x => (f x).length) xs := by
  induction xs with
  | nil => rfl
  | cons x xs ih => rw [List.flatMap_cons, List.length_append, ih, total_cons]

theorem total_add {w v : α → Nat} {xs : List α} :
    total (fun x => w x + v x) xs = total w xs + total v xs := by
  induction xs with
  | nil => rfl
  | cons x xs ih =>
    rw [total_cons, total_cons, total_cons, ih]
    omega

/-- Members of a set can be counted in any set that it is part of. -/
theorem OrdSet.countP_of_subset [Ord α] [Std.LawfulEqOrd α] [DecidableEq α] {s t : OrdSet α}
    (sub : ∀ a ∈ s, a ∈ t) (p : α → Bool) :
    s.toList.countP p = t.toList.countP fun a => a ∈ s && p a := by
  rw [List.countP_eq_length_filter, List.countP_eq_length_filter]
  refine ((List.perm_ext_iff_of_nodup (s.nodup_toList.filter _) (t.nodup_toList.filter _)).2
    fun a => ?_).length_eq
  rw [List.mem_filter, List.mem_filter, Bool.and_eq_true, decide_eq_true_iff]
  exact ⟨fun h => ⟨sub a h.1, h⟩, fun h => h.2⟩

/-- Pairs are counted the same from either side. -/
theorem total_countP_comm (p : α → β → Bool) (xs : List α) (ys : List β) :
    total (fun x => ys.countP (p x)) xs = total (fun y => xs.countP (p · y)) ys := by
  induction xs with
  | nil =>
    induction ys with
    | nil => rfl
    | cons y ys ih => rw [total_cons, ← ih]; rfl
  | cons x xs ih =>
    rw [total_cons, ih]
    clear ih
    induction ys with
    | nil => rfl
    | cons y ys ih =>
      rw [total_cons, total_cons, ← ih, List.countP_cons, List.countP_cons]
      omega

end Counting

namespace Adjacency

variable {g g' : Adjacency} {u v w x y : Int}

/-! ## Edges -/

theorem mem_edges : (u, v) ∈ g.edges ↔ u < v ∧ g.adjacent u v = true := by
  have vertex (h : v ∈ g.neighbors u) : u ∈ g.vertices.toList :=
    mem_vertices.2 (hasVertex_of_mem_neighbors h)
  rw [adjacent_iff]
  simp only [edges, List.mem_flatMap, List.mem_map, List.mem_filter, Prod.mk.injEq,
    decide_eq_true_eq]
  constructor
  · intro given
    rcases given with ⟨w, -, x, ⟨hx, lt⟩, rfl, rfl⟩
    exact ⟨lt, hx⟩
  · intro given
    rcases given with ⟨lt, hv⟩
    exact ⟨u, vertex hv, v, ⟨hv, lt⟩, rfl, rfl⟩

/-- Vertices are walked through in order, and so are the neighbours of each. -/
theorem pairwise_edges (g : Adjacency) :
    g.edges.Pairwise fun e e' => e.1 < e'.1 ∨ e.1 = e'.1 ∧ e.2 < e'.2 := by
  refine List.pairwise_flatMap.2 ⟨fun u _ => ?_, g.vertices.increasing.imp fun lt e he e' he' => ?_⟩
  · refine List.pairwise_map.2 (((g.neighbors u).increasing.filter _).imp fun lt => ?_)
    exact .inr ⟨rfl, Int.compare_eq_lt.1 lt⟩
  · obtain ⟨v, -, rfl⟩ := List.mem_map.1 he
    obtain ⟨v', -, rfl⟩ := List.mem_map.1 he'
    exact .inl (Int.compare_eq_lt.1 lt)

theorem nodup_edges (g : Adjacency) : g.edges.Nodup :=
  g.pairwise_edges.imp fun lt same => by
    subst same
    omega

/-! ## Degrees -/

/-- The number of neighbours above a vertex. -/
def upper (g : Adjacency) (u : Int) : Nat := (g.neighbors u).toList.countP (u < ·)

/-- The number of neighbours below a vertex. -/
def lower (g : Adjacency) (u : Int) : Nat := (g.neighbors u).toList.countP (· < u)

theorem length_edges (g : Adjacency) : g.edges.length = total g.upper g.vertices.toList := by
  rw [edges, length_flatMap_eq_total]
  refine total_congr fun u _ => ?_
  rw [List.length_map, upper, List.countP_eq_length_filter]

theorem Simple.degree_eq (h : g.Simple) (u : Int) : g.degree u = g.upper u + g.lower u := by
  rw [degree, OrdSet.size, upper, lower,
    List.length_eq_countP_add_countP (fun v => decide (u < v))]
  refine congrArg _ (List.countP_congr fun v hv => ?_)
  have ne : v ≠ u := fun e => h.irrefl u (e ▸ hv)
  simp only [decide_eq_true_eq]
  omega

/-- A pair of neighbours is met below one of them and above the other. -/
theorem Simple.total_lower (h : g.Simple) :
    total g.lower g.vertices.toList = total g.upper g.vertices.toList := by
  have inside (u : Int) : ∀ v ∈ g.neighbors u, v ∈ g.vertices := fun v hv =>
    mem_vertices.2 (h.hasVertex hv)
  calc total g.lower g.vertices.toList
      = total (fun u => g.vertices.toList.countP fun v => v ∈ g.neighbors u && v < u)
          g.vertices.toList := total_congr fun u _ => OrdSet.countP_of_subset (inside u) _
    _ = total (fun v => g.vertices.toList.countP fun u => v ∈ g.neighbors u && v < u)
          g.vertices.toList := total_countP_comm ..
    _ = total g.upper g.vertices.toList := total_congr fun v _ => by
        rw [upper, OrdSet.countP_of_subset (inside v)]
        refine List.countP_congr fun u _ => ?_
        simp only [Bool.and_eq_true, decide_eq_true_eq]
        exact and_congr_left fun _ => ⟨h.symm, h.symm⟩

theorem Simple.total_degree (h : g.Simple) :
    total g.degree g.vertices.toList = 2 * g.edges.length := by
  rw [total_congr fun u _ => h.degree_eq u, total_add, h.total_lower, length_edges]
  omega

/-- The sets together have as many members as there are degrees. -/
theorem edgeCount_eq_half (g : Adjacency) :
    g.edgeCount = total g.degree g.vertices.toList / 2 := by
  have sizes : total OrdSet.size g.sets.values = total g.degree g.vertices.toList := by
    rw [toList_vertices, OrdMap.values, OrdMap.keys, total_map, total_map]
    refine total_congr fun e he => ?_
    rw [degree, neighbors, OrdMap.get?_eq_some_iff.2 he]
    rfl
  rw [edgeCount, foldl_add_eq_total, Nat.zero_add, sizes]

theorem Simple.edgeCount_eq_length (h : g.Simple) : g.edgeCount = g.edges.length := by
  rw [edgeCount_eq_half, h.total_degree]
  omega

theorem Simple.mem_edges_addEdge (h : g.Simple) {e : Int × Int} : e ∈ (g.addEdge u v).1.edges ↔
    (e.1 < e.2 ∧ u ≠ v ∧ (e.1 = u ∧ e.2 = v ∨ e.1 = v ∧ e.2 = u)) ∨ e ∈ g.edges := by
  rw [mem_edges (u := e.1), mem_edges (u := e.1), h.adjacent_addEdge, and_or_left]

/-- What tells that an edge is new tells that there is one edge more. -/
theorem Simple.edgeCount_addEdge (h : g.Simple) (u v : Int) :
    (g.addEdge u v).1.edgeCount = g.edgeCount + if (g.addEdge u v).2 then 1 else 0 := by
  rw [(h.addEdge u v).edgeCount_eq_length, h.edgeCount_eq_length]
  split
  · next new =>
    obtain ⟨ne, apart⟩ := addEdge_new_iff.1 new
    obtain ⟨lo, hi, lt, ends⟩ : ∃ lo hi, lo < hi ∧ (lo = u ∧ hi = v ∨ lo = v ∧ hi = u) := by
      rcases Int.lt_or_gt_of_ne ne with lt | lt
      · exact ⟨u, v, lt, .inl ⟨rfl, rfl⟩⟩
      · exact ⟨v, u, lt, .inr ⟨rfl, rfl⟩⟩
    have fresh : (lo, hi) ∉ g.edges := fun old => by
      have adj := adjacent_iff.1 (mem_edges.1 old).2
      refine of_decide_eq_false apart ?_
      rcases ends with ⟨rfl, rfl⟩ | ⟨rfl, rfl⟩
      · exact adj
      · exact h.symm adj
    refine ((List.perm_ext_iff_of_nodup (nodup_edges _)
      (List.nodup_cons.2 ⟨fresh, g.nodup_edges⟩)).2 fun e => ?_).length_eq
    rw [h.mem_edges_addEdge, List.mem_cons, Prod.ext_iff]
    refine or_congr_left ?_
    dsimp only
    omega
  · next old =>
    refine ((List.perm_ext_iff_of_nodup (nodup_edges _) g.nodup_edges).2 fun e => ?_).length_eq
    rw [h.mem_edges_addEdge]
    refine or_iff_right_of_imp fun ⟨lt, ne, ends⟩ => ?_
    have adj : v ∈ g.neighbors u := by
      by_contra apart
      exact old (addEdge_new_iff.2 ⟨ne, decide_eq_false apart⟩)
    refine mem_edges.2 ⟨lt, adjacent_iff.2 ?_⟩
    rcases ends with ⟨same, same'⟩ | ⟨same, same'⟩
    · rwa [same, same']
    · rw [same, same']
      exact h.symm adj

/-! ## Calls and actions -/

/-- A call that changes a graph. -/
inductive Call where
  | vertex (v : Int)
  | edge (u v : Int)
  | remove (v : Int)
deriving DecidableEq, Repr

namespace Call

/-- The call puts `v` into a graph. -/
def Adds (v : Int) : Call → Prop
  | vertex w => w = v
  | edge x y => x = v ∨ y = v
  | remove _ => False

/-- The call asks for an edge between `u` and `v`. -/
def Joins (u v : Int) : Call → Prop
  | vertex _ => False
  | edge x y => x = u ∧ y = v ∨ x = v ∧ y = u
  | remove _ => False

end Call

/-- What a call makes of a graph. -/
def apply (g : Adjacency) : Call → Except Fault Adjacency
  | .vertex v => .ok (g.addVertex v)
  | .edge u v => .ok (g.addEdge u v).1
  | .remove v => g.removeVertex v

/-- A call on the graph at a position, or the copying of that graph to a position of its own. -/
inductive Action where
  | call (k : Nat) (c : Call)
  | clone (k : Nat)
deriving DecidableEq, Repr

/-- What an action makes of graphs. -/
def act (gs : List Adjacency) : Action → Except Fault (List Adjacency)
  | .call k c =>
    match gs[k]? with
    | some g => (g.apply c).map (gs.set k)
    | none => .ok gs
  | .clone k => .ok (gs ++ gs[k]?.toList.map clone)

/-- What an action adds to the calls made on each graph. -/
def record (hs : List (List Call)) : Action → List (List Call)
  | .call k c =>
    match hs[k]? with
    | some h => hs.set k (h ++ [c])
    | none => hs
  | .clone k => hs ++ hs[k]?.toList

/-- The graphs that actions make of an empty one. -/
def graphs (actions : List Action) : Except Fault (List Adjacency) := actions.foldlM act [empty]

/-- The calls made on each graph; a copy starts with those of its original. -/
def histories (actions : List Action) : List (List Call) := actions.foldl record [[]]

/-! ## What a graph records -/

/-- A graph is simple, and what is in it has been put there and not been taken out since. -/
structure Records (g : Adjacency) (h : List Call) : Prop where
  simple : g.Simple
  vertices : ∀ v, v ∈ g.vertices ↔ Since (Call.Adds v) (· = .remove v) h
  adjacent : ∀ u v, g.adjacent u v = true ↔
    u ≠ v ∧ Since (Call.Joins u v) (fun c => c = .remove u ∨ c = .remove v) h

theorem records_empty : Records empty [] where
  simple := .empty
  vertices v := iff_of_false (OrdSet.not_mem_empty v) not_since_nil
  adjacent u v := by
    refine iff_of_false (fun adj => ?_) fun later => not_since_nil later.2
    exact OrdSet.not_mem_empty v (adjacent_iff.1 adj)

theorem Records.vertex {h : List Call} (r : Records g h) (w : Int) :
    Records (g.addVertex w) (h ++ [.vertex w]) where
  simple := r.simple.addVertex w
  vertices v := by
    rw [since_concat, ← r.vertices, mem_vertices_addVertex]
    grind [Call.Adds]
  adjacent u v := by
    rw [since_concat, adjacent_addVertex, r.adjacent]
    simp [Call.Joins]

theorem Records.edge {h : List Call} (r : Records g h) (x y : Int) :
    Records (g.addEdge x y).1 (h ++ [.edge x y]) where
  simple := r.simple.addEdge x y
  vertices v := by
    rw [since_concat, ← r.vertices, mem_vertices_addEdge]
    grind [Call.Adds]
  adjacent u v := by
    rw [since_concat, r.simple.adjacent_addEdge, r.adjacent]
    grind [Call.Joins]

theorem Records.remove {h : List Call} (r : Records g h) (removed : g.removeVertex w = .ok g') :
    Records g' (h ++ [.remove w]) where
  simple := r.simple.removeVertex removed
  vertices v := by
    rw [since_concat, ← r.vertices, r.simple.mem_vertices_removeVertex removed]
    grind [Call.Adds]
  adjacent u v := by
    rw [since_concat, r.simple.adjacent_removeVertex removed, r.adjacent]
    grind [Call.Joins]

/-- No call fails on a simple graph. -/
theorem Records.apply {h : List Call} (r : Records g h) (c : Call) :
    ∃ g', g.apply c = .ok g' ∧ Records g' (h ++ [c]) := by
  cases c with
  | vertex v => exact ⟨_, rfl, r.vertex v⟩
  | edge u v => exact ⟨_, rfl, r.edge u v⟩
  | remove v =>
    obtain ⟨g', removed, -⟩ := r.simple.exists_removeVertex v
    exact ⟨g', removed, r.remove removed⟩

/-- An action changes a graph and its history alike. -/
theorem exists_act {gs : List Adjacency} {hs : List (List Call)}
    (all : List.Forall₂ Records gs hs) (a : Action) :
    ∃ gs', act gs a = .ok gs' ∧ List.Forall₂ Records gs' (record hs a) := by
  cases a with
  | call k c =>
    have here := forall₂_getElem? all k
    unfold act record
    dsimp only
    generalize gs[k]? = g, hs[k]? = h at here ⊢
    cases here with
    | none => exact ⟨gs, rfl, all⟩
    | some r =>
      obtain ⟨g', applied, r'⟩ := r.apply c
      refine ⟨gs.set k g', ?_, forall₂_set all r' k⟩
      dsimp only
      rw [applied]
      rfl
  | clone k =>
    have here := forall₂_getElem? all k
    refine ⟨_, rfl, List.rel_append all ?_⟩
    generalize gs[k]? = g, hs[k]? = h at here ⊢
    cases here with
    | none => exact .nil
    | @some g h r => exact .cons (g.clone_eq.symm ▸ r) .nil

/-- All actions succeed, and every graph records its history. -/
theorem exists_graphs (actions : List Action) :
    ∃ gs, graphs actions = .ok gs ∧ List.Forall₂ Records gs (histories actions) := by
  unfold graphs histories
  have start : List.Forall₂ Records [empty] [[]] := .cons records_empty .nil
  generalize [empty] = gs, [[]] = hs at start
  induction actions generalizing gs hs with
  | nil => exact ⟨gs, rfl, start⟩
  | cons a actions ih =>
    obtain ⟨gs', acted, all⟩ := exists_act start a
    obtain ⟨gs'', done, final⟩ := ih gs' _ all
    refine ⟨gs'', ?_, final⟩
    rw [List.foldlM_cons, acted]
    exact done

/-- Any calls and copies succeed, and afterwards each graph holds what was put into it and not taken
out since, in its original or in itself. Its neighbour sets agree, have no loops and name vertices
only; adding an edge tells whether it is a new one; removing a vertex meets no missing set and takes
away the vertex and the edges at it; the edges are listed in order, each once, and their number is
half the sum of the degrees. -/
theorem graphs_simple (actions : List Action) :
    ∃ gs, graphs actions = .ok gs ∧ List.Forall₂ (fun (g : Adjacency) (h : List Call) =>
      (∀ v, v ∈ g.vertices ↔ Since (Call.Adds v) (· = .remove v) h) ∧
      (∀ u v, g.adjacent u v = true ↔
        u ≠ v ∧ Since (Call.Joins u v) (fun c => c = .remove u ∨ c = .remove v) h) ∧
      (∀ u v, g.adjacent u v = g.adjacent v u) ∧ (∀ v, g.adjacent v v = false) ∧
      (∀ u v, v ∈ g.neighbors u ↔ g.adjacent u v = true) ∧
      (∀ u, ∀ v ∈ g.neighbors u, v ∈ g.vertices) ∧
      (∀ u v, ((g.addEdge u v).2 = true ↔ u ≠ v ∧ g.adjacent u v = false) ∧
        (g.addEdge u v).1.edgeCount = g.edgeCount + (if (g.addEdge u v).2 then 1 else 0) ∧
        ∀ x y, (g.addEdge u v).1.adjacent x y = true ↔
          (u ≠ v ∧ (x = u ∧ y = v ∨ x = v ∧ y = u)) ∨ g.adjacent x y = true) ∧
      (∀ v, ∃ g', g.removeVertex v = .ok g' ∧ (∀ x, x ∈ g'.vertices ↔ x ∈ g.vertices ∧ x ≠ v) ∧
        ∀ x y, g'.adjacent x y = true ↔ g.adjacent x y = true ∧ x ≠ v ∧ y ≠ v) ∧
      g.clone = g ∧
      g.edges.Pairwise (fun e e' => e.1 < e'.1 ∨ e.1 = e'.1 ∧ e.2 < e'.2) ∧
      (∀ lo hi, (lo, hi) ∈ g.edges ↔ lo < hi ∧ g.adjacent lo hi = true) ∧
      g.edges.length = g.edgeCount ∧ 2 * g.edgeCount = total g.degree g.vertices.toList)
      gs (histories actions) := by
  obtain ⟨gs, made, all⟩ := exists_graphs actions
  refine ⟨gs, made, all.imp fun g h r => ?_⟩
  have simple := r.simple
  refine ⟨r.vertices, r.adjacent, fun u v => simple.adjacent_comm, simple.adjacent_self,
    fun u v => adjacent_iff.symm, fun u v hv => mem_vertices.2 (simple.hasVertex hv),
    fun u v => ⟨addEdge_new_iff, simple.edgeCount_addEdge u v, fun x y => simple.adjacent_addEdge⟩,
    fun v => ?_, g.clone_eq, g.pairwise_edges, fun lo hi => mem_edges,
    simple.edgeCount_eq_length.symm, ?_⟩
  · obtain ⟨g', removed, -⟩ := simple.exists_removeVertex v
    exact ⟨g', removed, fun x => simple.mem_vertices_removeVertex removed,
      fun x y => simple.adjacent_removeVertex removed⟩
  · rw [simple.edgeCount_eq_length, simple.total_degree]

/-- A graph loses the edges at a vertex, and its copy does not. -/
example : (graphs [.call 0 (.edge 2 1), .call 0 (.edge 1 2), .call 0 (.edge 2 3), .clone 0,
    .call 0 (.remove 1)]).map (List.map edges) = .ok [[(2, 3)], [(1, 2), (2, 3)]] := by
  decide +kernel

end Adjacency

end RegColor
