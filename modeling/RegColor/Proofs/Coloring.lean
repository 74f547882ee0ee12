import RegColor.Coloring
import RegColor.Proofs.Data

/-!
# Colors of neighbours differ

`Coloring.Proper` says that colors are below the number of colors and that neighbours have different
ones. Each vertex takes a color that no neighbour has at that moment, so an attempt keeps colors
proper (`proper_select`) and so does every sequence of attempts (`proper_color`), whichever vertices
are left without a color.

`Coloring.Accounts` says that a result accounts for each of some vertices once: it is colored or it
is spilled. An attempt that fails takes the vertex it spills out of the graph it works on, so the
vertices of that graph are what the attempts after it account for (`accounts_run`). `color_valid`
has both halves.
-/

namespace RegColor

namespace Graph

variable {g : Graph} {u v x y : Int} {vs : List Int}

theorem adjacent_comm : g.adjacent u v = g.adjacent v u := g.simple.adjacent_comm

theorem mem_neighbors : u ∈ g.neighbors v ↔ g.adjacent u v = true := by
  rw [adjacent_comm, Adjacency.adjacent_iff]

theorem adjacent_addEdge : (g.addEdge u v).adjacent x y = true ↔
    (u ≠ v ∧ (x = u ∧ y = v ∨ x = v ∧ y = u)) ∨ g.adjacent x y = true :=
  g.simple.adjacent_addEdge

/-- Joining one vertex to others. -/
theorem adjacent_foldl_addEdge : (vs.foldl (fun g u => g.addEdge v u) g).adjacent x y = true ↔
    g.adjacent x y = true ∨ (x ≠ y ∧ (x = v ∧ y ∈ vs ∨ y = v ∧ x ∈ vs)) := by
  induction vs generalizing g with
  | nil => simp
  | cons u us ih =>
    rw [List.foldl_cons, ih, adjacent_addEdge, List.mem_cons, List.mem_cons]
    grind

/-- A clique joins its members to one another and nothing else. -/
theorem adjacent_addClique : (g.addClique vs).adjacent x y = true ↔
    g.adjacent x y = true ∨ (x ≠ y ∧ x ∈ vs ∧ y ∈ vs) := by
  induction vs generalizing g with
  | nil => simp [addClique]
  | cons v vs ih =>
    rw [addClique, ih, adjacent_foldl_addEdge, List.mem_cons, List.mem_cons]
    grind

theorem vertices_addEdge (hu : u ∈ g.vertices) (hv : v ∈ g.vertices) :
    (g.addEdge u v).vertices = g.vertices := by
  refine OrdSet.ext_mem fun x => Adjacency.mem_vertices_addEdge.trans ?_
  grind

/-- A clique of vertices adds none. -/
theorem vertices_addClique (inside : ∀ v ∈ vs, v ∈ g.vertices) :
    (g.addClique vs).vertices = g.vertices := by
  have star (v : Int) (us : List Int) (g : Graph) (hv : v ∈ g.vertices)
      (inside : ∀ u ∈ us, u ∈ g.vertices) :
      (us.foldl (fun g u => g.addEdge v u) g).vertices = g.vertices := by
    induction us generalizing g with
    | nil => rfl
    | cons u us ih =>
      obtain ⟨hu, others⟩ := List.forall_mem_cons.1 inside
      have same : (g.addEdge v u).vertices = g.vertices := vertices_addEdge hv hu
      rw [List.foldl_cons, ih (g.addEdge v u) (same ▸ hv) (same ▸ others), same]
  induction vs generalizing g with
  | nil => rfl
  | cons v vs ih =>
    obtain ⟨hv, others⟩ := List.forall_mem_cons.1 inside
    have same := star v vs g hv others
    rw [addClique, ih (same.symm ▸ others), same]

end Graph

namespace Coloring

variable {g : Graph} {n : Nat} {colors : Colors}

/-- Colors are below `n`, and neighbours have different ones. -/
structure Proper (g : Graph) (n : Nat) (colors : Colors) : Prop where
  lt : ∀ v c, colors.get? v = some c → c < n
  ne : ∀ u v c, g.adjacent u v = true → colors.get? u = some c → colors.get? v ≠ some c

theorem proper_empty : Proper g n ∅ :=
  ⟨fun _ _ h => (nomatch h), fun _ _ _ _ h => (nomatch h)⟩

/-- A free color is one that no neighbour has. -/
theorem Proper.insert (h : Proper g n colors) {v : Int} {c : Nat}
    (free : free? g n colors v = some c) : Proper g n (colors.insert v c) := by
  have lt : c < n := List.mem_range.1 (List.mem_of_find?_eq_some free)
  have unused (u : Int) (adj : g.adjacent u v = true) : colors.get? u ≠ some c := fun hu => by
    have mem : c ∈ (g.neighbors v).toList.filterMap colors.get? :=
      List.mem_filterMap.2 ⟨u, Graph.mem_neighbors.2 adj, hu⟩
    have := List.find?_some free
    simp [mem] at this
  refine ⟨fun u k hu => ?_, fun u w k adj hu hw => ?_⟩
  · rw [OrdMap.get?_insert] at hu
    split at hu
    · cases hu
      exact lt
    · exact h.lt u k hu
  · rw [OrdMap.get?_insert] at hu hw
    split at hu
    · next eu =>
      subst eu
      cases hu
      split at hw
      · next ew =>
        subst ew
        rw [g.simple.adjacent_self] at adj
        cases adj
      · exact unused w (Graph.adjacent_comm ▸ adj) hw
    · split at hw
      · next ew =>
        subst ew
        cases hw
        exact unused u adj hu
      · exact h.ne u w k adj hu hw

theorem proper_select {vs : List Int} (h : Proper g n colors) :
    Proper g n (select g n vs colors).1 := by
  induction vs generalizing colors with
  | nil => exact h
  | cons v vs ih =>
    unfold select
    split
    · next c free => exact ih (h.insert free)
    · exact h

/-! ## Attempts -/

section Attempts

variable {cost : Int → Int} {work : Graph}

theorem run_of_done (h : attempt g n (order work cost n) = (colors, none)) :
    run g cost n work = ⟨colors, [], 1⟩ := by
  rw [run]
  split
  · next h' =>
    cases h.symm.trans h'
    rfl
  · next h' => cases h.symm.trans h'

theorem run_of_spill {v : Int} (h : attempt g n (order work cost n) = (colors, some v)) :
    run g cost n work =
      let r := run g cost n (work.removeVertex v)
      ⟨r.colors, v :: r.spilled, r.attempts + 1⟩ := by
  rw [run]
  split
  · next h' => cases h.symm.trans h'
  · next h' =>
    cases h.symm.trans h'
    rfl

theorem proper_run : Proper g n (run g cost n work).colors := by
  have attempted (stack : List Int) : Proper g n (attempt g n stack).1 :=
    proper_select proper_empty
  induction work using run.induct g cost n with
  | case1 work colors h =>
    rw [run_of_done h]
    have last := attempted (order work cost n)
    rwa [h] at last
  | case2 work colors v h ih =>
    rw [run_of_spill h]
    exact ih

/-- An attempt that gets to the end has colored the whole stack. -/
theorem isSome_get?_select {vs : List Int} {colors' : Colors}
    (h : select g n vs colors = (colors', none)) {v : Int} :
    (colors'.get? v).isSome ↔ (colors.get? v).isSome ∨ v ∈ vs := by
  induction vs generalizing colors with
  | nil =>
    cases h
    simp
  | cons u us ih =>
    unfold select at h
    split at h
    · rw [ih h, OrdMap.get?_insert, List.mem_cons]
      by_cases e : v = u <;> simp [e]
    · cases h

/-- A result accounts for the vertices `vs`: each is colored or spilled and none is both, none is
spilled twice, and every spill has cost an attempt. -/
structure Accounts (vs : OrdSet Int) (r : Result) : Prop where
  nodup : r.spilled.Nodup
  apart : ∀ v ∈ r.spilled, r.colors.get? v = none
  all : ∀ v, v ∈ vs ↔ (r.colors.get? v).isSome ∨ v ∈ r.spilled
  attempts : r.attempts = r.spilled.length + 1

theorem Accounts.done {vs : OrdSet Int} (h : ∀ v, v ∈ vs ↔ (colors.get? v).isSome) :
    Accounts vs ⟨colors, [], 1⟩ where
  nodup := .nil
  apart _ hv := by cases hv
  all v := by simp [h v]
  attempts := rfl

/-- Spilling one more vertex. -/
theorem Accounts.spill {vs : OrdSet Int} {v : Int} {r : Result} (hv : v ∈ vs)
    (h : Accounts (vs.erase v) r) : Accounts vs ⟨r.colors, v :: r.spilled, r.attempts + 1⟩ := by
  have gone : ¬ ((r.colors.get? v).isSome ∨ v ∈ r.spilled) := fun mem =>
    (OrdSet.mem_erase.1 ((h.all v).2 mem)).2 rfl
  rw [not_or, Bool.not_eq_true, Option.isSome_eq_false_iff, Option.isNone_iff_eq_none] at gone
  refine ⟨List.nodup_cons.2 ⟨gone.2, h.nodup⟩, fun u hu => ?_, fun u => ?_, ?_⟩
  · rcases List.mem_cons.1 hu with rfl | hu
    · exact gone.1
    · exact h.apart u hu
  · have others := h.all u
    rw [OrdSet.mem_erase] at others
    show u ∈ vs ↔ _ ∨ u ∈ v :: r.spilled
    rw [List.mem_cons, or_left_comm, ← others]
    by_cases e : u = v
    · simp [e, hv]
    · simp [e]
  · simp [h.attempts]

theorem accounts_run : Accounts work.vertices (run g cost n work) := by
  induction work using run.induct g cost n with
  | case1 work colors h =>
    rw [run_of_done h]
    refine .done fun v => ?_
    rw [isSome_get?_select h, List.mem_reverse, mem_order]
    simp
  | case2 work colors v h ih =>
    rw [run_of_spill h]
    rw [Graph.vertices_removeVertex] at ih
    exact .spill (mem_of_attempt (by rw [h])) ih

end Attempts

theorem color_eq_run (g : Graph) (cost : Int → Int) (n : Int) :
    color g cost n = run g cost n.toNat g := by
  rw [color, Graph.clone_eq]

/-- Neighbours are never given the same color. -/
theorem proper_color (g : Graph) (cost : Int → Int) (n : Int) :
    Proper g n.toNat (color g cost n).colors :=
  proper_run

theorem accounts_color (g : Graph) (cost : Int → Int) (n : Int) :
    Accounts g.vertices (color g cost n) := by
  rw [color_eq_run]
  exact accounts_run

/-- Coloring comes to an end, and its result is valid and complete: colors are below the number of
colors, the ends of an edge have different ones, the colored vertices and the spilled ones are apart
and together all vertices, no vertex is spilled twice, and there is one attempt more than there are
spills, so never more than one for each vertex and a last one. -/
theorem color_valid (g : Graph) (cost : Int → Int) (n : Int) :
    let r := color g cost n
    (∀ v c, r.colors.get? v = some c → (c : Int) < max n 0) ∧
      (∀ u v c d, g.adjacent u v = true → r.colors.get? u = some c → r.colors.get? v = some d →
        c ≠ d) ∧
      (∀ v ∈ r.colors.keys, v ∉ r.spilled) ∧ r.spilled.Nodup ∧
      (∀ v, v ∈ g.vertices ↔ v ∈ r.colors.keys ∨ v ∈ r.spilled) ∧
      r.attempts = r.spilled.length + 1 ∧ r.attempts ≤ g.order + 1 := by
  intro r
  have proper := proper_color g cost n
  have accounts : Accounts g.vertices r := accounts_color g cost n
  have few : r.spilled.length ≤ g.order := by
    rw [Adjacency.order_eq_size]
    exact (List.subperm_of_subset accounts.nodup fun v hv =>
      (accounts.all v).2 (.inr hv)).length_le
  refine ⟨fun v c hc => ?_, fun u v c d adj hc hd e => ?_, fun v hv mem => ?_, accounts.nodup,
    fun v => ?_, accounts.attempts, ?_⟩
  · have := proper.lt v c hc
    omega
  · exact proper.ne u v c adj hc (e ▸ hd)
  · rw [OrdMap.mem_keys_iff, accounts.apart v mem] at hv
    cases hv
  · rw [OrdMap.mem_keys_iff]
    exact accounts.all v
  · rw [accounts.attempts]
    exact Nat.succ_le_succ few

end Coloring

end RegColor
