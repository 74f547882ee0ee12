import RegColor.Proofs.Coloring

/-!
# Which vertices are spilled

A vertex is spilled when every color is taken by a colored neighbour. Neighbours of different colors
are different, and only vertices of the working graph are ever colored, so there are at least as many
of them as there are colors, none of them spilled before (`le_size_of_attempt`, `le_size_of_run`).

A vertex that is spilled never has a color, so it takes none away from the vertices that are left:
an attempt sees no more of the graph than the edges between the vertices it stacks
(`select_congr`). `run_of_rest` follows from this: coloring what is left, by itself, is the last
attempt over again.
-/

namespace RegColor

namespace Graph

variable {g work : Graph} {u v w : Int}

/-- Removing a vertex removes the edges at it and no others. -/
theorem adjacent_removeVertex : (g.removeVertex w).adjacent u v = true ↔
    g.adjacent u v = true ∧ u ≠ w ∧ v ≠ w :=
  g.simple.adjacent_removeVertex (g.removeVertex_eq_ok w)

theorem get?_removeVertex (g : Graph) (v x : Int) : (g.removeVertex v).sets.get? x =
    if x = v then none else (g.sets.get? x).map (·.erase v) := by
  obtain ⟨rest, removed, sets⟩ := g.simple.exists_removeVertex v
  cases removed.symm.trans (g.removeVertex_eq_ok v)
  exact sets x

/-- Vertices can be removed in any order. -/
theorem removeVertex_comm (g : Graph) (u v : Int) :
    (g.removeVertex u).removeVertex v = (g.removeVertex v).removeVertex u := by
  have erased (s : OrdSet Int) : (s.erase u).erase v = (s.erase v).erase u :=
    OrdSet.ext_mem fun x => by simp only [OrdSet.mem_erase, and_right_comm]
  have sets : ((g.removeVertex u).removeVertex v).sets =
      ((g.removeVertex v).removeVertex u).sets := by
    refine OrdMap.ext_get? fun x => ?_
    rw [get?_removeVertex, get?_removeVertex, get?_removeVertex, get?_removeVertex]
    cases g.sets.get? x with
    | none => simp
    | some s =>
      by_cases eu : x = u
      · simp [eu]
      · by_cases ev : x = v <;> simp [eu, ev, erased]
  generalize (g.removeVertex u).removeVertex v = h, (g.removeVertex v).removeVertex u = h' at sets ⊢
  rcases h with ⟨⟨sets⟩, _⟩
  cases sets
  rfl

/-- The edges of a graph are those of another between its own vertices. -/
def Induced (work g : Graph) : Prop :=
  ∀ u ∈ work.vertices, ∀ v ∈ work.vertices, work.adjacent u v = g.adjacent u v

theorem Induced.refl (g : Graph) : Induced g g := fun _ _ _ _ => rfl

theorem Induced.removeVertex (h : Induced work g) (w : Int) : Induced (work.removeVertex w) g := by
  intro u hu v hv
  rw [vertices_removeVertex] at hu hv
  obtain ⟨hu, neu⟩ := OrdSet.mem_erase.1 hu
  obtain ⟨hv, nev⟩ := OrdSet.mem_erase.1 hv
  rw [← h u hu v hv, Bool.eq_iff_iff, adjacent_removeVertex]
  exact and_iff_left ⟨neu, nev⟩

end Graph

namespace Coloring

variable {g g' work : Graph} {cost : Int → Int} {n : Nat} {colors colors' : Colors} {u v : Int}
  {vs : List Int}

/-! ## Vertices without a free color -/

/-- Neighbours of different colors are different, so there are as many as they have colors. -/
theorem le_size_of_taken {c : Nat} (taken : ∀ k < c, ∃ u ∈ g.neighbors v, colors.get? u = some k) :
    c ≤ ((g.neighbors v).filter fun u => (colors.get? u).isSome).size := by
  have all : ∀ k ∈ List.range c, k ∈ (g.neighbors v).toList.filterMap colors.get? :=
    fun k hk => List.mem_filterMap.2 (taken k (List.mem_range.1 hk))
  calc c = (List.range c).length := List.length_range.symm
    _ ≤ ((g.neighbors v).toList.filterMap colors.get?).length :=
        (List.subperm_of_subset List.nodup_range all).length_le
    _ = ((g.neighbors v).toList.filter fun u => (colors.get? u).isSome).length := by
        rw [List.length_filterMap_eq_countP, List.countP_eq_length_filter]

/-- Where no color is free, each is the color of some neighbour. -/
theorem le_size_of_free? (h : free? g n colors v = none) :
    n ≤ ((g.neighbors v).filter fun u => (colors.get? u).isSome).size := by
  refine le_size_of_taken fun c hc => ?_
  have := List.find?_eq_none.1 h c (List.mem_range.2 hc)
  simpa [OrdSet.mem_def] using this

/-- An attempt that stops has colored vertices of its stack, and has no color for the next one. -/
theorem free?_of_select (h : select g n vs colors = (colors', some v)) :
    free? g n colors' v = none ∧
      ∀ u, (colors'.get? u).isSome → (colors.get? u).isSome ∨ u ∈ vs := by
  induction vs generalizing colors with
  | nil => cases h
  | cons w ws ih =>
    unfold select at h
    split at h
    · obtain ⟨none, colored⟩ := ih h
      refine ⟨none, fun u hu => ?_⟩
      rw [List.mem_cons]
      rcases colored u hu with hu | hu
      · rw [OrdMap.get?_insert] at hu
        split at hu
        · next e => exact .inr (.inl e)
        · exact .inl hu
      · exact .inr (.inr hu)
    · next none =>
      cases h
      exact ⟨none, fun _ => .inl⟩

/-- A vertex that an attempt spills has as many neighbours in the working graph as there are
colors. -/
theorem le_size_of_attempt (h : attempt g n (order work cost n) = (colors, some v)) :
    n ≤ ((g.neighbors v).filter fun u => u ∈ work.vertices).size := by
  obtain ⟨none, colored⟩ := free?_of_select h
  refine Nat.le_trans (le_size_of_free? none) (OrdSet.size_le_of_subset fun u hu => ?_)
  obtain ⟨near, hu⟩ := OrdSet.mem_filter.1 hu
  refine OrdSet.mem_filter.2 ⟨near, decide_eq_true ?_⟩
  rcases colored u hu with hu | hu
  · cases hu
  · exact mem_order.1 (List.mem_reverse.1 hu)

/-- What the attempts spill from the working graph on: each vertex has neighbours enough among those
that are left when its turn comes. -/
theorem le_size_of_run {k : Nat} (h : (run g cost n work).spilled[k]? = some v) :
    n ≤ ((g.neighbors v).filter fun u =>
      u ∈ work.vertices ∧ u ∉ (run g cost n work).spilled.take k).size := by
  induction work using run.induct g cost n generalizing k with
  | case1 work colors done =>
    rw [run_of_done done] at h
    cases h
  | case2 work colors w spill ih =>
    rw [run_of_spill spill] at h ⊢
    cases k with
    | zero =>
      cases h
      refine Nat.le_trans (le_size_of_attempt spill) (OrdSet.size_le_of_subset fun u hu => ?_)
      simpa using hu
    | succ k =>
      refine Nat.le_trans (ih h) (OrdSet.size_le_of_subset fun u hu => ?_)
      -- What is left after `w` is left before it, and is not `w`.
      simp only [OrdSet.mem_filter, decide_eq_true_eq, Graph.vertices_removeVertex,
        OrdSet.mem_erase] at hu
      rcases hu with ⟨near, ⟨left, ne⟩, later⟩
      refine OrdSet.mem_filter.2 ⟨near, decide_eq_true ⟨left, ?_⟩⟩
      rw [List.take_succ_cons, List.mem_cons, not_or]
      exact ⟨ne, later⟩

/-- A spilled vertex has at least as many neighbours that are not spilled before it as there are
colors. So a vertex with fewer neighbours is not spilled, and if all vertices have fewer, one attempt
colors them all. -/
theorem color_spilled (g : Graph) (cost : Int → Int) (n : Int) :
    let r := color g cost n
    (∀ k v, r.spilled[k]? = some v →
        n ≤ ((g.neighbors v).filter fun u => u ∉ r.spilled.take k).size) ∧
      (∀ v, g.degree v < n → v ∉ r.spilled) ∧
      ((∀ v ∈ g.vertices, g.degree v < n) → r.spilled = [] ∧ r.attempts = 1) := by
  intro r
  have accounts : Accounts g.vertices r := accounts_color g cost n
  have enough (k : Nat) (v : Int) (hv : r.spilled[k]? = some v) :
      n ≤ ((g.neighbors v).filter fun u => u ∉ r.spilled.take k).size := by
    have left : n.toNat ≤ ((g.neighbors v).filter fun u => u ∉ r.spilled.take k).size := by
      refine Nat.le_trans (le_size_of_run hv) (OrdSet.size_le_of_subset fun u hu => ?_)
      simp only [OrdSet.mem_filter, decide_eq_true_eq] at hu ⊢
      exact ⟨hu.1, hu.2.2⟩
    omega
  have low (v : Int) (hv : g.degree v < n) : v ∉ r.spilled := by
    intro mem
    obtain ⟨k, hk⟩ := List.mem_iff_getElem?.1 mem
    have some := enough k v hk
    have all : ((g.neighbors v).filter fun u => u ∉ r.spilled.take k).size ≤ g.degree v :=
      OrdSet.size_le_of_subset fun u hu => (OrdSet.mem_filter.1 hu).1
    omega
  refine ⟨enough, low, fun all => ?_⟩
  have none : r.spilled = [] := List.eq_nil_iff_forall_not_mem.2 fun v mem =>
    low v (all v ((accounts.all v).2 (.inr mem))) mem
  exact ⟨none, by rw [accounts.attempts, none]; rfl⟩

/-! ## What is left -/

/-- A free color depends on the colored neighbours only. -/
theorem free?_congr (same : ∀ u, (colors.get? u).isSome → g.adjacent u v = g'.adjacent u v) :
    free? g n colors v = free? g' n colors v := by
  have taken (c : Nat) : c ∈ (g.neighbors v).toList.filterMap colors.get? ↔
      c ∈ (g'.neighbors v).toList.filterMap colors.get? := by
    rw [List.mem_filterMap, List.mem_filterMap]
    refine exists_congr fun u => and_congr_left fun hu => ?_
    rw [← OrdSet.mem_def, ← OrdSet.mem_def, Graph.mem_neighbors, Graph.mem_neighbors,
      same u (by rw [hu]; rfl)]
  refine congrArg (fun test => (List.range n).find? test) (funext fun c => ?_)
  rw [Bool.not_inj_iff, Bool.eq_iff_iff, List.contains_iff_mem, List.contains_iff_mem, taken c]

/-- An attempt depends on the edges between the vertices it colors only. -/
theorem select_congr {among : Int → Prop}
    (same : ∀ u, among u → ∀ v, among v → g.adjacent u v = g'.adjacent u v)
    (stacked : ∀ v ∈ vs, among v) (colored : ∀ u, (colors.get? u).isSome → among u) :
    select g n vs colors = select g' n vs colors := by
  induction vs generalizing colors with
  | nil => rfl
  | cons v vs ih =>
    have hv : among v := stacked v (List.mem_cons_self ..)
    have free : free? g n colors v = free? g' n colors v :=
      free?_congr fun u hu => same u (colored u hu) v hv
    rw [select, select, free]
    split
    · refine ih (fun u hu => stacked u (List.mem_cons_of_mem _ hu)) fun u hu => ?_
      rw [OrdMap.get?_insert] at hu
      split at hu
      · next e => exact e ▸ hv
      · exact colored u hu
    · rfl

/-- An attempt on part of a graph is the same in the part and in the whole. -/
theorem attempt_of_induced (h : work.Induced g) :
    attempt work n (order work cost n) = attempt g n (order work cost n) :=
  select_congr h (fun _ hv => mem_order.1 (List.mem_reverse.1 hv)) fun _ hu => by cases hu

/-- The attempts end with the one that colors, by itself, what they have left of the working
graph. -/
theorem run_of_rest (h : work.Induced g) :
    let r := run g cost n work
    let rest := r.spilled.foldl Graph.removeVertex work
    run rest cost n rest = ⟨r.colors, [], 1⟩ := by
  induction work using run.induct g cost n with
  | case1 work colors done =>
    rw [run_of_done done]
    exact run_of_done ((attempt_of_induced h).trans done)
  | case2 work colors v spill ih =>
    rw [run_of_spill spill]
    exact ih (h.removeVertex v)

/-- The colors of a graph are those of the graph without the vertices that are spilled, which is
colored in one attempt and without spills. In which order these vertices are removed does not
matter. -/
theorem color_rest (g : Graph) (cost : Int → Int) (n : Int) :
    let r := color g cost n
    color (r.spilled.foldl Graph.removeVertex g) cost n = ⟨r.colors, [], 1⟩ ∧
      ∀ vs : List Int, vs.Perm r.spilled →
        vs.foldl Graph.removeVertex g = r.spilled.foldl Graph.removeVertex g := by
  have comm : RightCommutative Graph.removeVertex := ⟨Graph.removeVertex_comm⟩
  intro r
  refine ⟨?_, fun vs perm => perm.foldl_eq g⟩
  simp only [r, color_eq_run]
  exact run_of_rest (.refl g)

end Coloring

end RegColor
