import RegColor.Proofs.Spilling

/-!
# Colors are packed from below

A vertex takes the lowest color that is free, so when it is colored every lower color is the color
of a neighbour (`exists_of_free?`). The neighbours keep their colors, because a stack holds no
vertex twice (`nodup_order`), and the attempts before the last one leave no color behind. So the
colors of the last attempt are packed (`packed_run`), and the color of a vertex is at most its
degree.
-/

namespace RegColor

namespace Coloring

variable {g work : Graph} {cost : Int → Int} {n : Nat} {colors : Colors} {vs : List Int}

/-! ## No vertex is stacked twice -/

theorem perm_insertByCost (v : Int) (us : List Int) :
    (insertByCost cost v us).Perm (v :: us) := by
  induction us with
  | nil => exact .refl _
  | cons u us ih =>
    unfold insertByCost
    split
    · exact .refl _
    · exact (ih.cons u).trans (.swap v u us)

theorem perm_sortByCost (vs : List Int) : (sortByCost cost vs).Perm vs := by
  induction vs with
  | nil => exact .refl _
  | cons v vs ih => exact (perm_insertByCost v _).trans (ih.cons v)

theorem nodup_order (work : Graph) (cost : Int → Int) (n : Int) : (order work cost n).Nodup := by
  have perm : (order work cost n).Perm work.vertices.toList :=
    ((perm_sortByCost _).append_left _).trans (List.filter_append_perm _ _)
  exact perm.nodup_iff.2 work.vertices.nodup_toList

/-! ## Attempts -/

/-- Every color below that of a vertex is the color of one of its neighbours. -/
def Packed (g : Graph) (colors : Colors) : Prop :=
  ∀ v c, colors.get? v = some c → ∀ k < c, ∃ u ∈ g.neighbors v, colors.get? u = some k

theorem packed_empty : Packed g ∅ := fun v c h => by cases h

theorem exists_of_free? {v : Int} {c k : Nat} (free : free? g n colors v = some c) (lt : k < c) :
    ∃ u ∈ g.neighbors v, colors.get? u = some k := by
  have lowest := (List.find?_range_eq_some.1 free).2.2 k lt
  simpa [OrdSet.mem_def] using lowest

/-- A vertex that had no color takes none away from those that are packed already. -/
theorem Packed.insert (h : Packed g colors) {v : Int} {c : Nat} (new : colors.get? v = none)
    (free : free? g n colors v = some c) : Packed g (colors.insert v c) := by
  have kept {u : Int} {k : Nat} (hu : colors.get? u = some k) :
      (colors.insert v c).get? u = some k := by
    rw [OrdMap.get?_insert, if_neg, hu]
    rintro rfl
    cases new.symm.trans hu
  intro w d hw k lt
  have taken : ∃ u ∈ g.neighbors w, colors.get? u = some k := by
    rw [OrdMap.get?_insert] at hw
    split at hw
    · next same =>
      cases hw
      exact same ▸ exists_of_free? free lt
    · exact h w d hw k lt
  obtain ⟨u, near, hu⟩ := taken
  exact ⟨u, near, kept hu⟩

theorem packed_select (h : Packed g colors) (nodup : vs.Nodup)
    (new : ∀ v ∈ vs, colors.get? v = none) : Packed g (select g n vs colors).1 := by
  induction vs generalizing colors with
  | nil => exact h
  | cons v vs ih =>
    obtain ⟨apart, nodup⟩ := List.nodup_cons.1 nodup
    obtain ⟨first, later⟩ := List.forall_mem_cons.1 new
    unfold select
    split
    · next c free =>
      refine ih (h.insert first free) nodup fun u hu => ?_
      rw [OrdMap.get?_insert, if_neg, later u hu]
      rintro rfl
      exact apart hu
    · exact h

theorem packed_run : Packed g (run g cost n work).colors := by
  have attempted (work : Graph) : Packed g (attempt g n (order work cost n)).1 :=
    packed_select packed_empty (List.nodup_reverse.2 (nodup_order work cost n)) fun _ _ => rfl
  induction work using run.induct g cost n with
  | case1 work colors done =>
    rw [run_of_done done]
    have last := attempted work
    rwa [done] at last
  | case2 work colors v spill ih =>
    rw [run_of_spill spill]
    exact ih

/-- Colors are packed from below: if a vertex has a color, each lower one is the color of a
neighbour, so the color is at most the degree. -/
theorem color_packed (g : Graph) (cost : Int → Int) (n : Int) (v : Int) (c : Nat)
    (colored : (color g cost n).colors.get? v = some c) :
    (∀ k < c, ∃ u ∈ g.neighbors v, (color g cost n).colors.get? u = some k) ∧
      c ≤ g.degree v := by
  have taken := packed_run v c colored
  refine ⟨taken, Nat.le_trans (le_size_of_taken taken) (OrdSet.size_le_of_subset fun u hu => ?_)⟩
  exact (OrdSet.mem_filter.1 hu).1

/-- Four vertices, each joined to the others. -/
def tetrahedron : Graph := Graph.empty.addClique [0, 1, 2, 3]

/-- With three colors the first attempt spills a vertex, and the second one packs the others. -/
theorem color_packed_tetrahedron :
    (color tetrahedron id 3).colors.get? 1 = some 2 ∧
      (∀ k < 2, ∃ u ∈ tetrahedron.neighbors 1, (color tetrahedron id 3).colors.get? u = some k) ∧
      2 ≤ tetrahedron.degree 1 := by
  have colored : (color tetrahedron id 3).colors.get? 1 = some 2 := by
    have first : (attempt tetrahedron 3 (order tetrahedron id 3)).2 = some 0 := by
      decide +kernel
    have second : (attempt tetrahedron 3 (order (tetrahedron.removeVertex 0) id 3)).2 = none := by
      decide +kernel
    show (run tetrahedron id 3 tetrahedron.clone).colors.get? 1 = some 2
    rw [Graph.clone_eq, run_of_spill (Prod.ext rfl first), run_of_done (Prod.ext rfl second)]
    decide +kernel
  exact ⟨colored, color_packed tetrahedron id 3 1 2 colored⟩

end Coloring

end RegColor
