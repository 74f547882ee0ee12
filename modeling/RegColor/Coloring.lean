import RegColor.Data.OrdMap
import RegColor.Graph

/-!
# Coloring a graph

`Coloring.color` gives each vertex of a graph one of `n` colors so that neighbours differ. An
attempt stacks the vertices: those of degree below `n` at the bottom, then the others by rising
cost. It pops them from the top and gives each the lowest color that no colored neighbour has. A
vertex that finds no color is spilled: it is taken out and the next attempt starts over without it.

An attempt that fails spills a vertex of the graph it worked on (`mem_of_select`, `mem_order`), so
the attempts end.
-/

namespace RegColor

/-- Colors of vertices. -/
abbrev Colors := OrdMap Int Nat

namespace Coloring

/-! ## The stack -/

/-- Puts a vertex before the first one that costs as much or more. -/
def insertByCost (cost : Int → Int) (v : Int) : List Int → List Int
  | [] => [v]
  | u :: us => if cost v ≤ cost u then v :: u :: us else u :: insertByCost cost v us

/-- Sorts by rising cost; vertices of equal cost keep their order. -/
def sortByCost (cost : Int → Int) (vs : List Int) : List Int :=
  vs.foldr (insertByCost cost) []

/-- The stack of an attempt, bottom first. -/
def order (g : Graph) (cost : Int → Int) (n : Int) : List Int :=
  let low := g.vertices.toList.filter (fun v => g.degree v < n)
  let high := g.vertices.toList.filter (fun v => !decide (g.degree v < n))
  low ++ sortByCost cost high

theorem mem_insertByCost {cost : Int → Int} {v x : Int} {us : List Int} :
    x ∈ insertByCost cost v us ↔ x = v ∨ x ∈ us := by
  induction us with
  | nil => simp [insertByCost]
  | cons u us ih =>
    unfold insertByCost
    split
    · simp
    · rw [List.mem_cons, ih, List.mem_cons]
      constructor
      · rintro (h | h | h) <;> simp [h]
      · rintro (h | h | h) <;> simp [h]

theorem mem_sortByCost {cost : Int → Int} {x : Int} {vs : List Int} :
    x ∈ sortByCost cost vs ↔ x ∈ vs := by
  induction vs with
  | nil => simp [sortByCost]
  | cons v vs ih =>
    rw [sortByCost, List.foldr_cons, mem_insertByCost, List.mem_cons]
    exact or_congr_right ih

theorem mem_order {g : Graph} {cost : Int → Int} {n v : Int} :
    v ∈ order g cost n ↔ v ∈ g.vertices := by
  simp only [order, List.mem_append, mem_sortByCost, List.mem_filter, OrdSet.mem_def]
  by_cases h : (g.degree v : Int) < n <;> simp [h]

/-! ## One attempt -/

/-- The lowest of `n` colors that no colored neighbour of `v` has. -/
def free? (g : Graph) (n : Nat) (colors : Colors) (v : Int) : Option Nat :=
  let used := (g.neighbors v).toList.filterMap colors.get?
  (List.range n).find? (fun c => !used.contains c)

/-- Colors vertices in order until one finds no color; that one is returned too. -/
def select (g : Graph) (n : Nat) : List Int → Colors → Colors × Option Int
  | [], colors => (colors, none)
  | v :: vs, colors =>
    match free? g n colors v with
    | some c => select g n vs (colors.insert v c)
    | none => (colors, some v)

/-- One attempt: pops the stack from its end. -/
def attempt (g : Graph) (n : Nat) (stack : List Int) : Colors × Option Int :=
  select g n stack.reverse ∅

theorem mem_of_select {g : Graph} {n : Nat} {vs : List Int} {colors : Colors} {v : Int}
    (h : (select g n vs colors).2 = some v) : v ∈ vs := by
  induction vs generalizing colors with
  | nil => simp [select] at h
  | cons u us ih =>
    unfold select at h
    split at h
    · exact List.mem_cons_of_mem _ (ih h)
    · simp at h
      simp [h]

theorem mem_of_attempt {g work : Graph} {cost : Int → Int} {n : Nat} {v : Int}
    (h : (attempt g n (order work cost n)).2 = some v) : v ∈ work.vertices :=
  mem_order.1 (List.mem_reverse.1 (mem_of_select h))

/-! ## All attempts -/

/-- The colors of a graph, the vertices without one in the order in which they were spilled, and the
number of attempts. -/
structure Result where
  colors : Colors
  spilled : List Int
  attempts : Nat

/-- The color of a vertex, `-1` for a vertex without one. -/
def Result.color (r : Result) (v : Int) : Int :=
  match r.colors.get? v with
  | some c => c
  | none => -1

/-- Whether a vertex has no color. -/
def Result.isSpilled (r : Result) (v : Int) : Bool := (r.colors.get? v).isNone

/-- Attempts to color `g`, stacking only the vertices of `work`, until no vertex is left over. -/
def run (g : Graph) (cost : Int → Int) (n : Nat) (work : Graph) : Result :=
  match h : attempt g n (order work cost n) with
  | (colors, none) => ⟨colors, [], 1⟩
  | (_, some v) =>
    let r := run g cost n (work.removeVertex v)
    ⟨r.colors, v :: r.spilled, r.attempts + 1⟩
termination_by work.order
decreasing_by exact Graph.order_removeVertex_lt (mem_of_attempt (by rw [h]))

/-- Colors a graph with `n` colors, with none when `n` is negative. Vertices are taken out of a copy
of the graph. -/
def color (g : Graph) (cost : Int → Int) (n : Int) : Result := run g cost n.toNat g.clone

end Coloring

end RegColor
