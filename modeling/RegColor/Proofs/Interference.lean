import RegColor.Proofs.Ranges

/-!
# Interference is exact

A variable is held at an instruction if it is live on both sides of it or written by it
(`LiveAssignment.Held`). Two webs interfere exactly if they are the webs of two variables held at
one instruction. Clusters are collected before webs are united, so the two directions differ:

* webs held together stand in one cluster, and their roots in what becomes of it
  (`Assembled.adjacent_of_lookup?`);
* a cluster was collected at one instruction, whose webs keep their variables when they are united
  (`Assembled.held_of_adjacent`).

An instruction has one web of each variable, so that webs of one variable never interfere.

Two variables may be live before an instruction and not be held by it. Where control arrives from
another instruction, both are held there (`Assembled.adjacent_of_connects`). At the start of a block
without predecessors their webs can stay apart.
-/

namespace RegColor

open Block

/-- A variable is live on both sides of an instruction of function `k`, or written by it. -/
def LiveAssignment.Held (X : LiveAssignment) (k : Nat) (i : Instr) (s : SymbolId) : Prop :=
  (s ∈ X.before k i.id ∧ s ∈ X.after k i.id) ∨ s ∈ i.defs

namespace Webs

variable {r : Webs} {s t : SymbolId} {u w : Web}

theorem held_iff {l : Listing} {as as' : List Annotation} {k n j : Nat} {i : Instr}
    (solved : Liveness.Solved l as as')
    (hi : instrAt? (as'.getD k default).blocks n j = some i) :
    (LiveAssignment.ofAnnotations as').Held k i s ↔
      Held ((as'.getD k default).setAt n j) ((as'.getD k default).setAt n (j + 1)) i.defs s := by
  unfold LiveAssignment.Held Held
  rw [Liveness.mem_before_iff solved.ready hi, Liveness.mem_after_iff solved.ready hi]

namespace Assembled

variable {l : Listing} {f : Function} {a : Annotation} {g : Digraph} {d₀ d : Forest}
  {clusters : List (List Nat)} {blocks : List BlockWebs}

theorem web_id (h : Assembled l f a g d₀ clusters blocks d r) (hw : w ∈ r.webs) :
    d.web w.id = w := by
  obtain ⟨k, lt, -, rfl⟩ := h.mem_webs.1 hw
  rw [h.id_eq lt]

/-- The root of a web of the scan is the number of a web of the result. -/
theorem root_mem_roots (h : Assembled l f a g d₀ clusters blocks d r) {k : Nat}
    (lt : k < d₀.size) : d.root k ∈ d.roots :=
  Forest.mem_roots.2 ⟨h.joining.size.symm ▸ h.root_lt lt, h.root_root lt⟩

/-- The members of a cluster are roots once it is renamed. -/
theorem mem_roots_of_mem_cluster (h : Assembled l f a g d₀ clusters blocks d r) {c : List Nat}
    (hc : c ∈ clusters.map (canonical d)) {v : Nat} (hv : v ∈ c) : v ∈ d.roots := by
  obtain ⟨c₀, hc₀, rfl⟩ := List.mem_map.1 hc
  obtain ⟨x, hx, rfl⟩ := mem_canonical.1 hv
  exact h.root_mem_roots (h.scan.valid.clusters c₀ hc₀ x hx)

/-- The vertices are the numbers of the webs. -/
theorem mem_vertices (h : Assembled l f a g d₀ clusters blocks d r) {x : Int} :
    x ∈ r.graph.vertices ↔ ∃ w ∈ r.webs, (w.id : Int) = x := by
  have numbers : (∃ w ∈ r.webs, (w.id : Int) = x) ↔ ∃ v ∈ d.roots, (v : Int) = x := by
    rw [← h.map_id_webs]
    simp
  rw [h.graph, numbers]
  exact mem_vertices_interference fun c hc v hv => h.mem_roots_of_mem_cluster hc hv

/-- Webs that interfere are different, and are held at one instruction. -/
theorem held_of_adjacent (h : Assembled l f a g d₀ clusters blocks d r) (hu : u ∈ r.webs)
    (hw : w ∈ r.webs) (adj : r.graph.adjacent u.id w.id = true) :
    u ≠ w ∧ ∃ n j i s t, instrAt? a.blocks n j = some i ∧ r.lookup? s i.id = some u ∧
      r.lookup? t i.id = some w ∧ Held (a.setAt n j) (a.setAt n (j + 1)) i.defs s ∧
      Held (a.setAt n j) (a.setAt n (j + 1)) i.defs t := by
  rw [h.graph, adjacent_interference] at adj
  rcases adj with ⟨ne, c, hc, huc, hwc⟩
  refine ⟨fun e => ne (congrArg Web.id e), ?_⟩
  -- The cluster as it was collected, and the instruction where that was.
  obtain ⟨c₀, hc₀, rfl⟩ := List.mem_map.1 hc
  obtain ⟨x, hx, rootx⟩ := mem_canonical.1 huc
  obtain ⟨y, hy, rooty⟩ := mem_canonical.1 hwc
  obtain ⟨n, j, i, hi, all⟩ := h.scan.justified.meet c₀ hc₀
  obtain ⟨s, hs, heldx⟩ := all x hx
  obtain ⟨t, ht, heldy⟩ := all y hy
  refine ⟨n, j, i, s, t, hi, ?_, ?_, heldx, heldy⟩
  · rw [h.lookup?_of_covers hs, rootx, h.web_id hu]
  · rw [h.lookup?_of_covers ht, rooty, h.web_id hw]

/-- Webs of one variable do not interfere. -/
theorem adjacent_of_symbol_eq (h : Assembled l f a g d₀ clusters blocks d r) (hu : u ∈ r.webs)
    (hw : w ∈ r.webs) (same : u.symbol = w.symbol) : r.graph.adjacent u.id w.id = false := by
  refine Bool.eq_false_iff.2 fun adj => ?_
  obtain ⟨ne, n, j, i, s, t, -, hs, ht, -⟩ := h.held_of_adjacent hu hw adj
  rw [← (mem_of_lookup? hs).2.1, same, (mem_of_lookup? ht).2.1] at hs
  exact ne (Option.some.inj (hs.symm.trans ht))

end Assembled

/-- The vertices of the graph are the numbers of the webs, each used once, and two webs are joined
exactly if they are the webs of two variables held at one instruction. Webs of one variable are
never joined. -/
theorem build_interference {l : Listing} {as as' : List Annotation} {k : Nat} {f : Function}
    (solved : Liveness.Solved l as as') (hf : l.functions[k]? = some f) (serial : Nat) :
    ∃ r, build l as' k serial = .ok r ∧ (r.webs.map Web.id).Nodup ∧
      (∀ x, x ∈ r.graph.vertices ↔ ∃ w ∈ r.webs, (w.id : Int) = x) ∧
      (∀ u ∈ r.webs, ∀ w ∈ r.webs, u ≠ w →
        let held := (LiveAssignment.ofAnnotations as').Held k
        (r.graph.adjacent u.id w.id = true ↔ ∃ i ∈ f.code, ∃ s t, r.lookup? s i.id = some u ∧
          r.lookup? t i.id = some w ∧ held i s ∧ held i t)) ∧
      ∀ u ∈ r.webs, ∀ w ∈ r.webs, u.symbol = w.symbol → r.graph.adjacent u.id w.id = false := by
  obtain ⟨g, -, -, r, d₀, clusters, blocks, d, hbuild, h⟩ :=
    exists_assembled_of_solved solved hf serial
  refine ⟨r, hbuild, h.nodup_ids, fun x => h.mem_vertices, fun u hu w hw ne => ?_,
    fun u hu w hw => h.adjacent_of_symbol_eq hu hw⟩
  constructor
  · intro adj
    obtain ⟨-, n, j, i, s, t, hi, hs, ht, helds, heldt⟩ := h.held_of_adjacent hu hw adj
    exact ⟨i, (solved.hasFlow hf).mem_code.2 ⟨n, j, hi⟩, s, t, hs, ht, (held_iff solved hi).2 helds,
      (held_iff solved hi).2 heldt⟩
  · intro given
    rcases given with ⟨i, code, s, t, hs, ht, helds, heldt⟩
    obtain ⟨n, j, hi⟩ := (solved.hasFlow hf).mem_code.1 code
    exact h.adjacent_of_lookup? hi (((held_iff solved hi).1 helds).imp_left And.right)
      (((held_iff solved hi).1 heldt).imp_left And.right) hs ht ne

open Listing in
/-- In `countdown` the second value of `a` is held together with `b` at some instruction, the first
value, which `b` takes over, is not. -/
theorem build_interference_countdown :
    ∃ r u v w, build countdown countdown.analyzed.2 0 0 = .ok r ∧ r.webs = [u, v, w] ∧
      let held := (LiveAssignment.ofAnnotations countdown.analyzed.2).Held 0
      let meet (u w : Web) := ∃ i ∈ (countdown.functions.getD 0 default).code, ∃ s t,
        r.lookup? s i.id = some u ∧ r.lookup? t i.id = some w ∧ held i s ∧ held i t
      ¬meet u v ∧ meet v w ∧ r.graph.adjacent u.id w.id = false := by
  obtain ⟨r, hbuild, -, -, adjacent, symbols⟩ := build_interference (k := 0)
    (f := countdown.functions.getD 0 default) (solved_analyzed (l := countdown) (by decide)) rfl 0
  obtain ⟨r', u, v, w, hbuild', hr, hu, -, hv, hw, -, apart, joined⟩ := countdown_webs
  cases hbuild.symm.trans hbuild'
  have neu : u ≠ v := fun e => absurd (hu.symm.trans ((congrArg Web.symbol e).trans hv)) (by decide)
  have nev : v ≠ w := fun e => absurd (hv.symm.trans ((congrArg Web.symbol e).trans hw)) (by decide)
  have memu : u ∈ r.webs := by simp [hr]
  have memv : v ∈ r.webs := by simp [hr]
  have memw : w ∈ r.webs := by simp [hr]
  refine ⟨r, u, v, w, hbuild, hr, ?_, ?_, symbols u memu w memw (hu.trans hw.symm)⟩
  · intro meets
    cases apart.symm.trans ((adjacent u memu v memv neu).2 meets)
  · exact (adjacent v memv w memw nev).1 joined

/-! ## Variables that are live together -/

namespace Assembled

variable {l : Listing} {as as' : List Annotation} {k : Nat} {f : Function} {g : Digraph}
  {d₀ d : Forest} {clusters : List (List Nat)} {blocks : List BlockWebs} {i p : Instr}

/-- Two locals that are live where control arrives are live where it comes from, and are in the same
webs there. So their webs interfere. -/
theorem adjacent_of_connects (h : Assembled l f (as'.getD k default) g d₀ clusters blocks d r)
    (solved : Liveness.Solved l as as') (hf : l.functions[k]? = some f)
    (hg : (as'.getD k default).flow = some g) (arrives : (as'.getD k default).Connects p i)
    (locs : l.isLocal f s = true) (loct : l.isLocal f t = true)
    (hs : s ∈ (LiveAssignment.ofAnnotations as').before k i.id)
    (ht : t ∈ (LiveAssignment.ofAnnotations as').before k i.id)
    (hu : r.lookup? s i.id = some u) (hw : r.lookup? t i.id = some w) (ne : u ≠ w) :
    r.graph.adjacent u.id w.id = true := by
  obtain ⟨n, m, n', m', hp, hi, passes⟩ := arrives
  have rules := solved.liveRules (solved.lt_length hf)
  rw [Liveness.mem_before_iff solved.ready hi] at hs ht
  have afters := solved.mem_setAt_of_passes hf passes hs
  have aftert := solved.mem_setAt_of_passes hf passes ht
  rw [h.lookup?_of_passes rules hg hp hi passes locs afters hs] at hu
  rw [h.lookup?_of_passes rules hg hp hi passes loct aftert ht] at hw
  exact h.adjacent_of_lookup? hp (.inl afters) (.inl aftert) hu hw ne

/-- The webs of two locals interfere exactly if the locals are in them where both are held. -/
theorem adjacent_iff_held (h : Assembled l f (as'.getD k default) g d₀ clusters blocks d r)
    (solved : Liveness.Solved l as as') (hf : l.functions[k]? = some f) (hu : u ∈ r.webs)
    (hw : w ∈ r.webs) (ne : u ≠ w) :
    r.graph.adjacent u.id w.id = true ↔
      ∃ j ∈ f.code, r.lookup? u.symbol j.id = some u ∧ r.lookup? w.symbol j.id = some w ∧
        (LiveAssignment.ofAnnotations as').Held k j u.symbol ∧
        (LiveAssignment.ofAnnotations as').Held k j w.symbol := by
  constructor
  · intro adj
    obtain ⟨-, n, m, j, s, t, hj, hs, ht, helds, heldt⟩ := h.held_of_adjacent hu hw adj
    cases (mem_of_lookup? hs).2.1
    cases (mem_of_lookup? ht).2.1
    exact ⟨j, (solved.hasFlow hf).mem_code.2 ⟨n, m, hj⟩, hs, ht, (held_iff solved hj).2 helds,
      (held_iff solved hj).2 heldt⟩
  · rintro ⟨j, code, hs, ht, helds, heldt⟩
    obtain ⟨n, m, hj⟩ := (solved.hasFlow hf).mem_code.1 code
    exact h.adjacent_of_lookup? hj (((held_iff solved hj).1 helds).imp_left And.right)
      (((held_iff solved hj).1 heldt).imp_left And.right) hs ht ne

end Assembled

/-- Two locals that are live before an instruction have different webs there. These interfere where
control arrives from some instruction. Where none passes control on, at the start of a block without
predecessors, they interfere exactly if the locals are held together elsewhere in these webs. -/
theorem build_live_together {l : Listing} {as as' : List Annotation} {k : Nat} {f : Function}
    (solved : Liveness.Solved l as as') (hf : l.functions[k]? = some f) (serial : Nat) :
    ∃ r, build l as' k serial = .ok r ∧
      let X := LiveAssignment.ofAnnotations as'
      ∀ i ∈ f.code, ∀ s t, l.isLocal f s = true → l.isLocal f t = true → s ≠ t →
        s ∈ X.before k i.id → t ∈ X.before k i.id →
        ∃ u w, r.lookup? s i.id = some u ∧ r.lookup? t i.id = some w ∧ u ≠ w ∧
          ((∃ p, (as'.getD k default).Connects p i) → r.graph.adjacent u.id w.id = true) ∧
          (r.graph.adjacent u.id w.id = true ↔ ∃ j ∈ f.code, r.lookup? s j.id = some u ∧
            r.lookup? t j.id = some w ∧ X.Held k j s ∧ X.Held k j t) := by
  obtain ⟨g, hg, -, r, d₀, clusters, blocks, d, hbuild, h⟩ :=
    exists_assembled_of_solved solved hf serial
  refine ⟨r, hbuild, fun i code s t locs loct ne hs ht => ?_⟩
  obtain ⟨u, hu⟩ := (h.exists_lookup?_iff solved hf locs).2 ⟨i, code, rfl, .inl hs⟩
  obtain ⟨w, hw⟩ := (h.exists_lookup?_iff solved hf loct).2 ⟨i, code, rfl, .inl ht⟩
  obtain ⟨memu, symu, -⟩ := mem_of_lookup? hu
  obtain ⟨memw, symw, -⟩ := mem_of_lookup? hw
  subst symu symw
  have neweb : u ≠ w := fun e => ne (congrArg Web.symbol e)
  exact ⟨u, w, hu, hw, neweb,
    fun ⟨p, arrives⟩ => h.adjacent_of_connects solved hf hg arrives locs loct hs ht hu hw neweb,
    h.adjacent_iff_held solved hf memu memw neweb⟩

open Listing

/-- Before the branch of its loop `countdown` has `a` and `b` live, and their webs interfere. -/
theorem build_live_together_countdown :
    ∃ r u w, build countdown countdown.analyzed.2 0 0 = .ok r ∧ r.lookup? 5 ⟨4, 0⟩ = some u ∧
      r.lookup? 6 ⟨4, 0⟩ = some w ∧ r.graph.adjacent u.id w.id = true := by
  let f := countdown.functions.getD 0 default
  let i := f.code.getD 4 default
  have solved := solved_analyzed (l := countdown) (by decide)
  have live : (countdown.analyzed.2.getD 0 default).live.before? i.id = some (.ofList [5, 6]) := by
    decide +kernel
  -- Control arrives from the label that leads the block.
  have code : i ∈ f.code := by decide
  have falls : countdown.Follows f (f.code.getD 3 default) i := .inl ⟨by decide, 3, rfl, rfl⟩
  have arrives := (solved.hasFlow (k := 0) (f := f) rfl).passes_of_follows falls code
  obtain ⟨r, hbuild, together⟩ := build_live_together (k := 0) (f := f) solved rfl 0
  obtain ⟨u, w, hu, hw, -, adjacent, -⟩ := together i code 5 6 (by decide) (by decide) (by decide)
    ⟨_, live, by decide⟩ ⟨_, live, by decide⟩
  exact ⟨r, u, w, hbuild, hu, hw, adjacent ⟨_, arrives⟩⟩

/-- A function `stores()` with two arrays that are written once each: `store a, 0, 0; store b, 0, 0;
return`. -/
def stores : Listing :=
  let symbols : List Symbol :=
    [{ name := "stores", kind := .function, type := none },
      { name := "0", kind := .int 0, type := none }]
  let l : Listing := symbols.foldl (fun l s => (l.addSymbol s).1) {}
  let l := { l with functions := [{ symbol := 0 }] }
  let l := (l.addLocal 0 "a" (some (.array .int 4))).1
  let l := (l.addLocal 0 "b" (some (.array .int 4))).1
  let code : List Action := [.apply .store [2, 1, 1], .apply .store [3, 1, 1], .apply .ret []]
  code.foldl (fun l a => (l.push 0 a 0).1) l

/-- Both arrays of `stores` are live at its entry, and their webs do not interfere. -/
theorem stores_live_apart :
    stores.check = .ok [] ∧ Liveness.Solved stores stores.analyzed.1 stores.analyzed.2 ∧
      stores.isLocal (stores.functions.getD 0 default) 2 = true ∧
      stores.isLocal (stores.functions.getD 0 default) 3 = true ∧
      2 ∈ (LiveAssignment.ofAnnotations stores.analyzed.2).before 0 ⟨0, 0⟩ ∧
      3 ∈ (LiveAssignment.ofAnnotations stores.analyzed.2).before 0 ⟨0, 0⟩ ∧
      ∃ r u w, build stores stores.analyzed.2 0 0 = .ok r ∧ r.lookup? 2 ⟨0, 0⟩ = some u ∧
        r.lookup? 3 ⟨0, 0⟩ = some w ∧ r.graph.adjacent u.id w.id = false := by
  have live : (stores.analyzed.2.getD 0 default).live.before? ⟨0, 0⟩ = some (.ofList [2, 3]) := by
    decide +kernel
  have computed : (build stores stores.analyzed.2 0 0).toOption.map (fun r =>
      ((r.lookup? 2 ⟨0, 0⟩).map Web.id, (r.lookup? 3 ⟨0, 0⟩).map Web.id, r.graph.adjacent 0 1)) =
      some (some 0, some 1, false) := by decide +kernel
  refine ⟨by decide, solved_analyzed (by decide), by decide, by decide, ⟨_, live, by decide⟩,
    ⟨_, live, by decide⟩, ?_⟩
  generalize build stores stores.analyzed.2 0 0 = built at computed
  rcases built with e | r
  · cases computed
  simp only [Except.toOption, Option.map_some, Option.some.injEq, Prod.mk.injEq,
    Option.map_eq_some_iff] at computed
  obtain ⟨⟨u, hu, idu⟩, ⟨w, hw, idw⟩, apart⟩ := computed
  exact ⟨r, u, w, rfl, hu, hw, by rw [idu, idw]; exact apart⟩

end Webs

end RegColor
