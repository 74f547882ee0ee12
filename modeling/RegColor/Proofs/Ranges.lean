import RegColor.Proofs.Registers

/-!
# Webs are the connected live ranges

The sites of a variable are the instructions at which it is live or written. Two of them are joined
where control passes from one to the other and the variable is live on arrival
(`LiveAssignment.Joins`). The webs of a variable are the classes of the equivalence that this
relation generates, neither finer nor coarser:

* a web is carried along every join, so a class lies in one web (`Assembled.lookup?_of_continues`);
* webs are only extended and united along joins, so a web lies in one class
  (`Assembled.mem_range_iff`).

`build_ranges` adds that no two webs share a site and that `lookup?` finds the web of a site.
-/

namespace RegColor

open Block

namespace LiveAssignment

variable (X : LiveAssignment) (k : Nat) (f : Function) (a : Annotation) (s : SymbolId)

/-- The instructions of function `k` at which a variable is live or written. -/
def Sites : Set InstrId :=
  {x | ∃ i ∈ f.code, i.id = x ∧ (s ∈ X.before k x ∨ s ∈ i.defs)}

/-- Control passes between two sites, to the next instruction of a block or to the leader of a
successor, and the variable is live where it arrives. -/
def Joins (x y : InstrId) : Prop :=
  x ∈ X.Sites k f s ∧ y ∈ X.Sites k f s ∧ s ∈ X.before k y ∧
    ∃ n j n' j' i i', instrAt? a.blocks n j = some i ∧ i.id = x ∧
      instrAt? a.blocks n' j' = some i' ∧ i'.id = y ∧ a.Passes n j n' j'

end LiveAssignment

/-! ## Sites -/

section Sites

open LiveAssignment

variable {l : Listing} {as as' : List Annotation} {k n j : Nat} {f : Function} {i : Instr}
  {s : SymbolId} {x y : InstrId}

theorem mem_sites (solved : Liveness.Solved l as as') (hf : l.functions[k]? = some f)
    (hi : instrAt? (as'.getD k default).blocks n j = some i) :
    i.id ∈ (ofAnnotations as').Sites k f s ↔
      s ∈ (as'.getD k default).setAt n j ∨ s ∈ i.defs := by
  have code : i ∈ f.code := (solved.hasFlow hf).mem_code.2 ⟨n, j, hi⟩
  rw [← Liveness.mem_before_iff solved.ready hi]
  constructor
  · intro given
    rcases given with ⟨i', hi', e, here⟩
    cases Function.code_inj hi' code e
    exact here
  · exact fun here => ⟨i, code, rfl, here⟩

/-- Between sites a variable is carried exactly along joins: what is live where control arrives is
live or written where it comes from. -/
theorem joins_eq_continues (solved : Liveness.Solved l as as') (hf : l.functions[k]? = some f) :
    (ofAnnotations as').Joins k f (as'.getD k default) s =
      (as'.getD k default).Continues s := by
  funext x y
  refine propext ⟨fun given => ?_, fun given => ?_⟩
  · rcases given with ⟨-, -, live, n, j, n', j', i, i', hi, hx, hi', rfl, pass⟩
    exact ⟨n, j, n', j', i, i', hi, hx, hi', rfl, pass,
      (Liveness.mem_before_iff solved.ready hi').1 live⟩
  · rcases given with ⟨n, j, n', j', i, i', hi, rfl, hi', rfl, pass, live⟩
    have after := solved.mem_setAt_of_passes hf pass live
    refine ⟨(mem_sites solved hf hi).2 ?_, (mem_sites solved hf hi').2 (.inl live),
      (Liveness.mem_before_iff solved.ready hi').2 live, n, j, n', j', i, i', hi, rfl, hi', rfl,
      pass⟩
    exact (solved.liveRules (solved.lt_length hf)).pass hi after

end Sites

/-! ## Classes -/

namespace Webs

variable {r : Webs} {s : SymbolId} {x y : InstrId} {v w : Web}

theorem mem_websOf : w ∈ r.websOf s ↔ w ∈ r.webs ∧ w.symbol = s := by
  simp [websOf]

theorem mem_websOf_of_lookup? (h : r.lookup? s x = some w) : w ∈ r.websOf s ∧ x ∈ w.range := by
  obtain ⟨mem, symbol, here⟩ := mem_of_lookup? h
  exact ⟨mem_websOf.2 ⟨mem, symbol⟩, here⟩

namespace Assembled

variable {l : Listing} {f : Function} {uses : Instr → List SymbolId} {a : Annotation} {g : Digraph}
  {d₀ d : Forest} {clusters : List (List Nat)} {blocks : List BlockWebs}

/-- A web is what looking up its variable finds wherever it is. -/
theorem lookup?_eq_some_iff (h : Assembled l f a g d₀ clusters blocks d r) :
    r.lookup? s x = some w ↔ w ∈ r.websOf s ∧ x ∈ w.range := by
  refine ⟨mem_websOf_of_lookup?, fun given => ?_⟩
  rcases given with ⟨mem, here⟩
  rcases mem_websOf.1 mem with ⟨hw, rfl⟩
  obtain ⟨k, lt, isRoot, rfl⟩ := h.mem_webs.1 hw
  obtain ⟨v, e, hv⟩ := (h.mem_range lt isRoot).1 here
  rw [h.lookup?_of_covers hv, e]

/-- A web covers something. -/
theorem exists_mem_range (h : Assembled l f a g d₀ clusters blocks d r) (hw : w ∈ r.webs) :
    ∃ x, x ∈ w.range := by
  obtain ⟨k, lt, isRoot, rfl⟩ := h.mem_webs.1 hw
  obtain ⟨s, x, hx⟩ := h.scan.filled lt
  refine ⟨x, (h.mem_range lt isRoot).2 ⟨k, isRoot, hx.lt, ?_, hx.mem⟩⟩
  rw [h.joining.symbol]

/-- The numbers of the webs are those of the roots. -/
theorem map_id_webs (h : Assembled l f a g d₀ clusters blocks d r) :
    r.webs.map Web.id = d.roots := by
  rw [h.webs, List.map_map]
  refine (List.map_congr_left fun k hk => ?_).trans (List.map_id _)
  rw [Forest.mem_roots, h.joining.size] at hk
  exact h.id_eq hk.1

theorem nodup_ids (h : Assembled l f a g d₀ clusters blocks d r) : (r.webs.map Web.id).Nodup := by
  rw [h.map_id_webs]
  exact List.nodup_range.filter _

/-- No two webs of a variable share an instruction. -/
theorem pairwise_websOf (h : Assembled l f a g d₀ clusters blocks d r) (s : SymbolId) :
    (r.websOf s).Pairwise fun v w => ∀ x ∈ v.range, x ∉ w.range := by
  have distinct : (r.websOf s).Nodup := h.nodup_ids.of_map.filter _
  refine distinct.imp_of_mem ?_
  intro v w hv hw ne x hxv hxw
  have found := h.lookup?_eq_some_iff.2 ⟨hv, hxv⟩
  exact ne (Option.some.inj (found.symm.trans (h.lookup?_eq_some_iff.2 ⟨hw, hxw⟩)))

/-- What a build finds is a local at one of its sites. -/
theorem covered_of_lookup? (h : Assembled l f a g d₀ clusters blocks d r)
    (hw : r.lookup? s x = some w) : l.isLocal f s = true ∧
      ∃ n j i, instrAt? a.blocks n j = some i ∧ i.id = x ∧ (s ∈ a.setAt n j ∨ s ∈ i.defs) := by
  obtain ⟨k, hk, -⟩ := h.lookup?_eq_some.1 hw
  obtain ⟨n, j, i, hi, rfl⟩ := h.scan.placed hk
  obtain ⟨loc, here⟩ := (h.scan.instrWebs hi).only hk
  exact ⟨loc, n, j, i, hi, rfl, here⟩

/-- A class of sites lies in one web. -/
theorem lookup?_of_continues (h : Assembled l f a g d₀ clusters blocks d r)
    (rules : LiveRules uses a) (edges : EdgeRules a g) (hg : a.flow = some g)
    (loc : l.isLocal f s = true) (way : Relation.EqvGen (a.Continues s) x y) :
    r.lookup? s y = r.lookup? s x := by
  induction way with
  | rel x y step =>
    rcases step with ⟨n, j, n', j', i, i', hi, rfl, hi', rfl, pass, live⟩
    -- What is live where control arrives is live where it comes from.
    have after : s ∈ a.setAt n (j + 1) := by
      cases pass with
      | inside _ => exact live
      | edge hb last hg' ht =>
        cases hg.symm.trans hg'
        exact last ▸ edges.sub hb ht live
    exact h.lookup?_of_passes rules hg hi hi' pass loc after live
  | refl x => rfl
  | symm x y _ ih => exact ih.symm
  | trans x y z _ _ ih ih' => exact ih'.trans ih

/-- The range of a web is the class of each of its sites. -/
theorem mem_range_iff (h : Assembled l f a g d₀ clusters blocks d r)
    (rules : LiveRules uses a) (edges : EdgeRules a g) (hg : a.flow = some g)
    (hw : r.lookup? s x = some w) : y ∈ w.range ↔ Relation.EqvGen (a.Continues s) x y := by
  have loc := (h.covered_of_lookup? hw).1
  obtain ⟨mem, -⟩ := mem_websOf_of_lookup? hw
  constructor
  · intro hy
    -- Both sites are covered by webs of the scan, and these have one root.
    obtain ⟨j, hj, e⟩ := h.lookup?_eq_some.1 hw
    obtain ⟨k, hk, e'⟩ := h.lookup?_eq_some.1 (h.lookup?_eq_some_iff.2 ⟨mem, hy⟩)
    refine h.joining.tied hj hk ?_
    rw [← h.id_eq (h.root_lt hj.lt), e, ← e', h.id_eq (h.root_lt hk.lt)]
  · intro way
    exact (mem_websOf_of_lookup? ((h.lookup?_of_continues rules edges hg loc way).trans hw)).2

/-- A local has a web at its sites and nowhere else. -/
theorem exists_lookup?_iff {as as' : List Annotation} {k : Nat}
    (solved : Liveness.Solved l as as') (hf : l.functions[k]? = some f)
    (h : Assembled l f (as'.getD k default) g d₀ clusters blocks d r)
    (loc : l.isLocal f s = true) :
    (∃ w, r.lookup? s x = some w) ↔ x ∈ (LiveAssignment.ofAnnotations as').Sites k f s := by
  constructor
  · intro given
    rcases given with ⟨w, hw⟩
    obtain ⟨-, n, j, i, hi, rfl, here⟩ := h.covered_of_lookup? hw
    exact (mem_sites solved hf hi).2 here
  · intro hx
    rcases hx with ⟨i, code, rfl, here⟩
    obtain ⟨n, j, hi⟩ := (solved.hasFlow hf).mem_code.1 code
    rw [Liveness.mem_before_iff solved.ready hi] at here
    obtain ⟨v, hv⟩ := (h.scan.instrWebs hi).covered loc here
    exact ⟨_, h.lookup?_of_covers hv⟩

end Assembled

end Webs

/-! ## A variable with two webs -/

/-- A function `countdown(n)` that uses a variable twice: `a := n; b := a; a := 1;
loop: if b ≤ a goto done; b := b - a; goto loop; done: return b`. -/
def Listing.countdown : Listing :=
  let symbols : List Symbol :=
    [{ name := "countdown", kind := .function, type := none },
      { name := "1", kind := .int 1, type := none },
      { name := "loop", kind := .label, type := none },
      { name := "done", kind := .label, type := none }]
  let l : Listing := symbols.foldl (fun l s => (l.addSymbol s).1) {}
  let l := { l with functions := [{ symbol := 0 }] }
  let l := (l.addParam 0 "n" none 4).1
  let l := ((l.addLocal 0 "a" none).1.addLocal 0 "b" none).1
  let code : List Action :=
    [.apply .assign [5, 4], .apply .assign [6, 5], .apply .assign [5, 1], .label 2,
      .apply (.branch .le) [6, 5, 3], .apply (.arith .sub) [6, 6, 5], .apply .goto [2], .label 3,
      .apply .ret [6]]
  code.foldl (fun l a => (l.push 0 a 0).1) l

namespace Listing

/-- The control flow of a listing and what a run over it ends with. -/
def analyzed (l : Listing) : List Annotation × List Annotation :=
  let as := (l.buildFlows l.functions l.freshAnnotations).1
  (as, ((Liveness.run l (Liveness.start as)).toOption.map Prod.fst).getD [])

theorem solved_analyzed {l : Listing}
    (h : (l.buildFlows l.functions l.freshAnnotations).2 = none) :
    Liveness.Solved l l.analyzed.1 l.analyzed.2 := by
  have built : l.FlowsBuilt l.analyzed.1 :=
    buildFlows_inv (List.length_map ..) (Prod.ext rfl h)
  obtain ⟨as', m, hrun, reached, settled⟩ :=
    Liveness.run_ok (Liveness.ready_start built) Liveness.reached_start
  have final : l.analyzed.2 = as' := by
    show ((Liveness.run l (Liveness.start l.analyzed.1)).toOption.map Prod.fst).getD [] = as'
    rw [hrun]
    rfl
  exact final ▸ ⟨built, reached, settled⟩

end Listing

namespace Webs

open Listing

/-- The webs of `countdown`: one for each of the two values of `a`, and one for `b`, which
interferes with the second. -/
theorem countdown_webs :
    ∃ r u v w, build countdown countdown.analyzed.2 0 0 = .ok r ∧ r.webs = [u, v, w] ∧
      u.symbol = 5 ∧ u.range.toList = [⟨0, 0⟩, ⟨1, 0⟩] ∧ v.symbol = 6 ∧ w.symbol = 5 ∧
      w.range.toList = [⟨2, 0⟩, ⟨3, 0⟩, ⟨4, 0⟩, ⟨5, 0⟩, ⟨6, 0⟩] ∧
      r.graph.adjacent u.id v.id = false ∧ r.graph.adjacent v.id w.id = true := by
  have computed : (build countdown countdown.analyzed.2 0 0).toOption.map (fun r =>
      (r.webs.map fun w => (w.id, w.symbol, w.range.toList), r.graph.adjacent 0 1,
        r.graph.adjacent 1 2)) =
      some ([(0, 5, [⟨0, 0⟩, ⟨1, 0⟩]), (1, 6, [1, 2, 3, 4, 5, 6, 7, 8].map fun p => ⟨p, 0⟩),
        (2, 5, [⟨2, 0⟩, ⟨3, 0⟩, ⟨4, 0⟩, ⟨5, 0⟩, ⟨6, 0⟩])], false, true) := by decide +kernel
  generalize build countdown countdown.analyzed.2 0 0 = built at computed
  rcases built with e | r
  · cases computed
  simp only [Except.toOption, Option.map_some, Option.some.injEq, Prod.mk.injEq] at computed
  rcases computed with ⟨webs, apart, joined⟩
  obtain ⟨u, _, hr, hu, webs⟩ := List.map_eq_cons_iff.1 webs
  obtain ⟨v, _, rfl, hv, webs⟩ := List.map_eq_cons_iff.1 webs
  obtain ⟨w, _, rfl, hw, webs⟩ := List.map_eq_cons_iff.1 webs
  cases List.map_eq_nil_iff.1 webs
  simp only [Prod.mk.injEq] at hu hv hw
  refine ⟨r, u, v, w, rfl, hr, hu.2.1, hu.2.2, hv.2.1, hw.2.1, hw.2.2, ?_, ?_⟩
  · rw [hu.1, hv.1]
    exact apart
  · rw [hv.1, hw.1]
    exact joined

/-! ## All webs of a function -/

/-- Building webs succeeds over final live sets, and the webs of the scan have paid for all accesses
in the code. -/
theorem exists_paid_of_solved {l : Listing} {as as' : List Annotation} {k : Nat} {f : Function}
    (solved : Liveness.Solved l as as') (hf : l.functions[k]? = some f) (serial : Nat) :
    ∃ g, (as'.getD k default).flow = some g ∧ EdgeRules (as'.getD k default) g ∧
      ∃ r d₀ clusters blocks d, build l as' k serial = .ok r ∧
        Assembled l f (as'.getD k default) g d₀ clusters blocks d r ∧
        Forest.Paid (l.uses (Liveness.entries as')) f.code {} d₀ := by
  have hk := solved.lt_length hf
  obtain ⟨g, hg, edges⟩ := solved.edgeRules hk
  obtain ⟨r, d₀, clusters, blocks, d, hbuild, -, h, paid⟩ :=
    exists_assembled serial (solved.liveRules hk) edges hg
  rw [List.getD_eq_getElem?_getD, hf, Option.getD_some] at h
  rw [(solved.hasFlow hf).flatMap_instrs] at paid
  exact ⟨g, hg, edges, r, d₀, clusters, blocks, d, hbuild, h, paid⟩

theorem exists_assembled_of_solved {l : Listing} {as as' : List Annotation} {k : Nat}
    {f : Function} (solved : Liveness.Solved l as as') (hf : l.functions[k]? = some f)
    (serial : Nat) :
    ∃ g, (as'.getD k default).flow = some g ∧ EdgeRules (as'.getD k default) g ∧
      ∃ r d₀ clusters blocks d, build l as' k serial = .ok r ∧
        Assembled l f (as'.getD k default) g d₀ clusters blocks d r := by
  obtain ⟨g, hg, edges, r, d₀, clusters, blocks, d, hbuild, h, -⟩ :=
    exists_paid_of_solved solved hf serial
  exact ⟨g, hg, edges, r, d₀, clusters, blocks, d, hbuild, h⟩

/-- The webs of a local are exactly the classes of its sites, each once. Looking up a local at one
of its sites finds the web that holds the site, and finds nothing elsewhere. -/
theorem build_ranges {l : Listing} {as as' : List Annotation} {k : Nat} {f : Function}
    (solved : Liveness.Solved l as as') (hf : l.functions[k]? = some f) (serial : Nat) :
    ∃ r, build l as' k serial = .ok r ∧ (∀ w ∈ r.webs, l.isLocal f w.symbol = true) ∧
      ∀ s, l.isLocal f s = true →
        let sites := (LiveAssignment.ofAnnotations as').Sites k f s
        let joins := (LiveAssignment.ofAnnotations as').Joins k f (as'.getD k default) s
        {R : Set InstrId | ∃ w ∈ r.websOf s, R = {x | x ∈ w.range}} =
            {R | ∃ x ∈ sites, R = {y | Relation.EqvGen joins x y}} ∧
          ((r.websOf s).Pairwise fun v w => ∀ x ∈ v.range, x ∉ w.range) ∧
          (∀ x ∈ sites, ∃! w, w ∈ r.websOf s ∧ x ∈ w.range) ∧
          (∀ x w, r.lookup? s x = some w ↔ w ∈ r.websOf s ∧ x ∈ w.range) ∧
          ∀ x ∉ sites, r.lookup? s x = none := by
  have rules := solved.liveRules (solved.lt_length hf)
  obtain ⟨g, hg, edges, r, d₀, clusters, blocks, d, hbuild, h⟩ :=
    exists_assembled_of_solved solved hf serial
  refine ⟨r, hbuild, fun w hw => ?_, fun s loc => ?_⟩
  · obtain ⟨x, hx⟩ := h.exists_mem_range hw
    exact (h.covered_of_lookup? (h.lookup?_eq_some_iff.2 ⟨mem_websOf.2 ⟨hw, rfl⟩, hx⟩)).1
  · have site {x} := h.exists_lookup?_iff (x := x) solved hf loc
    have range {x w} (hw : r.lookup? s x = some w) : {y | y ∈ w.range} = {y | Relation.EqvGen
        ((LiveAssignment.ofAnnotations as').Joins k f (as'.getD k default) s) x y} := by
      rw [joins_eq_continues solved hf]
      exact Set.ext fun y => h.mem_range_iff rules edges hg hw
    refine ⟨Set.ext fun R => ⟨fun given => ?_, fun given => ?_⟩, h.pairwise_websOf s,
      fun x hx => ?_, fun x w => h.lookup?_eq_some_iff, fun x hx => ?_⟩
    · rcases given with ⟨w, mem, rfl⟩
      obtain ⟨x, hx⟩ := h.exists_mem_range (mem_websOf.1 mem).1
      have hw := h.lookup?_eq_some_iff.2 ⟨mem, hx⟩
      exact ⟨x, site.1 ⟨w, hw⟩, range hw⟩
    · rcases given with ⟨x, hx, rfl⟩
      obtain ⟨w, hw⟩ := site.2 hx
      exact ⟨w, (mem_websOf_of_lookup? hw).1, (range hw).symm⟩
    · obtain ⟨w, hw⟩ := site.2 hx
      refine ⟨w, mem_websOf_of_lookup? hw, fun v hv => ?_⟩
      exact Option.some.inj ((h.lookup?_eq_some_iff.2 hv).symm.trans hw)
    · exact Option.eq_none_iff_forall_ne_some.2 fun w hw => hx (site.1 ⟨w, hw⟩)

/-- The two values of `a` in `countdown` have webs of their own. The second value is tied together
all around the loop, and the first is not tied to it. -/
theorem build_ranges_countdown :
    countdown.isLocal (countdown.functions.getD 0 default) 5 = true ∧
      let joins := (LiveAssignment.ofAnnotations countdown.analyzed.2).Joins 0
        (countdown.functions.getD 0 default) (countdown.analyzed.2.getD 0 default) 5
      Relation.EqvGen joins ⟨2, 0⟩ ⟨6, 0⟩ ∧ ¬Relation.EqvGen joins ⟨1, 0⟩ ⟨2, 0⟩ := by
  have loc : countdown.isLocal (countdown.functions.getD 0 default) 5 = true := by decide
  obtain ⟨r, hbuild, -, ranges⟩ := build_ranges (k := 0) (f := countdown.functions.getD 0 default)
    (solved_analyzed (l := countdown) (by decide)) rfl 0
  obtain ⟨classes, -⟩ := ranges 5 loc
  obtain ⟨r', u, v, w, hbuild', hr, hu, rangeu, -, hw, rangew, -⟩ := countdown_webs
  cases hbuild.symm.trans hbuild'
  have memu : u ∈ r.websOf 5 := mem_websOf.2 ⟨by simp [hr], hu⟩
  have memw : w ∈ r.websOf 5 := mem_websOf.2 ⟨by simp [hr], hw⟩
  obtain ⟨x, -, classu⟩ := (Set.ext_iff.1 classes {y | y ∈ u.range}).1 ⟨u, memu, rfl⟩
  obtain ⟨z, -, classw⟩ := (Set.ext_iff.1 classes {y | y ∈ w.range}).1 ⟨w, memw, rfl⟩
  have inu (y : InstrId) := Set.ext_iff.1 classu y
  have inw (y : InstrId) := Set.ext_iff.1 classw y
  simp only [Set.mem_ofPred, OrdSet.mem_def, rangeu] at inu
  simp only [Set.mem_ofPred, OrdSet.mem_def, rangew] at inw
  refine ⟨loc, ?_, fun way => ?_⟩
  · exact .trans _ _ _ (.symm _ _ ((inw ⟨2, 0⟩).1 (by decide))) ((inw ⟨6, 0⟩).1 (by decide))
  · have there := (inu ⟨2, 0⟩).2 (.trans _ _ _ ((inu ⟨1, 0⟩).1 (by decide)) way)
    exact absurd there (by decide)

end Webs

end RegColor
