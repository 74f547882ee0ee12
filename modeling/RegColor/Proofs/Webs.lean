import RegColor.Proofs.Coloring
import RegColor.Proofs.Flow
import RegColor.Proofs.Scan

/-!
# What webs guarantee

`Webs.build` succeeds over live sets that obey the rules of liveness, and its result is `Faithful`:

* every local that is live before an instruction or written by it has a web there;
* the web of a local stays the same where control passes and the local is live;
* the webs of two locals that are live after an instruction or written by it interfere.

The webs of a scan are united along the edges of the control flow. `joinAll_ok` says that this
succeeds, that the webs that meet on an edge are one from then on, and that no others are
(`Joining`). `Assembled` puts together what the parts of a build leave behind;
`Assembled.lookup?_eq_some` reads the web of a local at an instruction off the united sets.
-/

namespace RegColor

namespace Webs

open Block

variable {l : Listing} {f : Function} {uses : Instr → List SymbolId} {a : Annotation} {g : Digraph}
  {d d₀ d' : Forest} {clusters : List (List Nat)} {blocks : List BlockWebs} {n t : Nat}

/-! ## Joining blocks -/

/-- The edges of a function lead to blocks, and what is live on entry to a successor is live on exit
from the block. -/
structure EdgeRules (a : Annotation) (g : Digraph) : Prop where
  lt : ∀ {n t}, t ∈ g.successors n → t < a.blocks.length
  sub : ∀ {n t b s}, a.blocks[n]? = some b → t ∈ g.successors n → s ∈ a.setAt t 0 →
    s ∈ a.setAt n b.instrs.length

/-- The outcome of scanning all blocks of a function. -/
structure Scanned (l : Listing) (f : Function) (a : Annotation) (d : Forest)
    (clusters : List (List Nat)) (blocks : List BlockWebs) : Prop where
  valid : Scan.Valid { forest := d, clusters }
  justified : Justified a d clusters
  filled : ∀ {w}, w < d.size → ∃ s x, d.Covers s x w
  placed : ∀ {s x w}, d.Covers s x w → ∃ n j i, instrAt? a.blocks n j = some i ∧ i.id = x
  length : blocks.length = a.blocks.length
  facts : ∀ {n b}, a.blocks[n]? = some b → BlockFacts l f a n b d clusters (blocks.getD n default)

theorem scanned (rules : LiveRules uses a) :
    ∃ d clusters blocks, scanBlocks l f uses a.live {} [] 0 a.blocks = .ok (d, clusters, blocks) ∧
      Scanned l f a d clusters blocks ∧
      Forest.Paid uses (a.blocks.flatMap Block.instrs) {} d := by
  have empty : Scan.Valid { forest := {}, clusters := [] } :=
    ⟨fun w hw => absurd hw (Nat.not_lt_zero w), fun w hw => absurd hw (Nat.not_lt_zero w),
      fun s w hw => (nomatch hw), fun c hc => (nomatch hc), fun w hw => (nomatch hw)⟩
  have uncovered {s x w} : ¬Forest.Covers {} s x w := fun hw => absurd hw.lt (Nat.not_lt_zero w)
  obtain ⟨d, clusters, blocks, hscan, valid, keeps, justified, length, facts, paid⟩ :=
    scanBlocks_ok (l := l) (f := f) rules (k := 0) (fun m => by rw [Nat.zero_add]) empty
      ⟨fun hw => absurd hw uncovered, fun c hc => (nomatch hc)⟩ fun x _ s w => uncovered
  refine ⟨d, clusters, blocks, hscan, ⟨valid, justified, fun {w} => keeps.filled (Nat.zero_le w),
    fun {s x w} hw => ?_, length, fun {n b} hb => ?_⟩, paid⟩
  · by_contra nowhere
    refine uncovered (keeps.away (fun stands => nowhere ?_) hw)
    rcases stands with ⟨n, j, i, -, placed⟩
    exact ⟨n, j, i, placed⟩
  · have lt : n < blocks.length := length ▸ (List.getElem?_eq_some_iff.1 hb).1
    have := facts n b blocks[n] hb (List.getElem?_eq_getElem lt)
    rwa [Nat.zero_add, ← List.getD_eq_getElem _ default lt] at this

theorem Scanned.instrWebs (scan : Scanned l f a d₀ clusters blocks) {j : Nat} {i : Instr}
    (hi : instrAt? a.blocks n j = some i) :
    InstrWebs l f (a.setAt n j) (a.setAt n (j + 1)) i d₀ clusters := by
  obtain ⟨b, hb, hi⟩ := instrAt?_eq_some.1 hi
  exact (scan.facts hb).instr j i hi

theorem Scanned.unique (scan : Scanned l f a d₀ clusters blocks) {s : SymbolId} {x : InstrId}
    {w w' : Nat} (hw : d₀.Covers s x w) (hw' : d₀.Covers s x w') : w = w' := by
  obtain ⟨n, j, i, hi, rfl⟩ := scan.placed hw
  exact (scan.instrWebs hi).unique hw hw'

/-- Sets of webs that hang together along the control flow. -/
structure Joining (a : Annotation) (d₀ d : Forest) : Prop extends d₀.Joined d where
  tied : ∀ {s x y j k}, d₀.Covers s x j → d₀.Covers s y k → d.root j = d.root k →
    Relation.EqvGen (a.Continues s) x y

theorem Scanned.joining (scan : Scanned l f a d₀ clusters blocks) : Joining a d₀ d₀ := by
  have joined : d₀.Joined d₀ := .refl scan.valid.flat
  refine ⟨joined, fun {s x y j k} hj hk e => ?_⟩
  have root {k} (hk : k < d₀.size) : d₀.root k = k :=
    Forest.Leads.root_eq joined.sound hk (.root (scan.valid.flat k hk))
  rw [root hj.lt, root hk.lt] at e
  subst e
  exact scan.justified.tied hj hk

/-- Uniting two webs of a variable that is carried from one to the other. -/
theorem Joining.union (h : Joining a d₀ d) {s : SymbolId} {x y : InstrId} {w out : Nat}
    (hw : d₀.Covers s x w) (hout : d₀.Covers s y out) (carried : a.Continues s y x) :
    Joining a d₀ (d.union w out).1 := by
  have lt {k} (hk : k < d₀.size) : k < d.size := h.size.symm ▸ hk
  have way : Relation.EqvGen (a.Continues s) y x := .rel _ _ carried
  refine ⟨h.toJoined.union hw.lt hout.lt (hw.symbol.trans hout.symbol.symm), ?_⟩
  intro t x' y' j k hj hk e
  rcases (Forest.root_union_eq_iff h.sound (lt hw.lt) (lt hout.lt) (lt hj.lt) (lt hk.lt)).1 e with
    e | ⟨ej, ek⟩ | ⟨ej, ek⟩
  · exact h.tied hj hk e
  -- Webs of the two sets that are united: the way leads over the two ends given.
  · have same : t = s := by
      rw [← hj.symbol, ← hw.symbol, h.symbol_eq hj.lt hw.lt ej]
    subst same
    exact .trans _ _ _ (h.tied hj hw ej) (.trans _ _ _ (.symm _ _ way) (h.tied hout hk ek.symm))
  · have same : t = s := by
      rw [← hj.symbol, ← hout.symbol, h.symbol_eq hj.lt hout.lt ej]
    subst same
    exact .trans _ _ _ (h.tied hj hout ej) (.trans _ _ _ way (h.tied hw hk ek.symm))

/-- Webs united once stay united. -/
def Finer (d₀ d d' : Forest) : Prop :=
  ∀ j < d₀.size, ∀ k < d₀.size, d.root j = d.root k → d'.root j = d'.root k

theorem Finer.refl (d₀ d : Forest) : Finer d₀ d d := fun _ _ _ _ e => e

theorem Finer.trans {d₁ d₂ d₃ : Forest} (h : Finer d₀ d₁ d₂) (h' : Finer d₀ d₂ d₃) :
    Finer d₀ d₁ d₃ := fun j hj k hk e => h' j hj k hk (h j hj k hk e)

/-- The webs of a variable that meet on the edge from block `n` to block `t` are one. -/
def Met (blocks : List BlockWebs) (d : Forest) (n t : Nat) (s : SymbolId) : Prop :=
  ∀ w out, (blocks.getD t default).entry.get? s = some w →
    (blocks.getD n default).exit.get? s = some out → d.root w = d.root out

section Joins

variable (scan : Scanned l f a d₀ clusters blocks) (edges : EdgeRules a g) (hg : a.flow = some g)

include scan edges hg

/-- The webs that meet on an edge are webs of one variable, which is carried over the edge. -/
theorem exists_exit {s : SymbolId} {w : Nat} (hn : n < a.blocks.length)
    (ht : t ∈ g.successors n) (hw : (blocks.getD t default).entry.get? s = some w) :
    ∃ out, (blocks.getD n default).exit.get? s = some out ∧
      ∃ x y, d₀.Covers s x w ∧ d₀.Covers s y out ∧ a.Continues s y x := by
  have hn' : t < a.blocks.length := edges.lt ht
  have hb : a.blocks[n]? = some a.blocks[n] := List.getElem?_eq_getElem hn
  have hb' : a.blocks[t]? = some a.blocks[t] := List.getElem?_eq_getElem hn'
  have enters := scan.facts hb'
  have leaves := scan.facts hb
  obtain ⟨loc, hs⟩ := (enters.entered s).1 ⟨w, hw⟩
  obtain ⟨out, hout⟩ := (leaves.left s).2 ⟨loc, edges.sub hb ht hs⟩
  have pos := a.blocks[n].length_instrs_pos
  refine ⟨out, hout, _, _, enters.entry s w hw, leaves.exit s out hout, n,
    a.blocks[n].instrs.length - 1, t, 0, _, _, ?_, rfl, instrAt?_eq_some.2 ⟨_, hb', rfl⟩, rfl,
    .edge hb (by omega) hg ht, hs⟩
  exact instrAt?_eq_some.2 ⟨_, hb, Block.getElem?_instrs_last _⟩

theorem Met.finer (hn : n < a.blocks.length) (ht : t ∈ g.successors n) {s : SymbolId}
    (h : Met blocks d n t s) (finer : Finer d₀ d d') : Met blocks d' n t s := by
  intro w out hw hout
  obtain ⟨out', hout', x, y, cw, cout, -⟩ := exists_exit scan edges hg hn ht hw
  cases hout'.symm.trans hout
  exact finer w cw.lt out cout.lt (h w out hw hout)

theorem joinSymbol_ok (hn : n < a.blocks.length) (ht : t ∈ g.successors n)
    (h : Joining a d₀ d) {e : SymbolId × Nat} (he : e ∈ (blocks.getD t default).entry.toList) :
    ∃ d', joinSymbol l f blocks n t d e = .ok d' ∧ Joining a d₀ d' ∧ Finer d₀ d d' ∧
      Met blocks d' n t e.1 := by
  have hw := OrdMap.get?_eq_some_iff.2 he
  obtain ⟨out, hout, x, y, cw, cout, carried⟩ := exists_exit scan edges hg hn ht hw
  have lt {k} (hk : k < d₀.size) : k < d.size := h.size.symm ▸ hk
  have root {j k} (hj : j < d₀.size) (hk : k < d₀.size) :=
    Forest.root_union_eq_iff h.sound (lt cw.lt) (lt cout.lt) (lt hj) (lt hk)
  refine ⟨_, by rw [joinSymbol, hout], h.union cw cout carried,
    fun j hj k hk e => (root hj hk).2 (.inl e), fun w' out' hw' hout' => ?_⟩
  cases hw.symm.trans hw'
  cases hout.symm.trans hout'
  exact (root cw.lt cout.lt).2 (.inr (.inl ⟨rfl, rfl⟩))

theorem joinEdge_ok (hn : n < a.blocks.length) (ht : t ∈ g.successors n) (h : Joining a d₀ d) :
    ∃ d', joinEdge l f blocks n d t = .ok d' ∧ Joining a d₀ d' ∧ Finer d₀ d d' ∧
      ∀ s, Met blocks d' n t s := by
  obtain ⟨d', hfold, joining, finer, post⟩ := foldlM_post (Joining a d₀) (Finer d₀)
    (fun d (e : SymbolId × Nat) => Met blocks d n t e.1) (Finer.refl d₀)
    (fun _ _ _ => Finer.trans)
    (fun _ _ _ finer met => met.finer scan edges hg hn ht finer)
    (fun _ _ he h => joinSymbol_ok scan edges hg hn ht h he) h
  refine ⟨d', hfold, joining, finer, fun s w out hw hout => ?_⟩
  exact post (s, w) (OrdMap.get?_eq_some_iff.1 hw) w out hw hout

theorem joinEdges_ok (hn : n < a.blocks.length) (h : Joining a d₀ d) :
    ∃ d', joinEdges l f a.flow blocks d n = .ok d' ∧ Joining a d₀ d' ∧ Finer d₀ d d' ∧
      ∀ t ∈ g.successors n, ∀ s, Met blocks d' n t s := by
  have step (d : Forest) (t : Nat) (ht : t ∈ g.successors n) (h : Joining a d₀ d) :
      ∃ d', joinEdge l f blocks n d t = .ok d' ∧ Joining a d₀ d' ∧ Finer d₀ d d' ∧
        (t ∈ g.successors n ∧ ∀ s, Met blocks d' n t s) := by
    obtain ⟨d', hstep, joining, finer, met⟩ := joinEdge_ok scan edges hg hn ht h
    exact ⟨d', hstep, joining, finer, ht, met⟩
  obtain ⟨d', hfold, joining, finer, post⟩ := foldlM_post _ (Finer d₀) _ (Finer.refl d₀)
    (fun _ _ _ => Finer.trans)
    (fun _ _ _ finer met => ⟨met.1, fun s => (met.2 s).finer scan edges hg hn met.1 finer⟩) step h
  refine ⟨d', ?_, joining, finer, fun t ht => (post t ht).2⟩
  rw [hg]
  exact hfold

/-- Joining succeeds, the webs that meet on an edge are one, and no others are. -/
theorem joinAll_ok :
    ∃ d, (List.range a.blocks.length).foldlM (joinEdges l f a.flow blocks) d₀ = .ok d ∧
      Joining a d₀ d ∧ ∀ n < a.blocks.length, ∀ t ∈ g.successors n, ∀ s, Met blocks d n t s := by
  have step (d : Forest) (n : Nat) (hn : n ∈ List.range a.blocks.length) (h : Joining a d₀ d) :
      ∃ d', joinEdges l f a.flow blocks d n = .ok d' ∧ Joining a d₀ d' ∧ Finer d₀ d d' ∧
        (n < a.blocks.length ∧ ∀ t ∈ g.successors n, ∀ s, Met blocks d' n t s) := by
    have lt := List.mem_range.1 hn
    obtain ⟨d', hstep, joining, finer, met⟩ := joinEdges_ok scan edges hg lt h
    exact ⟨d', hstep, joining, finer, lt, met⟩
  obtain ⟨d, hfold, joining, -, post⟩ := foldlM_post _ (Finer d₀) _ (Finer.refl d₀)
    (fun _ _ _ => Finer.trans)
    (fun _ _ _ finer met =>
      ⟨met.1, fun t ht s => (met.2 t ht s).finer scan edges hg met.1 ht finer⟩) step scan.joining
  exact ⟨d, hfold, joining, fun n hn => (post n (List.mem_range.2 hn)).2⟩

end Joins

/-! ## Interference -/

/-- Two webs interfere if they stand in one cluster. -/
theorem adjacent_interference {webs : List Nat} {u v : Nat} :
    (interference webs clusters).adjacent u v = true ↔ u ≠ v ∧ ∃ c ∈ clusters, u ∈ c ∧ v ∈ c := by
  have member {w : Nat} {c : List Nat} : (w : Int) ∈ c.map Int.ofNat ↔ w ∈ c := by
    rw [List.mem_map]
    constructor
    · intro given
      rcases given with ⟨v, hv, e⟩
      cases Int.ofNat.inj e
      exact hv
    · exact fun hw => ⟨w, hw, rfl⟩
  have vertices (g : Graph) :
      (webs.foldl (fun g (w : Nat) => g.addVertex w) g).adjacent u v = g.adjacent u v := by
    induction webs generalizing g with
    | nil => rfl
    | cons w ws ih =>
      rw [List.foldl_cons, ih]
      exact Adjacency.adjacent_addVertex
  have cliques (cs : List (List Nat)) (g : Graph) :
      (cs.foldl (fun g c => g.addClique (c.map Int.ofNat)) g).adjacent u v = true ↔
        g.adjacent u v = true ∨ (u ≠ v ∧ ∃ c ∈ cs, u ∈ c ∧ v ∈ c) := by
    induction cs generalizing g with
    | nil => simp
    | cons c cs ih =>
      rw [List.foldl_cons, ih, Graph.adjacent_addClique, member, member, Ne, Int.natCast_inj,
        or_assoc, ← and_or_left, List.exists_mem_cons_iff]
  rw [interference, cliques, vertices]
  refine or_iff_right fun h => ?_
  exact OrdSet.not_mem_empty _ (Adjacency.adjacent_iff.1 h)

/-- The clusters add no vertices to the webs that they are made of. -/
theorem mem_vertices_interference {webs : List Nat}
    (inside : ∀ c ∈ clusters, ∀ w ∈ c, w ∈ webs) {x : Int} :
    x ∈ (interference webs clusters).vertices ↔ ∃ w ∈ webs, (w : Int) = x := by
  have vertices (ws : List Nat) (g : Graph) (x : Int) :
      x ∈ (ws.foldl (fun g (w : Nat) => g.addVertex w) g).vertices ↔
        x ∈ g.vertices ∨ ∃ w ∈ ws, (w : Int) = x := by
    induction ws generalizing g with
    | nil => simp
    | cons w ws ih =>
      rw [List.foldl_cons, ih, List.exists_mem_cons_iff, ← or_assoc]
      refine or_congr_left ?_
      refine Adjacency.mem_vertices_addVertex.trans ?_
      rw [or_comm, eq_comm]
  have cliques (cs : List (List Nat)) (g : Graph)
      (inside : ∀ c ∈ cs, ∀ w ∈ c, (w : Int) ∈ g.vertices) :
      (cs.foldl (fun g c => g.addClique (c.map Int.ofNat)) g).vertices = g.vertices := by
    induction cs generalizing g with
    | nil => rfl
    | cons c cs ih =>
      obtain ⟨here, others⟩ := List.forall_mem_cons.1 inside
      have same : (g.addClique (c.map Int.ofNat)).vertices = g.vertices :=
        Graph.vertices_addClique (List.forall_mem_map.2 here)
      rw [List.foldl_cons, ih _ (same.symm ▸ others), same]
  have roots (x : Int) := (vertices webs .empty x).trans (or_iff_right (OrdSet.not_mem_empty x))
  rw [interference, cliques _ _ fun c hc w hw => (roots w).2 ⟨w, inside c hc w hw, rfl⟩]
  exact roots x

theorem mem_canonical {ids : List Nat} {w : Nat} :
    w ∈ canonical d ids ↔ ∃ v ∈ ids, d.root v = w := by
  rw [canonical, List.mem_eraseDups, List.mem_map]

/-! ## What a build leaves behind -/

/-- The parts of a build: the webs of a scan, united along the control flow, and what is read off
the united sets. -/
structure Assembled (l : Listing) (f : Function) (a : Annotation) (g : Digraph) (d₀ : Forest)
    (clusters : List (List Nat)) (blocks : List BlockWebs) (d : Forest) (r : Webs) : Prop where
  scan : Scanned l f a d₀ clusters blocks
  joining : Joining a d₀ d
  met : ∀ n < a.blocks.length, ∀ t ∈ g.successors n, ∀ s, Met blocks d n t s
  webs : r.webs = d.roots.map d.web
  blockWebs : r.blocks = blocks.map fun b =>
    { entry := b.entry.map d.root, exit := b.exit.map d.root, closed := canonical d b.closed }
  clustered : r.clusters = clusters.map (canonical d)
  graph : r.graph = interference d.roots (clusters.map (canonical d))

/-- Building webs succeeds, and the webs of the scan have paid for all accesses. -/
theorem exists_assembled {as : List Annotation} {k : Nat} (serial : Nat)
    (rules : LiveRules (l.uses (Liveness.entries as)) (as.getD k default))
    (edges : EdgeRules (as.getD k default) g) (hg : (as.getD k default).flow = some g) :
    ∃ r d₀ clusters blocks d, build l as k serial = .ok r ∧ r.function = k ∧
      Assembled l (l.functions.getD k default) (as.getD k default) g d₀ clusters blocks d r ∧
      Forest.Paid (l.uses (Liveness.entries as))
        ((as.getD k default).blocks.flatMap Block.instrs) {} d₀ := by
  obtain ⟨d₀, clusters, blocks, hscan, scan, paid⟩ := scanned (l := l)
    (f := l.functions.getD k default) rules
  obtain ⟨d, hjoin, joining, met⟩ := joinAll_ok scan edges hg
  exact ⟨_, d₀, clusters, blocks, d,
    by rw [build]; simp only [hscan, hjoin, bind, Except.bind]; rfl,
    rfl, ⟨scan, joining, met, rfl, rfl, rfl, rfl⟩, paid⟩

theorem mem_of_lookup? {r : Webs} {s : SymbolId} {x : InstrId} {w : Web}
    (h : r.lookup? s x = some w) : w ∈ r.webs ∧ w.symbol = s ∧ x ∈ w.range := by
  have holds := List.find?_some h
  simp only [Bool.and_eq_true, decide_eq_true_eq] at holds
  exact ⟨List.mem_of_find?_eq_some h, holds⟩

/-! ## The guarantees -/

/-- What the webs of a function guarantee. -/
structure Faithful (l : Listing) (f : Function) (a : Annotation) (r : Webs) : Prop where
  found : ∀ {n j i s}, instrAt? a.blocks n j = some i → l.isLocal f s = true →
    s ∈ a.setAt n j ∨ s ∈ i.defs → ∃ w, r.lookup? s i.id = some w
  carried : ∀ {n j i n' j' i' s}, instrAt? a.blocks n j = some i →
    instrAt? a.blocks n' j' = some i' → a.Passes n j n' j' → l.isLocal f s = true →
    s ∈ a.setAt n (j + 1) → s ∈ a.setAt n' j' → r.lookup? s i'.id = r.lookup? s i.id
  apart : ∀ {n j i s t w v}, instrAt? a.blocks n j = some i → s ≠ t →
    s ∈ a.setAt n (j + 1) ∨ s ∈ i.defs → t ∈ a.setAt n (j + 1) ∨ t ∈ i.defs →
    r.lookup? s i.id = some w → r.lookup? t i.id = some v → r.graph.adjacent w.id v.id = true

namespace Assembled

variable {r : Webs} {i i' : Instr} {j k n' j' : Nat} {s : SymbolId} {x : InstrId} {w : Web}

theorem root_lt (h : Assembled l f a g d₀ clusters blocks d r) (hk : k < d₀.size) :
    d.root k < d₀.size :=
  h.joining.size ▸ Forest.root_lt h.joining.sound (h.joining.size.symm ▸ hk)

theorem root_root (h : Assembled l f a g d₀ clusters blocks d r) (hk : k < d₀.size) :
    d.root (d.root k) = d.root k :=
  Forest.root_root h.joining.sound (h.joining.size.symm ▸ hk)

/-- The webs of a build are those of the roots. -/
theorem mem_webs (h : Assembled l f a g d₀ clusters blocks d r) :
    w ∈ r.webs ↔ ∃ k < d₀.size, d.root k = k ∧ d.web k = w := by
  rw [h.webs, List.mem_map]
  refine exists_congr fun k => ?_
  rw [Forest.mem_roots, h.joining.size, and_assoc]

theorem id_eq (h : Assembled l f a g d₀ clusters blocks d r) (hk : k < d₀.size) :
    (d.web k).id = k :=
  (h.joining.id k).trans (h.scan.valid.id k hk)

/-- What the webs of a variable cover after uniting is what they covered before. -/
theorem mem_range (h : Assembled l f a g d₀ clusters blocks d r) (hk : k < d₀.size)
    (isRoot : d.root k = k) :
    x ∈ (d.web k).range ↔ ∃ v, d.root v = k ∧ d₀.Covers (d.web k).symbol x v := by
  rw [h.joining.range k hk isRoot]
  refine exists_congr fun v => ?_
  constructor
  · intro given
    rcases given with ⟨lt, root, mem⟩
    refine ⟨root, lt, ?_, mem⟩
    rw [h.joining.symbol, ← root, h.joining.root_symbol v lt]
  · intro given
    rcases given with ⟨root, lt, -, mem⟩
    exact ⟨lt, root, mem⟩

/-- The web of a local at an instruction is the root of the only web that covers it there. -/
theorem lookup?_eq_some (h : Assembled l f a g d₀ clusters blocks d r) :
    r.lookup? s x = some w ↔ ∃ k, d₀.Covers s x k ∧ d.web (d.root k) = w := by
  have found {w : Web} (hw : r.lookup? s x = some w) :
      ∃ k, d₀.Covers s x k ∧ d.web (d.root k) = w := by
    obtain ⟨mem, rfl, here⟩ := mem_of_lookup? hw
    obtain ⟨root, lt, isRoot, rfl⟩ := h.mem_webs.1 mem
    obtain ⟨k, e, hk⟩ := (h.mem_range lt isRoot).1 here
    exact ⟨k, hk, by rw [e]⟩
  refine ⟨found, fun given => ?_⟩
  rcases given with ⟨k, hk, rfl⟩
  cases hw : r.lookup? s x with
  | some v =>
    obtain ⟨k', hk', rfl⟩ := found hw
    rw [h.scan.unique hk hk']
  | none =>
    rw [lookup?, List.find?_eq_none] at hw
    have lt := h.root_lt hk.lt
    have isRoot := h.root_root hk.lt
    have symbol : (d.web (d.root k)).symbol = s := by
      rw [h.joining.symbol, h.joining.root_symbol k hk.lt, hk.symbol]
    have mem : x ∈ (d.web (d.root k)).range :=
      (h.mem_range lt isRoot).2 ⟨k, rfl, symbol.symm ▸ hk⟩
    exact absurd (by simp [symbol, mem]) (hw _ (h.mem_webs.2 ⟨_, lt, isRoot, rfl⟩))

theorem lookup?_of_covers (h : Assembled l f a g d₀ clusters blocks d r) (hk : d₀.Covers s x k) :
    r.lookup? s x = some (d.web (d.root k)) :=
  h.lookup?_eq_some.2 ⟨k, hk, rfl⟩

/-- The web of a local is carried along by control: inside a block by the scan, over an edge because
the webs that meet there are one. -/
theorem lookup?_of_passes (h : Assembled l f a g d₀ clusters blocks d r) (rules : LiveRules uses a)
    (hg : a.flow = some g) (hi : instrAt? a.blocks n j = some i)
    (hi' : instrAt? a.blocks n' j' = some i') (pass : a.Passes n j n' j')
    (loc : l.isLocal f s = true) (hs : s ∈ a.setAt n (j + 1)) (hs' : s ∈ a.setAt n' j') :
    r.lookup? s i'.id = r.lookup? s i.id := by
  obtain ⟨w, hw⟩ := (h.scan.instrWebs hi).covered loc (rules.pass hi hs)
  rw [h.lookup?_of_covers hw]
  cases pass with
  | inside _ =>
    obtain ⟨b, hb, hib⟩ := instrAt?_eq_some.1 hi
    have next := (h.scan.facts hb).next j i i' hib (instrAt?_of_block hb ▸ hi') s w loc hs hw
    rw [h.lookup?_of_covers next]
  | @edge _ b g' hb last hg' ht =>
    cases hg'.symm.trans hg
    have hn := (List.getElem?_eq_some_iff.1 hb).1
    obtain ⟨b', hb', hi'b⟩ := instrAt?_eq_some.1 hi'
    cases hi'b
    have lastInstr : b.last = i := by
      rw [instrAt?_of_block hb, show j = b.instrs.length - 1 by omega, b.getElem?_instrs_last] at hi
      exact Option.some.inj hi
    obtain ⟨out, hout⟩ := ((h.scan.facts hb).left s).2 ⟨loc, last ▸ hs⟩
    obtain ⟨enter, henter⟩ := ((h.scan.facts hb').entered s).2 ⟨loc, hs'⟩
    have cout := lastInstr ▸ (h.scan.facts hb).exit s out hout
    rw [h.lookup?_of_covers ((h.scan.facts hb').entry s enter henter),
      h.met n hn n' ht s enter out henter hout, h.scan.unique cout hw]

/-- Different webs that are kept or written at an instruction are neighbours: they stand in one
cluster. -/
theorem adjacent_of_lookup? {t : SymbolId} {v : Web}
    (h : Assembled l f a g d₀ clusters blocks d r) (hi : instrAt? a.blocks n j = some i)
    (hs : s ∈ a.setAt n (j + 1) ∨ s ∈ i.defs) (ht : t ∈ a.setAt n (j + 1) ∨ t ∈ i.defs)
    (hw : r.lookup? s i.id = some w) (hv : r.lookup? t i.id = some v) (ne : w ≠ v) :
    r.graph.adjacent w.id v.id = true := by
  obtain ⟨x, hx, rfl⟩ := h.lookup?_eq_some.1 hw
  obtain ⟨y, hy, rfl⟩ := h.lookup?_eq_some.1 hv
  obtain ⟨c, mem, all⟩ := (h.scan.instrWebs hi).clustered
  have hxc := all s x hx hs
  have hyc := all t y hy ht
  have hc : c ∈ clusters := mem.resolve_left fun e => by rw [e] at hxc; cases hxc
  rw [h.graph, h.id_eq (h.root_lt hx.lt), h.id_eq (h.root_lt hy.lt), adjacent_interference]
  exact ⟨fun e => ne (congrArg d.web e), _, List.mem_map.2 ⟨c, hc, rfl⟩,
    mem_canonical.2 ⟨x, hxc, rfl⟩, mem_canonical.2 ⟨y, hyc, rfl⟩⟩

theorem faithful (h : Assembled l f a g d₀ clusters blocks d r) (rules : LiveRules uses a)
    (hg : a.flow = some g) : Faithful l f a r where
  found hi loc hs :=
    ((h.scan.instrWebs hi).covered loc hs).elim fun _ hw => ⟨_, h.lookup?_of_covers hw⟩
  carried := h.lookup?_of_passes rules hg
  apart hi ne hs ht hw hv := h.adjacent_of_lookup? hi hs ht hw hv fun e =>
    ne (by rw [← (mem_of_lookup? hw).2.1, e, (mem_of_lookup? hv).2.1])

end Assembled

/-- Building webs succeeds, and the result keeps its guarantees. -/
theorem build_ok {as : List Annotation} {k : Nat} (serial : Nat)
    (rules : LiveRules (l.uses (Liveness.entries as)) (as.getD k default))
    (edges : EdgeRules (as.getD k default) g) (hg : (as.getD k default).flow = some g) :
    ∃ r, build l as k serial = .ok r ∧ r.function = k ∧
      Faithful l (l.functions.getD k default) (as.getD k default) r := by
  obtain ⟨r, d₀, clusters, blocks, d, hbuild, hfun, assembled, -⟩ :=
    exists_assembled serial rules edges hg
  exact ⟨r, hbuild, hfun, assembled.faithful rules hg⟩

end Webs

end RegColor
