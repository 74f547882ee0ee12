import RegColor.Digraph
import RegColor.Proofs.Data

/-!
# Edges seen from both ends

A directed graph keeps an edge in two tables, one for each end, and it is only the calls that change
the graph that keep the tables in step. `Digraph.Call` is such a call, and `Digraph.Records` says
what each table holds after some calls, told from the calls alone. One call keeps it
(`Records.vertex`, `Records.edge`), hence so does every sequence of calls that are in range
(`Records.run`).

* `pairwise_eraseDups`: leaving out repetitions keeps the order of first occurrences;
* `distinct_eq_eraseDups`: this is what the loop over the members seen so far does;
* `exists_addEdge`: an edge goes to the end of one list in each table;
* `Digraph.run_records`: both tables agree with the calls, and so with each other.
-/

namespace RegColor

/-! ## First occurrences -/

section First

variable {α β : Type} [BEq α] [LawfulBEq α] [BEq β] [LawfulBEq β]

/-- What is picked from a list first stands first in the list. -/
theorem idxOf_lt_of_filterMap {f : α → Option β} {x y : α} {a b : β}
    (ha : ∀ c, f c = some a ↔ c = x) (hb : ∀ c, f c = some b ↔ c = y) {cs : List α}
    (h : (cs.filterMap f).idxOf a < (cs.filterMap f).idxOf b) : cs.idxOf x < cs.idxOf y := by
  have apart : x ≠ y := by
    rintro rfl
    cases ((ha x).2 rfl).symm.trans ((hb x).2 rfl)
    exact Nat.lt_irrefl _ h
  induction cs with
  | nil => cases h
  | cons c cs ih =>
    by_cases hx : c = x
    · subst hx
      rw [List.idxOf_cons_self, List.idxOf_cons_ne _ apart]
      exact Nat.succ_pos _
    · by_cases hy : c = y
      · subst hy
        rw [List.filterMap_cons_some ((hb c).2 rfl), List.idxOf_cons_self] at h
        cases h
      · rw [List.idxOf_cons_ne _ hx, List.idxOf_cons_ne _ hy]
        refine Nat.succ_lt_succ (ih ?_)
        cases picked : f c with
        | none => rwa [List.filterMap_cons_none picked] at h
        | some d =>
          have da : d ≠ a := fun same => hx ((ha c).1 (same ▸ picked))
          have db : d ≠ b := fun same => hy ((hb c).1 (same ▸ picked))
          rw [List.filterMap_cons_some picked, List.idxOf_cons_ne _ da,
            List.idxOf_cons_ne _ db] at h
          exact Nat.lt_of_succ_lt_succ h

/-- Without repetitions, members stand in the order of their first occurrences. -/
theorem pairwise_eraseDups : ∀ xs : List α,
    xs.eraseDups.Pairwise fun a b => xs.idxOf a < xs.idxOf b
  | [] => .nil
  | x :: xs => by
    have other {a : α} (ha : a ∈ (xs.filter fun y => !y == x).eraseDups) : a ≠ x := by
      simpa using (List.mem_filter.1 (List.mem_eraseDups.1 ha)).2
    rw [List.eraseDups_cons]
    refine .cons (fun a ha => ?_) ((pairwise_eraseDups _).imp_of_mem fun {a b} ha hb lt => ?_)
    · rw [List.idxOf_cons_self, List.idxOf_cons_ne _ (other ha).symm]
      exact Nat.succ_pos _
    · rw [List.idxOf_cons_ne _ (other ha).symm, List.idxOf_cons_ne _ (other hb).symm]
      rw [← List.filterMap_eq_filter] at lt
      have kept {a : α} (ne : a ≠ x) (c : α) :
          Option.guard (fun y => !y == x) c = some a ↔ c = a := by
        rw [Option.guard_eq_some_iff]
        constructor
        · exact fun h => h.1
        · rintro rfl
          exact ⟨rfl, by simpa using ne⟩
      exact Nat.succ_lt_succ (idxOf_lt_of_filterMap (kept (other ha)) (kept (other hb)) lt)
termination_by xs => xs.length
decreasing_by exact Nat.lt_succ_of_le (List.length_filter_le ..)

end First

namespace Digraph

variable {g g' : Digraph} {u v n : Nat}

/-! ## Lists without repetitions -/

/-- The loop keeps what it has, and puts behind it what it has not seen. -/
theorem unseen_eq (seen : OrdSet Nat) (out vs : List Nat) :
    unseen seen out vs = out ++ (vs.filter (· ∉ seen)).eraseDups := by
  induction vs generalizing seen out with
  | nil => exact (List.append_nil out).symm
  | cons v vs ih =>
    unfold unseen
    split
    · next old => rw [ih, List.filter_cons_of_neg (by simpa using old)]
    · next new =>
      have rest : vs.filter (· ∉ seen.insert v) =
          (vs.filter (· ∉ seen)).filter fun w => !w == v := by
        rw [List.filter_filter]
        refine List.filter_congr fun w _ => ?_
        rw [Bool.eq_iff_iff]
        simp
      rw [ih, rest, List.filter_cons_of_pos (by simpa using new), List.eraseDups_cons,
        List.append_assoc, List.singleton_append]

theorem distinct_eq_eraseDups (vs : List Nat) : distinct vs = vs.eraseDups := by
  unfold distinct
  split
  · next short =>
    -- Nothing can repeat in a list of one member.
    match vs, short with
    | [], _ => rfl
    | [v], _ => rfl
  · have all : vs.filter (· ∉ (∅ : OrdSet Nat)) = vs :=
      List.filter_eq_self.2 fun v _ => decide_eq_true (OrdSet.not_mem_empty v)
    rw [unseen_eq, all, List.nil_append]

/-! ## Tables -/

/-- One list of a table has got one more member, at its end. -/
structure Pushed (table : List (List Nat)) (k x : Nat) (table' : List (List Nat)) : Prop where
  length : table'.length = table.length
  lists : ∀ i, table'.getD i [] = table.getD i [] ++ if k = i then [x] else []
  members : total List.length table' = total List.length table + 1

theorem exists_push {table : List (List Nat)} {k : Nat} (lt : k < table.length) (x : Nat) :
    ∃ table', push table k x = .ok table' ∧ Pushed table k x table' := by
  have found : table[k]? = some table[k] := List.getElem?_eq_getElem lt
  refine ⟨table.set k (table[k] ++ [x]), by rw [push, found], List.length_set, fun i => ?_, ?_⟩
  · rw [List.getD_eq_getElem?_getD, List.getElem?_set, List.getD_eq_getElem?_getD]
    split
    · next e =>
      rw [← e, found]
      rfl
    · rw [List.append_nil]
  · have grown := total_set (w := List.length) found (table[k] ++ [x])
    rw [List.length_append, List.length_singleton] at grown
    omega

/-- An edge between vertices is added, once to each table. -/
theorem exists_addEdge (hu : u < g.succ.length) (hv : v < g.pred.length) :
    ∃ g', g.addEdge u v = .ok g' ∧ Pushed g.succ u v g'.succ ∧ Pushed g.pred v u g'.pred := by
  obtain ⟨succ, pushed, out⟩ := exists_push hu v
  obtain ⟨pred, pushed', into⟩ := exists_push hv u
  refine ⟨⟨succ, pred⟩, ?_, out, into⟩
  rw [addEdge, pushed, pushed']
  rfl

/-- A new vertex has no list that anyone could tell from none. -/
theorem getD_concat_nil (table : List (List Nat)) (i : Nat) :
    (table ++ [[]]).getD i [] = table.getD i [] := by
  rw [List.getD_eq_getElem?_getD, List.getD_eq_getElem?_getD, List.getElem?_append]
  split
  · rfl
  · next past =>
    rw [List.getElem?_eq_none (Nat.not_lt.1 past)]
    cases i - table.length <;> rfl

theorem order_new (n : Nat) : (new n).order = n := List.length_replicate

theorem order_addVertex (g : Digraph) : g.addVertex.1.order = g.order + 1 := List.length_append

theorem edgeCount_eq_total (g : Digraph) : g.edgeCount = total List.length g.succ := by
  rw [edgeCount, foldl_add_eq_total, Nat.zero_add]

/-! ## Edges -/

/-- The edges, those of each vertex together. -/
def edges (g : Digraph) : List (Nat × Nat) :=
  (List.range g.order).flatMap fun u => (g.outEdges u).map (u, ·)

theorem mem_edges : (u, v) ∈ g.edges ↔ v ∈ g.outEdges u := by
  have vertex (h : v ∈ g.outEdges u) : u < g.order := by
    by_contra past
    rw [outEdges, List.getD_eq_default _ _ (Nat.not_lt.1 past)] at h
    cases h
  simp only [edges, List.mem_flatMap, List.mem_range, List.mem_map, Prod.mk.injEq]
  constructor
  · intro given
    rcases given with ⟨w, -, x, hx, rfl, rfl⟩
    exact hx
  · exact fun h => ⟨u, vertex h, v, h, rfl, rfl⟩

theorem mem_successors : v ∈ g.successors u ↔ (u, v) ∈ g.edges := by
  rw [successors, distinct_eq_eraseDups, List.mem_eraseDups, mem_edges]

/-! ## Calls -/

/-- A call that changes a graph. -/
inductive Call where
  | vertex
  | edge (u v : Nat)
deriving DecidableEq, Repr

namespace Call

/-- The target of an edge that leaves `u`. -/
def target? (u : Nat) : Call → Option Nat
  | vertex => none
  | edge x y => if x = u then some y else none

/-- The source of an edge that enters `v`. -/
def source? (v : Nat) : Call → Option Nat
  | vertex => none
  | edge x y => if y = v then some x else none

def isEdge : Call → Bool
  | vertex => false
  | edge .. => true

theorem target?_eq_some (u v : Nat) (c : Call) : c.target? u = some v ↔ c = edge u v := by
  cases c with
  | vertex => simp [target?]
  | edge x y => simp [target?]

theorem source?_eq_some (v u : Nat) (c : Call) : c.source? v = some u ↔ c = edge u v := by
  cases c with
  | vertex => simp [source?]
  | edge x y => simp [source?, and_comm]

end Call

/-- What a call makes of a graph. -/
def apply (g : Digraph) : Call → Except Fault Digraph
  | .vertex => .ok g.addVertex.1
  | .edge u v => g.addEdge u v

/-- The graph that calls make of `n` vertices without edges. -/
def run (n : Nat) (calls : List Call) : Except Fault Digraph :=
  calls.foldlM apply (.new n)

/-- Edges are added between vertices that are there, `n` of them at first. -/
def InRange : Nat → List Call → Prop
  | _, [] => True
  | n, .vertex :: calls => InRange (n + 1) calls
  | n, .edge u v :: calls => u < n ∧ v < n ∧ InRange n calls

instance decidableInRange : (n : Nat) → (calls : List Call) → Decidable (InRange n calls)
  | _, [] => inferInstanceAs (Decidable True)
  | n, .vertex :: calls => decidableInRange (n + 1) calls
  | n, .edge u v :: calls =>
    have := decidableInRange n calls
    inferInstanceAs (Decidable (u < n ∧ v < n ∧ InRange n calls))

/-! ## What a graph answers -/

/-- The tables that some calls have made of `n` vertices hold what the calls say. -/
structure Records (n : Nat) (calls : List Call) (g : Digraph) : Prop where
  order : g.order = n + calls.count .vertex
  aligned : g.pred.length = g.order
  out : ∀ u, g.outEdges u = calls.filterMap (Call.target? u)
  into : ∀ v, g.inEdges v = calls.filterMap (Call.source? v)
  leaving : total List.length g.succ = calls.countP Call.isEdge
  entering : total List.length g.pred = calls.countP Call.isEdge

theorem records_new (n : Nat) : Records n [] (.new n) := by
  have lists (v : Nat) : (List.replicate n ([] : List Nat)).getD v [] = [] := by
    rw [List.getD_eq_getElem?_getD, List.getElem?_replicate]
    split <;> rfl
  have members : total List.length (List.replicate n ([] : List Nat)) = 0 := by
    have empty : ∀ xs ∈ List.replicate n ([] : List Nat), xs.length = 0 := fun xs mem => by
      rw [List.eq_of_mem_replicate mem, List.length_nil]
    rw [total_congr empty, total_const, Nat.mul_zero]
  have aligned : (new n).pred.length = (new n).order := rfl
  exact ⟨order_new n, aligned, lists, lists, members, members⟩

theorem Records.vertex {calls : List Call} (h : Records n calls g) :
    Records n (calls ++ [.vertex]) g.addVertex.1 where
  order := by
    rw [List.count_append, List.count_singleton_self, ← Nat.add_assoc, ← h.order, order_addVertex]
  aligned := by
    rw [order_addVertex, ← h.aligned]
    exact List.length_append
  out u := by
    rw [List.filterMap_append, ← h.out]
    exact (getD_concat_nil g.succ u).trans (List.append_nil _).symm
  into v := by
    rw [List.filterMap_append, ← h.into]
    exact (getD_concat_nil g.pred v).trans (List.append_nil _).symm
  leaving := by
    rw [List.countP_append, ← h.leaving]
    exact total_append
  entering := by
    rw [List.countP_append, ← h.entering]
    exact total_append

/-- The list at each end gets the other end, last. -/
theorem Records.edge {calls : List Call} (h : Records n calls g) (hu : u < g.order)
    (hv : v < g.order) :
    ∃ g', g.addEdge u v = .ok g' ∧ g'.order = g.order ∧ Records n (calls ++ [.edge u v]) g' := by
  obtain ⟨g', added, out, into⟩ := exists_addEdge (g := g) hu (h.aligned.symm ▸ hv)
  have same : g'.order = g.order := out.length
  refine ⟨g', added, same, ?_, ?_, fun w => ?_, fun w => ?_, ?_, ?_⟩
  · rw [List.count_append, List.count_singleton, ← Nat.add_assoc, ← h.order, same]
    rfl
  · rw [into.length, h.aligned, same]
  · rw [outEdges, out.lists, List.filterMap_append, ← h.out]
    refine congrArg _ ?_
    by_cases e : u = w <;> simp [e, Call.target?]
  · rw [inEdges, into.lists, List.filterMap_append, ← h.into]
    refine congrArg _ ?_
    by_cases e : v = w <;> simp [e, Call.source?]
  · rw [out.members, h.leaving, List.countP_append]
    rfl
  · rw [into.members, h.entering, List.countP_append]
    rfl

/-- Calls in range succeed, and the graph records them after those before. -/
theorem Records.run {before calls : List Call} (h : Records n before g)
    (inRange : InRange g.order calls) :
    ∃ g', calls.foldlM apply g = .ok g' ∧ Records n (before ++ calls) g' := by
  induction calls generalizing g before with
  | nil => exact ⟨g, rfl, by rwa [List.append_nil]⟩
  | cons c calls ih =>
    rw [List.append_cons, List.foldlM_cons]
    cases c with
    | vertex => exact ih h.vertex (g.order_addVertex.symm ▸ inRange)
    | edge u v =>
      obtain ⟨hu, hv, later⟩ := inRange
      obtain ⟨g', added, same, records⟩ := h.edge hu hv
      obtain ⟨g'', done, all⟩ := ih records (same.symm ▸ later)
      refine ⟨g'', ?_, all⟩
      rw [apply, added]
      exact done

namespace Records

variable {calls : List Call}

theorem count_outEdges (h : Records n calls g) (u v : Nat) :
    (g.outEdges u).count v = calls.count (.edge u v) := by
  rw [h.out, List.count_filterMap, List.count_eq_countP]
  refine List.countP_congr fun c _ => ?_
  rw [beq_iff_eq, beq_iff_eq]
  exact Call.target?_eq_some u v c

theorem count_inEdges (h : Records n calls g) (u v : Nat) :
    (g.inEdges v).count u = calls.count (.edge u v) := by
  rw [h.into, List.count_filterMap, List.count_eq_countP]
  refine List.countP_congr fun c _ => ?_
  rw [beq_iff_eq, beq_iff_eq]
  exact Call.source?_eq_some v u c

theorem mem_successors (h : Records n calls g) : v ∈ g.successors u ↔ .edge u v ∈ calls := by
  rw [successors, distinct_eq_eraseDups, List.mem_eraseDups, ← List.count_pos_iff,
    h.count_outEdges, List.count_pos_iff]

theorem mem_predecessors (h : Records n calls g) :
    u ∈ g.predecessors v ↔ .edge u v ∈ calls := by
  rw [predecessors, distinct_eq_eraseDups, List.mem_eraseDups, ← List.count_pos_iff,
    h.count_inEdges, List.count_pos_iff]

/-- Successors stand in the order of the first edges to them. -/
theorem pairwise_successors (h : Records n calls g) (u : Nat) : (g.successors u).Pairwise
    fun v v' => calls.idxOf (.edge u v) < calls.idxOf (.edge u v') := by
  rw [successors, distinct_eq_eraseDups, h.out]
  exact (pairwise_eraseDups _).imp fun lt =>
    idxOf_lt_of_filterMap (Call.target?_eq_some u _) (Call.target?_eq_some u _) lt

/-- Predecessors stand in the order of the first edges from them. -/
theorem pairwise_predecessors (h : Records n calls g) (v : Nat) : (g.predecessors v).Pairwise
    fun u u' => calls.idxOf (.edge u v) < calls.idxOf (.edge u' v) := by
  rw [predecessors, distinct_eq_eraseDups, h.into]
  exact (pairwise_eraseDups _).imp fun lt =>
    idxOf_lt_of_filterMap (Call.source?_eq_some v _) (Call.source?_eq_some v _) lt

/-- Both tables have a list for every vertex. -/
theorem edgesAt_eq_ok (h : Records n calls g) (hv : v < g.order) :
    g.edgesAt v = .ok (g.outEdges v, g.successors v, g.predecessors v) := by
  have out : g.succ[v]? = some (g.outEdges v) := by
    rw [outEdges, List.getD_eq_getElem _ _ hv]
    exact List.getElem?_eq_getElem hv
  have into : g.pred[v]? = some (g.inEdges v) := by
    have hv : v < g.pred.length := h.aligned.symm ▸ hv
    rw [inEdges, List.getD_eq_getElem _ _ hv]
    exact List.getElem?_eq_getElem hv
  simp only [edgesAt, out, into, successors, predecessors]

end Records

/-- Edges between vertices that are there can all be added, and nothing else is. -/
theorem exists_addEdges {es : List (Nat × Nat)} (lt : ∀ e ∈ es, e.1 < n ∧ e.2 < n) :
    ∃ g, es.foldlM (fun g e => g.addEdge e.1 e.2) (new n) = .ok g ∧
      ∀ u v, v ∈ g.successors u ↔ (u, v) ∈ es := by
  have inRange : InRange n (es.map fun e => .edge e.1 e.2) := by
    induction es with
    | nil => trivial
    | cons e es ih =>
      obtain ⟨here, others⟩ := List.forall_mem_cons.1 lt
      exact ⟨here.1, here.2, ih others⟩
  obtain ⟨g, made, h⟩ := (records_new n).run ((order_new n).symm ▸ inRange)
  rw [List.foldlM_map] at made
  refine ⟨g, made, fun u v => ?_⟩
  rw [h.mem_successors, List.nil_append, List.mem_map]
  constructor
  · intro given
    rcases given with ⟨⟨x, y⟩, he, same⟩
    cases same
    exact he
  · exact fun he => ⟨(u, v), he, rfl⟩

/-- After any calls in range, each table lists the edges just as they were added: one those that
leave a vertex, the other those that enter it. So an edge is met as often from one end as from the
other, successors and predecessors are the two sides of one relation, both without repetitions and
in the order of first edges, and either table counts all edges. -/
theorem run_records {n : Nat} {calls : List Call} (inRange : InRange n calls) :
    ∃ g, run n calls = .ok g ∧ g.order = n + calls.count .vertex ∧
      (∀ v < g.order, g.edgesAt v = .ok (g.outEdges v, g.successors v, g.predecessors v)) ∧
      (∀ u v, (g.outEdges u).count v = calls.count (.edge u v) ∧
        (g.inEdges v).count u = calls.count (.edge u v)) ∧
      (∀ u v, (v ∈ g.successors u ↔ u ∈ g.predecessors v) ∧
        (v ∈ g.successors u ↔ .edge u v ∈ calls)) ∧
      (∀ u, g.outEdges u = calls.filterMap (Call.target? u) ∧ (g.successors u).Nodup ∧
        (g.successors u).Pairwise
          fun v v' => calls.idxOf (.edge u v) < calls.idxOf (.edge u v')) ∧
      (∀ v, g.inEdges v = calls.filterMap (Call.source? v) ∧ (g.predecessors v).Nodup ∧
        (g.predecessors v).Pairwise
          fun u u' => calls.idxOf (.edge u v) < calls.idxOf (.edge u' v)) ∧
      g.edgeCount = calls.countP Call.isEdge ∧ g.edgeCount = total List.length g.pred := by
  obtain ⟨g, made, h⟩ := (records_new n).run ((order_new n).symm ▸ inRange)
  rw [List.nil_append] at h
  have count : g.edgeCount = calls.countP Call.isEdge := g.edgeCount_eq_total.trans h.leaving
  refine ⟨g, made, h.order, fun v => h.edgesAt_eq_ok,
    fun u v => ⟨h.count_outEdges u v, h.count_inEdges u v⟩, fun u v => ⟨?_, h.mem_successors⟩,
    fun u => ⟨h.out u, ?_, h.pairwise_successors u⟩,
    fun v => ⟨h.into v, ?_, h.pairwise_predecessors v⟩, count, count.trans h.entering.symm⟩
  · rw [h.mem_successors, h.mem_predecessors]
  · rw [successors, distinct_eq_eraseDups]
    exact nodup_eraseDups _
  · rw [predecessors, distinct_eq_eraseDups]
    exact nodup_eraseDups _

/-- Two parallel edges, a vertex that comes later and a loop: `0` has three edges to two successors,
and `1` is among its own predecessors. -/
theorem run_records_parallel :
    let calls : List Call := [.edge 0 1, .edge 0 1, .vertex, .edge 0 2, .edge 1 1]
    InRange 2 calls ∧ ∃ g, run 2 calls = .ok g ∧ g.order = 3 ∧ g.outEdges 0 = [1, 1, 2] ∧
      (g.inEdges 1).count 0 = 2 ∧ 1 ∈ g.successors 1 ∧ 1 ∈ g.predecessors 1 ∧ g.edgeCount = 4 := by
  intro calls
  have inRange : InRange 2 calls := by decide
  obtain ⟨g, made, order, -, counts, duals, out, -, edges, -⟩ := run_records inRange
  have loop : 1 ∈ g.successors 1 := (duals 1 1).2.2 (by decide)
  exact ⟨inRange, g, made, order, (out 0).1, (counts 0 1).2, loop, (duals 1 1).1.1 loop, edges⟩

end Digraph

end RegColor
