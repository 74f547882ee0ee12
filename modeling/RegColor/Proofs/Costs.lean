import Mathlib.Algebra.BigOperators.Ring.Finset
import Mathlib.Algebra.Order.BigOperators.Group.List
import Mathlib.Algebra.Order.Group.Nat
import RegColor.Proofs.Ranges

/-!
# What webs cost

Left in memory, a web costs one access for each instruction of its range that writes its variable and
one for each that reads it. A scan charges every access to the web that covers it there
(`Forest.Paid`), and uniting webs adds their costs, so nothing is lost and nothing counted twice:

* `Assembled.cost_eq`: the cost of a web is the number of accesses in its range;
* `Assembled.sum_accesses_webs`: each access of an instruction to a local is an access to exactly one
  web.

Costs are 64-bit integers. `build_costs` gives them exactly as long as the accesses of the function
can be counted in 64 bits, and up to wrapping in any case.
-/

namespace RegColor

theorem total_eq_sum {α : Type} (g : α → Nat) (xs : List α) : total g xs = (xs.map g).sum := by
  induction xs with
  | nil => rfl
  | cons x xs ih => rw [total_cons, ih, List.map_cons, List.sum_cons]

theorem sum_map_ite {α : Type} (p : α → Bool) (xs : List α) :
    (xs.map fun x => if p x then 1 else 0).sum = xs.countP p := by
  induction xs with
  | nil => rfl
  | cons x xs ih => rw [List.map_cons, List.sum_cons, ih, List.countP_cons, Nat.add_comm]

theorem sum_map_finset_sum {α : Type} (s : Finset Nat) (g : Nat → α → Nat) (xs : List α) :
    ∑ k ∈ s, (xs.map (g k)).sum = (xs.map fun x => ∑ k ∈ s, g k x).sum := by
  induction xs with
  | nil => simp
  | cons x xs ih => simp only [List.map_cons, List.sum_cons, Finset.sum_add_distrib, ih]

theorem Word.wrap_sum (s : Finset Nat) (g : Nat → Int) :
    wrap (∑ k ∈ s, wrap (g k)) = wrap (∑ k ∈ s, g k) := by
  induction s using Finset.cons_induction with
  | empty => rfl
  | cons k s new ih =>
    rw [Finset.sum_cons, Finset.sum_cons, wrap_wrap_add, ← wrap_add_wrap, ih, wrap_add_wrap]

/-! ## Counting accesses -/

theorem Instr.nodup_defs (i : Instr) : i.defs.Nodup := by
  rcases Webs.defs_eq i with e | ⟨s, e⟩
  · exact e ▸ .nil
  · exact e ▸ List.nodup_singleton s

/-- The accesses to a web are the writes and the reads of its variable in its range. -/
theorem Web.sum_accesses {uses : Instr → List SymbolId} (distinct : ∀ i, (uses i).Nodup) (w : Web)
    (is : List Instr) : (is.map (w.accesses uses)).sum =
      is.countP (fun i => i.id ∈ w.range ∧ w.symbol ∈ i.defs) +
        is.countP fun i => i.id ∈ w.range ∧ w.symbol ∈ uses i := by
  have each (i : Instr) : w.accesses uses i =
      (if i.id ∈ w.range ∧ w.symbol ∈ i.defs then 1 else 0) +
        if i.id ∈ w.range ∧ w.symbol ∈ uses i then 1 else 0 := by
    rw [accesses, List.count_append, i.nodup_defs.count, (distinct i).count]
    by_cases mem : i.id ∈ w.range <;> simp [mem]
  rw [List.map_congr_left fun i _ => each i, List.sum_map_add, ← sum_map_ite, ← sum_map_ite]
  simp only [decide_eq_true_eq]

namespace Webs

namespace Assembled

variable {l : Listing} {f : Function} {uses : Instr → List SymbolId} {a : Annotation} {g : Digraph}
  {d₀ d : Forest} {clusters : List (List Nat)} {blocks : List BlockWebs} {r : Webs} {j k : Nat}
  {w : Web} {i : Instr} {s : SymbolId} {x : InstrId}

theorem symbol_of_root (h : Assembled l f a g d₀ clusters blocks d r) (hj : j < d₀.size)
    (root : d.root j = k) : (d₀.web j).symbol = (d.web k).symbol := by
  rw [h.joining.symbol, ← root, h.joining.root_symbol j hj]

/-- Of the webs that are united only one covers an instruction, so the accesses of the instruction
to the united web are those to this one. -/
theorem sum_accesses_root (h : Assembled l f a g d₀ clusters blocks d r) (hk : k < d₀.size)
    (isRoot : d.root k = k) : ∑ j ∈ Finset.range d₀.size with d.root j = k,
      (d₀.web j).accesses uses i = (d.web k).accesses uses i := by
  by_cases mem : i.id ∈ (d.web k).range
  · obtain ⟨v, root, hv⟩ := (h.mem_range hk isRoot).1 mem
    have alone : (d₀.web v).accesses uses i = (d.web k).accesses uses i := by
      rw [Web.accesses, Web.accesses, if_pos hv.mem, if_pos mem, hv.symbol]
    refine (Finset.sum_eq_single v (fun j hj ne => ?_) fun out => ?_).trans alone
    · rw [Finset.mem_filter, Finset.mem_range] at hj
      exact if_neg fun here => ne (h.scan.unique ⟨hj.1, h.symbol_of_root hj.1 hj.2, here⟩ hv)
    · exact absurd (Finset.mem_filter.2 ⟨Finset.mem_range.2 hv.lt, root⟩) out
  · rw [Web.accesses, if_neg mem]
    refine Finset.sum_eq_zero fun j hj => if_neg fun here => mem ?_
    rw [Finset.mem_filter, Finset.mem_range] at hj
    exact (h.mem_range hk isRoot).2 ⟨j, hj.2, hj.1, h.symbol_of_root hj.1 hj.2, here⟩

/-- The cost of a web is the number of accesses to it. -/
theorem cost_eq (h : Assembled l f a g d₀ clusters blocks d r) {is : List Instr}
    (paid : Forest.Paid uses is {} d₀) (hw : w ∈ r.webs) :
    w.cost = Word.wrap ((is.map (w.accesses uses)).sum : Nat) := by
  obtain ⟨k, lt, isRoot, rfl⟩ := h.mem_webs.1 hw
  have cost (j : Nat) : (d₀.web j).cost =
      Word.wrap ((is.map ((d₀.web j).accesses uses)).sum : Nat) := by
    have start : (({} : Forest).web j).cost = Word.wrap 0 := by
      rw [Forest.web_of_size_le (Nat.zero_le j)]
      rfl
    rw [paid j, start, Word.iterate_succ, Int.zero_add, total_eq_sum]
  have fits (j : Nat) : Word.fits (d₀.web j).cost = true := by
    rw [cost]
    exact Word.fits_wrap _
  rw [h.joining.cost fits k lt isRoot, Finset.sum_congr rfl fun j _ => cost j, Word.wrap_sum,
    ← Nat.cast_sum, sum_map_finset_sum, List.map_congr_left fun i _ => h.sum_accesses_root lt isRoot]

/-- A variable has at most one web at an instruction. -/
theorem countP_webs (h : Assembled l f a g d₀ clusters blocks d r) (s : SymbolId) (x : InstrId) :
    r.webs.countP (fun w => x ∈ w.range ∧ s = w.symbol) =
      if (r.lookup? s x).isSome then 1 else 0 := by
  have found {w} (hw : w ∈ r.webs) :
      x ∈ w.range ∧ s = w.symbol ↔ r.lookup? s x = some w := by
    rw [h.lookup?_eq_some_iff, mem_websOf]
    exact ⟨fun given => ⟨⟨hw, given.2.symm⟩, given.1⟩, fun given => ⟨given.2, given.1.2.symm⟩⟩
  cases hs : r.lookup? s x with
  | none =>
    refine List.countP_eq_zero.2 fun w hw => ?_
    rw [decide_eq_true_iff, found hw, hs]
    intro e
    cases e
  | some v =>
    have one : r.webs.count v = 1 :=
      List.count_eq_one_of_mem h.nodup_ids.of_map (mem_of_lookup? hs).1
    refine (List.countP_congr fun w hw => ?_).trans one
    rw [decide_eq_true_iff, found hw, hs, beq_iff_eq, Option.some.injEq, eq_comm]

/-- Each access of an instruction to a local is an access to exactly one web. -/
theorem sum_accesses_webs (h : Assembled l f a g d₀ clusters blocks d r) (rules : LiveRules uses a)
    {n m : Nat} (hi : Block.instrAt? a.blocks n m = some i) :
    (r.webs.map fun w => w.accesses uses i).sum = (i.defs ++ uses i).countP (l.isLocal f) := by
  have count (ss : List SymbolId) :
      (r.webs.map fun w => if i.id ∈ w.range then ss.count w.symbol else 0).sum =
        ss.countP fun s => (r.lookup? s i.id).isSome := by
    induction ss with
    | nil => simp
    | cons s ss ih =>
      rw [List.countP_cons, ← ih, ← h.countP_webs, ← sum_map_ite, ← List.sum_map_add]
      refine congrArg List.sum (List.map_congr_left fun w _ => ?_)
      by_cases mem : i.id ∈ w.range <;> simp [mem, List.count_cons]
  refine (count _).trans (List.countP_congr fun s hs => ?_)
  have here : s ∈ a.setAt n m ∨ s ∈ i.defs :=
    (List.mem_append.1 hs).symm.imp_left (rules.used hi)
  rw [Option.isSome_iff_exists]
  constructor
  · intro given
    rcases given with ⟨w, hw⟩
    exact (h.covered_of_lookup? hw).1
  · intro loc
    obtain ⟨k, hk⟩ := (h.scan.instrWebs hi).covered loc here
    exact ⟨_, h.lookup?_of_covers hk⟩

end Assembled

open Listing

/-- The cost of a web is the number of instructions in its range that write its variable, and of
those that read it. Together the webs account for every write and every read of a local. -/
theorem build_costs {l : Listing} {as as' : List Annotation} {k : Nat} {f : Function}
    (solved : Liveness.Solved l as as') (hf : l.functions[k]? = some f) (serial : Nat) :
    ∃ r, build l as' k serial = .ok r ∧
      let uses := l.uses (Liveness.entries as')
      let writes (w : Web) : Nat := f.code.countP fun i => i.id ∈ w.range ∧ w.symbol ∈ i.defs
      let reads (w : Web) : Nat := f.code.countP fun i => i.id ∈ w.range ∧ w.symbol ∈ uses i
      let incidences : Nat := (f.code.map fun i =>
        i.defs.countP (l.isLocal f) + (uses i).countP (l.isLocal f)).sum
      (∀ w ∈ r.webs, w.cost = Word.wrap (writes w + reads w : Nat)) ∧
        (r.webs.map fun w => writes w + reads w).sum = incidences ∧
        (incidences < Word.bound → (∀ w ∈ r.webs, w.cost = (writes w + reads w : Nat)) ∧
          (r.webs.map Web.cost).sum = incidences) := by
  obtain ⟨g, hg, -, r, d₀, clusters, blocks, d, hbuild, h, paid⟩ :=
    exists_paid_of_solved solved hf serial
  refine ⟨r, hbuild, ?_⟩
  intro uses writes reads incidences
  have accesses (w : Web) : (f.code.map (w.accesses uses)).sum = writes w + reads w :=
    w.sum_accesses (fun i => nodup_eraseDups _) f.code
  have cost (w : Web) (hw : w ∈ r.webs) : w.cost = Word.wrap (writes w + reads w : Nat) := by
    rw [← accesses]
    exact h.cost_eq paid hw
  have all : (r.webs.map fun w => writes w + reads w).sum = incidences := by
    have swap := Multiset.sum_map_sum_map (r.webs : Multiset Web) (f.code : Multiset Instr)
      (f := fun w i => w.accesses uses i)
    simp only [Multiset.map_coe, Multiset.sum_coe] at swap
    rw [← List.map_congr_left fun w _ => accesses w, swap]
    refine congrArg List.sum (List.map_congr_left fun i hi => ?_)
    obtain ⟨n, m, hi⟩ := (solved.hasFlow hf).mem_code.1 hi
    rw [h.sum_accesses_webs (solved.liveRules (solved.lt_length hf)) hi, List.countP_append]
  refine ⟨cost, all, fun small => ?_⟩
  have counted (w : Web) (hw : w ∈ r.webs) : w.cost = (writes w + reads w : Nat) := by
    have part : writes w + reads w ≤ incidences :=
      all ▸ List.le_sum_of_mem (List.mem_map.2 ⟨w, hw, rfl⟩)
    rw [cost w hw]
    refine Word.wrap_of_fits (Word.fits_iff.2 ⟨?_, ?_⟩)
    · rw [Word.bound]
      omega
    · exact Int.lt_of_le_of_lt (Int.ofNat_le.2 part) small
  refine ⟨counted, ?_⟩
  rw [List.map_congr_left counted, ← all, Nat.cast_list_sum, List.map_map]
  rfl

/-- In `countdown` the first value of `a` is written and read once, the second is written once and
read twice, and the other five of the ten accesses to locals are to `b`. -/
theorem build_costs_countdown :
    ∃ r u v w, build countdown countdown.analyzed.2 0 0 = .ok r ∧ r.webs = [u, v, w] ∧
      u.symbol = 5 ∧ u.cost = 2 ∧ v.symbol = 6 ∧ v.cost = 5 ∧ w.symbol = 5 ∧ w.cost = 3 := by
  obtain ⟨r, hbuild, -, -, small⟩ := build_costs (k := 0) (f := countdown.functions.getD 0 default)
    (solved_analyzed (l := countdown) (by decide)) rfl 0
  obtain ⟨r', u, v, w, hbuild', hr, hu, rangeu, hv, hw, rangew, -⟩ := countdown_webs
  cases hbuild.symm.trans hbuild'
  obtain ⟨cost, sum⟩ := small (by decide)
  have costu : u.cost = 2 := by
    rw [cost u (by simp [hr])]
    simp only [OrdSet.mem_def, rangeu, hu]
    decide
  have costw : w.cost = 3 := by
    rw [cost w (by simp [hr])]
    simp only [OrdSet.mem_def, rangew, hw]
    decide
  have ten : u.cost + (v.cost + (w.cost + 0)) = 10 := by
    rw [hr] at sum
    exact sum
  refine ⟨r, u, v, w, hbuild, hr, hu, costu, hv, ?_, hw, costw⟩
  omega

end Webs

end RegColor
