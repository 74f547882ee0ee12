import RegColor.Proofs.Blocks

/-!
# Blocks are straight lines, but for returns

Inside a block and along its edges control passes only where the code lets it pass, with one
exception: a `return` does not end its block. What follows it stands in the same block unless some
branch leads there.

* `Function.Edited.eq_of_id_eq`: a label and an instruction of the code with one identity are one
  instruction, also after a function was cut back;
* `Listing.HasFlow.connects_iff`: where control passes along the blocks;
* `Listing.HasFlow.last_of_jumps`: branches end their blocks in any case.
-/

namespace RegColor

namespace Function

/-- A function whose code was added an instruction at a time, and cut back at will. -/
inductive Edited : Function → Prop
  | new (symbol : SymbolId) : Edited { symbol }
  | declare {f : Function} (params locals : List SymbolId) : Edited f →
    Edited { f with params, locals }
  | push {f : Function} (a : Action) (line : Int) : Edited f → Edited (f.push a line).1
  | truncate {f : Function} (n : Nat) : Edited f → Edited (f.truncate n)

variable {f : Function} {i j : Instr}

/-- The second instruction stands right after the first. -/
def Next (f : Function) (i j : Instr) : Prop :=
  ∃ p : Nat, f.code[p]? = some i ∧ f.code[p + 1]? = some j

/-- The identity of an instruction is used up: neither the code nor what will be added to it holds
another instruction with it. -/
def Spent (f : Function) (i : Instr) : Prop :=
  (∀ j ∈ f.code, j.id = i.id → j = i) ∧
    (i.id.era < f.era ∨ i.id.era = f.era ∧ i.id.index < f.code.length)

theorem Spent.push (h : f.Spent i) (a : Action) (line : Int) : (f.push a line).1.Spent i := by
  obtain ⟨unique, before⟩ := h
  refine ⟨?_, before.imp_right fun ⟨era, lt⟩ => ⟨era, ?_⟩⟩
  · intro j hj e
    rcases List.mem_append.1 hj with hj | hj
    · exact unique j hj e
    · -- The new instruction has an identity that comes after.
      rw [List.mem_singleton] at hj
      subst hj
      simp only [← e, nextId] at before
      omega
  · exact Nat.lt_of_lt_of_le lt (List.length_append ▸ Nat.le_add_right ..)

theorem spent_push_self (f : Function) (a : Action) (line : Int) :
    (f.push a line).1.Spent (f.push a line).2 := by
  refine ⟨?_, .inr ⟨rfl, ?_⟩⟩
  · intro j hj e
    exact code_inj hj (List.mem_append_right _ (List.mem_singleton_self _)) e
  · exact List.length_append ▸ Nat.lt_succ_self _

theorem Spent.truncate (h : f.Spent i) (n : Nat) : (f.truncate n).Spent i :=
  ⟨fun j hj => h.1 j (List.mem_of_mem_take hj),
    .inl (Nat.lt_succ_of_le (h.2.elim Nat.le_of_lt fun same => same.1.le))⟩

/-- The labels that a function knows keep their identities to themselves. -/
theorem Edited.spent (h : f.Edited) : ∀ s t, (s, t) ∈ f.labels → f.Spent t := by
  induction h with
  | new symbol => exact fun s t ht => (nomatch ht)
  | declare params locals _ ih => exact ih
  | truncate n _ ih => exact fun s t ht => (ih s t ht).truncate n
  | @push f a line _ ih =>
    intro s t ht
    have known : (s, t) ∈ f.labels ∨ t = (f.push a line).2 := by
      cases a with
      | apply op operands => exact .inl ht
      | label u =>
        simp only [Function.push] at ht
        split at ht
        · exact .inl ht
        · refine (List.mem_append.1 ht).imp_right fun here => ?_
          exact (Prod.mk.inj (List.mem_singleton.1 here)).2
    rcases known with ht | rfl
    · exact (ih s t ht).push a line
    · exact f.spent_push_self a line

/-- A known label and an instruction with one identity are one instruction. -/
theorem Edited.eq_of_id_eq (h : f.Edited) {s : SymbolId} (hi : f.labels.lookup s = some i)
    (hj : j ∈ f.code) (e : j.id = i.id) : j = i := by
  obtain ⟨before, after, labels, -⟩ := List.lookup_eq_some_iff.1 hi
  exact (h.spent s i (labels ▸ List.mem_append_right _ (List.mem_cons_self ..))).1 j hj e

end Function

namespace Block

variable {blocks : List Block} {b c : Block} {n : Nat}

/-- Where an instruction of a block stands in the code: after all earlier blocks. -/
theorem getElem?_flatMap_instrs {m : Nat} {i : Instr} (hb : blocks[n]? = some b)
    (hi : b.instrs[m]? = some i) :
    (blocks.flatMap instrs)[((blocks.take n).flatMap instrs).length + m]? = some i := by
  obtain ⟨lt, rfl⟩ := List.getElem?_eq_some_iff.1 hb
  have split : blocks.flatMap instrs = (blocks.take n).flatMap instrs ++
      (blocks[n].instrs ++ (blocks.drop (n + 1)).flatMap instrs) := by
    rw [← List.flatMap_cons, ← List.drop_eq_getElem_cons lt, ← List.flatMap_append,
      List.take_append_drop]
  rw [split, List.getElem?_append_right (Nat.le_add_right ..), Nat.add_sub_cancel_left,
    List.getElem?_append_left (List.getElem?_eq_some_iff.1 hi).1, hi]

/-- The end of a block and the start of the next stand in a row. -/
theorem consecutive_of_edge (hb : blocks[n]? = some b) (hc : blocks[n + 1]? = some c) :
    ∃ p, (blocks.flatMap instrs)[p]? = some b.last ∧
      (blocks.flatMap instrs)[p + 1]? = some c.leader := by
  have pos := b.length_instrs_pos
  have start := getElem?_flatMap_instrs hc c.getElem?_instrs_zero
  rw [List.take_add_one, hb, Option.toList_some, List.flatMap_append, List.length_append,
    List.flatMap_singleton] at start
  refine ⟨_, getElem?_flatMap_instrs hb b.getElem?_instrs_last, ?_⟩
  rw [show ∀ k, k + (b.instrs.length - 1) + 1 = k + b.instrs.length + 0 by omega]
  exact start

end Block

namespace Listing

open Block

variable {l : Listing} {f : Function} {i j : Instr} {a : Annotation}

/-! ## Where control passes -/

theorem lookup_of_branchTarget (h : l.branchTarget f i = .ok (some j)) :
    ∃ s, f.labels.lookup s = some j := by
  rcases branchTarget_cases l f i with ⟨-, -, e⟩ | ⟨-, -, _, e⟩ | ⟨s, -, -, e⟩
  · cases h.symm.trans e
  · cases h.symm.trans e
  · rw [e, labelInstr] at h
    split at h
    · split at h
      · next found =>
        cases h
        exact ⟨s, found⟩
      · cases h
    · cases h

theorem not_follows_of_ret (ret : i.op = .ret) : ¬l.Follows f i j := by
  rintro (⟨falls, -⟩ | ⟨-, target⟩)
  · simp [Instr.fallsThrough, ret] at falls
  · have jumps := jumps_of_branchTarget target
    simp [Instr.Jumps, ret, Opcode.isBranch] at jumps

namespace HasFlow

/-- An edge that a branch leads along arrives at the target of the branch. -/
theorem leader_eq_target (h : l.HasFlow f a) (edited : f.Edited) {n : Nat} {b : Block}
    (hb : a.blocks[n]? = some b) (target : l.branchTarget f i = .ok (some j))
    (same : b.leader.id = j.id) : b.leader = j := by
  obtain ⟨s, known⟩ := lookup_of_branchTarget target
  have code : b.leader ∈ f.code := h.mem_code.2 ⟨n, 0, instrAt?_eq_some.2 ⟨b, hb, rfl⟩⟩
  exact edited.eq_of_id_eq known code same

/-- The target of a branch has a block: the branch ends its own, and the edge found a place. -/
theorem mem_code_of_follows (h : l.HasFlow f a) (edited : f.Edited) (step : l.Follows f i j) :
    j ∈ f.code := by
  rcases step with ⟨-, p, -, hj⟩ | ⟨hi, target⟩
  · exact List.mem_of_getElem? hj
  · obtain ⟨n, m, hi⟩ := h.mem_code.1 hi
    obtain ⟨b, hb, hi⟩ := instrAt?_eq_some.1 hi
    have last := h.last_of_branch hb hi target
    have ends : b.last = i := by
      rw [show m = b.instrs.length - 1 by omega] at hi
      exact Option.some.inj (b.getElem?_instrs_last.symm.trans hi)
    obtain ⟨g, -, connected⟩ := h.flow
    obtain ⟨es, edges, -⟩ := allEdges_of_connect connected
    obtain ⟨here, hes⟩ := edgesFrom_of_allEdges edges hb
    simp only [edgesFrom, ends, target, blockLedBy] at hes
    split at hes
    · cases hes
    · next t found =>
      split at found
      · next led =>
        obtain ⟨c, hc, same⟩ := ledBy?_eq_some led
        rw [← h.leader_eq_target edited hc target same]
        exact h.mem_code.2 ⟨_, 0, instrAt?_eq_some.2 ⟨c, hc, rfl⟩⟩
      · cases found

/-- Along an edge control passes only where it can. -/
theorem follows_of_edge (h : l.HasFlow f a) (edited : f.Edited) {n t : Nat} {b c : Block}
    {g : Digraph} (hg : a.flow = some g) (hb : a.blocks[n]? = some b) (ht : t ∈ g.successors n)
    (hc : a.blocks[t]? = some c) : l.Follows f b.last c.leader := by
  have hi : instrAt? a.blocks n (b.instrs.length - 1) = some b.last :=
    instrAt?_eq_some.2 ⟨b, hb, b.getElem?_instrs_last⟩
  obtain ⟨b', hb', ⟨-, falls, rfl⟩ | ⟨target, branch, led⟩⟩ := (h.mem_successors hg).1 ht
  · cases hb.symm.trans hb'
    have next := consecutive_of_edge hb hc
    rw [h.flatMap_instrs] at next
    exact .inl ⟨falls, next⟩
  · cases hb.symm.trans hb'
    obtain ⟨c', hc', same⟩ := ledBy?_eq_some led
    cases hc.symm.trans hc'
    rw [h.leader_eq_target edited hc branch same]
    exact .inr ⟨h.mem_code.2 ⟨n, _, hi⟩, branch⟩

/-- What stands inside a block starts none. -/
theorem leader_ne_of_inside (h : l.HasFlow f a) {n m : Nat}
    (hj : instrAt? a.blocks n (m + 1) = some j) : ∀ b ∈ a.blocks, b.leader ≠ j := by
  obtain ⟨c, hc, hj⟩ := instrAt?_eq_some.1 hj
  have others : j ∈ c.others := List.mem_of_getElem? (i := m) hj
  have mem : c ∈ split (fun i => i.id ∈ a.leaders) f.code := h.blocks ▸ List.mem_of_getElem? hc
  have code : j ∈ f.code := h.mem_code.2 ⟨n, m + 1, instrAt?_eq_some.2 ⟨c, hc, hj⟩⟩
  intro b hb leads
  have marked := (h.exists_leader_iff_mem code).1 ⟨b, hb, leads⟩
  exact absurd marked (of_decide_eq_false (not_leader_of_mem_others mem others))

/-- A branch ends its block. -/
theorem last_of_jumps (h : l.HasFlow f a) {n m : Nat} {b : Block} (hb : a.blocks[n]? = some b)
    (hi : b.instrs[m]? = some i) (jumps : i.Jumps) : m + 1 = b.instrs.length := by
  have code : i ∈ f.code := h.mem_code.2 ⟨n, m, instrAt?_eq_some.2 ⟨b, hb, hi⟩⟩
  obtain ⟨t, known⟩ := (markLeaders_inv h.leaders).1 i code
  obtain ⟨j, target⟩ := branchTarget_of_jumps jumps known
  exact h.last_of_branch hb hi target

/-- Control passes along the blocks where the code lets it pass, and from a `return` to what stands
right after it and starts no block. -/
theorem connects_iff (h : l.HasFlow f a) (edited : f.Edited) :
    a.Connects i j ↔
      l.Follows f i j ∨ i.op = .ret ∧ f.Next i j ∧ ∀ b ∈ a.blocks, b.leader ≠ j := by
  constructor
  · rintro ⟨n, m, n', m', hi, hj, passes⟩
    cases passes with
    | inside _ =>
      have next : f.Next i j := by
        obtain ⟨p, hp, hp'⟩ := consecutive_of_instrAt? hi hj
        exact ⟨p, h.flatMap_instrs ▸ hp, h.flatMap_instrs ▸ hp'⟩
      by_cases falls : i.fallsThrough = true
      · exact .inl (.inl ⟨falls, next⟩)
      · have ends : i.op = .goto ∨ i.op = .ret := by
          simpa [Instr.fallsThrough, ← or_iff_not_imp_left] using falls
        rcases ends with goto | ret
        · -- A branch would be the last one of its block.
          obtain ⟨b, hb, hi⟩ := instrAt?_eq_some.1 hi
          have last := h.last_of_jumps hb hi (.inl goto)
          rw [instrAt?_of_block hb, last, List.getElem?_eq_none le_rfl] at hj
          cases hj
        · exact .inr ⟨ret, next, h.leader_ne_of_inside hj⟩
    | @edge _ b _ hb last hg ht =>
      obtain ⟨c, hc, leads⟩ := instrAt?_eq_some.1 hj
      cases leads
      rw [instrAt?_of_block hb, show m = b.instrs.length - 1 by omega, b.getElem?_instrs_last] at hi
      cases hi
      exact .inl (h.follows_of_edge edited hg hb ht hc)
  · rintro (step | ⟨-, ⟨p, hp, hp'⟩, inside⟩)
    · exact h.passes_of_follows step (h.mem_code_of_follows edited step)
    · rw [← h.flatMap_instrs] at hp hp'
      obtain ⟨n, m, hi, hj | ⟨-, hj⟩⟩ := instrAt?_of_consecutive hp hp'
      · exact ⟨n, m, n, m + 1, hi, hj, .inside hj⟩
      · obtain ⟨c, hc, leads⟩ := instrAt?_eq_some.1 hj
        exact absurd (Option.some.inj leads) (inside c (List.mem_of_getElem? hc))

end HasFlow

/-- After a build control passes along the blocks where the code lets it pass, and besides only from
a `return` to what stands right after it. So blocks and edges are free of other steps exactly if
whatever stands after a `return` starts a block. Branches end their blocks in any case. -/
theorem buildFlow_straight {a' : Annotation} (edited : f.Edited)
    (built : l.buildFlow f a = (a', none)) :
    (∀ i j, a'.Connects i j →
      l.Follows f i j ∨ i.op = .ret ∧ f.Next i j ∧ ∀ b ∈ a'.blocks, b.leader ≠ j) ∧
    ((∀ i j, a'.Connects i j → l.Follows f i j) ↔
      ∀ i j, i.op = .ret → f.Next i j → ∃ b ∈ a'.blocks, b.leader = j) ∧
    ∀ b ∈ a'.blocks, ∀ (m : Nat) (i : Instr), b.instrs[m]? = some i → i.Jumps →
      m + 1 = b.instrs.length := by
  have flow := buildFlow_inv built
  refine ⟨fun i j => (flow.connects_iff edited).1, ⟨fun real i j ret next => ?_, ?_⟩, ?_⟩
  · by_contra! inside
    have connected := (flow.connects_iff edited).2 (.inr ⟨ret, next, inside⟩)
    exact not_follows_of_ret ret (real i j connected)
  · intro starts i j connected
    refine ((flow.connects_iff edited).1 connected).resolve_right fun ⟨ret, next, inside⟩ => ?_
    obtain ⟨b, hb, leads⟩ := starts i j ret next
    exact inside b hb leads
  · intro b hb m i hi jumps
    obtain ⟨n, hn⟩ := List.mem_iff_getElem?.1 hb
    exact flow.last_of_jumps hn hi jumps

/-- A function `guard(n)` with code after its first `return` that a branch leads to:
`if n ≤ 1 goto stop; return n; stop: return 1`. -/
def guard : Listing :=
  let symbols : List Symbol :=
    [{ name := "guard", kind := .function, type := none },
      { name := "1", kind := .int 1, type := none },
      { name := "stop", kind := .label, type := none }]
  let l : Listing := symbols.foldl (fun l s => (l.addSymbol s).1) {}
  let l := { l with functions := [{ symbol := 0 }] }
  let l := (l.addParam 0 "n" none 4).1
  let code : List Action :=
    [.apply (.branch .le) [3, 1, 2], .apply .ret [3], .label 2, .apply .ret [1]]
  code.foldl (fun l a => (l.push 0 a 0).1) l

theorem guard_edited : (guard.functions.getD 0 default).Edited :=
  .push _ 0 (.push _ 0 (.push _ 0 (.push _ 0 (.declare [3] [] (.new 0)))))

theorem buildFlow_straight_guard :
    ∃ f a', guard.functions[0]? = some f ∧ f.Edited ∧ guard.buildFlow f {} = (a', none) ∧
      (∃ i j, i.op = .ret ∧ f.Next i j) ∧ ∀ i j, a'.Connects i j → guard.Follows f i j := by
  let f := guard.functions.getD 0 default
  have built : guard.buildFlow f {} = ((guard.buildFlow f {}).1, none) :=
    Prod.ext rfl (by decide)
  refine ⟨f, _, rfl, guard_edited, built, ⟨_, _, rfl, 1, rfl, rfl⟩, ?_⟩
  refine (buildFlow_straight guard_edited built).2.1.2 fun i j ret next => ?_
  rcases next with ⟨p, hi, hj⟩
  have lt : p + 1 < f.code.length := (List.getElem?_eq_some_iff.1 hj).1
  have starts : ∀ p < f.code.length - 1, ∀ i ∈ f.code[p]?, ∀ j ∈ f.code[p + 1]?, i.op = .ret →
      ∃ b ∈ (guard.buildFlow f {}).1.blocks, b.leader = j := by decide
  exact starts p (by omega) i hi j hj ret

/-- A function `early(n)` with code after its first `return` that no branch leads to:
`return n; n := 1; return n`. -/
def early : Listing :=
  let l : Listing := ({} : Listing)
  let l := (l.addSymbol { name := "early", kind := .function, type := none }).1
  let l := (l.addSymbol { name := "1", kind := .int 1, type := none }).1
  let l := { l with functions := [{ symbol := 0 }] }
  let l := (l.addParam 0 "n" none 4).1
  let code : List Action := [.apply .ret [2], .apply .assign [2, 1], .apply .ret [2]]
  code.foldl (fun l a => (l.push 0 a 0).1) l

/-- In `early` control passes along the block from the first `return` to the code after it. -/
theorem early_connects_dead_code :
    ∃ f a' i j, early.functions[0]? = some f ∧ f.Edited ∧ early.buildFlow f {} = (a', none) ∧
      i.op = .ret ∧ a'.Connects i j ∧ ¬early.Follows f i j := by
  let f := early.functions.getD 0 default
  have edited : f.Edited := .push _ 0 (.push _ 0 (.push _ 0 (.declare [2] [] (.new 0))))
  have built : early.buildFlow f {} = ((early.buildFlow f {}).1, none) :=
    Prod.ext rfl (by decide)
  exact ⟨f, _, _, _, rfl, edited, built, rfl, ⟨0, 0, 0, 1, rfl, rfl, .inside rfl⟩,
    not_follows_of_ret rfl⟩

end Listing

end RegColor
