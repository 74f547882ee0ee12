import RegColor.Proofs.Flow
import RegColor.Proofs.WellFormed

/-!
# What the check establishes

A listing that the check accepts is well formed. What building control flow asks for of it is
`Listing.Sane`: a function has code, its instructions have the right number of operands, and its
branches lead to labels that it defines (`Sane.buildFlow_ok`).
-/

namespace RegColor

namespace Listing

variable {l : Listing} {f : Function} {i : Instr} {s : SymbolId}

/-- What the check establishes about a function. -/
structure Sane (l : Listing) (f : Function) : Prop where
  code_ne : f.code ≠ []
  operands : ∀ i ∈ f.code, i.op.arity.accepts i.operands.length = true
  targets : ∀ i ∈ f.code, ∀ p, i.op.targetPosition? = some p →
    ∃ s, i.operands[p]? = some s ∧ l.isLabel s = true ∧ (definition? f.code s).isSome = true

theorem min_le_of_accepts {a : Arity} {n : Nat} (h : a.accepts n = true) : a.min ≤ n := by
  simp only [Arity.accepts, Bool.and_eq_true, decide_eq_true_eq] at h
  omega

/-- A branch with the right number of operands has its target among them. -/
theorem lt_of_targetPosition? {op : Opcode} {n p : Nat} (accepted : op.arity.accepts n = true)
    (position : op.targetPosition? = some p) : p < n := by
  have le := min_le_of_accepts accepted
  cases op with
  | goto =>
    cases position
    exact le
  | branch cmp =>
    cases position
    exact le
  | _ => cases position

theorem definition?_isSome_iff {code : List Instr} :
    (definition? code s).isSome = true ↔ ∃ j ∈ code, j.label? = some s := by
  simp [definition?]

theorem FormedFunction.sane (h : l.FormedFunction f) : l.Sane f := by
  refine ⟨h.code_ne, fun i hi => ?_, fun i hi p position => ?_⟩
  · cases plain : i.label? with
    | none => exact (h.instrs i hi plain).arity
    | some s =>
      rw [(op_of_label plain).1, (op_of_label plain).2]
      rfl
  · cases plain : i.label? with
    | none =>
      have formed := h.instrs i hi plain
      have here := List.getElem?_eq_getElem (lt_of_targetPosition? formed.arity position)
      have target : i.target? = some _ := Option.bind_eq_some_iff.2 ⟨p, position, here⟩
      exact ⟨_, here, formed.target _ target, definition?_isSome_iff.2 (h.defined i hi _ target)⟩
    | some s =>
      rw [(op_of_label plain).1] at position
      cases position

theorem Accepted.sane (h : l.Accepted) (hf : f ∈ l.functions) : l.Sane f :=
  (h.wellFormed.functions f hf).sane

/-- Functions of an accepted listing have different symbols. -/
theorem Accepted.eq_of_symbol_eq (h : l.Accepted) {g : Function} (hf : f ∈ l.functions)
    (hg : g ∈ l.functions) (e : f.symbol = g.symbol) : f = g :=
  List.inj_on_of_nodup_map h.wellFormed.names hf hg (by rw [nameOf, nameOf, e])

/-! ## After the check -/

/-- Branches of a function that passed the check lead to its own code. -/
theorem Sane.branchTarget_ok (h : l.Sane f)
    (labels : ∀ s, f.labels.lookup s = definition? f.code s) (hi : i ∈ f.code) :
    ∃ t, l.branchTarget f i = .ok t ∧ ∀ j ∈ t, j ∈ f.code := by
  unfold branchTarget
  cases position : i.op.targetPosition? with
  | none => exact ⟨none, rfl, fun j hj => (nomatch hj)⟩
  | some p =>
    obtain ⟨s, hs, isLabel, defined⟩ := h.targets i hi p position
    obtain ⟨j, hj⟩ := Option.isSome_iff_exists.1 defined
    simp only [hs, labelInstr, isLabel, labels, hj, if_true]
    refine ⟨some j, rfl, fun j' hj' => ?_⟩
    cases hj'
    exact List.mem_of_find?_eq_some hj

/-- Functions that passed the check can be cut into blocks and connected. -/
theorem Sane.buildFlow_ok (h : l.Sane f)
    (labels : ∀ s, f.labels.lookup s = definition? f.code s) (a : Annotation) :
    ∃ a', l.buildFlow f a = (a', none) := by
  refine Listing.buildFlow_ok h.code_ne (fun i hi => ?_) (fun i hi => h.branchTarget_ok labels hi) a
  have accepted := h.operands i hi
  have le := min_le_of_accepts accepted
  rw [checkOperands, if_neg (by omega), if_pos accepted]

/-- Control stays in the code of a function. -/
theorem Sane.mem_code_of_follows (h : l.Sane f)
    (labels : ∀ s, f.labels.lookup s = definition? f.code s) {j : Instr} (step : l.Follows f i j) :
    i ∈ f.code ∧ j ∈ f.code := by
  rcases step with ⟨-, p, hp, hp'⟩ | ⟨hi, ht⟩
  · exact ⟨List.mem_of_getElem? hp, List.mem_of_getElem? hp'⟩
  · obtain ⟨t, ht', inside⟩ := h.branchTarget_ok labels hi
    cases ht.symm.trans ht'
    exact ⟨hi, inside j rfl⟩

theorem buildFlows_ok {fs : List Function}
    (h : ∀ f ∈ fs, ∀ a, ∃ a', l.buildFlow f a = (a', none)) (as : List Annotation) :
    ∃ as', l.buildFlows fs as = (as', none) := by
  induction fs generalizing as with
  | nil => exact ⟨as, by rw [buildFlows]; simp⟩
  | cons f fs ih =>
    cases as with
    | nil => exact ⟨[], by rw [buildFlows]; simp⟩
    | cons a as =>
      obtain ⟨a', ha'⟩ := h f (List.mem_cons_self ..) a
      obtain ⟨as', has'⟩ := ih (fun g hg => h g (List.mem_cons_of_mem _ hg)) as
      exact ⟨a' :: as', by simp only [buildFlows, ha', has']⟩

end Listing

end RegColor
