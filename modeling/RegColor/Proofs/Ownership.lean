import Mathlib.Logic.Relation
import RegColor.Proofs.Growth
import RegColor.Proofs.WellFormed

/-!
# Whose variables become live

An instruction reads constants and variables of its own function, if the check accepts the listing.
A variable of another function can only become live because a call leads to that function, and then
it is no argument: what is live on entry to a callee passes to the call without its arguments.
`LiveAt.mayBeLive` shows this of everything that the rules of liveness derive, and
`live_symbols_owned` of every set that sweeps reach.
-/

namespace RegColor

/-- What an instruction reads stands where its operation takes values. -/
theorem exists_value_of_mem_reads {i : Instr} {s : SymbolId} (h : s ∈ i.reads) :
    ∃ p, i.operands[p]? = some s ∧ i.op.takesValue p = true := by
  have operand {k : Nat} (value : i.op.takesValue k = true) (h : s ∈ (i.operands[k]?).toList) :
      ∃ p, i.operands[p]? = some s ∧ i.op.takesValue p = true :=
    ⟨k, Option.mem_toList.1 h, value⟩
  unfold Instr.reads Opcode.readsOf at h
  split at h
  · next e => exact operand (by rw [e]; rfl) h
  · next e => exact operand (by rw [e]; rfl) h
  · next e => exact (List.mem_append.1 h).elim (operand (by rw [e]; rfl)) (operand (by rw [e]; rfl))
  · next e => exact (List.mem_append.1 h).elim (operand (by rw [e]; rfl)) (operand (by rw [e]; rfl))
  · next e => exact (List.mem_append.1 h).elim (operand (by rw [e]; rfl)) (operand (by rw [e]; rfl))
  · next e => exact operand (by rw [e]; rfl) h
  · next e =>
    obtain ⟨p, hp⟩ := List.mem_iff_getElem?.1 h
    rw [List.getElem?_drop] at hp
    refine ⟨2 + p, hp, ?_⟩
    have later : 2 + p ≠ 1 := by omega
    rw [e]
    simp [Opcode.takesValue, Opcode.writesFirst, Opcode.targetPosition?, later]
  · next e => exact operand (by rw [e]; rfl) h
  · cases h
  · cases h
  · cases h

namespace Listing

variable {l : Listing} {f : Function} {i : Instr} {s : SymbolId}

/-- Function `k` calls function `k'`: an instruction of it names a function with its body there. -/
def Calls (l : Listing) (k k' : Nat) : Prop :=
  ∃ f i c, l.functions[k]? = some f ∧ i ∈ f.code ∧ i.callee? = some c ∧ l.bodyOf? c = some k'

/-- What may be live in function `k`: a variable of its own, or a local of a function to which one
or more calls lead. -/
def MayBeLive (l : Listing) (k : Nat) (s : SymbolId) : Prop :=
  (∃ f, l.functions[k]? = some f ∧ l.Owns f s) ∨
    ∃ k' f, Relation.TransGen l.Calls k k' ∧ l.functions[k']? = some f ∧ l.isLocal f s = true

theorem MayBeLive.call {k k' : Nat} (h : l.MayBeLive k' s) (calls : l.Calls k k')
    (arg : (l.symbol s).isArgument = false) : l.MayBeLive k s := by
  rcases h with ⟨f, hf, owns⟩ | ⟨m, f, path, hf, isLocal⟩
  · exact .inr ⟨k', f, .single calls, hf, owns.isLocal arg⟩
  · exact .inr ⟨m, f, path.head calls, hf, isLocal⟩

/-- A function that passed the check reads constants and its own variables. -/
theorem FormedFunction.owns_of_reads (h : l.FormedFunction f) (hi : i ∈ f.code) (hs : s ∈ i.reads)
    (const : l.isConstant s = false) : l.Owns f s := by
  obtain ⟨p, hp, value⟩ := exists_value_of_mem_reads hs
  cases plain : i.label? with
  | none =>
    rcases (h.instrs i hi plain).values p s hp value with isConst | owns
    · cases const.symm.trans isConst
    · exact owns
  | some s =>
    rw [(op_of_label plain).2] at hp
    cases hp

end Listing

namespace Liveness

open Listing

variable {l : Listing} {as : List Annotation} {k n j : Nat} {s : SymbolId}

/-- By induction on the derivation: a symbol enters where it is read, and passes to another function
only from callee to call. -/
theorem LiveAt.mayBeLive (wellFormed : l.WellFormed) (built : l.FlowsBuilt as)
    (live : LiveAt l as k n j s) : l.MayBeLive k s := by
  induction live with
  | read hi hs const =>
    obtain ⟨f, hf, mem⟩ := mem_code_of_instrAt? built hi
    have formed := wellFormed.functions f (List.mem_of_getElem? hf)
    exact .inl ⟨f, hf, formed.owns_of_reads mem hs const⟩
  | pass _ _ _ ih => exact ih
  | call hi hc hk' _ arg ih =>
    obtain ⟨f, hf, mem⟩ := mem_code_of_instrAt? built hi
    exact ih.call ⟨f, _, _, hf, mem, hc, hk'⟩ arg
  | edge _ _ _ _ ih => exact ih

/-- After any number of sweeps over a listing that the check accepts, only variables are in the live
sets of a function. Its arguments among them are its own, and what it does not own is a local of a
function to which one or more calls lead from it. -/
theorem live_symbols_owned (accepted : l.Accepted) (built : l.FlowsBuilt as) (n : Nat) :
    ∃ as', sweepTimes l n (start as) = .ok as' ∧
      ∀ k f p set s, l.functions[k]? = some f → slot? as' k p = some set → s ∈ set →
        (l.symbol s).kind = .var ∧
        ((l.symbol s).isArgument = true → (l.symbol s).owner = some f.symbol) ∧
        ((l.symbol s).owner ≠ some f.symbol → ∃ k' g, Relation.TransGen l.Calls k k' ∧
          l.functions[k']? = some g ∧ l.isLocal g s = true) := by
  have ready := ready_start built
  obtain ⟨as', times, h⟩ := sweepTimes_ok ready n reached_start
  refine ⟨as', times, fun k f p set s hf hset hs => ?_⟩
  obtain ⟨m, j, live⟩ := h.exists_liveAt ready hset hs
  rcases (liveAt_start.1 live).mayBeLive accepted.wellFormed built with
    ⟨f', hf', owns⟩ | ⟨k', g, path, hg, isLocal⟩
  · cases hf.symm.trans hf'
    exact ⟨owns.1, fun _ => owns.2, fun foreign => absurd owns.2 foreign⟩
  · have parts := isLocal
    simp only [Listing.isLocal, Bool.and_eq_true, decide_eq_true_eq, Bool.not_eq_true'] at parts
    exact ⟨parts.1.1, fun arg => absurd arg (by simp [parts.1.2]),
      fun _ => ⟨k', g, path, hg, isLocal⟩⟩

/-- A chain of calls `relay() { x := middle(); return x }`, `middle() { x := last(); return x }`,
`last() { return y }`, in which only the last function reads a variable without a value. -/
def relay : Listing :=
  let names := ["relay", "middle", "last"]
  let l : Listing :=
    names.foldl (fun l name => (l.addSymbol { name, kind := .function, type := none }).1) {}
  let l := { l with functions := [{ symbol := 0 }, { symbol := 1 }, { symbol := 2 }] }
  let l := (l.addLocal 0 "x" none).1
  let l := (l.addLocal 1 "x" none).1
  let l := (l.addLocal 2 "y" none).1
  let code : List (Nat × Action) :=
    [(0, .apply .call [3, 1]), (0, .apply .ret [3]), (1, .apply .call [4, 2]),
      (1, .apply .ret [4]), (2, .apply .ret [5])]
  code.foldl (fun l (k, a) => (l.push k a 0).1) l

/-- The variable of `last` gets into the first set of `relay`, which calls lead to it. -/
theorem live_symbols_owned_relay :
    ∃ as as' set k' g, relay.FlowsBuilt as ∧ sweepTimes relay 3 (start as) = .ok as' ∧
      slot? as' 0 0 = some set ∧ 5 ∈ set ∧ Relation.TransGen relay.Calls 0 k' ∧
      relay.functions[k']? = some g ∧ relay.isLocal g 5 = true := by
  have built : relay.FlowsBuilt
      (relay.buildFlows relay.functions relay.freshAnnotations).1 :=
    buildFlows_inv (rfl : relay.freshAnnotations.length = _) (Prod.ext rfl (by decide))
  have accepted : relay.Accepted := ⟨[], by decide, harmless_nil⟩
  obtain ⟨as', times, owned⟩ := live_symbols_owned accepted built 3
  have live : ((sweepTimes relay 3 (start
      (relay.buildFlows relay.functions relay.freshAnnotations).1)).toOption.bind
        (slot? · 0 0)) = some (.ofList [5]) := by
    decide +kernel
  rw [times] at live
  obtain ⟨-, -, foreign⟩ := owned 0 _ 0 _ 5 rfl live (by decide)
  obtain ⟨k', g, path, hg, isLocal⟩ := foreign (by decide)
  exact ⟨_, as', _, k', g, built, times, live, by decide, path, hg, isLocal⟩

end Liveness

end RegColor
