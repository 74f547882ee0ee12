import RegColor.Proofs.Liveness

/-!
# Sweeps grow, tell whether they have, and stop

A pass takes nothing out of a live set, and it tells that something has grown exactly when some set
is larger than before. Once it tells that nothing has grown, no later pass changes anything.
`pass_grows_until_stable` states this for every state that sweeps reach from fresh live sets, and
bounds the number of passes of a run: each but the last adds a symbol of the listing to a set.
-/

namespace RegColor

/-- The symbols that are operands of instructions, constants left out. -/
def Listing.operandSymbols (l : Listing) : SymbolSet :=
  .ofList ((l.functions.flatMap fun f => f.code.flatMap Instr.operands).filter
    fun s => !l.isConstant s)

/-- An annotation that has grown is the same one unless a set is larger. -/
theorem Annotation.Grows.eq_of_size_le {a b : Annotation} (h : a.Grows b)
    (le : ∀ (p : Nat) set set', a.live.sets[p]? = some set → b.live.sets[p]? = some set' →
      set'.size ≤ set.size) : a = b := by
  have sets := List.forall₂_iff_get.1 h.sets
  refine h.antisymm ⟨h.blocks.symm, h.flow.symm, h.leaders.symm, h.slots.symm,
    List.forall₂_iff_get.2 ⟨sets.1.symm, fun p hp hp' => ?_⟩⟩
  have size := le p _ _ (Array.getElem?_eq_getElem hp') (Array.getElem?_eq_getElem hp)
  intro x hx
  exact (OrdSet.eq_of_subset_of_size_le (sets.2 p hp' hp) size) ▸ hx

namespace Liveness

variable {l : Listing} {as bs : List Annotation} {k p : Nat} {set : SymbolSet}

/-- No set loses a symbol. -/
theorem Grows.exists_slot? (h : Grows as bs) (hset : slot? as k p = some set) :
    ∃ set', slot? bs k p = some set' ∧ ∀ s ∈ set, s ∈ set' := by
  have sets := List.forall₂_iff_get.1 (h.get k).sets
  obtain ⟨lt, rfl⟩ := Array.getElem?_eq_some_iff.1 hset
  have lt' : p < (bs.getD k default).live.sets.size := (h.get k).size ▸ lt
  exact ⟨_, Array.getElem?_eq_getElem lt', sets.2 p lt lt'⟩

/-- Of two states of which one has grown from the other, either a set is larger or they are the
same. -/
theorem Grows.ne_iff (h : Grows as bs) : as ≠ bs ↔ ∃ k p set set', slot? as k p = some set ∧
    slot? bs k p = some set' ∧ set.size < set'.size := by
  constructor
  · intro ne
    by_contra none
    refine ne (List.ext_getElem h.length_eq fun k hk hk' => ?_)
    rw [← List.getD_eq_getElem as default hk, ← List.getD_eq_getElem bs default hk']
    refine (h.get k).eq_of_size_le fun p set set' hset hset' => Nat.le_of_not_lt fun lt => ?_
    exact none ⟨k, p, set, set', hset, hset', lt⟩
  · rintro ⟨k, p, set, set', hset, hset', lt⟩ rfl
    cases hset.symm.trans hset'
    exact absurd lt (Nat.lt_irrefl _)

theorem sweepTimes_of_pass (h : pass l as = .ok (as, false)) (m : Nat) :
    sweepTimes l m as = .ok as := by
  have step : sweep l as = .ok as := by
    rw [sweep, h]
    rfl
  induction m with
  | zero => rfl
  | succ m ih => simpa [sweepTimes, step, bind, Except.bind] using ih

/-- The instructions of the blocks are those of the code. -/
theorem candidates_eq_operandSymbols (built : l.FlowsBuilt as) :
    candidates l (start as) = l.operandSymbols := by
  have operands : ((start as).flatMap fun a =>
      a.blocks.flatMap fun b => b.instrs.flatMap Instr.operands) =
      l.functions.flatMap fun f => f.code.flatMap Instr.operands := by
    rw [start, List.flatMap_map]
    revert built
    unfold Listing.FlowsBuilt
    generalize l.functions = fs
    intro built
    induction built with
    | nil => rfl
    | cons hab _ ih =>
      obtain ⟨a₀, ha⟩ := hab
      rw [List.flatMap_cons, List.flatMap_cons, ih, ← (Listing.buildFlow_inv ha).flatMap_instrs,
        List.flatMap_assoc]
  rw [candidates, operands, Listing.operandSymbols]

/-- After any number of sweeps over fresh live sets, a pass takes no symbol out of a set, tells that
something has grown exactly if a set is larger, and is followed by passes that change nothing if it
tells that nothing has. A run makes passes up to the first of these, no more than one for each symbol
and set and one that adds nothing. -/
theorem pass_grows_until_stable (built : l.FlowsBuilt as) (n : Nat) :
    ∃ as₁ as₂ grown, sweepTimes l n (start as) = .ok as₁ ∧ pass l as₁ = .ok (as₂, grown) ∧
      (∀ k p set, slot? as₁ k p = some set →
        ∃ set', slot? as₂ k p = some set' ∧ ∀ s ∈ set, s ∈ set') ∧
      (grown = true ↔ ∃ k p set set', slot? as₁ k p = some set ∧ slot? as₂ k p = some set' ∧
        set.size < set'.size) ∧
      (grown = false → as₂ = as₁ ∧ pass l as₂ = .ok (as₂, false) ∧
        ∀ m, sweepTimes l m as₂ = .ok as₂) ∧
      ∃ as₃ m, run l as₁ = .ok (as₃, m) ∧ Settles l as₁ as₃ m ∧
        m ≤ 1 + setCount as₁ * l.operandSymbols.size := by
  have ready := ready_start built
  obtain ⟨as₁, times, h⟩ := sweepTimes_ok ready n reached_start
  obtain ⟨as₂, grown, hpass, -, grows, told⟩ := pass_ok ready h
  obtain ⟨as₃, m, hrun, settles, le⟩ := run_settles ready h
  refine ⟨as₁, as₂, grown, times, hpass, fun k p set hset => grows.exists_slot? hset,
    told.trans grows.ne_iff, fun none => ?_, as₃, m, hrun, settles, ?_⟩
  · subst none
    have same : as₁ = as₂ := by simpa using told
    subst same
    exact ⟨rfl, hpass, sweepTimes_of_pass hpass⟩
  · rw [enough, h.grows.candidates_eq, candidates_eq_operandSymbols built] at le
    omega

theorem pass_grows_until_stable_pow :
    ∃ as as₁ as₂ grown as₃ m, Listing.pow.FlowsBuilt as ∧
      sweepTimes Listing.pow 1 (start as) = .ok as₁ ∧ pass Listing.pow as₁ = .ok (as₂, grown) ∧
      (grown = true ↔ ∃ k p set set', slot? as₁ k p = some set ∧ slot? as₂ k p = some set' ∧
        set.size < set'.size) ∧
      run Listing.pow as₁ = .ok (as₃, m) ∧
      m ≤ 1 + setCount as₁ * Listing.pow.operandSymbols.size := by
  have built : Listing.pow.FlowsBuilt
      (Listing.pow.buildFlows Listing.pow.functions Listing.pow.freshAnnotations).1 :=
    Listing.buildFlows_inv (rfl : Listing.pow.freshAnnotations.length = _)
      (Prod.ext rfl (by decide))
  obtain ⟨as₁, as₂, grown, times, hpass, -, told, -, as₃, m, hrun, -, le⟩ :=
    pass_grows_until_stable built 1
  exact ⟨_, as₁, as₂, grown, as₃, m, built, times, hpass, told, hrun, le⟩

end Liveness

end RegColor
