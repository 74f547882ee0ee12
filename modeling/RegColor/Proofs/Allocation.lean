import RegColor.Proofs.Check
import RegColor.Proofs.Palette
import RegColor.Proofs.Parsed

/-!
# Allocation succeeds

A listing that was built and that the check accepts goes through every stage (`allocate_ok`): its
control flow is built, sweeps come to an end, every function gets webs and every web a register or
memory. `Listing.Allocated` holds what is known about a run that went through.

The check answers for every listing whose operations have names, so such a listing is either
rejected with an error or allocated (`allocate_succeeds`).
-/

namespace RegColor

/-- What a run that went through leaves behind: the control flow it built is in `as₁`, its
annotations are final, and its palette serves every function. -/
structure Listing.Allocated (l : Listing) (o : Options) (as as₁ : List Annotation) (serial : Nat)
    (a : Allocation) : Prop where
  flows : l.buildFlows l.functions as = (as₁, none)
  run : Liveness.run l (Liveness.start as₁) =
    .ok ((l.allocate o as serial).annotations, a.sweeps)
  solved : Liveness.Solved l as₁ (l.allocate o as serial).annotations
  outcome : (l.allocate o as serial).outcome = .ok a
  target : a.palette.target = o.target.getD .mips
  chosen : chooseAllocator o.allocator a.palette = .ok a.allocator
  holds : ∀ k < l.functions.length, a.palette.Holds l (l.allocate o as serial).annotations k
  functions : l.allocateFunctions (l.allocate o as serial).annotations serial
    { target := o.target.getD .mips } (List.range l.functions.length) =
      (a.palette, a.reports, none)

namespace Listing

variable {l : Listing} {o : Options} {as : List Annotation} {sizes : Int → Prop}
  {ops : Opcode → Prop}

theorem chooseAllocator_ok {name : String} (known : name ∈ ["", "briggs", "naive"]) (p : Palette) :
    ∃ a, chooseAllocator name p = .ok a := by
  simp only [List.mem_cons, List.not_mem_nil, or_false] at known
  rcases known with rfl | rfl | rfl <;> exact ⟨_, rfl⟩

/-- A listing that was built and accepted goes through all stages. -/
theorem allocate_ok (built : l.Built sizes ops) (accepted : l.Accepted)
    (known : o.allocator ∈ ["", "briggs", "naive"]) (length : as.length = l.functions.length)
    (serial : Nat) : ∃ as₁ a, l.Allocated o as as₁ serial a := by
  obtain ⟨ds, hcheck, harmless⟩ := id accepted
  have noError : ds.any Diagnostic.isError = false := by
    rw [List.any_eq_false]
    exact fun d hd => by rw [harmless d hd]; nofun
  obtain ⟨as₁, flows⟩ := buildFlows_ok (fun f (hf : f ∈ l.functions) =>
    (accepted.sane hf).buildFlow_ok (built.coherent.labels f hf)) as
  have flowsBuilt : l.FlowsBuilt as₁ := buildFlows_inv length flows
  obtain ⟨as₂, n, hrun, reached, settled⟩ :=
    Liveness.run_ok (Liveness.ready_start flowsBuilt) Liveness.reached_start
  have solved : Liveness.Solved l as₁ as₂ := ⟨flowsBuilt, reached, settled⟩
  have inRange : ∀ k ∈ List.range l.functions.length, k < as₂.length := fun k hk =>
    solved.ready.length ▸ List.mem_range.1 hk
  obtain ⟨p, reports, hfunctions, target, holds⟩ :=
    allocateFunctions_ok solved serial inRange { target := o.target.getD .mips }
  obtain ⟨allocator, chosen⟩ := chooseAllocator_ok known p
  let a : Allocation :=
    { target := o.target.getD .mips, allocator, palette := p, diagnostics := ds, sweeps := n,
      reports }
  obtain ⟨events, whole⟩ : ∃ events, l.allocate o as serial = ⟨as₂, events, .ok a⟩ := by
    unfold allocate
    simp only [hcheck, noError, flows, hrun, hfunctions, chosen]
    exact ⟨_, rfl⟩
  have annotations : (l.allocate o as serial).annotations = as₂ := by rw [whole]
  have outcome : (l.allocate o as serial).outcome = .ok a := by rw [whole]
  refine ⟨as₁, a, flows, ?_, ?_, outcome, target, chosen, ?_, ?_⟩ <;> rw [annotations]
  · exact hrun
  · exact solved
  · exact fun k hk => holds k (.inl (List.mem_range.2 hk))
  · exact hfunctions

/-- The webs of a function are built, and no color lies beyond the registers. -/
theorem Allocated.webs {as₁ : List Annotation} {serial k : Nat} {a : Allocation}
    (h : l.Allocated o as as₁ serial a) (hk : k < l.functions.length) (n : Nat) :
    ∃ r, Webs.build l (l.allocate o as serial).annotations k (serial + k) = .ok r ∧
      ∀ v, (Coloring.color r.graph r.cost n).color v < n := by
  have hk' : k < (l.allocate o as serial).annotations.length := h.solved.ready.length ▸ hk
  obtain ⟨g, hg, edges⟩ := h.solved.edgeRules hk'
  obtain ⟨r, hr, -, -⟩ := Webs.build_ok (serial + k) (h.solved.liveRules hk') edges hg
  refine ⟨r, hr, fun v => ?_⟩
  have proper := Coloring.proper_color r.graph r.cost n
  unfold Coloring.Result.color
  cases hv : (Coloring.color r.graph r.cost n).colors.get? v with
  | none =>
    simp only
    omega
  | some c =>
    have := proper.lt v c hv
    simp only
    omega

/-- A listing that is read from a text, or built with operations that have names, and that the check
reports no error for, is allocated: control flow is built, sweeps end in sets that a further sweep
does not change, every function gets webs and colors that are registers, and there is a result. -/
theorem allocate_succeeds
    (origin : l.Built (fun _ => True) (· ∈ Opcode.named) ∨ ∃ w source, parse w source = .ok l)
    (checked : ∀ ds, l.check = .ok ds → ∀ d ∈ ds, d.isError = false)
    (known : o.allocator ∈ ["", "briggs", "naive"]) (length : as.length = l.functions.length)
    (serial : Nat) :
    ∃ as₁ as₂ n a, l.buildFlows l.functions as = (as₁, none) ∧
      Liveness.run l (Liveness.start as₁) = .ok (as₂, n) ∧ Liveness.sweep l as₂ = .ok as₂ ∧
      (∀ k < l.functions.length, ∃ r, Webs.build l as₂ k (serial + k) = .ok r ∧
        let size := (o.target.getD .mips).size
        ∀ v, (Coloring.color r.graph r.cost size).color v < size) ∧
      (l.allocate o as serial).annotations = as₂ ∧ (l.allocate o as serial).outcome = .ok a := by
  have built : l.Built (fun _ => True) (· ∈ Opcode.named) := by
    rcases origin with built | ⟨w, source, parsed⟩
    · exact built
    · exact (built_of_parse parsed).mono (fun _ _ => trivial) fun _ h => (List.mem_filter.1 h).1
  obtain ⟨ds, hds⟩ := check_ok built
  obtain ⟨as₁, a, h⟩ := allocate_ok built ⟨ds, hds, checked ds hds⟩ known length serial
  exact ⟨as₁, _, a.sweeps, a, h.flows, h.run, h.solved.settled, fun k hk => h.webs hk _, rfl,
    h.outcome⟩

theorem pow_built : pow.Built (· = 4) (· ∈ Opcode.spelled) := by
  let l₀ : Listing := { symbols := pow.symbols.take 4 }
  have symbols : l₀.Built (· = 4) (· ∈ Opcode.spelled) := by
    refine .symbol (.symbol (.symbol (.symbol .empty ?_ ?_) ?_ ?_) ?_ ?_) ?_ ?_ <;> decide
  have function : l₀.addFunction 0 = .ok { l₀ with functions := [{ symbol := 0 }] } := by decide
  have param : (addParam _ 0 "n" none 4).1.Built (· = 4) (· ∈ Opcode.spelled) :=
    .param "n" none (.function symbols function) (by decide) rfl
  refine Built.pushAll (k := 0) (.localVar "t" none (.localVar "r" none param ?_) ?_) ?_ 0
  all_goals decide

theorem pow_accepted : pow.Accepted := ⟨[], rfl, fun _ hd => (nomatch hd)⟩

theorem allocate_succeeds_pow :
    (∀ ds, pow.check = .ok ds → ∀ d ∈ ds, d.isError = false) ∧
      ∃ a, (pow.allocate { target := some { Target.mips with gpRegs := ["$t0"] } }
        pow.freshAnnotations 7).outcome = .ok a := by
  have checked : ∀ ds, pow.check = .ok ds → ∀ d ∈ ds, d.isError = false := by
    intro ds hds
    rcases pow_accepted with ⟨ds', hds', harmless⟩
    cases hds.symm.trans hds'
    exact harmless
  have fresh : pow.freshAnnotations.length = pow.functions.length := rfl
  obtain ⟨-, -, -, a, -, -, -, -, -, ha⟩ := allocate_succeeds
    (o := { target := some { Target.mips with gpRegs := ["$t0"] } })
    (.inl (pow_built.mono (fun _ _ => trivial) fun _ h => (List.mem_filter.1 h).1)) checked
    (by decide) fresh 7
  exact ⟨checked, a, ha⟩

end Listing

end RegColor
