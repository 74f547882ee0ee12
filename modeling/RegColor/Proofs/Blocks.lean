import RegColor.Proofs.Allocation

/-!
# Blocks are cut at leaders

`Function.Emitted` says that the code of a function was added an instruction at a time. Such a
function knows the first definition of every label in its code, so that the target of a branch can
be told from the code alone. `Function.Leads` names the instructions that start a block in the same
way.

* `Listing.buildFlow_eq_none_iff`: when a build succeeds;
* `Listing.HasFlow.exists_leader_iff`: the blocks of a build start exactly where `Leads` says;
* `Listing.buildFlow_exact`: both, and that the blocks and their edges cover every step of control.
-/

namespace RegColor

/-! ## Branches -/

namespace Instr

/-- A `goto` or a conditional branch. -/
def Jumps (i : Instr) : Prop := i.op = .goto ∨ i.op.isBranch = true

instance : DecidablePred Jumps := fun i =>
  inferInstanceAs (Decidable (i.op = .goto ∨ i.op.isBranch = true))

theorem jumps_iff {i : Instr} : i.Jumps ↔ i.op.targetPosition?.isSome = true := by
  unfold Jumps
  cases i.op <;> simp [Opcode.isBranch, Opcode.targetPosition?]

theorem jumps_of_target? {i : Instr} {s : SymbolId} (h : i.target? = some s) : i.Jumps := by
  obtain ⟨p, hp, -⟩ := Option.bind_eq_some_iff.1 h
  exact jumps_iff.2 (Option.isSome_of_eq_some hp)

end Instr

namespace Function

/-- A function whose code was added an instruction at a time, from none, and never cut back. -/
inductive Emitted : Function → Prop
  | new (symbol : SymbolId) : Emitted { symbol }
  | declare {f : Function} (params locals : List SymbolId) : Emitted f →
    Emitted { f with params, locals }
  | push {f : Function} (a : Action) (line : Int) : Emitted f → Emitted (f.push a line).1

/-- The instructions that start a block: the first one, the first definition of a label that some
branch names, and what stands right after a branch. -/
inductive Leads (f : Function) (i : Instr) : Prop
  | first : f.code[0]? = some i → f.Leads i
  | target {j : Instr} {s : SymbolId} : j ∈ f.code → j.target? = some s →
    Listing.definition? f.code s = some i → f.Leads i
  | afterJump {j : Instr} {p : Nat} : f.code[p]? = some j → j.Jumps → f.code[p + 1]? = some i →
    f.Leads i

theorem Emitted.lookup_labels {f : Function} (h : f.Emitted) (s : SymbolId) :
    f.labels.lookup s = Listing.definition? f.code s := by
  induction h generalizing s with
  | new symbol => rfl
  | declare _ _ _ ih => exact ih s
  | push a line _ ih => exact Listing.lookup_labels_push ih a line s

end Function

namespace Listing

variable {l : Listing} {f : Function} {i j : Instr} {s : SymbolId} {a : Annotation}

theorem Built.emitted {sizes : Int → Prop} {ops : Opcode → Prop} (h : l.Built sizes ops) :
    ∀ f ∈ l.functions, f.Emitted := by
  induction h with
  | empty => exact fun f hf => (nomatch hf)
  | symbol _ _ _ ih => exact ih
  | retype _ _ _ ih => exact ih
  | function _ hadd ih =>
    obtain ⟨-, rfl⟩ := addFunction_eq_ok hadd
    exact List.forall_mem_append.2 ⟨ih, List.forall_mem_singleton.2 (.new _)⟩
  | param _ _ _ _ _ ih => exact forall_mem_modifyFunction ih fun _ hf => .declare _ _ hf
  | localVar _ _ _ _ ih => exact forall_mem_modifyFunction ih fun _ hf => .declare _ _ hf
  | instr _ _ hemit ih =>
    obtain ⟨-, rfl⟩ := emit_eq_ok hemit
    exact forall_mem_modifyFunction ih fun _ hf => .push _ _ hf
  | label _ hemit ih =>
    obtain ⟨t, -, rfl⟩ := emitLabel_eq_ok hemit
    exact forall_mem_modifyFunction ih fun _ hf => .push _ _ hf

theorem label?_of_definition? {code : List Instr} (h : definition? code s = some i) :
    i.label? = some s := by
  simpa using List.find?_some h

/-- What the target of an instruction can be: there is none, its operand is missing, or it is the
label that the operand names. -/
theorem branchTarget_cases (l : Listing) (f : Function) (i : Instr) :
    (¬i.Jumps ∧ i.target? = none ∧ l.branchTarget f i = .ok none) ∨
      (i.Jumps ∧ i.target? = none ∧ ∃ e, l.branchTarget f i = .error e) ∨
      ∃ s, i.Jumps ∧ i.target? = some s ∧ l.branchTarget f i = (l.labelInstr f s).map some := by
  rw [Instr.jumps_iff, Instr.target?, branchTarget]
  cases i.op.targetPosition? with
  | none => exact .inl ⟨by simp, rfl, rfl⟩
  | some p =>
    cases hs : i.operands[p]? with
    | none => exact .inr (.inl ⟨rfl, hs, by simp only [hs]; exact ⟨_, rfl⟩⟩)
    | some s => exact .inr (.inr ⟨s, rfl, hs, by simp only [hs]⟩)

theorem labelInstr_eq_ok_iff (emitted : f.Emitted) :
    l.labelInstr f s = .ok j ↔ l.isLabel s = true ∧ definition? f.code s = some j := by
  rw [labelInstr, emitted.lookup_labels]
  cases l.isLabel s <;> cases definition? f.code s <;> simp

/-- The target of a branch, told from the code. -/
theorem branchTarget_eq_some_iff (emitted : f.Emitted) :
    l.branchTarget f i = .ok (some j) ↔
      ∃ s, i.target? = some s ∧ l.isLabel s = true ∧ definition? f.code s = some j := by
  rcases branchTarget_cases l f i with ⟨-, ht, e⟩ | ⟨-, ht, _, e⟩ | ⟨s, -, ht, e⟩
  · simp [e, ht]
  · simp [e, ht]
  · rw [e]
    simp only [ht, Option.some.injEq, exists_eq_left', ← labelInstr_eq_ok_iff emitted]
    cases l.labelInstr f s <;> simp [Except.map]

theorem exists_branchTarget_iff (emitted : f.Emitted) :
    (∃ t, l.branchTarget f i = .ok t) ↔ (i.Jumps → ∃ s, i.target? = some s ∧
      l.isLabel s = true ∧ ∃ j ∈ f.code, j.label? = some s) := by
  rcases branchTarget_cases l f i with ⟨plain, -, e⟩ | ⟨jumps, ht, _, e⟩ | ⟨s, jumps, ht, e⟩
  · exact iff_of_true ⟨none, e⟩ fun jumps => (plain jumps).elim
  · simp [e, ht, jumps]
  · have known : (∃ t, l.branchTarget f i = .ok t) ↔ ∃ j, l.labelInstr f s = .ok j := by
      rw [e]
      cases l.labelInstr f s <;> simp [Except.map]
    simp only [known, labelInstr_eq_ok_iff emitted, exists_and_left, jumps, ht, true_implies,
      Option.some.injEq, exists_eq_left', ← Option.isSome_iff_exists, definition?_isSome_iff]

theorem mem_code_of_branchTarget (emitted : f.Emitted) (h : l.branchTarget f i = .ok (some j)) :
    j ∈ f.code := by
  obtain ⟨s, -, -, found⟩ := (branchTarget_eq_some_iff emitted).1 h
  exact List.mem_of_find?_eq_some found

theorem jumps_of_branchTarget (h : l.branchTarget f i = .ok (some j)) : i.Jumps := by
  rcases branchTarget_cases l f i with ⟨-, -, e⟩ | ⟨jumps, -⟩ | ⟨s, jumps, -⟩
  · cases h.symm.trans e
  · exact jumps
  · exact jumps

/-- Where targets are known, a branch has one. -/
theorem branchTarget_of_jumps {t : Option Instr} (jumps : i.Jumps)
    (h : l.branchTarget f i = .ok t) : ∃ j, l.branchTarget f i = .ok (some j) := by
  rcases branchTarget_cases l f i with ⟨plain, -⟩ | ⟨-, -, _, e⟩ | ⟨s, -, -, e⟩
  · exact (plain jumps).elim
  · cases h.symm.trans e
  · rw [e] at h ⊢
    cases known : l.labelInstr f s with
    | error _ => cases known ▸ h
    | ok j => exact ⟨j, rfl⟩

/-! ## Leaders -/

/-- Nothing is marked but the first instruction, where that was asked for, the targets of branches
and what follows a branch. -/
theorem of_mem_markLeaders {next : Bool} {code : List Instr} {x : InstrId}
    (h : x ∈ (l.markLeaders f next code).1) :
    (next = true ∧ ∃ i, code[0]? = some i ∧ i.id = x) ∨
      (∃ i ∈ code, ∃ j, l.branchTarget f i = .ok (some j) ∧ j.id = x) ∨
      ∃ p i j t, code[p]? = some i ∧ l.branchTarget f i = .ok (some t) ∧
        code[p + 1]? = some j ∧ j.id = x := by
  induction code generalizing next with
  | nil => cases h
  | cons i is ih =>
    have here : x ∈ (if next then [i.id] else []) → next = true ∧ i.id = x := by
      cases next <;> simp [eq_comm]
    rw [markLeaders] at h
    cases ht : l.branchTarget f i with
    | error e =>
      rw [ht] at h
      exact .inl ⟨(here h).1, i, rfl, (here h).2⟩
    | ok target =>
      simp only [ht, List.mem_append, Option.mem_toList, Option.map_eq_some_iff] at h
      rcases h with (h | ⟨j, rfl, hx⟩) | h
      · exact .inl ⟨(here h).1, i, rfl, (here h).2⟩
      · exact .inr (.inl ⟨i, List.mem_cons_self .., j, ht, hx⟩)
      · rcases ih h with ⟨hsome, j, hj, hx⟩ | ⟨i', hi', j, hj, hx⟩ | ⟨p, i', j, t, hi', ht', hj, hx⟩
        · obtain ⟨t, rfl⟩ := Option.isSome_iff_exists.1 hsome
          exact .inr (.inr ⟨0, i, j, t, rfl, ht, hj, hx⟩)
        · exact .inr (.inl ⟨i', List.mem_cons_of_mem _ hi', j, hj, hx⟩)
        · exact .inr (.inr ⟨p + 1, i', j, t, hi', ht', hj, hx⟩)

end Listing

namespace Block

variable {isLeader : Instr → Bool} {code : List Instr} {b : Block}

/-- Every block but the first starts at a leader. -/
theorem leader_of_mem_tail_split (hb : b ∈ (split isLeader code).tail) :
    isLeader b.leader = true := by
  induction code with
  | nil => cases hb
  | cons i is ih =>
    unfold split at hb
    split at hb
    · cases hb
    · next b' bs e =>
      rw [e] at ih
      split at hb
      · next here =>
        rcases List.mem_cons.1 hb with rfl | hb
        · exact here
        · exact ih hb
      · exact ih hb

theorem leader_of_head?_split (hb : (split isLeader code).head? = some b) :
    code[0]? = some b.leader := by
  cases code with
  | nil => cases hb
  | cons i is =>
    unfold split at hb
    split at hb
    · cases hb
      rfl
    · split at hb <;> cases hb <;> rfl

end Block

namespace Listing

variable {l : Listing} {f : Function} {i j : Instr} {a : Annotation}

/-- The blocks start at the marked instructions. -/
theorem HasFlow.exists_leader_iff_mem (h : l.HasFlow f a) (hi : i ∈ f.code) :
    (∃ b ∈ a.blocks, b.leader = i) ↔ i.id ∈ a.leaders := by
  constructor
  · rintro ⟨b, hb, rfl⟩
    rw [h.blocks] at hb
    rcases hs : Block.split (fun i => i.id ∈ a.leaders) f.code with _ | ⟨c, bs⟩
    · rw [hs] at hb
      cases hb
    rw [hs] at hb
    rcases List.mem_cons.1 hb with rfl | hb
    · have first := Block.leader_of_head?_split (congrArg List.head? hs)
      exact (markLeaders_inv h.leaders).2.2.1 _ (List.head?_eq_getElem?.trans first) rfl
    · exact of_decide_eq_true (Block.leader_of_mem_tail_split (by rwa [hs]))
  · intro marked
    rw [h.blocks]
    exact Block.exists_leader_eq _ hi (decide_eq_true marked)

/-- The blocks start exactly where the code says. -/
theorem HasFlow.exists_leader_iff (h : l.HasFlow f a) (emitted : f.Emitted) (hi : i ∈ f.code) :
    (∃ b ∈ a.blocks, b.leader = i) ↔ f.Leads i := by
  obtain ⟨total, targets, first, after⟩ := markLeaders_inv h.leaders
  rw [h.exists_leader_iff_mem hi]
  constructor
  · intro marked
    have here : i.id ∈ (l.markLeaders f true f.code).1 := by rwa [h.leaders]
    rcases of_mem_markLeaders here with
      ⟨-, j, hj, e⟩ | ⟨k, hk, j, hj, e⟩ | ⟨p, k, j, t, hk, ht, hj, e⟩
    · cases Function.code_inj (List.mem_of_getElem? hj) hi e
      exact .first hj
    · cases Function.code_inj (mem_code_of_branchTarget emitted hj) hi e
      obtain ⟨s, hs, -, found⟩ := (branchTarget_eq_some_iff emitted).1 hj
      exact .target hk hs found
    · cases Function.code_inj (List.mem_of_getElem? hj) hi e
      exact .afterJump hk (jumps_of_branchTarget ht) hj
  · intro leads
    cases leads with
    | first h₀ => exact first i (List.head?_eq_getElem?.trans h₀) rfl
    | @target j s hj hs found =>
      -- A label that a branch names is known, and known by its first definition.
      obtain ⟨t, ht⟩ := total j hj
      obtain ⟨j', hj'⟩ := branchTarget_of_jumps (Instr.jumps_of_target? hs) ht
      obtain ⟨s', hs', -, found'⟩ := (branchTarget_eq_some_iff emitted).1 hj'
      cases hs.symm.trans hs'
      cases found.symm.trans found'
      exact targets j hj i hj'
    | @afterJump j p hj jumps next =>
      obtain ⟨t, ht⟩ := total j (List.mem_of_getElem? hj)
      obtain ⟨j', hj'⟩ := branchTarget_of_jumps jumps ht
      exact after p j i j' hj next hj'

/-! ## Builds -/

theorem malformed?_of_buildFlow {a' : Annotation} (h : l.buildFlow f a = (a', none)) :
    l.malformed? f = none := by
  unfold buildFlow at h
  split at h
  · cases h
  · split at h
    · cases h
    · assumption

/-- A build succeeds for code whose instructions have the right number of operands and whose
branches name labels defined in it, and for no other code. -/
theorem buildFlow_eq_none_iff (emitted : f.Emitted) (a : Annotation) :
    (l.buildFlow f a).2 = none ↔ f.code ≠ [] ∧ (∀ i ∈ f.code, l.checkOperands f i = .ok ()) ∧
      ∀ i ∈ f.code, i.Jumps → ∃ s, i.target? = some s ∧ l.isLabel s = true ∧
        ∃ j ∈ f.code, j.label? = some s := by
  simp only [← exists_branchTarget_iff emitted]
  constructor
  · intro fine
    have built : l.buildFlow f a = ((l.buildFlow f a).1, none) := Prod.ext rfl fine
    have flow := buildFlow_inv built
    exact ⟨flow.code_ne, malformed?_eq_none_iff.1 (malformed?_of_buildFlow built),
      (markLeaders_inv flow.leaders).1⟩
  · rintro ⟨code_ne, operands, total⟩
    obtain ⟨a', built⟩ := buildFlow_ok (l := l) code_ne operands (fun i hi => by
      obtain ⟨t, ht⟩ := total i hi
      refine ⟨t, ht, ?_⟩
      rintro j rfl
      exact mem_code_of_branchTarget emitted ht) a
    rw [built]

/-- A step of control stays inside a block, or is an edge between two of them. -/
theorem HasFlow.inside_or_edge (h : l.HasFlow f a) (emitted : f.Emitted) {g : Digraph}
    (hg : a.flow = some g) (step : l.Follows f i j) :
    (∃ n m, Block.instrAt? a.blocks n m = some i ∧ Block.instrAt? a.blocks n (m + 1) = some j) ∨
      ∃ n b n' b', a.blocks[n]? = some b ∧ b.last = i ∧ a.blocks[n']? = some b' ∧ b'.leader = j ∧
        (n, n') ∈ g.edges := by
  have hj : j ∈ f.code := by
    rcases step with ⟨-, p, -, hp⟩ | ⟨-, ht⟩
    · exact List.mem_of_getElem? hp
    · exact mem_code_of_branchTarget emitted ht
  obtain ⟨n, m, n', m', hn, hn', passes⟩ := h.passes_of_follows step hj
  cases passes with
  | inside _ => exact .inl ⟨n, m, hn, hn'⟩
  | @edge _ b _ hb last hg' hs =>
    cases hg.symm.trans hg'
    obtain ⟨b', hb', leads⟩ := Block.instrAt?_eq_some.1 hn'
    refine .inr ⟨n, b, n', b', hb, ?_, hb', Option.some.inj leads, Digraph.mem_successors.1 hs⟩
    rw [Block.instrAt?_of_block hb, show m = b.instrs.length - 1 by omega] at hn
    exact Option.some.inj (b.getElem?_instrs_last.symm.trans hn)

/-- Building control flow succeeds exactly for well-formed code, cuts the code exactly at its
leaders, and covers every step that control can take. -/
theorem buildFlow_exact (emitted : f.Emitted) (a : Annotation) :
    ((l.buildFlow f a).2 = none ↔ f.code ≠ [] ∧ (∀ i ∈ f.code, l.checkOperands f i = .ok ()) ∧
      ∀ i ∈ f.code, i.Jumps → ∃ s, i.target? = some s ∧ l.isLabel s = true ∧
        ∃ j ∈ f.code, j.label? = some s) ∧
    ∀ a', l.buildFlow f a = (a', none) →
      (∀ b ∈ a'.blocks, b.instrs ≠ []) ∧ a'.blocks.flatMap Block.instrs = f.code ∧
      (∀ i ∈ f.code, (∃ b ∈ a'.blocks, b.leader = i) ↔ f.Leads i) ∧
      ∃ g, a'.flow = some g ∧ ∀ i j, l.Follows f i j →
        (∃ n m, Block.instrAt? a'.blocks n m = some i ∧
          Block.instrAt? a'.blocks n (m + 1) = some j) ∨
        ∃ n b n' b', a'.blocks[n]? = some b ∧ b.last = i ∧ a'.blocks[n']? = some b' ∧
          b'.leader = j ∧ (n, n') ∈ g.edges := by
  refine ⟨buildFlow_eq_none_iff emitted a, ?_⟩
  intro a' built
  have flow := buildFlow_inv built
  rcases flow.flow with ⟨g, hg, -⟩
  refine ⟨fun b _ => List.cons_ne_nil _ _, flow.flatMap_instrs, ?_, g, hg, ?_⟩
  · exact fun i hi => flow.exists_leader_iff emitted hi
  · exact fun i j step => flow.inside_or_edge emitted hg step

/-- The loop of `pow` starts a block because a branch further down names it, while the instruction
before it starts none. -/
theorem buildFlow_exact_pow :
    ∃ f a' i j, pow.functions[0]? = some f ∧ f.Emitted ∧ pow.buildFlow f {} = (a', none) ∧
      f.code[1]? = some i ∧ f.code[2]? = some j ∧ (¬∃ b ∈ a'.blocks, b.leader = i) ∧
      ∃ b ∈ a'.blocks, b.leader = j := by
  let f := pow.functions.getD 0 default
  have emitted : f.Emitted := pow_built.emitted f (by decide)
  have labels : ∀ i ∈ f.code, i.Jumps → ∃ s ∈ [2, 3],
      i.target? = some s ∧ pow.isLabel s = true ∧ ∃ j ∈ f.code, j.label? = some s := by decide
  have built : pow.buildFlow f {} = ((pow.buildFlow f {}).1, none) := by
    refine Prod.ext rfl ((buildFlow_exact emitted {}).1.2 ⟨by decide, by decide, ?_⟩)
    intro i hi jumps
    obtain ⟨s, -, named⟩ := labels i hi jumps
    exact ⟨s, named⟩
  obtain ⟨-, -, leads, -⟩ := (buildFlow_exact emitted {}).2 _ built
  refine ⟨f, _, f.code.getD 1 default, f.code.getD 2 default, rfl, emitted, built, rfl, rfl, ?_, ?_⟩
  · rw [leads _ (by decide)]
    rintro (first | ⟨-, -, found⟩ | ⟨hj, jumps, next⟩)
    · exact absurd first (by decide)
    · cases label?_of_definition? found
    · have plain : ∀ j ∈ f.code[0]?, ¬j.Jumps := by decide
      cases (f.indexed _ _ next : 1 = _)
      exact plain _ hj jumps
  · rw [leads _ (by decide)]
    exact .target (j := f.code.getD 6 default) (s := 2) (by decide) rfl rfl

end Listing

end RegColor
