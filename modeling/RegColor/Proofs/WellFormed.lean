import RegColor.Proofs.Built

/-!
# Well-formed listings

`Listing.WellFormed` says what a listing has to be like, operand by operand and function by
function, without a word on the order in which the check looks at things or on what it skips after
a finding. Each function of the check has a lemma that says when it finds no error
(`mild_checkValue_iff` and others), whatever else it finds: warnings are no part of it.

* `harmless_check_iff`: the check finds no error in exactly the listings that are well formed;
* `check_ok`: it gives an answer whenever every instruction has an operation with a name;
* `check_error_iff`: so it reports an error if and only if a listing is not well formed.
-/

namespace RegColor

/-! ## What a listing has to be like -/

/-- Whether the operand at a position is a value: it is neither written nor a branch target nor a
callee. The array of a `load`, a `store` or an `arrinit` is one. -/
def Opcode.takesValue (op : Opcode) (p : Nat) : Bool :=
  !(op.writesFirst && p = 0) && op.targetPosition? ≠ some p && !(op = .call && p = 1)

/-- The operand that a branch names as its target. -/
def Instr.target? (i : Instr) : Option SymbolId := i.op.targetPosition?.bind (i.operands[·]?)

namespace Listing

/-- Every instruction of a listing but its labels has an operation with a mnemonic. -/
def Named (l : Listing) : Prop :=
  ∀ f ∈ l.functions, ∀ i ∈ f.code, i.label? = none → i.op ∈ Opcode.spelled

instance (l : Listing) : Decidable l.Named :=
  inferInstanceAs (Decidable (∀ f ∈ l.functions, ∀ i ∈ f.code, _ → _))

/-- A variable belongs to a function: it is a parameter of it or one of its locals. -/
def Owns (l : Listing) (f : Function) (s : SymbolId) : Prop :=
  (l.symbol s).kind = .var ∧ (l.symbol s).owner = some f.symbol

/-- What a function can read: a constant or a variable of its own. -/
def IsValue (l : Listing) (f : Function) (s : SymbolId) : Prop :=
  l.isConstant s = true ∨ l.Owns f s

/-- An instruction has as many operands as its operation takes, writes a variable of its function,
reads values, branches to a label and calls a function. -/
structure Formed (l : Listing) (f : Function) (i : Instr) : Prop where
  arity : i.op.arity.accepts i.operands.length = true
  defs : ∀ s ∈ i.defs, l.Owns f s
  values : ∀ (p : Nat) (s : SymbolId), i.operands[p]? = some s → i.op.takesValue p = true →
    l.IsValue f s
  target : ∀ s, i.target? = some s → l.isLabel s = true
  callee : ∀ s, i.callee? = some s → (l.symbol s).kind = .function

/-- A function has code, defines no label twice, and defines every label that it branches to. -/
structure FormedFunction (l : Listing) (f : Function) : Prop where
  code_ne : f.code ≠ []
  labels : (f.code.filterMap Instr.label?).Nodup
  instrs : ∀ i ∈ f.code, i.label? = none → l.Formed f i
  defined : ∀ i ∈ f.code, ∀ s, i.target? = some s → ∃ j ∈ f.code, j.label? = some s

/-- Functions have different names, and each is formed as it should be. -/
structure WellFormed (l : Listing) : Prop where
  names : (l.functions.map l.nameOf).Nodup
  functions : ∀ f ∈ l.functions, l.FormedFunction f

variable {l : Listing} {f : Function} {i : Instr} {s : SymbolId} {op : Opcode}

theorem Owns.isLocal (h : l.Owns f s) (arg : (l.symbol s).isArgument = false) :
    l.isLocal f s = true := by
  simp [Listing.isLocal, h.1, h.2, arg]

/-! ## Findings -/

/-- No finding is an error. -/
def Harmless (ds : List Diagnostic) : Prop := ∀ d ∈ ds, d.isError = false

/-- The check reports no error. -/
def Accepted (l : Listing) : Prop := ∃ ds, l.check = .ok ds ∧ Harmless ds

/-- Findings about an instruction that are not errors. -/
def Mild (fs : List Finding) : Prop := ∀ x ∈ fs, x.severity = .warning

theorem Harmless.append {ds ds' : List Diagnostic} :
    Harmless (ds ++ ds') ↔ Harmless ds ∧ Harmless ds' :=
  List.forall_mem_append

theorem harmless_nil : Harmless [] := List.forall_mem_nil _

@[simp] theorem Mild.append {fs fs' : List Finding} : Mild (fs ++ fs') ↔ Mild fs ∧ Mild fs' :=
  List.forall_mem_append

theorem mild_nil : Mild [] := List.forall_mem_nil _

@[simp] theorem mild_flatMap {α : Type} {xs : List α} {g : α → List Finding} :
    Mild (xs.flatMap g) ↔ ∀ x ∈ xs, Mild (g x) :=
  List.forall_mem_flatMap

theorem not_mild {x : Finding} (h : x.severity = .error) : ¬Mild [x] := fun mild => by
  cases h.symm.trans (mild x (List.mem_singleton_self x))

theorem isError_eq_false_iff {d : Diagnostic} :
    d.isError = false ↔ d.finding.severity = .warning := by
  unfold Diagnostic.isError Diagnostic.severity
  cases d.finding.severity <;> simp

/-- Findings at one place are harmless if they are mild. -/
theorem harmless_map_iff {fs : List Finding} {name : String} {line : Int} :
    Harmless (fs.map (⟨·, name, line⟩)) ↔ Mild fs := by
  unfold Harmless Mild
  rw [List.forall_mem_map]
  exact forall₂_congr fun _ _ => isError_eq_false_iff

/-! ## Operands -/

@[simp] theorem mild_checkValue_iff : Mild (l.checkValue f op s) ↔ l.IsValue f s := by
  unfold checkValue
  dsimp only
  split
  · next const => exact iff_of_true mild_nil (.inl const)
  · next const =>
    split
    · next var =>
      split
      · next own => exact iff_of_true mild_nil (.inr ⟨var, own⟩)
      · next foreign =>
        exact iff_of_false (not_mild rfl) (not_or.2 ⟨const, fun owns => foreign owns.2⟩)
    · next other =>
      exact iff_of_false (not_mild rfl) (not_or.2 ⟨const, fun owns => other owns.1⟩)

/-- That a variable is no array is a warning. -/
@[simp] theorem mild_checkArray_iff : Mild (l.checkArray f op s) ↔ l.IsValue f s := by
  unfold checkArray
  rw [Mild.append, mild_checkValue_iff]
  refine and_iff_left ?_
  split
  · rintro x (_ | ⟨_, ⟨⟩⟩)
    rfl
  · exact mild_nil

@[simp] theorem mild_checkDef_iff : Mild (l.checkDef f op s) ↔ l.Owns f s := by
  unfold checkDef
  dsimp only
  split
  · next other => exact iff_of_false (not_mild rfl) fun owns => other owns.1
  · next var =>
    split
    · next own => exact iff_of_true mild_nil ⟨not_not.1 var, own⟩
    · next foreign => exact iff_of_false (not_mild rfl) fun owns => foreign owns.2

@[simp] theorem mild_checkTarget_iff : Mild (l.checkTarget op s) ↔ l.isLabel s = true := by
  unfold checkTarget isLabel
  dsimp only
  split
  · next label => exact iff_of_true mild_nil (decide_eq_true label)
  · next other => exact iff_of_false (not_mild rfl) fun label => other (of_decide_eq_true label)

/-- That a call passes too few or too many arguments is a warning. -/
@[simp] theorem mild_checkCall_iff {args : List SymbolId} :
    Mild (l.checkCall f s args) ↔ (l.symbol s).kind = .function ∧ ∀ a ∈ args, l.IsValue f a := by
  unfold checkCall
  dsimp only
  split
  · next function =>
    rw [Mild.append, mild_flatMap]
    simp only [mild_checkValue_iff, function, true_and]
    refine and_iff_left ?_
    split
    · exact mild_nil
    · split
      · exact mild_nil
      · rintro x (_ | ⟨_, ⟨⟩⟩)
        rfl
  · next other => exact iff_of_false (not_mild rfl) fun formed => other formed.1

/-! ## Instructions -/

theorem accepts_exactly {n m : Nat} : (Arity.exactly n).accepts m = true ↔ m = n := by
  simp [Arity.accepts, Arity.exactly]
  omega

/-- What holds of the elements of a list by their positions, from the first on. -/
@[simp] theorem forall_getElem?_cons {α : Type} {x : α} {xs : List α} {P : Nat → α → Prop} :
    (∀ p y, (x :: xs)[p]? = some y → P p y) ↔ P 0 x ∧ ∀ p y, xs[p]? = some y → P (p + 1) y := by
  constructor
  · intro h
    exact ⟨h 0 x rfl, fun p y hy => h (p + 1) y hy⟩
  · rintro ⟨here, later⟩ p y hy
    cases p with
    | zero =>
      cases hy
      exact here
    | succ p => exact later p y hy

theorem forall_getElem?_iff {α : Type} {xs : List α} {P : α → Prop} :
    (∀ (p : Nat) y, xs[p]? = some y → P y) ↔ ∀ y ∈ xs, P y := by
  constructor
  · intro h y mem
    obtain ⟨p, hp⟩ := List.mem_iff_getElem?.1 mem
    exact h p y hp
  · exact fun h p y hy => h y (List.mem_of_getElem? hy)

/-- With as many operands as the operation takes, each is looked at as what it is. -/
theorem mild_checkReads_iff {ss : List SymbolId} {fs : List Finding}
    (accepted : op.arity.accepts ss.length = true) (h : l.checkReads f op ss = .ok fs) :
    Mild fs ↔
      (∀ (p : Nat) s, ss[p]? = some s → op.takesValue p = true → l.IsValue f s) ∧
      (∀ s, op.targetPosition?.bind (ss[·]?) = some s → l.isLabel s = true) ∧
      ∀ s, (if op = .call then ss[1]? else none) = some s → (l.symbol s).kind = .function := by
  have three (exact : op.arity = .exactly 3) : ∃ a b c, ss = [a, b, c] :=
    List.length_eq_three.1 (accepts_exactly.1 (exact ▸ accepted))
  cases op with
  | label | unnamed _ =>
    cases List.length_eq_zero_iff.1 (accepts_exactly.1 accepted)
    cases h
  | assign =>
    obtain ⟨a, b, rfl⟩ := List.length_eq_two.1 (accepts_exactly.1 accepted)
    cases h
    simp [Opcode.takesValue, Opcode.writesFirst, Opcode.targetPosition?]
  | arith _ | load | store | arrinit =>
    obtain ⟨a, b, c, rfl⟩ := three rfl
    cases h
    simp [Opcode.takesValue, Opcode.writesFirst, Opcode.targetPosition?]
  | goto =>
    obtain ⟨a, rfl⟩ := List.length_eq_one_iff.1 (accepts_exactly.1 accepted)
    cases h
    simp [Opcode.takesValue, Opcode.writesFirst, Opcode.targetPosition?]
  | branch cmp =>
    obtain ⟨a, b, c, rfl⟩ := three rfl
    cases h
    simp [Opcode.takesValue, Opcode.writesFirst, Opcode.targetPosition?, and_assoc]
  | ret =>
    cases h
    simp [forall_getElem?_iff, Opcode.takesValue, Opcode.writesFirst, Opcode.targetPosition?]
  | call =>
    match ss, accepted with
    | d :: c :: args, _ =>
      cases h
      simp [forall_getElem?_iff, Opcode.takesValue, Opcode.writesFirst, Opcode.targetPosition?,
        and_comm]

theorem mild_checkInstr_iff {fs : List Finding} (h : l.checkInstr f i = .ok fs) :
    Mild fs ↔ l.Formed f i := by
  unfold checkInstr at h
  split at h
  · next accepted =>
    obtain ⟨reads, hreads, rfl⟩ := map_eq_ok h
    rw [Mild.append, mild_flatMap, mild_checkReads_iff accepted hreads]
    simp only [mild_checkDef_iff]
    constructor
    · rintro ⟨defs, values, target, callee⟩
      exact ⟨accepted, defs, values, target, callee⟩
    · rintro ⟨-, defs, values, target, callee⟩
      exact ⟨defs, values, target, callee⟩
  · next refused =>
    cases h
    exact iff_of_false (not_mild rfl) fun formed => refused formed.arity

/-! ## Functions -/

theorem definition?_eq_none_iff {code : List Instr} :
    definition? code s = none ↔ s ∉ code.filterMap Instr.label? := by
  simp [definition?, List.mem_filterMap]

/-- Code is harmless if its instructions are formed and its labels are new, each one from those
before it. -/
theorem harmless_checkCode_iff {before code : List Instr} {ds : List Diagnostic}
    (h : l.checkCode f before code = .ok ds) :
    Harmless ds ↔ (∀ i ∈ code, i.label? = none → l.Formed f i) ∧
      (code.filterMap Instr.label?).Nodup ∧
      ∀ s ∈ code.filterMap Instr.label?, s ∉ before.filterMap Instr.label? := by
  induction code generalizing before ds with
  | nil =>
    cases h
    simp [harmless_nil]
  | cons i code ih =>
    unfold checkCode at h
    split at h
    · cases h
    next here hhere =>
    obtain ⟨more, hmore, rfl⟩ := map_eq_ok h
    rw [Harmless.append, harmless_map_iff, ih hmore, List.forall_mem_cons]
    unfold checkNext at hhere
    split at hhere
    · next s label =>
      have fresh : Mild here ↔ s ∉ before.filterMap Instr.label? := by
        rw [← definition?_eq_none_iff]
        split at hhere
        · next known =>
          cases hhere
          exact iff_of_false (not_mild rfl) (by simp [known])
        · next new =>
          cases hhere
          exact iff_of_true mild_nil new
      simp only [fresh, label, List.filterMap_cons, List.filterMap_append, List.filterMap_nil,
        List.nodup_cons, List.forall_mem_cons, List.mem_append, List.mem_singleton, reduceCtorEq,
        false_imp_iff, true_and]
      grind
    · next plain =>
      rw [mild_checkInstr_iff hhere]
      simp only [plain, List.filterMap_cons, List.filterMap_append, List.filterMap_nil,
        List.append_nil, true_imp_iff, and_assoc]

theorem harmless_unusedLabels : Harmless (l.unusedLabels f) := by
  intro d mem
  obtain ⟨i, -, found⟩ := List.mem_filterMap.1 mem
  split at found
  · split at found
    · cases found
    · cases found
      rfl
  · cases found

theorem harmless_missingReturn : Harmless (l.missingReturn f) := by
  unfold missingReturn
  split
  · split
    · rintro d (_ | ⟨_, ⟨⟩⟩)
      rfl
    · exact harmless_nil
  · exact harmless_nil

theorem harmless_undefinedLabels_iff :
    Harmless (l.undefinedLabels f) ↔
      ∀ i ∈ f.code, ∀ s, l.targetLabel? i = some s → s ∈ f.code.filterMap Instr.label? := by
  constructor
  · intro harmless i hi s target
    by_contra undefined
    have found : (f.code.find? fun j => l.targetLabel? j = some s).isSome = true :=
      List.find?_isSome.2 ⟨i, hi, by simpa using target⟩
    obtain ⟨j, hj⟩ := Option.isSome_iff_exists.1 found
    have mem : (⟨.undefinedLabel (l.symbol s).name, l.nameOf f, j.line⟩ : Diagnostic) ∈
        l.undefinedLabels f := by
      refine List.mem_filterMap.2 ⟨s, ?_, by rw [definition?_eq_none_iff.2 undefined, hj]⟩
      exact OrdSet.mem_ofList.2 (List.mem_filterMap.2 ⟨i, hi, target⟩)
    cases harmless _ mem
  · intro defined d mem
    obtain ⟨s, -, found⟩ := List.mem_filterMap.1 mem
    split at found
    · next i undefined first =>
      have target := List.find?_some first
      exact absurd (defined i (List.mem_of_find?_eq_some first) s (of_decide_eq_true target))
        (definition?_eq_none_iff.1 undefined)
    · cases found

theorem op_of_label (h : i.label? = some s) : i.op = .label ∧ i.operands = [] := by
  rcases i with ⟨id, a, line⟩
  cases a with
  | label t => exact ⟨rfl, rfl⟩
  | apply op operands => cases h

/-- The check knows the target of every branch that is formed. -/
theorem targetLabel?_eq (formed : i.label? = none → l.Formed f i) :
    l.targetLabel? i = i.target? := by
  cases plain : i.label? with
  | some s =>
    obtain ⟨op, operands⟩ := op_of_label plain
    simp [targetLabel?, Instr.target?, op, operands, Opcode.targetPosition?]
  | none =>
    rw [targetLabel?, if_pos (formed plain).arity]
    show i.target?.filter l.isLabel = i.target?
    cases target : i.target? with
    | none => rfl
    | some s => rw [Option.filter_some, if_pos ((formed plain).target s target)]

theorem harmless_checkFunction_iff {ds : List Diagnostic} (h : l.checkFunction f = .ok ds) :
    Harmless ds ↔ l.FormedFunction f := by
  unfold checkFunction at h
  split at h
  · next empty =>
    cases h
    refine iff_of_false (fun harmless => ?_) fun formed => formed.code_ne (by simpa using empty)
    cases harmless _ (List.mem_singleton_self _)
  next code =>
  obtain ⟨cs, hcs, rfl⟩ := map_eq_ok h
  simp only [Harmless.append, harmless_checkCode_iff hcs, harmless_undefinedLabels_iff,
    harmless_unusedLabels, harmless_missingReturn, List.mem_filterMap (l := f.code), and_true]
  constructor
  · rintro ⟨⟨instrs, labels, -⟩, defined⟩
    refine ⟨by simpa using code, labels, instrs, fun i hi s target => defined i hi s ?_⟩
    rw [targetLabel?_eq (instrs i hi), target]
  · rintro ⟨-, labels, instrs, defined⟩
    refine ⟨⟨instrs, labels, fun _ _ => List.not_mem_nil⟩, fun i hi s target => defined i hi s ?_⟩
    rw [← targetLabel?_eq (instrs i hi), target]

/-! ## Listings -/

theorem harmless_checkFunctions_iff {seen : List String} {fs : List Function}
    {ds : List Diagnostic} (h : l.checkFunctions seen fs = .ok ds) :
    Harmless ds ↔ (fs.map l.nameOf).Nodup ∧ (∀ f ∈ fs, l.nameOf f ∉ seen) ∧
      ∀ f ∈ fs, l.FormedFunction f := by
  induction fs generalizing seen ds with
  | nil =>
    cases h
    simp [harmless_nil]
  | cons f fs ih =>
    unfold checkFunctions at h
    split at h
    · cases h
    next here hhere =>
    obtain ⟨more, hmore, rfl⟩ := map_eq_ok h
    have twice : Harmless (if l.nameOf f ∈ seen then
        [⟨.functionTwice (l.nameOf f), l.nameOf f, 0⟩] else []) ↔ l.nameOf f ∉ seen := by
      split
      · next known =>
        refine iff_of_false (fun harmless => ?_) (not_not_intro known)
        cases harmless _ (List.mem_singleton_self _)
      · next new => exact iff_of_true harmless_nil new
    rw [Harmless.append, Harmless.append, twice, harmless_checkFunction_iff hhere, ih hmore]
    simp only [List.map_cons, List.nodup_cons, List.forall_mem_cons, List.mem_map, List.mem_append,
      List.mem_singleton]
    grind

theorem harmless_check_iff {ds : List Diagnostic} (h : l.check = .ok ds) :
    Harmless ds ↔ l.WellFormed := by
  rw [harmless_checkFunctions_iff h]
  constructor
  · rintro ⟨names, -, functions⟩
    exact ⟨names, functions⟩
  · rintro ⟨names, functions⟩
    exact ⟨names, fun _ _ => List.not_mem_nil, functions⟩

theorem Accepted.wellFormed (h : l.Accepted) : l.WellFormed := by
  obtain ⟨ds, hds, harmless⟩ := h
  exact (harmless_check_iff hds).1 harmless

/-! ## When the check gives an answer -/

theorem checkReads_ok (spelled : op ∈ Opcode.spelled) {ss : List SymbolId}
    (accepted : op.arity.accepts ss.length = true) : ∃ fs, l.checkReads f op ss = .ok fs := by
  cases ss with
  | nil =>
    cases op with
    | ret => exact ⟨_, rfl⟩
    | label | unnamed _ => simp [Opcode.spelled, Opcode.named] at spelled
    | _ => cases accepted
  | cons s ss =>
    unfold checkReads
    split
    case h_9 empty => cases empty
    all_goals exact ⟨_, rfl⟩

theorem checkNext_ok (before : List Instr) (h : i.label? = none → i.op ∈ Opcode.spelled) :
    ∃ fs, l.checkNext f before i = .ok fs := by
  unfold checkNext
  cases plain : i.label? with
  | some s =>
    simp only
    split <;> exact ⟨_, rfl⟩
  | none =>
    simp only [checkInstr]
    split
    · next accepted =>
      obtain ⟨fs, hfs⟩ := checkReads_ok (l := l) (f := f) (h plain) accepted
      rw [hfs]
      exact ⟨_, rfl⟩
    · exact ⟨_, rfl⟩

theorem checkCode_ok (before : List Instr) {code : List Instr}
    (h : ∀ i ∈ code, i.label? = none → i.op ∈ Opcode.spelled) :
    ∃ ds, l.checkCode f before code = .ok ds := by
  induction code generalizing before with
  | nil => exact ⟨[], rfl⟩
  | cons i code ih =>
    obtain ⟨more, hmore⟩ := ih (before ++ [i]) fun j hj => h j (List.mem_cons_of_mem _ hj)
    obtain ⟨here, hhere⟩ := checkNext_ok (l := l) (f := f) before (h i (List.mem_cons_self ..))
    rw [checkCode, hhere, hmore]
    exact ⟨_, rfl⟩

theorem checkFunctions_ok (seen : List String) {fs : List Function}
    (h : ∀ f ∈ fs, ∀ i ∈ f.code, i.label? = none → i.op ∈ Opcode.spelled) :
    ∃ ds, l.checkFunctions seen fs = .ok ds := by
  induction fs generalizing seen with
  | nil => exact ⟨[], rfl⟩
  | cons f fs ih =>
    obtain ⟨more, hmore⟩ := ih (seen ++ [l.nameOf f]) fun g hg => h g (List.mem_cons_of_mem _ hg)
    obtain ⟨ds, hds⟩ : ∃ ds, l.checkFunction f = .ok ds := by
      unfold checkFunction
      split
      · exact ⟨_, rfl⟩
      · obtain ⟨cs, hcs⟩ := checkCode_ok (l := l) (f := f) [] (h f (List.mem_cons_self ..))
        rw [hcs]
        exact ⟨_, rfl⟩
    simp only [checkFunctions, hds, hmore]
    exact ⟨_, rfl⟩

theorem Built.named {sizes : Int → Prop} (h : l.Built sizes (· ∈ Opcode.named)) : l.Named := by
  intro f hf i hi plain
  rcases h.coherent.ops f hf i hi with isLabel | ⟨named, ne⟩
  · rw [Instr.isLabel, plain] at isLabel
    cases isLabel
  · simp [Opcode.spelled, named, ne]

/-- The check answers for listings whose operations have names. -/
theorem check_ok {sizes : Int → Prop} (h : l.Built sizes (· ∈ Opcode.named)) :
    ∃ ds, l.check = .ok ds :=
  checkFunctions_ok [] h.named

/-- The check reports an error if and only if the listing is not well formed. It does not matter
which warnings it reports besides. -/
theorem check_error_iff (named : l.Named) :
    ∃ ds, l.check = .ok ds ∧ ((∃ d ∈ ds, d.severity = .error) ↔ ¬l.WellFormed) := by
  obtain ⟨ds, hds⟩ := checkFunctions_ok [] named
  refine ⟨ds, hds, ?_⟩
  rw [← harmless_check_iff hds]
  simp [Harmless, Diagnostic.isError]

/-- A function `skip(n)` that jumps over a write to its parameter:
`goto end; dead: n[1] := 1; end: return n`. -/
def skip : Listing :=
  let symbols : List Symbol :=
    [{ name := "skip", kind := .function, type := none },
      { name := "1", kind := .int 1, type := none },
      { name := "end", kind := .label, type := none },
      { name := "dead", kind := .label, type := none }]
  let l : Listing := symbols.foldl (fun l s => (l.addSymbol s).1) {}
  let l := { l with functions := [{ symbol := 0 }] }
  let l := (l.addParam 0 "n" none 4).1
  let code : List Action :=
    [.apply .goto [2], .label 3, .apply .store [4, 1, 1], .label 2, .apply .ret [4]]
  code.foldl (fun l a => (l.push 0 a 0).1) l

theorem skip_built : skip.Built (· = 4) (· ∈ Opcode.named) := by
  let l₀ : Listing := { symbols := skip.symbols.take 4 }
  have symbols : l₀.Built (· = 4) (· ∈ Opcode.named) := by
    refine .symbol (.symbol (.symbol (.symbol .empty ?_ ?_) ?_ ?_) ?_ ?_) ?_ ?_ <;> decide
  have function : l₀.addFunction 0 = .ok { l₀ with functions := [{ symbol := 0 }] } := by decide
  have param : (addParam _ 0 "n" none 4).1.Built (· = 4) (· ∈ Opcode.named) :=
    .param "n" none (.function symbols function) (by decide) rfl
  exact Built.pushAll (k := 0) param (by decide) 0

/-- An unused label and a parameter that is no array are worth two warnings, and `skip` is still
well formed. -/
theorem check_error_iff_skip :
    skip.Built (· = 4) (· ∈ Opcode.named) ∧ skip.WellFormed ∧
      ∃ d d', skip.check = .ok [d, d'] := by
  obtain ⟨ds, hds, errors⟩ := check_error_iff skip_built.named
  have found : skip.check = .ok [⟨.notArray .store "n", "skip", 0⟩,
    ⟨.unusedLabel "dead", "skip", 0⟩] := by decide
  cases hds.symm.trans found
  exact ⟨skip_built, not_not.1 (mt errors.2 (by decide)), _, _, found⟩

end Listing

end RegColor
