import RegColor.Listing.Resolve
import RegColor.Proofs.Readers

/-!
# Names of functions and variables

A function is defined once, and a parameter or a variable is introduced under a name that is not
known yet; a name that is only mentioned becomes known without further ado. `Effect.AllAllowed` says
so of effects one after the other, and `Definition.WellNamed` of a function as a whole. They agree
(`allAllowed_definitions`).

A builder keeps names in tables of symbols. `Builder.Tracks` ties them to the names that effects
have made known, and every item acts on them as its effect does (`Tracks.add`). So items are added
without errors if and only if their effects are allowed (`Tracks.addAll`).
-/

namespace RegColor

/-! ## Names in scope -/

/-- The functions that have a body so far, and the variables known in the current one. -/
structure Names where
  functions : List String
  vars : List String

namespace Effect

/-- Whether names allow an effect: a function is started once, and parameters and variables are
introduced under new names. -/
def Allowed (N : Names) : Effect → Prop
  | fail => False
  | start name => name ∉ N.functions
  | param name => name ∉ N.vars
  | declare names => names.Nodup ∧ ∀ n ∈ names, n ∉ N.vars
  | mention _ => True

/-- The names after an effect. -/
def run (N : Names) : Effect → Names
  | fail => N
  | start name => ⟨N.functions ++ [name], []⟩
  | param name => { N with vars := N.vars ++ [name] }
  | declare names => { N with vars := N.vars ++ names }
  | mention names => { N with vars := N.vars ++ names }

/-- Whether names allow effects one after the other. -/
def AllAllowed (N : Names) : List Effect → Prop
  | [] => True
  | e :: es => e.Allowed N ∧ AllAllowed (e.run N) es

theorem allAllowed_append {N : Names} {es es' : List Effect} :
    AllAllowed N (es ++ es') ↔ AllAllowed N es ∧ AllAllowed (es.foldl run N) es' := by
  induction es generalizing N with
  | nil => simp [AllAllowed]
  | cons e es ih => simp [AllAllowed, ih, and_assoc]

theorem fail_notMem_of_allAllowed {N : Names} {es : List Effect} (h : AllAllowed N es) :
    fail ∉ es := by
  induction es generalizing N with
  | nil => exact List.not_mem_nil
  | cons e es ih =>
    rintro (_ | ⟨_, later⟩)
    · exact h.1
    · exact ih h.2 later

end Effect

namespace Grammar

open Effect

/-- The parameters of a function have different names, and no declaration gives a name that is a
parameter or that a line before it declares or mentions. -/
structure Definition.WellNamed (d : Definition) : Prop where
  params : (d.params.map (·.name.value)).Nodup
  declared : ∀ before names type after, d.body = before ++ .declare names type :: after →
    (names.map Token.value).Nodup ∧ ∀ n ∈ names, n.value ∉ d.params.map (·.name.value) ∧
      n.value ∉ before.flatMap Line.variables

variable {N : Names}

theorem allAllowed_params (ps : List Param) :
    AllAllowed N (ps.map fun p => .param p.name.value) ↔
      (ps.map (·.name.value)).Nodup ∧ ∀ p ∈ ps, p.name.value ∉ N.vars := by
  induction ps generalizing N with
  | nil => simp [AllAllowed]
  | cons p ps ih =>
    simp only [List.map_cons, AllAllowed, ih, Allowed, run, List.nodup_cons, List.mem_map,
      List.mem_append, List.mem_singleton, List.forall_mem_cons]
    grind

theorem run_params (ps : List Param) :
    (ps.map fun p => Effect.param p.name.value).foldl run N =
      { N with vars := N.vars ++ ps.map (·.name.value) } := by
  induction ps generalizing N with
  | nil => simp
  | cons p ps ih => simp [ih, run]

theorem run_line (l : Line) : l.effect.run N = { N with vars := N.vars ++ l.variables } := by
  cases l <;> rfl

/-- A body is allowed if its declarations are, each under the names of the lines before it. -/
theorem allAllowed_body (ls : List Line) :
    AllAllowed N (ls.map Line.effect) ↔ ∀ before names type after,
      ls = before ++ .declare names type :: after → (names.map Token.value).Nodup ∧
        ∀ n ∈ names, n.value ∉ N.vars ∧ n.value ∉ before.flatMap Line.variables := by
  -- The names of the lines that were passed are in `N`, those still before the declaration are not.
  induction ls generalizing N with
  | nil => simp [AllAllowed]
  | cons l ls ih =>
    simp only [List.map_cons, AllAllowed, run_line, ih]
    constructor
    · rintro ⟨here, later⟩ before names type after split
      cases before with
      | nil =>
        cases split
        exact ⟨here.1, fun n mem => ⟨here.2 _ (List.mem_map_of_mem mem), List.not_mem_nil⟩⟩
      | cons _ before =>
        cases split
        obtain ⟨distinct, new⟩ := later before names type after rfl
        refine ⟨distinct, fun n mem => ?_⟩
        obtain ⟨known, declared⟩ := new n mem
        rw [List.mem_append, not_or] at known
        rw [List.flatMap_cons, List.mem_append, not_or]
        exact ⟨known.1, known.2, declared⟩
    · intro all
      constructor
      · cases l with
        | declare names type =>
          obtain ⟨distinct, new⟩ := all [] names type ls rfl
          exact ⟨distinct, List.forall_mem_map.2 fun n mem => (new n mem).1⟩
        | label => trivial
        | instr => trivial
      · rintro before names type after rfl
        obtain ⟨distinct, new⟩ := all (l :: before) names type after rfl
        refine ⟨distinct, fun n mem => ?_⟩
        obtain ⟨known, declared⟩ := new n mem
        rw [List.flatMap_cons, List.mem_append, not_or] at declared
        rw [List.mem_append, not_or]
        exact ⟨⟨known, declared.1⟩, declared.2⟩

theorem allAllowed_effects (d : Definition) :
    AllAllowed N d.effects ↔ d.name.value ∉ N.functions ∧ d.WellNamed := by
  have result (M : Names) :
      AllAllowed M (d.result.map fun _ => mention []).toList ∧
        (d.result.map fun _ => mention []).toList.foldl run M = M := by
    cases d.result <;> simp [AllAllowed, Allowed, run]
  rw [Definition.effects, AllAllowed, List.append_assoc, allAllowed_append, allAllowed_append,
    allAllowed_params, run_params, (result _).2, allAllowed_body]
  simp only [Allowed, run, (result _).1, List.nil_append, true_and]
  constructor
  · rintro ⟨new, ⟨distinct, -⟩, declared⟩
    exact ⟨new, distinct, declared⟩
  · rintro ⟨new, distinct, declared⟩
    exact ⟨new, ⟨distinct, fun _ _ => List.not_mem_nil⟩, declared⟩

theorem functions_body (ls : List Line) :
    ((ls.map Line.effect).foldl run N).functions = N.functions := by
  induction ls generalizing N with
  | nil => rfl
  | cons l ls ih => rw [List.map_cons, List.foldl_cons, ih, run_line]

theorem functions_effects (d : Definition) :
    (d.effects.foldl run N).functions = N.functions ++ [d.name.value] := by
  rw [Definition.effects, List.foldl_cons, List.foldl_append, List.foldl_append, functions_body,
    run_params]
  cases d.result <;> rfl

theorem allAllowed_definitions (ds : List Definition) :
    AllAllowed N (ds.flatMap Definition.effects) ↔
      (ds.map (·.name.value)).Nodup ∧ (∀ d ∈ ds, d.name.value ∉ N.functions) ∧
        ∀ d ∈ ds, d.WellNamed := by
  induction ds generalizing N with
  | nil => simp [AllAllowed]
  | cons d ds ih =>
    rw [List.flatMap_cons, allAllowed_append, allAllowed_effects, ih, functions_effects]
    simp only [List.map_cons, List.nodup_cons, List.mem_map, List.mem_append, List.mem_singleton,
      List.forall_mem_cons]
    grind

end Grammar

/-! ## Names that a builder knows -/

theorem Listing.isSome_bodyOf?_iff {l : Listing} {s : SymbolId} :
    (l.bodyOf? s).isSome = true ↔ s ∈ l.functions.map Function.symbol := by
  rw [bodyOf?, Option.isSome_map, List.findIdx?_isSome]
  simp

namespace Builder

variable {b b' b'' : Builder} {N : Names} {name : String}

/-- The symbols of the functions that have a body. -/
def bodies (b : Builder) : List SymbolId := b.listing.functions.map Function.symbol

/-- A change that reports nothing and leaves functions alone. -/
structure Quiet (b b' : Builder) : Prop where
  errors : b'.errors = b.errors
  functions : b'.functions = b.functions
  bodies : b'.bodies = b.bodies
  size : b.listing.symbols.size ≤ b'.listing.symbols.size

theorem Quiet.refl (b : Builder) : Quiet b b := ⟨rfl, rfl, rfl, Nat.le_refl _⟩

theorem Quiet.trans (h : Quiet b b') (h' : Quiet b' b'') : Quiet b b'' :=
  ⟨h'.errors.trans h.errors, h'.functions.trans h.functions, h'.bodies.trans h.bodies,
    Nat.le_trans h.size h'.size⟩

theorem bodies_modifyFunction (l : Listing) (k : Nat) {g : Function → Function}
    (same : ∀ f, (g f).symbol = f.symbol) :
    (l.modifyFunction k g).functions.map Function.symbol = l.functions.map Function.symbol := by
  refine List.ext_getElem? fun m => ?_
  rw [List.getElem?_map, List.getElem?_map, Listing.modifyFunction, List.getElem?_modify]
  cases l.functions[m]? with
  | none => rfl
  | some f => split <;> simp [same]

theorem quiet_labelSymbol (b : Builder) (name : String) :
    Quiet b (b.labelSymbol name).1 ∧ (b.labelSymbol name).1.scope.vars = b.scope.vars := by
  unfold labelSymbol
  split
  · exact ⟨.refl b, rfl⟩
  · exact ⟨⟨rfl, rfl, rfl, by simp [Listing.addSymbol]⟩, rfl⟩

theorem quiet_intSymbol (b : Builder) (v : Int) :
    Quiet b (b.intSymbol v).1 ∧ (b.intSymbol v).1.scope.vars = b.scope.vars := by
  unfold intSymbol
  split
  · exact ⟨.refl b, rfl⟩
  · exact ⟨⟨rfl, rfl, rfl, by simp [Listing.addSymbol]⟩, rfl⟩

theorem quiet_floatSymbol (b : Builder) (x : Double) :
    Quiet b (b.floatSymbol x).1 ∧ (b.floatSymbol x).1.scope.vars = b.scope.vars := by
  unfold floatSymbol
  split
  · exact ⟨.refl b, rfl⟩
  · exact ⟨⟨rfl, rfl, rfl, by simp [Listing.addSymbol]⟩, rfl⟩

theorem quiet_declareLocal (b : Builder) (name : String) (type : DataType) :
    Quiet b (b.declareLocal name type).1 ∧
      (b.declareLocal name type).1.scope.vars =
        b.scope.vars ++ [(name, (b.declareLocal name type).2)] := by
  refine ⟨⟨rfl, rfl, bodies_modifyFunction _ _ fun _ => rfl, ?_⟩, rfl⟩
  simp [declareLocal, Listing.addLocal, Listing.addSymbol, Listing.modifyFunction]

theorem quiet_addParam {t : Token} (new : ¬(b.scope.vars.lookup t.value).isSome = true)
    (type : DataType) :
    Quiet b (b.addParam t type) ∧
      (b.addParam t type).scope.vars = b.scope.vars ++ [(t.value, b.listing.symbols.size)] := by
  unfold addParam
  rw [if_neg new]
  refine ⟨⟨rfl, rfl, bodies_modifyFunction _ _ fun _ => rfl, ?_⟩, rfl⟩
  simp [Listing.addParam, Listing.addSymbol, Listing.modifyFunction]

theorem quiet_push (b : Builder) (a : Action) (line : Int) : Quiet b (b.push a line) :=
  ⟨rfl, rfl, bodies_modifyFunction _ _ fun _ => rfl, Nat.le_refl _⟩

theorem quiet_setResult (b : Builder) (type : DataType) : Quiet b (b.setResult type) :=
  ⟨rfl, rfl, rfl, by simp [setResult]⟩

/-- A builder knows just the given names, and has bodies for the functions among them. -/
structure Tracks (b : Builder) (N : Names) : Prop where
  vars : ∀ name, (b.scope.vars.lookup name).isSome = true ↔ name ∈ N.vars
  functions : ∀ name, name ∈ N.functions ↔ ∃ s ∈ b.bodies, b.functions.lookup name = some s
  distinct : ∀ name name' s, b.functions.lookup name = some s →
    b.functions.lookup name' = some s → name = name'
  known : ∀ name s, b.functions.lookup name = some s → s < b.listing.symbols.size
  owned : ∀ s ∈ b.bodies, s < b.listing.symbols.size

theorem Tracks.of_quiet (h : b.Tracks N) (quiet : Quiet b b') {V : List String}
    (vars : ∀ name, (b'.scope.vars.lookup name).isSome = true ↔ name ∈ V) :
    b'.Tracks { N with vars := V } where
  vars := vars
  functions name := by rw [h.functions, quiet.bodies, quiet.functions]
  distinct := by rw [quiet.functions]; exact h.distinct
  known name s found := by
    rw [quiet.functions] at found
    exact Nat.lt_of_lt_of_le (h.known name s found) quiet.size
  owned s mem := by
    rw [quiet.bodies] at mem
    exact Nat.lt_of_lt_of_le (h.owned s mem) quiet.size

theorem Tracks.of_same (h : b.Tracks N) (quiet : Quiet b b' ∧ b'.scope.vars = b.scope.vars) :
    b'.Tracks N :=
  h.of_quiet quiet.1 (by rw [quiet.2]; exact h.vars)

theorem Tracks.functionSymbol (h : b.Tracks N) (name : String) :
    (b.functionSymbol name).1.Tracks N ∧
      (b.functionSymbol name).1.functions.lookup name = some (b.functionSymbol name).2 := by
  unfold Builder.functionSymbol
  split
  · next s found => exact ⟨h, found⟩
  · next new =>
    have found (key : String) (s : SymbolId) :
        (b.functions ++ [(name, b.listing.symbols.size)]).lookup key = some s ↔ _ :=
      lookup_concat new
    -- The new symbol lies above all that have a body, so it has none.
    have size : b.listing.symbols.size < (b.listing.symbols.push
      { name, kind := .function, type := some (.scalar .void) }).size := by simp
    refine ⟨⟨h.vars, fun key => ?_, fun key key' s hs hs' => ?_, fun key s hs => ?_,
      fun s mem => Nat.lt_trans (h.owned s mem) size⟩, (found ..).2 (.inr ⟨rfl, rfl⟩)⟩
    · rw [h.functions]
      constructor
      · rintro ⟨s, mem, hs⟩
        exact ⟨s, mem, (found ..).2 (.inl hs)⟩
      · rintro ⟨s, mem, hs⟩
        rcases (found ..).1 hs with hs | ⟨-, rfl⟩
        · exact ⟨s, mem, hs⟩
        · exact absurd (h.owned _ mem) (Nat.lt_irrefl _)
    · rcases (found ..).1 hs with old | ⟨rfl, rfl⟩ <;>
        rcases (found ..).1 hs' with old' | ⟨rfl, same⟩
      · exact h.distinct _ _ _ old old'
      · exact absurd (h.known _ _ old) (same ▸ Nat.lt_irrefl _)
      · exact absurd (h.known _ _ old') (Nat.lt_irrefl _)
      · rfl
    · rcases (found ..).1 hs with hs | ⟨-, rfl⟩
      · exact Nat.lt_trans (h.known key s hs) size
      · exact size

theorem Tracks.introduce (h : b.Tracks N) {s : SymbolId}
    (quiet : Quiet b b' ∧ b'.scope.vars = b.scope.vars ++ [(name, s)]) :
    b'.Tracks { N with vars := N.vars ++ [name] } :=
  h.of_quiet quiet.1 fun key => by
    rw [quiet.2, List.mem_append, List.mem_singleton, ← h.vars]
    exact isSome_lookup_concat

theorem Tracks.varSymbol (h : b.Tracks N) (name : String) :
    (b.varSymbol name).1.Tracks { N with vars := N.vars ++ [name] } := by
  unfold Builder.varSymbol
  split
  · next s found =>
    refine h.of_quiet (.refl b) fun key => ?_
    have known : name ∈ N.vars := (h.vars name).1 (Option.isSome_iff_exists.2 ⟨s, found⟩)
    rw [h.vars, List.mem_append, List.mem_singleton]
    exact ⟨.inl, fun h => h.elim id (· ▸ known)⟩
  · exact h.introduce (quiet_declareLocal b name _)

theorem Tracks.operand (h : b.Tracks N) (op : Opcode) (k : Nat) (o : Operand) :
    (b.operand op k o).1.Tracks
      { N with vars := N.vars ++ if op.namesVariable k then o.name?.toList else [] } := by
  unfold Builder.operand
  cases o with
  | int v => simpa [Operand.name?] using h.of_same (quiet_intSymbol b v)
  | float x => simpa [Operand.name?] using h.of_same (quiet_floatSymbol b x)
  | name name =>
    dsimp only
    split
    · next target =>
      simpa [Opcode.namesVariable, target] using h.of_same (quiet_labelSymbol b name)
    · next target =>
      split
      · next callee =>
        simpa [Opcode.namesVariable, callee] using (h.functionSymbol name).1
      · next callee =>
        have plain : op.namesVariable k = true := by
          simpa [Opcode.namesVariable, target, not_and_or, -not_and] using callee
        rw [if_pos plain]
        exact h.varSymbol name

theorem Tracks.operands (h : b.Tracks N) (op : Opcode) (k : Nat) (os : List Operand) :
    (b.operands op k os).1.Tracks
      { N with vars := N.vars ++ op.variables k (os.map Operand.name?) } := by
  induction os generalizing b N k with
  | nil => simpa [Builder.operands, Opcode.variables] using h
  | cons o os ih =>
    have later := ih (h.operand op k o) (k + 1)
    rw [List.append_assoc] at later
    exact later

/-! ## Items -/

theorem errors_functionSymbol (b : Builder) (name : String) :
    (b.functionSymbol name).1.errors = b.errors := by
  unfold functionSymbol
  split <;> rfl

theorem errors_operand (b : Builder) (op : Opcode) (k : Nat) (o : Operand) :
    (b.operand op k o).1.errors = b.errors := by
  unfold operand
  cases o with
  | int v => exact (quiet_intSymbol b v).1.errors
  | float x => exact (quiet_floatSymbol b x).1.errors
  | name name =>
    dsimp only
    split
    · exact (quiet_labelSymbol b name).1.errors
    · split
      · exact errors_functionSymbol b name
      · unfold varSymbol
        split <;> rfl

theorem errors_operands (b : Builder) (op : Opcode) (k : Nat) (os : List Operand) :
    (b.operands op k os).1.errors = b.errors := by
  induction os generalizing b k with
  | nil => rfl
  | cons o os ih => exact (ih ..).trans (errors_operand ..)

theorem errors_addVariable (b : Builder) (type : DataType) (t : Token) :
    b.errors <+: (b.addVariable type t).errors := by
  unfold addVariable
  split
  · exact List.prefix_append ..
  · exact List.prefix_refl _

theorem errors_declare (b : Builder) (type : DataType) (names : List Token) :
    b.errors <+: (names.foldl (fun b t => b.addVariable type t) b).errors := by
  induction names generalizing b with
  | nil => exact List.prefix_refl _
  | cons t names ih => exact (errors_addVariable b type t).trans (ih _)

/-- Errors stay. -/
theorem errors_add (b : Builder) (item : Item) : b.errors <+: (b.add item).errors := by
  have same {b' : Builder} (h : b'.errors = b.errors) : b.errors <+: b'.errors :=
    ⟨[], by rw [h, List.append_nil]⟩
  cases item with
  | error e => exact List.prefix_append ..
  | function t =>
    unfold add startFunction
    rw [← errors_functionSymbol b t.value]
    dsimp only
    split
    · exact List.prefix_append ..
    · exact List.prefix_refl _
  | param t type =>
    unfold add addParam
    dsimp only
    split
    · exact List.prefix_append ..
    · exact List.prefix_refl _
  | returns type => exact List.prefix_refl _
  | declare names type => exact errors_declare b type names
  | label t => exact same (quiet_labelSymbol b t.value).1.errors
  | instr op os line _ => exact same (errors_operands b op 0 os)
  | abandoned op os => exact same (errors_operands b op 0 os)

theorem errors_addAll (b : Builder) (items : List Item) :
    b.errors <+: (items.foldl add b).errors := by
  induction items generalizing b with
  | nil => exact List.prefix_refl _
  | cons item items ih => exact (errors_add b item).trans (ih _)

/-- What a builder is to become by an effect: it reports nothing and tracks the names after it if
the effect is allowed, and reports an error if it is not. -/
structure Takes (b : Builder) (N : Names) (e : Effect) (b' : Builder) : Prop where
  allowed : e.Allowed N → b'.errors = b.errors ∧ b'.Tracks (e.run N)
  refused : ¬e.Allowed N → b'.errors ≠ []

theorem Takes.of_allowed {e : Effect} (allowed : e.Allowed N) (errors : b'.errors = b.errors)
    (tracks : b'.Tracks (e.run N)) : Takes b N e b' :=
  ⟨fun _ => ⟨errors, tracks⟩, fun refused => absurd allowed refused⟩

theorem Takes.of_refused {e : Effect} (refused : ¬e.Allowed N) (errors : b'.errors ≠ []) :
    Takes b N e b' :=
  ⟨fun allowed => absurd allowed refused, fun _ => errors⟩

theorem report_errors_ne (b : Builder) (e : ParseError) : (b.report e).errors ≠ [] :=
  List.append_ne_nil_of_right_ne_nil _ (List.cons_ne_nil _ _)

theorem Tracks.startBody (h : b.Tracks N) {s : SymbolId}
    (found : b.functions.lookup name = some s) :
    Tracks { b with
      listing := { b.listing with functions := b.listing.functions ++ [{ symbol := s }] }
      scope := {} } ⟨N.functions ++ [name], []⟩ := by
  have mem_bodies (s' : SymbolId) :
      s' ∈ (b.listing.functions ++ [({ symbol := s } : Function)]).map Function.symbol ↔
        s' ∈ b.bodies ∨ s' = s := by
    simp [bodies]
  refine ⟨by simp, fun name' => ?_, h.distinct, h.known, fun s' mem => ?_⟩
  · rw [List.mem_append, List.mem_singleton, h.functions]
    constructor
    · rintro (⟨s', mem, found'⟩ | rfl)
      · exact ⟨s', (mem_bodies s').2 (.inl mem), found'⟩
      · exact ⟨s, (mem_bodies s).2 (.inr rfl), found⟩
    · rintro ⟨s', mem, found'⟩
      rcases (mem_bodies s').1 mem with mem | rfl
      · exact .inl ⟨s', mem, found'⟩
      · exact .inr (h.distinct _ _ _ found' found)
  · rcases (mem_bodies s').1 mem with mem | rfl
    · exact h.owned s' mem
    · exact h.known _ _ found

theorem Tracks.startFunction (h : b.Tracks N) (t : Token) :
    Takes b N (.start t.value) (b.startFunction t) := by
  obtain ⟨h', found⟩ := h.functionSymbol t.value
  have errors := errors_functionSymbol b t.value
  unfold Builder.startFunction
  generalize b.functionSymbol t.value = r at h' found errors
  obtain ⟨b', s⟩ := r
  dsimp only at h' found errors ⊢
  have started : (b'.listing.bodyOf? s).isSome = true ↔ t.value ∈ N.functions := by
    rw [Listing.isSome_bodyOf?_iff, h'.functions]
    exact ⟨fun mem => ⟨s, mem, found⟩, fun ⟨s', mem, found'⟩ => by
      cases found.symm.trans found'
      exact mem⟩
  split
  · next twice =>
    exact .of_refused (not_not_intro (started.1 twice)) (report_errors_ne _ _)
  · next new =>
    exact .of_allowed (mt started.2 new) errors (h'.startBody found)

theorem Tracks.addParam (h : b.Tracks N) (t : Token) (type : DataType) :
    Takes b N (.param t.value) (b.addParam t type) := by
  by_cases taken : (b.scope.vars.lookup t.value).isSome = true
  · refine .of_refused (not_not_intro ((h.vars _).1 taken)) ?_
    rw [Builder.addParam, if_pos taken]
    exact report_errors_ne _ _
  · have quiet := quiet_addParam taken type
    exact .of_allowed (mt (h.vars _).2 taken) quiet.1.errors (h.introduce quiet)

theorem allowed_declare_cons {n : String} {ns : List String} :
    (Effect.declare (n :: ns)).Allowed N ↔
      n ∉ N.vars ∧ (Effect.declare ns).Allowed { N with vars := N.vars ++ [n] } := by
  simp only [Effect.Allowed, List.nodup_cons, List.forall_mem_cons, List.mem_append,
    List.mem_singleton]
  grind

theorem Tracks.declare (h : b.Tracks N) (type : DataType) (names : List Token) :
    Takes b N (.declare (names.map Token.value))
      (names.foldl (fun b t => b.addVariable type t) b) := by
  induction names generalizing b N with
  | nil =>
    refine .of_allowed ⟨List.nodup_nil, List.forall_mem_nil _⟩ rfl ?_
    simpa [Effect.run] using h
  | cons t names ih =>
    by_cases taken : (b.scope.vars.lookup t.value).isSome = true
    · rw [List.foldl_cons, Builder.addVariable, if_pos taken]
      refine .of_refused (fun allowed => ?_)
        ((errors_declare _ type names).ne_nil (report_errors_ne _ _))
      exact (allowed_declare_cons.1 allowed).1 ((h.vars _).1 taken)
    · have quiet := quiet_declareLocal b t.value type
      obtain ⟨allowed, refused⟩ := ih (h.introduce quiet)
      rw [List.foldl_cons, Builder.addVariable, if_neg taken]
      refine ⟨fun all => ?_, fun bad => refused fun others => ?_⟩
      · obtain ⟨errors, tracks⟩ := allowed (allowed_declare_cons.1 all).2
        refine ⟨errors.trans quiet.1.errors, ?_⟩
        simpa [Effect.run] using tracks
      · exact bad (allowed_declare_cons.2 ⟨mt (h.vars _).2 taken, others⟩)

theorem Tracks.mention (h : b.Tracks N) (quiet : Quiet b b' ∧ b'.scope.vars = b.scope.vars) :
    Takes b N (.mention []) b' := by
  refine .of_allowed trivial quiet.1.errors ?_
  simpa [Effect.run] using h.of_same quiet

/-- Every item has its effect. -/
theorem Tracks.add (h : b.Tracks N) (item : Item) : Takes b N item.effect (b.add item) := by
  cases item with
  | error e => exact ⟨nofun, fun _ => report_errors_ne _ _⟩
  | function t => exact h.startFunction t
  | param t type => exact h.addParam t type
  | returns type => exact h.mention ⟨quiet_setResult b type, rfl⟩
  | declare names type => exact h.declare type names
  | label t =>
    obtain ⟨quiet, vars⟩ := quiet_labelSymbol b t.value
    exact h.mention ⟨quiet.trans (quiet_push _ _ _), vars⟩
  | instr op os line _ =>
    exact .of_allowed trivial (errors_operands b op 0 os)
      ((h.operands op 0 os).of_same ⟨quiet_push _ _ _, rfl⟩)
  | abandoned op os => exact .of_allowed trivial (errors_operands b op 0 os) (h.operands op 0 os)

/-- Items are added without errors if their effects are allowed, and only then. -/
theorem Tracks.addAll (h : b.Tracks N) (clean : b.errors = []) (items : List Item) :
    (items.foldl Builder.add b).errors = [] ↔ Effect.AllAllowed N (items.map Item.effect) := by
  induction items generalizing b N with
  | nil => simpa [Effect.AllAllowed] using clean
  | cons item items ih =>
    by_cases allowed : item.effect.Allowed N
    · obtain ⟨errors, tracks⟩ := (h.add item).allowed allowed
      rw [List.foldl_cons, ih tracks (errors.trans clean), List.map_cons, Effect.AllAllowed]
      exact (and_iff_right allowed).symm
    · have refused := (h.add item).refused allowed
      have some := (errors_addAll (b.add item) items).ne_nil refused
      exact iff_of_false some fun all => allowed all.1

theorem Tracks.declareFunctions (h : b.Tracks N) (tokens : List Token) :
    (b.declareFunctions tokens).Tracks N ∧ (b.declareFunctions tokens).errors = b.errors := by
  fun_induction Builder.declareFunctions b tokens with
  | case1 => exact ⟨h, rfl⟩
  | case2 => exact ⟨h, rfl⟩
  | case3 b t u ts _ ih =>
    obtain ⟨tracks, errors⟩ := ih (h.functionSymbol u.value).1
    exact ⟨tracks, errors.trans (errors_functionSymbol ..)⟩
  | case4 b t u ts _ ih => exact ih h

theorem tracks_start (w : Int) : Tracks { wordSize := w } ⟨[], []⟩ where
  vars := by simp
  functions := by simp [bodies]
  distinct := by simp
  known := by simp
  owned := by simp [bodies]

end Builder

end RegColor
