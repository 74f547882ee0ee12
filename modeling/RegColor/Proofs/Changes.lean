import Mathlib.Logic.Relation
import RegColor.Proofs.Resolution

/-!
# What items change

Whatever an item says, it changes a builder in five ways only (`Builder.Change`): a symbol is
entered for a reference that had none, code is pushed whose symbols are in the table, a function is
started, an error is reported, or a function gets a result type. `Builder.changes_add` says so of
every item, faulty or not, so what these five keep holds after any items.

* `Builder.changes_after_of_terms`: the names and types that symbols get are those of the items;
* `Builder.Kept`: no change takes back a symbol, its place or the name of a function;
* `Builder.Changes.nodup_bodies`: without errors, no symbol has two bodies.
-/

namespace RegColor

/-- The symbols of an action are what a table finds for references that fit their places. -/
def Action.FoundIn (T : Table) : Action → Prop
  | .label s => ∃ name, T (.label name) = some s
  | .apply op ss => ∀ k s, ss[k]? = some s → ∃ o, T (op.ref k o) = some s

theorem Opcode.getElem?_refs (op : Opcode) (k j : Nat) (os : List Operand) :
    (op.refs k os)[j]? = os[j]?.map (op.ref (k + j)) := by
  induction os generalizing k j with
  | nil => rfl
  | cons o os ih =>
    cases j with
    | zero => rfl
    | succ j =>
      rw [Opcode.refs, List.getElem?_cons_succ, ih, List.getElem?_cons_succ, Nat.add_right_comm,
        Nat.add_assoc]

/-- The types that an item gives to symbols. A variable that is named without a declaration is an
integer. -/
def Item.types : Item → List DataType
  | .param _ type => [type]
  | .returns type => [type]
  | .declare _ type => [type]
  | .instr .. => [.scalar .int]
  | .abandoned .. => [.scalar .int]
  | _ => []

/-- The names that an item gives to symbols or refers to symbols by. -/
def Item.names : Item → List String
  | .function t => [t.value]
  | .param t _ => [t.value]
  | .declare names _ => names.map Token.value
  | .label t => [t.value]
  | .instr _ os _ _ => os.filterMap Operand.name?
  | .abandoned _ os => os.filterMap Operand.name?
  | _ => []

/-- Which types and names symbols may get. -/
structure Terms where
  type : DataType → Prop
  name : String → Prop

/-- All types and names. -/
def Terms.any : Terms := ⟨fun _ => True, fun _ => True⟩

/-- The types and names of an item are among some terms. -/
structure Item.Within (terms : Terms) (item : Item) : Prop where
  types : ∀ t ∈ item.types, terms.type t
  names : ∀ n ∈ item.names, terms.name n

theorem Item.within_any (item : Item) : item.Within .any := ⟨fun _ _ => trivial, fun _ _ => trivial⟩

namespace Builder

variable {b b' b'' : Builder} {r r' : Ref} {s s' : SymbolId} {y : Symbol} {g : Function → Function}
  {terms : Terms} {type : DataType} {name : String}

/-! ## Entries -/

/-- A builder whose table has one more symbol. -/
def note (b : Builder) (s : SymbolId) : Ref → Builder
  | .var name => { b with scope := { b.scope with vars := b.scope.vars ++ [(name, s)] } }
  | .label name => { b with scope := { b.scope with labels := b.scope.labels ++ [(name, s)] } }
  | .function name => { b with functions := b.functions ++ [(name, s)] }
  | .int v => { b with scope := { b.scope with ints := b.scope.ints ++ [(v, s)] } }
  | .float text => { b with scope := { b.scope with floats := b.scope.floats ++ [(text, s)] } }

theorem table_note (new : b.table r = none) :
    (b.note s r).table r' = some s' ↔ b.table r' = some s' ∨ r' = r ∧ s' = s := by
  cases r <;> cases r' <;> simp [table, note, lookup_concat new]

section Note

variable (b : Builder) (s : SymbolId) (r : Ref)

@[simp] theorem listing_note : (b.note s r).listing = b.listing := by cases r <;> rfl

@[simp] theorem wordSize_note : (b.note s r).wordSize = b.wordSize := by cases r <;> rfl

@[simp] theorem errors_note : (b.note s r).errors = b.errors := by cases r <;> rfl

end Note

/-- Enters a symbol for a reference and changes the function being built. -/
def enter (b : Builder) (r : Ref) (y : Symbol) (g : Function → Function) : Builder :=
  { b with
    listing :=
      { symbols := b.listing.symbols.push y
        functions := b.listing.functions.modify b.current g } }.note b.listing.symbols.size r

section Enter

variable (b : Builder) (r : Ref) (y : Symbol) (g : Function → Function)

@[simp] theorem symbols_enter : (b.enter r y g).listing.symbols = b.listing.symbols.push y := by
  simp [enter]

@[simp] theorem functions_enter :
    (b.enter r y g).listing.functions = b.listing.functions.modify b.current g := by
  simp [enter]

@[simp] theorem wordSize_enter : (b.enter r y g).wordSize = b.wordSize := by simp [enter]

@[simp] theorem errors_enter : (b.enter r y g).errors = b.errors := by simp [enter]

end Enter

theorem table_enter (new : b.table r = none) :
    (b.enter r y g).table r' = some s ↔ b.table r' = some s ∨ r' = r ∧ s = b.listing.symbols.size :=
  table_note (b := { b with listing := _ }) new

/-- What is entered: the reference, the symbol, and what becomes of the function being built. The
names, and the types of variables, are among some terms. -/
inductive Entry (terms : Terms) (b : Builder) : Ref → Symbol → (Function → Function) → Prop
  | function {name : String} : terms.name name →
    Entry terms b (.function name) { name, kind := .function, type := some (.scalar .void) } id
  | label {name : String} : terms.name name →
    Entry terms b (.label name) { name, kind := .label, type := none, owner := some b.owner } id
  | int (v : Int) :
    Entry terms b (.int v) { name := toString v, kind := .int v, type := some (.scalar .int) } id
  | float (x : Double) :
    Entry terms b (.float x.text)
      { name := x.text, kind := .float x, type := some (.scalar .float) } id
  | localVar {name : String} {type : DataType} : terms.name name → terms.type type →
    Entry terms b (.var name) { name, kind := .var, type := some type, owner := some b.owner }
      fun f => { f with locals := f.locals ++ [b.listing.symbols.size] }
  | param {name : String} {type : DataType} : terms.name name → terms.type type →
    Entry terms b (.var name)
      { name, kind := .var, type := some type, owner := some b.owner,
        slot := some ⟨Word.wrap
          ((b.listing.functions.getD b.current default).params.length * b.wordSize), b.wordSize⟩ }
      fun f => { f with params := f.params ++ [b.listing.symbols.size] }

theorem Entry.means (h : Entry terms b r y g) : r.Means y := by
  cases h with
  | float x => exact ⟨rfl, x, rfl, rfl⟩
  | _ => exact ⟨rfl, rfl⟩

theorem Entry.symbol_eq (h : Entry terms b r y g) (f : Function) : (g f).symbol = f.symbol := by
  cases h <;> rfl

/-! ## Changes -/

/-- Starts a function, with an empty scope. -/
def start (b : Builder) (s : SymbolId) : Builder :=
  { b with
    listing := { b.listing with functions := b.listing.functions ++ [{ symbol := s }] }
    scope := {} }

/-- A change of a builder that gives types and names among some terms. A second body for a symbol
comes after an error. -/
inductive Change (terms : Terms) : Builder → Builder → Prop
  | enter {b : Builder} {r : Ref} {y : Symbol} {g : Function → Function} :
    Entry terms b r y g → b.table r = none → Change terms b (b.enter r y g)
  | push {b : Builder} {a : Action} (line : Int) : a.FoundIn b.table →
    Change terms b (b.push a line)
  | start {b : Builder} {name : String} {s : SymbolId} : b.functions.lookup name = some s →
    (s ∈ b.bodies → b.errors ≠ []) → Change terms b (b.start s)
  | report {b : Builder} (e : ParseError) : Change terms b (b.report e)
  | retype {b : Builder} {type : DataType} : terms.type type →
    Change terms b (b.setResult type)

/-- Changes one after the other. -/
abbrev Changes (terms : Terms) : Builder → Builder → Prop :=
  Relation.ReflTransGen (Change terms)

theorem change_plain (entry : Entry terms b r y id) (new : b.table r = none) :
    Change terms b
      ({ b with listing := (b.listing.addSymbol y).1 }.note b.listing.symbols.size r) := by
  have step := Change.enter entry new
  unfold Builder.enter at step
  rwa [List.modify_id] at step

theorem changes_functionSymbol (b : Builder) (named : terms.name name) :
    Changes terms b (b.functionSymbol name).1 := by
  unfold functionSymbol
  split
  · exact .refl
  · next new => exact .single (change_plain (.function named) new)

theorem changes_labelSymbol (b : Builder) (named : terms.name name) :
    Changes terms b (b.labelSymbol name).1 := by
  unfold labelSymbol
  split
  · exact .refl
  · next new => exact .single (change_plain (.label named) new)

theorem changes_intSymbol (b : Builder) (v : Int) : Changes terms b (b.intSymbol v).1 := by
  unfold intSymbol
  split
  · exact .refl
  · next new => exact .single (change_plain (.int v) new)

theorem changes_floatSymbol (b : Builder) (x : Double) :
    Changes terms b (b.floatSymbol x).1 := by
  unfold floatSymbol
  split
  · exact .refl
  · next new => exact .single (change_plain (.float x) new)

theorem change_declareLocal (new : b.scope.vars.lookup name = none) (named : terms.name name)
    (given : terms.type type) : Change terms b (b.declareLocal name type).1 :=
  .enter (.localVar named given) new

theorem changes_varSymbol (int : terms.type (.scalar .int)) (b : Builder)
    (named : terms.name name) : Changes terms b (b.varSymbol name).1 := by
  unfold varSymbol
  split
  · exact .refl
  · next new => exact .single (change_declareLocal new named int)

theorem changes_operand (int : terms.type (.scalar .int)) (b : Builder) (op : Opcode) (k : Nat)
    {o : Operand} (named : ∀ n ∈ o.name?, terms.name n) : Changes terms b (b.operand op k o).1 := by
  unfold operand
  cases o with
  | int v => exact changes_intSymbol b v
  | float x => exact changes_floatSymbol b x
  | name name =>
    have named : terms.name name := named name rfl
    dsimp only
    split
    · exact changes_labelSymbol b named
    · split
      · exact changes_functionSymbol b named
      · exact changes_varSymbol int b named

theorem changes_operands (int : terms.type (.scalar .int)) (b : Builder) (op : Opcode) (k : Nat)
    {os : List Operand} (named : ∀ n ∈ os.filterMap Operand.name?, terms.name n) :
    Changes terms b (b.operands op k os).1 := by
  simp only [List.mem_filterMap] at named
  induction os generalizing b k with
  | nil => exact .refl
  | cons o os ih =>
    refine (changes_operand int b op k fun n hn => ?_).trans (ih _ _ fun n => ?_)
    · exact named n ⟨o, List.mem_cons_self .., hn⟩
    · intro later
      obtain ⟨o', mem, hn⟩ := later
      exact named n ⟨o', List.mem_cons_of_mem _ mem, hn⟩

theorem foundIn_operands (b : Builder) (op : Opcode) (os : List Operand) :
    (Action.apply op (b.operands op 0 os).2).FoundIn (b.operands op 0 os).1.table := by
  intro k s found
  have rel := forall₂_getElem? (finds_operands b op 0 os).2 k
  rw [found, Opcode.getElem?_refs, Nat.zero_add] at rel
  cases here : os[k]? with
  | none =>
    rw [here] at rel
    cases rel
  | some o =>
    rw [here] at rel
    cases rel with
    | some known => exact ⟨o, known⟩

theorem changes_startFunction (b : Builder) {t : Token} (named : terms.name t.value) :
    Changes terms b (b.startFunction t) := by
  have named : Changes terms b _ := changes_functionSymbol b named
  obtain ⟨-, found⟩ := finds_functionSymbol b t.value
  unfold startFunction
  generalize b.functionSymbol t.value = known at named found
  obtain ⟨b', s⟩ := known
  dsimp only at named found ⊢
  split
  · have twice : Change terms b' (b'.report (.atToken t (.functionTwice t.value))) := .report _
    exact (named.tail twice).tail (.start found fun _ => report_errors_ne _ _)
  · next new =>
    exact named.tail (.start found fun mem => absurd (Listing.isSome_bodyOf?_iff.2 mem) new)

theorem changes_addParam (b : Builder) {t : Token} (named : terms.name t.value)
    (given : terms.type type) :
    Changes terms b (b.addParam t type) := by
  unfold addParam
  split
  · exact .single (.report _)
  · next new =>
    have absent : b.table (.var t.value) = none := Option.not_isSome_iff_eq_none.1 new
    exact .single (.enter (.param named given) absent)

theorem changes_addVariable (b : Builder) (given : terms.type type) {t : Token}
    (named : terms.name t.value) :
    Changes terms b (b.addVariable type t) := by
  unfold addVariable
  split
  · exact .single (.report _)
  · next new =>
    exact .single (change_declareLocal (Option.not_isSome_iff_eq_none.1 new) named given)

theorem changes_declare (b : Builder) (given : terms.type type) {names : List Token}
    (named : ∀ n ∈ names.map Token.value, terms.name n) :
    Changes terms b (names.foldl (fun b t => b.addVariable type t) b) := by
  induction names generalizing b with
  | nil => exact .refl
  | cons t names ih =>
    obtain ⟨first, others⟩ := List.forall_mem_cons.1 named
    exact (changes_addVariable b given first).trans (ih _ others)

/-- Every item makes changes, with the types and names it gives. -/
theorem changes_add (b : Builder) {item : Item} (within : item.Within terms) :
    Changes terms b (b.add item) := by
  have head {α : Type} {p : α → Prop} {x : α} {xs : List α} (h : ∀ y ∈ x :: xs, p y) : p x :=
    h x (List.mem_cons_self ..)
  obtain ⟨types, names⟩ := within
  cases item with
  | error e => exact .single (.report e)
  | function t => exact changes_startFunction b (head names)
  | param t type => exact changes_addParam b (head names) (head types)
  | returns type => exact .single (.retype (head types))
  | declare ts type => exact changes_declare b (head types) names
  | label t =>
    have found : (Action.label (b.labelSymbol t.value).2).FoundIn (b.labelSymbol t.value).1.table :=
      ⟨t.value, (finds_labelSymbol b t.value).2⟩
    exact (changes_labelSymbol b (head names)).tail (.push t.line found)
  | instr op os line _ =>
    exact (changes_operands (head types) b op 0 names).tail (.push line (foundIn_operands b op os))
  | abandoned op os => exact changes_operands (head types) b op 0 names

theorem changes_addAll_of_terms (b : Builder) {items : List Item}
    (within : ∀ item ∈ items, item.Within terms) :
    Changes terms b (items.foldl Builder.add b) := by
  induction items generalizing b with
  | nil => exact .refl
  | cons item items ih =>
    obtain ⟨first, others⟩ := List.forall_mem_cons.1 within
    exact (changes_add b first).trans (ih _ others)

theorem changes_addAll (b : Builder) (items : List Item) :
    Changes .any b (items.foldl Builder.add b) :=
  changes_addAll_of_terms b fun item _ => item.within_any

theorem changes_declareFunctions (b : Builder) (tokens : List Token)
    (named : ∀ t ∈ tokens, t.kind = .ident → terms.name t.value) :
    Changes terms b (b.declareFunctions tokens) := by
  fun_induction declareFunctions b tokens with
  | case1 => exact .refl
  | case2 => exact .refl
  | case3 b t u ts kinds ih =>
    obtain ⟨-, others⟩ := List.forall_mem_cons.1 named
    exact (changes_functionSymbol b (others u (List.mem_cons_self ..) kinds.2)).trans (ih others)
  | case4 b t u ts _ ih => exact ih (List.forall_mem_cons.1 named).2

/-- The builder of a token sequence after some items. -/
def after (w : Int) (tokens : List Token) (items : List Item) : Builder :=
  items.foldl add (declareFunctions { wordSize := w } tokens)

theorem ofTokens_eq_after (w : Int) (tokens : List Token) : Listing.ofTokens w tokens =
    ((after w tokens (Item.ofTokens tokens)).listing,
      (after w tokens (Item.ofTokens tokens)).errors) := rfl

theorem changes_after_of_terms (w : Int) {tokens : List Token} {items : List Item}
    (named : ∀ t ∈ tokens, t.kind = .ident → terms.name t.value)
    (within : ∀ item ∈ items, item.Within terms) :
    Changes terms { wordSize := w } (after w tokens items) :=
  (changes_declareFunctions _ tokens named).trans (changes_addAll_of_terms _ within)

theorem changes_after (w : Int) (tokens : List Token) (items : List Item) :
    Changes .any { wordSize := w } (after w tokens items) :=
  changes_after_of_terms w (fun _ _ _ => trivial) fun item _ => item.within_any

/-! ## What changes keep -/

/-- Symbols stay, with their names, kinds and places, and so do the names of functions. -/
structure Kept (b b' : Builder) : Prop where
  keeps : b.listing.Keeps b'.listing
  place : ∀ s < b.listing.symbols.size, (b'.listing.symbol s).owner = (b.listing.symbol s).owner ∧
    (b'.listing.symbol s).slot = (b.listing.symbol s).slot
  functions : ∀ name s, b.functions.lookup name = some s → b'.functions.lookup name = some s
  wordSize : b'.wordSize = b.wordSize

theorem Kept.of_symbols_eq (symbols : b'.listing.symbols = b.listing.symbols)
    (functions : b'.functions = b.functions) (wordSize : b'.wordSize = b.wordSize) : Kept b b' where
  keeps := .of_eq symbols
  place s _ := by
    rw [Listing.symbol, symbols, Listing.symbol]
    exact ⟨rfl, rfl⟩
  functions name s found := functions ▸ found
  wordSize := wordSize

theorem Kept.trans (h : Kept b b') (h' : Kept b' b'') : Kept b b'' where
  keeps := h.keeps.trans h'.keeps
  place s lt := by
    obtain ⟨owner, slot⟩ := h.place s lt
    obtain ⟨owner', slot'⟩ := h'.place s (Nat.lt_of_lt_of_le lt h.keeps.size)
    exact ⟨owner'.trans owner, slot'.trans slot⟩
  functions name s found := h'.functions name s (h.functions name s found)
  wordSize := h'.wordSize.trans h.wordSize

theorem kept_enter (new : b.table r = none) : Kept b (b.enter r y g) where
  keeps := .push (symbols_enter ..)
  place s lt := by
    rw [Listing.symbol_push (symbols_enter ..), if_neg (Nat.ne_of_lt lt)]
    exact ⟨rfl, rfl⟩
  functions name s found := by
    have known : (b.enter r y g).table (.function name) = some s := (table_enter new).2 (.inl found)
    exact known
  wordSize := wordSize_enter ..

theorem kept_setResult (b : Builder) (type : DataType) : Kept b (b.setResult type) where
  keeps := by
    obtain ⟨g, moves, -⟩ := extends_setResult b type
    exact moves.keeps
  place s _ := (Listing.symbol_retype s b.owner type).2.symm
  functions _ _ := id
  wordSize := rfl

theorem Change.kept (h : Change terms b b') : Kept b b' := by
  cases h with
  | enter _ new => exact kept_enter new
  | push line _ => exact .of_symbols_eq rfl rfl rfl
  | start _ _ => exact .of_symbols_eq rfl rfl rfl
  | report e => exact .of_symbols_eq rfl rfl rfl
  | retype _ => exact kept_setResult b _

theorem Changes.kept (h : Changes terms b b') : Kept b b' := by
  induction h with
  | refl => exact .of_symbols_eq rfl rfl rfl
  | tail _ step ih => exact ih.trans step.kept

theorem Change.errors (h : Change terms b b') : b.errors <+: b'.errors := by
  cases h with
  | enter => simp
  | report e => exact List.prefix_append ..
  | _ => exact List.prefix_rfl

theorem bodies_modify (fs : List Function) (k : Nat) (same : ∀ f, (g f).symbol = f.symbol) :
    (fs.modify k g).map Function.symbol = fs.map Function.symbol :=
  bodies_modifyFunction ⟨#[], fs⟩ k same

theorem Change.bodies (h : Change terms b b') :
    b'.bodies = b.bodies ∨ ∃ s, b'.bodies = b.bodies ++ [s] ∧ (s ∈ b.bodies → b'.errors ≠ []) := by
  cases h with
  | enter entry _ =>
    left
    unfold Builder.bodies
    rw [functions_enter, bodies_modify _ _ entry.symbol_eq]
  | push line _ => exact .inl (quiet_push ..).bodies
  | @start _ s _ twice => exact .inr ⟨s, by simp [Builder.bodies, Builder.start], twice⟩
  | report e => exact .inl rfl
  | retype _ => exact .inl rfl

/-- Without errors, no symbol has got two bodies. -/
theorem Changes.nodup_bodies (h : Changes terms b b') (start : b.bodies.Nodup)
    (clean : b'.errors = []) : b'.bodies.Nodup := by
  induction h with
  | refl => exact start
  | tail _ step ih =>
    have before := ih (List.prefix_nil.1 (clean ▸ step.errors))
    rcases step.bodies with same | ⟨s, more, twice⟩
    · exact same ▸ before
    · have new : s ∉ _ := fun mem => twice mem clean
      rw [more]
      exact List.nodup_append_comm.1 (List.nodup_cons.2 ⟨new, before⟩)

end Builder

end RegColor
