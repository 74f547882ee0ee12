import RegColor.Proofs.Accepted
import RegColor.Proofs.Built

/-!
# What a source text says and what is built from it

A `Procedure` is what a function definition says without declarations, types and places: a name, the
names of the parameters, and statements. An operand of a statement refers to a variable, a label, a
function or a constant, depending on its place (`Opcode.ref`), and a table gives every reference its
symbol. A function realizes a procedure if some table gives each of its symbols for what stands in
the same place of the procedure (`Function.Realizes`).

* `Builder.Realizes.add`: an item keeps a builder and its procedures together;
* `Listing.realizes_of_source`: the listing of a text without errors realizes what the text says;
* `Ref.Means.unique`: a symbol tells what refers to it, so equal symbols are equal references.
-/

namespace RegColor

/-! ## Procedures -/

/-- A function as a text defines it. -/
structure Procedure where
  name : String
  params : List String
  body : List Statement

/-- The procedures after one more item. What starts no procedure goes to the last one. -/
def Procedure.extend (P : List Procedure) : Effect × Option Statement → List Procedure
  | (.start name, _) => P ++ [⟨name, [], []⟩]
  | (.param name, _) => P.modify (P.length - 1) fun p => { p with params := p.params ++ [name] }
  | (_, some st) => P.modify (P.length - 1) fun p => { p with body := p.body ++ [st] }
  | (_, none) => P

theorem modify_concat {α : Type} (xs : List α) (x : α) (g : α → α) :
    (xs ++ [x]).modify ((xs ++ [x]).length - 1) g = xs ++ [g x] := by
  rw [List.length_append, List.length_singleton, Nat.add_sub_cancel]
  exact List.modifyTailIdx_add (List.modifyHead g) 0 xs [x]

namespace Grammar

/-- What a definition says. -/
def Definition.procedure (d : Definition) : Procedure :=
  ⟨d.name.value, d.params.map (·.name.value), d.body.filterMap Line.statement?⟩

variable {P : List Procedure} {p : Procedure}

theorem extend_params (ps : List Param) :
    (ps.map fun q => (Effect.param q.name.value, none)).foldl Procedure.extend (P ++ [p]) =
      P ++ [{ p with params := p.params ++ ps.map (·.name.value) }] := by
  induction ps generalizing p with
  | nil => simp
  | cons q ps ih =>
    rw [List.map_cons, List.foldl_cons, Procedure.extend, modify_concat, ih]
    simp

theorem extend_line (ln : Line) :
    Procedure.extend (P ++ [p]) ln.meaning =
      P ++ [{ p with body := p.body ++ ln.statement?.toList }] := by
  have added (names : List String) (st : Option Statement) :
      Procedure.extend (P ++ [p]) (.mention names, st) =
        P ++ [{ p with body := p.body ++ st.toList }] := by
    cases st with
    | none => simp [Procedure.extend]
    | some st => exact modify_concat ..
  cases ln with
  | declare names type => simp [Procedure.extend, Line.meaning, Line.effect, Line.statement?]
  | label name => exact added ..
  | instr op operands => exact added ..

theorem extend_body (ls : List Line) :
    (ls.map Line.meaning).foldl Procedure.extend (P ++ [p]) =
      P ++ [{ p with body := p.body ++ ls.filterMap Line.statement? }] := by
  induction ls generalizing p with
  | nil => simp
  | cons ln ls ih =>
    rw [List.map_cons, List.foldl_cons, extend_line, ih, List.filterMap_cons]
    cases ln.statement? <;> simp

theorem extend_definition (d : Definition) :
    d.meanings.foldl Procedure.extend P = P ++ [d.procedure] := by
  have result (Q : List Procedure) :
      (d.result.map fun _ => (Effect.mention [], none)).toList.foldl Procedure.extend Q = Q := by
    cases d.result <;> rfl
  rw [Definition.meanings, List.foldl_cons, List.foldl_append, List.foldl_append, Procedure.extend,
    extend_params, result, extend_body]
  rfl

theorem extend_definitions (ds : List Definition) :
    (ds.flatMap Definition.meanings).foldl Procedure.extend P =
      P ++ ds.map Definition.procedure := by
  induction ds generalizing P with
  | nil => simp
  | cons d ds ih =>
    rw [List.flatMap_cons, List.foldl_append, extend_definition, ih, List.map_cons,
      List.append_assoc]
    rfl

end Grammar

/-! ## References -/

/-- What a name or a constant of a body refers to. Float constants go by their text. -/
inductive Ref where
  | var (name : String)
  | label (name : String)
  | function (name : String)
  | int (value : Int)
  | float (text : String)

namespace Ref

def text : Ref → String
  | var name => name
  | label name => name
  | function name => name
  | int v => toString v
  | float text => text

/-- Whether a reference is to symbols of a kind. -/
def Fits (kind : SymbolKind) : Ref → Prop
  | var _ => kind = .var
  | label _ => kind = .label
  | function _ => kind = .function
  | int v => kind = .int v
  | float text => ∃ x, kind = .float x ∧ x.text = text

/-- A symbol is what a reference is to: its name is the text of the reference, and its kind fits. -/
structure Means (r : Ref) (y : Symbol) : Prop where
  name : y.name = r.text
  kind : r.Fits y.kind

theorem Means.unique {r r' : Ref} {y : Symbol} (h : r.Means y) (h' : r'.Means y) : r = r' := by
  have name := h.name.symm.trans h'.name
  have kind := h.kind
  have kind' := h'.kind
  cases r <;> cases r' <;> simp_all [text, Fits]

/-- A symbol is written as what refers to it. -/
theorem Means.text_eq {r : Ref} {y : Symbol} (h : r.Means y) : y.text = r.text := by
  have name := h.name
  have kind := h.kind
  unfold Symbol.text
  cases r with
  | int v => rw [show y.kind = .int v from kind]; rfl
  | float text =>
    obtain ⟨x, kind, same⟩ := kind
    rw [kind]
    exact same
  | _ => rw [show y.kind = _ from kind]; exact name

end Ref

/-- What an operand at position `k` refers to: a branch target names a label, the second operand of
a call a function, any other name a variable. -/
def Opcode.ref (op : Opcode) (k : Nat) : Operand → Ref
  | .int v => .int v
  | .float x => .float x.text
  | .name name =>
    if op.targetPosition? = some k then .label name
    else if op = .call ∧ k = 1 then .function name
    else .var name

/-- What the operands from position `k` on refer to. -/
def Opcode.refs (op : Opcode) (k : Nat) : List Operand → List Ref
  | [] => []
  | o :: os => op.ref k o :: op.refs (k + 1) os

/-- A table of symbols. -/
abbrev Table := Ref → Option SymbolId

/-- What a table finds is in the listing and means what was looked for. -/
def Listing.Resolves (l : Listing) (T : Table) : Prop :=
  ∀ r s, T r = some s → s < l.symbols.size ∧ r.Means (l.symbol s)

/-- An action carries out a statement. -/
inductive Action.Realizes (T : Table) : Action → Statement → Prop
  | label {s : SymbolId} {name : String} : T (.label name) = some s →
    Realizes T (.label s) (.label name)
  | apply {op : Opcode} {ss : List SymbolId} {os : List Operand} :
    List.Forall₂ (fun s r => T r = some s) ss (op.refs 0 os) →
    Realizes T (.apply op ss) (.apply op os)

/-- A function is built from the symbols that a table gives for the names and operands of a
procedure. -/
structure Function.Realizes (T : Table) (f : Function) (p : Procedure) : Prop where
  symbol : T (.function p.name) = some f.symbol
  params : List.Forall₂ (fun s name => T (.var name) = some s) f.params p.params
  body : List.Forall₂ (fun i st => i.action.Realizes T st) f.code p.body

/-- The functions of a listing are built from procedures, each with its own table. -/
def Listing.Realizes (l : Listing) (P : List Procedure) : Prop :=
  List.Forall₂ (fun f p => ∃ T, l.Resolves T ∧ f.Realizes T p) l.functions P

section Tables

variable {T T' : Table} {f g : Function} {p : Procedure} {l l' : Listing}

theorem Action.Realizes.mono {a : Action} {st : Statement} (h : a.Realizes T st)
    (more : ∀ r s, T r = some s → T' r = some s) : a.Realizes T' st := by
  cases h with
  | label found => exact .label (more _ _ found)
  | apply found => exact .apply (found.imp fun s r => more r s)

/-- A larger table serves as well, and other variables of the function do not matter. -/
theorem Function.Realizes.mono (h : f.Realizes T p) (more : ∀ r s, T r = some s → T' r = some s)
    (symbol : g.symbol = f.symbol) (params : g.params = f.params) (code : g.code = f.code) :
    g.Realizes T' p where
  symbol := symbol ▸ more _ _ h.symbol
  params := params ▸ h.params.imp fun s _ => more _ s
  body := code ▸ h.body.imp fun _ _ found => found.mono more

/-- Symbols stay, with their names and kinds. -/
structure Listing.Keeps (l l' : Listing) : Prop where
  size : l.symbols.size ≤ l'.symbols.size
  symbol : ∀ s < l.symbols.size, (l'.symbol s).name = (l.symbol s).name ∧
    (l'.symbol s).kind = (l.symbol s).kind

theorem Listing.Keeps.of_eq (h : l'.symbols = l.symbols) : l.Keeps l' := by
  have symbol (s : SymbolId) : l'.symbol s = l.symbol s := by rw [Listing.symbol, h, Listing.symbol]
  exact ⟨Nat.le_of_eq (by rw [h]), fun s _ => by rw [symbol]; exact ⟨rfl, rfl⟩⟩

theorem Listing.symbol_push {y : Symbol} (h : l'.symbols = l.symbols.push y) (s : SymbolId) :
    l'.symbol s = if s = l.symbols.size then y else l.symbol s := by
  rw [Listing.symbol, h]
  exact Listing.symbol_addSymbol

theorem Listing.Keeps.push {y : Symbol} (h : l'.symbols = l.symbols.push y) : l.Keeps l' := by
  refine ⟨by simp [h], fun s lt => ?_⟩
  rw [Listing.symbol_push h, if_neg (Nat.ne_of_lt lt)]
  exact ⟨rfl, rfl⟩

theorem Listing.Keeps.trans {l'' : Listing} (h : l.Keeps l') (h' : l'.Keeps l'') : l.Keeps l'' where
  size := Nat.le_trans h.size h'.size
  symbol s lt := by
    obtain ⟨name, kind⟩ := h.symbol s lt
    obtain ⟨name', kind'⟩ := h'.symbol s (Nat.lt_of_lt_of_le lt h.size)
    exact ⟨name'.trans name, kind'.trans kind⟩

theorem Listing.Resolves.keep (h : l.Resolves T) (keeps : l.Keeps l') : l'.Resolves T := by
  intro r s found
  obtain ⟨lt, means⟩ := h r s found
  obtain ⟨name, kind⟩ := keeps.symbol s lt
  exact ⟨Nat.lt_of_lt_of_le lt keeps.size, name.trans means.name, by rw [kind]; exact means.kind⟩

end Tables

/-! ## Builders -/

namespace Builder

variable {b b' b'' : Builder} {g g' : Function → Function} {P : List Procedure}

/-- The symbols that a builder has for the function being built. -/
def table (b : Builder) : Table
  | .var name => b.scope.vars.lookup name
  | .label name => b.scope.labels.lookup name
  | .function name => b.functions.lookup name
  | .int v => b.scope.ints.lookup v
  | .float text => b.scope.floats.lookup text

/-- A builder changes the function being built by `g`, and keeps symbols and what the table finds. -/
structure Moves (g : Function → Function) (b b' : Builder) : Prop where
  functions : b'.listing.functions = b.listing.functions.modify b.current g
  keeps : b.listing.Keeps b'.listing
  more : ∀ r s, b.table r = some s → b'.table r = some s
  resolves : b.listing.Resolves b.table → b'.listing.Resolves b'.table

theorem Moves.current (h : Moves g b b') : b'.current = b.current := by
  rw [Builder.current, h.functions, List.length_modify, Builder.current]

theorem Moves.refl (b : Builder) : Moves id b b :=
  ⟨(List.modify_id ..).symm, .of_eq rfl, fun _ _ => id, id⟩

theorem Moves.trans (h : Moves g b b') (h' : Moves g' b' b'') : Moves (g' ∘ g) b b'' where
  functions := by rw [h'.functions, h.functions, h.current, List.modify_modify_eq]
  keeps := h.keeps.trans h'.keeps
  more r s found := h'.more r s (h.more r s found)
  resolves := h'.resolves ∘ h.resolves

/-- A new symbol, found by the one reference that means it. -/
theorem Moves.fresh {r : Ref} {y : Symbol}
    (functions : b'.listing.functions = b.listing.functions.modify b.current g)
    (symbols : b'.listing.symbols = b.listing.symbols.push y) (means : r.Means y)
    (table : ∀ r' s, b'.table r' = some s ↔
      b.table r' = some s ∨ r' = r ∧ s = b.listing.symbols.size) : Moves g b b' where
  functions := functions
  keeps := .push symbols
  more r' s found := (table r' s).2 (.inl found)
  resolves h r' s found := by
    rcases (table r' s).1 found with old | ⟨rfl, rfl⟩
    · exact h.keep (.push symbols) r' s old
    · rw [Listing.symbol_push symbols, if_pos rfl, symbols]
      exact ⟨by simp, means⟩

/-- Nothing happens to the function being built but that it may get variables. -/
def Extends (b b' : Builder) : Prop :=
  ∃ g, Moves g b b' ∧
    ∀ f, (g f).symbol = f.symbol ∧ (g f).params = f.params ∧ (g f).code = f.code

theorem Extends.refl (b : Builder) : Extends b b := ⟨id, .refl b, fun _ => ⟨rfl, rfl, rfl⟩⟩

theorem Extends.trans (h : Extends b b') (h' : Extends b' b'') : Extends b b'' := by
  obtain ⟨g, moves, same⟩ := h
  obtain ⟨g', moves', same'⟩ := h'
  refine ⟨g' ∘ g, moves.trans moves', fun f => ?_⟩
  obtain ⟨symbol, params, code⟩ := same f
  obtain ⟨symbol', params', code'⟩ := same' (g f)
  exact ⟨symbol'.trans symbol, params'.trans params, code'.trans code⟩

theorem Extends.more (h : Extends b b') {r : Ref} {s : SymbolId} (found : b.table r = some s) :
    b'.table r = some s := by
  obtain ⟨g, moves, -⟩ := h
  exact moves.more r s found

/-- A builder has the symbol of a reference, maybe after adding it. -/
def Finds (b : Builder) (r : Ref) (found : Builder × SymbolId) : Prop :=
  Extends b found.1 ∧ found.1.table r = some found.2

theorem Finds.fresh {r : Ref} {y : Symbol} (g : Function → Function)
    (same : ∀ f, (g f).symbol = f.symbol ∧ (g f).params = f.params ∧ (g f).code = f.code)
    (functions : b'.listing.functions = b.listing.functions.modify b.current g)
    (symbols : b'.listing.symbols = b.listing.symbols.push y) (means : r.Means y)
    (table : ∀ r' s, b'.table r' = some s ↔
      b.table r' = some s ∨ r' = r ∧ s = b.listing.symbols.size) :
    Finds b r (b', b.listing.symbols.size) :=
  ⟨⟨g, .fresh functions symbols means table, same⟩, (table _ _).2 (.inr ⟨rfl, rfl⟩)⟩

/-- A new symbol that is no variable of the function being built. -/
theorem Finds.added {r : Ref} {y : Symbol}
    (functions : b'.listing.functions = b.listing.functions)
    (symbols : b'.listing.symbols = b.listing.symbols.push y) (means : r.Means y)
    (table : ∀ r' s, b'.table r' = some s ↔
      b.table r' = some s ∨ r' = r ∧ s = b.listing.symbols.size) :
    Finds b r (b', b.listing.symbols.size) :=
  .fresh id (fun _ => ⟨rfl, rfl, rfl⟩) (functions.trans (List.modify_id ..).symm) symbols means table

theorem finds_functionSymbol (b : Builder) (name : String) :
    Finds b (.function name) (b.functionSymbol name) := by
  unfold functionSymbol
  split
  · next s found => exact ⟨.refl b, found⟩
  · next new =>
    refine .added rfl rfl ⟨rfl, rfl⟩ fun r s => ?_
    cases r with
    | function key => simpa [table] using lookup_concat new
    | _ => simp [table]

theorem finds_labelSymbol (b : Builder) (name : String) :
    Finds b (.label name) (b.labelSymbol name) := by
  unfold labelSymbol
  split
  · next s found => exact ⟨.refl b, found⟩
  · next new =>
    refine .added rfl rfl ⟨rfl, rfl⟩ fun r s => ?_
    cases r with
    | label key => simpa [table] using lookup_concat new
    | _ => simp [table]

theorem finds_intSymbol (b : Builder) (v : Int) : Finds b (.int v) (b.intSymbol v) := by
  unfold intSymbol
  split
  · next s found => exact ⟨.refl b, found⟩
  · next new =>
    refine .added rfl rfl ⟨rfl, rfl⟩ fun r s => ?_
    cases r with
    | int key => simpa [table] using lookup_concat new
    | _ => simp [table]

theorem finds_floatSymbol (b : Builder) (x : Double) :
    Finds b (.float x.text) (b.floatSymbol x) := by
  unfold floatSymbol
  split
  · next s found => exact ⟨.refl b, found⟩
  · next new =>
    refine .added rfl rfl ⟨rfl, x, rfl, rfl⟩ fun r s => ?_
    cases r with
    | float key => simpa [table] using lookup_concat new
    | _ => simp [table]

theorem finds_declareLocal {name : String} (new : b.scope.vars.lookup name = none)
    (type : DataType) : Finds b (.var name) (b.declareLocal name type) := by
  refine .fresh (fun f => { f with locals := f.locals ++ [b.listing.symbols.size] })
    (fun _ => ⟨rfl, rfl, rfl⟩) rfl rfl ⟨rfl, rfl⟩ fun r s => ?_
  cases r with
  | var key => simpa [table] using lookup_concat new
  | _ => exact (or_iff_left nofun).symm

theorem finds_varSymbol (b : Builder) (name : String) :
    Finds b (.var name) (b.varSymbol name) := by
  unfold varSymbol
  split
  · next s found => exact ⟨.refl b, found⟩
  · next new => exact finds_declareLocal new _

theorem finds_operand (b : Builder) (op : Opcode) (k : Nat) (o : Operand) :
    Finds b (op.ref k o) (b.operand op k o) := by
  unfold operand Opcode.ref
  cases o with
  | int v => exact finds_intSymbol b v
  | float x => exact finds_floatSymbol b x
  | name name =>
    dsimp only
    split
    · exact finds_labelSymbol b name
    · split
      · exact finds_functionSymbol b name
      · exact finds_varSymbol b name

theorem finds_operands (b : Builder) (op : Opcode) (k : Nat) (os : List Operand) :
    Extends b (b.operands op k os).1 ∧
      List.Forall₂ (fun s r => (b.operands op k os).1.table r = some s) (b.operands op k os).2
        (op.refs k os) := by
  induction os generalizing b k with
  | nil => exact ⟨.refl b, .nil⟩
  | cons o os ih =>
    obtain ⟨here, found⟩ := finds_operand b op k o
    obtain ⟨later, others⟩ := ih (b.operand op k o).1 (k + 1)
    exact ⟨here.trans later, .cons (later.more found) others⟩

theorem extends_declareFunctions (b : Builder) (tokens : List Token) :
    Extends b (b.declareFunctions tokens) := by
  fun_induction declareFunctions b tokens with
  | case1 => exact .refl _
  | case2 => exact .refl _
  | case3 b t u ts _ ih => exact (finds_functionSymbol b u.value).1.trans ih
  | case4 b t u ts _ ih => exact ih

theorem extends_setResult (b : Builder) (type : DataType) : Extends b (b.setResult type) := by
  have keeps : b.listing.Keeps (b.setResult type).listing := by
    refine ⟨by simp [setResult], fun s _ => ?_⟩
    simp only [setResult, Listing.symbol, Array.getD_eq_getD_getElem?, Array.getElem?_modify]
    split
    · cases b.listing.symbols[s]? <;> exact ⟨rfl, rfl⟩
    · exact ⟨rfl, rfl⟩
  refine ⟨id, ⟨(List.modify_id ..).symm, keeps, fun _ _ => id, fun h => ?_⟩,
    fun _ => ⟨rfl, rfl, rfl⟩⟩
  exact h.keep keeps

theorem extends_addVariable (type : DataType) (t : Token)
    (clean : (b.addVariable type t).errors = []) : Extends b (b.addVariable type t) := by
  unfold addVariable at clean ⊢
  split at clean
  · exact absurd clean (report_errors_ne _ _)
  · next new =>
    rw [if_neg new]
    exact (finds_declareLocal (Option.not_isSome_iff_eq_none.1 new) type).1

theorem extends_declare (type : DataType) (names : List Token)
    (clean : (names.foldl (fun b t => b.addVariable type t) b).errors = []) :
    Extends b (names.foldl (fun b t => b.addVariable type t) b) := by
  induction names generalizing b with
  | nil => exact .refl b
  | cons t names ih =>
    have here : (b.addVariable type t).errors = [] :=
      List.prefix_nil.1 (clean ▸ errors_declare _ type names)
    exact (extends_addVariable type t here).trans (ih clean)

/-! ## Items -/

/-- A builder has built its functions from procedures, the last one with the table in use. -/
structure Realizes (b : Builder) (P : List Procedure) : Prop where
  resolves : b.listing.Resolves b.table
  length : b.listing.functions.length = P.length
  function : ∀ k f p, b.listing.functions[k]? = some f → P[k]? = some p →
    ∃ T, b.listing.Resolves T ∧ f.Realizes T p ∧ (k = b.current → T = b.table)

theorem Realizes.of_moves (h : b.Realizes P) (moves : Moves g b b') {e : Procedure → Procedure}
    (step : ∀ f p, f.Realizes b'.table p → (g f).Realizes b'.table (e p)) :
    b'.Realizes (P.modify (P.length - 1) e) := by
  refine ⟨moves.resolves h.resolves, ?_, fun k f p hf hp => ?_⟩
  · rw [moves.functions, List.length_modify, List.length_modify, h.length]
  · rw [moves.functions] at hf
    rw [← h.length] at hp
    rw [moves.current]
    by_cases now : b.current = k
    · subst now
      rw [List.getElem?_modify_eq] at hf
      obtain ⟨f₀, found, rfl⟩ := Option.map_eq_some_iff.1 hf
      obtain ⟨p₀, said, rfl⟩ := Option.map_eq_some_iff.1 (List.getElem?_modify_eq .. ▸ hp)
      obtain ⟨T, -, realizes, last⟩ := h.function _ f₀ p₀ found said
      obtain rfl := last rfl
      exact ⟨b'.table, moves.resolves h.resolves,
        step f₀ p₀ (realizes.mono moves.more rfl rfl rfl), fun _ => rfl⟩
    · rw [List.getElem?_modify_ne _ _ now] at hf
      obtain ⟨T, resolves, realizes, -⟩ :=
        h.function k f p hf (List.getElem?_modify_ne _ _ now ▸ hp)
      exact ⟨T, resolves.keep moves.keeps, realizes, fun same => absurd same.symm now⟩

theorem Realizes.extend (h : b.Realizes P) (ext : Extends b b') : b'.Realizes P := by
  obtain ⟨g, moves, same⟩ := ext
  have step (f : Function) (p : Procedure) (realizes : f.Realizes b'.table p) :
      (g f).Realizes b'.table (id p) := by
    obtain ⟨symbol, params, code⟩ := same f
    exact realizes.mono (fun _ _ => id) symbol params code
  simpa using h.of_moves moves step

theorem Realizes.push (h : b.Realizes P) {a : Action} {st : Statement}
    (realizes : a.Realizes b.table st) (line : Int) :
    (b.push a line).Realizes
      (P.modify (P.length - 1) fun p => { p with body := p.body ++ [st] }) := by
  have moves : Moves (fun f => (f.push a line).1) b (b.push a line) :=
    ⟨rfl, .of_eq rfl, fun _ _ => id, fun resolves => resolves.keep (.of_eq rfl)⟩
  refine h.of_moves moves fun f p real => ⟨real.symbol, real.params, ?_⟩
  exact List.rel_append real.body (.cons realizes .nil)

theorem Realizes.addParam (h : b.Realizes P) (t : Token) (type : DataType)
    (clean : (b.addParam t type).errors = []) :
    (b.addParam t type).Realizes
      (P.modify (P.length - 1) fun p => { p with params := p.params ++ [t.value] }) := by
  unfold Builder.addParam at clean ⊢
  split at clean
  · exact absurd clean (report_errors_ne _ _)
  · next new =>
    rw [if_neg new]
    have absent := Option.not_isSome_iff_eq_none.1 new
    have moves : Moves (fun f => { f with params := f.params ++ [b.listing.symbols.size] }) b
        { b with
          listing := (b.listing.addParam b.current t.value (some type) b.wordSize).1
          scope := { b.scope with
            vars := b.scope.vars ++ [(t.value, b.listing.symbols.size)] } } := by
      refine .fresh (r := .var t.value) rfl rfl ⟨rfl, rfl⟩ fun r s => ?_
      cases r with
      | var key => simpa [table] using lookup_concat absent
      | _ => exact (or_iff_left nofun).symm
    refine h.of_moves moves fun f p real => ⟨real.symbol, ?_, real.body⟩
    refine List.rel_append real.params (.cons ?_ .nil)
    exact (lookup_concat absent).2 (.inr ⟨rfl, rfl⟩)

theorem Realizes.startBody (h : b.Realizes P) {name : String} {s : SymbolId}
    (found : b.functions.lookup name = some s) :
    Realizes { b with
      listing := { b.listing with functions := b.listing.functions ++ [{ symbol := s }] }
      scope := {} } (P ++ [⟨name, [], []⟩]) := by
  generalize hb' : ({ b with
    listing := { b.listing with functions := b.listing.functions ++ [{ symbol := s }] }
    scope := {} } : Builder) = b'
  have functions : b'.listing.functions = b.listing.functions ++ [{ symbol := s }] := by rw [← hb']
  have keeps : b.listing.Keeps b'.listing := .of_eq (by rw [← hb'])
  -- Only functions are known under the names of the new function.
  have resolves : b'.listing.Resolves b'.table := by
    subst hb'
    intro r s' known
    cases r with
    | function name' => exact h.resolves.keep keeps _ _ known
    | _ => cases known
  have last : b'.current = P.length := by
    rw [Builder.current, functions, List.length_append, h.length]
    rfl
  refine ⟨resolves, by simp [functions, h.length], fun k f p hf hp => ?_⟩
  rw [functions] at hf
  rw [last]
  rcases Nat.lt_trichotomy k P.length with lt | rfl | gt
  · rw [List.getElem?_append_left (h.length ▸ lt)] at hf
    rw [List.getElem?_append_left lt] at hp
    obtain ⟨T, resolves, realizes, -⟩ := h.function k f p hf hp
    exact ⟨T, resolves.keep keeps, realizes, fun same => absurd same (Nat.ne_of_lt lt)⟩
  · rw [List.getElem?_concat_length] at hp
    rw [← h.length, List.getElem?_concat_length] at hf
    cases hf
    cases hp
    exact ⟨b'.table, resolves, ⟨by rw [← hb']; exact found, .nil, .nil⟩, fun _ => rfl⟩
  · rw [List.getElem?_eq_none (by simp; omega)] at hp
    cases hp

theorem Realizes.startFunction (h : b.Realizes P) (t : Token)
    (clean : (b.startFunction t).errors = []) :
    (b.startFunction t).Realizes (P ++ [⟨t.value, [], []⟩]) := by
  obtain ⟨ext, found⟩ := finds_functionSymbol b t.value
  unfold Builder.startFunction at clean ⊢
  generalize b.functionSymbol t.value = r at ext found clean
  obtain ⟨b', s⟩ := r
  dsimp only at ext found clean ⊢
  split at clean
  · exact absurd clean (report_errors_ne _ _)
  · next new =>
    rw [if_neg new]
    exact (h.extend ext).startBody found

/-- An item adds to the procedures what it adds to the listing. -/
theorem Realizes.add (h : b.Realizes P) (item : Item) (clean : (b.add item).errors = []) :
    (b.add item).Realizes (Procedure.extend P item.meaning) := by
  cases item with
  | error e => exact absurd clean (report_errors_ne _ _)
  | function t => exact h.startFunction t clean
  | param t type => exact h.addParam t type clean
  | returns type => exact h.extend (extends_setResult b type)
  | declare names type => exact h.extend (extends_declare type names clean)
  | label t =>
    obtain ⟨ext, found⟩ := finds_labelSymbol b t.value
    exact (h.extend ext).push (.label found) t.line
  | instr op os line _ =>
    obtain ⟨ext, found⟩ := finds_operands b op 0 os
    exact (h.extend ext).push (.apply found) line
  | abandoned op os => exact h.extend (finds_operands b op 0 os).1

theorem Realizes.addAll (h : b.Realizes P) (items : List Item)
    (clean : (items.foldl Builder.add b).errors = []) :
    (items.foldl Builder.add b).Realizes ((items.map Item.meaning).foldl Procedure.extend P) := by
  induction items generalizing b P with
  | nil => exact h
  | cons item items ih =>
    have here : (b.add item).errors = [] := List.prefix_nil.1 (clean ▸ errors_addAll _ items)
    exact ih (h.add item here) clean

theorem realizes_start (w : Int) : Realizes { wordSize := w } [] where
  resolves r s found := by cases r <;> cases found
  length := rfl
  function k f p found := by cases found

theorem Realizes.listing (h : b.Realizes P) : b.listing.Realizes P := by
  refine List.forall₂_iff_get.2 ⟨h.length, fun k lt lt' => ?_⟩
  obtain ⟨T, resolves, realizes, -⟩ :=
    h.function k _ _ (List.getElem?_eq_getElem lt) (List.getElem?_eq_getElem lt')
  exact ⟨T, resolves, realizes⟩

end Builder

namespace Listing

open Grammar

/-- A text without errors gives a listing of just the procedures that the text says. -/
theorem realizes_of_source (w : Int) {ts : List Token} {e : Token} {ds : List Definition}
    (ends : e.kind = .eof) (inside : ∀ t ∈ ts, t.kind ≠ .eof) (source : Source ts ds)
    (valid : ∀ d ∈ ds, d.Valid) (clean : (ofTokens w (ts ++ [e])).2 = []) :
    (ofTokens w (ts ++ [e])).1.Realizes (ds.map Definition.procedure) := by
  obtain ⟨us, newlines, definitions⟩ := source
  have stops := Reader.nextIs_newline_of_definitions definitions
  have meanings :
      (Item.ofTokens (ts ++ [e])).map Item.meaning = ds.flatMap Definition.meanings := by
    rw [items_ofTokens ends inside, Reader.skipNewlines_of_newlines newlines stops,
      Reader.meanings_of_definitions _ definitions valid]
  have start := (Builder.realizes_start w).extend (Builder.extends_declareFunctions _ (ts ++ [e]))
  have built := (start.addAll _ clean).listing
  rw [meanings, extend_definitions] at built
  exact built

end Listing

end RegColor
