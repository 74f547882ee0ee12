import RegColor.Proofs.Changes
import RegColor.Proofs.Blocks

/-!
# Names are resolved in scopes

The number of a symbol is its place in the listing, so different symbols have different numbers.
Every function has a table of its own for variables, labels and constants, while the names of
functions are known to the whole listing. `Builder.Scopes` relates one function to its table,
`Builder.Scoped` all functions to theirs. Every change of a builder keeps this, so it holds after
any items, also after those of a faulty line.

* `Builder.Scoped.changes`: changes keep functions and tables together;
* `Listing.resolved_ofTokens`: what the symbols of any listing read from tokens stand for.
-/

namespace RegColor

namespace Ref

def isFunction : Ref → Bool
  | function _ => true
  | _ => false

/-- Variables and labels belong to one function. -/
def isLocal : Ref → Bool
  | var _ => true
  | label _ => true
  | _ => false

end Ref

/-- What refers to a symbol: the name of a variable, a label or a function, or the value of a
constant. Code has no other symbols. -/
def Symbol.ref? (y : Symbol) : Option Ref :=
  match y.kind with
  | .var => some (.var y.name)
  | .label => some (.label y.name)
  | .function => some (.function y.name)
  | .int v => some (.int v)
  | .float x => some (.float x.text)
  | _ => none

theorem Ref.Means.ref?_eq {r : Ref} {y : Symbol} (h : r.Means y) : y.ref? = some r := by
  have name := h.name
  have kind := h.kind
  unfold Symbol.ref?
  cases r with
  | float text =>
    obtain ⟨x, kind, rfl⟩ := kind
    rw [kind]
  | int v => rw [show y.kind = .int v from kind]
  | _ =>
    rw [show y.kind = _ from kind, name]
    rfl

theorem Action.FoundIn.mono {T T' : Table} {a : Action} (h : a.FoundIn T)
    (more : ∀ r s, T r = some s → T' r = some s) : a.FoundIn T' := by
  cases a with
  | label s =>
    obtain ⟨name, found⟩ := h
    exact ⟨name, more _ _ found⟩
  | apply op ss =>
    intro k s here
    obtain ⟨o, found⟩ := h k s here
    exact ⟨o, more _ _ found⟩

namespace Builder

variable {b b' : Builder} {r r' : Ref} {s s' : SymbolId} {y : Symbol} {g : Function → Function}
  {T T' : Table} {f : Function} {terms : Terms}

/-! ## One function -/

/-- A function of a builder and the table that its names and constants were resolved with. -/
structure Scopes (b : Builder) (T : Table) (f : Function) : Prop where
  resolves : b.listing.Resolves T
  symbol : ∃ name, b.functions.lookup name = some f.symbol
  known : ∀ name s, T (.function name) = some s → b.functions.lookup name = some s
  owned : ∀ r s, T r = some s → r.isLocal = true → (b.listing.symbol s).owner = some f.symbol
  vars : ∀ s, s ∈ f.params ++ f.locals ↔ ∃ name, T (.var name) = some s
  nodup : (f.params ++ f.locals).Nodup
  slots : ∀ (k : Nat) s, f.params[k]? = some s →
    (b.listing.symbol s).slot = some ⟨Word.wrap (k * b.wordSize), b.wordSize⟩
  code : ∀ i ∈ f.code, i.action.FoundIn T

theorem Scopes.lt_of_param (h : b.Scopes T f) (mem : s ∈ f.params) :
    s < b.listing.symbols.size := by
  obtain ⟨name, found⟩ := (h.vars s).1 (List.mem_append_left _ mem)
  exact (h.resolves _ s found).1

theorem Scopes.keep (h : b.Scopes T f) (kept : Kept b b') : b'.Scopes T f where
  resolves := h.resolves.keep kept.keeps
  symbol := by
    obtain ⟨name, found⟩ := h.symbol
    exact ⟨name, kept.functions _ _ found⟩
  known name s found := kept.functions name s (h.known name s found)
  owned r s found isLocal := by
    rw [(kept.place s (h.resolves r s found).1).1]
    exact h.owned r s found isLocal
  vars := h.vars
  nodup := h.nodup
  slots k s here := by
    rw [(kept.place s (h.lt_of_param (List.mem_of_getElem? here))).2, kept.wordSize]
    exact h.slots k s here
  code := h.code

/-- An entry gives the function being built a variable, or leaves it as it is. -/
theorem Entry.vars (h : Entry terms b r y g) :
    (g = id ∧ ∀ name, r ≠ .var name) ∨ ((∃ name, r = .var name) ∧ ∀ f : Function,
      ((g f).params ++ (g f).locals).Perm (b.listing.symbols.size :: (f.params ++ f.locals))) := by
  cases h with
  | localVar =>
    refine .inr ⟨⟨_, rfl⟩, fun f => ?_⟩
    rw [← List.append_assoc]
    exact List.perm_append_singleton ..
  | param =>
    refine .inr ⟨⟨_, rfl⟩, fun f => ?_⟩
    rw [List.append_assoc]
    exact List.perm_middle
  | _ => exact .inl ⟨rfl, fun _ same => by cases same⟩

theorem Entry.owner (h : Entry terms b r y g) (isLocal : r.isLocal = true) :
    y.owner = some b.owner := by
  cases h with
  | label | localVar | param => rfl
  | _ => cases isLocal

theorem Entry.slot (h : Entry terms b r y g)
    (here : b.listing.functions[b.current]? = some f) {k : Nat}
    (param : (g f).params[k]? = some s) : f.params[k]? = some s ∨
      s = b.listing.symbols.size ∧ y.slot = some ⟨Word.wrap (k * b.wordSize), b.wordSize⟩ := by
  cases h with
  | param =>
    rcases Nat.lt_trichotomy k f.params.length with lt | rfl | gt
    · exact .inl (by simpa [List.getElem?_append_left lt] using param)
    · refine .inr ⟨by simpa using param.symm, ?_⟩
      rw [List.getD_eq_getElem?_getD, here]
      rfl
    · rw [List.getElem?_eq_none (by simp; omega)] at param
      cases param
  | _ => exact .inl param

theorem owner_eq (here : b.listing.functions[b.current]? = some f) : b.owner = f.symbol := by
  rw [Builder.owner, List.getD_eq_getElem?_getD, here]
  rfl

theorem Entry.code_eq (h : Entry terms b r y g) (f : Function) : (g f).code = f.code := by
  cases h <;> rfl

theorem resolves_enter (h : b.listing.Resolves b.table) (entry : Entry terms b r y g)
    (new : b.table r = none) : (b.enter r y g).listing.Resolves (b.enter r y g).table := by
  intro r' s found
  rcases (table_enter new).1 found with old | ⟨rfl, rfl⟩
  · exact h.keep (kept_enter new).keeps r' s old
  · rw [Listing.symbol_push (symbols_enter ..), if_pos rfl, symbols_enter]
    exact ⟨by simp, entry.means⟩

theorem Scopes.enter (h : b.Scopes b.table f) (here : b.listing.functions[b.current]? = some f)
    (entry : Entry terms b r y g) (new : b.table r = none) :
    (b.enter r y g).Scopes (b.enter r y g).table (g f) := by
  have h' := h.keep (kept_enter (y := y) (g := g) new)
  have last : (b.enter r y g).listing.symbol b.listing.symbols.size = y := by
    rw [Listing.symbol_push (symbols_enter ..), if_pos rfl]
  have more : ∀ r' s, b.table r' = some s → (b.enter r y g).table r' = some s :=
    fun _ _ old => (table_enter new).2 (.inl old)
  -- the number of the new symbol is no variable of the function yet
  have fresh : b.listing.symbols.size ∉ f.params ++ f.locals := by
    intro mem
    obtain ⟨name, found⟩ := (h.vars _).1 mem
    exact Nat.lt_irrefl _ (h.resolves _ _ found).1
  have vars : (∀ s, s ∈ (g f).params ++ (g f).locals ↔
      ∃ name, (b.enter r y g).table (.var name) = some s) ∧
      ((g f).params ++ (g f).locals).Nodup := by
    simp only [table_enter new, exists_or, ← h.vars]
    rcases entry.vars with ⟨rfl, other⟩ | ⟨⟨name, rfl⟩, perm⟩
    · refine ⟨fun s => ⟨.inl, ?_⟩, h.nodup⟩
      rintro (old | ⟨name, same, -⟩)
      · exact old
      · exact absurd same.symm (other name)
    · refine ⟨fun s => ?_, (perm f).nodup_iff.2 (List.nodup_cons.2 ⟨fresh, h.nodup⟩)⟩
      rw [(perm f).mem_iff, List.mem_cons, or_comm]
      refine or_congr_right ⟨fun same => ⟨name, rfl, same⟩, ?_⟩
      rintro ⟨-, -, same⟩
      exact same
  exact {
    resolves := resolves_enter h.resolves entry new
    symbol := by rw [entry.symbol_eq]; exact h'.symbol
    known := fun _ _ => id
    owned := by
      intro r' s found isLocal
      rw [entry.symbol_eq]
      rcases (table_enter new).1 found with old | ⟨rfl, rfl⟩
      · exact h'.owned r' s old isLocal
      · rw [last, entry.owner isLocal, owner_eq here]
    vars := vars.1
    nodup := vars.2
    slots := by
      intro k s param
      rcases entry.slot here param with old | ⟨rfl, slot⟩
      · exact h'.slots k s old
      · rw [last, slot, wordSize_enter]
    code := by
      rw [entry.code_eq]
      exact fun i mem => (h.code i mem).mono more }

theorem Scopes.push (h : b.Scopes T f) {a : Action} (found : a.FoundIn T) (line : Int) :
    b.Scopes T (f.push a line).1 :=
  { h with code := List.forall_mem_append.2 ⟨h.code, List.forall_mem_singleton.2 found⟩ }

/-! ## All functions -/

/-- Two tables have no symbols in common but those of functions. -/
def Apart (T T' : Table) : Prop :=
  ∀ r r' s, T r = some s → T' r' = some s → r.isFunction = true

/-- The functions of a builder and their tables. The last function is being built, with the
builder's own table. -/
structure Scoped (b : Builder) (T : Nat → Table) : Prop where
  resolves : b.listing.Resolves b.table
  scopes : ∀ (k : Nat) f, b.listing.functions[k]? = some f → b.Scopes (T k) f
  current : ∀ f, b.listing.functions[b.current]? = some f → T b.current = b.table
  apart : ∀ (j k : Nat) f f', b.listing.functions[j]? = some f →
    b.listing.functions[k]? = some f' → j ≠ k → Apart (T j) (T k)

variable {tables : Nat → Table}

theorem Scoped.lt (h : b.Scoped tables) {k : Nat} (here : b.listing.functions[k]? = some f)
    (found : tables k r = some s) : s < b.listing.symbols.size :=
  ((h.scopes k f here).resolves r s found).1

/-- A change of the function being built alone, which enters new symbols into its table only. -/
theorem Scoped.modify (h : b.Scoped tables) (kept : Kept b b')
    (functions : b'.listing.functions = b.listing.functions.modify b.current g)
    (resolves : b'.listing.Resolves b'.table)
    (scopes : ∀ f, b.listing.functions[b.current]? = some f → b.Scopes b.table f →
      b'.Scopes b'.table (g f))
    (grown : ∀ r s, b'.table r = some s → b.table r = some s ∨ b.listing.symbols.size ≤ s) :
    b'.Scoped (Function.update tables b.current b'.table) := by
  have current : b'.current = b.current := by
    rw [Builder.current, functions, List.length_modify, Builder.current]
  have before {k : Nat} {f' : Function} (here : b'.listing.functions[k]? = some f') :
      ∃ f, b.listing.functions[k]? = some f ∧ f' = if b.current = k then g f else f := by
    rw [functions, List.getElem?_modify] at here
    obtain ⟨f, here, same⟩ := Option.map_eq_some_iff.1 here
    exact ⟨f, here, by split at same <;> simp_all⟩
  refine ⟨resolves, fun k f' here => ?_, fun f' _ => ?_, fun j k f f' hj hk ne r r' s hr hr' => ?_⟩
  · obtain ⟨f, known, rfl⟩ := before here
    split
    · next last =>
      subst last
      rw [Function.update_self]
      exact scopes f known (h.current f known ▸ h.scopes _ f known)
    · next other =>
      rw [Function.update_of_ne (Ne.symm other)]
      exact (h.scopes k f known).keep kept
  · rw [current, Function.update_self]
  · obtain ⟨f, hj, -⟩ := before hj
    obtain ⟨f', hk, -⟩ := before hk
    -- a symbol that is new in one of the tables is not yet in the other
    by_cases first : j = b.current
    · subst first
      rw [Function.update_self] at hr
      rw [Function.update_of_ne (Ne.symm ne)] at hr'
      rcases grown r s hr with old | new
      · exact h.apart _ k f f' hj hk ne r r' s (h.current f hj ▸ old) hr'
      · exact absurd (h.lt hk hr') (Nat.not_lt.2 new)
    · rw [Function.update_of_ne first] at hr
      by_cases second : k = b.current
      · subst second
        rw [Function.update_self] at hr'
        rcases grown r' s hr' with old | new
        · exact h.apart j _ f f' hj hk ne r r' s hr (h.current f' hk ▸ old)
        · exact absurd (h.lt hj hr) (Nat.not_lt.2 new)
      · rw [Function.update_of_ne second] at hr'
        exact h.apart j k f f' hj hk ne r r' s hr hr'

/-- A function that has just been started knows nothing but functions. -/
theorem table_start :
    (b.start s).table r = some s' ↔ b.table r = some s' ∧ r.isFunction = true := by
  cases r with
  | function name => exact (and_iff_left rfl).symm
  | _ => exact ⟨fun found => (nomatch found), fun found => (nomatch found.2)⟩

theorem kept_start (b : Builder) (s : SymbolId) : Kept b (b.start s) := .of_symbols_eq rfl rfl rfl

theorem Scopes.start {name : String} (resolves : b.listing.Resolves b.table)
    (found : b.functions.lookup name = some s) :
    (b.start s).Scopes (b.start s).table { symbol := s } where
  resolves r s' known := resolves r s' (table_start.1 known).1
  symbol := ⟨name, found⟩
  known _ _ := id
  owned r s' known isLocal := by
    have := (table_start.1 known).2
    cases r <;> simp [Ref.isLocal, Ref.isFunction] at isLocal this
  vars s' := by simp [table_start, Ref.isFunction]
  nodup := .nil
  slots k s' here := by cases here
  code i mem := by cases mem

theorem Scoped.start (h : b.Scoped tables) {name : String}
    (found : b.functions.lookup name = some s) :
    (b.start s).Scoped
      (Function.update tables b.listing.functions.length (b.start s).table) := by
  have scopes := Scopes.start h.resolves found
  have before {k : Nat} {f : Function} (here : (b.start s).listing.functions[k]? = some f) :
      k = b.listing.functions.length ∧ f = { symbol := s } ∨
        k ≠ b.listing.functions.length ∧ b.listing.functions[k]? = some f := by
    rcases Nat.lt_trichotomy k b.listing.functions.length with lt | rfl | gt
    · exact .inr ⟨Nat.ne_of_lt lt, (List.getElem?_append_left lt).symm.trans here⟩
    · exact .inl ⟨rfl, by simpa [Builder.start] using here.symm⟩
    · rw [List.getElem?_eq_none (by simp [Builder.start]; omega)] at here
      cases here
  refine ⟨scopes.resolves, fun k f here => ?_, fun f _ => ?_,
    fun j k f f' hj hk ne r r' s' hr hr' => ?_⟩
  · rcases before here with ⟨rfl, rfl⟩ | ⟨other, here⟩
    · rwa [Function.update_self]
    · rw [Function.update_of_ne other]
      exact (h.scopes k f here).keep (kept_start b s)
  · have last : (b.start s).current = b.listing.functions.length := by
      simp [Builder.current, Builder.start]
    rw [last, Function.update_self]
  · rcases before hj with ⟨rfl, rfl⟩ | ⟨first, hj⟩
    · rw [Function.update_self] at hr
      exact (table_start.1 hr).2
    · rw [Function.update_of_ne first] at hr
      rcases before hk with ⟨rfl, rfl⟩ | ⟨second, hk⟩
      · -- both references mean the same symbol, and the second is to a function
        rw [Function.update_self] at hr'
        have same := ((h.scopes j f hj).resolves r s' hr).2.unique (scopes.resolves r' s' hr').2
        exact same ▸ (table_start.1 hr').2
      · rw [Function.update_of_ne second] at hr'
        exact h.apart j k f f' hj hk ne r r' s' hr hr'

/-- Every change keeps functions and tables together. -/
theorem Scoped.change (h : b.Scoped tables) (step : Change terms b b') :
    ∃ tables', b'.Scoped tables' := by
  have alone : ∀ r s, b.table r = some s → b.table r = some s ∨ b.listing.symbols.size ≤ s :=
    fun _ _ => .inl
  have kept := step.kept
  cases step with
  | enter entry new =>
    refine ⟨_, h.modify kept (functions_enter ..) (resolves_enter h.resolves entry new)
      (fun f here scopes => scopes.enter here entry new) fun r s found => ?_⟩
    exact ((table_enter new).1 found).imp_right fun last => Nat.le_of_eq last.2.symm
  | push line found =>
    exact ⟨_, h.modify kept rfl h.resolves (fun f _ scopes => (scopes.push found line).keep kept)
      alone⟩
  | start found _ => exact ⟨_, h.start found⟩
  | report e =>
    exact ⟨_, h.modify kept (List.modify_id ..).symm h.resolves (fun _ _ scopes => scopes.keep kept)
      alone⟩
  | retype _ =>
    exact ⟨_, h.modify kept (List.modify_id ..).symm (h.resolves.keep kept.keeps)
      (fun _ _ scopes => scopes.keep kept) alone⟩

theorem Scoped.changes (h : b.Scoped tables) (steps : Changes terms b b') :
    ∃ tables', b'.Scoped tables' := by
  induction steps with
  | refl => exact ⟨tables, h⟩
  | tail _ step ih =>
    obtain ⟨_, h'⟩ := ih
    exact h'.change step

theorem exists_scoped_after (w : Int) (tokens : List Token) (items : List Item) :
    ∃ tables, (after w tokens items).Scoped tables := by
  have start : Scoped { wordSize := w } fun _ _ => none := by
    refine ⟨fun r s found => ?_, fun _ _ here => ?_, fun _ here => ?_, fun _ _ _ _ here => ?_⟩
    · cases r <;> cases found
    all_goals cases here
  exact start.changes (changes_after w tokens items)

end Builder

/-! ## Listings -/

/-- The symbols in the code of a function: the labels it defines and the operands. -/
def Function.mentions (f : Function) : List SymbolId :=
  f.code.flatMap fun i => i.label?.toList ++ i.operands

namespace Listing

/-- What a name at position `k` of an instruction stands for. A branch goes to a label of the
function, a call is to a function, and any other name is one parameter or local variable. -/
def NameFits (l : Listing) (f : Function) (op : Opcode) (k : Nat) (s : SymbolId) : Prop :=
  if op = .goto ∧ k = 0 ∨ op.isBranch = true ∧ k = 2 then
    (l.symbol s).kind = .label ∧ (l.symbol s).owner = some f.symbol
  else if op = .call ∧ k = 1 then (l.symbol s).kind = .function
  else (l.symbol s).kind = .var ∧ (l.symbol s).owner = some f.symbol ∧
    (f.params ++ f.locals).count s = 1

/-- The names and constants of a function are resolved: each stands for one symbol, of the kind that
its place asks for. -/
structure Resolved (l : Listing) (w : Int) (f : Function) : Prop where
  symbol : f.symbol < l.symbols.size ∧ (l.symbol f.symbol).kind = .function
  known : ∀ s ∈ f.params ++ f.locals ++ f.mentions, s < l.symbols.size
  index : ∀ (p : Nat) i, f.code[p]? = some i → i.id.index = p
  name : ∀ i ∈ f.code, ∀ (k : Nat) s, i.operands[k]? = some s → l.isConstant s = false →
    l.NameFits f i.op k s
  label : ∀ i ∈ f.code, ∀ s, i.label? = some s →
    (l.symbol s).kind = .label ∧ (l.symbol s).owner = some f.symbol
  same : ∀ s ∈ f.mentions, ∀ s' ∈ f.mentions, s = s' ↔ (l.symbol s).ref? = (l.symbol s').ref?
  slot : ∀ (k : Nat) s, f.params[k]? = some s →
    (l.symbol s).slot = some ⟨Word.wrap (k * w), w⟩
  first : ∀ s i, l.labelInstr f s = .ok i ↔ ∃ before after, f.code = before ++ i :: after ∧
    i.label? = some s ∧ ∀ j ∈ before, j.label? ≠ some s

end Listing

namespace Builder

variable {b : Builder} {T : Table} {f : Function} {s s' : SymbolId} {tables : Nat → Table}

theorem Scopes.label (h : b.Scopes T f) {i : Instr} (mem : i ∈ f.code) (label : i.label? = some s) :
    ∃ name, T (.label name) = some s := by
  have found := h.code i mem
  unfold Instr.label? at label
  split at label
  · next s' act =>
    cases label
    rwa [act] at found
  · cases label

theorem Scopes.operand (h : b.Scopes T f) {i : Instr} (mem : i ∈ f.code) {k : Nat}
    (here : i.operands[k]? = some s) : ∃ o, T (i.op.ref k o) = some s := by
  have found := h.code i mem
  unfold Instr.operands at here
  split at here
  · cases here
  · next op ss act =>
    rw [act] at found
    have same : i.op = op := by rw [Instr.op, act]
    exact same ▸ found k s here

theorem Scopes.mentioned (h : b.Scopes T f) (mem : s ∈ f.mentions) : ∃ r, T r = some s := by
  obtain ⟨i, hi, mem⟩ := List.mem_flatMap.1 mem
  rcases List.mem_append.1 mem with label | operand
  · obtain ⟨name, found⟩ := h.label hi (Option.mem_toList.1 label)
    exact ⟨_, found⟩
  · obtain ⟨k, here⟩ := List.getElem?_of_mem operand
    obtain ⟨o, found⟩ := h.operand hi here
    exact ⟨_, found⟩

theorem Scopes.found (h : b.Scopes T f) (mem : s ∈ f.params ++ f.locals ++ f.mentions) :
    ∃ r, T r = some s := by
  rcases List.mem_append.1 mem with var | mention
  · obtain ⟨name, found⟩ := (h.vars s).1 var
    exact ⟨_, found⟩
  · exact h.mentioned mention

theorem Scopes.nameFits (h : b.Scopes T f) {i : Instr} (mem : i ∈ f.code) {k : Nat}
    (here : i.operands[k]? = some s) (name : b.listing.isConstant s = false) :
    b.listing.NameFits f i.op k s := by
  obtain ⟨o, found⟩ := h.operand mem here
  have kind := (h.resolves _ s found).2.kind
  have target : i.op = .goto ∧ k = 0 ∨ i.op.isBranch = true ∧ k = 2 ↔
      i.op.targetPosition? = some k := by
    cases i.op <;> simp [Opcode.isBranch, Opcode.targetPosition?, eq_comm]
  unfold Listing.NameFits
  rw [if_congr target rfl rfl]
  cases o with
  | int v =>
    have kind : (b.listing.symbol s).kind = .int v := kind
    rw [Listing.isConstant, Symbol.isConstant, kind] at name
    cases name
  | float x =>
    obtain ⟨x, kind, -⟩ := kind
    rw [Listing.isConstant, Symbol.isConstant, kind] at name
    cases name
  | name name =>
    unfold Opcode.ref at found kind
    dsimp only at found kind
    split
    · next at_target =>
      rw [if_pos at_target] at found kind
      exact ⟨kind, h.owned _ s found rfl⟩
    · next no_target =>
      rw [if_neg no_target] at found kind
      split
      · next callee =>
        rw [if_pos callee] at kind
        exact kind
      · next plain =>
        rw [if_neg plain] at found kind
        exact ⟨kind, h.owned _ s found rfl,
          List.count_eq_one_of_mem h.nodup ((h.vars s).2 ⟨name, found⟩)⟩

theorem Scopes.eq_iff (h : b.Scopes T f) (mem : s ∈ f.mentions) (mem' : s' ∈ f.mentions) :
    s = s' ↔ (b.listing.symbol s).ref? = (b.listing.symbol s').ref? := by
  refine ⟨fun same => same ▸ rfl, fun same => ?_⟩
  obtain ⟨r, found⟩ := h.mentioned mem
  obtain ⟨r', found'⟩ := h.mentioned mem'
  rw [(h.resolves r s found).2.ref?_eq, (h.resolves r' s' found').2.ref?_eq] at same
  cases same
  exact Option.some.inj (found.symm.trans found')

/-- A function symbol, wherever it stands, is the one that its name is known for. -/
theorem Scopes.lookup_name (h : b.Scopes T f) (resolves : b.listing.Resolves b.table)
    (mem : s ∈ f.symbol :: f.mentions) (kind : (b.listing.symbol s).kind = .function) :
    b.functions.lookup (b.listing.symbol s).name = some s := by
  rcases List.mem_cons.1 mem with rfl | mention
  · obtain ⟨name, found⟩ := h.symbol
    have means := (resolves (.function name) _ found).2
    rw [means.name]
    exact found
  · obtain ⟨r, found⟩ := h.mentioned mention
    have same := (h.resolves r s found).2.ref?_eq
    rw [Symbol.ref?, kind] at same
    cases same
    exact h.known _ s found

theorem Scopes.resolved (h : b.Scopes T f) (resolves : b.listing.Resolves b.table)
    (emitted : f.Emitted) : b.listing.Resolved b.wordSize f where
  symbol := by
    obtain ⟨name, found⟩ := h.symbol
    obtain ⟨lt, means⟩ := resolves (.function name) _ found
    exact ⟨lt, means.kind⟩
  known s mem := by
    obtain ⟨r, found⟩ := h.found mem
    exact (h.resolves r s found).1
  index := f.indexed
  name i mem k s here name := h.nameFits mem here name
  label i mem s label := by
    obtain ⟨name, found⟩ := h.label mem label
    exact ⟨(h.resolves _ s found).2.kind, h.owned _ s found rfl⟩
  same s mem s' mem' := h.eq_iff mem mem'
  slot := h.slots
  first s i := by
    have isLabel (defined : i.label? = some s) (mem : i ∈ f.code) :
        b.listing.isLabel s = true := by
      obtain ⟨name, found⟩ := h.label mem defined
      exact decide_eq_true (h.resolves _ s found).2.kind
    rw [Listing.labelInstr_eq_ok_iff emitted, Listing.definition?, List.find?_eq_some_iff_append]
    constructor
    · rintro ⟨-, defined, before, after, code, none⟩
      exact ⟨before, after, code, by simpa using defined, fun j mem => by simpa using none j mem⟩
    · rintro ⟨before, after, code, defined, none⟩
      exact ⟨isLabel defined (by simp [code]), by simpa using defined, before, after, code,
        fun j mem => by simpa using none j mem⟩

/-- A symbol that stands in two functions is the symbol of a function. -/
theorem Scoped.kind_of_shared (h : b.Scoped tables) {j k : Nat} {f' : Function}
    (hj : b.listing.functions[j]? = some f) (hk : b.listing.functions[k]? = some f') (ne : j ≠ k)
    (mem : s ∈ f.params ++ f.locals ++ f.mentions)
    (mem' : s ∈ f'.params ++ f'.locals ++ f'.mentions) :
    (b.listing.symbol s).kind = .function := by
  obtain ⟨r, found⟩ := (h.scopes j f hj).found mem
  obtain ⟨r', found'⟩ := (h.scopes k f' hk).found mem'
  have kind := ((h.scopes j f hj).resolves r s found).2.kind
  have isFunction := h.apart j k f f' hj hk ne r r' s found found'
  cases r with
  | function name => exact kind
  | _ => cases isFunction

theorem Scoped.eq_iff_name_eq (h : b.Scoped tables) {f' : Function} (hf : f ∈ b.listing.functions)
    (hf' : f' ∈ b.listing.functions) (mem : s ∈ f.symbol :: f.mentions)
    (mem' : s' ∈ f'.symbol :: f'.mentions) (kind : (b.listing.symbol s).kind = .function)
    (kind' : (b.listing.symbol s').kind = .function) :
    s = s' ↔ (b.listing.symbol s).name = (b.listing.symbol s').name := by
  obtain ⟨j, hj⟩ := List.getElem?_of_mem hf
  obtain ⟨k, hk⟩ := List.getElem?_of_mem hf'
  have found := (h.scopes j f hj).lookup_name h.resolves mem kind
  have found' := (h.scopes k f' hk).lookup_name h.resolves mem' kind'
  refine ⟨fun same => same ▸ rfl, fun same => ?_⟩
  exact Option.some.inj (found.symm.trans (same ▸ found'))

end Builder

/-- The body of a symbol is where the one function with this symbol stands. -/
theorem Listing.bodyOf?_eq_some_iff {l : Listing} (nodup : (l.functions.map Function.symbol).Nodup)
    {s : SymbolId} {k : Nat} :
    l.bodyOf? s = some k ↔ ∃ f, l.functions[k]? = some f ∧ f.symbol = s := by
  refine ⟨bodyOf?_eq_some, ?_⟩
  rintro ⟨f, here, rfl⟩
  obtain ⟨m, found⟩ := Option.isSome_iff_exists.1
    (isSome_bodyOf?_iff.2 (List.mem_map_of_mem (List.mem_of_getElem? here)))
  obtain ⟨f', there, same⟩ := bodyOf?_eq_some found
  have lt : m < (l.functions.map Function.symbol).length := by
    simpa using (List.getElem?_eq_some_iff.1 there).1
  have eq : (l.functions.map Function.symbol)[m]? = (l.functions.map Function.symbol)[k]? := by
    rw [List.getElem?_map, List.getElem?_map, here, there, Option.map_some, Option.map_some, same]
  rw [found, (List.getElem?_inj lt nodup).1 eq]

/-- Symbols of any token sequence and word size, with errors or without. Every function is resolved
in its own scope. The symbols of functions go by their names in the whole listing, and are all that
two functions can share. Without errors, a callee has the one body that is defined for its name. -/
theorem Listing.resolved_ofTokens (w : Int) (tokens : List Token) :
    let l := (ofTokens w tokens).1
    (∀ f ∈ l.functions, l.Resolved w f) ∧
      (∀ f ∈ l.functions, ∀ f' ∈ l.functions, ∀ s ∈ f.symbol :: f.mentions,
        ∀ s' ∈ f'.symbol :: f'.mentions, (l.symbol s).kind = .function →
          (l.symbol s').kind = .function → (s = s' ↔ (l.symbol s).name = (l.symbol s').name)) ∧
      (∀ (j k : Nat) f f', l.functions[j]? = some f → l.functions[k]? = some f' → j ≠ k →
        ∀ s ∈ f.params ++ f.locals ++ f.mentions, s ∈ f'.params ++ f'.locals ++ f'.mentions →
          (l.symbol s).kind = .function) ∧
      ((ofTokens w tokens).2 = [] → ∀ f ∈ l.functions, ∀ s ∈ f.mentions,
        (l.symbol s).kind = .function → ∀ k, l.bodyOf? s = some k ↔
          ∃ f', l.functions[k]? = some f' ∧ l.nameOf f' = (l.symbol s).name) := by
  have steps := Builder.changes_after w tokens (Item.ofTokens tokens)
  obtain ⟨tables, h⟩ := Builder.exists_scoped_after w tokens (Item.ofTokens tokens)
  have emitted := (built_ofTokens w tokens).emitted
  rw [Builder.ofTokens_eq_after] at emitted ⊢
  generalize Builder.after w tokens (Item.ofTokens tokens) = b at steps h emitted
  obtain rfl : b.wordSize = w := steps.kept.wordSize
  dsimp only at emitted ⊢
  refine ⟨fun f hf => ?_, fun f hf f' hf' s mem s' mem' => h.eq_iff_name_eq hf hf' mem mem',
    fun j k f f' hj hk ne s mem mem' => h.kind_of_shared hj hk ne mem mem',
    fun clean f hf s mem kind k => ?_⟩
  · obtain ⟨k, here⟩ := List.getElem?_of_mem hf
    exact (h.scopes k f here).resolved h.resolves (emitted f hf)
  · rw [bodyOf?_eq_some_iff (steps.nodup_bodies .nil clean)]
    refine exists_congr fun f' => and_congr_right fun here => ?_
    have hf' := List.mem_of_getElem? here
    have symbol := ((h.scopes k f' here).resolved h.resolves (emitted f' hf')).symbol
    exact h.eq_iff_name_eq hf' hf (List.mem_cons_self ..) (List.mem_cons_of_mem _ mem) symbol.2 kind

end RegColor
