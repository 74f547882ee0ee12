import RegColor.Item.Read

/-!
# The grammar of source texts

The phrases of a source text, as relations between its tokens, what they spell and the tokens that
are left after them. They say nothing of how a text is read: no phrase looks ahead, skips tokens or
recovers from an error. `Grammar.Source` holds of the tokens of a whole text and its functions.

Which phrases make sense by themselves is a second matter (`Definition.Valid`): types have known
names and positive lengths, numbers can be read and operations are known. A third one is what the
phrases do to names, and for that `Effect` is all that counts of a phrase or an item. What a line
adds to a body is its `Statement`.
-/

namespace RegColor

namespace Grammar

/-! ## Phrases -/

/-- The tokens are line breaks and then `rest`. -/
inductive Newlines : List Token → List Token → Prop
  | done (rest : List Token) : Newlines rest rest
  | more {n : Token} {ts rest : List Token} : n.kind = .newline → Newlines ts rest →
    Newlines (n :: ts) rest

/-- The tokens are phrases with commas between them and then `rest`. -/
inductive Commas {α : Type} (phrase : List Token → α → List Token → Prop) :
    List Token → List α → List Token → Prop
  | one {ts rest : List Token} {a : α} : phrase ts a rest → Commas phrase ts [a] rest
  | more {ts us rest : List Token} {c : Token} {a : α} {as : List α} : phrase ts a (c :: us) →
    c.kind = .comma → Commas phrase us as rest → Commas phrase ts (a :: as) rest

/-- The tokens are a name and then `rest`. -/
inductive Name : List Token → Token → List Token → Prop
  | mk {name : Token} {rest : List Token} : name.kind = .ident → Name (name :: rest) name rest

/-- A type: its name, and its length if it is an array. -/
structure TypeName where
  name : Token
  length : Option Token

/-- How a type is written. -/
inductive TypeName.Spells : List Token → TypeName → List Token → Prop
  | scalar {name : Token} {rest : List Token} : name.kind = .ident →
    Spells (name :: rest) ⟨name, none⟩ rest
  | array {name o n c : Token} {rest : List Token} : name.kind = .ident → o.kind = .lbracket →
    n.kind = .int → c.kind = .rbracket → Spells (name :: o :: n :: c :: rest) ⟨name, some n⟩ rest

/-- A type after a colon, or nothing. -/
inductive Typed : List Token → Option TypeName → List Token → Prop
  | bare (rest : List Token) : Typed rest none rest
  | colon {c : Token} {ts rest : List Token} {t : TypeName} : c.kind = .colon →
    TypeName.Spells ts t rest → Typed (c :: ts) (some t) rest

/-- A parameter. -/
structure Param where
  name : Token
  type : Option TypeName

inductive Param.Spells : List Token → Param → List Token → Prop
  | mk {name : Token} {ts rest : List Token} {type : Option TypeName} : name.kind = .ident →
    Typed ts type rest → Spells (name :: ts) ⟨name, type⟩ rest

/-- The parameters of a function in parentheses. -/
inductive Params : List Token → List Param → List Token → Prop
  | empty {o c : Token} {rest : List Token} : o.kind = .lparen → c.kind = .rparen →
    Params (o :: c :: rest) [] rest
  | list {o c : Token} {ts rest : List Token} {ps : List Param} : o.kind = .lparen →
    Commas Param.Spells ts ps (c :: rest) → c.kind = .rparen → Params (o :: ts) ps rest

/-- An operand: a number with or without a minus, or a name. -/
structure Value where
  negative : Bool
  token : Token

inductive Value.Spells : List Token → Value → List Token → Prop
  | plain {t : Token} {rest : List Token} : t.kind = .int ∨ t.kind = .float ∨ t.kind = .ident →
    Spells (t :: rest) ⟨false, t⟩ rest
  | minus {m t : Token} {rest : List Token} : m.kind = .minus → t.kind = .int ∨ t.kind = .float →
    Spells (m :: t :: rest) ⟨true, t⟩ rest

/-- A line of a function body. -/
inductive Line where
  | declare (names : List Token) (type : Option TypeName)
  | label (name : Token)
  | instr (op : Token) (operands : List Value)

inductive Line.Spells : List Token → Line → List Token → Prop
  | declare {v : Token} {ts us rest names : List Token} {type : Option TypeName} :
    v.kind = .var → Commas Name ts names us → Typed us type rest →
    Spells (v :: ts) (.declare names type) rest
  | label {name c : Token} {rest : List Token} : name.kind = .ident → c.kind = .colon →
    Spells (name :: c :: rest) (.label name) rest
  | bare {op : Token} {rest : List Token} : op.kind = .ident →
    Spells (op :: rest) (.instr op []) rest
  | instr {op : Token} {ts rest : List Token} {vs : List Value} : op.kind = .ident →
    Commas Value.Spells ts vs rest → Spells (op :: ts) (.instr op vs) rest

/-- The lines of a function body and its closing brace. Each line ends where the line of the text
does or at the brace. -/
inductive Body : List Token → List Line → List Token → Prop
  | close {c : Token} {rest : List Token} : c.kind = .rbrace → Body (c :: rest) [] rest
  | last {c : Token} {ts rest : List Token} {line : Line} : Line.Spells ts line (c :: rest) →
    c.kind = .rbrace → Body ts [line] rest
  | more {n : Token} {ts us vs rest : List Token} {line : Line} {lines : List Line} :
    Line.Spells ts line (n :: us) → n.kind = .newline → Newlines us vs → Body vs lines rest →
    Body ts (line :: lines) rest

/-- A function with its body. -/
structure Definition where
  name : Token
  params : List Param
  result : Option TypeName
  body : List Line

inductive Definition.Spells : List Token → Definition → List Token → Prop
  | mk {f name o : Token} {ts us vs ws rest : List Token} {params : List Param}
    {result : Option TypeName} {body : List Line} : f.kind = .func → name.kind = .ident →
    Params ts params us → Typed us result (o :: vs) → o.kind = .lbrace → Newlines vs ws →
    Body ws body rest → Spells (f :: name :: ts) ⟨name, params, result, body⟩ rest

/-- Functions up to the end, with line breaks after each. -/
inductive Definitions : List Token → List Definition → Prop
  | done : Definitions [] []
  | more {ts us vs : List Token} {d : Definition} {ds : List Definition} :
    Definition.Spells ts d us → Newlines us vs → Definitions vs ds → Definitions ts (d :: ds)

/-- A source text: line breaks, and then functions. -/
def Source (ts : List Token) (ds : List Definition) : Prop :=
  ∃ us, Newlines ts us ∧ Definitions us ds

/-! ## Literals, types and operations -/

/-- The name is that of a type, and the length a positive 64-bit integer. -/
def TypeName.Valid (t : TypeName) : Prop :=
  t.name.value ∈ ["void", "int", "float"] ∧
    ∀ n ∈ t.length, ∃ v, Integer.read n.value = .ok v ∧ 1 ≤ v ∧ v < Word.bound

/-- A number can be read. -/
def Value.Valid (v : Value) : Prop :=
  (v.token.kind = .int → ∃ n, Integer.read v.token.value = .ok n) ∧
    (v.token.kind = .float → ∃ x, Double.read v.token.value = .ok x)

/-- Types and numbers are valid, and the operation is one that can be written. -/
def Line.Valid : Line → Prop
  | declare _ type => ∀ t ∈ type, t.Valid
  | label _ => True
  | instr op operands => op.value ∈ Opcode.spelled.map Opcode.name ∧ ∀ v ∈ operands, v.Valid

/-- All that a function is made of is valid. -/
structure Definition.Valid (d : Definition) : Prop where
  params : ∀ p ∈ d.params, ∀ t ∈ p.type, t.Valid
  result : ∀ t ∈ d.result, t.Valid
  body : ∀ line ∈ d.body, line.Valid

end Grammar

/-! ## What items do to names -/

/-- What an item does to the names that are known: it fails, or it starts a function, adds a
parameter, declares variables or mentions them. -/
inductive Effect where
  | fail
  | start (name : String)
  | param (name : String)
  | declare (names : List String)
  | mention (names : List String)

/-- Whether a name at a position stands for a variable, and not for a label or a function. -/
def Opcode.namesVariable (op : Opcode) (k : Nat) : Bool :=
  op.targetPosition? ≠ some k && !(op = .call && k = 1)

/-- The variables among the names of the operands from position `k` on. -/
def Opcode.variables (op : Opcode) (k : Nat) : List (Option String) → List String
  | [] => []
  | n :: ns => (if op.namesVariable k then n.toList else []) ++ op.variables (k + 1) ns

/-- The name that an operand is. -/
def Operand.name? : Operand → Option String
  | .name n => some n
  | _ => none

def Item.effect : Item → Effect
  | .error _ => .fail
  | .function t => .start t.value
  | .param t _ => .param t.value
  | .returns _ => .mention []
  | .declare names _ => .declare (names.map Token.value)
  | .label _ => .mention []
  | .instr op os _ _ => .mention (op.variables 0 (os.map Operand.name?))
  | .abandoned op os => .mention (op.variables 0 (os.map Operand.name?))

/-- What a line adds to a body: a label, or an operation with operands. -/
inductive Statement where
  | label (name : String)
  | apply (op : Opcode) (operands : List Operand)

/-- The statement that an item adds. -/
def Item.statement? : Item → Option Statement
  | .label t => some (.label t.value)
  | .instr op os _ _ => some (.apply op os)
  | _ => none

/-- All that counts of an item: what it does to names, and what it adds. -/
def Item.meaning (i : Item) : Effect × Option Statement := (i.effect, i.statement?)

namespace Grammar

/-- The name that an operand is. -/
def Value.name? (v : Value) : Option String :=
  if v.token.kind = .ident then some v.token.value else none

/-- The variables that a line declares or mentions. -/
def Line.variables : Line → List String
  | declare names _ => names.map Token.value
  | label _ => []
  | instr op operands =>
    match Opcode.ofName? op.value with
    | some o => o.variables 0 (operands.map Value.name?)
    | none => []

def Line.effect (line : Line) : Effect :=
  match line with
  | declare .. => .declare line.variables
  | _ => .mention line.variables

def Definition.effects (d : Definition) : List Effect :=
  .start d.name.value :: (d.params.map (fun p => .param p.name.value) ++
    (d.result.map (fun _ => Effect.mention [])).toList ++ d.body.map Line.effect)

/-- The operand that a value stands for. -/
def Value.operand? (v : Value) : Option Operand :=
  (Reader.operandValue v.negative v.token).toOption

def Line.statement? : Line → Option Statement
  | declare .. => none
  | label name => some (.label name.value)
  | instr op operands =>
    (Opcode.ofName? op.value).map (.apply · (operands.filterMap Value.operand?))

def Line.meaning (line : Line) : Effect × Option Statement := (line.effect, line.statement?)

def Definition.meanings (d : Definition) : List (Effect × Option Statement) :=
  (.start d.name.value, none) :: (d.params.map (fun p => (.param p.name.value, none)) ++
    (d.result.map (fun _ => (Effect.mention [], none))).toList ++ d.body.map Line.meaning)

theorem Definition.map_fst_meanings (d : Definition) : d.meanings.map Prod.fst = d.effects := by
  cases result : d.result <;> simp [meanings, effects, Line.meaning, Function.comp_def, result]

end Grammar

/-- No item is an error. -/
def Item.Clean (items : List Item) : Prop := .fail ∉ items.map effect

theorem Item.clean_append {items items' : List Item} :
    Clean (items ++ items') ↔ Clean items ∧ Clean items' := by
  simp [Clean, not_or]

theorem Item.not_clean_error {e : ParseError} {items : List Item} :
    ¬Clean (.error e :: items) := fun h => h (List.mem_cons_self ..)

/-! ## How phrases start -/

namespace Grammar

variable {ts us rest : List Token}

theorem Commas.first {α : Type} {phrase : List Token → α → List Token → Prop} {as : List α}
    (h : Commas phrase ts as rest) : ∃ a us, phrase ts a us := by
  cases h with
  | one here => exact ⟨_, _, here⟩
  | more here _ _ => exact ⟨_, _, here⟩

theorem Param.Spells.starts {p : Param} (h : Param.Spells ts p rest) :
    ∃ t us, ts = t :: us ∧ t.kind = .ident := by
  cases h with
  | mk ident _ => exact ⟨_, _, rfl, ident⟩

theorem Value.Spells.starts {v : Value} (h : Value.Spells ts v rest) :
    ∃ t us, ts = t :: us ∧
      (t.kind = .minus ∨ t.kind = .int ∨ t.kind = .float ∨ t.kind = .ident) := by
  cases h with
  | plain kind => exact ⟨_, _, rfl, .inr kind⟩
  | minus sign _ => exact ⟨_, _, rfl, .inl sign⟩

theorem Line.Spells.starts {line : Line} (h : Line.Spells ts line rest) :
    ∃ t us, ts = t :: us ∧ (t.kind = .var ∨ t.kind = .ident) := by
  cases h with
  | declare var _ _ => exact ⟨_, _, rfl, .inl var⟩
  | label ident _ => exact ⟨_, _, rfl, .inr ident⟩
  | bare ident => exact ⟨_, _, rfl, .inr ident⟩
  | instr ident _ => exact ⟨_, _, rfl, .inr ident⟩

theorem Body.starts {ls : List Line} (h : Body ts ls rest) :
    ∃ t us, ts = t :: us ∧ (t.kind = .rbrace ∨ t.kind = .var ∨ t.kind = .ident) := by
  have starts {ln : Line} {vs : List Token} (spells : Line.Spells ts ln vs) :
      ∃ t us, ts = t :: us ∧ (t.kind = .rbrace ∨ t.kind = .var ∨ t.kind = .ident) := by
    obtain ⟨t, us, rfl, kind⟩ := spells.starts
    exact ⟨t, us, rfl, .inr kind⟩
  cases h with
  | close closes => exact ⟨_, _, rfl, .inl closes⟩
  | last spells _ => exact starts spells
  | more spells _ _ _ => exact starts spells

theorem Body.of_rbrace {c : Token} {ls : List Line} (h : Body (c :: ts) ls rest)
    (closes : c.kind = .rbrace) : ls = [] ∧ ts = rest := by
  have inside {ln : Line} {vs : List Token} (spells : Line.Spells (c :: ts) ln vs) : False := by
    obtain ⟨t, us, same, kind⟩ := spells.starts
    cases same
    rcases kind with h | h <;> cases closes.symm.trans h
  cases h with
  | close _ => exact ⟨rfl, rfl⟩
  | last spells _ => exact (inside spells).elim
  | more spells _ _ _ => exact (inside spells).elim

theorem Definitions.starts {ds : List Definition} (h : Definitions ts ds) :
    ts = [] ∨ ∃ t us, ts = t :: us ∧ t.kind = .func := by
  cases h with
  | done => exact .inl rfl
  | more spells _ _ =>
    cases spells with
    | mk func _ _ _ _ _ _ => exact .inr ⟨_, _, rfl, func⟩

end Grammar

end RegColor
