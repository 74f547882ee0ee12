import RegColor.Fault
import RegColor.Symbol

/-!
# Listings

A listing is a table of symbols and a sequence of functions, each a flat sequence of three-address
instructions. It is built by adding symbols, functions, parameters, locals, labels and instructions.

A function may be cut back to its first instructions. The labels it has seen stay known, and
whatever refers to an instruction that was cut off goes on referring to that one, not to a later
instruction at the same position: instructions are told apart by `InstrId`.
-/

namespace RegColor

/-- The identity of an instruction within its function: its position, and how often the function had
been cut back before. -/
structure InstrId where
  index : Nat
  era : Nat
deriving DecidableEq, Repr, Inhabited

namespace InstrId

instance : Ord InstrId := ⟨compareLex (compareOn index) (compareOn era)⟩

instance : Std.TransOrd InstrId :=
  inferInstanceAs (Std.TransCmp (compareLex (compareOn index) (compareOn era)))

instance : Std.LawfulEqOrd InstrId where
  compare_self := Std.compare_self
  eq_of_compare {a b} h := by
    have h : compareLex (compareOn index) (compareOn era) a b = .eq := h
    simp only [compareLex_eq_eq, compareOn, Nat.compare_eq_eq] at h
    cases a; cases b; simp_all

end InstrId

/-- What an instruction does: it defines a label, or applies an operation to operands. -/
inductive Action where
  | label (symbol : SymbolId)
  | apply (op : Opcode) (operands : List SymbolId)
deriving DecidableEq, Repr

/-- An instruction. `line` is its source line, zero when it was not read from text. -/
structure Instr where
  id : InstrId
  action : Action
  line : Int
deriving DecidableEq, Repr

namespace Instr

instance : Inhabited Instr := ⟨⟨default, .apply .ret [], 0⟩⟩

def op (i : Instr) : Opcode :=
  match i.action with
  | .label _ => .label
  | .apply op _ => op

def operands (i : Instr) : List SymbolId :=
  match i.action with
  | .label _ => []
  | .apply _ operands => operands

/-- The label an instruction defines. -/
def label? (i : Instr) : Option SymbolId :=
  match i.action with
  | .label s => some s
  | .apply .. => none

def isLabel (i : Instr) : Bool := i.label?.isSome

/-- Whether control may go on to the next instruction. -/
def fallsThrough (i : Instr) : Bool := i.op ≠ .goto ∧ i.op ≠ .ret

theorem index_eq_of_nil (p : Nat) (i : Instr) (h : ([] : List Instr)[p]? = some i) :
    i.id.index = p := by
  cases h

end Instr

/-- A function: its symbol, its parameters, its other variables in the order of declaration, its
instructions, the first definition of every label it has seen, and how often it was cut back. An
instruction knows its position. -/
structure Function where
  symbol : SymbolId
  params : List SymbolId := []
  locals : List SymbolId := []
  code : List Instr := []
  labels : List (SymbolId × Instr) := []
  era : Nat := 0
  indexed : ∀ (p : Nat) (i : Instr), code[p]? = some i → i.id.index = p := by
    exact Instr.index_eq_of_nil
deriving DecidableEq, Repr

namespace Function

instance : Inhabited Function := ⟨{ symbol := 0 }⟩

/-- The identity of the next instruction. -/
def nextId (f : Function) : InstrId := ⟨f.code.length, f.era⟩

theorem indexed_append (f : Function) {i : Instr} (h : i.id.index = f.code.length) (p : Nat)
    (j : Instr) (hj : (f.code ++ [i])[p]? = some j) : j.id.index = p := by
  rcases Nat.lt_trichotomy p f.code.length with lt | rfl | gt
  · rw [List.getElem?_append_left lt] at hj
    exact f.indexed p j hj
  · rw [List.getElem?_concat_length] at hj
    cases hj
    exact h
  · rw [List.getElem?_eq_none (by simp; omega)] at hj
    cases hj

/-- Adds an instruction at the end. -/
def push (f : Function) (a : Action) (line : Int) : Function × Instr :=
  let i : Instr := ⟨f.nextId, a, line⟩
  let labels :=
    match a with
    | .label s => if (f.labels.lookup s).isSome then f.labels else f.labels ++ [(s, i)]
    | .apply .. => f.labels
  ({ f with code := f.code ++ [i], labels, indexed := f.indexed_append rfl }, i)

theorem getElem?_code_of_take (f : Function) {n p : Nat} {i : Instr}
    (h : (f.code.take n)[p]? = some i) : f.code[p]? = some i := by
  rw [List.getElem?_take] at h
  split at h
  · exact h
  · cases h

/-- Keeps the first `n` instructions. -/
def truncate (f : Function) (n : Nat) : Function :=
  { f with
    code := f.code.take n
    era := f.era + 1
    indexed p i h := f.indexed p i (f.getElem?_code_of_take h) }

end Function

/-- A listing: its symbols by number and its functions in order. -/
structure Listing where
  symbols : Array Symbol := #[]
  functions : List Function := []
deriving DecidableEq, Repr, Inhabited

namespace Listing

/-- The symbol with a number. -/
def symbol (l : Listing) (s : SymbolId) : Symbol := l.symbols.getD s default

/-- The text of a symbol. -/
def textOf (l : Listing) (s : SymbolId) : String := (l.symbol s).text

/-- The name of a function. -/
def nameOf (l : Listing) (f : Function) : String := (l.symbol f.symbol).name

def isConstant (l : Listing) (s : SymbolId) : Bool := (l.symbol s).isConstant

def isLabel (l : Listing) (s : SymbolId) : Bool := (l.symbol s).kind = .label

/-- The position of the first function with a name. -/
def find? (l : Listing) (name : String) : Option Nat :=
  l.functions.findIdx? (fun f => l.nameOf f = name)

/-- The position of the body of a function symbol: the function last added for it. -/
def bodyOf? (l : Listing) (s : SymbolId) : Option Nat :=
  (l.functions.reverse.findIdx? (·.symbol = s)).map (fun k => l.functions.length - 1 - k)

/-! ## Building -/

/-- Adds a symbol and gives its number. -/
def addSymbol (l : Listing) (s : Symbol) : Listing × SymbolId :=
  ({ l with symbols := l.symbols.push s }, l.symbols.size)

/-- Adds an empty body for a function symbol. -/
def addFunction (l : Listing) (s : SymbolId) : Except Fault Listing :=
  if (l.symbol s).kind = .function then
    .ok { l with functions := l.functions ++ [{ symbol := s }] }
  else .error (.notFunction (l.symbol s).name)

/-- Changes the function at position `k`. -/
def modifyFunction (l : Listing) (k : Nat) (g : Function → Function) : Listing :=
  { l with functions := l.functions.modify k g }

/-- Adds the next parameter of the function at position `k`. Its slot lies right after the slots of
the parameters before it, when they have the same size. -/
def addParam (l : Listing) (k : Nat) (name : String) (type : Option DataType) (wordSize : Int) :
    Listing × SymbolId :=
  let f := l.functions.getD k default
  let slot : FrameSlot := ⟨Word.wrap (f.params.length * wordSize), wordSize⟩
  let (l, s) := l.addSymbol
    { name, kind := .var, type, owner := some f.symbol, slot := some slot }
  (l.modifyFunction k (fun f => { f with params := f.params ++ [s] }), s)

/-- Adds a variable to the function at position `k`. -/
def addLocal (l : Listing) (k : Nat) (name : String) (type : Option DataType) :
    Listing × SymbolId :=
  let f := l.functions.getD k default
  let (l, s) := l.addSymbol { name, kind := .var, type, owner := some f.symbol }
  (l.modifyFunction k (fun f => { f with locals := f.locals ++ [s] }), s)

/-- Adds an instruction to the function at position `k`, whatever it is. -/
def push (l : Listing) (k : Nat) (a : Action) (line : Int) : Listing × Instr :=
  let i := ((l.functions.getD k default).push a line).2
  (l.modifyFunction k (fun f => (f.push a line).1), i)

/-- Adds an instruction to the function at position `k`. Every operand must be given. -/
def emit (l : Listing) (k : Nat) (op : Opcode) (operands : List (Option SymbolId)) (line : Int) :
    Except Fault (Listing × Instr) :=
  let name := l.nameOf (l.functions.getD k default)
  if op = .label then .error (.labelAsInstruction name)
  else
    match operands.findIdx? Option.isNone with
    | some p => .error (.absentOperand name op p)
    | none => .ok (l.push k (.apply op (operands.filterMap id)) line)

/-- Adds the definition of a label to the function at position `k`. -/
def emitLabel (l : Listing) (k : Nat) (s : Option SymbolId) (line : Int) :
    Except Fault (Listing × Instr) :=
  match s with
  | some s =>
    if l.isLabel s then .ok (l.push k (.label s) line)
    else .error (.notLabel (l.nameOf (l.functions.getD k default)))
  | none => .error (.notLabel (l.nameOf (l.functions.getD k default)))

/-! ## Labels and branches -/

/-- The first definition of a label in a function. -/
def labelInstr (l : Listing) (f : Function) (s : SymbolId) : Except Fault Instr :=
  if l.isLabel s then
    match f.labels.lookup s with
    | some i => .ok i
    | none => .error (.labelNotFound (l.nameOf f) (l.symbol s).name)
  else .error (.notLabelSymbol (l.nameOf f) (l.symbol s).name)

/-- Fails when an instruction has fewer or more operands than its operation takes. -/
def checkOperands (l : Listing) (f : Function) (i : Instr) : Except Fault Unit :=
  let n := i.operands.length
  if n < i.op.arity.min then .error (.missingOperand (l.nameOf f) i.op n)
  else if i.op.arity.accepts n then .ok ()
  else .error (.operandCount (l.nameOf f) i.op n)

/-- The label instruction that an instruction may branch to, if it branches at all. -/
def branchTarget (l : Listing) (f : Function) (i : Instr) : Except Fault (Option Instr) :=
  match i.op.targetPosition? with
  | none => .ok none
  | some p =>
    match i.operands[p]? with
    | none => .error (.missingOperand (l.nameOf f) i.op p)
    | some s => (l.labelInstr f s).map some

/-! ## Text -/

/-- The text of an instruction. -/
def instrText (l : Listing) (i : Instr) : String :=
  match i.action with
  | .label s => (l.symbol s).name ++ ":"
  | .apply op [] => op.name
  | .apply op operands => op.name ++ " " ++ ", ".intercalate (operands.map l.textOf)

/-- The line of an instruction in the text of a function: only labels are not indented. -/
def codeLine (isLabel : Bool) (text : String) : String :=
  (if isLabel then text else "  " ++ text) ++ "\n"

/-- The source text of a function. -/
def functionText (l : Listing) (f : Function) : String :=
  let params := ", ".intercalate (f.params.map (fun s => (l.symbol s).name))
  let lines := f.code.map (fun i => codeLine i.isLabel (l.instrText i))
  s!"func {l.nameOf f}({params}) \x7b\n" ++ String.join lines ++ "\x7d"

end Listing

end RegColor
