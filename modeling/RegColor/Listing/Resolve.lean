import RegColor.Item.Read
import RegColor.Listing.Basic
import RegColor.Token.Scan

/-!
# From source text to listings

`Listing.ofTokens` resolves the names of the items of a token sequence and builds the listing.
Functions are known in the whole text, so a call may name a function that is defined later.
Variables, labels and constants belong to one function body: a variable that was not declared is an
integer local from where it is first named, and equal constants are one symbol.

`Listing.parse` reads a source text and succeeds only if there is nothing to report.
-/

namespace RegColor

/-- The symbols of one function body by name or value. Float constants go by their text. -/
structure Scope where
  vars : List (String × SymbolId) := []
  labels : List (String × SymbolId) := []
  ints : List (Int × SymbolId) := []
  floats : List (String × SymbolId) := []

/-- A listing under construction. The last function is the one being built. -/
structure Builder where
  wordSize : Int
  listing : Listing := {}
  functions : List (String × SymbolId) := []
  scope : Scope := {}
  errors : List ParseError := []

namespace Builder

/-- The position of the function being built. -/
def current (b : Builder) : Nat := b.listing.functions.length - 1

/-- The symbol of the function being built. -/
def owner (b : Builder) : SymbolId := (b.listing.functions.getD b.current default).symbol

def report (b : Builder) (e : ParseError) : Builder := { b with errors := b.errors ++ [e] }

/-! ## Names -/

/-- The symbol of a function, new if the name is. -/
def functionSymbol (b : Builder) (name : String) : Builder × SymbolId :=
  match b.functions.lookup name with
  | some s => (b, s)
  | none =>
    let (l, s) := b.listing.addSymbol { name, kind := .function, type := some (.scalar .void) }
    ({ b with listing := l, functions := b.functions ++ [(name, s)] }, s)

/-- The symbol of a label of the current function, new if the name is. -/
def labelSymbol (b : Builder) (name : String) : Builder × SymbolId :=
  match b.scope.labels.lookup name with
  | some s => (b, s)
  | none =>
    let (l, s) := b.listing.addSymbol
      { name, kind := .label, type := none, owner := some b.owner }
    ({ b with listing := l, scope := { b.scope with labels := b.scope.labels ++ [(name, s)] } }, s)

/-- Declares a variable of the current function. -/
def declareLocal (b : Builder) (name : String) (type : DataType) : Builder × SymbolId :=
  let (l, s) := b.listing.addLocal b.current name (some type)
  ({ b with listing := l, scope := { b.scope with vars := b.scope.vars ++ [(name, s)] } }, s)

/-- The variable with a name, an integer local if it is new. -/
def varSymbol (b : Builder) (name : String) : Builder × SymbolId :=
  match b.scope.vars.lookup name with
  | some s => (b, s)
  | none => b.declareLocal name (.scalar .int)

/-- The symbol of an integer constant. -/
def intSymbol (b : Builder) (v : Int) : Builder × SymbolId :=
  match b.scope.ints.lookup v with
  | some s => (b, s)
  | none =>
    let (l, s) := b.listing.addSymbol
      { name := toString v, kind := .int v, type := some (.scalar .int) }
    ({ b with listing := l, scope := { b.scope with ints := b.scope.ints ++ [(v, s)] } }, s)

/-- The symbol of a float constant. -/
def floatSymbol (b : Builder) (x : Double) : Builder × SymbolId :=
  match b.scope.floats.lookup x.text with
  | some s => (b, s)
  | none =>
    let (l, s) := b.listing.addSymbol
      { name := x.text, kind := .float x, type := some (.scalar .float) }
    ({ b with listing := l, scope := { b.scope with floats := b.scope.floats ++ [(x.text, s)] } }, s)

/-! ## Items -/

/-- The symbol of the operand at position `k`: a branch target names a label, the second operand of
a call a function, any other name a variable. -/
def operand (b : Builder) (op : Opcode) (k : Nat) : Operand → Builder × SymbolId
  | .int v => b.intSymbol v
  | .float x => b.floatSymbol x
  | .name name =>
    if op.targetPosition? = some k then b.labelSymbol name
    else if op = .call ∧ k = 1 then b.functionSymbol name
    else b.varSymbol name

/-- The symbols of the operands from position `k` on. -/
def operands (b : Builder) (op : Opcode) (k : Nat) : List Operand → Builder × List SymbolId
  | [] => (b, [])
  | o :: os =>
    let (b, s) := b.operand op k o
    let (b, ss) := b.operands op (k + 1) os
    (b, s :: ss)

/-- Adds an instruction to the current function. -/
def push (b : Builder) (a : Action) (line : Int) : Builder :=
  { b with listing := (b.listing.push b.current a line).1 }

/-- Starts the function with a name. A second body for a name is reported and kept. -/
def startFunction (b : Builder) (t : Token) : Builder :=
  let (b, s) := b.functionSymbol t.value
  let b := if (b.listing.bodyOf? s).isSome then b.report (.atToken t (.functionTwice t.value)) else b
  { b with
    listing := { b.listing with functions := b.listing.functions ++ [{ symbol := s }] }
    scope := {} }

/-- Sets the result type of the current function. -/
def setResult (b : Builder) (type : DataType) : Builder :=
  { b with
    listing := { b.listing with
      symbols := b.listing.symbols.modify b.owner (fun s => { s with type := some type }) } }

/-- Adds a parameter to the current function. -/
def addParam (b : Builder) (t : Token) (type : DataType) : Builder :=
  if (b.scope.vars.lookup t.value).isSome then b.report (.atToken t (.parameterTwice t.value))
  else
    let (l, s) := b.listing.addParam b.current t.value (some type) b.wordSize
    { b with listing := l, scope := { b.scope with vars := b.scope.vars ++ [(t.value, s)] } }

/-- Declares a variable, unless the name is taken. -/
def addVariable (b : Builder) (type : DataType) (t : Token) : Builder :=
  if (b.scope.vars.lookup t.value).isSome then b.report (.atToken t (.variableTwice t.value))
  else (b.declareLocal t.value type).1

/-- Adds one item. -/
def add (b : Builder) : Item → Builder
  | .error e => b.report e
  | .function t => b.startFunction t
  | .param t type => b.addParam t type
  | .returns type => b.setResult type
  | .declare names type => names.foldl (fun b t => b.addVariable type t) b
  | .label t =>
    let (b, s) := b.labelSymbol t.value
    b.push (.label s) t.line
  | .instr op os line _ =>
    let (b, ss) := b.operands op 0 os
    b.push (.apply op ss) line
  | .abandoned op os => (b.operands op 0 os).1

/-- Introduces every function that a token sequence names after the keyword. -/
def declareFunctions (b : Builder) : List Token → Builder
  | [] => b
  | [_] => b
  | t :: u :: ts =>
    if t.kind = .func ∧ u.kind = .ident then (b.functionSymbol u.value).1.declareFunctions (u :: ts)
    else b.declareFunctions (u :: ts)

end Builder

/-- What is wrong with a source text: its unknown characters, or else its other errors. -/
structure SourceError where
  unknown : List UnknownChar
  parse : List ParseError
deriving DecidableEq, Repr

namespace SourceError

/-- The texts of all reports. -/
def texts (e : SourceError) : List String :=
  e.unknown.map UnknownChar.text ++ e.parse.map ParseError.text

def message (e : SourceError) : String := "; ".intercalate e.texts

end SourceError

namespace Listing

/-- The listing of a token sequence, as far as it goes, and the errors in it. -/
def ofTokens (wordSize : Int) (tokens : List Token) : Listing × List ParseError :=
  let start : Builder := { wordSize }
  let b := (Item.ofTokens tokens).foldl Builder.add (start.declareFunctions tokens)
  (b.listing, b.errors)

/-- The listing of a source text without errors. -/
def parse (wordSize : Int) (source : List Char) : Except SourceError Listing :=
  let scanned := tokenize source
  if scanned.unknown.isEmpty then
    let (l, errors) := ofTokens wordSize scanned.tokens
    if errors.isEmpty then .ok l else .error ⟨[], errors⟩
  else .error ⟨scanned.unknown, []⟩

end Listing

end RegColor
