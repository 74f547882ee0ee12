import RegColor.Listing.Access

/-!
# Checking a listing

`Listing.check` reports what is wrong with a listing before any analysis runs on it. An error means
that the listing cannot be allocated; a warning does not stop anything. All findings of a listing
are reported, function by function and in the order of the code.
-/

namespace RegColor

/-- How bad a finding is. -/
inductive Severity where
  | error
  | warning
deriving DecidableEq, Repr

namespace Severity

def name : Severity → String
  | error => "error"
  | warning => "warning"

/-- The name of a severity number. -/
def nameOfCode (code : Int) : String :=
  match code with
  | 0 => error.name
  | 1 => warning.name
  | _ => "unknown"

end Severity

/-- What the check found. Symbols are given by their text and the name of their class. -/
inductive Finding where
  | functionTwice (name : String)
  | noInstructions
  | labelTwice (name : String) (line : Int)
  | operandCount (op : Opcode) (count : Nat)
  | writesNonVariable (op : Opcode) (cls text : String)
  | writesForeign (op : Opcode) (text : String)
  | targetNotLabel (op : Opcode) (text cls : String)
  | calleeNotFunction (text cls : String)
  | readsForeign (op : Opcode) (text : String)
  | notValue (op : Opcode) (text cls : String)
  | undefinedLabel (name : String)
  | argumentCount (name : String) (given wanted : Nat)
  | notArray (op : Opcode) (text : String)
  | unusedLabel (name : String)
  | noReturn
deriving DecidableEq, Repr

namespace Finding

def severity : Finding → Severity
  | argumentCount .. | notArray .. | unusedLabel _ | noReturn => .warning
  | _ => .error

def message : Finding → String
  | functionTwice name => s!"function {Text.quote name} defined more than once"
  | noInstructions => "function has no instructions"
  | labelTwice name line => s!"label {Text.quote name} already defined (line {line})"
  | operandCount op n => s!"{op.name} takes {op.arity.text}, got {n}"
  | writesNonVariable op cls text => s!"{op.name} cannot write to {cls} {Text.quote text}"
  | writesForeign op text => s!"{op.name} writes {Text.quote text}, which belongs to another function"
  | targetNotLabel op text cls => s!"{op.name} target {Text.quote text} is a {cls}, not a label"
  | calleeNotFunction text cls => s!"call target {Text.quote text} is a {cls}, not a function"
  | readsForeign op text => s!"{op.name} reads {Text.quote text}, which belongs to another function"
  | notValue op text cls => s!"{op.name} operand {Text.quote text} is a {cls}, not a value"
  | undefinedLabel name => s!"branch to undefined label {Text.quote name}"
  | argumentCount name given wanted =>
    s!"call to {Text.quote name} passes {given} argument(s), it takes {wanted}"
  | notArray op text => s!"{op.name} on {Text.quote text}, which is not declared as an array"
  | unusedLabel name => s!"label {Text.quote name} is never branched to"
  | noReturn => "control reaches the end of the function without a return"

end Finding

/-- A finding about a function and the source line it belongs to, zero for none. -/
structure Diagnostic where
  finding : Finding
  function : String
  line : Int
deriving DecidableEq, Repr

namespace Diagnostic

def severity (d : Diagnostic) : Severity := d.finding.severity

def message (d : Diagnostic) : String := d.finding.message

def isError (d : Diagnostic) : Bool := d.severity = .error

/-- The full text of the report. -/
def text (d : Diagnostic) : String :=
  let place := if 0 < d.line then s!"{d.function}, line {d.line}" else d.function
  s!"{place}: {d.severity.name}: {d.message}"

end Diagnostic

namespace Listing

variable (l : Listing) (f : Function)

/-! ## Operands -/

/-- A value is a constant or a variable of the function. -/
def checkValue (op : Opcode) (s : SymbolId) : List Finding :=
  let y := l.symbol s
  if y.isConstant then []
  else if y.kind = .var then
    if y.owner = some f.symbol then [] else [.readsForeign op y.text]
  else [.notValue op y.text y.kind.className]

/-- An array is a value; a variable should be declared as one. -/
def checkArray (op : Opcode) (s : SymbolId) : List Finding :=
  let y := l.symbol s
  l.checkValue f op s ++ if y.kind = .var ∧ !y.isArray then [.notArray op y.text] else []

/-- Only a variable of the function can be written. -/
def checkDef (op : Opcode) (s : SymbolId) : List Finding :=
  let y := l.symbol s
  if y.kind ≠ .var then [.writesNonVariable op y.kind.className y.text]
  else if y.owner = some f.symbol then []
  else [.writesForeign op y.text]

/-- A branch target is a label. -/
def checkTarget (op : Opcode) (s : SymbolId) : List Finding :=
  let y := l.symbol s
  if y.kind = .label then [] else [.targetNotLabel op y.text y.kind.className]

/-- A callee is a function; one with a body should get as many arguments as it has parameters. -/
def checkCall (callee : SymbolId) (args : List SymbolId) : List Finding :=
  let y := l.symbol callee
  if y.kind = .function then
    let arity : List Finding :=
      match l.bodyOf? callee with
      | none => []
      | some k =>
        let wanted := (l.functions.getD k default).params.length
        if args.length = wanted then [] else [.argumentCount y.name args.length wanted]
    args.flatMap (l.checkValue f .call) ++ arity
  else [.calleeNotFunction y.text y.kind.className]

/-- The findings about the operands that an instruction does not write. An operation without a name
has nothing to look at and may not stand without operands. -/
def checkReads (op : Opcode) (operands : List SymbolId) : Except Fault (List Finding) :=
  match op, operands with
  | .goto, s :: _ => .ok (l.checkTarget op s)
  | .branch _, a :: b :: s :: _ =>
    .ok (l.checkValue f op a ++ l.checkValue f op b ++ l.checkTarget op s)
  | .call, _ :: callee :: args => .ok (l.checkCall f callee args)
  | .load, _ :: arr :: index :: _ => .ok (l.checkArray f op arr ++ l.checkValue f op index)
  | .store, arr :: values => .ok (l.checkArray f op arr ++ values.flatMap (l.checkValue f op))
  | .arrinit, arr :: values => .ok (l.checkArray f op arr ++ values.flatMap (l.checkValue f op))
  | .ret, values => .ok (values.flatMap (l.checkValue f op))
  | _, _ :: values => .ok (values.flatMap (l.checkValue f op))
  | _, [] => .error (.undefined .noOperands)

/-- The findings about an instruction that is not a label. -/
def checkInstr (i : Instr) : Except Fault (List Finding) :=
  if i.op.arity.accepts i.operands.length then
    (l.checkReads f i.op i.operands).map (i.defs.flatMap (l.checkDef f i.op) ++ ·)
  else .ok [.operandCount i.op i.operands.length]

/-! ## Functions -/

/-- The first definition of a label among some instructions. -/
def definition? (code : List Instr) (s : SymbolId) : Option Instr :=
  code.find? (fun i => i.label? = some s)

/-- The label that an instruction with the right number of operands branches to. -/
def targetLabel? (i : Instr) : Option SymbolId :=
  if i.op.arity.accepts i.operands.length then
    (i.op.targetPosition?.bind (i.operands[·]?)).filter l.isLabel
  else none

/-- The findings about an instruction, `before` being those before it. -/
def checkNext (before : List Instr) (i : Instr) : Except Fault (List Finding) :=
  match i.label? with
  | some s =>
    match definition? before s with
    | some first => .ok [.labelTwice (l.symbol s).name first.line]
    | none => .ok []
  | none => l.checkInstr f i

/-- The findings about the instructions from one on, `before` being those before it. -/
def checkCode (before : List Instr) : List Instr → Except Fault (List Diagnostic)
  | [] => .ok []
  | i :: is =>
    match l.checkNext f before i with
    | .error e => .error e
    | .ok here =>
      (checkCode (before ++ [i]) is).map (here.map (⟨·, l.nameOf f, i.line⟩) ++ ·)

/-- The labels defined but never branched to, each at its first definition. -/
def unusedLabels : List Diagnostic :=
  f.code.filterMap fun i =>
    match i.label? with
    | some s =>
      if f.code.any (fun j => l.targetLabel? j = some s) ∨ definition? f.code s ≠ some i then none
      else some ⟨.unusedLabel (l.symbol s).name, l.nameOf f, i.line⟩
    | none => none

/-- The labels branched to but never defined, in the order of their numbers, each at the first
branch to it. -/
def undefinedLabels : List Diagnostic :=
  (OrdSet.ofList (f.code.filterMap l.targetLabel?)).toList.filterMap fun s =>
    match definition? f.code s, f.code.find? (fun i => l.targetLabel? i = some s) with
    | none, some i => some ⟨.undefinedLabel (l.symbol s).name, l.nameOf f, i.line⟩
    | _, _ => none

/-- The finding that control runs past the last instruction. -/
def missingReturn : List Diagnostic :=
  match f.code.getLast? with
  | some i => if i.fallsThrough then [⟨.noReturn, l.nameOf f, i.line⟩] else []
  | none => []

/-- The findings about a function. -/
def checkFunction : Except Fault (List Diagnostic) :=
  if f.code.isEmpty then .ok [⟨.noInstructions, l.nameOf f, 0⟩]
  else
    (l.checkCode f [] f.code).map
      (· ++ l.unusedLabels f ++ l.undefinedLabels f ++ l.missingReturn f)

/-- The findings about some functions, `seen` being the names before them. -/
def checkFunctions (seen : List String) : List Function → Except Fault (List Diagnostic)
  | [] => .ok []
  | f :: fs =>
    let name := l.nameOf f
    let twice : List Diagnostic := if name ∈ seen then [⟨.functionTwice name, name, 0⟩] else []
    match l.checkFunction f with
    | .error e => .error e
    | .ok ds => (checkFunctions (seen ++ [name]) fs).map (twice ++ ds ++ ·)

/-- The findings about a listing. -/
def check : Except Fault (List Diagnostic) := l.checkFunctions [] l.functions

end Listing

end RegColor
