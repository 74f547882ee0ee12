import RegColor.Opcode
import RegColor.Text.Quote

/-!
# Faults

Why an operation on a listing, on its analyses or on an allocator fails. An *internal* fault means
that a listing is malformed or that a stage ran before the ones it needs. An *invalid argument* is a
name that nothing answers to. An *undefined* operation has no answer at all for its arguments.
-/

namespace RegColor

/-- An operation outside its domain. -/
inductive Undefined where
  | missingSymbol
  | noOperands
  | noLiveSets
  | noFlowGraph
  | colorBelowSpill
  | outOfRange
  | missingVertex
deriving DecidableEq, Repr

/-- The classes of faults. -/
inductive FaultKind where
  | internal
  | invalidArgument
  | undefined
deriving DecidableEq, Repr

/-- The cause of a failure. Functions, symbols and instructions are named by their texts. -/
inductive Fault where
  | notFunction (symbol : String)
  | labelAsInstruction (function : String)
  | absentOperand (function : String) (op : Opcode) (position : Nat)
  | notLabel (function : String)
  | notLabelSymbol (function symbol : String)
  | labelNotFound (function symbol : String)
  | missingOperand (function : String) (op : Opcode) (position : Nat)
  | operandCount (function : String) (op : Opcode) (count : Nat)
  | emptyFunction (function : String)
  | noBlock (function leader : String)
  | branchIn (function : String) (block : Nat) (cause : Fault)
  | noLiveSets (function : String) (block : Nat)
  | noOpenWeb (function symbol instr : String)
  | noWebLeaves (function symbol : String) (entered left : Nat)
  | colorBeyond (function web : String) (color : Int) (registers : Nat)
  | allocating (function : String) (cause : Fault)
  | unknownAllocator (name : String)
  | unknownTarget (name : String) (known : List String)
  | undefined (cause : Undefined)
deriving DecidableEq, Repr

namespace Fault

/-- The class of a fault; a fault met on the way keeps its own. -/
def kind : Fault → FaultKind
  | branchIn _ _ cause => cause.kind
  | allocating _ cause => cause.kind
  | unknownAllocator _ => .invalidArgument
  | unknownTarget .. => .invalidArgument
  | undefined _ => .undefined
  | _ => .internal

/-- The text of a fault up to its class. -/
def body : Fault → String
  | notFunction s => s!"{Text.quote s} is not a function symbol"
  | labelAsInstruction f => s!"{f}: label emitted as instruction"
  | absentOperand f op k => s!"{f}: {op.name} operand {k} is nil"
  | notLabel f => s!"{f}: not a label symbol"
  | notLabelSymbol f s => s!"{f}: {Text.quote s} is not a label symbol"
  | labelNotFound f s => s!"{f}: label {Text.quote s} not found"
  | missingOperand f op k => s!"{f}: {op.name} is missing operand {k}"
  | operandCount f op n => s!"{f}: {op.name} takes {op.arity.text}, got {n}"
  | emptyFunction f => s!"{f}: empty function"
  | noBlock f leader => s!"{f}: no block for leader {Text.quote leader}"
  | branchIn f b cause => s!"{f}: branch in B{b}: {cause.body}"
  | noLiveSets f b => s!"{f}: no live sets for B{b}"
  | noOpenWeb f s i => s!"{f}: {s} is live at {Text.quote i} but has no open web"
  | noWebLeaves f s entered left => s!"{f}: {s} enters B{entered} but no web leaves B{left}"
  | colorBeyond f w color n => s!"{f}: web {w} colored {color} with {n} registers"
  | allocating f cause => s!"allocating {f}: {cause.body}"
  | unknownAllocator name => s!"unknown register allocator {Text.quote name}"
  | unknownTarget name known =>
    s!"unknown target {Text.quote name} (known: [" ++ " ".intercalate known ++ "])"
  | undefined _ => "undefined operation"

/-- The full text of a fault. -/
def message (f : Fault) : String :=
  match f.kind with
  | .internal => f.body ++ ": internal"
  | .invalidArgument => f.body ++ ": invalid argument"
  | .undefined => f.body

end Fault

end RegColor
