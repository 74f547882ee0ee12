import RegColor.Opcode
import RegColor.Symbol
import RegColor.Token.Basic

/-!
# Items

The items of a listing's source text, in the order in which they stand: functions, parameters,
declarations, labels and instructions, and between them the errors of the text. Names are not
resolved yet.
-/

namespace RegColor

/-- What the grammar asks for at a place. -/
inductive Expected where
  | func
  | functionName
  | openParams
  | paramName
  | closeParams
  | typeName
  | arrayLength
  | closeBracket
  | openBody
  | closeBody
  | variableName
  | operand
  | line
  | endOfLine
deriving DecidableEq, Repr

/-- The wording of an expectation. -/
def Expected.text : Expected → String
  | func => "expected 'func'"
  | functionName => "expected function name"
  | openParams => "expected '(' after function name"
  | paramName => "expected parameter name"
  | closeParams => "expected ')' after parameters"
  | typeName => "expected type name"
  | arrayLength => "expected array length"
  | closeBracket => "expected ']' after array length"
  | openBody => "expected '\x7b' to open function body"
  | closeBody => "expected '\x7d' to close function body"
  | variableName => "expected variable name"
  | operand => "expected operand"
  | line => "expected instruction, label or declaration"
  | endOfLine => "expected end of line"

/-- What is wrong with a source text. -/
inductive SyntaxFault where
  | unexpected (what : Expected) (kind : TokenKind) (value : String)
  | unknownType (name : String)
  | badLength (text : String)
  | unknownOpcode (name : String)
  | badInteger (text : String)
  | badFloat (text : String)
  | minusOnName
  | functionTwice (name : String)
  | parameterTwice (name : String)
  | variableTwice (name : String)
deriving DecidableEq, Repr

def SyntaxFault.message : SyntaxFault → String
  | unexpected what kind value => s!"{what.text} (got {kind.name} {Text.quote value})"
  | unknownType name => s!"unknown type {Text.quote name}"
  | badLength text => s!"invalid array length {Text.quote text}"
  | unknownOpcode name => s!"unknown opcode {Text.quote name}"
  | badInteger text => s!"invalid integer {Text.quote text}"
  | badFloat text => s!"invalid float {Text.quote text}"
  | minusOnName => "'-' only applies to numeric literals"
  | functionTwice name => s!"function {Text.quote name} defined twice"
  | parameterTwice name => s!"parameter {Text.quote name} declared twice"
  | variableTwice name => s!"variable {Text.quote name} declared twice"

/-- A fault of a source text and its place. -/
structure ParseError where
  fault : SyntaxFault
  line : Int
  column : Int
deriving DecidableEq, Repr

namespace ParseError

/-- A fault at a token. -/
def atToken (t : Token) (fault : SyntaxFault) : ParseError := ⟨fault, t.line, t.column⟩

def message (e : ParseError) : String := e.fault.message

/-- The full text of the report. -/
def text (e : ParseError) : String := s!"line {e.line}, col {e.column}: {e.message}"

end ParseError

/-- An operand before names are resolved. -/
inductive Operand where
  | int (value : Int)
  | float (value : Double)
  | name (name : String)
deriving DecidableEq, Repr

/-- One item of a source text. An instruction has an operation that can be written; one with a faulty
operand is `abandoned`: the operands before the fault have been named, but there is no
instruction. -/
inductive Item where
  | error (e : ParseError)
  | function (name : Token)
  | param (name : Token) (type : DataType)
  | returns (type : DataType)
  | declare (names : List Token) (type : DataType)
  | label (name : Token)
  | instr (op : Opcode) (operands : List Operand) (line : Int) (spelled : op ∈ Opcode.spelled)
  | abandoned (op : Opcode) (operands : List Operand)
deriving DecidableEq, Repr

end RegColor
