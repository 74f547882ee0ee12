import RegColor.Number.Shortest
import RegColor.Number.Word

/-!
# Symbols

A symbol is what an operand of an instruction names: a variable, a function, a label or a constant.
Symbols are numbered in the order of their creation and referred to by that number.
-/

namespace RegColor

/-- The types without parts. -/
inductive ScalarType where
  | void
  | int
  | float
deriving DecidableEq, Repr

namespace ScalarType

def name : ScalarType → String
  | void => "void"
  | int => "int"
  | float => "float"

def ofName? (name : String) : Option ScalarType :=
  [void, int, float].find? (·.name = name)

end ScalarType

/-- The type of a symbol. -/
inductive DataType where
  | scalar (t : ScalarType)
  | array (elem : ScalarType) (length : Int)
deriving DecidableEq, Repr

namespace DataType

def name : DataType → String
  | scalar t => t.name
  | array t n => s!"{t.name}[{n}]"

def isArray : DataType → Bool
  | scalar _ => false
  | array .. => true

end DataType

/-- The number of a symbol. -/
abbrev SymbolId := Nat

/-- What a symbol names. A class number without a meaning stays a number. -/
inductive SymbolKind where
  | var
  | typeName
  | function
  | int (value : Int)
  | float (value : Double)
  | label
  | unnamed (code : Int)
deriving DecidableEq, Repr

namespace SymbolKind

/-- The name of the class a symbol belongs to. -/
def className : SymbolKind → String
  | var => "var"
  | typeName => "type"
  | function => "func"
  | int _ => "iconst"
  | float _ => "fconst"
  | label => "label"
  | unnamed code => s!"class_{code}"

/-- The kind with a class number; the values are for constants. -/
def ofCode (code intValue : Int) (floatValue : Double) : SymbolKind :=
  match code with
  | 0 => var
  | 1 => typeName
  | 2 => function
  | 3 => int intValue
  | 4 => float floatValue
  | 5 => label
  | _ => unnamed code

def isConstant : SymbolKind → Bool
  | int _ | float _ => true
  | _ => false

end SymbolKind

/-- The place of an argument in its function's frame, in bytes. -/
structure FrameSlot where
  offset : Int
  size : Int
deriving DecidableEq, Repr

/-- A named entity. `owner` is the function symbol a variable or label belongs to; `slot` is present
for arguments only. -/
structure Symbol where
  name : String
  kind : SymbolKind
  type : Option DataType
  owner : Option SymbolId := none
  slot : Option FrameSlot := none
deriving DecidableEq, Repr

namespace Symbol

instance : Inhabited Symbol := ⟨{ name := "", kind := .var, type := none }⟩

def isConstant (s : Symbol) : Bool := s.kind.isConstant

def isArgument (s : Symbol) : Bool := s.slot.isSome

def isArray (s : Symbol) : Bool := s.type.any DataType.isArray

/-- The text of a symbol in a listing: the value of a constant, the name of anything else. -/
def text (s : Symbol) : String :=
  match s.kind with
  | .int v => toString v
  | .float x => x.text
  | _ => s.name

/-- The bytes a symbol takes in a frame whose words have the given size. -/
def memorySize (s : Symbol) (wordSize : Int) : Int :=
  match s.type with
  | some (.array _ n) => Word.wrap (n * wordSize)
  | _ => wordSize

end Symbol

end RegColor
