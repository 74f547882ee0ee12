/-!
# Opcodes

The operations of a listing, their mnemonics and codes, and how many operands each one takes. A code
without an operation stays a code: it takes no operands.
-/

namespace RegColor

/-- The arithmetic and logic operations, `op dst, lhs, rhs`. -/
inductive ArithOp where
  | add
  | sub
  | mul
  | div
  | and
  | or
deriving DecidableEq, Repr

/-- The comparisons of the conditional branches, `op lhs, rhs, label`. -/
inductive Comparison where
  | eq
  | ne
  | lt
  | gt
  | ge
  | le
deriving DecidableEq, Repr

/-- The operation of an instruction. -/
inductive Opcode where
  | label
  | assign
  | arrinit
  | load
  | store
  | arith (op : ArithOp)
  | goto
  | branch (cmp : Comparison)
  | ret
  | call
  | unnamed (code : Int)
deriving DecidableEq, Repr

namespace Opcode

/-- The operations with a mnemonic, in the order of their codes. -/
def named : List Opcode :=
  [label, assign, arrinit, load, store,
    arith .add, arith .sub, arith .mul, arith .div, arith .and, arith .or,
    goto, branch .eq, branch .ne, branch .lt, branch .gt, branch .ge, branch .le, ret, call]

/-- The operation with a given code. -/
def ofCode (code : Int) : Opcode :=
  if code < 0 then unnamed code else named.getD code.toNat (unnamed code)

/-- The code of an operation. -/
def code : Opcode → Int
  | label => 0
  | assign => 1
  | arrinit => 2
  | load => 3
  | store => 4
  | arith .add => 5
  | arith .sub => 6
  | arith .mul => 7
  | arith .div => 8
  | arith .and => 9
  | arith .or => 10
  | goto => 11
  | branch .eq => 12
  | branch .ne => 13
  | branch .lt => 14
  | branch .gt => 15
  | branch .ge => 16
  | branch .le => 17
  | ret => 18
  | call => 19
  | unnamed code => code

/-- The mnemonic, or a text made of the code. -/
def name : Opcode → String
  | label => "label"
  | assign => "assign"
  | arrinit => "arrinit"
  | load => "load"
  | store => "store"
  | arith .add => "add"
  | arith .sub => "sub"
  | arith .mul => "mul"
  | arith .div => "div"
  | arith .and => "and"
  | arith .or => "or"
  | goto => "goto"
  | branch .eq => "beq"
  | branch .ne => "bne"
  | branch .lt => "blt"
  | branch .gt => "bgt"
  | branch .ge => "bge"
  | branch .le => "ble"
  | ret => "return"
  | call => "call"
  | unnamed code => s!"op_{code}"

/-- The operations that an instruction can be written with. A label has its own spelling. -/
def spelled : List Opcode := named.filter (· ≠ label)

/-- The operation with a mnemonic. -/
def ofName? (name : String) : Option Opcode := spelled.find? (·.name = name)

theorem mem_spelled_of_ofName? {name : String} {op : Opcode} (h : ofName? name = some op) :
    op ∈ spelled :=
  List.mem_of_find?_eq_some h

/-- Whether this is an arithmetic or logic operation. -/
def isArith : Opcode → Bool
  | arith _ => true
  | _ => false

/-- Whether this is a conditional branch. -/
def isBranch : Opcode → Bool
  | branch _ => true
  | _ => false

/-- The position of the operand that names a branch target. -/
def targetPosition? : Opcode → Option Nat
  | goto => some 0
  | branch _ => some 2
  | _ => none

end Opcode

/-- A range of operand counts, without a limit when `max` is missing. -/
structure Arity where
  min : Nat
  max : Option Nat
deriving DecidableEq, Repr

namespace Arity

/-- Exactly `n` operands. -/
def exactly (n : Nat) : Arity := ⟨n, some n⟩

/-- Whether `n` operands are in the range. -/
def accepts (a : Arity) (n : Int) : Bool :=
  a.min ≤ n && a.max.all (fun m => n ≤ m)

/-- The range in words. -/
def text (a : Arity) : String :=
  match a.max with
  | none => s!"at least {a.min} operand(s)"
  | some m => if a.min = m then s!"{m} operand(s)" else s!"{a.min} to {m} operand(s)"

end Arity

/-- How many operands an operation takes. -/
def Opcode.arity : Opcode → Arity
  | .label => .exactly 0
  | .assign => .exactly 2
  | .arrinit | .load | .store => .exactly 3
  | .arith _ | .branch _ => .exactly 3
  | .goto => .exactly 1
  | .ret => ⟨0, some 1⟩
  | .call => ⟨2, none⟩
  | .unnamed _ => .exactly 0

end RegColor
