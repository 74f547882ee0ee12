import RegColor.Data.OrdSet
import RegColor.Listing.Basic

/-!
# What an instruction writes and reads

`Instr.defs` is the symbol an instruction writes. `Instr.reads` lists the operands it reads by
position; the value that a `store` or an `arrinit` puts into an array at operand 1 or 2 counts only
where the table below says so. `Listing.uses` adds, for a call, the variables that are live on entry
to the callee and are not its arguments, and leaves out constants and repetitions.

| operation | writes | reads |
|---|---|---|
| assign | 0 | 1 |
| arithmetic | 0 | 1, 2 |
| load | 0 | 2 |
| call | 0 | 2 and on |
| arrinit | | 1 |
| store | | 0, 2 |
| conditional branch | | 0, 1 |
| return | | 0 |
-/

namespace RegColor

namespace Opcode

/-- Whether operand 0 is written. -/
def writesFirst : Opcode → Bool
  | .assign | .arith _ | .call | .load => true
  | _ => false

/-- The operands that an operation reads. -/
def readsOf {α : Type} (op : Opcode) (operands : List α) : List α :=
  let operand (k : Nat) : List α := operands[k]?.toList
  match op with
  | .assign | .arrinit => operand 1
  | .arith _ => operand 1 ++ operand 2
  | .store => operand 0 ++ operand 2
  | .branch _ => operand 0 ++ operand 1
  | .ret => operand 0
  | .call => operands.drop 2
  | .load => operand 2
  | .label | .goto | .unnamed _ => []

end Opcode

namespace Instr

/-- The symbol an instruction writes, if any. -/
def defs (i : Instr) : List SymbolId := if i.op.writesFirst then i.operands.take 1 else []

/-- The operands an instruction reads, constants included. -/
def reads (i : Instr) : List SymbolId := i.op.readsOf i.operands

/-- The callee of a call. -/
def callee? (i : Instr) : Option SymbolId := if i.op = .call then i.operands[1]? else none

end Instr

namespace Listing

/-- The variables a call reads because its callee does, given what is live on entry to each
function. -/
def calleeReads (l : Listing) (entry : Nat → List SymbolId) (i : Instr) : List SymbolId :=
  match i.callee?.bind l.bodyOf? with
  | some k => (entry k).filter (fun s => !(l.symbol s).isArgument)
  | none => []

/-- The distinct symbols an instruction reads, in the order in which it first names them. -/
def uses (l : Listing) (entry : Nat → List SymbolId) (i : Instr) : List SymbolId :=
  ((i.reads ++ l.calleeReads entry i).filter (fun s => !l.isConstant s)).eraseDups

/-- Whether a symbol is a variable of a function that is not an argument. Only these are given
registers by coloring. -/
def isLocal (l : Listing) (f : Function) (s : SymbolId) : Bool :=
  (l.symbol s).kind = .var && !(l.symbol s).isArgument && (l.symbol s).owner = some f.symbol

end Listing

end RegColor
