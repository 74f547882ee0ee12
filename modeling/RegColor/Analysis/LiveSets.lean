import RegColor.Analysis.Block
import RegColor.Data.OrdMap
import RegColor.Data.OrdSet

/-!
# Live sets

The sets of symbols that are live before and after each instruction of a function. Within a block
the set after an instruction and the set before the next one are the same set, kept once.
-/

namespace RegColor

/-- A set of symbols. -/
abbrev SymbolSet := OrdSet SymbolId

/-- The live sets of a function. `slots` gives the position of the set before an instruction; the
set after it stands at the next position. -/
structure LiveSets where
  slots : OrdMap InstrId Nat := ∅
  sets : Array SymbolSet := #[]
deriving DecidableEq

namespace LiveSets

instance : Inhabited LiveSets := ⟨{}⟩

/-- Numbers the instructions of a block from `slot` on. -/
def number (slot : Nat) : List Instr → List (InstrId × Nat)
  | [] => []
  | i :: is => (i.id, slot) :: number (slot + 1) is

/-- Numbers the instructions of blocks, leaving one position after each block for its last set. -/
def numberBlocks (slot : Nat) : List Block → List (InstrId × Nat)
  | [] => []
  | b :: bs => number slot b.instrs ++ numberBlocks (slot + b.instrs.length + 1) bs

/-- The number of positions that blocks take. -/
def slotCount (blocks : List Block) : Nat :=
  blocks.foldr (fun b n => b.instrs.length + 1 + n) 0

/-- Empty live sets for the instructions of blocks. -/
def ofBlocks (blocks : List Block) : LiveSets where
  slots := OrdMap.ofList (numberBlocks 0 blocks)
  sets := Array.replicate (slotCount blocks) ∅

/-- The number of sets. -/
def size (s : LiveSets) : Nat := s.sets.size

/-- The set before an instruction. -/
def before? (s : LiveSets) (i : InstrId) : Option SymbolSet :=
  (s.slots.get? i).bind (s.sets[·]?)

/-- The set after an instruction. -/
def after? (s : LiveSets) (i : InstrId) : Option SymbolSet :=
  (s.slots.get? i).bind (fun k => s.sets[k + 1]?)

/-- Adds symbols to the set at a position. -/
def grow (s : LiveSets) (slot : Nat) (new : SymbolSet) : LiveSets :=
  { s with sets := s.sets.modify slot (·.union new) }

/-- Adds symbols to the set before an instruction. -/
def growBefore (s : LiveSets) (i : InstrId) (new : SymbolSet) : LiveSets :=
  match s.slots.get? i with
  | some k => s.grow k new
  | none => s

/-- Adds symbols to the set after an instruction. -/
def growAfter (s : LiveSets) (i : InstrId) (new : SymbolSet) : LiveSets :=
  match s.slots.get? i with
  | some k => s.grow (k + 1) new
  | none => s

end LiveSets

/-- The members of a set in the order of their numbers, between the given brackets. -/
def Listing.setText (l : Listing) (left right : String) (s : SymbolSet) : String :=
  left ++ ", ".intercalate (s.toList.map l.textOf) ++ right

end RegColor
