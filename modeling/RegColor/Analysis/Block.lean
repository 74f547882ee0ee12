import RegColor.Listing.Basic

/-!
# Basic blocks

A block is a non-empty run of instructions. `Block.split` cuts code into blocks before every leader.
-/

namespace RegColor

/-- A non-empty run of instructions. -/
structure Block where
  leader : Instr
  others : List Instr := []
deriving DecidableEq, Repr

namespace Block

instance : Inhabited Block := ⟨⟨default, []⟩⟩

/-- The instructions of a block. -/
def instrs (b : Block) : List Instr := b.leader :: b.others

/-- The last instruction of a block. -/
def last (b : Block) : Instr := b.others.getLastD b.leader

/-- Cuts code before every instruction that is a leader. -/
def split (isLeader : Instr → Bool) : List Instr → List Block
  | [] => []
  | i :: is =>
    match split isLeader is with
    | [] => [⟨i, []⟩]
    | b :: bs => if isLeader b.leader then ⟨i, []⟩ :: b :: bs else ⟨i, b.instrs⟩ :: bs

/-- The blocks hold the code, no more and no less, and in order. -/
theorem flatMap_instrs_split (isLeader : Instr → Bool) (code : List Instr) :
    (split isLeader code).flatMap instrs = code := by
  induction code with
  | nil => rfl
  | cons i is ih =>
    unfold split
    split
    · next h =>
      rw [h] at ih
      simp [← ih, instrs]
    · next b bs h =>
      rw [h] at ih
      split <;> simp [← ih, instrs]

/-- The position of the block that an instruction leads. -/
def ledBy? (blocks : List Block) (i : InstrId) : Option Nat :=
  blocks.findIdx? (fun b => b.leader.id = i)

end Block

end RegColor
