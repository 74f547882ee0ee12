import RegColor.Data.OrdSet
import RegColor.Listing.Basic

/-!
# Webs

A web is one live range of one variable: the instructions at which a value of the variable is live
or written, and what it would cost to keep that value in memory.
-/

namespace RegColor

/-- The register of a web: its color and its name. -/
structure Place where
  color : Nat
  register : String
deriving DecidableEq, Repr

/-- A live range of a variable. A web without a place is left in memory. -/
structure Web where
  id : Nat
  symbol : SymbolId
  range : OrdSet InstrId := ∅
  cost : Int := 0
  place : Option Place := none
deriving DecidableEq

namespace Web

instance : Inhabited Web := ⟨{ id := 0, symbol := 0 }⟩

/-- Whether a web is left in memory. -/
def spilled (w : Web) : Bool := w.place.isNone

/-- Adds an instruction to the range. -/
def extend (w : Web) (i : InstrId) : Web := { w with range := w.range.insert i }

/-- Counts one more access. -/
def charge (w : Web) : Web := { w with cost := Word.wrap (w.cost + 1) }

/-- Takes over the range and the cost of another web. -/
def absorb (w other : Web) : Web :=
  { w with range := w.range.union other.range, cost := Word.wrap (w.cost + other.cost) }

/-- The text of a web: its variable and its cost. -/
def text (l : Listing) (w : Web) : String := s!"{l.textOf w.symbol}: {w.cost}"

/-- The text of a web and where it is kept. -/
def label (l : Listing) (w : Web) : String :=
  match w.place with
  | some p => s!"{w.text l} {p.register}"
  | none => s!"{w.text l} spill"

end Web

end RegColor
