import RegColor.Allocator
import RegColor.Number.Shortest

/-!
# Reports

What the allocation of a function came to: the size of the problem, the variables left in memory,
and how the spill costs of the webs are distributed.
-/

namespace RegColor

/-!
## Statistics

The three figures of a report are those of a statistics library, and two things are assumed of it.
It answers with no number where there is nothing to summarize, and its sums are exact, so that a
figure is rounded once, at the end. The second holds while the costs and the sums of them that it
makes on the way stay within the `53` bits of a double's significand.
-/

namespace Statistic

/-- The mean of integers; no number when there are none. -/
def mean (ns : List Int) : Double :=
  let total := ns.foldl (· + ·) 0
  if ns.isEmpty then .nan else .ofRatio (total < 0) total.natAbs ns.length

/-- The middle one of integers in order, or the mean of the two in the middle. -/
def median (ns : List Int) : Double :=
  let sorted := ns.mergeSort
  let half := ns.length / 2
  if ns.length % 2 = 1 then mean ((sorted.drop half).take 1)
  else mean ((sorted.drop (half - 1)).take 2)

/-- The largest of integers. -/
def max (ns : List Int) : Double :=
  match ns.max? with
  | some n => .ofInt n
  | none => .nan

end Statistic

/-! ## Reports -/

/-- The outcome of the allocation of a function. `spillBytes` is the frame space that the spilled
variables take. -/
structure Report where
  name : String
  blocks : Nat
  webs : Nat
  interferences : Nat
  attempts : Nat
  spilled : List String
  spillBytes : Int
  mean : Double
  median : Double
  max : Double
deriving DecidableEq

namespace Report

/-- The report on a function from its colored webs. -/
def ofWebs (l : Listing) (f : Function) (blocks attempts : Nat) (wordSize : Int) (r : Webs) :
    Report :=
  let spilled := r.spilled.toList.map l.symbol
  let costs := r.webs.map Web.cost
  { name := l.nameOf f
    blocks
    webs := r.webs.length
    interferences := r.graph.edgeCount
    attempts
    spilled := spilled.map Symbol.name
    spillBytes := spilled.foldl (fun n y => Word.wrap (n + y.memorySize wordSize)) 0
    mean := Statistic.mean costs
    median := Statistic.median costs
    max := Statistic.max costs }

/-- Pads a text with blanks on the right. -/
def pad (width : Nat) (s : String) : String :=
  s ++ String.ofList (List.replicate (width - s.length) ' ')

/-- The line of a report in a summary. -/
def text (r : Report) : String :=
  let spilled := if r.spilled.isEmpty then "-" else ",".intercalate r.spilled
  s!"{pad 12 r.name} blocks={r.blocks} webs={r.webs} edges={r.interferences} " ++
    s!"attempts={r.attempts} cost(mean={r.mean.fixed 2} median={r.median.fixed 2} " ++
    s!"max={r.max.fixed 0}) spilled={spilled} ({r.spillBytes} bytes)\n"

end Report

end RegColor
