import RegColor.Allocation.Report
import RegColor.Listing.Check

/-!
# Allocating a listing

`Listing.allocate` takes a listing through all stages: the check, control flow, liveness, then webs
and coloring function by function, and last the choice of the allocator that answers. Webs are
colored for the naive allocator too. A run also tells what happened on the way, and leaves behind
the annotations of the stages it went through.
-/

namespace RegColor

/-! ## Events -/

/-- How much an event matters. -/
inductive Level where
  | debug
  | info
  | warning
deriving DecidableEq, Repr

def Level.name : Level → String
  | debug => "debug"
  | info => "info"
  | warning => "warning"

/-- The value of a field of an event. -/
inductive FieldValue where
  | text (s : String)
  | number (n : Nat)
deriving DecidableEq, Repr

/-- What happens during a run. -/
inductive Event where
  | warned (d : Diagnostic)
  | buildingFlow (functions : Nat)
  | growing (sweep : Nat)
  | settled (functions sweeps : Nat)
  | allocated (report : Report)
deriving DecidableEq

namespace Event

def level : Event → Level
  | warned _ => .warning
  | allocated _ => .info
  | _ => .debug

def message : Event → String
  | warned d => d.text
  | buildingFlow _ => "building control flow graphs"
  | growing _ => "liveness: sets still growing"
  | settled .. => "liveness: fixpoint reached"
  | allocated _ => "registers allocated"

def fields : Event → List (String × FieldValue)
  | warned d => [("func", .text d.function)]
  | buildingFlow n => [("funcs", .number n)]
  | growing k => [("sweep", .number k)]
  | settled n k => [("funcs", .number n), ("sweeps", .number k)]
  | allocated r =>
    [("attempts", .number r.attempts), ("func", .text r.name),
      ("spilled", .number r.spilled.length), ("webs", .number r.webs)]

end Event

/-! ## Runs -/

/-- What to allocate for: a target, `mips` when none is given, and the name of an allocator. -/
structure Options where
  target : Option Target := none
  allocator : String := "briggs"

/-- Why a listing could not be allocated: the check rejects it, or a stage fails. -/
inductive AllocationError where
  | rejected (diagnostics : List Diagnostic)
  | fault (cause : Fault)
deriving DecidableEq

/-- The text of an allocation error. -/
def AllocationError.message : AllocationError → String
  | rejected ds =>
    "invalid listing: " ++ "; ".intercalate ((ds.filter Diagnostic.isError).map Diagnostic.text)
  | fault e => e.message

/-- The outcome for a listing. The palette holds the webs of every function, whichever allocator
was chosen. -/
structure Allocation where
  target : Target
  allocator : Allocator
  palette : Palette
  diagnostics : List Diagnostic
  sweeps : Nat
  reports : List Report

/-- One line per function. -/
def Allocation.summary (a : Allocation) : String := String.join (a.reports.map Report.text)

/-- A run: the annotations it leaves, what happened, and how it ended. -/
structure AllocationRun where
  annotations : List Annotation
  events : List Event
  outcome : Except AllocationError Allocation

namespace Listing

variable (l : Listing)

/-- Allocates the functions at positions `ks` in order. A failure is returned with the reports made
before it. -/
def allocateFunctions (as : List Annotation) (serial : Nat) (p : Palette) :
    List Nat → Palette × List Report × Option Fault
  | [] => (p, [], none)
  | k :: ks =>
    let f := l.functions.getD k default
    match p.allocate l as k (serial + k) with
    | .error e => (p, [], some (.allocating (l.nameOf f) e))
    | .ok (p, r, coloring) =>
      let report :=
        Report.ofWebs l f (as.getD k default).blocks.length coloring.attempts p.target.wordSize r
      let (p, reports, fault) := allocateFunctions as serial p ks
      (p, report :: reports, fault)

/-- The allocator with a name; coloring answers from a palette that is already there. -/
def chooseAllocator (name : String) (p : Palette) : Except Fault Allocator :=
  match Allocator.ofName name p.target with
  | .ok (.coloring _) => .ok (.coloring p)
  | other => other

/-- The events of liveness that took a number of sweeps. -/
def livenessEvents (sweeps : Nat) : List Event :=
  (List.range (sweeps - 1)).map (fun k => .growing (k + 1)) ++
    [.settled l.functions.length sweeps]

/-- Takes a listing through all stages, starting from annotations that earlier runs may have left.
The webs of the function at position `k` get the serial number `serial + k`. -/
def allocate (o : Options) (as : List Annotation) (serial : Nat) : AllocationRun :=
  let target := o.target.getD .mips
  match l.check with
  | .error e => ⟨as, [], .error (.fault e)⟩
  | .ok diagnostics =>
    let warnings := (diagnostics.filter (!·.isError)).map Event.warned
    if diagnostics.any Diagnostic.isError then ⟨as, warnings, .error (.rejected diagnostics)⟩
    else
      let events := warnings ++ [.buildingFlow l.functions.length]
      match l.buildFlows l.functions as with
      | (as, some e) => ⟨as, events, .error (.fault e)⟩
      | (as, none) =>
        match Liveness.run l (Liveness.start as) with
        | .error e => ⟨Liveness.start as, events, .error (.fault e)⟩
        | .ok (as, sweeps) =>
          let (palette, reports, fault) :=
            l.allocateFunctions as serial { target } (List.range l.functions.length)
          let events := events ++ l.livenessEvents sweeps ++ reports.map Event.allocated
          match fault with
          | some e => ⟨as, events, .error (.fault e)⟩
          | none =>
            match chooseAllocator o.allocator palette with
            | .error e => ⟨as, events, .error (.fault e)⟩
            | .ok allocator =>
              ⟨as, events, .ok { target, allocator, palette, diagnostics, sweeps, reports }⟩

end Listing

end RegColor
