import RegColor.Coloring
import RegColor.Target
import RegColor.Web.Build

/-!
# Allocators

An allocator answers one question: which register holds a symbol at an instruction. The naive one
keeps arguments in the registers that bring them and all else in memory. The coloring one, `Palette`,
hands out the general purpose registers by coloring the webs of each function.

A palette shares the webs it has recorded with whoever built them: writing the places of one result
shows in every holder of it, whether the writing succeeds or stops half way.
-/

namespace RegColor

/-- An allocator that colors webs: its target and the webs of the functions allocated so far, by the
position of the function. -/
structure Palette where
  target : Target
  recorded : OrdMap Nat Webs := ∅

namespace Palette

instance : Inhabited Palette := ⟨{ target := default }⟩

/-! ## Assigning registers -/

/-- The place for a color; `-1` means memory. -/
def placeOf (t : Target) (l : Listing) (f : Function) (w : Web) (color : Int) :
    Except Fault (Option Place) :=
  if color = -1 then .ok none
  else if t.size ≤ color then .error (.colorBeyond (l.nameOf f) (w.text l) color t.size)
  else if color < 0 then .error (.undefined .colorBelowSpill)
  else .ok (some ⟨color.toNat, t.gpRegs.getD color.toNat ""⟩)

/-- Writes the places of webs in order, up to the first color that has none. That web is left in
memory and the webs after it are left as they are. -/
def placeAll (t : Target) (l : Listing) (f : Function) (color : Int → Int) :
    List Web → List Web × Option Fault
  | [] => ([], none)
  | w :: ws =>
    match placeOf t l f w (color w.id) with
    | .error e => ({ w with place := none } :: ws, some e)
    | .ok place =>
      let (ws, fault) := placeAll t l f color ws
      ({ w with place } :: ws, fault)

/-- Records a result for its function. -/
def record (p : Palette) (r : Webs) : Palette :=
  { p with recorded := p.recorded.insert r.function r }

/-- Whether a result is the one recorded for its function. -/
def holds (p : Palette) (r : Webs) : Bool :=
  (p.recorded.get? r.function).any (·.serial = r.serial)

/-- Writes the places that a coloring gives and records the result. After a failure a result that
had been recorded before shows what was written up to there. -/
def assign (p : Palette) (l : Listing) (r : Webs) (color : Int → Int) :
    Palette × Webs × Option Fault :=
  let f := l.functions.getD r.function default
  let (webs, fault) := placeAll p.target l f color r.webs
  let r' := { r with webs }
  (if fault.isNone || p.holds r then p.record r' else p, r', fault)

/-- Builds the webs of the function at position `k`, colors them and records the result. The live
sets must be final. -/
def allocate (p : Palette) (l : Listing) (as : List Annotation) (k serial : Nat) :
    Except Fault (Palette × Webs × Coloring.Result) := do
  let r ← Webs.build l as k serial
  let coloring := Coloring.color r.graph r.cost p.target.size
  match p.assign l r coloring.color with
  | (p, r, none) => .ok (p, r, coloring)
  | (_, _, some e) => .error e

/-! ## Answers -/

/-- The recorded webs of a function. -/
def webs? (p : Palette) (k : Nat) : Option Webs := p.recorded.get? k

/-- The variables of a function with a web left in memory. -/
def spilled (p : Palette) (k : Nat) : List SymbolId :=
  match p.webs? k with
  | some r => r.spilled.toList
  | none => []

end Palette

/-- An allocator. -/
inductive Allocator where
  | coloring (palette : Palette)
  | naive (target : Target)

namespace Allocator

instance : Inhabited Allocator := ⟨.naive default⟩

/-- The allocator with a name; no name means coloring. -/
def ofName (name : String) (t : Target) : Except Fault Allocator :=
  match name with
  | "briggs" | "" => .ok (.coloring { target := t })
  | "naive" => .ok (.naive t)
  | _ => .error (.unknownAllocator name)

def target : Allocator → Target
  | coloring p => p.target
  | naive t => t

/-- The register that brings an argument. -/
def argument? (t : Target) (y : Symbol) : Option String :=
  y.slot.bind (fun slot => t.argReg? slot.offset)

/-- The register of a symbol at an instruction, given by the position of its function and its
identity. Away from any instruction only arguments have registers. -/
def resolve (a : Allocator) (l : Listing) (s : SymbolId) (point : Option (Nat × InstrId)) :
    Option String :=
  let y := l.symbol s
  match a with
  | naive t => argument? t y
  | coloring p =>
    if y.isArgument then argument? p.target y
    else do
      let (k, i) ← point
      let r ← p.webs? k
      let w ← r.lookup? s i
      let place ← w.place
      return place.register

/-- An operand with its place at an instruction: variables show their register or memory. -/
def operandText (a : Allocator) (l : Listing) (point : Option (Nat × InstrId)) (s : SymbolId) :
    String :=
  match (l.symbol s).kind with
  | .var => (l.symbol s).name ++ "@" ++ ((a.resolve l s point).getD "mem")
  | _ => l.textOf s

/-- The text of the function at position `k` with the place of every variable. -/
def functionText (a : Allocator) (l : Listing) (k : Nat) (f : Function) : String :=
  let params := ", ".intercalate (f.params.map (a.operandText l none))
  let line (i : Instr) : String :=
    match i.action with
    | .label _ => Listing.codeLine true (l.instrText i)
    | .apply op [] => Listing.codeLine false op.name
    | .apply op operands =>
      Listing.codeLine false
        (op.name ++ " " ++ ", ".intercalate (operands.map (a.operandText l (some (k, i.id)))))
  s!"func {l.nameOf f}({params}) \x7b\n" ++ String.join (f.code.map line) ++ "\x7d"

/-- The text of a listing with the place of every variable. -/
def listingText (a : Allocator) (l : Listing) : String :=
  "\n\n".intercalate (l.functions.zipIdx.map (fun (f, k) => a.functionText l k f)) ++ "\n"

end Allocator

end RegColor
