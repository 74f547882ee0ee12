import RegColor.Fault

/-!
# Targets

A target is the register table of a machine: the registers that carry arguments, and the general
purpose registers that coloring may hand out.
-/

namespace RegColor

/-- A family of processors. -/
inductive Arch where
  | mips
  | amd64
  | arm64
deriving DecidableEq, Repr

namespace Arch

def name : Arch → String
  | mips => "mips"
  | amd64 => "amd64"
  | arm64 => "arm64"

/-- The name of an architecture number. -/
def nameOfCode (code : Int) : String :=
  match code with
  | 0 => mips.name
  | 1 => amd64.name
  | 2 => arm64.name
  | _ => "unknown"

end Arch

/-- A register table. `wordSize` is the size in bytes of an argument slot in the frame. -/
structure Target where
  name : String
  arch : Arch := .mips
  wordSize : Int
  returnReg : String := ""
  stackPointer : String := ""
  framePointer : String := ""
  argRegs : List String
  gpRegs : List String
deriving DecidableEq, Repr

namespace Target

/-! ## Tables -/

def mips : Target where
  name := "mips"
  arch := .mips
  wordSize := 4
  returnReg := "$v0"
  stackPointer := "$sp"
  framePointer := "$fp"
  argRegs := ["$a0", "$a1", "$a2", "$a3"]
  gpRegs := ["$t0", "$t1", "$t2", "$t3", "$t4", "$t5", "$t6", "$t7", "$t8", "$t9"]

/-- The arguments follow the System V convention; the general purpose registers are those saved by
the callee and the scratch registers that carry no argument. -/
def amd64 : Target where
  name := "amd64"
  arch := .amd64
  wordSize := 8
  returnReg := "rax"
  stackPointer := "rsp"
  framePointer := "rbp"
  argRegs := ["rdi", "rsi", "rdx", "rcx", "r8", "r9"]
  gpRegs := ["rbx", "r10", "r11", "r12", "r13", "r14", "r15"]

def arm64 : Target where
  name := "arm64"
  arch := .arm64
  wordSize := 8
  returnReg := "x0"
  stackPointer := "sp"
  framePointer := "x29"
  argRegs := ["x0", "x1", "x2", "x3", "x4", "x5", "x6", "x7"]
  gpRegs := ["x9", "x10", "x11", "x12", "x13", "x14", "x15",
    "x19", "x20", "x21", "x22", "x23", "x24", "x25", "x26", "x27", "x28"]

instance : Inhabited Target := ⟨mips⟩

/-- The table of the machine that runs the allocator. -/
def host : Target := amd64

/-! ## Names -/

/-- The canonical names, in alphabetical order. -/
def names : List String := [Arch.amd64.name, Arch.arm64.name, Arch.mips.name]

/-- The target with a name or an alias. -/
def lookup (name : String) : Except Fault Target :=
  match name with
  | "mips" | "mipsle" | "mips32" => .ok mips
  | "amd64" | "x86_64" => .ok amd64
  | "arm64" | "aarch64" => .ok arm64
  | "host" => .ok host
  | _ => .error (.unknownTarget name names)

/-! ## Registers -/

/-- The number of colors. -/
def size (t : Target) : Nat := t.gpRegs.length

/-- The target with only its first `n` general purpose registers; any `n` that is not positive, and
any that is beyond the table, keeps them all. -/
def limit (t : Target) (n : Int) : Target :=
  if 0 < n ∧ n < t.size then { t with gpRegs := t.gpRegs.take n.toNat } else t

/-- The register that carries the argument at an offset in the frame, if one does. -/
def argReg? (t : Target) (offset : Int) : Option String :=
  if 0 < t.wordSize ∧ 0 ≤ offset then t.argRegs[(offset / t.wordSize).toNat]? else none

end Target

end RegColor
