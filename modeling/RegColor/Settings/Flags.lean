import RegColor.Flag.Basic
import RegColor.Settings.Basic

/-!
# Settings on the command line

The flags that set settings. Only the flags that are given change anything, and the last one wins.
-/

namespace RegColor.Settings

/-- The flags for settings. -/
def flags : List Flag :=
  let initial : Settings := {}
  [{ name := "target", kind := .text, initial := initial.target
     about := "target register set (" ++ "|".intercalate (Target.names ++ ["host"]) ++ ")" },
    { name := "registers", kind := .number
      about := "number of general purpose registers to color with (0 = all)" },
    { name := "ralloc", kind := .text, initial := initial.allocator
      about := "register allocation mode (briggs|naive)" },
    { name := "dot-cfg", kind := .switch
      about := "emit the CFG of every function as a dot file" },
    { name := "dot-web", kind := .switch
      about := "emit the web interference graph of every function as a dot file" },
    { name := "cfg-liveness", kind := .switch
      about := "include liveness sets in CFG output" },
    { name := "out-dir", letter := some 'o', kind := .text
      about := "directory for generated files (default: next to the input)" },
    { name := "debug", letter := some 'D', kind := .switch, about := "enable debug logging" }]

/-- Overlays one flag; other flags are left alone. -/
def applyFlag (s : Settings) : Flag.Setting → Settings
  | ("target", .text target) => { s with target }
  | ("ralloc", .text allocator) => { s with allocator }
  | ("out-dir", .text outDir) => { s with outDir }
  | ("registers", .number registers) => { s with registers }
  | ("dot-cfg", .switch dotFlow) => { s with dotFlow }
  | ("dot-web", .switch dotWebs) => { s with dotWebs }
  | ("cfg-liveness", .switch flowLiveness) => { s with flowLiveness }
  | ("debug", .switch debug) => { s with debug }
  | _ => s

/-- Overlays flags in the order given. -/
def applyFlags (s : Settings) (given : List Flag.Setting) : Settings := given.foldl applyFlag s

end RegColor.Settings
