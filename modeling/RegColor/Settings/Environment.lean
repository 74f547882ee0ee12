import RegColor.Number.Integer
import RegColor.Settings.Basic

/-!
# Settings in the environment

Some settings have a variable in the environment that overlays them. A variable that is empty counts
as unset, and a number that cannot be read leaves the setting alone.
-/

namespace RegColor.Settings

/-- The name of the variable for a setting. -/
def variableName (setting : String) : String := "TIGERRA_" ++ setting

/-- The variables that are looked at. -/
def variableNames : List String :=
  ["TARGET", "REGISTERS", "ALLOCATOR", "OUT_DIR", "DEBUG"].map variableName

/-- The words that mean yes, in small letters. -/
def yesWords : List String :=
  ["1", "t", "y", "true", "yes", "enable", "enabled", "absolutely", "affirmative", "positive"]

/-- The three spellings of a word: small letters, a capital first, all capitals. -/
def spellings (word : String) : List String := [word, word.capitalize, word.toUpper]

/-- Whether a text means yes. -/
def meansYes (text : String) : Bool := text ∈ yesWords.flatMap spellings

/-- Overlays the variables that `get` knows. -/
def applyEnvironment (s : Settings) (get : String → Option String) : Settings :=
  let get (name : String) : Option String := (get (variableName name)).filter (· ≠ "")
  { s with
    target := (get "TARGET").getD s.target
    allocator := (get "ALLOCATOR").getD s.allocator
    outDir := (get "OUT_DIR").getD s.outDir
    registers := ((get "REGISTERS").bind Integer.readDecimal?).getD s.registers
    debug := ((get "DEBUG").map meansYes).getD s.debug }

end RegColor.Settings
