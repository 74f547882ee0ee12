import RegColor.Settings.Basic
import RegColor.Toml.Document

/-!
# Settings in a file

Settings are read from a TOML document whose keys are the names of the settings. Keys that are
absent leave their settings alone; any other key is an error.
-/

namespace RegColor.Settings

/-- The value of a key that has to be a string. -/
def stringOf (key : String) : Toml.Value → Except SettingsError String
  | .string s => .ok s
  | v => .error (.wrongType key "a string" v.typeName)

/-- The value of a key that has to be a boolean. -/
def booleanOf (key : String) : Toml.Value → Except SettingsError Bool
  | .boolean b => .ok b
  | v => .error (.wrongType key "a boolean" v.typeName)

/-- The value of a key that has to be an integer. -/
def integerOf (key : String) : Toml.Value → Except SettingsError Int
  | .integer n => .ok n
  | v => .error (.wrongType key "an integer" v.typeName)

/-- Overlays one key of a document. -/
def mergeKey (s : Settings) (entry : String × Toml.Value) : Except SettingsError Settings :=
  let (key, v) := entry
  match key with
  | "target" => (stringOf key v).map (fun target => { s with target })
  | "allocator" => (stringOf key v).map (fun allocator => { s with allocator })
  | "out-dir" => (stringOf key v).map (fun outDir => { s with outDir })
  | "registers" => (integerOf key v).map (fun registers => { s with registers })
  | "dot-cfg" => (booleanOf key v).map (fun dotFlow => { s with dotFlow })
  | "dot-web" => (booleanOf key v).map (fun dotWebs => { s with dotWebs })
  | "cfg-liveness" => (booleanOf key v).map (fun flowLiveness => { s with flowLiveness })
  | "debug" => (booleanOf key v).map (fun debug => { s with debug })
  | _ => .error (.unknownKey key)

/-- Overlays a document. -/
def merge (s : Settings) (document : String) : Except SettingsError Settings :=
  match Toml.read document with
  | none => .error .notToml
  | some table => table.foldlM mergeKey s

/-- The settings as a document, keys in alphabetical order. -/
def document (s : Settings) : String :=
  String.join <| List.map (fun (key, v) => s!"{key} = {v}\n")
    [("allocator", Toml.quote s.allocator),
      ("cfg-liveness", toString s.flowLiveness),
      ("debug", toString s.debug),
      ("dot-cfg", toString s.dotFlow),
      ("dot-web", toString s.dotWebs),
      ("out-dir", Toml.quote s.outDir),
      ("registers", toString s.registers),
      ("target", Toml.quote s.target)]

end RegColor.Settings
