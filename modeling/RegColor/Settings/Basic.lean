import RegColor.Target

/-!
# Settings

What a run can be told: the target and how many of its registers to use, the allocator, which graphs
to write and where. Settings are layered: the defaults, then a file, then the environment, then the
flags of the command line.
-/

namespace RegColor

/-- The settings of a run. `registers` limits the registers handed out; zero uses them all. -/
structure Settings where
  target : String := "mips"
  registers : Int := 0
  allocator : String := "briggs"
  dotFlow : Bool := false
  dotWebs : Bool := false
  flowLiveness : Bool := false
  outDir : String := ""
  debug : Bool := false
deriving DecidableEq, Repr

/-- What is wrong with settings or with a document of settings. -/
inductive SettingsError where
  | livenessWithoutFlow
  | negativeRegisters (n : Int)
  | fault (cause : Fault)
  | notToml
  | wrongType (key wanted given : String)
  | unknownKey (key : String)
deriving DecidableEq, Repr

/-- The text of a settings error. -/
def SettingsError.message : SettingsError → String
  | livenessWithoutFlow => "--cfg-liveness cannot be used without --dot-cfg: invalid argument"
  | negativeRegisters n => s!"registers must not be negative, got {n}: invalid argument"
  | fault e => e.message
  | notToml => "invalid config"
  | wrongType key wanted given =>
    s!"config key {Text.quote key} must be {wanted}, got {given}: invalid argument"
  | unknownKey key => s!"unknown config key {Text.quote key}: invalid argument"

namespace Settings

instance : Inhabited Settings := ⟨{}⟩

/-- The target with the registers that the settings leave it. -/
def resolveTarget (s : Settings) : Except Fault Target :=
  (Target.lookup s.target).map (·.limit s.registers)

/-- Rejects settings that do not fit together; the first fault found is reported. -/
def validate (s : Settings) : Except SettingsError Unit :=
  if s.flowLiveness && !s.dotFlow then .error .livenessWithoutFlow
  else if s.registers < 0 then .error (.negativeRegisters s.registers)
  else if s.allocator ≠ "briggs" ∧ s.allocator ≠ "naive" then
    .error (.fault (.unknownAllocator s.allocator))
  else
    match Target.lookup s.target with
    | .error e => .error (.fault e)
    | .ok _ => .ok ()

end Settings

end RegColor
