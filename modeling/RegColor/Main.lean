import RegColor.Command.Run

/-!
# The program

The command over the files of the machine.
-/

namespace RegColor

/-- Why a file operation of the machine failed. -/
def problemOf : IO.Error → FileProblem
  | .noFileOrDirectory .. => .missing
  | .alreadyExists .. => .present
  | .inappropriateType _ code _ => if code = 21 then .isDirectory else .notDirectory
  | .invalidArgument _ code _ => if code = 36 then .nameTooLong else .invalid
  | e => .other (toString e)

/-- Runs a file operation of the machine. -/
def attemptFile {α ε : Type} (act : IO α) (error : FileProblem → ε) : IO (Except ε α) := do
  try
    return .ok (← act)
  catch e =>
    return .error (error (problemOf e))

/-- What stands at a path of the machine: reading a directory fails in a way of its own. -/
def machineKind (path : String) : IO (Except FileProblem FileKind) := do
  match ← attemptFile (IO.FS.readBinFile path) id with
  | .ok _ => return .ok .file
  | .error .isDirectory => return .ok .directory
  | .error p => return .error p

/-- The file operations on the files of the machine. -/
def machineFiles : FileAccess IO where
  read path :=
    attemptFile (IO.FS.readBinFile path) fun p =>
      if p = .isDirectory then .reading path p else .opening path p
  kind := machineKind
  makeDirectory path := attemptFile (IO.FS.createDir path) id
  write path content := attemptFile (IO.FS.writeFile path content) id

/-- An event as a line of a log. -/
def Event.line (e : Event) : String :=
  let field : String × FieldValue → String
    | (key, .text s) => s!" {key}={s}"
    | (key, .number n) => s!" {key}={n}"
  s!"level={e.level.name} msg={Text.quote e.message}" ++ String.join (e.fields.map field)

end RegColor

open RegColor in
/-- The entry point. -/
def main (args : List String) : IO UInt32 := do
  let names := Command.descriptionsVariable :: Settings.variableNames
  let values ← names.mapM (fun name => return (name, ← IO.getEnv name))
  let env (name : String) : Option String := (values.lookup name).join
  let outcome ← Command.run machineFiles env args
  let stderr ← IO.getStderr
  for e in outcome.log do
    stderr.putStrLn e.line
  stderr.putStr outcome.stderr
  (← IO.getStdout).putStr outcome.stdout
  match outcome.failure with
  | none => return 0
  | some e =>
    stderr.putStrLn s!"Error: {e.message}"
    return 1
