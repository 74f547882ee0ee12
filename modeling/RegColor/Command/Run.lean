import RegColor.Allocation.Run
import RegColor.Command.Files
import RegColor.Command.Help
import RegColor.Command.Suggest
import RegColor.Dot
import RegColor.Listing.Resolve
import RegColor.Settings.Environment
import RegColor.Settings.File

/-!
# The command

`Command.run` is the whole command over any `FileAccess`: it reads the arguments, layers the
settings, allocates the listing in a file, writes the graphs that are asked for and gives the texts
for the two output streams.
-/

namespace RegColor

namespace Command

/-! ## Failures -/

/-- Why the command fails. -/
inductive Failure where
  | usage (cause : UsageError)
  | readingConfig (cause : FileError)
  | config (path : String) (cause : SettingsError)
  | settings (cause : SettingsError)
  | readingSource (cause : FileError)
  | source (path : String)
  | allocation (cause : AllocationError)
  | outputDirectory (cause : FileError)
  | writing (path : String) (cause : FileError)

/-- The text of a failure. -/
def Failure.message : Failure → String
  | usage e => e.message
  | readingConfig e => s!"reading config: {e.message}"
  | config path e => s!"{path}: {e.message}"
  | settings e => e.message
  | readingSource e => s!"could not read file: {e.message}"
  | source path => s!"{path}: stopped due to syntax errors"
  | allocation e => e.message
  | outputDirectory e => s!"creating output directory: {e.message}"
  | writing path e => s!"writing {path}: {e.message}"

/-- What the command leaves: the texts of its output streams, what to log, and why it failed, if it
did. -/
structure Outcome where
  stdout : String := ""
  stderr : String := ""
  log : List Event := []
  failure : Option Failure := none

/-! ## Running -/

/-- The graphs that settings ask for, with the names of their files. -/
def graphs (s : Settings) (l : Listing) (as : List Annotation) (p : Palette) :
    List (String × String) :=
  l.functions.zipIdx.flatMap fun (f, k) =>
    let flow := (Dot.flowFile (l.nameOf f), Dot.flow l f (as.getD k default) s.flowLiveness)
    let webs :=
      (p.webs? k).map (fun r => (Dot.interferenceFile (l.nameOf f), Dot.interference l r))
    (if s.dotFlow then [flow] else []) ++ (if s.dotWebs then webs.toList else [])

/-- Lines about a file. -/
def about (path : String) (texts : List String) : String :=
  String.join (texts.map (fun t => s!"{path}:{t}\n"))

/-- The events to log: debug events only when settings ask for them. -/
def logged (s : Settings) (events : List Event) : List Event :=
  events.filter (fun e => s.debug || e.level ≠ .debug)

section

variable {m : Type → Type} [Monad m] (fs : FileAccess m)

/-- The settings of a request: the defaults, the file, the environment, then the flags. -/
def settingsOf (env : String → Option String) (r : Request) : m (Except Failure Settings) := do
  let base : Except Failure Settings ←
    match r.config with
    | none => pure (.ok {})
    | some path =>
      match ← fs.read path with
      | .error e => pure (.error (.readingConfig e))
      | .ok bytes =>
        match String.fromUTF8? bytes with
        | none => pure (.error (.config path .notToml))
        | some text =>
          match Settings.merge {} text with
          | .ok s => pure (.ok s)
          | .error e => pure (.error (.config path e))
  match base with
  | .error e => return .error e
  | .ok s =>
    let s := (s.applyEnvironment env).applyFlags r.given
    match s.validate with
    | .ok () => return .ok s
    | .error e => return .error (.settings e)

/-- Writes files in order, up to the first failure. -/
def writeAll : List (String × String) → m (Option Failure)
  | [] => return none
  | (path, text) :: more => do
    match ← fs.replace path text with
    | .error e => return some (.writing path e)
    | .ok () => writeAll more

/-- Makes the directory for the graphs, if there is one to make, and gives its path. -/
def outputDirectory (s : Settings) (path : String) : m (Except Failure String) := do
  if s.outDir = "" then return .ok (Path.parent path)
  else
    match ← fs.makeDirectories (Path.chain s.outDir.length s.outDir) with
    | .error e => return .error (.outputDirectory e)
    | .ok () => return .ok s.outDir

/-- Allocates the listing in a file. -/
def allocateFile (s : Settings) (path : String) (summary : Bool) : m Outcome := do
  match s.resolveTarget with
  | .error e => return { failure := some (.settings (.fault e)) }
  | .ok target =>
    match ← fs.read path with
    | .error e => return { failure := some (.readingSource e) }
    | .ok bytes =>
      match Listing.parse target.wordSize (sourceOfBytes bytes.toList) with
      | .error e =>
        return { stderr := about path e.texts, failure := some (.source path) }
      | .ok l =>
        let run := l.allocate { target := some target, allocator := s.allocator }
          l.freshAnnotations 0
        let log := logged s run.events
        match run.outcome with
        | .error e =>
          let found :=
            match e with
            | .rejected ds => ds.map Diagnostic.text
            | .fault _ => []
          return { stderr := about path found, log, failure := some (.allocation e) }
        | .ok a =>
          let found := about path (a.diagnostics.map Diagnostic.text)
          match ← outputDirectory fs s path with
          | .error e => return { stderr := found, log, failure := some e }
          | .ok dir =>
            let wanted := (graphs s l run.annotations a.palette).map
              (fun (file, text) => (Path.join dir file, text))
            match ← writeAll fs wanted with
            | some e => return { stderr := found, log, failure := some e }
            | none =>
              return {
                stdout := a.allocator.listingText l
                stderr := found ++ (if summary then a.summary else "")
                log }

/-- Runs the command. The completion script of every shell is empty: arguments are names of files,
which a shell completes by itself. -/
def run (env : String → Option String) (args : List String) : m Outcome := do
  match request args with
  | .error e => return { failure := some (.usage e) }
  | .ok r =>
    match r.action with
    | .showHelp command => return { stdout := usage command }
    | .showVersion => return { stdout := s!"{name} version {version}\n" }
    | .showCompletion _ => return {}
    | .suggest described before typed =>
      let s := suggest before typed
      return { stdout := s.text (described && describes env before), stderr := s.notice }
    | .showSettings =>
      match ← settingsOf fs env r with
      | .error e => return { failure := some e }
      | .ok s => return { stdout := s.document }
    | .allocate path summary =>
      match ← settingsOf fs env r with
      | .error e => return { failure := some e }
      | .ok s => allocateFile fs s path summary

end

end Command

end RegColor
