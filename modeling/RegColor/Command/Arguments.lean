import RegColor.Flag.Basic
import RegColor.Settings.Flags

/-!
# The arguments of the command

`Command.request` tells from the arguments what the command is asked to do. Besides the command
itself there are commands for shell completion, which are told by the first word of the arguments.
-/

namespace RegColor.Command

/-- The name of the command. -/
def name : String := "tigerra"

/-- The version of the command. -/
def version : String := "0.2.0"

/-- A command within the command, by which a shell gets to complete what is typed: the one that tells
about the others, the script of a shell, and the request for suggestions that the script makes. -/
inductive Subcommand where
  | completion
  | script (shell : String)
  | suggest (described : Bool)
deriving DecidableEq, Repr

/-- The full name of a command. -/
def Subcommand.fullName : Option Subcommand → String
  | none => name
  | some .completion => s!"{name} completion"
  | some (.script shell) => s!"{name} completion {shell}"
  | some (.suggest _) => s!"{name} __complete"

/-- The shells that completion is for. -/
def shells : List String := ["bash", "zsh", "fish", "powershell"]

/-- Why the arguments are refused. -/
inductive UsageError where
  | flag (cause : FlagError)
  | argumentCount (given : Nat)
  | nothingTyped
  | unexpected (arg : String) (command : Option Subcommand)
deriving DecidableEq, Repr

def UsageError.message : UsageError → String
  | flag e => e.message
  | argumentCount n => s!"accepts 1 arg(s), received {n}"
  | nothingTyped => "requires at least 1 arg(s), only received 0"
  | unexpected arg command =>
    s!"unknown command {Text.quote arg} for {Text.quote (Subcommand.fullName command)}"

/-- What the arguments ask for. -/
inductive Action where
  | showHelp (command : Option Subcommand)
  | showVersion
  | showSettings
  | showCompletion (shell : String)
  | suggest (described : Bool) (before : List String) (typed : String)
  | allocate (path : String) (summary : Bool)
deriving DecidableEq, Repr

/-- What the arguments ask for, the file with settings, if any, and the flags that were given. -/
structure Request where
  action : Action
  config : Option String := none
  given : List Flag.Setting := []

/-- The flag that asks for help on a command. -/
def helpFlag (command : String) : Flag :=
  { name := "help", letter := some 'h', kind := .switch, about := s!"help for {command}" }

/-- The flags that a word may belong to. -/
def runFlags : List Flag :=
  [{ name := "config", letter := some 'c', kind := .text, about := "configuration file (TOML)" },
    { name := "print-config", kind := .switch
      about := "print the effective configuration and exit" },
    { name := "summary", kind := .switch
      about := "print a per-function allocation summary" }] ++ Settings.flags

/-- All flags of the command. -/
def flags : List Flag :=
  helpFlag name ::
    { name := "version", letter := some 'v', kind := .switch, about := s!"version for {name}" } ::
    runFlags

/-- The flags of a command within the command. -/
def Subcommand.flags : Subcommand → List Flag
  | completion => [helpFlag "completion"]
  | script shell =>
    [{ name := "no-descriptions", kind := .switch, about := "disable completion descriptions" },
      helpFlag shell]
  | suggest _ => []

/-- The command that the arguments after the word `completion` are for, and its arguments. -/
def routeCompletion (args : List String) : Subcommand × List String :=
  match (Flag.words [] args).head? with
  | some shell =>
    if shell ∈ shells then (.script shell, Flag.dropWord [] shell args) else (.completion, args)
  | none => (.completion, args)

/-- The command that the arguments are for, `none` for the main one, and its arguments. The first word
tells. -/
def route (args : List String) : Option Subcommand × List String :=
  match (Flag.words runFlags args).head? with
  | none => (none, args)
  | some word =>
    let rest := Flag.dropWord runFlags word args
    if word = "completion" then ((routeCompletion rest).map some id)
    else if word = "__complete" then (some (.suggest true), rest)
    else if word = "__completeNoDesc" then (some (.suggest false), rest)
    else (none, args)

/-- The last value given to a flag. -/
def lastOf (given : List Flag.Setting) (flag : String) : Option FlagValue :=
  given.reverse.lookup flag

/-- Whether a switch is on. -/
def isOn (given : List Flag.Setting) (flag : String) : Bool :=
  lastOf given flag = some (.switch true)

/-- What the flags and the other arguments ask for. -/
def actionOf (given : List Flag.Setting) (rest : List String) : Except UsageError Action :=
  if isOn given "help" then .ok (.showHelp none)
  else if isOn given "version" then .ok .showVersion
  else if isOn given "print-config" then
    match rest with
    | [] => .ok .showSettings
    | arg :: _ => .error (.unexpected arg none)
  else
    match rest with
    | [path] => .ok (.allocate path (isOn given "summary"))
    | rest => .error (.argumentCount rest.length)

/-- What the arguments of a command within the command ask for. Without a shell there is nothing but
help. -/
def subactionOf (command : Subcommand) (given : List Flag.Setting) (rest : List String) :
    Except UsageError Action :=
  if isOn given "help" then .ok (.showHelp (some command))
  else
    match command, rest with
    | .script shell, [] => .ok (.showCompletion shell)
    | .script _, arg :: _ => .error (.unexpected arg (some command))
    | _, _ => .ok (.showHelp (some command))

/-- What a request for suggestions asks for. All arguments but the last are complete; none is read as a
flag of the request itself. -/
def suggestionOf (described : Bool) (args : List String) : Except UsageError Action :=
  match args.getLast? with
  | none => .error .nothingTyped
  | some typed => .ok (.suggest described args.dropLast typed)

/-- Reads the arguments. -/
def request (args : List String) : Except UsageError Request :=
  match route args with
  | (some (.suggest described), args) =>
    (suggestionOf described args).map (fun action => { action })
  | (some command, args) =>
    match Flag.parse command.flags args with
    | .error e => .error (.flag e)
    | .ok (given, rest) => (subactionOf command given rest).map (fun action => { action })
  | (none, args) =>
    match Flag.parse flags args with
    | .error e => .error (.flag e)
    | .ok (given, rest) =>
      let config :=
        match lastOf given "config" with
        | some (.text path) => if path = "" then none else some path
        | _ => none
      (actionOf given rest).map (fun action => { action, config, given })

end RegColor.Command
