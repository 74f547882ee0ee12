import RegColor.Command.Arguments
import RegColor.Command.Help
import RegColor.Settings.Environment

/-!
# Suggestions for a shell

`Command.suggest` tells a shell what may stand in the place of the argument that is being typed, given
the arguments before it: names of flags, the shells that completion is for, or names of files, which
the shell finds by itself. Arguments that cannot be read get no suggestions.
-/

namespace RegColor.Command

/-- What may be typed: texts, each with what it stands for, and whether names of files may be offered
as well. -/
structure Suggestions where
  choices : List (String × String) := []
  files : Bool := true
deriving DecidableEq, Repr

namespace Suggestions

/-- The number and the name of the directive on files. -/
def directive (s : Suggestions) : Nat × String :=
  if s.files then (0, "ShellCompDirectiveDefault") else (4, "ShellCompDirectiveNoFileComp")

/-- The lines for the shell: a choice in each, with what it stands for after a tab, and the directive in
the last. -/
def text (s : Suggestions) (described : Bool) : String :=
  let line (choice : String × String) : String :=
    if described then s!"{choice.1}\t{choice.2}\n" else s!"{choice.1}\n"
  String.join (s.choices.map line) ++ s!":{s.directive.1}\n"

/-- The line for whoever reads along. -/
def notice (s : Suggestions) : String := s!"Completion ended with directive: {s.directive.2}\n"

end Suggestions

/-! ## What is being typed -/

/-- What is being typed: the part of it that is to be completed, the flag whose value it is, if it is
one, whether that flag is unknown, and the complete arguments without that flag. -/
structure Typing where
  before : List String
  part : List Char
  flag : Option Flag := none
  unknown : Bool := false

/-- The flag of a name, or of a letter. -/
def findFlag (flags : List Flag) (name : List Char) : Option Flag :=
  match name with
  | [c] => flags.find? (·.letter = some c)
  | name => flags.find? (·.name.toList = name)

/-- The name or the last letter of a flag argument without a value. -/
def flagName? (arg : String) : Option (List Char) :=
  match arg.toList with
  | '-' :: '-' :: name => if name.isEmpty || name.contains '=' then none else some name
  | '-' :: letters => if letters.isEmpty || letters.contains '=' then none else letters.getLast?.map ([·])
  | _ => none

/-- The name or the last letter of the flag before the equals sign of an argument. -/
def nameBeforeEquals (cs : List Char) : List Char :=
  match cs.takeWhile (· ≠ '=') with
  | '-' :: '-' :: name => name
  | letters => letters.getLast?.toList

/-- Tells what is being typed. It is the value of a flag after an equals sign, or after a flag argument
that is no switch. -/
def typing (flags : List Flag) (before : List String) (typed : String) : Typing :=
  let cs := typed.toList
  let dashed := cs.head? = some '-'
  let valued := dashed && cs.contains '='
  let part := if valued then (cs.dropWhile (· ≠ '=')).tail else cs
  let own := if valued then nameBeforeEquals cs else []
  let last := before.getLast?.bind flagName?
  if dashed && !valued then { before, part }
  else if !own.isEmpty then
    match findFlag flags own with
    | none => { before, part := cs, unknown := true }
    | some f => { before, part, flag := some f }
  else
    match last with
    | none => { before, part }
    | some name =>
      match findFlag flags name with
      | none => { before, part := cs, unknown := true }
      | some f =>
        if !valued && f.kind = .switch then { before, part }
        else { before := before.dropLast, part, flag := some f }

/-! ## Suggestions -/

/-- The names and letters of flags that start with what is typed, without the flags already given. -/
def flagChoices (flags : List Flag) (given : List Flag.Setting) (part : List Char) :
    List (String × String) :=
  let starts (text : String) : Bool := part.isPrefixOf text.toList
  let sorted := flags.mergeSort (fun f g => f.name ≤ g.name)
  (sorted.filter (fun f => (given.lookup f.name).isNone)).flatMap fun f =>
    let texts := s!"--{f.name}" :: (f.letter.map (fun c => s!"-{c}")).toList
    (texts.filter starts).map (·, f.about)

/-- The shells whose names start with what is typed. -/
def shellChoices (part : List Char) : List (String × String) :=
  ((shells.mergeSort (· ≤ ·)).filter (fun shell => part.isPrefixOf shell.toList)).map
    (fun shell => (shell, scriptAbout shell))

/-- Whether a double dash among the arguments has ended the flags; `rest` are the arguments that are no
flags. -/
def flagsEnded (flags : List Flag) (args rest : List String) : Bool :=
  match Flag.parse flags (args ++ ["--"]) with
  | .ok (_, more) => rest.length < more.length
  | .error _ => false

/-- The suggestions on the arguments of a command. A command within the command takes no files. -/
def suggestFor (command : Option Subcommand) (before : List String) (typed : String) :
    Suggestions :=
  let flags := (command.map Subcommand.flags).getD flags
  let t := typing flags before typed
  match Flag.parse flags t.before with
  | .error _ => {}
  | .ok (given, rest) =>
    let ended := flagsEnded flags t.before rest
    if t.unknown && !ended then {}
    else if (given.lookup "help").isSome || (given.lookup "version").isSome then { files := false }
    else if t.flag.isSome then { files := !ended || command.isNone }
    else if t.part.head? = some '-' && !t.part.contains '=' && !ended then
      { choices := flagChoices flags given t.part, files := false }
    else if command = some .completion && rest.isEmpty && given.isEmpty then
      { choices := shellChoices t.part, files := false }
    else { files := command.isNone }

/-- The command that complete arguments are for. A command within the command is told only by the very
first argument. -/
def suggestedCommand (before : List String) : Option Subcommand × List String :=
  match before with
  | "completion" :: args => (routeCompletion args).map some id
  | _ => (none, before)

/-- What may stand in the place of `typed` after the arguments `before`. -/
def suggest (before : List String) (typed : String) : Suggestions :=
  let (command, args) := suggestedCommand before
  suggestFor command args typed

/-- The variable that turns descriptions off. -/
def descriptionsVariable : String := Settings.variableName "COMPLETION_DESCRIPTIONS"

/-- Whether suggestions are described. The environment has a say only on the commands within the
command. -/
def describes (env : String → Option String) (before : List String) : Bool :=
  (suggestedCommand before).1.isNone ||
    (((env descriptionsVariable).bind Flag.switchValue?).getD true)

end RegColor.Command
