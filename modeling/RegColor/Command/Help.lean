import RegColor.Command.Arguments
import RegColor.Flag.Help

/-!
# Help on the command

The texts that explain how to use the command and the commands for shell completion.
-/

namespace RegColor.Command

/-- What the completion command for a shell does. -/
def scriptAbout (shell : String) : String := s!"Generate the autocompletion script for {shell}"

/-- The lines about the commands for shells, in the order of their names. -/
def shellLines : String :=
  String.join <| (shells.mergeSort (· ≤ ·)).map fun shell =>
    "  " ++ String.ofList (shell.toList.rightpad 11 ' ') ++ s!" {scriptAbout shell}\n"

/-- The text that explains how to use a command. -/
def usage (command : Option Subcommand) : String :=
  let full := Subcommand.fullName command
  match command with
  | none =>
    "Graph coloring register allocation for IR listings\n\n" ++
      s!"Usage:\n  {full} [OPTIONS] FILE [flags]\n\nFlags:\n" ++ Flag.helpLines flags
  | some .completion =>
    s!"Generate the autocompletion script for {name} for the specified shell.\n" ++
      "See each sub-command's help for details on how to use the generated script.\n\n" ++
      s!"Usage:\n  {full} [command]\n\nAvailable Commands:\n" ++ shellLines ++
      "\nFlags:\n" ++ Flag.helpLines Subcommand.completion.flags ++
      s!"\nUse \"{full} [command] --help\" for more information about a command.\n"
  | some (.suggest _) => ""
  | some (.script shell) =>
    s!"{scriptAbout shell}\n\nUsage:\n  {full}\n\nFlags:\n" ++
      Flag.helpLines (Subcommand.script shell).flags

end RegColor.Command
