import RegColor.Flag.Basic

/-!
# Flags in help texts

One line for each flag, in the order of their names, with what the flags do in a column of its own.
-/

namespace RegColor.Flag

/-- How a flag is written: its letter, its name and the kind of value it takes. -/
def heading (f : Flag) : String :=
  let names :=
    match f.letter with
    | some c => s!"  -{c}, --{f.name}"
    | none => s!"      --{f.name}"
  match f.kind with
  | .text => names ++ " string"
  | .number => names ++ " int"
  | .switch => names

/-- What a flag does, and the text that it has unless it is given. -/
def explanation (f : Flag) : String :=
  if f.initial = "" then f.about else s!"{f.about} (default {Text.quote f.initial})"

/-- The lines about flags. -/
def helpLines (flags : List Flag) : String :=
  let width := flags.foldl (fun w f => Nat.max w f.heading.length) 0
  let line (f : Flag) : String :=
    String.ofList (f.heading.toList.rightpad width ' ') ++ s!"   {f.explanation}\n"
  String.join ((flags.mergeSort (fun f g => f.name ≤ g.name)).map line)

end RegColor.Flag
