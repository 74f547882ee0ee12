import RegColor.Number.Integer
import RegColor.Text.Quote

/-!
# Command line flags

`Flag.parse` splits the arguments of a command line into flags and the rest. A flag is given by its
name after two dashes, or by its letter after one; letters may be strung together. The value follows
an equals sign or is the next argument, except that a switch takes one only after an equals sign.
Flags and other arguments may mix; `--` ends the flags.
-/

namespace RegColor

/-- What kind of value a flag takes. -/
inductive FlagKind where
  | text
  | number
  | switch
deriving DecidableEq, Repr

/-- A flag: its name, the letter that stands for it, its kind, and for help texts what it does and
the text it has at first. -/
structure Flag where
  name : String
  letter : Option Char := none
  kind : FlagKind
  about : String := ""
  initial : String := ""
deriving DecidableEq, Repr

/-- The value of a flag on a command line. -/
inductive FlagValue where
  | text (s : String)
  | number (n : Int)
  | switch (b : Bool)
deriving DecidableEq, Repr

/-- Why a command line cannot be split. -/
inductive FlagError where
  | badForm (arg : String)
  | unknown (name : String)
  | unknownLetter (letter : Char) (letters : String)
  | needsValue (name : String)
  | letterNeedsValue (letter : Char) (letters : String)
  | badNumber (flag : Flag) (value : String) (cause : NumberError)
  | badSwitch (flag : Flag) (value : String)
  | helpWanted
deriving DecidableEq, Repr

namespace Flag

/-- A flag as messages name it. -/
def title (f : Flag) : String :=
  match f.letter with
  | some c => s!"-{c}, --{f.name}"
  | none => s!"--{f.name}"

end Flag

namespace FlagError

/-- A letter between single quotes. A flag has an ASCII letter; any other letter is shown as `Ã`. -/
def quoteLetter (c : Char) : String :=
  if c = '\'' then "'\\''"
  else if c = '"' then "'\"'"
  else if 128 ≤ c.toNat then "'Ã'"
  else "'" ++ String.ofList (Text.escape c) ++ "'"

def reason : NumberError → String
  | .malformed => "invalid syntax"
  | .outOfRange => "value out of range"

/-- The text of the failure to read the value of a flag. -/
def invalid (f : Flag) (value reader reason : String) : String :=
  s!"invalid argument {Text.quote value} for {Text.quote f.title} flag: " ++
    s!"strconv.{reader}: parsing {Text.quote value}: {reason}"

/-- The text of a flag error. -/
def message : FlagError → String
  | badForm arg => s!"bad flag syntax: {arg}"
  | unknown name => s!"unknown flag: --{name}"
  | unknownLetter c letters => s!"unknown shorthand flag: {quoteLetter c} in -{letters}"
  | needsValue name => s!"flag needs an argument: --{name}"
  | letterNeedsValue c letters => s!"flag needs an argument: {quoteLetter c} in -{letters}"
  | badNumber f value cause => invalid f value "ParseInt" (reason cause)
  | badSwitch f value => invalid f value "ParseBool" (reason .malformed)
  | helpWanted => "pflag: help requested"

end FlagError

namespace Flag

/-- A flag set to a value, by name. -/
abbrev Setting := String × FlagValue

/-- The value of a switch from its text. -/
def switchValue? (s : String) : Option Bool :=
  if s ∈ ["1", "t", "T", "true", "TRUE", "True"] then some true
  else if s ∈ ["0", "f", "F", "false", "FALSE", "False"] then some false
  else none

/-- Sets a flag to a value given as text. -/
def set (f : Flag) (value : String) : Except FlagError Setting :=
  match f.kind with
  | .text => .ok (f.name, .text value)
  | .number =>
    match Integer.read value with
    | .ok n => .ok (f.name, .number n)
    | .error e => .error (.badNumber f value e)
  | .switch =>
    match switchValue? value with
    | some b => .ok (f.name, .switch b)
    | none => .error (.badSwitch f value)

variable (flags : List Flag)

/-- Reads an argument with two dashes, given without them; `next` are the arguments after it. The
result tells whether the first of them was taken as the value. -/
def parseLong (body : List Char) (next : List String) : Except FlagError (Setting × Bool) :=
  let name := String.ofList (body.takeWhile (· ≠ '='))
  if body.head? = some '-' || body.head? = some '=' then
    .error (.badForm ("--" ++ String.ofList body))
  else
    match flags.find? (·.name = name), body.dropWhile (· ≠ '='), next with
    | none, _, _ => .error (if name = "help" then .helpWanted else .unknown name)
    | some f, _ :: value, _ => (f.set (String.ofList value)).map (·, false)
    | some f, [], [] =>
      if f.kind = .switch then .ok ((f.name, .switch true), false) else .error (.needsValue name)
    | some f, [], value :: _ =>
      if f.kind = .switch then .ok ((f.name, .switch true), false)
      else (f.set value).map (·, true)

/-- Reads the letters of an argument with one dash. An argument for a test runner, which starts with
`test.`, is passed over. -/
def parseShort (next : List String) : List Char → Except FlagError (List Setting × Bool)
  | [] => .ok ([], false)
  | c :: cs =>
    if "test.".toList.isPrefixOf (c :: cs) then .ok ([], false)
    else
      match flags.find? (·.letter = some c) with
      | none =>
        .error (if c = 'h' then .helpWanted else .unknownLetter c (String.ofList (c :: cs)))
      | some f =>
        if cs.head? = some '=' && 1 < cs.length then
          (f.set (String.ofList cs.tail)).map (fun s => ([s], false))
        else if f.kind = .switch then
          (parseShort next cs).map (fun (more, taken) => ((f.name, .switch true) :: more, taken))
        else if !cs.isEmpty then (f.set (String.ofList cs)).map (fun s => ([s], false))
        else
          match next with
          | value :: _ => (f.set value).map (fun s => ([s], true))
          | [] => .error (.letterNeedsValue c (String.ofList (c :: cs)))

/-- Reads an argument that starts with a dash. -/
def parseOne (arg : List Char) (next : List String) : Except FlagError (List Setting × Bool) :=
  match arg with
  | '-' :: '-' :: body => (parseLong flags body next).map (fun (s, taken) => ([s], taken))
  | _ => parseShort flags next arg.tail

/-- Splits arguments into flags, in the order given, and the rest. -/
def parse : List String → Except FlagError (List Setting × List String)
  | [] => .ok ([], [])
  | arg :: next =>
    if arg = "--" then .ok ([], next)
    else if arg.toList.head? ≠ some '-' || arg = "-" then
      (parse next).map (fun (settings, rest) => (settings, arg :: rest))
    else
      match parseOne flags arg.toList next with
      | .error e => .error e
      | .ok (settings, taken) =>
        let after := if taken then parse next.tail else parse next
        after.map (fun (more, rest) => (settings ++ more, rest))
termination_by args => args.length
decreasing_by all_goals grind

/-! ## Words

Which command a line is for is told before its flags are read, by its first word: an argument that
is neither a flag nor, as far as the flags tell, the value of one. -/

/-- Whether the next argument is taken as the value of this one. An unknown flag counts as one that
has a value. -/
def takesNext (arg : String) : Bool :=
  match arg.toList with
  | '-' :: '-' :: name =>
    !name.contains '=' &&
      !flags.any (fun f => f.name.toList = name && f.kind = .switch)
  | ['-', c] =>
    c ≠ '=' && c.toNat < 128 && !flags.any (fun f => f.letter = some c && f.kind = .switch)
  | _ => false

/-- Whether an argument is a word. -/
def isWord (arg : String) : Bool := arg ≠ "" && arg.toList.head? ≠ some '-'

/-- The words of a command line. A value that would be the last argument ends them. -/
def words : List String → List String
  | [] => []
  | [arg] => if isWord arg then [arg] else []
  | arg :: second :: after =>
    if arg = "--" then []
    else if takesNext flags arg then (if after.isEmpty then [] else words after)
    else if isWord arg then arg :: words (second :: after)
    else words (second :: after)

/-- The arguments without the first word that is `word`. -/
def dropWord (word : String) : List String → List String
  | [] => []
  | [arg] => if arg = word then [] else [arg]
  | arg :: second :: after =>
    if arg = "--" then arg :: second :: after
    else if takesNext flags arg then arg :: second :: dropWord word after
    else if arg = word then second :: after
    else arg :: dropWord word (second :: after)

end Flag

end RegColor
