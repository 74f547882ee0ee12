import RegColor.Number.Integer
import RegColor.Text.Quote

/-!
# Strings and keys in TOML text

How strings are written between quotes, and how a dotted key falls into its parts. A basic string
has escapes, a literal one has none; both have a form with three quotes that may run over lines.
-/

namespace RegColor.Toml

def isBlank (c : Char) : Bool := c = ' ' || c = '\t'

/-- The characters of a key that needs no quotes. -/
def isBare (c : Char) : Bool :=
  ('a' ≤ c && c ≤ 'z') || ('A' ≤ c && c ≤ 'Z') || ('0' ≤ c && c ≤ '9') || c = '_' || c = '-'

/-! ## Reading strings -/

/-- Where the reader of a basic string stands: between escapes, after a backslash, in the blanks
after a backslash, or in a code with digits still to come. -/
inductive StringState where
  | plain
  | escape
  | skip
  | code (left value : Nat)
deriving DecidableEq, Repr

/-- The character with a code; a code that is no character stands for the replacement character. -/
def ofCode (n : Nat) : Char := if n.isValidChar then Char.ofNat n else Char.ofNat 0xfffd

/-- The character that a one-letter escape stands for. -/
def shortEscape? (c : Char) : Option Char :=
  match c with
  | '"' => some '"'
  | '\\' => some '\\'
  | '/' => some '/'
  | 'b' => some '\x08'
  | 'f' => some '\x0c'
  | 'n' => some '\n'
  | 'r' => some '\r'
  | 't' => some '\t'
  | _ => none

/-- Whether a blank or a line end may follow a backslash, to be left out. -/
def isSkipped (c : Char) : Bool := isBlank c || c = '\n' || c = '\r'

/-- Reads a basic string after its opening quotes: its characters and what follows the closing ones.
`triple` asks for three quotes at the end, `lines` allows line ends. -/
def basicString (triple lines : Bool) : StringState → List Char → Option (List Char × List Char)
  | _, [] => none
  | .escape, c :: cs =>
    if isSkipped c then basicString triple lines .skip cs
    else if c = 'u' then basicString triple lines (.code 4 0) cs
    else if c = 'U' then basicString triple lines (.code 8 0) cs
    else
      match shortEscape? c with
      | some d => (basicString triple lines .plain cs).map (fun (s, rest) => (d :: s, rest))
      | none => none
  | .code left value, c :: cs =>
    match Digits.value? c with
    | none => none
    | some d =>
      if 16 ≤ d then none
      else if left ≤ 1 then
        (basicString triple lines .plain cs).map (fun (s, rest) => (ofCode (value * 16 + d) :: s, rest))
      else basicString triple lines (.code (left - 1) (value * 16 + d)) cs
  | state, c :: cs =>
    if state = .skip && isSkipped c then basicString triple lines .skip cs
    else if c = '"' && (!triple || cs.take 2 = ['"', '"']) then
      some ([], if triple then cs.drop 2 else cs)
    else if c = '\\' then basicString triple lines .escape cs
    else if c.toNat < 0x20 && c ≠ '\t' && !(lines && (c = '\n' || c = '\r')) then none
    else (basicString triple lines .plain cs).map (fun (s, rest) => (c :: s, rest))

/-- Reads a literal string after its opening quotes. -/
def literalString (triple : Bool) : List Char → Option (List Char × List Char)
  | [] => none
  | c :: cs =>
    if c = '\'' && (!triple || cs.take 2 = ['\'', '\'']) then
      some ([], if triple then cs.drop 2 else cs)
    else (literalString triple cs).map (fun (s, rest) => (c :: s, rest))

/-- Drops a line end right after three opening quotes. -/
def dropLineEnd : List Char → List Char
  | '\r' :: '\n' :: cs => cs
  | '\n' :: cs => cs
  | cs => cs

/-! ## Keys -/

/-- Where the reader of a key stands: before a part, in a bare part, after a part and blanks, or in
a quoted part. -/
inductive KeyState where
  | start
  | bare (seen : List Char)
  | ended
  | quoted (mark : Char) (seen : List Char)
deriving DecidableEq, Repr

/-- Whether a part of a key may follow a dot. -/
def startsPart : List Char → Bool
  | [] => false
  | c :: _ => isBare c || c = '\'' || c = '"' || c = ' '

/-- The part of a key from its characters, the last one first. -/
def part (seen : List Char) : String := String.ofList seen.reverse

/-- The parts of a key. -/
def splitKey : KeyState → List Char → Option (List String)
  | .start, [] => some []
  | .bare seen, [] => some [part seen]
  | .ended, [] => some []
  | .quoted .., [] => none
  | .start, c :: cs =>
    if isBlank c then splitKey .start cs
    else if isBare c then splitKey (.bare [c]) cs
    else if c = '\'' || c = '"' then splitKey (.quoted c []) cs
    else if c = '.' && startsPart cs then splitKey .start cs
    else none
  | .bare seen, c :: cs =>
    if isBare c then splitKey (.bare (c :: seen)) cs
    else if isBlank c then (splitKey .ended cs).map (part seen :: ·)
    else if c = '.' && startsPart cs then (splitKey .start cs).map (part seen :: ·)
    else none
  | .ended, c :: cs =>
    if isBlank c then splitKey .ended cs
    else if c = '.' && startsPart cs then splitKey .start cs
    else none
  | .quoted mark seen, c :: cs =>
    if c = mark then (splitKey .start cs).map (part seen :: ·)
    else splitKey (.quoted mark (c :: seen)) cs

/-- The parts of a key; a key has at least one. -/
def keyParts? (text : List Char) : Option (List String) :=
  match splitKey .start text with
  | some (p :: ps) => some (p :: ps)
  | _ => none

/-! ## Writing strings -/

/-- How a character is written in a basic string. Other control characters are written by the lower
sixteen bits of their code. -/
def escapeChar (c : Char) : List Char :=
  match c with
  | '\x08' => ['\\', 'b']
  | '\t' => ['\\', 't']
  | '\n' => ['\\', 'n']
  | '\x0c' => ['\\', 'f']
  | '\r' => ['\\', 'r']
  | '"' => ['\\', '"']
  | '\\' => ['\\', '\\']
  | c =>
    if c.toNat % 65536 < 0x1f then
      '\\' :: 'u' :: (Text.hex 4 (c.toNat % 65536)).map Char.toUpper
    else [c]

/-- A basic string. -/
def quote (s : String) : String := "\"" ++ String.ofList (s.toList.flatMap escapeChar) ++ "\""

end RegColor.Toml
