import RegColor.Token.Basic

/-!
# From source text to tokens

A source is read byte by byte, each byte as the character with that code. `scan` cuts it into
pieces: tokens, unknown characters and a line break for every newline byte. `tokens` then keeps the
first line break of every run that follows another token, closes the last line and marks the end.

Blanks and comments (`#` or `//` up to the end of the line) leave no piece. A carriage return takes
no column.
-/

namespace RegColor

/-- The characters of a byte string, one for each byte. -/
def sourceOfBytes (bytes : List UInt8) : List Char := bytes.map (fun b => Char.ofNat b.toNat)

/-- One piece of a source text. -/
inductive Piece where
  | token (t : Token)
  | unknown (e : UnknownChar)
deriving DecidableEq, Repr

namespace Scan

def isHexDigit (c : Char) : Bool :=
  c.isDigit || ('a' ≤ c && c ≤ 'f') || ('A' ≤ c && c ≤ 'F')

def isNameStart (c : Char) : Bool := c.isAlpha || c = '_' || c = '$'

def isNamePart (c : Char) : Bool := isNameStart c || c.isDigit || c = '.'

/-- The kind of a character that is a token by itself. -/
def delimiter? : Char → Option TokenKind
  | '(' => some .lparen
  | ')' => some .rparen
  | '\x7b' => some .lbrace
  | '\x7d' => some .rbrace
  | '[' => some .lbracket
  | ']' => some .rbracket
  | ':' => some .colon
  | ',' => some .comma
  | '-' => some .minus
  | _ => none

/-- A point and the digits after it, when there is a digit. -/
def fraction : List Char → List Char
  | '.' :: d :: cs => if d.isDigit then '.' :: d :: cs.takeWhile Char.isDigit else []
  | _ => []

/-- A sign and digits, either possibly missing. -/
def exponentTail : List Char → List Char
  | c :: cs =>
    if c = '+' ∨ c = '-' then c :: cs.takeWhile Char.isDigit
    else (c :: cs).takeWhile Char.isDigit
  | [] => []

/-- An exponent mark and what belongs to it. -/
def exponent : List Char → List Char
  | c :: cs => if c = 'e' ∨ c = 'E' then c :: exponentTail cs else []
  | [] => []

/-- The rest of a number that starts with the digit `c`, and its kind. -/
def number (c : Char) (cs : List Char) : TokenKind × List Char :=
  match c, cs with
  | '0', 'x' :: cs => (.int, 'x' :: cs.takeWhile isHexDigit)
  | '0', 'X' :: cs => (.int, 'X' :: cs.takeWhile isHexDigit)
  | _, cs =>
    let whole := cs.takeWhile Char.isDigit
    let frac := fraction (cs.drop whole.length)
    let exp := exponent (cs.drop (whole.length + frac.length))
    (if frac.isEmpty && exp.isEmpty then .int else .float, whole ++ frac ++ exp)

/-- The kind of a word: a keyword or a name. -/
def wordKind (word : String) : TokenKind :=
  if word = "func" then .func
  else if word = "var" then .var
  else .ident

/-- The token that starts with `c`: its kind and the characters of it after `c`. -/
def lexeme? (c : Char) (cs : List Char) : Option (TokenKind × List Char) :=
  if c.isDigit then some (number c cs)
  else if isNameStart c then
    let more := cs.takeWhile isNamePart
    some (wordKind (String.ofList (c :: more)), more)
  else (delimiter? c).map (·, [])

/-- Whether a comment starts here. -/
def startsComment : List Char → Bool
  | '#' :: _ => true
  | '/' :: '/' :: _ => true
  | _ => false

/-- The pieces of a source from the given line and column on, and the place where it ends. -/
def scan (line column : Int) : List Char → List Piece × Int × Int
  | [] => ([], line, column)
  | c :: cs =>
    if c = '\n' then
      let (ps, stop) := scan (line + 1) 1 cs
      (.token ⟨.newline, "\n", line, column⟩ :: ps, stop)
    else if c = ' ' ∨ c = '\t' then scan line (column + 1) cs
    else if c = '\r' then scan line column cs
    else if startsComment (c :: cs) then
      let more := cs.takeWhile (· ≠ '\n')
      scan line (column + 1 + more.length) (cs.drop more.length)
    else
      match lexeme? c cs with
      | some (kind, more) =>
        let (ps, stop) := scan line (column + 1 + more.length) (cs.drop more.length)
        (.token ⟨kind, String.ofList (c :: more), line, column⟩ :: ps, stop)
      | none =>
        let (ps, stop) := scan line (column + 1) cs
        (.unknown ⟨c, line, column⟩ :: ps, stop)
termination_by cs => cs.length
decreasing_by all_goals grind

/-- Keeps a line break only after another token; `afterToken` tells whether one came last. -/
def collapse (afterToken : Bool) : List Token → List Token
  | [] => []
  | t :: ts =>
    if t.kind = .newline then
      if afterToken then t :: collapse false ts else collapse false ts
    else t :: collapse true ts

end Scan

/-- What reading a source text gives. -/
structure Scanned where
  tokens : List Token
  unknown : List UnknownChar
deriving DecidableEq, Repr

/-- The tokens of a source text, ended by a line break and an end token, and its unknown
characters. -/
def tokenize (source : List Char) : Scanned :=
  let (pieces, line, column) := Scan.scan 1 1 source
  let raw := pieces.filterMap fun
    | .token t => some t
    | .unknown _ => none
  { tokens := Scan.collapse false (raw ++ [⟨.newline, "\n", line, column⟩])
      ++ [⟨.eof, "", line, column⟩]
    unknown := pieces.filterMap fun
      | .token _ => none
      | .unknown e => some e }

end RegColor
