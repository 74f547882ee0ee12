import RegColor.Toml.Date
import RegColor.Toml.Text

/-!
# Tokens of TOML text

The scanner is in one of two modes. In *statement* mode it expects keys and table headers; an equals
sign starts *value* mode, which lasts to the end of the line, or until all brackets are closed.
Inside braces the scanner goes back to statement mode for each key. Brackets with nothing between
them are the same tokens in both modes, so an empty array may stand on the line after its key.
-/

namespace RegColor.Toml

/-- A token. The text of a key or header is still in one piece. -/
inductive Token where
  | key (text : List Char)
  | header (text : List Char)
  | elementHeader (text : List Char)
  | equals
  | comma
  | openBracket
  | closeBracket
  | openBrace
  | closeBrace
  | string (s : String)
  | integer (text : List Char)
  | float (text : List Char)
  | boolean (b : Bool)
  | date (d : Date)
  | time (t : Time)
  | offset (o : Offset)
deriving DecidableEq, Repr

/-- What the scanner expects. -/
inductive Mode where
  | statement
  | value
deriving DecidableEq, Repr

/-- What a value is nested in. -/
inductive Nesting where
  | array
  | table
deriving DecidableEq, Repr

/-! ## Keys -/

/-- Reads the text of a key, up to an equals sign or to blanks that no dot follows. Quoted parts keep
their quotes and lose their escapes. Every step takes a character, so `fuel` may be the length of
the text. -/
def scanKey : (fuel : Nat) → List Char → Option (List Char × List Char)
  | 0, cs => some ([], cs)
  | fuel + 1, cs =>
    let more (text : List Char) (rest : List Char) : Option (List Char × List Char) :=
      (scanKey fuel rest).map (fun (t, rest) => (text ++ t, rest))
    match cs with
    | [] => some ([], [])
    | c :: rest =>
      if c = '=' then some ([], cs)
      else if c = '"' then
        match basicString false true .plain rest with
        | some (s, rest) => more ('"' :: s ++ ['"']) rest
        | none => none
      else if c = '\'' then
        match literalString false rest with
        | some (s, rest) => more ('\'' :: s ++ ['\'']) rest
        | none => none
      else if isBlank c then
        match rest.dropWhile isBlank with
        | '.' :: after => more (' ' :: '.' :: after.takeWhile isBlank) (after.dropWhile isBlank)
        | after => some ([], after)
      else if c = '.' || isBare c then more [c] rest
      else none

/-! ## Numbers -/

/-- What was seen of a decimal number. -/
structure NumberShape where
  point : Bool := false
  exponent : Bool := false
  digit : Bool := false
deriving DecidableEq, Repr

/-- Reads digits, underscores, at most one point with a digit on each side, and exponent marks. -/
def scanDecimal (shape : NumberShape) : List Char → Option (NumberShape × List Char × List Char)
  | [] => some (shape, [], [])
  | c :: cs =>
    let more (shape : NumberShape) : Option (NumberShape × List Char × List Char) :=
      (scanDecimal shape cs).map (fun (s, text, rest) => (s, c :: text, rest))
    if c = '.' then
      if shape.point || !shape.digit || !(cs.take 1).any Char.isDigit then none
      else more { shape with point := true }
    else if c = 'e' || c = 'E' then
      match cs with
      | d :: ds =>
        if d = '+' || d = '-' then
          (scanDecimal { shape with exponent := true } ds).map
            (fun (s, text, rest) => (s, c :: d :: text, rest))
        else more { shape with exponent := true }
      | [] => more { shape with exponent := true }
    else if c.isDigit then more { shape with digit := true }
    else if c = '_' then more shape
    else some (shape, [], c :: cs)

/-- The digits that a base mark allows, and underscores. -/
def isBaseDigit (mark c : Char) : Bool :=
  c = '_' ||
    match mark with
    | 'x' => Digits.isDigit true c
    | 'o' => '0' ≤ c && c ≤ '7'
    | _ => c = '0' || c = '1'

/-- Reads a decimal number after its sign. -/
def scanUnsigned (sign cs : List Char) : Option (Token × List Char) :=
  match scanDecimal {} cs with
  | none => none
  | some (shape, text, rest) =>
    if !shape.digit then none
    else if shape.point || shape.exponent then some (.float (sign ++ text), rest)
    else some (.integer (sign ++ text), rest)

/-- Reads a number: with a base mark, with a sign, or plain. -/
def scanNumber (cs : List Char) : Option (Token × List Char) :=
  match cs with
  | '0' :: mark :: rest =>
    if mark = 'x' || mark = 'o' || mark = 'b' then
      let digits := rest.takeWhile (isBaseDigit mark)
      if digits.isEmpty then none
      else some (.integer ('0' :: mark :: digits), rest.dropWhile (isBaseDigit mark))
    else if mark.isAlpha then none
    else scanUnsigned [] cs
  | c :: rest =>
    if c = '+' || c = '-' then
      let word := rest.take 3
      if word = ['i', 'n', 'f'] || word = ['n', 'a', 'n'] then some (.float (c :: word), rest.drop 3)
      else scanUnsigned [c] rest
    else scanUnsigned [] cs
  | [] => none

/-! ## Values -/

/-- Reads a string. -/
def scanString (cs : List Char) : Option (Token × List Char) :=
  let read :=
    match cs with
    | '"' :: '"' :: '"' :: rest => basicString true true .plain (dropLineEnd rest)
    | '"' :: rest => basicString false false .plain rest
    | '\'' :: '\'' :: '\'' :: rest => literalString true (dropLineEnd rest)
    | '\'' :: rest => literalString false rest
    | _ => none
  read.map (fun (s, rest) => (.string (String.ofList s), rest))

/-- Whether a time follows a date: after `T` it has to, after a blank it does if two digits stand
there. -/
def timeFollows : List Char → Bool
  | 'T' :: _ => true
  | ' ' :: c :: d :: _ => c.isDigit && d.isDigit
  | _ => false

/-- Reads a date and what belongs to it. After a date the text ends, or a blank or a time follows. -/
def scanMoment (cs : List Char) : Option (List Token × List Char) := do
  let (d, rest) ← scanDate cs
  if timeFollows rest then
    let (t, rest) ← scanTime rest.tail
    let (o, rest) ← scanOffset rest
    some (.date d :: .time t :: o.toList.map .offset, rest)
  else if rest.isEmpty || rest.head? = some ' ' then some ([.date d], rest)
  else none

/-- Reads a value that is no array and no table. -/
def scanScalar (cs : List Char) : Option (List Token × List Char) :=
  let word (w : String) : Bool := w.toList.isPrefixOf cs
  let one (r : Option (Token × List Char)) : Option (List Token × List Char) :=
    r.map (fun (t, rest) => ([t], rest))
  if cs.take 1 = ['"'] || cs.take 1 = ['\''] then one (scanString cs)
  else if word "true" then some ([.boolean true], cs.drop 4)
  else if word "false" then some ([.boolean false], cs.drop 5)
  else if word "inf" || word "nan" then some ([.float (cs.take 3)], cs.drop 3)
  else if startsTime cs then one ((scanTime cs).map (fun (t, rest) => (.time t, rest)))
  else if startsDate cs then scanMoment cs
  else if (cs.take 1).any (fun c => c.isDigit || c = '+' || c = '-') then one (scanNumber cs)
  else none

/-! ## Documents -/

/-- Reads a table header after its first bracket. -/
def scanHeader (cs : List Char) : Option (Token × List Char) :=
  let (double, cs) : Bool × List Char :=
    match cs with
    | '[' :: rest => (true, rest)
    | cs => (false, cs)
  let text := cs.takeWhile (fun c => c ≠ ']' && c ≠ '[')
  match double, cs.dropWhile (fun c => c ≠ ']' && c ≠ '[') with
  | true, ']' :: ']' :: rest => if text.isEmpty then none else some (.elementHeader text, rest)
  | false, ']' :: rest => if text.isEmpty then none else some (.header text, rest)
  | _, _ => none

/-- The mode after the end of a line or after a comma inside `inner`. -/
def modeIn (inner : Nesting) (nesting : List Nesting) (otherwise : Mode) : Mode :=
  if nesting.head? = some inner then (if inner = .array then .value else .statement) else otherwise

/-- Splits a document into tokens. Every step takes a character, so `fuel` may be the length of the
text plus one. -/
def scanFrom : (fuel : Nat) → Mode → List Nesting → List Char → Option (List Token)
  | 0, _, _, _ => none
  | _ + 1, _, _, [] => some []
  | fuel + 1, mode, nesting, c :: cs =>
    let emit (t : Token) (mode : Mode) (nesting : List Nesting) (rest : List Char) :
        Option (List Token) :=
      (scanFrom fuel mode nesting rest).map (t :: ·)
    if isBlank c then scanFrom fuel mode nesting cs
    else if c = '#' then scanFrom fuel mode nesting (cs.dropWhile (· ≠ '\n'))
    else if c = '\n' || c = '\r' then
      match mode with
      | .statement => scanFrom fuel .statement nesting cs
      | .value => scanFrom fuel (modeIn .array nesting .statement) nesting cs
    else if c = '=' then emit .equals .value nesting cs
    else if c = '\x7d' then
      if nesting.head? = some .table then emit .closeBrace .value nesting.tail cs else none
    else
      match mode with
      | .statement =>
        if c = '[' && cs.head? = some ']' then
          (scanFrom fuel .statement nesting cs.tail).map (fun ts => .openBracket :: .closeBracket :: ts)
        else if c = '[' then
          match scanHeader cs with
          | some (t, rest) => emit t .statement nesting rest
          | none => none
        else
          match scanKey (cs.length + 1) (c :: cs) with
          | some (text, rest) => emit (.key text) .statement nesting rest
          | none => none
      | .value =>
        if c = '[' then emit .openBracket .value (.array :: nesting) cs
        else if c = ']' then
          if nesting.head? = some .array then emit .closeBracket .value nesting.tail cs else none
        else if c = '\x7b' then emit .openBrace .statement (.table :: nesting) cs
        else if c = ',' then emit .comma (modeIn .table nesting .value) nesting cs
        else
          match scanScalar (c :: cs) with
          | some (ts, rest) => (scanFrom fuel .value nesting rest).map (ts ++ ·)
          | none => none

/-- Splits a document into tokens; a byte order mark at its start is left out. -/
def scan (text : List Char) : Option (List Token) :=
  let text := if text.head? = some (Char.ofNat 0xfeff) then text.tail else text
  scanFrom (text.length + 1) .statement [] text

end RegColor.Toml
