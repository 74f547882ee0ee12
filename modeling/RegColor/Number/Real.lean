import RegColor.Number.Double
import RegColor.Number.Integer

/-!
# Floating-point literals

`Double.read` reads a decimal number with an optional fraction and exponent, a hexadecimal number
with a binary exponent, or one of the words for infinity and not-a-number. The result is the nearest
double; a number beyond the largest one is out of range.
-/

namespace RegColor

namespace Double

/-- The digits of a literal: their value, how many stand after the point, and what follows. -/
structure Mantissa where
  value : Nat
  places : Nat
  seen : Bool
  rest : List Char

/-- Reads digits with at most one point; underscores are skipped. -/
def mantissa (hex : Bool) : (value places : Nat) → (seen point : Bool) → List Char → Mantissa
  | v, p, seen, _, [] => ⟨v, p, seen, []⟩
  | v, p, seen, point, c :: cs =>
    if c = '_' then mantissa hex v p seen point cs
    else if c = '.' then
      if point then ⟨v, p, seen, c :: cs⟩ else mantissa hex v p seen true cs
    else if Digits.isDigit hex c then
      let base := if hex then 16 else 10
      mantissa hex (v * base + (Digits.value? c).getD 0) (if point then p + 1 else p) true point cs
    else ⟨v, p, seen, c :: cs⟩

/-- The value of the exponent digits. Beyond five digits the size no longer matters. -/
def exponentDigits : Nat → List Char → Nat × List Char
  | e, [] => (e, [])
  | e, c :: cs =>
    if c = '_' then exponentDigits e cs
    else if Digits.isDigit false c then
      exponentDigits (if e < 10000 then e * 10 + (c.toNat - '0'.toNat) else e) cs
    else (e, c :: cs)

/-- Reads the exponent after its mark: a sign and at least one digit. -/
def exponent? (cs : List Char) : Option (Int × List Char) :=
  let (negative, cs) := Integer.sign cs
  match cs with
  | [] => none
  | c :: _ =>
    if Digits.isDigit false c then
      let (e, rest) := exponentDigits 0 cs
      some (if negative then -(e : Int) else e, rest)
    else none

/-- The double nearest to `± value * base ^ e` for base ten or two. Exponents far outside the range
of the doubles are settled without computing the power. -/
def ofScaled (negative : Bool) (value base : Nat) (e : Int) : Double :=
  let order : Int := (value.log2 : Int) + e * (base.log2 : Int)
  if value = 0 then zero negative
  else if 0 ≤ e ∧ 1100 < order then .infinite negative
  else if e < 0 ∧ order < -1200 then zero negative
  else ofRatio negative (value * Nat.pow base e.toNat) (Nat.pow base (-e).toNat)

/-- Reads an unsigned number. -/
def readUnsigned (negative : Bool) (cs : List Char) : Except NumberError Double :=
  let (hex, digits) : Bool × List Char :=
    match cs with
    | '0' :: x :: d :: ds => if x = 'x' ∨ x = 'X' then (true, d :: ds) else (false, cs)
    | _ => (false, cs)
  let m := mantissa hex 0 0 false false digits
  let tail : Option (Int × List Char) :=
    match m.rest with
    | [] => if hex then none else some (0, [])
    | c :: rest =>
      if (if hex then c = 'p' ∨ c = 'P' else c = 'e' ∨ c = 'E') then exponent? rest else none
  match tail with
  | none => .error .malformed
  | some (e, rest) =>
    if !m.seen || !rest.isEmpty || (cs.contains '_' && !Digits.wellSeparated cs) then
      .error .malformed
    else
      let x :=
        if hex then ofScaled negative m.value 2 (e - 4 * m.places)
        else ofScaled negative m.value 10 (e - m.places)
      match x with
      | .infinite _ => .error .outOfRange
      | x => .ok x

/-- Reads a floating-point literal. -/
def read (s : String) : Except NumberError Double :=
  let (negative, cs) := Integer.sign s.toList
  let word := String.ofList (cs.map Char.toLower)
  if word = "inf" ∨ word = "infinity" then .ok (.infinite negative)
  else if s.map Char.toLower = "nan" then .ok .nan
  else readUnsigned negative cs

end Double

end RegColor
