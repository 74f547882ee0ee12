import RegColor.Number.Word

/-!
# Integer literals

`Integer.read` reads a 64-bit integer with an optional sign and an optional base mark: `0x` for
hexadecimal, `0o` or a leading `0` for octal, `0b` for binary. An underscore may stand between two
digits or after a base mark. `Integer.readDecimal?` takes a sign and decimal digits only.
-/

namespace RegColor

/-- Why a text is not a number. -/
inductive NumberError where
  | malformed
  | outOfRange
deriving DecidableEq, Repr

/-- What a reader of digit separators saw last. -/
inductive LastSeen where
  | nothing
  | digit
  | separator
  | other
deriving DecidableEq, Repr

namespace Digits

/-- The value of a digit or letter, `a` or `A` being ten. -/
def value? (c : Char) : Option Nat :=
  if '0' ≤ c ∧ c ≤ '9' then some (c.toNat - '0'.toNat)
  else if 'a' ≤ c ∧ c ≤ 'z' then some (c.toNat - 'a'.toNat + 10)
  else if 'A' ≤ c ∧ c ≤ 'Z' then some (c.toNat - 'A'.toNat + 10)
  else none

/-- Whether `c` is a digit of a number in base ten, or in base sixteen when `hex` holds. -/
def isDigit (hex : Bool) (c : Char) : Bool :=
  ('0' ≤ c ∧ c ≤ '9') ∨ hex ∧ (('a' ≤ c ∧ c ≤ 'f') ∨ ('A' ≤ c ∧ c ≤ 'F'))

/-- Whether every underscore follows a digit and is followed by one. -/
def separated (hex : Bool) : LastSeen → List Char → Bool
  | last, [] => last ≠ .separator
  | last, c :: cs =>
    if isDigit hex c then separated hex .digit cs
    else if c = '_' then last = .digit && separated hex .separator cs
    else last ≠ .separator && separated hex .other cs

/-- Whether the underscores of an unsigned number separate digits; a base mark counts as a digit. -/
def wellSeparated : List Char → Bool
  | '0' :: c :: cs =>
    if c = 'x' ∨ c = 'X' then separated true .digit cs
    else if c = 'b' ∨ c = 'B' ∨ c = 'o' ∨ c = 'O' then separated false .digit cs
    else separated false .nothing ('0' :: c :: cs)
  | cs => separated false .nothing cs

end Digits

namespace Integer

/-- The base of an unsigned literal and the digits after its base mark. A base mark with no digit
after it is no base mark. -/
def base : List Char → Nat × List Char
  | '0' :: c :: d :: cs =>
    if c = 'x' ∨ c = 'X' then (16, d :: cs)
    else if c = 'o' ∨ c = 'O' then (8, d :: cs)
    else if c = 'b' ∨ c = 'B' then (2, d :: cs)
    else (8, c :: d :: cs)
  | '0' :: cs => (8, cs)
  | cs => (10, cs)

/-- The value of the digits in a base, underscores skipped. A value beyond 64 bits ends the reading,
whatever follows. -/
def magnitude (base : Nat) : Nat → List Char → Except NumberError Nat
  | n, [] => .ok n
  | n, c :: cs =>
    if c = '_' then magnitude base n cs
    else
      match Digits.value? c with
      | none => .error .malformed
      | some d =>
        if base ≤ d then .error .malformed
        else if Word.modulus ≤ n * base + d then .error .outOfRange
        else magnitude base (n * base + d) cs

/-- The value of an unsigned literal. -/
def readUnsigned (cs : List Char) : Except NumberError Nat :=
  if cs.isEmpty then .error .malformed
  else
    match magnitude (base cs).1 0 (base cs).2 with
    | .error e => .error e
    | .ok n => if cs.contains '_' && !Digits.wellSeparated cs then .error .malformed else .ok n

/-- The sign of a text, `true` for minus, and what follows it. -/
def sign : List Char → Bool × List Char
  | '+' :: cs => (false, cs)
  | '-' :: cs => (true, cs)
  | cs => (false, cs)

/-- `n` with the given sign, if 64 bits hold it. -/
def signed (negative : Bool) (n : Nat) : Except NumberError Int :=
  let v : Int := if negative then -n else n
  if Word.fits v then .ok v else .error .outOfRange

/-- Reads a 64-bit integer literal. -/
def read (s : String) : Except NumberError Int :=
  match readUnsigned (sign s.toList).2 with
  | .error e => .error e
  | .ok n => signed (sign s.toList).1 n

/-- Reads an optional sign and decimal digits. -/
def readDecimal? (s : String) : Option Int :=
  let cs := (sign s.toList).2
  if cs.isEmpty || !cs.all (Digits.isDigit false) then none
  else
    match magnitude 10 0 cs with
    | .error _ => none
    | .ok n => (signed (sign s.toList).1 n).toOption

end Integer

end RegColor
