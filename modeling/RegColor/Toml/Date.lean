/-!
# Dates and times in TOML text

A date is written `1979-05-27` and a time `07:32:00`, with any number of digits after a point. A date
and a time together may carry the offset from universal time, `Z` or hours and minutes with a sign.
Reading checks the form; `isValid` checks the ranges, so that a day has to be one of the calendar.
-/

namespace RegColor.Toml

/-- A day of the calendar. -/
structure Date where
  year : Nat
  month : Nat
  day : Nat
deriving DecidableEq, Repr

/-- A time of day; `fraction` holds the digits of the fraction of a second. -/
structure Time where
  hour : Nat
  minute : Nat
  second : Nat
  fraction : List Char
deriving DecidableEq, Repr

/-- How far a clock is from universal time. -/
structure Offset where
  behind : Bool := false
  hours : Nat := 0
  minutes : Nat := 0
deriving DecidableEq, Repr

/-! ## Ranges -/

def isLeap (year : Nat) : Bool := year % 4 = 0 && (year % 100 ≠ 0 || year % 400 = 0)

/-- How many days a month has. -/
def daysIn (year month : Nat) : Nat :=
  if month = 2 then (if isLeap year then 29 else 28)
  else if month = 4 || month = 6 || month = 9 || month = 11 then 30
  else 31

/-- Whether the calendar has this day. -/
def Date.isValid (d : Date) : Bool :=
  1 ≤ d.month && d.month ≤ 12 && 1 ≤ d.day && d.day ≤ daysIn d.year d.month

/-- Whether a clock shows this time. A leap second is not shown. -/
def Time.isValid (t : Time) : Bool := t.hour < 24 && t.minute < 60 && t.second < 60

/-- Whether an offset is in range; a whole day and a whole hour still are. -/
def Offset.isValid (o : Offset) : Bool := o.hours ≤ 24 && o.minutes ≤ 60

/-! ## Reading -/

/-- Reads exactly `n` digits and adds them to `value`. -/
def scanDigits : (n value : Nat) → List Char → Option (Nat × List Char)
  | 0, value, cs => some (value, cs)
  | n + 1, value, c :: cs =>
    if c.isDigit then scanDigits n (value * 10 + (c.toNat - '0'.toNat)) cs else none
  | _ + 1, _, [] => none

/-- Reads a mark and two digits after it. -/
def scanPair (mark : Char) : List Char → Option (Nat × List Char)
  | c :: cs => if c = mark then scanDigits 2 0 cs else none
  | [] => none

/-- Reads a date. -/
def scanDate (cs : List Char) : Option (Date × List Char) := do
  let (year, cs) ← scanDigits 4 0 cs
  let (month, cs) ← scanPair '-' cs
  let (day, cs) ← scanPair '-' cs
  some ({ year, month, day }, cs)

/-- Reads the fraction of a second, if there is one: a point and at least one digit. -/
def scanFraction : List Char → Option (List Char × List Char)
  | '.' :: cs =>
    if (cs.takeWhile Char.isDigit).isEmpty then none
    else some (cs.takeWhile Char.isDigit, cs.dropWhile Char.isDigit)
  | cs => some ([], cs)

/-- Reads a time. -/
def scanTime (cs : List Char) : Option (Time × List Char) := do
  let (hour, cs) ← scanDigits 2 0 cs
  let (minute, cs) ← scanPair ':' cs
  let (second, cs) ← scanPair ':' cs
  let (fraction, cs) ← scanFraction cs
  some ({ hour, minute, second, fraction }, cs)

/-- Reads an offset, if there is one. -/
def scanOffset : List Char → Option (Option Offset × List Char)
  | [] => some (none, [])
  | c :: cs =>
    if c = 'Z' then some (some {}, cs)
    else if c = '+' || c = '-' then do
      let (hours, cs) ← scanDigits 2 0 cs
      let (minutes, cs) ← scanPair ':' cs
      some (some { behind := c = '-', hours, minutes }, cs)
    else some (none, c :: cs)

/-- Whether a text starts like a time: two digits and a colon. -/
def startsTime (cs : List Char) : Bool :=
  (cs.take 2).all Char.isDigit && (cs.drop 2).head? = some ':'

/-- Whether a text starts like a date: four digits and a dash. -/
def startsDate (cs : List Char) : Bool :=
  (cs.take 4).all Char.isDigit && (cs.drop 4).head? = some '-'

end RegColor.Toml
