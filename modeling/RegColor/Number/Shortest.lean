import RegColor.Number.Double

/-!
# Decimal text of doubles

`Double.shortest` finds the fewest decimal digits that read back as the same double, and of those
the nearest to it. `Double.text` lays them out: positional from `0.0001` up to six integer digits,
otherwise with an exponent of a sign and at least two digits. `Double.fixed` writes a given number
of decimal places, rounding the exact value with ties to even.
-/

namespace RegColor.Double

/-- A decimal number `digits * 10 ^ scale`. -/
structure Decimal where
  digits : Nat
  scale : Int
deriving DecidableEq, Repr

/-- The interval of the numbers that round to `significand * 2 ^ exponent`, in quarters of a unit in
the last place. Below a power of two the numbers lie twice as close. The ends belong to it when the
significand is even. -/
structure Interval where
  low : Nat
  mid : Nat
  high : Nat
  closed : Bool

def interval (significand : Nat) (exponent : Int) : Interval where
  low := 4 * significand - (if significand = Nat.pow 2 52 ∧ minExponent < exponent then 1 else 2)
  mid := 4 * significand
  high := 4 * significand + 2
  closed := significand % 2 = 0

/-- Whether `n` lies in the interval, when all of its numbers are multiplied by `unit`. -/
def Interval.contains (i : Interval) (unit n : Nat) : Bool :=
  if i.closed then i.low * unit ≤ n && n ≤ i.high * unit
  else i.low * unit < n && n < i.high * unit

/-- The number of decimal digits. -/
def decimalLength (n : Nat) : Nat := (Nat.toDigits 10 n).length

/-- The greatest `e` with `10 ^ e ≤ significand * 2 ^ exponent`. -/
def decimalOrder (significand : Nat) (exponent : Int) : Int :=
  let num := significand * Nat.pow 2 exponent.toNat
  let den := Nat.pow 2 (-exponent).toNat
  let e : Int := (decimalLength num : Int) - decimalLength den
  if den * Nat.pow 10 e.toNat ≤ num * Nat.pow 10 (-e).toNat then e else e - 1

/-- The multiple of `10 ^ k` nearest to the number that reads back as it, if one does. -/
def onGrid? (significand : Nat) (exponent k : Int) : Option Nat :=
  let i := interval significand exponent
  let unit := Nat.pow 2 (exponent - 2).toNat * Nat.pow 10 (-k).toNat
  let step := Nat.pow 10 k.toNat * Nat.pow 2 (2 - exponent).toNat
  let below := i.mid * unit / step
  let above := below + 1
  match i.contains unit (below * step), i.contains unit (above * step) with
  | false, false => none
  | true, false => some below
  | false, true => some above
  | true, true =>
    let down := i.mid * unit - below * step
    let up := above * step - i.mid * unit
    if down < up then some below
    else if up < down then some above
    else if below % 2 = 0 then some below
    else some above

/-- Tries ever finer grids, `fuel` of them. -/
def search (significand : Nat) (exponent k : Int) : Nat → Decimal
  | 0 => ⟨significand, exponent⟩
  | fuel + 1 =>
    match onGrid? significand exponent k with
    | some d => ⟨d, k⟩
    | none => search significand exponent (k - 1) fuel

/-- The fewest digits that read back as `significand * 2 ^ exponent`; seventeen always do. -/
def shortest (significand : Nat) (exponent : Int) : Decimal :=
  search significand exponent (decimalOrder significand exponent) 17

/-- The digits without trailing zeros, and the exponent of the first one. -/
def Decimal.normal (d : Decimal) : List Char × Int :=
  let cs := Nat.toDigits 10 d.digits
  ((cs.reverse.dropWhile (· = '0')).reverse, (cs.length : Int) - 1 + d.scale)

/-- A decimal exponent: its sign and at least two digits. -/
def exponentText (e : Int) : List Char :=
  let cs := Nat.toDigits 10 e.natAbs
  'e' :: (if e < 0 then '-' else '+') :: (if cs.length < 2 then '0' :: cs else cs)

/-- Digits whose first one stands for `10 ^ e`, laid out as text. -/
def layOut (cs : List Char) (e : Int) : List Char :=
  if e < -4 ∨ 6 ≤ e then
    match cs with
    | [] => exponentText e
    | [c] => c :: exponentText e
    | c :: cs => c :: '.' :: cs ++ exponentText e
  else if e < 0 then
    '0' :: '.' :: List.replicate (-e - 1).toNat '0' ++ cs
  else
    let whole := e.toNat + 1
    let int := cs.take whole ++ List.replicate (whole - cs.length) '0'
    let frac := cs.drop whole
    if frac.isEmpty then int else int ++ '.' :: frac

/-- The shortest text that reads back as the same number. -/
def text : Double → String
  | .nan => "NaN"
  | .infinite negative => if negative then "-Inf" else "+Inf"
  | .finite negative m e =>
    let digits :=
      if m = 0 then ['0']
      else
        let (cs, first) := (shortest m e).normal
        layOut cs first
    String.ofList (if negative then '-' :: digits else digits)

/-- The text with `places` digits after the point. -/
def fixed (places : Nat) : Double → String
  | .nan => "NaN"
  | .infinite negative => if negative then "-Inf" else "+Inf"
  | .finite negative m e =>
    let n := roundQuotient (m * Nat.pow 10 places * Nat.pow 2 e.toNat) (Nat.pow 2 (-e).toNat)
    let cs := Nat.toDigits 10 n
    let cs := List.replicate (places + 1 - cs.length) '0' ++ cs
    let int := cs.take (cs.length - places)
    let frac := cs.drop (cs.length - places)
    let digits := if places = 0 then int else int ++ '.' :: frac
    String.ofList (if negative then '-' :: digits else digits)

end RegColor.Double
