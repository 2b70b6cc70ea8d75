import Heed.Number.Binary64

/-!
# The shortest decimal text of a double

A double is written with the fewest decimal digits that read back as the same double; among equally
short ones the nearest is taken, and of two equally near ones the larger. The text is positional, never
with an exponent, and a whole number has no point.

The reals that read back as a given double form an interval around it. Its ends are halfway to the
neighbouring doubles and belong to it exactly when the mantissa is even.
-/

set_option autoImplicit false

namespace Heed

namespace Binary64

/-- An interval of positive reals, in quarters of the smallest unit of a double. -/
structure Interval where
  low : Nat
  value : Nat
  high : Nat
  closed : Bool

/-- The reals that read back as `value`. Below a power of two the neighbour is nearer by half. -/
def readingInterval (value : Binary64) : Interval :=
  let mantissa := value.mantissa
  let step := Nat.pow 2 value.scale
  let below := if mantissa = Nat.pow 2 52 ∧ 0 < value.scale then step else 2 * step
  { low := 4 * mantissa * step - below
    value := 4 * mantissa * step
    high := 4 * mantissa * step + 2 * step
    closed := mantissa % 2 = 0 }

structure Decimal where
  digits : Nat
  exponent : Int
deriving DecidableEq, Repr

def Decimal.fraction (decimal : Decimal) : Nat × Nat :=
  if 0 ≤ decimal.exponent then
    (decimal.digits * Nat.pow 10 decimal.exponent.toNat * Nat.pow 2 1076, 1)
  else
    (decimal.digits * Nat.pow 2 1076, Nat.pow 10 (-decimal.exponent).toNat)

def Interval.contains (interval : Interval) (decimal : Decimal) : Bool :=
  let (numerator, denominator) := decimal.fraction
  if interval.closed then
    interval.low * denominator ≤ numerator && numerator ≤ interval.high * denominator
  else
    interval.low * denominator < numerator && numerator < interval.high * denominator

def Interval.floorAt (interval : Interval) (exponent : Int) : Nat :=
  if 0 ≤ exponent then interval.value / (Nat.pow 10 exponent.toNat * Nat.pow 2 1076)
  else interval.value * Nat.pow 10 (-exponent).toNat / Nat.pow 2 1076

/-- Whether the value lies nearer to `digits + 1` than to `digits`, or halfway. -/
def Interval.nearerAbove (interval : Interval) (digits : Nat) (exponent : Int) : Bool :=
  let (numerator, denominator) := Decimal.fraction ⟨2 * digits + 1, exponent⟩
  numerator ≤ 2 * interval.value * denominator

/-- The decimal nearest to the value among the multiples of `10 ^ exponent` in the interval. -/
def Interval.pick (interval : Interval) (exponent : Int) : Option Decimal :=
  let digits := interval.floorAt exponent
  let below : Decimal := ⟨digits, exponent⟩
  let above : Decimal := ⟨digits + 1, exponent⟩
  match interval.contains below, interval.contains above with
  | true, true => some (if interval.nearerAbove digits exponent then above else below)
  | true, false => some below
  | false, true => some above
  | false, false => none

/-- The first grid, from coarse to fine, that has a point in the interval. -/
def Interval.search (interval : Interval) : Nat → Int → Decimal
  | 0, exponent => ⟨interval.floorAt exponent, exponent⟩
  | tries + 1, exponent =>
      (interval.pick exponent).getD (interval.search tries (exponent - 1))

/-- The shortest decimal of a finite double above zero. No double reaches `10 ^ 309`, and seventeen
digits always read back, so at most the grids from `10 ^ 309` down to `10 ^ (-341)` are tried. -/
def shortest (value : Binary64) : Decimal := value.readingInterval.search 650 309

def Decimal.trim (decimal : Decimal) : List Char × Int :=
  let digits := Nat.toDigits 10 decimal.digits
  let kept := (digits.reverse.dropWhile (· = '0')).reverse
  (kept, decimal.exponent + (digits.length - kept.length : Nat))

def positional (digits : List Char) (exponent : Int) : List Char :=
  if 0 ≤ exponent then digits ++ List.replicate exponent.toNat '0'
  else
    let places := (-exponent).toNat
    if digits.length ≤ places then
      '0' :: '.' :: (List.replicate (places - digits.length) '0' ++ digits)
    else
      digits.take (digits.length - places) ++ '.' :: digits.drop (digits.length - places)

def text (value : Binary64) : String :=
  if infinity.bits ≤ value.bits then "inf"
  else if value.bits = 0 then "0"
  else
    let (digits, exponent) := value.shortest.trim
    String.ofList (positional digits exponent)

end Binary64

end Heed
