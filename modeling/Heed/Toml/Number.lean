import Heed.Toml.Scanner

/-!
# Numbers

Integers are signed and have 64 bits. Floating point numbers are kept as they are written; one that is
too large to be a finite double is refused, unless it is negative.
-/

set_option autoImplicit false

namespace Heed.Toml

open Scanner

inductive Magnitude where
  /-- So many times a power of ten. -/
  | finite (digits : Nat) (exponent : Int)
  | infinite
  | nan
deriving DecidableEq, Repr

structure FloatLiteral where
  negative : Bool
  magnitude : Magnitude
deriving DecidableEq, Repr

namespace Number

def sign : Scanner Bool :=
  oneOf [(fun _ => true) <$> expect '-', (fun _ => false) <$> expect '+', pure false]

/-- Decimal digits that do not start with a zero, unless there is only that. -/
def wholePart : Scanner (List Char) := do
  match ← next? with
  | some '0' => expect '0'; return ['0']
  | _ => digitGroups isDecimal

def based (mark : Char) (base : Nat) (accepts : Char → Bool) : Scanner Int := do
  expect '0'
  expect mark
  return (numeral base (← digitGroups accepts) : Int)

def decimal : Scanner Int := do
  let negative ← sign
  let value : Int := numeral 10 (← wholePart)
  return if negative then -value else value

def isLong (value : Int) : Bool := 
  -9223372036854775808 ≤ value && value ≤ 9223372036854775807

def integer : Scanner Int := do
  let value ← oneOf
    [based 'x' 16 isHexadecimal,
     based 'o' 8 (fun char => '0' ≤ char && char ≤ '7'),
     based 'b' 2 (fun char => char == '0' || char == '1'),
     decimal]
  if isLong value then return value else failure

def exponent : Scanner Int := do
  discard (satisfy fun char => char == 'e' || char == 'E')
  let negative ← sign
  let value : Int := numeral 10 (← digitGroups isDecimal)
  return if negative then -value else value

def fraction : Scanner (List Char) := do
  expect '.'
  digitGroups isDecimal

/-- Whether `digits` times a power of ten rounds to a finite double: it is below the middle between the
greatest double and the next power of two. The number of digits decides unless it is close to that. -/
def isFinite (digits : Nat) (exponent : Int) : Bool :=
  let places := (Nat.toDigits 10 digits).length + exponent
  if digits = 0 ∨ places < 300 then true
  else if 310 < places then false
  else
    let bound := Nat.pow 2 1024 - Nat.pow 2 970
    if 0 ≤ exponent then digits * Nat.pow 10 exponent.toNat < bound
    else digits < bound * Nat.pow 10 (-exponent).toNat

def finite : Scanner FloatLiteral := do
  let negative ← sign
  let whole ← wholePart
  let (part, power) ← either
    (do return ([], ← exponent))
    (do return (← fraction, (← perhaps exponent).getD 0))
  let digits := numeral 10 (whole ++ part)
  let exponent := power - part.length
  if negative || isFinite digits exponent then
    return { negative, magnitude := .finite digits exponent }
  else failure

def special : Scanner FloatLiteral := do
  let negative ← sign
  let magnitude ← either
    ((fun _ => Magnitude.infinite) <$> expectAll "inf")
    ((fun _ => Magnitude.nan) <$> expectAll "nan")
  return { negative, magnitude }

def real : Scanner FloatLiteral := either finite special

end Number

end Heed.Toml
