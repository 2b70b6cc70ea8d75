/-!
# Double precision numbers as bit patterns

A decimal number is read to the nearest double, a half going to the even neighbour. All arithmetic is
exact arithmetic on natural numbers, and the result is the bit pattern of the double. Only numbers that
are not negative occur.

A pattern below `2 ^ 52` is a subnormal number, `pattern` times the smallest unit `2 ^ (-1074)`. In
general the pattern `scale * 2 ^ 52 + mantissa`, with `mantissa` at least `2 ^ 52` unless `scale` is
zero, stands for `mantissa * 2 ^ scale` units.
-/

set_option autoImplicit false

namespace Heed

structure Binary64 where
  bits : Nat
deriving DecidableEq, Repr, Inhabited

namespace Binary64

/-- The pattern of infinity: all finite patterns are smaller. -/
def infinity : Binary64 := ⟨2047 * Nat.pow 2 52⟩

/-- The quotient rounded to the nearest number, a half going to the even one. -/
def roundDiv (numerator denominator : Nat) : Nat :=
  let quotient := numerator / denominator
  let remainder := numerator % denominator
  if 2 * remainder < denominator then quotient
  else if 2 * remainder = denominator then quotient + quotient % 2
  else quotient + 1

/-- The number of doublings of the unit that leaves a quotient of 53 binary digits, or none. -/
def scaleOf (units : Nat) : Nat := units.log2 - 52

def ofDecimal (digits places : Nat) : Binary64 :=
  let numerator := digits * Nat.pow 2 1074
  let denominator := Nat.pow 10 places
  let scale := scaleOf (numerator / denominator)
  let pattern := scale * Nat.pow 2 52 + roundDiv numerator (denominator * Nat.pow 2 scale)
  if pattern < infinity.bits then ⟨pattern⟩ else infinity

/-- The mantissa of a finite double, in units of `2 ^ scale` times the smallest unit. -/
def mantissa (value : Binary64) : Nat :=
  if value.bits < Nat.pow 2 52 then value.bits else Nat.pow 2 52 + value.bits % Nat.pow 2 52

def scale (value : Binary64) : Nat := value.bits / Nat.pow 2 52 - 1

def digitsValue (chars : List Char) : Nat :=
  chars.foldl (fun value char => 10 * value + (char.toNat - '0'.toNat)) 0

/-- Reads digits with an optional fraction. Underscores between digits are ignored. -/
def ofChars (chars : List Char) : Binary64 :=
  let plain := chars.filter (· ≠ '_')
  let whole := plain.takeWhile (· ≠ '.')
  let fraction := (plain.dropWhile (· ≠ '.')).drop 1
  ofDecimal (digitsValue (whole ++ fraction)) fraction.length

end Binary64

end Heed
