/-!
# Rounding to double precision

Percentages are computed in double-precision arithmetic. The arithmetic is
stated on exact rationals: an operation's exact result is rounded to the
nearest value with 53 significant binary digits and an exponent of at least
-1074, a tie going to the even last digit. A result of 2^1024 or more has
no value.

A decimal that a document gives where a whole number is expected is kept as
a double, with the infinities and the value that is no number. The sign of
zero is of no consequence and not kept.
-/

namespace BundleSize

/-- The nearest integer; halfway between two, the even one. -/
def roundEven (x : Rat) : Int :=
  let low := x.floor
  let fraction := x - low
  if fraction < 1 / 2 then low
  else if 1 / 2 < fraction then low + 1
  else if low % 2 = 0 then low
  else low + 1

namespace Binary64

/-- The power of two with exponent `e`. -/
def powerOfTwo (e : Int) : Rat :=
  if 0 ≤ e then mkRat (Nat.pow 2 e.toNat) 1 else mkRat 1 (Nat.pow 2 (-e).toNat)

/-- The greatest exponent whose power of two is at most `x`, for positive `x`. -/
def binade (x : Rat) : Int :=
  let k := (Nat.log2 x.num.natAbs : Int) - Nat.log2 x.den
  if powerOfTwo k ≤ x then k else k - 1

/-- The exponent of the last binary digit that the value next to `x` keeps. -/
def lastPlace (x : Rat) : Int := max (binade x - 52) (-1074)

/-- The nearest value of unbounded size to a non-negative rational. -/
def nearest (x : Rat) : Rat :=
  if x = 0 then 0
  else
    let unit := powerOfTwo (lastPlace x)
    roundEven (x / unit) * unit

/-- The nearest value to a non-negative rational, when it is in range. -/
def nearest? (x : Rat) : Option Rat :=
  let y := nearest x
  if y < powerOfTwo 1024 then some y else none

end Binary64

/-- A double. -/
inductive Double where
  | finite (x : Rat)
  | infinite (negative : Bool)
  | notANumber
  deriving Repr, DecidableEq

namespace Double

/-- A magnitude with its sign. -/
def signed (negative : Bool) (magnitude : Rat) : Rat := if negative then -magnitude else magnitude

/-- The double next to a rational; one that is out of range is infinite. -/
def ofRat (x : Rat) : Double :=
  let negative := decide (x < 0)
  match Binary64.nearest? (signed negative x) with
  | some y => .finite (signed negative y)
  | none => .infinite negative

/-- The double next to a whole number, when that is in range. -/
def ofInt? (n : Int) : Option Double :=
  (Binary64.nearest? n.natAbs).map fun y => .finite (signed (n < 0) y)

/-- The sum of two doubles. -/
def add : Double → Double → Double
  | .finite x, .finite y => ofRat (x + y)
  | .finite _, .infinite negative => .infinite negative
  | .infinite negative, .finite _ => .infinite negative
  | .infinite negative, .infinite negative' =>
    if negative = negative' then .infinite negative else .notANumber
  | _, _ => .notANumber

end Double

end BundleSize
