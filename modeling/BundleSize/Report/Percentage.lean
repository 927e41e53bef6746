import BundleSize.Numeric.Binary64
import BundleSize.Text.Integer

/-!
# Percentages

A part of a whole is written as a percentage with three decimals. The
quotient and its hundredfold are each rounded to double precision, and the
decimals are rounded from the exact value of that result, a tie going to
the even last decimal. A whole that is not positive makes every part zero
per cent.
-/

namespace BundleSize

/-- Why a report is not made or not shown. -/
inductive PercentageError where
  /-- A quotient is too large for double precision. -/
  | tooLarge
  /-- A number of characters has too many digits to be written. -/
  | tooLong
  deriving Repr, DecidableEq

def PercentageError.message : PercentageError → String
  | .tooLarge => "integer division result too large for a float"
  | .tooLong => Text.tooLongMessage

namespace Percentage

/-- Thousandths of a per cent of the magnitudes `part` in `whole`; `none` when the hundredfold
is out of range. -/
def thousandths (part whole : Nat) : Except PercentageError (Option Nat) :=
  match Binary64.nearest? (mkRat part whole) with
  | none => .error .tooLarge
  | some quotient =>
    .ok ((Binary64.nearest? (quotient * 100)).map fun percent => (roundEven (percent * 1000)).toNat)

/-- A number of thousandths with a decimal point and exactly three decimals. -/
def decimals (n : Nat) : String :=
  let fraction := toString (n % 1000)
  toString (n / 1000) ++ "." ++ String.ofList (List.replicate (3 - fraction.length) '0') ++ fraction

/-- The percentage that `value` is of `of`. -/
def render (value of : Int) : Except PercentageError String :=
  if of ≤ 0 then .ok "0.000%"
  else do
    let magnitude ← thousandths value.natAbs of.toNat
    let sign := if value < 0 then "-" else ""
    return sign ++ (match magnitude with | none => "inf" | some n => decimals n) ++ "%"

end Percentage

end BundleSize
