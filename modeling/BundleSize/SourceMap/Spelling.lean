import BundleSize.SourceMap.Decoding
import Mathlib.Data.Nat.Digits.Defs

/-!
# Spellings of quantities

Which texts are sequences of numbers, and of which, said of a text as a whole.
A text is complete if it consists of digits and the last of them announces no
further group (`Complete`). It then falls into spellings, each of which ends
with the first such digit (`IsSpelling`). The number of a spelling is computed
from all its groups at once (`number`), whatever they are: groups of zeros at
the end add nothing, and a zero may have the sign of a negative number.

A text that is not complete is refused for the first character in it that is no
digit, or else as cut short (`refusal`). Refusals quote the text that they are
found in, so a text that stands behind another is refused for the same reason,
with both quoted (`MapError.foundIn`).
-/

namespace BundleSize

namespace Vlq

/-- The value of a digit: its place in the alphabet. -/
def placeOf (c : Char) : Nat := alphabet.idxOf c

/-- The sixth bit of the digit is not set, so that no group follows its own. -/
def isFinal (c : Char) : Bool := placeOf c < 32

/-- The text consists of digits, and no group is announced at its end. -/
structure Complete (text : List Char) : Prop where
  digits : ∀ c ∈ text, c ∈ alphabet
  final : ∀ c ∈ text.getLast?, isFinal c = true

theorem complete_iff {text : List Char} : Complete text ↔
    text.all (· ∈ alphabet) = true ∧ text.getLast?.all isFinal = true := by
  rw [List.all_eq_true, Option.all_eq_true]
  exact ⟨fun h => ⟨fun c hc => decide_eq_true (h.digits c hc), h.final⟩,
    fun h => ⟨fun c hc => of_decide_eq_true (h.1 c hc), h.2⟩⟩

instance (text : List Char) : Decidable (Complete text) := decidable_of_iff' _ complete_iff

/-- The text consists of digits, of which the last alone is final. -/
structure IsSpelling (text : List Char) : Prop where
  digits : ∀ c ∈ text, c ∈ alphabet
  more : ∀ c ∈ text.dropLast, isFinal c = false
  final : ∃ c ∈ text.getLast?, isFinal c = true

/-- The sum of the groups, which are the lower five bits of the digits, weighted by the powers
of 32. -/
def groupSum (spelling : List Char) : Nat := Nat.ofDigits 32 (spelling.map (placeOf · % 32))

/-- The number of a spelling: the lowest bit of the sum is the sign, the rest the magnitude. -/
def number (spelling : List Char) : Int :=
  (-1) ^ (groupSum spelling % 2) * (groupSum spelling / 2 : Nat)

end Vlq

/-- Why a text that is not complete is no sequence of numbers. -/
def refusal (text : List Char) : MapError :=
  match text.find? (· ∉ Vlq.alphabet) with
  | some c => .invalidDigit c (String.ofList text)
  | none => .truncatedNumber (String.ofList text)

/-- An error of reading numbers, with another text as the one that it is found in. -/
def MapError.foundIn (text : List Char) : MapError → MapError
  | .invalidDigit c _ => .invalidDigit c (String.ofList text)
  | .truncatedNumber _ => .truncatedNumber (String.ofList text)
  | e => e

end BundleSize
