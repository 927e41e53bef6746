/-!
# Base64 variable-length quantities

A whole number is written as a run of Base64 digits. The sign is the lowest
bit of the number's magnitude doubled; the result is cut into groups of
five bits from the least significant on; a digit holds one group, and its
sixth bit says that another group follows.

Reading keeps the value of the groups read so far and the weight of the
next one. A run that ends while a group is still announced is cut short.
`Spells` says without reading which texts are complete, and what they spell.
-/

namespace BundleSize.Vlq

/-- The 64 digits in order of their values. -/
def alphabet : List Char :=
  "ABCDEFGHIJKLMNOPQRSTUVWXYZabcdefghijklmnopqrstuvwxyz0123456789+/".toList

/-- The value of a digit. -/
def digitValue? (c : Char) : Option Nat :=
  if 'A' ≤ c ∧ c ≤ 'Z' then some (c.toNat - 'A'.toNat)
  else if 'a' ≤ c ∧ c ≤ 'z' then some (c.toNat - 'a'.toNat + 26)
  else if '0' ≤ c ∧ c ≤ '9' then some (c.toNat - '0'.toNat + 52)
  else if c = '+' then some 62
  else if c = '/' then some 63
  else none

/-- The digit of a value below 64. -/
def digitOf (n : Nat) : Char := alphabet.getD n 'A'

theorem digitValue?_digitOf : ∀ n < 64, digitValue? (digitOf n) = some n := by decide +kernel

/-- Why a text is not a sequence of numbers. -/
inductive Error where
  | invalidDigit (c : Char)
  | truncated
  deriving Repr, DecidableEq

/-- The number whose doubled magnitude with the sign as lowest bit is `n`. -/
def unfoldSign (n : Nat) : Int := if n % 2 = 1 then -((n / 2 : Nat) : Int) else ((n / 2 : Nat) : Int)

/-- Reads on inside a number: `value` is the value of its groups so far, `shift` the weight of
the next group as a power of two. -/
def decodeFrom (value shift : Nat) : List Char → Except Error (List Int)
  | [] => if value = 0 ∧ shift = 0 then .ok [] else .error .truncated
  | c :: rest =>
    match digitValue? c with
    | none => .error (.invalidDigit c)
    | some digit =>
      let value := value + (digit % 32) <<< shift
      if digit < 32 then (decodeFrom 0 0 rest).map (unfoldSign value :: ·)
      else decodeFrom value (shift + 5) rest

/-- The numbers of a run of digits. -/
def decode (text : List Char) : Except Error (List Int) := decodeFrom 0 0 text

/-- The doubled magnitude of a number with its sign as lowest bit. -/
def foldSign (n : Int) : Nat := if n < 0 then 2 * n.natAbs + 1 else 2 * n.natAbs

theorem unfoldSign_foldSign (n : Int) : unfoldSign (foldSign n) = n := by
  unfold unfoldSign foldSign
  split <;> split <;> omega

/-- The digits of a number that is already folded with its sign. -/
def encodeGroups (n : Nat) : List Char :=
  if n < 32 then [digitOf n] else digitOf (32 + n % 32) :: encodeGroups (n / 32)

/-- The digits of a number. -/
def encodeOne (n : Int) : List Char := encodeGroups (foldSign n)

/-- The digits of a sequence of numbers. -/
def encode (ns : List Int) : List Char := ns.flatMap encodeOne

/-- The digits, of which the last one alone announces no group behind it, spell a number that is
folded with its sign. They need not be the digits that it is written with. -/
inductive SpellsOne : List Char → Nat → Prop where
  | last {c : Char} {digit : Nat} : digitValue? c = some digit → digit < 32 → SpellsOne [c] digit
  | group {c : Char} {digit n : Nat} {digits : List Char} : digitValue? c = some digit →
      32 ≤ digit → SpellsOne digits n → SpellsOne (c :: digits) (digit % 32 + 32 * n)

/-- The text spells the numbers one after the other. -/
inductive Spells : List Char → List Int → Prop where
  | nil : Spells [] []
  | cons {digits rest : List Char} {n : Nat} {ns : List Int} :
      SpellsOne digits n → Spells rest ns → Spells (digits ++ rest) (unfoldSign n :: ns)

end BundleSize.Vlq
