import BundleSize.Text.Character
import BundleSize.Text.Quoted

/-!
# Whole numbers in texts

A whole number of a setting is written with decimal digits of any script, an optional
sign before them, single underscores between them, and blanks around the
whole. Of the ASCII controls only those that move the cursor are blank
here. More than 4300 digits are refused, in a text that is read and in one
that is written: a message that would show a longer number is not made, and
what wanted to give it fails.
-/

namespace BundleSize.Text

/-- Why a text is not read as a whole number. -/
inductive IntegerError where
  | malformed (text : String)
  | tooLong (digits : Nat)
  deriving Repr, DecidableEq

/-- The most digits a number may have. -/
def maxDigits : Nat := 4300

/-- A malformed text is shown between quotes, cut after two hundred characters. -/
def IntegerError.message : IntegerError → String
  | .malformed text =>
    "invalid literal for int() with base 10: " ++ String.ofList ((quoted text).toList.take 200)
  | .tooLong digits =>
    "Exceeds the limit (" ++ toString maxDigits ++ " digits) for integer string conversion: value has "
      ++ toString digits ++ " digits; use sys.set_int_max_str_digits() to increase the limit"

/-- A blank that may stand around a number. -/
def isNumberBlank (c : Char) : Bool :=
  if c.toNat < 127 then c = ' ' || (9 ≤ c.toNat && c.toNat ≤ 13) else isBlank c

/-- The digit values of a run of digits with single underscores between them. -/
def digitRun : List Char → Option (List Nat)
  | [] => some []
  | '_' :: c :: rest => do
    let d ← digitValue? c
    let ds ← digitRun rest
    return d :: ds
  | c :: rest => do
    let d ← digitValue? c
    let ds ← digitRun rest
    return d :: ds

/-- The number with the given decimal digits, the first the most significant. -/
def ofDigits (digits : List Nat) : Nat := digits.foldl (fun n d => n * 10 + d) 0

/-- The number that a text without blanks and sign writes. Its first stretch of digits and
underscores has to be well formed and not too long before anything after it is looked at. -/
def readMagnitude (text : String) (body : List Char) : Except IntegerError Nat :=
  let stretch := body.takeWhile fun c => c = '_' || isDecimal c
  if stretch.head? = some '_' then .error (.malformed text)
  else
    match digitRun stretch with
    | none => .error (.malformed text)
    | some digits =>
      if maxDigits < digits.length then .error (.tooLong digits.length)
      else if digits.isEmpty || stretch.length < body.length then .error (.malformed text)
      else .ok (ofDigits digits)

/-- Reads a whole number. -/
def readInteger (s : String) : Except IntegerError Int :=
  let core := ((s.toList.dropWhile isNumberBlank).reverse.dropWhile isNumberBlank).reverse
  match core with
  | '-' :: body => (readMagnitude s body).map fun n => -(n : Int)
  | '+' :: body => (readMagnitude s body).map Int.ofNat
  | body => (readMagnitude s body).map Int.ofNat

/-! ## Writing -/

/-- The number has no more digits than can be written. -/
def isWritable (n : Int) : Bool := (Nat.toDigits 10 n.natAbs).length ≤ maxDigits

theorem isWritable_of_le {m n : Int} (hnonneg : 0 ≤ m) (hle : m ≤ n) (h : isWritable n = true) :
    isWritable m = true := by
  have hdigits {x : Nat} := Nat.length_toDigits_le_iff (n := x) (by decide : 1 < 10)
    (by decide : 0 < maxDigits)
  have hmagnitude : m.natAbs ≤ n.natAbs := by omega
  have hshort := hdigits.mp (of_decide_eq_true h)
  exact decide_eq_true (hdigits.mpr (Nat.lt_of_le_of_lt hmagnitude hshort))

/-- What is said where a number has more digits than can be written. -/
def tooLongMessage : String :=
  "Exceeds the limit (" ++ toString maxDigits
    ++ " digits) for integer string conversion; use sys.set_int_max_str_digits() to increase the limit"

end BundleSize.Text
