/-!
# Lines of a text

A line feed ends a line, and nothing else does. Text files may end their
lines with a carriage return, alone or before a line feed; reading a text
file turns both forms into a line feed.
-/

namespace BundleSize.Text

/-- Writes every line end as one line feed. -/
def unifyLineEnds : List Char → List Char
  | [] => []
  | '\r' :: '\n' :: rest => '\n' :: unifyLineEnds rest
  | c :: rest => (if c = '\r' then '\n' else c) :: unifyLineEnds rest

theorem carriageReturn_not_mem_unifyLineEnds (s : List Char) : '\r' ∉ unifyLineEnds s := by
  fun_induction unifyLineEnds s with
  | case1 => simp
  | case2 rest ih => simpa using ih
  | case3 c rest _ ih =>
    by_cases h : c = '\r'
    · simpa [h] using ih
    · simpa [h] using ⟨Ne.symm h, ih⟩

/-- The offsets just after each line feed of a text whose first character has offset `at_`. -/
def lineStartsFrom (at_ : Nat) : List Char → List Nat
  | [] => []
  | c :: rest =>
    if c = '\n' then (at_ + 1) :: lineStartsFrom (at_ + 1) rest
    else lineStartsFrom (at_ + 1) rest

/-- The offsets at which the lines of a text begin; the first line begins at zero. -/
def lineStarts (s : String) : List Nat := 0 :: lineStartsFrom 0 s.toList

/-- The pieces of a text between its occurrences of `separator`. -/
def splitAt (separator : Char) : List Char → List (List Char)
  | [] => [[]]
  | c :: rest =>
    match splitAt separator rest with
    | [] => [[c]]
    | piece :: pieces => if c = separator then [] :: piece :: pieces else (c :: piece) :: pieces

theorem splitAt_ne_nil (separator : Char) (s : List Char) : splitAt separator s ≠ [] := by
  cases s with
  | nil => simp [splitAt]
  | cons c rest => simp only [splitAt]; split <;> (try split) <;> simp

/-- The lines of a text, without their line feeds. -/
def lines (s : String) : List String := (splitAt '\n' s.toList).map String.ofList

end BundleSize.Text
