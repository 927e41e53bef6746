import BundleSize.Json.Value

/-!
# Mappings

A mapping ties a position in generated text to a position in a source
file, and may name the symbol found there. A mapping without a source says
that the generated text from there on comes from no file.

Lines count from one and columns from zero. Both may be any whole number: a
section offset of an indexed document may carry a mapping out of the text.
-/

namespace BundleSize

/-- A place in a text. -/
structure Position where
  line : Int
  column : Int
  deriving Repr, DecidableEq, Inhabited

namespace Position

/-- The order in which a text is read: by line, and by column within a line. -/
def before (p q : Position) : Bool :=
  p.line < q.line || (p.line == q.line && p.column < q.column)

/-- Before or at. -/
def upTo (p q : Position) : Bool := !q.before p

/-- A line of a text, and a column that is not before the line. -/
def Proper (p : Position) : Prop := 1 ≤ p.line ∧ 0 ≤ p.column

instance (p : Position) : Decidable p.Proper :=
  inferInstanceAs (Decidable (1 ≤ p.line ∧ 0 ≤ p.column))

theorem before_iff {p q : Position} :
    p.before q = true ↔ p.line < q.line ∨ p.line = q.line ∧ p.column < q.column := by
  simp [before]

theorem upTo_iff {p q : Position} :
    p.upTo q = true ↔ p.line < q.line ∨ p.line = q.line ∧ p.column ≤ q.column := by
  simp only [upTo, Bool.not_eq_true', ← Bool.not_eq_true, before_iff]
  omega

theorem upTo_trans {p q r : Position} (h₁ : p.upTo q = true) (h₂ : q.upTo r = true) :
    p.upTo r = true := by
  rw [upTo_iff] at *
  omega

theorem upTo_total (p q : Position) : (p.upTo q || q.upTo p) = true := by
  rw [Bool.or_eq_true, upTo_iff, upTo_iff]
  omega

/-! ## Positions by walking through a text

A position moves on with every character: behind a line feed to the beginning of the
next line, behind any other character by as many columns as that character is wide.
What counts as one column differs: characters are counted one by one, in
bytes, or in the units of another encoding. -/

/-- The position behind a character that stands at the position. -/
def past (width : Char → Nat) (p : Position) (c : Char) : Position :=
  if c = '\n' then ⟨p.line + 1, 0⟩ else ⟨p.line, p.column + width c⟩

/-- The position behind the beginning of a text. -/
def behind (width : Char → Nat) (beginning : List Char) : Position :=
  beginning.foldl (past width) ⟨1, 0⟩

end Position

/-- The name that a document gives to a source or to a symbol. Documents write strings; any other
value is carried along as it is. -/
abbrev Label := Json

/-- One entry of a position mapping table. -/
structure Mapping where
  generated : Position
  source : Option Label
  sourcePosition : Option Position
  name : Option Label
  deriving Repr, BEq, Inhabited

end BundleSize
