import BundleSize.Pattern.Reader

/-!
# Choosing definitions by name

A filter keeps the names that contain a marker and in which a pattern
occurs. Either condition may be absent, and an empty text asks for nothing;
without any condition every name is kept. Who calls the library may bring
any other test of names.

What condition a pattern's text stands for is decided by a library of
patterns.
-/

namespace BundleSize

/-- A condition on names. -/
inductive NameCondition where
  | marker (text : String)
  | pattern (p : Pattern)
  /-- A test of the caller's own. -/
  | test (accepts : String → Bool)

/-- `part` occurs in `whole`. -/
def contains (part : List Char) : (whole : List Char) → Bool
  | [] => part.isEmpty
  | c :: rest => part.isPrefixOf (c :: rest) || contains part rest

theorem contains_iff {part whole : List Char} :
    contains part whole = true ↔ ∃ before after, whole = before ++ part ++ after := by
  induction whole with
  | nil =>
    simp only [contains, List.isEmpty_iff]
    constructor
    · rintro rfl
      exact ⟨[], [], rfl⟩
    · rintro ⟨before, after, h⟩
      simp_all
  | cons c rest ih =>
    simp only [contains, Bool.or_eq_true, List.isPrefixOf_iff_prefix, ih]
    constructor
    · rintro (⟨after, h⟩ | ⟨before, after, h⟩)
      · exact ⟨[], after, by simpa using h.symm⟩
      · exact ⟨c :: before, after, by simp [h]⟩
    · rintro ⟨before, after, h⟩
      cases before with
      | nil => exact Or.inl ⟨after, by simpa using h.symm⟩
      | cons b before =>
        simp only [List.cons_append, List.cons.injEq] at h
        exact Or.inr ⟨before, after, h.2⟩

def NameCondition.keeps : NameCondition → String → Bool
  | marker text, name => contains text.toList name.toList
  | pattern p, name => p.occursIn name
  | test accepts, name => accepts name

/-- The conditions that a name has to meet, all of them. -/
abbrev NameFilter := List NameCondition

/-- A library of patterns: the condition that a pattern's text stands for. -/
class PatternEngine where
  condition : String → Except Pattern.ReadError NameCondition

/-- The patterns that the executables are built with. -/
instance : PatternEngine := ⟨fun text => (Pattern.read text).map .pattern⟩

namespace NameFilter

/-- The name meets every condition. -/
def keeps (filter : NameFilter) (name : String) : Bool := filter.all (·.keeps name)

/-- The filter of a marker and the text of a pattern. -/
def ofTexts [PatternEngine] (marker pattern : Option String) :
    Except Pattern.ReadError NameFilter := do
  let markers : NameFilter :=
    match marker with
    | some text => if text.isEmpty then [] else [.marker text]
    | none => []
  match pattern with
  | some text =>
    if text.isEmpty then return markers
    else return markers ++ [← PatternEngine.condition text]
  | none => return markers

end NameFilter

end BundleSize
