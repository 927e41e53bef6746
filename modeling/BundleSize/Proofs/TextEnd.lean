import BundleSize.Proofs.Adjacency

/-!
# Translations and the end of the minified text

A mapping may lead to the end of the minified text or beyond it, and is then taken to
lead to its end. A start of a range stays there. An exclusive end is moved past its
last character when that character has a mapping of its own, and it is moved last of
all: nothing keeps it from leaving the text (`Translator.Overruns`). This is the only
way out, and it goes one character beyond (`Translator.translate_le_length_iff`).
-/

namespace BundleSize

/-- The position is that of the end of the text, or it lies beyond it. -/
def Text.AtEnd (text : String) (p : Position) : Prop :=
  (lines text).length < p.line ∨ text.length ≤ startOf text (p.line - 1).toNat + p.column

theorem LineIndex.offset_eq_length_iff {x : LineIndex} {p : Position} (h : p.Proper) {offset : Int}
    (hoffset : x.offset p = .ok offset) : offset = x.length ↔ Text.AtEnd x.text p := by
  rw [x.offset_eq_of_proper h] at hoffset
  obtain rfl := Except.ok.inj hoffset
  rw [Text.AtEnd, ← x.length_eq]
  split <;> omega

namespace Translator

variable {t : Translator} {table : PositionTable}

/-- The offset is the end of a range whose last character has a mapping of its own, and that
mapping leads to the end of the minified text or beyond it. -/
def Overruns (t : Translator) (table : PositionTable) (offset : Int) (b : Boundary) : Prop :=
  b = .right ∧ 0 < offset ∧ ∃ m,
    table.Nearest (t.code.position (offset - 1)) m (t.code.position (offset - 1))
      ∧ Text.AtEnd t.minified.text m.generated

theorem target_ne_iff {offset : Int} {b : Boundary} :
    b.target offset ≠ offset ↔ b = .right ∧ 0 < offset := by
  cases b with
  | left => simp [Boundary.target]
  | right =>
      rw [Boundary.target]
      split <;> simp <;> omega

/-- What is found tells whether the offset overruns the text. -/
theorem overruns_iff {offset found : Int} {b : Boundary} {m : Mapping} {q : Position}
    (hnearest : table.Nearest (t.code.position (b.target offset)) m q) (hproper : m.generated.Proper)
    (hfound : t.minified.offset m.generated = .ok found) :
    t.Overruns table offset b ↔ (b.target offset ≠ offset
      ∧ m.sourcePosition = some (t.code.position (b.target offset)))
      ∧ found = t.minified.length := by
  rw [LineIndex.offset_eq_length_iff hproper hfound, target_ne_iff, hnearest.position,
    Option.some.injEq]
  constructor
  · rintro ⟨rfl, hpos, n, hown, hend⟩
    rw [Boundary.target_right hpos] at hnearest ⊢
    obtain ⟨hq, hg⟩ := hnearest.unique hown
    exact ⟨⟨⟨rfl, hpos⟩, hq⟩, hg ▸ hend⟩
  · rintro ⟨⟨⟨rfl, hpos⟩, rfl⟩, hend⟩
    rw [Boundary.target_right hpos] at hnearest
    exact ⟨rfl, hpos, m, hnearest, hend⟩

/-- **A translation stays in the minified text unless it overruns it.** Under a table that leads to
lines and columns which a text can have, inside of it or not, every offset is translated, and
where it goes somewhere that is at most the end of the minified text, except for the end of a
range whose last character is itself mapped to the end or beyond. That one goes one further. -/
theorem translate_le_length_iff (ht : t.table = some table)
    (hproper : ∀ p q, table.Sends p q → q.Proper) (offset : Int) (b : Boundary) :
    ∃ result, t.translate offset b = .ok result
      ∧ ∀ r ∈ result, 0 ≤ r ∧ (r ≤ t.minified.length ↔ ¬t.Overruns table offset b)
        ∧ (t.Overruns table offset b → r = t.minified.length + 1) := by
  cases hfind : table.find? (t.code.position (b.target offset)) .leastUpper with
  | none => exact ⟨none, translate_of_find?_eq_none ht hfind, nofun⟩
  | some m =>
      obtain ⟨q, hnearest⟩ := PositionTable.nearest_of_find? hfind
      have hgenerated := hproper q m.generated hnearest.sends
      obtain ⟨found, hfound, hnonneg, hle⟩ := t.minified.offset_of_proper hgenerated
      refine ⟨_, translate_of_find? ht hfind hfound, fun r hr => ?_⟩
      obtain rfl := Option.mem_some_iff.mp hr
      rw [overruns_iff hnearest hgenerated hfound]
      -- what is found lies in the text, so only the step past the last character can leave it
      by_cases hmoved : b.target offset ≠ offset
          ∧ m.sourcePosition = some (t.code.position (b.target offset))
      · rw [if_pos hmoved, and_iff_right hmoved]
        omega
      · rw [if_neg hmoved]
        simp only [hmoved, false_and, not_false_eq_true, iff_true, false_implies, and_true]
        exact ⟨hnonneg, hle⟩

/-- The second character goes behind the only one that is left. -/
def overrunningTable : PositionTable :=
  .ofMappings
    [⟨⟨1, 0⟩, some (.string "0"), some ⟨1, 0⟩, none⟩,
      ⟨⟨1, 1⟩, some (.string "0"), some ⟨1, 1⟩, none⟩] none

def overrunning : Translator := .ofTexts "ab" (some "x") (some overrunningTable)

theorem overrunningTable_proper : ∀ p q, overrunningTable.Sends p q → q.Proper :=
  PositionTable.forall_sends.mpr (by decide)

theorem translate_le_length_iff_overrunning :
    (∀ p q, overrunningTable.Sends p q → q.Proper) ∧ overrunning.minified.length = 1
      ∧ overrunning.translate 2 .right = .ok (some 2)
      ∧ overrunning.Overruns overrunningTable 2 .right
      ∧ overrunning.translate 1 .left = .ok (some 1)
      ∧ ¬overrunning.Overruns overrunningTable 1 .left := by
  have hlength : overrunning.minified.length = 1 := by cbv
  have hright : overrunning.translate 2 .right = .ok (some 2) := by cbv
  have hleft : overrunning.translate 1 .left = .ok (some 1) := by cbv
  obtain ⟨_, hresult, hbounds⟩ :=
    translate_le_length_iff (t := overrunning) rfl overrunningTable_proper 2 .right
  obtain ⟨_, hresult', hbounds'⟩ :=
    translate_le_length_iff (t := overrunning) rfl overrunningTable_proper 1 .left
  obtain rfl := Except.ok.inj (hright.symm.trans hresult)
  obtain rfl := Except.ok.inj (hleft.symm.trans hresult')
  obtain ⟨-, hiff, -⟩ := hbounds 2 rfl
  obtain ⟨-, hiff', -⟩ := hbounds' 1 rfl
  rw [hlength] at hiff hiff'
  refine ⟨overrunningTable_proper, hlength, hright, ?_, hleft, hiff'.mp (by decide)⟩
  by_contra hinside
  exact absurd (hiff.mpr hinside) (by decide)

/-- The end of the text bounds what is found for an offset, not where the offset goes. -/
theorem not_translate_le_length :
    ¬∀ (code minified : String) (table : PositionTable) (offset : Int) (b : Boundary),
      (∀ m ∈ table.mappings, m.generated.Proper) → 0 ≤ offset → offset ≤ code.length →
      ∃ result, (Translator.ofTexts code (some minified) (some table)).translate offset b
          = .ok result
        ∧ ∀ r ∈ result, 0 ≤ r ∧ r ≤ minified.length := by
  intro hinside
  obtain ⟨_, hresult, hbounds⟩ := hinside "ab" "x" overrunningTable 2 .right (by decide)
    (by decide) (by decide)
  have hright : overrunning.translate 2 .right = .ok (some 2) := by cbv
  obtain rfl := Except.ok.inj (hright.symm.trans hresult)
  obtain ⟨-, hle⟩ := hbounds 2 rfl
  exact absurd hle (by decide)

end Translator

end BundleSize
