import BundleSize.Proofs.RangeOrder

/-!
# Where one construct ends and the next begins

The end of a construct and the start of the construct that begins right there
are one offset, translated twice: for the end, the character before the offset
is looked up, for the start the character at it. Under a table that keeps the
order of the source the first lookup finds nothing later than the second, so
only moving an exclusive end past its last character can carry it further.

That happens in exactly one case (`right_le_left_iff`): the last character has
a mapping of its own, and the construct that begins behind it goes to the same
generated character (`Translator.Joined`). The end is then moved past that
character and the start is not, so the two differ by one. A monotone table may
hold such a pair (`joinedTable`), a strictly monotone one does not
(`not_joined_of_strictlyMonotone`).
-/

namespace BundleSize

namespace PositionTable

/-- All lookups at a position find the same source position and the same generated position. -/
theorem Nearest.unique {t : PositionTable} {p : Position} {m m' : Mapping} {q q' : Position}
    (h : t.Nearest p m q) (h' : t.Nearest p m' q') : q = q' ∧ m.generated = m'.generated := by
  rcases h.mono h' (Position.upTo_refl p) with hlt | heq
  · rcases h'.mono h (Position.upTo_refl p) with hgt | ⟨rfl, -⟩
    · exact absurd hlt (Position.not_before.mpr (Position.upTo_of_before hgt))
    · exact absurd hlt (Position.not_before.mpr (Position.upTo_refl _))
  · exact heq

end PositionTable

namespace Translator

variable {t : Translator} {table : PositionTable}

/-- The character before the offset has a mapping of its own, and what is found from the offset on
goes to the same generated position. -/
def Joined (t : Translator) (table : PositionTable) (offset : Int) : Prop :=
  ∃ m m' q', table.Nearest (t.code.position (offset - 1)) m (t.code.position (offset - 1))
    ∧ table.Nearest (t.code.position offset) m' q' ∧ m.generated = m'.generated

theorem not_joined_of_strictlyMonotone (hstrict : table.StrictlyMonotone) {offset : Int}
    (hpos : 0 < offset) : ¬t.Joined table offset := by
  rintro ⟨m, m', q', hown, hnext, hshared⟩
  have hlt : (t.code.position (offset - 1)).before (t.code.position offset) = true :=
    LineIndex.position_before (by omega) (by omega)
  have hgenerated : m.generated.before m'.generated = true :=
    hstrict _ _ _ _ hown.sends hnext.sends (Position.before_of_before_of_upTo hlt hnext.upTo)
  rw [hshared] at hgenerated
  exact Position.not_before.mpr (Position.upTo_refl _) hgenerated

/-- Landings of the two ends show whether they are joined. -/
theorem joined_iff_of_lands {offset : Int} {q q' : Position} {found found' : Int}
    (hpos : 0 < offset) (h : t.Lands table offset .right q found)
    (h' : t.Lands table offset .left q' found') :
    t.Joined table offset ↔ q = t.code.position (offset - 1) ∧ found = found' := by
  obtain ⟨m, hnearest, hm⟩ := h.nearest
  obtain ⟨m', hnearest', hm'⟩ := h'.nearest
  rw [Boundary.target_right hpos] at hnearest
  constructor
  · rintro ⟨n, n', p', hown, hnext, hshared⟩
    obtain ⟨hq, hg⟩ := hnearest.unique hown
    obtain ⟨-, hg'⟩ := hnearest'.unique hnext
    have hsame : t.minified.position found = t.minified.position found' := by
      rw [← hm, ← hm', hg, hg', hshared]
    exact ⟨hq, LineIndex.position_inj h.nonneg h'.nonneg hsame⟩
  · rintro ⟨rfl, rfl⟩
    exact ⟨m, m', q', hnearest, hnearest', hm.trans hm'.symm⟩

/-- The lookup for the end lands no later than the one for the start, and earlier in the source
when it finds the last character itself. -/
theorem Lands.right_found_le_left {offset : Int} {q q' : Position} {found found' : Int}
    (h : t.Lands table offset .right q found) (h' : t.Lands table offset .left q' found')
    (hmono : table.Monotone) (hpos : 0 < offset) : found ≤ found' := by
  have htarget : Boundary.right.target offset = offset - 1 := Boundary.target_right hpos
  rcases h.mono h' (by omega) (by rw [htarget, Boundary.target]; omega) with hlt | ⟨-, heq⟩
  · exact (LineIndex.position_upTo_iff h.nonneg h'.nonneg).mp
      (hmono q _ q' _ h.sends h'.sends hlt)
  · exact Int.le_of_eq heq

/-- **An end passes the start that follows it only where the two are joined.** Under a monotone
table into the lines of the minified text, let both translations of an offset go somewhere. The
exclusive end is at most the start, unless the last character of the one construct and the first
mapping of the next share their generated position; in that case it is the character behind. -/
theorem right_le_left_iff (ht : t.table = some table)
    (hinside : ∀ p q, table.Sends p q → Text.InLine t.minified.text q) (hmono : table.Monotone)
    {offset right left : Int} (hpos : 0 < offset)
    (hright : t.translate offset .right = .ok (some right))
    (hleft : t.translate offset .left = .ok (some left)) :
    (right ≤ left ↔ ¬t.Joined table offset)
      ∧ (t.Joined table offset → right = left + 1) := by
  have hstands := standsUpTo_of_inLine hinside
  obtain ⟨q, found, hlands, -, rfl⟩ := lands_of_translate ht hstands (Int.le_refl _) hright
  obtain ⟨q', found', hlands', -, rfl⟩ := lands_of_translate ht hstands (Int.le_refl _) hleft
  have hfound := hlands.right_found_le_left hlands' hmono hpos
  rw [joined_iff_of_lands hpos hlands hlands', landing_left, landing, Boundary.target_right hpos]
  have hmoved : offset - 1 ≠ offset := by omega
  by_cases hown : q = t.code.position (offset - 1)
  · -- the end is moved past its last character
    rw [if_pos ⟨hmoved, hown⟩]
    simp only [hown, true_and]
    omega
  · rw [if_neg fun h => hown h.2]
    simp only [hown, false_and, not_false_eq_true, iff_true, false_implies, and_true]
    exact hfound

/-- The semicolon goes to the place of the name behind it. -/
def joinedTable : PositionTable :=
  .ofMappings
    [⟨⟨1, 0⟩, some (.string "0"), some ⟨1, 0⟩, none⟩,
      ⟨⟨1, 2⟩, some (.string "0"), some ⟨1, 3⟩, none⟩,
      ⟨⟨1, 2⟩, some (.string "0"), some ⟨1, 4⟩, none⟩,
      ⟨⟨1, 4⟩, some (.string "0"), some ⟨1, 6⟩, none⟩] none

def joined : Translator := .ofTexts "a=1;b=1" (some "a=b=1") (some joinedTable)

theorem right_le_left_iff_joined :
    (∀ p q, joinedTable.Sends p q → Text.InLine joined.minified.text q) ∧ joinedTable.Monotone
      ∧ joined.translate 4 .right = .ok (some 3) ∧ joined.translate 4 .left = .ok (some 2)
      ∧ joined.Joined joinedTable 4
      ∧ joined.translate 6 .right = .ok (some 4) ∧ joined.translate 6 .left = .ok (some 4)
      ∧ ¬joined.Joined joinedTable 6 := by
  have hinside : ∀ p q, joinedTable.Sends p q → Text.InLine joined.minified.text q :=
    PositionTable.forall_sends.mpr (by decide)
  have hmono : joinedTable.Monotone := by decide
  have hright : joined.translate 4 .right = .ok (some 3) := by cbv
  have hleft : joined.translate 4 .left = .ok (some 2) := by cbv
  have hright' : joined.translate 6 .right = .ok (some 4) := by cbv
  have hleft' : joined.translate 6 .left = .ok (some 4) := by cbv
  obtain ⟨hiff, -⟩ := right_le_left_iff rfl hinside hmono (by decide) hright hleft
  obtain ⟨hiff', -⟩ := right_le_left_iff rfl hinside hmono (by decide) hright' hleft'
  refine ⟨hinside, hmono, hright, hleft, ?_, hright', hleft', hiff'.mp (by decide)⟩
  by_contra hapart
  exact absurd (hiff.mpr hapart) (by decide)

/-- The order of the source alone does not keep an end from passing the start that follows it, not
even if every mapping leads to a character. -/
theorem not_right_le_left :
    ¬∀ (t : Translator) (table : PositionTable) (offset right left : Int),
      t.table = some table → (∀ p q, table.Sends p q → Text.AtCharacter t.minified.text q) →
      table.Monotone → 0 < offset → offset < t.code.length →
      t.translate offset .right = .ok (some right) →
      t.translate offset .left = .ok (some left) → right ≤ left := by
  intro hbounded
  have hcharacter : ∀ p q, joinedTable.Sends p q → Text.AtCharacter joined.minified.text q :=
    PositionTable.forall_sends.mpr (by decide)
  have hlength : joined.code.length = 7 := by cbv
  have hle := hbounded joined joinedTable 4 3 2 rfl hcharacter (by decide) (by decide)
    (by rw [hlength]; decide) (by cbv) (by cbv)
  exact absurd hle (by decide)

end Translator

end BundleSize
