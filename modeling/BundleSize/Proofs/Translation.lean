import BundleSize.Offsets.Translator
import BundleSize.Proofs.Lookup
import BundleSize.Proofs.Positions

/-!
# Translated offsets and their order

An offset that is translated lands on a mapping: the first one at or after
the character that is looked up, which in turn stands at an offset of the
minified text (`Translator.Lands`). `Translator.translate_of_standsUpTo` says
that nothing else can happen when all mappings stand in the minified text.

Two comparisons follow. Within a range, the start is not translated past the
end if the table keeps the order of the source (`Lands.left_le_right`). Between
ranges, the exclusive end of the earlier one is not translated past the start
of the later one if the table keeps the two apart (`Lands.right_le_left`). The
second one is where the two ends of a range differ: moving the end past the
last character is sound only because that character's mapping stands strictly
before the next construct's.
-/

namespace BundleSize

namespace PositionTable

/-- A later source position is never sent to an earlier generated one; two of them may be sent to
the same. -/
def Monotone (t : PositionTable) : Prop :=
  ∀ p q p' q', t.Sends p q → t.Sends p' q' → p.before p' = true → q.upTo q' = true

/-- A later source position is always sent to a later generated one. -/
def StrictlyMonotone (t : PositionTable) : Prop :=
  ∀ p q p' q', t.Sends p q → t.Sends p' q' → p.before p' = true → q.before q' = true

theorem StrictlyMonotone.monotone {t : PositionTable} (h : t.StrictlyMonotone) : t.Monotone :=
  fun p q p' q' hs hs' hp => Position.upTo_of_before (h p q p' q' hs hs' hp)

/-- What stands before `start` is kept apart from what stands from there on: it is not sent past
it, and, if it stands before `stop` too, not onto it either. -/
def Separates (t : PositionTable) (stop start : Position) : Prop :=
  ∀ p q p' q', t.Sends p q → t.Sends p' q' → p.before start = true → start.upTo p' = true →
    q.upTo q' = true ∧ (p.before stop = true → q.before q' = true)

theorem forall_sends₂ {t : PositionTable}
    {motive : Position → Position → Position → Position → Prop} :
    (∀ p q p' q', t.Sends p q → t.Sends p' q' → motive p q p' q')
      ↔ ∀ pair ∈ t.pairs, ∀ pair' ∈ t.pairs, motive pair.1 pair.2 pair'.1 pair'.2 := by
  constructor
  · intro h pair hpair pair' hpair'
    exact h _ _ _ _ (sends_iff_mem_pairs.mpr hpair) (sends_iff_mem_pairs.mpr hpair')
  · intro h p q p' q' hs hs'
    exact h (p, q) (sends_iff_mem_pairs.mp hs) (p', q') (sends_iff_mem_pairs.mp hs')

instance (t : PositionTable) : Decidable t.Monotone := decidable_of_iff _ forall_sends₂.symm

instance (t : PositionTable) : Decidable t.StrictlyMonotone :=
  decidable_of_iff _ forall_sends₂.symm

instance (t : PositionTable) (stop start : Position) : Decidable (t.Separates stop start) :=
  decidable_of_iff _ forall_sends₂.symm

theorem StrictlyMonotone.separates {t : PositionTable} (h : t.StrictlyMonotone)
    (stop start : Position) : t.Separates stop start := by
  intro p q p' q' hs hs' hp hp'
  have hq := h p q p' q' hs hs' (Position.before_of_before_of_upTo hp hp')
  exact ⟨Position.upTo_of_before hq, fun _ => hq⟩

end PositionTable

theorem Boundary.target_right {offset : Int} (h : 0 < offset) :
    Boundary.right.target offset = offset - 1 := by
  rw [target, if_pos h]

theorem Boundary.target_right_le {offset : Int} (h : 0 ≤ offset) :
    0 ≤ Boundary.right.target offset ∧ Boundary.right.target offset ≤ offset := by
  rw [target]
  split <;> omega

theorem Boundary.target_le {offset : Int} (h : 0 ≤ offset) :
    ∀ b : Boundary, 0 ≤ b.target offset ∧ b.target offset ≤ offset
  | .left => ⟨h, Int.le_refl _⟩
  | .right => target_right_le h

namespace Translator

variable {t : Translator} {table : PositionTable}

/-- What is reported of an offset in a text has no number that is too long to be written. -/
theorem isWritable_place (t : Translator) {offset : Int} (b : Boundary) (h : 0 ≤ offset)
    (hwritable : Text.isWritable (offset + 1) = true) :
    let place := t.code.position (b.target offset)
    Text.isWritable offset = true ∧ Text.isWritable place.line = true
      ∧ Text.isWritable place.column = true := by
  obtain ⟨htarget, hle⟩ := b.target_le h
  obtain ⟨hline, hlineLe, hcolumn, hcolumnLe⟩ := t.code.position_le htarget
  simp only
  exact ⟨Text.isWritable_of_le h (by omega) hwritable,
    Text.isWritable_of_le hline (by omega) hwritable,
    Text.isWritable_of_le hcolumn (by omega) hwritable⟩

/-- The mappings of the selected source stand at offsets of the minified text up to `last`. -/
def StandsUpTo (t : Translator) (table : PositionTable) (last : Int) : Prop :=
  ∀ p q, table.Sends p q → ∃ offset : Int, 0 ≤ offset ∧ offset ≤ last
    ∧ t.minified.position offset = q

theorem StandsUpTo.mono {last last' : Int} (h : t.StandsUpTo table last) (hle : last ≤ last') :
    t.StandsUpTo table last' := by
  intro p q hsends
  obtain ⟨offset, hnonneg, hlast, hq⟩ := h p q hsends
  exact ⟨offset, hnonneg, Int.le_trans hlast hle, hq⟩

/-- The lookup for an offset finds the mapping at `q`, which stands at the offset `found` of the
minified text. -/
structure Lands (t : Translator) (table : PositionTable) (offset : Int) (b : Boundary)
    (q : Position) (found : Int) : Prop where
  nonneg : 0 ≤ found
  nearest : ∃ m, table.Nearest (t.code.position (b.target offset)) m q
    ∧ m.generated = t.minified.position found

/-- The translation of an offset that lands at `found`: an exclusive end is moved past its last
character if that very character was found. -/
def landing (t : Translator) (offset : Int) (b : Boundary) (q : Position) (found : Int) : Int :=
  if b.target offset ≠ offset ∧ q = t.code.position (b.target offset) then found + 1 else found

theorem landing_left (offset : Int) (q : Position) (found : Int) :
    t.landing offset .left q found = found := by
  rw [landing, if_neg fun h => h.1 rfl]

theorem found_le_landing (offset : Int) (b : Boundary) (q : Position) (found : Int) :
    found ≤ t.landing offset b q found := by
  rw [landing]
  split <;> omega

theorem landing_le (offset : Int) (b : Boundary) (q : Position) (found : Int) :
    t.landing offset b q found ≤ found + 1 := by
  rw [landing]
  split <;> omega

theorem translate_of_find?_eq_none (ht : t.table = some table) {offset : Int} {b : Boundary}
    (hfind : table.find? (t.code.position (b.target offset)) .leastUpper = none) :
    t.translate offset b = .ok none := by
  rw [translate, ht]
  simp only [hfind]

theorem translate_of_find? (ht : t.table = some table) {offset found : Int} {b : Boundary}
    {m : Mapping} (hfind : table.find? (t.code.position (b.target offset)) .leastUpper = some m)
    (hfound : t.minified.offset m.generated = .ok found) :
    t.translate offset b = .ok (some
      (if b.target offset ≠ offset ∧ m.sourcePosition = some (t.code.position (b.target offset))
        then found + 1 else found)) := by
  rw [translate, ht]
  simp only [hfind, hfound]
  rfl

/-- A start goes to the offset that the lookup finds. -/
theorem translate_left_of_find? (ht : t.table = some table) {offset found : Int} {m : Mapping}
    (hfind : table.find? (t.code.position offset) .leastUpper = some m)
    (hfound : t.minified.offset m.generated = .ok found) :
    t.translate offset .left = .ok (some found) := by
  rw [translate_of_find? (b := .left) ht hfind hfound, if_neg fun h => h.1 rfl]

/-- An offset goes nowhere, or it lands in the minified text. -/
theorem translate_of_standsUpTo (ht : t.table = some table) {last : Int}
    (hstands : t.StandsUpTo table last) (hlast : last ≤ t.minified.length)
    (offset : Int) (b : Boundary) :
    t.translate offset b = .ok none
      ∧ table.find? (t.code.position (b.target offset)) .leastUpper = none
    ∨ ∃ q found, t.Lands table offset b q found ∧ found ≤ last
      ∧ t.translate offset b = .ok (some (t.landing offset b q found)) := by
  rw [translate, ht]
  simp only
  cases hfind : table.find? (t.code.position (b.target offset)) .leastUpper with
  | none => exact Or.inl ⟨rfl, rfl⟩
  | some m =>
      obtain ⟨q, hnearest⟩ := PositionTable.nearest_of_find? hfind
      obtain ⟨found, hnonneg, hle, hfound⟩ := hstands q m.generated hnearest.sends
      refine Or.inr ⟨q, found, ⟨hnonneg, m, hnearest, hfound.symm⟩, hle, ?_⟩
      have hoffset : t.minified.offset m.generated = .ok found := by
        rw [← hfound]
        exact LineIndex.offset_position hnonneg (by omega)
      simp only [hoffset, hnearest.position, Option.some.injEq, landing]
      rfl

theorem lands_of_translate (ht : t.table = some table) {last : Int}
    (hstands : t.StandsUpTo table last) (hlast : last ≤ t.minified.length) {offset : Int}
    {b : Boundary} {result : Int} (h : t.translate offset b = .ok (some result)) :
    ∃ q found, t.Lands table offset b q found ∧ found ≤ last
      ∧ result = t.landing offset b q found := by
  rcases translate_of_standsUpTo ht hstands hlast offset b with
    ⟨hnone, -⟩ | ⟨q, found, hlands, hle, hsome⟩
  · rw [hnone] at h
    cases h
  · rw [hsome] at h
    exact ⟨q, found, hlands, hle, (Option.some.inj (Except.ok.inj h)).symm⟩

/-- Where the table leads to lines and columns that a text can have, no translation fails, and what
is moved past its last character is at most one behind the minified text. -/
theorem translate_of_proper (ht : t.table = some table)
    (hproper : ∀ p q, table.Sends p q → q.Proper) (offset : Int) (b : Boundary) :
    ∃ result, t.translate offset b = .ok result
      ∧ ∀ r ∈ result, 0 ≤ r ∧ r ≤ t.minified.length + 1 := by
  rw [translate, ht]
  simp only
  cases hfind : table.find? (t.code.position (b.target offset)) .leastUpper with
  | none => exact ⟨none, rfl, fun r hr => absurd hr (by simp)⟩
  | some m =>
      obtain ⟨q, hnearest⟩ := PositionTable.nearest_of_find? hfind
      obtain ⟨found, hfound, hnonneg, hle⟩ :=
        t.minified.offset_of_proper (hproper q m.generated hnearest.sends)
      simp only [hfound]
      refine ⟨_, rfl, fun r hr => ?_⟩
      obtain rfl := Option.mem_some_iff.mp hr
      split <;> omega

/-- If a later offset lands, then so does an earlier one. -/
theorem find?_ne_none_of_lands {offset offset' : Int} {b b' : Boundary} {q' : Position}
    {found' : Int} (h' : t.Lands table offset' b' q' found')
    (hnonneg : 0 ≤ b.target offset) (hle : b.target offset ≤ b'.target offset') :
    table.find? (t.code.position (b.target offset)) .leastUpper ≠ none := by
  intro hnone
  obtain ⟨m', hnearest', -⟩ := h'.nearest
  have hbefore := PositionTable.before_of_find?_eq_none hnone hnearest'.sends
  have hupTo := Position.upTo_trans
    ((LineIndex.position_upTo_iff hnonneg (by omega)).mpr hle) hnearest'.upTo
  exact Position.not_before.mpr hupTo hbefore

/-- The order of two landings: a later lookup lands on a later mapping or on the same one. -/
theorem Lands.mono {offset offset' : Int} {b b' : Boundary} {q q' : Position} {found found' : Int}
    (h : t.Lands table offset b q found) (h' : t.Lands table offset' b' q' found')
    (hnonneg : 0 ≤ b.target offset) (hle : b.target offset ≤ b'.target offset') :
    q.before q' = true ∨ q = q' ∧ found = found' := by
  obtain ⟨m, hnearest, hm⟩ := h.nearest
  obtain ⟨m', hnearest', hm'⟩ := h'.nearest
  rcases hnearest.mono hnearest' ((LineIndex.position_upTo_iff hnonneg (by omega)).mpr hle)
    with hlt | ⟨hq, hg⟩
  · exact Or.inl hlt
  · rw [hm, hm'] at hg
    exact Or.inr ⟨hq, LineIndex.position_inj h.nonneg h'.nonneg hg⟩

theorem Lands.sends {offset : Int} {b : Boundary} {q : Position} {found : Int}
    (h : t.Lands table offset b q found) : table.Sends q (t.minified.position found) := by
  obtain ⟨m, hnearest, hm⟩ := h.nearest
  exact hm ▸ hnearest.sends

/-- Within a range: its start is not translated past its end. -/
theorem Lands.left_le_right {start stop : Int} {q q' : Position} {found found' : Int}
    (h : t.Lands table start .left q found) (h' : t.Lands table stop .right q' found')
    (hmono : table.Monotone) (hstart : 0 ≤ start) (hlt : start < stop) :
    t.landing start .left q found ≤ t.landing stop .right q' found' := by
  have htarget : Boundary.right.target stop = stop - 1 := Boundary.target_right (by omega)
  have hfound : found ≤ found' := by
    rcases h.mono h' hstart (by rw [htarget, Boundary.target]; omega) with hq | ⟨-, heq⟩
    · exact (LineIndex.position_upTo_iff h.nonneg h'.nonneg).mp
        (hmono q _ q' _ h.sends h'.sends hq)
    · exact Int.le_of_eq heq
  rw [landing_left]
  exact Int.le_trans hfound (found_le_landing stop .right q' found')

/-- Between ranges: the end of an earlier range is not translated past the start of a later one. -/
theorem Lands.right_le_left {stop start : Int} {q q' : Position} {found found' : Int}
    (h : t.Lands table stop .right q found) (h' : t.Lands table start .left q' found')
    (hseparates : table.Separates (t.code.position stop) (t.code.position start))
    (hstop : 0 ≤ stop) (hle : stop ≤ start) :
    t.landing stop .right q found ≤ t.landing start .left q' found' := by
  obtain ⟨hnonneg, htarget⟩ := Boundary.target_right_le hstop
  have hlast : Boundary.right.target stop ≠ stop →
      (t.code.position (Boundary.right.target stop)).before (t.code.position stop) = true :=
    fun hne => LineIndex.position_before hnonneg (by omega)
  have hstart : (t.code.position stop).upTo (t.code.position start) = true :=
    (LineIndex.position_upTo_iff hstop (by omega)).mpr hle
  obtain ⟨m', hnearest', -⟩ := h'.nearest
  rw [landing_left, landing]
  by_cases hq : q.before (t.code.position start) = true
  · -- the end lands before the later range: the table keeps the two landings apart
    obtain ⟨hupTo, hbefore⟩ := hseparates q _ q' _ h.sends h'.sends hq hnearest'.upTo
    split
    · rename_i hexact
      have := (LineIndex.position_before_iff h.nonneg h'.nonneg).mp
        (hbefore (hexact.2 ▸ hlast hexact.1))
      omega
    · exact (LineIndex.position_upTo_iff h.nonneg h'.nonneg).mp hupTo
  · -- nothing is mapped in between: both ends land on the same mapping
    have hq := Position.not_before.mp hq
    have hinexact : ¬(Boundary.right.target stop ≠ stop
        ∧ q = t.code.position (Boundary.right.target stop)) := by
      rintro ⟨hne, rfl⟩
      exact Position.not_before.mpr (Position.upTo_trans hstart hq) (hlast hne)
    rw [if_neg hinexact]
    rcases h.mono h' hnonneg (Int.le_trans htarget hle) with hlt | ⟨-, heq⟩
    · rcases hnearest'.least h.sends hq with hgt | ⟨heq, -⟩
      · exact absurd hlt (Position.not_before.mpr (Position.upTo_of_before hgt))
      · exact absurd hlt (Position.not_before.mpr (heq ▸ Position.upTo_refl _))
    · exact Int.le_of_eq heq

end Translator

end BundleSize
