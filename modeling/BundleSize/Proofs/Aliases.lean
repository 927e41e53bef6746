import BundleSize.Proofs.Diagnostics
import BundleSize.Proofs.RangeOrder

/-!
# Aliases and inconsistent ranges

A range whose end comes before its start is taken for an alias when both ends
are on one line of the minified text, and for an inconsistent range otherwise.
Attribution tells the lines from the translated offsets and never looks at the
mappings that led there. It still goes by the lines of these mappings
(`Translator.line_of_translate`): a mapping stands at a character, so the offset
behind that character, where an exclusive end may have been moved, is on the
same line, be it the end of the line (`LineIndex.line_position_succ`).
-/

namespace BundleSize

/-- Behind a character of a line, the line still goes on or just ends. -/
theorem LineIndex.line_position_succ {x : LineIndex} {offset : Int} (h : 0 ≤ offset)
    (hcharacter : Text.AtCharacter x.text (x.position offset)) :
    (x.position (offset + 1)).line = (x.position offset).line := by
  obtain ⟨n, hn⟩ := exists_line (x := x) h
  rw [hn.position_eq] at hcharacter ⊢
  obtain ⟨m, line, hline, hm, -, hlt⟩ := hcharacter
  obtain rfl : n = m := by simp only at hm; omega
  have hstart := hn.start_le
  have hsucc := Text.startOf_succ hline
  have hnext : x.Lies n (offset + 1) :=
    ⟨hn.line, by omega, fun _ => by simp only at hlt; omega⟩
  rw [hnext.position_eq]

namespace Translator

variable {t : Translator} {table : PositionTable} {d : Definition}

/-- A translated offset is on the line of the mapping that was found for it. -/
theorem line_of_translate (ht : t.table = some table)
    (hinside : ∀ p q, table.Sends p q → Text.AtCharacter t.minified.text q) {offset : Int}
    {b : Boundary} {m : Mapping}
    (hfind : table.find? (t.code.position (b.target offset)) .leastUpper = some m) :
    ∃ result, t.translate offset b = .ok (some result) ∧ 0 ≤ result
      ∧ (t.minified.position result).line = m.generated.line := by
  obtain ⟨q, hnearest⟩ := PositionTable.nearest_of_find? hfind
  have hcharacter := hinside q m.generated hnearest.sends
  obtain ⟨found, hnonneg, hlt, hfound⟩ := LineIndex.exists_offset_of_atCharacter hcharacter
  have hoffset : t.minified.offset m.generated = .ok found := by
    rw [← hfound]
    exact LineIndex.offset_position hnonneg (Int.le_of_lt hlt)
  refine ⟨_, translate_of_find? ht hfind hoffset, ?_⟩
  rw [← hfound] at hcharacter ⊢
  split
  · exact ⟨by omega, LineIndex.line_position_succ hnonneg hcharacter⟩
  · exact ⟨hnonneg, rfl⟩

/-- The class of a range whose end comes before its start goes by the lines of its ends. -/
theorem classify_of_lt {start stop : Int} (hstop : 0 ≤ stop) (hlt : stop < start) :
    ((t.minified.position start).line = (t.minified.position stop).line
        ∧ t.classify d (some start) (some stop) = .aliased)
      ∨ ((t.minified.position stop).line < (t.minified.position start).line
        ∧ t.classify d (some start) (some stop) = .inconsistent (t.diagnose d start stop)) := by
  rw [classify, if_neg (Int.not_le.mpr hlt)]
  have hbefore := LineIndex.position_before (x := t.minified) hstop hlt
  rw [Position.before_iff] at hbefore
  by_cases hline : (t.minified.position start).line = (t.minified.position stop).line
  · exact Or.inl ⟨hline, if_pos hline⟩
  · exact Or.inr ⟨by omega, if_neg hline⟩

end Translator

/-! ## Attribution by the lines of mappings -/

namespace Attributor

variable {t : Translator} {table : PositionTable} {a : Attributor} {d : Definition}

/-- **Alias or anomaly is decided by the lines of the mappings.** Let all mappings of the selected
source lead to characters of the minified text, and let both ends of a definition find one. Both are
translated, and if the end then comes before the start, the definition is counted as an alias
exactly if the two mappings are on one line. Otherwise the end is on an earlier line, and
attribution leaves one diagnostic, which a strict run ends with. A tolerant run goes on from it, if
it can be written. -/
theorem assign_aliased_iff_line_eq (ht : t.table = some table)
    (hinside : ∀ p q, table.Sends p q → Text.AtCharacter t.minified.text q) {strict : Bool}
    (ha : a.Reached t strict) {m m' : Mapping}
    (hstart : table.find? (t.code.position (Boundary.left.target d.start)) .leastUpper = some m)
    (hstop : table.find? (t.code.position (Boundary.right.target d.stop)) .leastUpper = some m') :
    ∃ start stop, t.translate d.start .left = .ok (some start)
      ∧ t.translate d.stop .right = .ok (some stop)
      ∧ (stop < start →
        ((a.assign d).state.aliased = a.aliased + 1 ↔ m.generated.line = m'.generated.line)
          ∧ (a.assign d).state.unmapped = a.unmapped
          ∧ (m.generated.line = m'.generated.line → (a.assign d).result = .ok none
            ∧ (a.assign d).state.anomalies = a.anomalies)
          ∧ (m.generated.line ≠ m'.generated.line →
            m'.generated.line < m.generated.line ∧ (a.assign d).state.aliased = a.aliased
            ∧ (a.strict = true →
              (a.assign d).result = .error (.inconsistent (t.diagnose d start stop))
                ∧ (a.assign d).state.anomalies = a.anomalies)
            ∧ (a.strict = false →
              (a.assign d).result
                  = (if (t.diagnose d start stop).isWritable then .ok none
                    else .error (.unwritable (t.diagnose d start stop)))
                ∧ (a.assign d).state.anomalies = a.anomalies ++ [t.diagnose d start stop]))) := by
  obtain ⟨start, hleft, -, hline⟩ := Translator.line_of_translate ht hinside hstart
  obtain ⟨stop, hright, hnonneg, hline'⟩ := Translator.line_of_translate ht hinside hstop
  have houtcome := Translator.outcome_eq hleft hright
  refine ⟨start, stop, hleft, hright, fun hlt => ?_⟩
  rw [← hline, ← hline']
  rcases Translator.classify_of_lt hnonneg hlt with ⟨hsame, hclass⟩ | ⟨hearlier, hclass⟩
  · obtain ⟨hresult, hunmapped, haliased, hanomalies⟩ :=
      assign_of_aliased ha.serves (houtcome.trans (congrArg _ hclass))
    exact ⟨iff_of_true haliased hsame, hunmapped, fun _ => ⟨hresult, hanomalies⟩,
      fun hne => absurd hsame hne⟩
  · obtain ⟨hunmapped, haliased, hstrict, htolerant⟩ :=
      assign_of_inconsistent ha.serves (houtcome.trans (congrArg _ hclass))
    have hne := (Int.ne_of_lt hearlier).symm
    exact ⟨iff_of_false (by omega) hne, hunmapped, fun hsame => absurd hsame hne,
      fun _ => ⟨hearlier, haliased, hstrict, htolerant⟩⟩

/-- The ends of the first assignment have changed places on a line. The end of the second one went
to the last character of the line before. -/
def turnedTable : PositionTable :=
  .ofMappings
    [⟨⟨1, 3⟩, some (.string "0"), some ⟨1, 0⟩, none⟩,
      ⟨⟨1, 1⟩, some (.string "0"), some ⟨1, 2⟩, none⟩,
      ⟨⟨2, 1⟩, some (.string "0"), some ⟨2, 0⟩, none⟩,
      ⟨⟨1, 3⟩, some (.string "0"), some ⟨2, 2⟩, none⟩] none

def turned : Translator := .ofTexts "x=y;\nz=w;" (some "abcd\nefgh") (some turnedTable)

theorem assign_aliased_iff_line_eq_turned :
    let x : Definition := ⟨"x", .binding, 0, 3⟩
    let z : Definition := ⟨"z", .binding, 5, 8⟩
    let a := start turned true
    (∀ p q, turnedTable.Sends p q → Text.AtCharacter turned.minified.text q)
      ∧ turned.translate 0 .left = .ok (some 3) ∧ turned.translate 3 .right = .ok (some 2)
      ∧ (a.assign x).state.aliased = 1
      ∧ turned.translate 5 .left = .ok (some 6) ∧ turned.translate 8 .right = .ok (some 4)
      ∧ ((a.assign x).state.assign z).result = .error (.inconsistent (turned.diagnose z 6 4))
      ∧ ((a.assign x).state.assign z).state.aliased = 1 := by
  intro x z a
  have hinside : ∀ p q, turnedTable.Sends p q → Text.AtCharacter turned.minified.text q :=
    PositionTable.forall_sends.mpr (by decide)
  have ha : Reached turned true a := .start
  have hx : turned.translate 0 .left = .ok (some 3) := by cbv
  have hx' : turned.translate 3 .right = .ok (some 2) := by cbv
  have hz : turned.translate 5 .left = .ok (some 6) := by cbv
  have hz' : turned.translate 8 .right = .ok (some 4) := by cbv
  obtain ⟨start, stop, hstart, hstop, hdecided⟩ :=
    assign_aliased_iff_line_eq (t := turned) (d := x) rfl hinside ha (by cbv) (by cbv)
  obtain rfl := Option.some.inj (Except.ok.inj (hx.symm.trans hstart))
  obtain rfl := Option.some.inj (Except.ok.inj (hx'.symm.trans hstop))
  have haliased := (hdecided (by decide)).1.mpr rfl
  obtain ⟨start, stop, hstart, hstop, hdecided⟩ :=
    assign_aliased_iff_line_eq (t := turned) (d := z) rfl hinside (ha.assign x) (by cbv) (by cbv)
  obtain rfl := Option.some.inj (Except.ok.inj (hz.symm.trans hstart))
  obtain rfl := Option.some.inj (Except.ok.inj (hz'.symm.trans hstop))
  obtain ⟨-, hkept, hstrict, -⟩ := (hdecided (by decide)).2.2.2 (by decide)
  exact ⟨hinside, hx, hx', haliased, hz, hz', (hstrict (assign_mode a ha.serves x)).1,
    hkept.trans haliased⟩

end Attributor

end BundleSize
