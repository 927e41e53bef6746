import BundleSize.Proofs.Accounting
import BundleSize.Proofs.TextEnd

/-!
# What a diagnostic explains

The diagnostic of an inconsistent range is put together after the fact. Its two ends
were translated, and then each is looked up once more, to show where the table leads
from there. So what is shown is worth something only if it is what was used: if the
translated ends can be told from the positions in the diagnostic. They can
(`Translator.Explains`), because both ways look for the same character, and only the
translation goes on to the step past it. That step is taken when the last character of
the range has a mapping of its own, which the diagnostic need not say
(`PositionTable.Nearest.maps_iff`).

Whether there is a diagnostic at all, and which one, does not depend on the mode
(`Attributor.assign_explains`).
-/

namespace BundleSize

namespace PositionTable

variable {t : PositionTable} {p q : Position} {m : Mapping}

/-- A mapping of the selected source comes from this very position. -/
def Maps (t : PositionTable) (p : Position) : Prop := ∃ g, t.Sends p g

instance (t : PositionTable) (p : Position) : Decidable (t.Maps p) :=
  decidable_of_iff (∃ pair ∈ t.pairs, pair.1 = p) <| by
    simp only [Maps, sends_iff_mem_pairs, Prod.exists]
    constructor
    · rintro ⟨q, g, hmem, rfl⟩
      exact ⟨g, hmem⟩
    · rintro ⟨g, hmem⟩
      exact ⟨p, g, hmem, rfl⟩

/-- What is nearest to a position comes from there exactly if something does. -/
theorem Nearest.maps_iff (h : t.Nearest p m q) : m.sourcePosition = some p ↔ t.Maps p := by
  rw [h.position, Option.some.injEq]
  constructor
  · rintro rfl
    exact ⟨_, h.sends⟩
  · rintro ⟨g, hsends⟩
    rcases h.least hsends (Position.upTo_refl p) with hbefore | ⟨rfl, -⟩
    · exact absurd hbefore (Position.not_before.mpr h.upTo)
    · rfl

end PositionTable

namespace Translator

variable {t : Translator} {table : PositionTable} {d : Definition}

/-- A translated offset is that of the position which a lookup gives, and one more for the end of a
range whose last character has a mapping of its own. -/
theorem offset_of_translate (ht : t.table = some table) {offset result : Int} {b : Boundary}
    (h : t.translate offset b = .ok (some result)) :
    ∃ q found, table.generated? (t.code.position (b.target offset)) .leastUpper = some q
      ∧ t.minified.offset q = .ok found
      ∧ result = found
        + if (b = .right ∧ 0 < offset) ∧ table.Maps (t.code.position (b.target offset)) then 1
          else 0 := by
  cases hfind : table.find? (t.code.position (b.target offset)) .leastUpper with
  | none =>
      rw [translate_of_find?_eq_none ht hfind] at h
      cases h
  | some m =>
      obtain ⟨q, hnearest⟩ := PositionTable.nearest_of_find? hfind
      cases hfound : t.minified.offset m.generated with
      | error e =>
          rw [translate, ht] at h
          simp only [hfind, hfound] at h
          cases h
      | ok found =>
          rw [translate_of_find? ht hfind hfound] at h
          refine ⟨m.generated, found, by rw [PositionTable.generated?, hfind]; rfl, hfound, ?_⟩
          simp only [target_ne_iff, hnearest.maps_iff, Except.ok.injEq, Option.some.injEq] at h
          rw [← h]
          split <;> omega

/-- The ends of a diagnostic are those of the definition, where the table leads to `left` and
`right` from them, and its range is the one between the offsets of the two: the end is one further
if the last character of the definition has a mapping of its own. -/
structure Explains (t : Translator) (table : PositionTable) (d : Definition) (anomaly : Anomaly)
    (left right : Position) : Prop where
  name : anomaly.name = d.name
  start : anomaly.start = d.start
  stop : anomaly.stop = d.stop
  endpoints : anomaly.endpoints =
    [{ boundary := .left, place := t.code.position d.start
       trace := some { mapped := some left, remapped := (table.origin? left).map (·.position) } },
     { boundary := .right, place := t.code.position d.stop
       trace := some { mapped := some right, remapped := (table.origin? right).map (·.position) } }]
  minifiedStart : t.minified.offset left = .ok anomaly.minifiedStart
  minifiedStop : ∃ found, t.minified.offset right = .ok found
    ∧ anomaly.minifiedStop = found
      + if 0 < d.stop ∧ table.Maps (t.code.position (d.stop - 1)) then 1 else 0
  negative : anomaly.minifiedStop < anomaly.minifiedStart

theorem explains_of_anomaly? (ht : t.table = some table) {anomaly : Anomaly}
    (h : t.anomaly? d = some anomaly) : ∃ left right, t.Explains table d anomaly left right := by
  obtain ⟨start, stop, hstart, hstop, hlt, rfl⟩ := ends_of_anomaly? h
  obtain ⟨left, found, hleft, hfound, hstart⟩ := offset_of_translate ht hstart
  obtain ⟨right, found', hright, hfound', hstop⟩ := offset_of_translate ht hstop
  obtain rfl : start = found := by simpa using hstart
  refine ⟨left, right, rfl, rfl, rfl, ?_, hfound, ⟨found', hfound', ?_⟩, hlt⟩
  · simp only [diagnose, endpoint, ht, Option.map_some, hleft, hright, Option.bind_some]
  · rw [diagnose, hstop]
    by_cases hpos : 0 < d.stop
    · simp only [hpos, Boundary.target_right hpos, true_and]
    · simp only [hpos, and_false, false_and]

end Translator

namespace Attributor

variable {t : Translator} {table : PositionTable} {a b : Attributor} {d : Definition}

/-- A definition that is not inconsistent leaves no diagnostic in either mode. -/
theorem assign_of_no_anomaly (h : a.Serves t) (hnone : t.anomaly? d = none) :
    (∀ anomaly, (a.assign d).result ≠ .error (.inconsistent anomaly))
      ∧ (a.assign d).state.anomalies = a.anomalies := by
  cases houtcome : t.outcome d with
  | error e =>
      obtain ⟨memo, records, -, -, heq⟩ := assign_eq h d
      rw [heq, houtcome]
      exact ⟨fun anomaly => by simp [settle], rfl⟩
  | ok outcome =>
      obtain ⟨hresult, hkept⟩ := assign_of_consistent h ⟨outcome, houtcome⟩ hnone
      exact ⟨fun anomaly => by simp [hresult], hkept⟩

/-- **A diagnostic explains the range that it reports, and is the same in both modes.** A definition
either leaves no diagnostic, whether the run is strict or not, or the one that a strict run stops at
is the one that another run notes. Then both of its ends have been found in the table, and the
reported range, whose end comes before its start, is what the translation makes of the two positions
that the diagnostic shows. -/
theorem assign_explains (ht : t.table = some table) (ha : Reached t false a)
    (hb : Reached t true b) (d : Definition) :
    ((∀ anomaly, (b.assign d).result ≠ .error (.inconsistent anomaly))
        ∧ (a.assign d).state.anomalies = a.anomalies)
      ∨ ∃ anomaly, (b.assign d).result = .error (.inconsistent anomaly)
        ∧ (a.assign d).state.anomalies = a.anomalies ++ [anomaly]
        ∧ ∃ left right, t.Explains table d anomaly left right := by
  cases hanomaly : t.anomaly? d with
  | none =>
      exact Or.inl ⟨(assign_of_no_anomaly hb.serves hanomaly).1,
        (assign_of_no_anomaly ha.serves hanomaly).2⟩
  | some anomaly =>
      have hstrict := (assign_of_anomaly hb.serves hanomaly).1 hb.mode
      have hnoted := ((assign_of_anomaly ha.serves hanomaly).2 ha.mode).2
      exact Or.inr ⟨anomaly, hstrict, hnoted, Translator.explains_of_anomaly? ht hanomaly⟩

/-- What the assignment begins with was moved behind what it ends with, to the next line. -/
def movedDownTable : PositionTable :=
  .ofMappings
    [⟨⟨2, 1⟩, some (.string "0"), some ⟨1, 0⟩, none⟩,
      ⟨⟨1, 3⟩, some (.string "0"), some ⟨1, 2⟩, none⟩] none

def movedDown : Translator := .ofTexts "a=1" (some "wxyz\nabc") (some movedDownTable)

theorem assign_explains_movedDown :
    let whole : Definition := ⟨"a", .binding, 0, 3⟩
    let part : Definition := ⟨"a", .binding, 0, 2⟩
    let a := start movedDown false
    let b := start movedDown true
    (b.assign whole).result = .error (.inconsistent (movedDown.diagnose whole 6 (3 + 1)))
      ∧ (b.assign part).result = .error (.inconsistent (movedDown.diagnose part 6 3))
      ∧ ((a.assign whole).state.assign part).state.anomalies
        = [movedDown.diagnose whole 6 (3 + 1), movedDown.diagnose part 6 3]
      ∧ (∃ left right,
        movedDown.Explains movedDownTable whole (movedDown.diagnose whole 6 (3 + 1)) left right)
      ∧ ∃ left right,
        movedDown.Explains movedDownTable part (movedDown.diagnose part 6 3) left right := by
  intro whole part a b
  have hwhole : movedDown.anomaly? whole = some (movedDown.diagnose whole 6 (3 + 1)) := by cbv
  have hpart : movedDown.anomaly? part = some (movedDown.diagnose part 6 3) := by cbv
  have ha : Reached movedDown false a := .start
  have hb : Reached movedDown true b := .start
  have hstrict := (assign_of_anomaly hb.serves hwhole).1 rfl
  have hstrict' := (assign_of_anomaly hb.serves hpart).1 rfl
  have ht : movedDown.table = some movedDownTable := rfl
  rcases assign_explains ht ha hb whole with
    ⟨hnone, -⟩ | ⟨anomaly, hresult, hnoted, hexplains⟩
  · exact absurd hstrict (hnone _)
  rcases assign_explains ht (ha.assign whole) hb part with
    ⟨hnone, -⟩ | ⟨anomaly', hresult', hnoted', hexplains'⟩
  · exact absurd hstrict' (hnone _)
  obtain rfl := AttributionError.inconsistent.inj (Except.error.inj (hstrict.symm.trans hresult))
  obtain rfl :=
    AttributionError.inconsistent.inj (Except.error.inj (hstrict'.symm.trans hresult'))
  refine ⟨hstrict, hstrict', ?_, hexplains, hexplains'⟩
  rw [hnoted', hnoted]
  rfl

end Attributor

end BundleSize
