import BundleSize.Proofs.Reports
import BundleSize.SourceMap.Decoding

/-!
# Errors of the reader

An error refuses a source map (`MapError.Refuses`), or it would refuse one for a source
index that is too long to be written (`MapError.Unwritten`), or it is a fault of some
kind (`MapError.Within`): the reader asked something of a value that the value does not
have. The text of mappings is checked all through, so from a segment up to the lines
a fault can only come from what the reader is given beside the text: a label that it
asks of the sources or the names, a place that it asks for a mapping (`ReadingFault`).
-/

namespace BundleSize

namespace MapError

/-- The error is one of a source map that is not valid. -/
def Refuses (e : MapError) : Prop := (AnalysisError.map e).kind = "SourceMapError"

/-- A source index is out of range and too long to be written, so its refusal has no message. -/
def Unwritten (e : MapError) : Prop :=
  ∃ index, e = .sourceOutOfRange index ∧ Text.isWritable index = false

/-- The error refuses a source map, with or without a message, or it is one of the faults. -/
def Within (P : ShapeFault → Prop) (e : MapError) : Prop :=
  e.Refuses ∨ e.Unwritten ∨ ∃ fault, e = .malformed fault ∧ P fault

theorem refuses_of_eq_true {e : MapError} (h : e.refuses = true) : e.Refuses := if_pos h

theorem sourceOutOfRange_within (index : Int) (P : ShapeFault → Prop) :
    (sourceOutOfRange index).Within P := by
  cases hwritable : Text.isWritable index with
  | true => exact .inl (refuses_of_eq_true hwritable)
  | false => exact .inr (.inl ⟨index, rfl, hwritable⟩)

theorem Within.imp {P Q : ShapeFault → Prop} {e : MapError} (h : e.Within P)
    (hPQ : ∀ fault, P fault → Q fault) : e.Within Q := by
  rcases h with h | h | ⟨fault, rfl, hfault⟩
  · exact .inl h
  · exact .inr (.inl h)
  · exact .inr (.inr ⟨fault, rfl, hPQ fault hfault⟩)

theorem within_malformed {P : ShapeFault → Prop} {x : Except ShapeFault α} {e : MapError}
    (h : x.mapError .malformed = .error e) (hP : ∀ fault, x = .error fault → P fault) :
    e.Within P := by
  obtain ⟨fault, hfault, rfl⟩ := mapError_eq_error h
  exact .inr (.inr ⟨fault, rfl, hP fault hfault⟩)

end MapError

/-- A fault that asking the legend for a label or a mapping for its place can come to. -/
inductive ReadingFault (legend : Legend) (place : Mapping → Except ShapeFault α)
    (fault : ShapeFault) : Prop where
  | sources {index : Int} : legend.sources.get? index = .error fault →
      ReadingFault legend place fault
  | names {index : Int} : legend.names.get? index = .error fault →
      ReadingFault legend place fault
  | place {m : Mapping} : place m = .error fault → ReadingFault legend place fault

/-! ## From a segment to the lines -/

variable {legend : Legend} {place : Mapping → Except ShapeFault α}

theorem segmentFields_refuses {text : List Char} {e : MapError}
    (h : segmentFields text = .error e) : e.Refuses := by
  unfold segmentFields at h
  split at h
  · cases h
  · obtain rfl := Except.error.inj h
    rfl
  · obtain rfl := Except.error.inj h
    rfl

theorem addFields_within {sums : Sums} {text : String} {e : MapError} :
    ∀ {fields : List Int}, addFields legend sums text fields = .error e →
      e.Within (ReadingFault legend place)
  | column :: source :: line :: sourceColumn :: extra, h => by
      rw [addFields] at h
      split at h
      · obtain rfl := Except.error.inj h
        exact .inl rfl
      · simp only at h
        split at h
        · rename_i fault hfault
          obtain rfl := Except.error.inj h
          exact .inr (.inr ⟨fault, rfl, .sources hfault⟩)
        · obtain rfl := Except.error.inj h
          exact MapError.sourceOutOfRange_within _ _
        · split at h
          · cases h
          · split at h
            · rename_i fault hfault
              obtain rfl := Except.error.inj h
              exact .inr (.inr ⟨fault, rfl, .names hfault⟩)
            · cases h
  | [], h | [_, _], h | [_, _, _], h => by
      obtain rfl := Except.error.inj h
      exact .inl rfl

theorem decodeSegment_within {line : Nat} {sums : Sums} {text : List Char} {e : MapError}
    (h : decodeSegment legend line sums text = .error e) :
    e.Within (ReadingFault legend place) := by
  rcases bind_eq_error h with h | ⟨fields, -, h⟩
  · exact .inl (segmentFields_refuses h)
  rcases bind_eq_error h with h | ⟨⟨added, selected⟩, -, h⟩
  · exact addFields_within h
  simp only at h
  split at h
  · obtain rfl := Except.error.inj h
    exact .inl rfl
  · cases selected <;> cases h

theorem decodeLine_within {line : Nat} {e : MapError} : ∀ {segments : List (List Char)}
    {sums : Sums}, decodeLine place legend line sums segments = .error e →
      e.Within (ReadingFault legend place)
  | [] :: segments, _, h => by
      rw [decodeLine] at h
      exact decodeLine_within h
  | (c :: text) :: segments, _, h => by
      rcases bind_eq_error h with h | ⟨⟨sums, m⟩, -, h⟩
      · exact decodeSegment_within h
      rcases bind_eq_error h with h | ⟨placed, -, h⟩
      · exact MapError.within_malformed h fun fault hfault => .place hfault
      rcases bind_eq_error h with h | ⟨⟨sums, later⟩, -, h⟩
      · exact decodeLine_within h
      · cases h

theorem decodeLines_within {e : MapError} : ∀ {lines : List (List Char)} {n : Nat} {sums : Sums},
    decodeLines place legend n sums lines = .error e → e.Within (ReadingFault legend place)
  | text :: lines, n, sums, h => by
      rcases bind_eq_error h with h | ⟨⟨sums', first⟩, -, h⟩
      · exact decodeLine_within h
      rcases bind_eq_error h with h | ⟨later, -, h⟩
      · exact decodeLines_within h
      · cases h

end BundleSize
