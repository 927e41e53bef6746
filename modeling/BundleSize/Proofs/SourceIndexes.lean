import BundleSize.Proofs.Faults
import BundleSize.Proofs.RoundTrip
import BundleSize.SourceMap.Grammar

/-!
# The source indexes that a text comes to

Of all that the reader carries along, the index of the source is a plain sum: every
segment that spells a second number adds it, whatever sources, names and places there
are. So the index for which the reader refuses a text is that sum for the segments
up to one of the text's, and nothing is listed there (`comesTo_of_decodeMappings`).
-/

namespace BundleSize

/-! ## Segments and pieces -/

theorem fieldSum_append (index : Nat) (readings later : List Reading) :
    fieldSum index (readings ++ later) = fieldSum index readings + fieldSum index later := by
  rw [fieldSum, List.filterMap_append, List.sum_append]
  rfl

theorem fieldSum_singleton (index : Nat) (r : Reading) :
    fieldSum index [r] = r.fields[index]?.getD 0 := by
  cases h : r.fields[index]? <;> simp [fieldSum, h]

theorem segmentFields_eq_ok_iff {text : List Char} {fields : List Int} :
    segmentFields text = .ok fields ↔ Vlq.Spells text fields := by
  rw [← Vlq.decode_eq_ok_iff, segmentFields]
  split <;> rename_i h <;> simp [h]

theorem fieldSum_eq_zero {index : Nat} : ∀ {readings : List Reading},
    (∀ r ∈ readings, r.fields[index]?.getD 0 = 0) → fieldSum index readings = 0
  | [], _ => rfl
  | r :: readings, h => by
      rw [← List.singleton_append, fieldSum_append, fieldSum_singleton,
        h r (List.mem_cons_self ..),
        fieldSum_eq_zero fun s hs => h s (List.mem_cons_of_mem _ hs), Int.add_zero]

theorem Spelled.append_iff {later : List (Nat × List Char)} :
    ∀ {pieces : List (Nat × List Char)} {readings : List Reading},
      Spelled (pieces ++ later) readings ↔
        ∃ first rest, readings = first ++ rest ∧ Spelled pieces first ∧ Spelled later rest
  | [], readings => by
      constructor
      · exact fun h => ⟨[], readings, rfl, .nil, h⟩
      · rintro ⟨_, rest, rfl, ⟨⟩, h⟩
        exact h
  | piece :: pieces, readings => by
      constructor
      · rintro (_ | ⟨hpiece, h⟩)
        obtain ⟨first, rest, rfl, hfirst, hrest⟩ := append_iff.mp h
        exact ⟨_ :: first, rest, rfl, .cons hpiece hfirst, hrest⟩
      · rintro ⟨_, rest, rfl, _ | ⟨hpiece, hfirst⟩, hrest⟩
        exact .cons hpiece (append_iff.mpr ⟨_, rest, rfl, hfirst, hrest⟩)

/-- Every segment is spelled by one of the pieces. -/
theorem exists_piece_of_spelled : ∀ {pieces : List (Nat × List Char)} {readings : List Reading},
    Spelled pieces readings →
      ∀ r ∈ readings, ∃ piece ∈ pieces, piece.1 = r.line ∧ Vlq.Spells piece.2 r.fields
  | [], _, .nil, r, hr => absurd hr List.not_mem_nil
  | piece :: pieces, _, .cons hpiece h, r, hr => by
      rcases List.mem_cons.mp hr with rfl | hr
      · exact ⟨piece, List.mem_cons_self .., hpiece⟩
      · obtain ⟨other, hmem, hother⟩ := exists_piece_of_spelled h r hr
        exact ⟨other, List.mem_cons_of_mem _ hmem, hother⟩

theorem piecesFrom_cons (line : Nat) (text : List Char) (lines : List (List Char)) :
    piecesFrom line (text :: lines) = linePieces line text ++ piecesFrom (line + 1) lines := by
  rw [piecesFrom, List.zipIdx_cons, List.flatMap_cons]
  rfl

namespace Arrives

variable {start index : Int} {pieces later : List (Nat × List Char)} {readings : List Reading}

theorem append (h : Arrives start pieces index) (later : List (Nat × List Char)) :
    Arrives start (pieces ++ later) index := by
  obtain ⟨first, rest, readings, rfl, hspelled, hsum⟩ := h
  exact ⟨first, rest ++ later, readings, List.append_assoc .., hspelled, hsum⟩

/-- What is reached from behind some pieces is reached from before them. -/
theorem behind (hspelled : Spelled pieces readings)
    (h : Arrives (start + fieldSum 1 readings) later index) :
    Arrives start (pieces ++ later) index := by
  obtain ⟨first, rest, more, rfl, hmore, hsum⟩ := h
  refine ⟨pieces ++ first, rest, readings ++ more, (List.append_assoc ..).symm,
    Spelled.append_iff.mpr ⟨_, _, rfl, hspelled, hmore⟩, ?_⟩
  rw [fieldSum_append, ← Int.add_assoc, hsum]

end Arrives

/-! ## What the reader adds -/

variable {legend : Legend} {place : Mapping → Except ShapeFault α}

theorem addFields_source {sums sums' : Sums} {text : String}
    {selected : Option (Json × Option Json)} : ∀ {fields : List Int},
    addFields legend sums text fields = .ok (sums', selected) →
      sums'.source = sums.source + fields[1]?.getD 0
  | [column], h => by
      obtain ⟨rfl, -⟩ := Prod.mk.inj (Except.ok.inj h)
      exact (Int.add_zero _).symm
  | column :: source :: line :: sourceColumn :: extra, h => by
      rw [addFields] at h
      split at h
      · cases h
      · simp only at h
        split at h
        · cases h
        · cases h
        · split at h
          · obtain ⟨rfl, -⟩ := Prod.mk.inj (Except.ok.inj h)
            rfl
          · split at h
            · cases h
            · obtain ⟨rfl, -⟩ := Prod.mk.inj (Except.ok.inj h)
              rfl
  | [], h | [_, _], h | [_, _, _], h => by cases h

/-- A source index is refused where nothing is listed. -/
theorem addFields_index {sums : Sums} {text : String} {index : Int} : ∀ {fields : List Int},
    addFields legend sums text fields = .error (.sourceOutOfRange index) →
      sums.source + fields[1]?.getD 0 = index ∧ legend.sources.get? index = .ok none
  | column :: source :: line :: sourceColumn :: extra, h => by
      rw [addFields] at h
      split at h
      · cases h
      · simp only at h
        split at h
        · cases h
        · rename_i hget
          obtain rfl := MapError.sourceOutOfRange.inj (Except.error.inj h)
          exact ⟨rfl, hget⟩
        · split at h
          · cases h
          · split at h <;> cases h
  | [], h | [_, _], h | [_, _, _], h => by cases h

theorem decodeSegment_source {line : Nat} {sums sums' : Sums} {text : List Char} {m : Mapping}
    (h : decodeSegment legend line sums text = .ok (sums', m)) :
    ∃ r : Reading, line = r.line ∧ Vlq.Spells text r.fields
      ∧ sums'.source = sums.source + fieldSum 1 [r] := by
  obtain ⟨fields, hfields, h⟩ := bind_eq_ok h
  obtain ⟨⟨added, selected⟩, hadd, h⟩ := bind_eq_ok h
  refine ⟨⟨line, fields⟩, rfl, segmentFields_eq_ok_iff.mp hfields, ?_⟩
  rw [fieldSum_singleton, ← addFields_source hadd]
  simp only at h
  split at h
  · cases h
  · cases selected with
    | none =>
        obtain ⟨rfl, -⟩ := Prod.mk.inj (Except.ok.inj h)
        rfl
    | some selection =>
        obtain ⟨rfl, -⟩ := Prod.mk.inj (Except.ok.inj h)
        rfl

theorem decodeSegment_index {line : Nat} {sums : Sums} {text : List Char} {index : Int}
    (h : decodeSegment legend line sums text = .error (.sourceOutOfRange index)) :
    ∃ r : Reading, line = r.line ∧ Vlq.Spells text r.fields
      ∧ sums.source + fieldSum 1 [r] = index ∧ legend.sources.get? index = .ok none := by
  rcases bind_eq_error h with h | ⟨fields, hfields, h⟩
  · unfold segmentFields at h
    split at h <;> cases h
  rcases bind_eq_error h with h | ⟨⟨added, selected⟩, -, h⟩
  · refine ⟨⟨line, fields⟩, rfl, segmentFields_eq_ok_iff.mp hfields, ?_⟩
    rw [fieldSum_singleton]
    exact addFields_index h
  · simp only at h
    split at h
    · cases h
    · cases selected <;> cases h

/-! ## Lines -/

theorem linePieces_cons (line : Nat) (c : Char) (text : List Char) (segments : List (List Char)) :
    (((c :: text) :: segments).filter (· ≠ [])).map ((line, ·) : _ → Nat × _)
      = [(line, c :: text)] ++ (segments.filter (· ≠ [])).map (line, ·) := by
  simp

theorem decodeLine_source {line : Nat} {sums' : Sums} {placed : List α} :
    ∀ {segments : List (List Char)} {sums : Sums},
      decodeLine place legend line sums segments = .ok (sums', placed) →
        ∃ readings, Spelled ((segments.filter (· ≠ [])).map (line, ·)) readings
          ∧ sums'.source = sums.source + fieldSum 1 readings
  | [], sums, h => by
      obtain ⟨rfl, -⟩ := Prod.mk.inj (Except.ok.inj h)
      exact ⟨[], .nil, (Int.add_zero _).symm⟩
  | [] :: segments, sums, h => by
      rw [decodeLine] at h
      obtain ⟨readings, hspelled, hsum⟩ := decodeLine_source h
      exact ⟨readings, hspelled, hsum⟩
  | (c :: text) :: segments, sums, h => by
      obtain ⟨⟨sums₁, m⟩, hsegment, h⟩ := bind_eq_ok h
      obtain ⟨first, -, h⟩ := bind_eq_ok h
      obtain ⟨⟨sums₂, later⟩, hline, h⟩ := bind_eq_ok h
      obtain ⟨rfl, -⟩ := Prod.mk.inj (Except.ok.inj h)
      obtain ⟨r, hline', hspells, hfirst⟩ := decodeSegment_source hsegment
      obtain ⟨readings, hspelled, hlater⟩ := decodeLine_source hline
      refine ⟨r :: readings, ?_, ?_⟩
      · rw [linePieces_cons]
        exact .cons ⟨hline', hspells⟩ hspelled
      · rw [hlater, hfirst, Int.add_assoc, ← fieldSum_append, List.singleton_append]

theorem decodeLine_index {line : Nat} {index : Int} : ∀ {segments : List (List Char)}
    {sums : Sums}, decodeLine place legend line sums segments = .error (.sourceOutOfRange index) →
      Arrives sums.source ((segments.filter (· ≠ [])).map (line, ·)) index
        ∧ legend.sources.get? index = .ok none
  | [] :: segments, sums, h => by
      rw [decodeLine] at h
      obtain ⟨harrives, hget⟩ := decodeLine_index h
      exact ⟨harrives, hget⟩
  | (c :: text) :: segments, sums, h => by
      rw [linePieces_cons]
      rcases bind_eq_error h with h | ⟨⟨sums', m⟩, hsegment, h⟩
      · obtain ⟨r, hline, hspells, hsum, hget⟩ := decodeSegment_index h
        exact ⟨⟨_, _, [r], rfl, .cons ⟨hline, hspells⟩ .nil, hsum⟩, hget⟩
      obtain ⟨r, hline, hspells, hsum⟩ := decodeSegment_source hsegment
      rcases bind_eq_error h with h | ⟨placed, -, h⟩
      · obtain ⟨_, -, h⟩ := mapError_eq_error h
        cases h
      rcases bind_eq_error h with h | ⟨⟨sums'', later⟩, -, h⟩
      · obtain ⟨harrives, hget⟩ := decodeLine_index h
        simp only [hsum] at harrives
        exact ⟨.behind (.cons ⟨hline, hspells⟩ .nil) harrives, hget⟩
      · cases h

theorem decodeLines_index {index : Int} : ∀ {lines : List (List Char)} {n : Nat} {sums : Sums},
    decodeLines place legend n sums lines = .error (.sourceOutOfRange index) →
      Arrives sums.source (piecesFrom n lines) index ∧ legend.sources.get? index = .ok none
  | text :: lines, n, sums, h => by
      rw [decodeLines, splitAt_eq_splitOn] at h
      rw [piecesFrom_cons]
      rcases bind_eq_error h with h | ⟨⟨sums', first⟩, hline, h⟩
      · obtain ⟨harrives, hget⟩ := decodeLine_index h
        exact ⟨harrives.append _, hget⟩
      obtain ⟨readings, hspelled, hsum⟩ := decodeLine_source hline
      rcases bind_eq_error h with h | ⟨later, -, h⟩
      · obtain ⟨harrives, hget⟩ := decodeLines_index h
        simp only [hsum] at harrives
        exact ⟨.behind hspelled harrives, hget⟩
      · cases h

/-- A document that is refused for a source index has a text that comes to it. -/
theorem comesTo_of_decodeMappings {members : List (String × Json)} {index : Int}
    (h : decodeMappings place members = .error (.sourceOutOfRange index)) :
    ∃ text, Json.member? "mappings" members = some (.string text) ∧ ComesTo text index
      ∧ (Listing.ofJson (Json.member? "sources" members)).get? index = .ok none := by
  unfold decodeMappings at h
  split at h
  · rename_i text htext
    rw [splitAt_eq_splitOn] at h
    obtain ⟨harrives, hget⟩ := decodeLines_index h
    exact ⟨text, htext, harrives, hget⟩
  · cases h

end BundleSize
