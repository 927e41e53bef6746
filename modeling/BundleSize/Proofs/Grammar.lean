import BundleSize.Proofs.Faults
import BundleSize.Proofs.SourceIndexes

/-!
# Exactly the grammar is read

The reader carries five sums along; the grammar asks for sums over everything
that was written before. The two agree because the sums that the reader holds
after the segments `done` are `Sums.over` of `done`: a segment adds to a sum what
it has of its kind (`Sums.over_append`), and a new line only restarts the sum of
the columns (`Sums.over_next`).

So one lemma about a segment (`decodeSegment_eq_ok_iff`) is carried through a
line (`decodeLine_eq_ok_iff`) and through all lines (`decodeLines_eq_ok_iff`), in
both directions at once: what the reader accepts the grammar allows, and what
the grammar allows is read. `Yields` goes along with the reader, from segment to
segment; `yields_iff` takes it back to the places of the segments in the whole
text.

Sources and names that are lists are never at fault themselves
(`Listing.exists_get?`), so whatever the grammar does not allow is refused as a
source map that is not valid, unless a source index is out of range that is too
long to be written (`decodeLines_refuses`).
-/

namespace BundleSize

/-! ## Sums -/

/-- The sums after the fields of a segment. -/
def Sums.add (sums : Sums) (fields : List Int) : Sums where
  column := sums.column + fields[0]?.getD 0
  source := sums.source + fields[1]?.getD 0
  line := sums.line + fields[2]?.getD 0
  sourceColumn := sums.sourceColumn + fields[3]?.getD 0
  name := sums.name + fields[4]?.getD 0

/-- A segment adds its fields to the sums for its own line. -/
theorem Sums.over_append (done : List Reading) (r : Reading) :
    Sums.over r.line (done ++ [r]) = (Sums.over r.line done).add r.fields := by
  have hline : List.filter (fun s : Reading => s.line = r.line) [r] = [r] := by simp
  simp only [Sums.over, Sums.add, List.filter_append, hline, fieldSum_append,
    fieldSum_singleton]

/-- On a line behind all segments the columns are summed afresh. -/
theorem Sums.over_next {n : Nat} {done : List Reading} (h : ∀ r ∈ done, r.line < n) (line : Nat) :
    { Sums.over line done with column := 0 } = Sums.over n done := by
  have hnone : done.filter (·.line = n) = [] := by
    rw [List.filter_eq_nil_iff]
    intro r hr
    have := h r hr
    simp only [decide_eq_true_eq]
    omega
  simp only [Sums.over, hnone]
  rfl

/-! ## One segment -/

variable {sources names : List Json}

/-- A list is never at fault: it holds a label at an index in range, and none elsewhere. -/
theorem Listing.exists_get? (labels : List Json) (index : Int) :
    ∃ found, (Listing.labels labels).get? index = .ok found
      ∧ found.bind labelOf = labelAt? labels index
      ∧ (found.isSome = true ↔ 0 ≤ index ∧ index < labels.length) := by
  unfold Listing.get? labelAt?
  split
  · rename_i hindex
    exact ⟨none, rfl, rfl, nofun, fun h => absurd h.1 (Int.not_le.mpr hindex)⟩
  · refine ⟨_, rfl, rfl, ?_⟩
    rw [isSome_getElem?]
    omega

/-- Fields that are as many as a segment has and that arrive at a source are added, and with the
source and name that they select the sums stand for the segment's mapping. -/
theorem addFields_of_source (names : List Json) (sums : Sums) (text : String) (line : Nat) :
    ∀ {fields : List Int}, (fields.length = 1 ∨ fields.length = 4 ∨ fields.length = 5) →
      (fields.length ≠ 1 → 0 ≤ (sums.add fields).source
        ∧ (sums.add fields).source < sources.length) →
      ∃ selected,
        addFields ⟨.labels sources, .labels names⟩ sums text fields
            = .ok (sums.add fields, selected)
          ∧ (sums.add fields).mapping line selected
            = Reading.mapping sources names (sums.add fields) ⟨line, fields⟩
  | [column], _, _ => by
      refine ⟨none, ?_, rfl⟩
      simp [addFields, Sums.add]
  | [column, source, sourceLine, sourceColumn], _, hsource => by
      obtain ⟨found, hget, hlabel, hsome⟩ := Listing.exists_get? sources (sums.source + source)
      obtain ⟨label, rfl⟩ := Option.isSome_iff_exists.mp (hsome.mpr (hsource (by simp)))
      refine ⟨some (label, none), ?_, ?_⟩
      · rw [addFields_place column sourceLine sourceColumn text hget]
        simp [Sums.add]
      · exact congrArg (Mapping.mk _ · _ _) hlabel
  | [column, source, sourceLine, sourceColumn, name], _, hsource => by
      obtain ⟨found, hget, hlabel, hsome⟩ := Listing.exists_get? sources (sums.source + source)
      obtain ⟨label, rfl⟩ := Option.isSome_iff_exists.mp (hsome.mpr (hsource (by simp)))
      obtain ⟨named, hnamed, hname, -⟩ := Listing.exists_get? names (sums.name + name)
      refine ⟨some (label, named), ?_, ?_⟩
      · rw [addFields_named column sourceLine sourceColumn text hget hnamed]
        simp [Sums.add]
      · exact congrArg₂ (Mapping.mk _ · _ ·) hlabel hname
  | [], hcount, _ | [_, _], hcount, _ | [_, _, _], hcount, _ => by simp at hcount
  | _ :: _ :: _ :: _ :: _ :: _ :: _, hcount, _ => by
      simp only [List.length_cons] at hcount
      omega

/-- Fields that are added are as many as a segment has, and they arrive at a source. -/
theorem source_of_addFields {listed : Listing} {sums sums' : Sums} {text : String}
    {selected : Option (Json × Option Json)} : ∀ {fields : List Int},
    addFields ⟨.labels sources, listed⟩ sums text fields = .ok (sums', selected) →
      (fields.length = 1 ∨ fields.length = 4 ∨ fields.length = 5)
        ∧ (fields.length ≠ 1 → 0 ≤ (sums.add fields).source
          ∧ (sums.add fields).source < sources.length)
  | [column], _ => ⟨Or.inl rfl, fun h => absurd rfl h⟩
  | column :: source :: line :: sourceColumn :: extra, h => by
      rw [addFields] at h
      split at h
      · cases h
      · rename_i hcount
        refine ⟨by simp only [List.length_cons]; omega, fun _ => ?_⟩
        simp only at h
        split at h
        · cases h
        · cases h
        · rename_i label hget
          obtain ⟨found, hfound, -, hsome⟩ := Listing.exists_get? sources (sums.source + source)
          obtain rfl := Except.ok.inj (hget.symm.trans hfound)
          exact hsome.mp rfl
  | [], h | [_, _], h | [_, _, _], h => by cases h

/-- A segment that fits the sums after it is decoded into what it maps. -/
theorem decodeSegment_of_fits {sums : Sums} {text : List Char} {r : Reading}
    (hspells : Vlq.Spells text r.fields) (hfits : r.Fits sources.length (sums.add r.fields)) :
    decodeSegment ⟨.labels sources, .labels names⟩ r.line sums text =
      .ok (sums.add r.fields, r.mapping sources names (sums.add r.fields)) := by
  obtain ⟨selected, hadd, hmapping⟩ :=
    addFields_of_source names sums (String.ofList text) r.line hfits.count hfits.source
  rw [decodeSegment_eq (segmentFields_eq_ok_iff.mpr hspells) hadd hfits.column
    ⟨hfits.line, hfits.sourceColumn⟩, hmapping]

/-- Nothing else is decoded. -/
theorem fits_of_decodeSegment {line : Nat} {sums : Sums} {text : List Char}
    {result : Sums × Mapping}
    (h : decodeSegment ⟨.labels sources, .labels names⟩ line sums text = .ok result) :
    ∃ fields, Vlq.Spells text fields
      ∧ Reading.Fits sources.length (sums.add fields) ⟨line, fields⟩ := by
  obtain ⟨fields, hfields, h⟩ := bind_eq_ok h
  obtain ⟨⟨added, selected⟩, hadd, h⟩ := bind_eq_ok h
  obtain ⟨hcount, hsource⟩ := source_of_addFields hadd
  obtain ⟨selected', hadd', -⟩ :=
    addFields_of_source names sums (String.ofList text) line hcount hsource
  obtain ⟨rfl, rfl⟩ := Prod.mk.inj (Except.ok.inj (hadd.symm.trans hadd'))
  simp only at h
  split at h
  · cases h
  · rename_i hnonneg
    obtain ⟨hcolumn, hline, hsourceColumn⟩ : 0 ≤ (sums.add fields).column
        ∧ 0 ≤ (sums.add fields).line ∧ 0 ≤ (sums.add fields).sourceColumn := by omega
    exact ⟨fields, segmentFields_eq_ok_iff.mp hfields,
      hcount, hsource, hcolumn, hline, hsourceColumn⟩

/-- **One segment.** After the segments `done`, a piece is decoded exactly if it spells a segment
that fits behind them, and then into what that segment maps. -/
theorem decodeSegment_eq_ok_iff {done : List Reading} {line : Nat} {text : List Char}
    {sums : Sums} {m : Mapping} :
    decodeSegment ⟨.labels sources, .labels names⟩ line (Sums.over line done) text
        = .ok (sums, m) ↔
      ∃ r : Reading, line = r.line ∧ Vlq.Spells text r.fields
        ∧ r.Fits sources.length (Sums.over line (done ++ [r]))
        ∧ sums = Sums.over line (done ++ [r])
        ∧ m = r.mapping sources names (Sums.over line (done ++ [r])) := by
  constructor
  · intro h
    obtain ⟨fields, hspells, hfits⟩ := fits_of_decodeSegment h
    rw [decodeSegment_of_fits (r := ⟨line, fields⟩) hspells hfits] at h
    obtain ⟨rfl, rfl⟩ := Prod.mk.inj (Except.ok.inj h)
    refine ⟨⟨line, fields⟩, rfl, hspells, ?_⟩
    rw [Sums.over_append done ⟨line, fields⟩]
    exact ⟨hfits, rfl, rfl⟩
  · rintro ⟨r, rfl, hspells, hfits, rfl, rfl⟩
    rw [Sums.over_append] at hfits ⊢
    exact decodeSegment_of_fits hspells hfits

/-! ## Lines -/

/-- Behind the segments `done`, the segments fit one after the other and map to the mappings. -/
inductive Yields (sources names : List Json) :
    List Reading → List Reading → List Mapping → Prop where
  | nil {done : List Reading} : Yields sources names done [] []
  | cons {done : List Reading} {r : Reading} {readings : List Reading}
      {mappings : List Mapping} :
      r.Fits sources.length (Sums.over r.line (done ++ [r])) →
      Yields sources names (done ++ [r]) readings mappings →
      Yields sources names done (r :: readings)
        (r.mapping sources names (Sums.over r.line (done ++ [r])) :: mappings)

theorem Yields.append_iff {later : List Reading} :
    ∀ {readings done : List Reading} {mappings : List Mapping},
      Yields sources names done (readings ++ later) mappings ↔
        ∃ first rest, mappings = first ++ rest ∧ Yields sources names done readings first
          ∧ Yields sources names (done ++ readings) later rest
  | [], done, mappings => by
      rw [List.append_nil]
      constructor
      · exact fun h => ⟨[], mappings, rfl, .nil, h⟩
      · rintro ⟨_, rest, rfl, ⟨⟩, h⟩
        exact h
  | r :: readings, done, mappings => by
      rw [List.append_cons done r readings]
      constructor
      · rintro (_ | ⟨hfits, h⟩)
        obtain ⟨first, rest, rfl, hfirst, hrest⟩ := append_iff.mp h
        exact ⟨_ :: first, rest, rfl, .cons hfits hfirst, hrest⟩
      · rintro ⟨_, rest, rfl, _ | ⟨hfits, hfirst⟩, hrest⟩
        exact .cons hfits (append_iff.mpr ⟨_, rest, rfl, hfirst, hrest⟩)

/-- **One line.** After the segments `done`, the pieces of a line are decoded exactly if they spell
segments that fit behind them. -/
theorem decodeLine_eq_ok_iff {line : Nat} : ∀ {segments : List (List Char)} {done : List Reading}
    {sums : Sums} {mappings : List Mapping},
    decodeLine .ok ⟨.labels sources, .labels names⟩ line (Sums.over line done) segments
        = .ok (sums, mappings) ↔
      ∃ readings, Spelled ((segments.filter (· ≠ [])).map (line, ·)) readings
        ∧ Yields sources names done readings mappings
        ∧ sums = Sums.over line (done ++ readings)
  | [], done, sums, mappings => by
      constructor
      · intro h
        obtain ⟨rfl, rfl⟩ := Prod.mk.inj (Except.ok.inj h)
        exact ⟨[], .nil, .nil, by rw [List.append_nil]⟩
      · rintro ⟨_, ⟨⟩, ⟨⟩, rfl⟩
        rw [List.append_nil]
        rfl
  | [] :: segments, done, sums, mappings => by
      rw [decodeLine]
      exact decodeLine_eq_ok_iff
  | (c :: text) :: segments, done, sums, mappings => by
      rw [linePieces_cons, List.singleton_append]
      constructor
      · intro h
        obtain ⟨⟨sums', m⟩, hsegment, h⟩ := bind_eq_ok h
        obtain ⟨placed, hplaced, h⟩ := bind_eq_ok h
        obtain rfl : m = placed := Except.ok.inj hplaced
        obtain ⟨⟨sums'', later⟩, hline, h⟩ := bind_eq_ok h
        obtain ⟨rfl, rfl⟩ := Prod.mk.inj (Except.ok.inj h)
        obtain ⟨r, rfl, hspells, hfits, rfl, rfl⟩ := decodeSegment_eq_ok_iff.mp hsegment
        obtain ⟨readings, hspelled, hyields, rfl⟩ := decodeLine_eq_ok_iff.mp hline
        exact ⟨r :: readings, .cons ⟨rfl, hspells⟩ hspelled, .cons hfits hyields,
          by rw [List.append_cons done r readings]⟩
      · rintro ⟨_ | ⟨r, readings⟩, hspelled, hyields, rfl⟩
        · cases hspelled
        · obtain ⟨⟨rfl, hspells⟩, hspelled⟩ := List.forall₂_cons.mp hspelled
          cases hyields with
          | @cons _ _ _ later hfits hyields =>
              have hsegment : decodeSegment ⟨.labels sources, .labels names⟩ r.line
                  (Sums.over r.line done) (c :: text) = .ok (_, r.mapping sources names _) :=
                decodeSegment_eq_ok_iff.mpr ⟨r, rfl, hspells, hfits, rfl, rfl⟩
              have hline := decodeLine_eq_ok_iff.mpr ⟨readings, hspelled, hyields, rfl⟩
              rw [List.append_cons done]
              simp only [decodeLine, hsegment, hline, mapError_ok, bind, Except.bind, pure,
                Except.pure]

theorem line_of_spelled {line : Nat} {texts : List (List Char)} {readings : List Reading}
    (h : Spelled (texts.map (line, ·)) readings) : ∀ r ∈ readings, r.line = line := by
  intro r hr
  obtain ⟨piece, hpiece, hline, -⟩ := exists_piece_of_spelled h r hr
  obtain ⟨text, -, rfl⟩ := List.mem_map.mp hpiece
  exact hline.symm

/-- **All lines.** After the segments `done` of earlier lines, lines are decoded exactly if their
pieces spell segments that fit behind them. -/
theorem decodeLines_eq_ok_iff : ∀ {lines : List (List Char)} {n line : Nat}
    {done : List Reading} {mappings : List Mapping}, (∀ r ∈ done, r.line < n) →
    (decodeLines .ok ⟨.labels sources, .labels names⟩ n (Sums.over line done) lines
        = .ok mappings ↔
      ∃ readings, Spelled (piecesFrom n lines) readings
        ∧ Yields sources names done readings mappings)
  | [], n, line, done, mappings, hdone => by
      constructor
      · intro h
        obtain rfl := Except.ok.inj h
        exact ⟨[], .nil, .nil⟩
      · rintro ⟨_, ⟨⟩, ⟨⟩⟩
        rfl
  | text :: lines, n, line, done, mappings, hdone => by
      -- with those of this line, all segments so far stand before the next line
      have hnext : ∀ readings, Spelled (linePieces n text) readings →
          ∀ r ∈ done ++ readings, r.line < n + 1 := by
        intro readings hspelled r hr
        rcases List.mem_append.mp hr with hr | hr
        · exact Nat.lt_succ_of_lt (hdone r hr)
        · exact Nat.lt_succ_of_le (Nat.le_of_eq (line_of_spelled hspelled r hr))
      rw [piecesFrom_cons, decodeLines, Sums.over_next hdone, splitAt_eq_splitOn]
      constructor
      · intro h
        obtain ⟨⟨sums, first⟩, hfirst, h⟩ := bind_eq_ok h
        obtain ⟨later, hlater, h⟩ := bind_eq_ok h
        obtain rfl := Except.ok.inj h
        obtain ⟨readings, hspelled, hyields, rfl⟩ := decodeLine_eq_ok_iff.mp hfirst
        obtain ⟨rest, hspelled', hyields'⟩ :=
          (decodeLines_eq_ok_iff (hnext readings hspelled)).mp hlater
        exact ⟨readings ++ rest, Spelled.append_iff.mpr ⟨_, _, rfl, hspelled, hspelled'⟩,
          Yields.append_iff.mpr ⟨_, _, rfl, hyields, hyields'⟩⟩
      · rintro ⟨_, hspelled, hyields⟩
        obtain ⟨readings, rest, rfl, hspelled, hspelled'⟩ := Spelled.append_iff.mp hspelled
        obtain ⟨first, later, rfl, hyields, hyields'⟩ := Yields.append_iff.mp hyields
        have hfirst := decodeLine_eq_ok_iff.mpr ⟨readings, hspelled, hyields, rfl⟩
        have hlater : decodeLines .ok ⟨.labels sources, .labels names⟩ (n + 1)
            (Sums.over n (done ++ readings)) lines = .ok later :=
          (decodeLines_eq_ok_iff (hnext readings hspelled)).mpr ⟨rest, hspelled', hyields'⟩
        simp only [hfirst, hlater, bind, Except.bind, pure, Except.pure]

/-! ## Places in the text -/

theorem yields_iff : ∀ {readings done : List Reading} {mappings : List Mapping},
    Yields sources names done readings mappings ↔
      (∀ (k : Nat) (r : Reading), readings[k]? = some r →
        r.Fits sources.length (Sums.over r.line (done ++ readings.take (k + 1))))
      ∧ mappings = readings.mapIdx fun k r =>
          r.mapping sources names (Sums.over r.line (done ++ readings.take (k + 1)))
  | [], done, mappings => by
      constructor
      · rintro ⟨⟩
        exact ⟨nofun, rfl⟩
      · rintro ⟨-, rfl⟩
        exact .nil
  | r :: readings, done, mappings => by
      have htake : ∀ k, done ++ (r :: readings).take (k + 1 + 1)
          = done ++ [r] ++ readings.take (k + 1) := fun k => by
        rw [List.take_succ_cons, List.append_cons]
      rw [List.mapIdx_cons]
      simp only [htake]
      constructor
      · rintro (_ | ⟨hfits, h⟩)
        obtain ⟨hlater, rfl⟩ := yields_iff.mp h
        refine ⟨fun k s hs => ?_, rfl⟩
        cases k with
        | zero =>
            obtain rfl := Option.some.inj hs
            exact hfits
        | succ k =>
            rw [htake]
            exact hlater k s hs
      · rintro ⟨hfits, rfl⟩
        refine .cons (hfits 0 r rfl) (yields_iff.mpr ⟨fun k s hs => ?_, rfl⟩)
        rw [← htake]
        exact hfits (k + 1) s hs

/-! ## What is refused -/

/-- Lists hold a label at an index or none, and are never at fault themselves. -/
theorem not_readingFault_labels {fault : ShapeFault} :
    ¬ReadingFault ⟨.labels sources, .labels names⟩ (Except.ok (α := Mapping)) fault := by
  intro hfault
  cases hfault with
  | @sources index hget =>
      obtain ⟨found, hfound, -⟩ := Listing.exists_get? sources index
      cases hfound.symm.trans hget
  | @names index hget =>
      obtain ⟨found, hfound, -⟩ := Listing.exists_get? names index
      cases hfound.symm.trans hget
  | place h => cases h

theorem decodeLines_refuses {lines : List (List Char)} {n : Nat} {sums : Sums} {e : MapError}
    (h : decodeLines .ok ⟨.labels sources, .labels names⟩ n sums lines = .error e) :
    e.Refuses ∨ e.Unwritten := by
  rcases decodeLines_within h with hrefuses | hunwritten | ⟨fault, -, hfault⟩
  · exact .inl hrefuses
  · exact .inr hunwritten
  · exact absurd hfault not_readingFault_labels

/-! ## Documents -/

/-- The mappings of a document that holds the text are those of the text's lines. -/
theorem decodeMappings_of_holds {members : List (String × Json)} {text : String}
    (h : Holds members text sources names) :
    decodeMappings .ok members =
      decodeLines .ok ⟨.labels sources, .labels names⟩ 0 (Sums.over 0 [])
        (text.toList.splitOn ';') := by
  rw [decodeMappings, h.mappings, h.sources, h.names, Listing.ofJson_array, Listing.ofJson_array,
    ← splitAt_eq_splitOn]
  rfl

/-- **Exactly the grammar is accepted.** The mappings of a document that holds a text are decoded
exactly if the text consists of segments that conform with the number of sources, and what is
decoded is what these segments map. Of any other text no table is made. It is refused as a source
map, if no source index that its segments come to is out of range and too long to be written. -/
theorem decodeMappings_eq_ok_iff {members : List (String × Json)} {text : String}
    (h : Holds members text sources names) :
    ((∃ mappings, decodeMappings .ok members = .ok mappings) ↔
        ∃ readings, Conforms text sources.length readings)
      ∧ (∀ readings, Conforms text sources.length readings →
        decodeMappings .ok members = .ok (mappingsOf sources names readings))
      ∧ ((¬∃ readings, Conforms text sources.length readings) →
        ∃ e, decodeMappings .ok members = .error e
          ∧ ((Json.member? "version" members).any (Json.isNumber 3) →
            Json.member? "sections" members = none →
            ∀ selected, DocumentTable.ofDocument (.object members) selected = .error e)
          ∧ ((∀ index, ComesTo text index →
              0 ≤ index ∧ index < sources.length ∨ Text.isWritable index = true) →
            (AnalysisError.map e).kind = "SourceMapError")) := by
  have hdecoded : ∀ mappings, decodeMappings .ok members = .ok mappings ↔
      ∃ readings, Spelled (pieces text) readings ∧ Yields sources names [] readings mappings := by
    intro mappings
    rw [decodeMappings_of_holds h]
    exact decodeLines_eq_ok_iff fun r hr => absurd hr List.not_mem_nil
  have hconforms : ∀ mappings, decodeMappings .ok members = .ok mappings →
      ∃ readings, Conforms text sources.length readings := by
    intro mappings hmappings
    obtain ⟨readings, hspelled, hyields⟩ := (hdecoded mappings).mp hmappings
    exact ⟨readings, hspelled, (yields_iff.mp hyields).1⟩
  have haccepted : ∀ readings, Conforms text sources.length readings →
      decodeMappings .ok members = .ok (mappingsOf sources names readings) := fun readings hr =>
    (hdecoded _).mpr ⟨readings, hr.spelled, yields_iff.mpr ⟨hr.fits, rfl⟩⟩
  refine ⟨⟨fun ⟨mappings, hmappings⟩ => hconforms mappings hmappings,
    fun ⟨readings, hr⟩ => ⟨_, haccepted readings hr⟩⟩, haccepted, fun hnone => ?_⟩
  cases hresult : decodeMappings .ok members with
  | ok mappings => exact absurd (hconforms mappings hresult) hnone
  | error e =>
      refine ⟨e, rfl, fun hversion hflat selected => ?_, fun hshort => ?_⟩
      · rw [DocumentTable.ofDocument, decodeDocument]
        simp only [hversion, hflat, if_true, hresult]
        rfl
      have hlines := hresult
      rw [decodeMappings_of_holds h] at hlines
      rcases decodeLines_refuses hlines with hrefuses | ⟨index, rfl, hlong⟩
      · exact hrefuses
      obtain ⟨written, hwritten, hcomes, hget⟩ := comesTo_of_decodeMappings hresult
      obtain rfl : text = written := by
        rw [h.mappings] at hwritten
        exact Json.string.inj (Option.some.inj hwritten)
      rw [h.sources, Listing.ofJson_array] at hget
      obtain ⟨found, hfound, -, hsome⟩ := Listing.exists_get? sources index
      rw [hget] at hfound
      obtain rfl := Except.ok.inj hfound
      rcases hshort index hcomes with hin | hwritable
      · exact absurd (hsome.mpr hin) (by decide)
      · rw [hlong] at hwritable
        cases hwritable

/-- The members of a document that holds the text and lists the sources and names. -/
def membersHolding (text : String) (sources names : List Json) : List (String × Json) :=
  [("version", .int 3), ("sources", .array sources), ("names", .array names),
    ("mappings", .string text)]

theorem membersHolding_holds (text : String) (sources names : List Json) :
    Holds (membersHolding text sources names) text sources names :=
  ⟨rfl, rfl, rfl⟩

/-- Mappings on the first and the third line, of which one comes from no source. -/
def fourMappings : List Mapping :=
  [⟨⟨1, 0⟩, some (.string "a.js"), some ⟨1, 0⟩, none⟩,
    ⟨⟨1, 2⟩, some (.string "a.js"), some ⟨1, 2⟩, some (.string "f")⟩,
    ⟨⟨3, 0⟩, none, none, none⟩,
    ⟨⟨3, 7⟩, some (.string "b.js"), some ⟨4, 1⟩, none⟩]

/-- The second segment has no source, so both stay at the first one. -/
theorem comesTo_AAAA_D {index : Int} (h : ComesTo "AAAA,D" index) : index = 0 := by
  obtain ⟨first, rest, readings, hpieces, hspelled, rfl⟩ := h
  rw [Int.zero_add]
  have htext : pieces "AAAA,D" = [(0, ['A', 'A', 'A', 'A']), (0, ['D'])] := by decide
  have hplace : Vlq.decode ['A', 'A', 'A', 'A'] = .ok [0, 0, 0, 0] := by decide
  have hcolumn : Vlq.decode ['D'] = .ok [-1] := by decide
  refine fieldSum_eq_zero fun r hr => ?_
  obtain ⟨piece, hpiece, -, hspells⟩ := exists_piece_of_spelled hspelled r hr
  have hmem : piece ∈ pieces "AAAA,D" := hpieces ▸ List.mem_append_left _ hpiece
  have hfields := Vlq.decode_eq_ok_iff.mpr hspells
  rw [htext] at hmem
  rcases List.mem_pair.mp hmem with rfl | rfl
  · rw [← Except.ok.inj (hplace.symm.trans hfields)]
    rfl
  · rw [← Except.ok.inj (hcolumn.symm.trans hfields)]
    rfl

/-- Four segments conform, and a segment that goes back behind the beginning of its line does
not. -/
theorem decodeMappings_eq_ok_iff_twoSources :
    (∃ readings, Conforms "AAAA,EAAEA;;A,OCGD" 2 readings
        ∧ mappingsOf [.string "a.js", .string "b.js"] [.string "f"] readings = fourMappings)
      ∧ ∃ e, decodeMappings .ok (membersHolding "AAAA,D" [.string "a.js"] []) = .error e
        ∧ DocumentTable.ofDocument
            (.object (membersHolding "AAAA,D" [.string "a.js"] [])) none = .error e
        ∧ (AnalysisError.map e).kind = "SourceMapError" := by
  constructor
  · have hdecoded : decodeMappings .ok (membersHolding "AAAA,EAAEA;;A,OCGD"
        [.string "a.js", .string "b.js"] [.string "f"]) = .ok fourMappings := rfl
    obtain ⟨hiff, haccepted, -⟩ := decodeMappings_eq_ok_iff
      (membersHolding_holds "AAAA,EAAEA;;A,OCGD" [.string "a.js", .string "b.js"] [.string "f"])
    obtain ⟨readings, hconforms⟩ := hiff.mp ⟨_, hdecoded⟩
    have hmappings := (haccepted readings hconforms).symm.trans hdecoded
    exact ⟨readings, hconforms, Except.ok.inj hmappings⟩
  · have hrefused : decodeMappings .ok (membersHolding "AAAA,D" [.string "a.js"] [])
        = .error (.negativePosition "D") := rfl
    obtain ⟨hiff, -, hother⟩ :=
      decodeMappings_eq_ok_iff (membersHolding_holds "AAAA,D" [.string "a.js"] [])
    have hnone : ¬∃ readings, Conforms "AAAA,D" 1 readings := by
      intro hconforms
      obtain ⟨mappings, hmappings⟩ := hiff.mpr hconforms
      rw [hrefused] at hmappings
      cases hmappings
    obtain ⟨e, he, htable, hkind⟩ := hother hnone
    have hshort : ∀ index, ComesTo "AAAA,D" index →
        0 ≤ index ∧ index < 1 ∨ Text.isWritable index = true := by
      rintro index hindex
      obtain rfl := comesTo_AAAA_D hindex
      exact .inl ⟨Int.le_refl 0, Int.one_pos⟩
    exact ⟨e, he, htable rfl rfl none, hkind hshort⟩

/-- A segment without a reference is accepted even though no source is listed. -/
theorem not_decodeMappings_eq_ok_iff :
    ¬∀ (members : List (String × Json)) (text : String) (sources names : List Json),
      Holds members text sources names →
        ((∃ mappings, decodeMappings .ok members = .ok mappings) ↔
          ∃ readings, Conforms text sources.length readings
            ∧ ∀ (k : Nat) (r : Reading), readings[k]? = some r →
              0 ≤ (Sums.over r.line (readings.take (k + 1))).source
                ∧ (Sums.over r.line (readings.take (k + 1))).source < sources.length) := by
  intro hgrammar
  have hdecoded : decodeMappings .ok (membersHolding "A" [] [])
      = .ok [⟨⟨1, 0⟩, none, none, none⟩] := rfl
  obtain ⟨readings, hconforms, hsources⟩ :=
    (hgrammar _ _ _ _ (membersHolding_holds "A" [] [])).mp ⟨_, hdecoded⟩
  have hpieces : pieces "A" = [(0, ['A'])] := by decide
  have hlength := List.Forall₂.length_eq hconforms.spelled
  rw [hpieces] at hlength
  obtain ⟨r, rfl⟩ := List.length_eq_one_iff.mp hlength.symm
  obtain ⟨hnonneg, hlt⟩ := hsources 0 r rfl
  exact absurd hnonneg (Int.not_le.mpr hlt)

end BundleSize
