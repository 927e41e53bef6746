import BundleSize.Proofs.Vlq
import BundleSize.SourceMap.Encoding
import BundleSize.SourceMap.Table

/-!
# Decoding undoes encoding

Encoder and decoder each thread the sums of five kinds of numbers. The proof
runs them side by side: from equal sums, a written segment is decoded into
its own mapping and leaves equal sums (`decodeSegment_encode`), hence so does
a line (`decodeLine_encodeLine`), hence so do all lines
(`decodeLines_encodeLines`). No sum can drift, because a field is the
difference to the very sum that it is added to; the one invariant is that
the sums of lines and source columns stay non-negative, which a segment
without a reference needs of the segments before it (`Sums.Placed`).

Around this, joining and splitting cancel, since no written digit is a
separator. Empty lines are no exception: an empty line and a line with one
empty segment are the same text, and neither has a mapping.
-/

namespace BundleSize

/-! ## Joining and splitting -/

theorem splitAt_eq_splitOn (separator : Char) (s : List Char) :
    Text.splitAt separator s = s.splitOn separator := by
  induction s with
  | nil => rfl
  | cons c rest ih =>
      rw [List.splitOn_cons_eq_if_modifyHead, ← ih, Text.splitAt]
      split
      · rename_i h
        exact absurd h (Text.splitAt_ne_nil separator rest)
      · rename_i piece pieces h
        by_cases hc : c = separator <;> simp [hc, h]

theorem splitAt_intercalate {separator : Char} {pieces : List (List Char)}
    (hpieces : ∀ piece ∈ pieces, separator ∉ piece) (hne : pieces ≠ []) :
    Text.splitAt separator ([separator].intercalate pieces) = pieces := by
  rw [splitAt_eq_splitOn, List.splitOn_intercalate separator hpieces hne]

theorem not_mem_intercalate {separator c : Char} (hc : c ≠ separator) :
    ∀ {pieces : List (List Char)}, (∀ piece ∈ pieces, c ∉ piece) →
      c ∉ [separator].intercalate pieces
  | [], _ => by simp
  | [piece], h => by
      rw [List.intercalate_singleton]
      exact h piece (List.mem_singleton.mpr rfl)
  | piece :: next :: pieces, h => by
      rw [List.intercalate_cons_cons, List.append_assoc, List.mem_append, List.mem_append,
        List.mem_singleton]
      rintro (hmem | hmem | hmem)
      · exact h piece (List.mem_cons_self ..) hmem
      · exact hc hmem
      · exact not_mem_intercalate hc (fun p hp => h p (List.mem_cons_of_mem _ hp)) hmem

/-- Decoding a joined line is decoding its segments; a line of none reads as one empty segment. -/
theorem decodeLine_splitAt_intercalate (place : Mapping → Except ShapeFault α) (legend : Legend)
    (line : Nat) (sums : Sums) {segments : List (List Char)}
    (h : ∀ segment ∈ segments, ',' ∉ segment) :
    decodeLine place legend line sums (Text.splitAt ',' ([','].intercalate segments)) =
      decodeLine place legend line sums segments := by
  cases segments with
  | nil => rfl
  | cons segment segments => rw [splitAt_intercalate h (List.cons_ne_nil _ _)]

/-- Decoding joined lines is decoding the lines; a text of none reads as one empty line. -/
theorem decodeLines_splitAt_intercalate (place : Mapping → Except ShapeFault α) (legend : Legend)
    (line : Nat) (sums : Sums) {lines : List (List Char)} (h : ∀ text ∈ lines, ';' ∉ text) :
    decodeLines place legend line sums (Text.splitAt ';' ([';'].intercalate lines)) =
      decodeLines place legend line sums lines := by
  cases lines with
  | nil => rfl
  | cons text lines => rw [splitAt_intercalate h (List.cons_ne_nil _ _)]

/-! ## Adding the fields of a segment -/

/-- The legend of a document that lists texts. -/
def Legend.ofLabels (sources names : List String) : Legend :=
  { sources := .labels (sources.map Json.string)
    names := .labels (names.map Json.string) }

theorem Listing.get?_labels {labels : List Json} {n : Nat} {label : Json}
    (h : labels[n]? = some label) : (Listing.labels labels).get? n = .ok (some label) := by
  simp [Listing.get?, h]

theorem Listing.ofJson_array (labels : List Json) :
    Listing.ofJson (some (.array labels)) = .labels labels := by
  cases labels <;> simp [Listing.ofJson, Json.isEmpty]

theorem addFields_place {legend : Legend} {sums : Sums} {label : Json} {source : Int}
    (column line sourceColumn : Int) (text : String)
    (hsource : legend.sources.get? (sums.source + source) = .ok (some label)) :
    addFields legend sums text [column, source, line, sourceColumn] =
      .ok ({ sums with
              column := sums.column + column
              source := sums.source + source
              line := sums.line + line
              sourceColumn := sums.sourceColumn + sourceColumn }, some (label, none)) := by
  simp only [addFields, hsource]
  rfl

theorem addFields_named {legend : Legend} {sums : Sums} {label : Json} {named : Option Json}
    {source name : Int} (column line sourceColumn : Int) (text : String)
    (hsource : legend.sources.get? (sums.source + source) = .ok (some label))
    (hname : legend.names.get? (sums.name + name) = .ok named) :
    addFields legend sums text [column, source, line, sourceColumn, name] =
      .ok ({ column := sums.column + column
             source := sums.source + source
             line := sums.line + line
             sourceColumn := sums.sourceColumn + sourceColumn
             name := sums.name + name }, some (label, named)) := by
  simp only [addFields, hsource, hname]
  rfl

/-- The source and the name that a segment selects. -/
def Segment.selection (sources names : List String) (s : Segment) :
    Option (Json × Option Json) :=
  s.reference.bind fun r =>
    sources[r.source]?.map fun source =>
      (Json.string source, (r.name.bind (names[·]?)).map Json.string)

/-- The fields that the encoder computes from the sums lead the decoder to the encoder's next
sums, one case per shape of a segment. -/
theorem addFields_fields {sources names : List String} {s : Segment}
    (hs : s.IsListed sources.length names.length) (sums : Sums) (text : String) :
    addFields (.ofLabels sources names) sums text (s.fields sums) =
      .ok (s.advance sums, s.selection sources names) := by
  have hsum : ∀ a b : Int, a + (b - a) = b := fun a b => by omega
  obtain ⟨column, _ | ⟨source, line, sourceColumn, name⟩⟩ := s
  · simp only [Segment.fields, Segment.advance, Segment.selection, addFields, hsum,
      Option.bind_none]
  · obtain ⟨hsource, hname⟩ := hs _ rfl
    obtain ⟨label, hlabel⟩ : ∃ label, sources[source]? = some label :=
      ⟨_, List.getElem?_eq_getElem hsource⟩
    have hget : (Legend.ofLabels sources names).sources.get?
        (sums.source + ((source : Int) - sums.source)) = .ok (some (.string label)) := by
      rw [hsum]
      exact Listing.get?_labels (by rw [List.getElem?_map, hlabel]; rfl)
    cases name with
    | none =>
        have hadd := addFields_place (column - sums.column) (line - sums.line)
          (sourceColumn - sums.sourceColumn) text hget
        simp only [hsum] at hadd
        simpa [Segment.fields, Segment.advance, Segment.selection, hlabel] using hadd
    | some name =>
        obtain ⟨symbol, hsymbol⟩ : ∃ symbol, names[name]? = some symbol :=
          ⟨_, List.getElem?_eq_getElem (hname name rfl)⟩
        have hnamed : (Legend.ofLabels sources names).names.get?
            (sums.name + ((name : Int) - sums.name)) = .ok (some (.string symbol)) := by
          rw [hsum]
          exact Listing.get?_labels (by rw [List.getElem?_map, hsymbol]; rfl)
        have hadd := addFields_named (column - sums.column) (line - sums.line)
          (sourceColumn - sums.sourceColumn) text hget hnamed
        simp only [hsum] at hadd
        simpa [Segment.fields, Segment.advance, Segment.selection, hlabel, hsymbol] using hadd

/-! ## One segment -/

/-- The sums stand at a place that a source can have. -/
structure Sums.Placed (sums : Sums) : Prop where
  line : 0 ≤ sums.line
  sourceColumn : 0 ≤ sums.sourceColumn

theorem Segment.advance_placed {sums : Sums} (h : sums.Placed) (s : Segment) :
    (s.advance sums).Placed := by
  obtain ⟨column, _ | r⟩ := s
  · exact ⟨h.line, h.sourceColumn⟩
  · exact ⟨Int.natCast_nonneg r.line, Int.natCast_nonneg r.column⟩

theorem Segment.advance_column (sums : Sums) (s : Segment) :
    (s.advance sums).column = s.column := by
  obtain ⟨column, _ | r⟩ := s <;> rfl

/-- The mapping on the generated line with index `line` that the sums after a segment give. -/
def Sums.mapping (sums : Sums) (line : Nat) : Option (Json × Option Json) → Mapping
  | none => ⟨⟨line + 1, sums.column⟩, none, none, none⟩
  | some (label, named) =>
    ⟨⟨line + 1, sums.column⟩, labelOf label, some ⟨sums.line + 1, sums.sourceColumn⟩,
      named.bind labelOf⟩

theorem mapError_ok (f : ε → ε') (a : α) : (Except.ok a).mapError f = .ok a := rfl

theorem decodeSegment_eq {legend : Legend} {line : Nat} {sums sums' : Sums} {text : List Char}
    {fields : List Int} {selected : Option (Json × Option Json)}
    (hfields : segmentFields text = .ok fields)
    (hadd : addFields legend sums (String.ofList text) fields = .ok (sums', selected))
    (hcolumn : 0 ≤ sums'.column) (hplaced : sums'.Placed) :
    decodeSegment legend line sums text = .ok (sums', sums'.mapping line selected) := by
  have hpositive : ¬(sums'.column < 0 ∨ sums'.line < 0 ∨ sums'.sourceColumn < 0) := by
    have := hplaced.line
    have := hplaced.sourceColumn
    omega
  simp only [decodeSegment, hfields, hadd, hpositive, bind, Except.bind, if_false, pure,
    Except.pure]
  cases selected <;> simp [Sums.mapping]

theorem Segment.mapping_advance {sources names : List String} {s : Segment}
    (hs : s.IsListed sources.length names.length) (sums : Sums) (line : Nat) :
    (s.advance sums).mapping line (s.selection sources names) = s.mapping sources names line := by
  obtain ⟨column, _ | ⟨source, sourceLine, sourceColumn, name⟩⟩ := s
  · rfl
  · obtain ⟨hsource, hname⟩ := hs _ rfl
    cases name with
    | none => simp [Segment.advance, Segment.selection, Segment.mapping, Sums.mapping, hsource,
        labelOf]
    | some name => simp [Segment.advance, Segment.selection, Segment.mapping, Sums.mapping,
        hsource, hname name rfl, labelOf]

/-- The step: from the encoder's sums, the written segment is decoded into its own mapping, and
the decoder's sums are again the encoder's. -/
theorem decodeSegment_encode {sources names : List String} {s : Segment}
    (hs : s.IsListed sources.length names.length) {sums : Sums} (hsums : sums.Placed)
    (line : Nat) :
    decodeSegment (.ofLabels sources names) line sums (Vlq.encode (s.fields sums)) =
      .ok (s.advance sums, s.mapping sources names line) := by
  have hfields : segmentFields (Vlq.encode (s.fields sums)) = .ok (s.fields sums) := by
    rw [segmentFields, Vlq.decode_encode]
  have hcolumn : 0 ≤ (s.advance sums).column := by
    rw [Segment.advance_column]
    exact Int.natCast_nonneg s.column
  rw [decodeSegment_eq hfields (addFields_fields hs sums _) hcolumn (s.advance_placed hsums),
    Segment.mapping_advance hs]

/-! ## Lines -/

theorem Segment.fields_ne_nil (sums : Sums) (s : Segment) : s.fields sums ≠ [] := by
  obtain ⟨column, _ | r⟩ := s <;> simp [Segment.fields]

theorem comma_not_mem_encodeLine : ∀ {sums : Sums} {line : List Segment} {text : List Char},
    text ∈ (encodeLine sums line).1 → ',' ∉ text
  | _, [], _, h => absurd h List.not_mem_nil
  | sums, s :: rest, text, h => by
      rcases List.mem_cons.mp h with rfl | h
      · exact Vlq.comma_not_mem_encode _
      · exact comma_not_mem_encodeLine h

theorem semicolon_not_mem_encodeLine : ∀ {sums : Sums} {line : List Segment} {text : List Char},
    text ∈ (encodeLine sums line).1 → ';' ∉ text
  | _, [], _, h => absurd h List.not_mem_nil
  | sums, s :: rest, text, h => by
      rcases List.mem_cons.mp h with rfl | h
      · exact Vlq.semicolon_not_mem_encode _
      · exact semicolon_not_mem_encodeLine h

theorem semicolon_not_mem_encodeLines : ∀ {lines : List (List Segment)} {sums : Sums}
    {text : List Char}, text ∈ encodeLines sums lines → ';' ∉ text
  | [], _, _, h => absurd h List.not_mem_nil
  | line :: lines, sums, text, h => by
      rcases List.mem_cons.mp h with rfl | h
      · exact not_mem_intercalate (by decide) fun _ => semicolon_not_mem_encodeLine
      · exact semicolon_not_mem_encodeLines h

theorem encodeLine_placed : ∀ (line : List Segment) {sums : Sums}, sums.Placed →
    (encodeLine sums line).2.Placed
  | [], _, h => h
  | s :: rest, _, h => encodeLine_placed rest (s.advance_placed h)

variable {sources names : List String}

/-- A written line is decoded segment by segment, with the encoder's sums after each. -/
theorem decodeLine_encodeLine (n : Nat) : ∀ (line : List Segment) {sums : Sums},
    (∀ s ∈ line, s.IsListed sources.length names.length) → sums.Placed →
      decodeLine .ok (.ofLabels sources names) n sums (encodeLine sums line).1 =
        .ok ((encodeLine sums line).2, line.map (Segment.mapping sources names n))
  | [], _, _, _ => rfl
  | s :: rest, sums, hlisted, hsums => by
      have hs := hlisted s (List.mem_cons_self ..)
      have ih := decodeLine_encodeLine n rest
        (fun r hr => hlisted r (List.mem_cons_of_mem _ hr)) (s.advance_placed hsums)
      have hne : Vlq.encode (s.fields sums) ≠ [] := Vlq.encode_ne_nil (s.fields_ne_nil sums)
      have hstep := decodeSegment_encode hs hsums n
      simp only [encodeLine, List.map_cons]
      generalize Vlq.encode (s.fields sums) = text at hne hstep ⊢
      cases text with
      | nil => exact absurd rfl hne
      | cons c text =>
          simp only [decodeLine, hstep, ih, mapError_ok, bind, Except.bind, pure, Except.pure]

/-- The written lines are decoded line by line. Both sides restart the sum of the columns on every
line and carry the other sums on. -/
theorem decodeLines_encodeLines : ∀ {lines : List (List Segment)} (n : Nat) {sums : Sums},
    (∀ line ∈ lines, ∀ s ∈ line, s.IsListed sources.length names.length) → sums.Placed →
      decodeLines .ok (.ofLabels sources names) n sums (encodeLines sums lines) =
        .ok (segmentMappings sources names n lines)
  | [], _, _, _, _ => rfl
  | line :: lines, n, sums, hlisted, hsums => by
      have hplaced : { sums with column := 0 : Sums }.Placed := ⟨hsums.line, hsums.sourceColumn⟩
      have hline := decodeLine_encodeLine n line (hlisted line (List.mem_cons_self ..)) hplaced
      have ih := decodeLines_encodeLines (n + 1)
        (fun l hl => hlisted l (List.mem_cons_of_mem _ hl)) (encodeLine_placed line hplaced)
      have hcomma : ∀ text ∈ (encodeLine { sums with column := 0 } line).1, ',' ∉ text :=
        fun _ => comma_not_mem_encodeLine
      simp only [encodeLines, decodeLines, decodeLine_splitAt_intercalate _ _ _ _ hcomma, hline,
        ih, bind, Except.bind, pure, Except.pure, segmentMappings]

/-! ## Documents -/

/-- The members of a flat document that lists the sources and the names and in which the lines
are written. Other members, and the order of all, make no difference. -/
structure Writes (members : List (String × Json)) (sources names : List String)
    (lines : List (List Segment)) : Prop where
  version : Json.member? "version" members = some (.int 3)
  flat : Json.member? "sections" members = none
  sources : Json.member? "sources" members = some (.array (sources.map Json.string))
  names : Json.member? "names" members = some (.array (names.map Json.string))
  mappings : Json.member? "mappings" members = some (.string (encodeMappings lines))

theorem decodeMappings_of_writes {members : List (String × Json)} {lines : List (List Segment)}
    (hwrites : Writes members sources names lines)
    (hlisted : ∀ line ∈ lines, ∀ s ∈ line, s.IsListed sources.length names.length) :
    decodeMappings .ok members = .ok (segmentMappings sources names 0 lines) := by
  have hlegend : (⟨Listing.ofJson (Json.member? "sources" members),
      Listing.ofJson (Json.member? "names" members)⟩ : Legend) = .ofLabels sources names := by
    rw [hwrites.sources, hwrites.names, Listing.ofJson_array, Listing.ofJson_array,
      Legend.ofLabels]
  have hsemicolon : ∀ text ∈ encodeLines {} lines, ';' ∉ text :=
    fun _ => semicolon_not_mem_encodeLines
  rw [decodeMappings, hwrites.mappings]
  simp only [hlegend, encodeMappings, String.toList_ofList]
  rw [decodeLines_splitAt_intercalate _ _ _ _ hsemicolon,
    decodeLines_encodeLines 0 hlisted ⟨Int.le_refl 0, Int.le_refl 0⟩]

theorem decodeDocument_of_writes {members : List (String × Json)} {lines : List (List Segment)}
    (hwrites : Writes members sources names lines)
    (hlisted : ∀ line ∈ lines, ∀ s ∈ line, s.IsListed sources.length names.length) :
    decodeDocument (.object members) = .ok ((segmentMappings sources names 0 lines).map .whole) := by
  simp only [decodeDocument, hwrites.version, hwrites.flat, Option.any_some, Json.isNumber,
    decodeMappings_of_writes hwrites hlisted]
  rfl

/-- A source that is a name can be shown. -/
theorem isWritable_source_of_texts {mappings : List Mapping}
    (htexts : ∀ m ∈ mappings, ∀ source ∈ m.source, ∃ s, source = .string s) :
    ((PositionTable.firstSource mappings).getD .null).isWritable = true := by
  cases hfirst : PositionTable.firstSource mappings with
  | none => rfl
  | some source =>
    obtain ⟨m, hm, hsource⟩ := List.exists_of_findSome?_eq_some hfirst
    obtain ⟨s, rfl⟩ := htexts m hm source hsource
    rfl

theorem segmentMapping_source {sources names : List String} {line : Nat} {s : Segment}
    {source : Label} (h : (s.mapping sources names line).source = some source) :
    ∃ name, source = .string name := by
  obtain ⟨column, _ | r⟩ := s
  · cases h
  · obtain ⟨name, -, rfl⟩ := Option.map_eq_some_iff.mp h
    exact ⟨name, rfl⟩

theorem segmentMappings_source {source : Label} {m : Mapping} : ∀ {lines : List (List Segment)}
    {n : Nat}, m ∈ segmentMappings sources names n lines → m.source = some source →
      ∃ name, source = .string name
  | [], _, hm, _ => absurd hm List.not_mem_nil
  | line :: lines, n, hm, hsource => by
      rcases List.mem_append.mp hm with hm | hm
      · obtain ⟨s, -, rfl⟩ := List.mem_map.mp hm
        exact segmentMapping_source hsource
      · exact segmentMappings_source hm hsource

theorem encodeDocument_writes (sources names : List String) (lines : List (List Segment)) :
    ∃ members, encodeDocument sources names lines = .object members ∧
      Writes members sources names lines :=
  ⟨_, rfl, rfl, rfl, rfl, rfl, rfl⟩

/-- **Decoding undoes encoding.** Whatever lines of segments a document has been written from, its
decoded mappings are those that the segments stand for, in their order, and its table is the
table of these mappings and holds them. -/
theorem ofDocument_eq_of_writes {members : List (String × Json)} {lines : List (List Segment)}
    (hwrites : Writes members sources names lines)
    (hlisted : ∀ line ∈ lines, ∀ s ∈ line, s.IsListed sources.length names.length)
    (selected : Option Label) :
    decodeMappings .ok members = .ok (segmentMappings sources names 0 lines)
      ∧ PositionTable.ofDocument (.object members) selected =
          .ok (.ofMappings (segmentMappings sources names 0 lines) selected)
      ∧ (PositionTable.ofDocument (.object members) selected).map (·.mappings) =
          .ok (segmentMappings sources names 0 lines) := by
  have htable : PositionTable.ofDocument (.object members) selected = _ :=
    PositionTable.ofDocument_eq (decodeDocument_of_writes hwrites hlisted)
      fun _ => isWritable_source_of_texts fun _ hm _ => segmentMappings_source hm
  refine ⟨decodeMappings_of_writes hwrites hlisted, htable, ?_⟩
  rw [htable]
  rfl

/-- An empty line, a segment without a reference, and a source that is left and not returned to. -/
def sampleLines : List (List Segment) :=
  [[⟨0, some ⟨0, 0, 0, none⟩⟩, ⟨2, some ⟨0, 0, 2, some 0⟩⟩], [],
    [⟨0, none⟩, ⟨7, some ⟨1, 3, 1, none⟩⟩]]

example : encodeMappings sampleLines = "AAAA,EAAEA;;A,OCGD" := by decide +kernel

theorem ofDocument_eq_of_writes_sampleLines :
    ∃ members, encodeDocument ["a.js", "b.js"] ["x"] sampleLines = .object members
      ∧ decodeMappings .ok members = .ok
          [⟨⟨1, 0⟩, some (.string "a.js"), some ⟨1, 0⟩, none⟩,
            ⟨⟨1, 2⟩, some (.string "a.js"), some ⟨1, 2⟩, some (.string "x")⟩,
            ⟨⟨3, 0⟩, none, none, none⟩,
            ⟨⟨3, 7⟩, some (.string "b.js"), some ⟨4, 1⟩, none⟩] := by
  obtain ⟨members, hdocument, hwrites⟩ := encodeDocument_writes ["a.js", "b.js"] ["x"] sampleLines
  have hlisted : ∀ line ∈ sampleLines, ∀ s ∈ line, s.IsListed 2 1 := by
    simp [sampleLines, Segment.IsListed]
  exact ⟨members, hdocument, (ofDocument_eq_of_writes hwrites hlisted none).1⟩

end BundleSize
