import BundleSize.Proofs.SourceIndexes
import BundleSize.SourceMap.Table

/-!
# Values out of place

Reading a document checks its version, the presence of a map in each section, the
text of mappings and everything that this text says. It does not check of which kind
the values are that it goes by on the way: the list of sections, a section, its
offset, its map, the sources and the names. A value of another kind is only noticed
when something is asked of it that it does not have, and what comes of that is no
refusal of a source map.

`Misplaced` lists the places. Two more things are noticed late, when they have to be
written and are too long for it: a source index that is out of range, and the source
that is selected. Whatever document is given, and in whatever form, a table is made of
it, or it is refused as a source map, or it has one of these flaws (`Unrefused`,
`settles_ofDocument`). So a document whose values are all of the kinds that the format
has for them is met with a table or a refusal, as long as all is short enough
(`InShape.settles`).

The proof follows the reader from the lines of a map up to the document. At each level
the errors are `MapError.Within` the faults of that level.
-/

namespace BundleSize

/-! ## The places -/

/-- The value stands for the sources or the names, and does not list any. -/
inductive ListsNothing : Json → ShapeFault → Prop where
  | unsized {value : Json} : value.isEmpty = false → (∀ items, value ≠ .array items) →
      (∀ s, value ≠ .string s) → (∀ members, value ≠ .object members) →
      ListsNothing value (.notACollection value)
  | keyed {members : List (String × Json)} {index : Int} : 0 ≤ index → index < members.length →
      ListsNothing (.object members) (.notIndexed index)

/-- The sources or the names of a map are out of place. -/
inductive MapMisplaced (members : List (String × Json)) (fault : ShapeFault) : Prop where
  | sources {value : Json} : Json.member? "sources" members = some value →
      ListsNothing value fault → MapMisplaced members fault
  | names {value : Json} : Json.member? "names" members = some value →
      ListsNothing value fault → MapMisplaced members fault

/-- A section, its offset or its map is out of place, or something in these. -/
inductive SectionMisplaced : Json → ShapeFault → Prop where
  | notAnObject {item : Json} : (∀ section_, item ≠ .object section_) →
      SectionMisplaced item (.notAnObject item)
  | offset {section_ : List (String × Json)} {value : Json} :
      Json.member? "offset" section_ = some value → value.isEmpty = false →
      (∀ members, value ≠ .object members) →
      SectionMisplaced (.object section_) (.notAnObject value)
  | line {section_ offset : List (String × Json)} {value : Json} {fault : ShapeFault} :
      Json.member? "offset" section_ = some (.object offset) →
      Json.member? "line" offset = some value → (∃ n, addOffset n value = .error fault) →
      SectionMisplaced (.object section_) fault
  | column {section_ offset : List (String × Json)} {value : Json} {fault : ShapeFault} :
      Json.member? "offset" section_ = some (.object offset) →
      Json.member? "column" offset = some value → (∃ n, addOffset n value = .error fault) →
      SectionMisplaced (.object section_) fault
  | map {section_ : List (String × Json)} {value : Json} :
      Json.member? "map" section_ = some value → (∀ members, value ≠ .object members) →
      SectionMisplaced (.object section_) (.notAnObject value)
  | inMap {section_ members : List (String × Json)} {fault : ShapeFault} :
      Json.member? "map" section_ = some (.object members) → MapMisplaced members fault →
      SectionMisplaced (.object section_) fault

/-- Some value in the document is of a kind that is not provided for in its place, or an offset is a
decimal that a line or a column is too large for. -/
inductive Misplaced : Json → ShapeFault → Prop where
  | inDocument {members : List (String × Json)} {fault : ShapeFault} :
      Json.member? "sections" members = none → MapMisplaced members fault →
      Misplaced (.object members) fault
  | sections {members : List (String × Json)} {value : Json} {fault : ShapeFault} :
      Json.member? "sections" members = some value → sectionList value = .error fault →
      Misplaced (.object members) fault
  | inSection {members : List (String × Json)} {value item : Json} {items : List Json}
      {fault : ShapeFault} :
      Json.member? "sections" members = some value → sectionList value = .ok items →
      item ∈ items → SectionMisplaced item fault → Misplaced (.object members) fault

/-- The map is the document itself, or that of a section. -/
inductive HoldsMap : Json → List (String × Json) → Prop where
  | flat {members : List (String × Json)} : Json.member? "sections" members = none →
      HoldsMap (.object members) members
  | inSection {members section_ map : List (String × Json)} {value : Json} {items : List Json} :
      Json.member? "sections" members = some value → sectionList value = .ok items →
      .object section_ ∈ items → Json.member? "map" section_ = some (.object map) →
      HoldsMap (.object members) map

/-- The text of a map comes to a source index at which no source is listed. -/
structure Oversteps (map : List (String × Json)) (index : Int) : Prop where
  comesTo : ∃ text, Json.member? "mappings" map = some (.string text) ∧ ComesTo text index
  unlisted : (Listing.ofJson (Json.member? "sources" map)).get? index = .ok none

/-- The document has a flaw that no check looks for, and that the error comes of. -/
inductive Unrefused (document : Json) (selected : Option Label) : MapError → Prop where
  | misplaced {fault : ShapeFault} : Misplaced document fault →
      Unrefused document selected (.malformed fault)
  | index {map : List (String × Json)} {index : Int} : HoldsMap document map →
      Oversteps map index → Text.isWritable index = false →
      Unrefused document selected (.sourceOutOfRange index)
  | source {placed : List PlacedMapping} {m : PlacedMapping} {source : Label} : selected = none →
      decodeDocument document = .ok placed → m ∈ placed → m.source = some source →
      source.isWritable = false → Unrefused document selected .unshownSource

/-- No such error counts as a refusal. -/
theorem Unrefused.kind {document : Json} {selected : Option Label} {e : MapError}
    (h : Unrefused document selected e) :
    (AnalysisError.map e).kind
      ∈ ["TypeError", "AttributeError", "KeyError", "OverflowError", "ValueError"] := by
  cases h with
  | @misplaced fault _ =>
      have hkind : (AnalysisError.map (.malformed fault)).kind = AnalysisError.kindOfShape fault :=
        rfl
      rw [hkind]
      cases fault <;> simp [AnalysisError.kindOfShape]
  | @index _ index _ _ hlong =>
      have hkind : (AnalysisError.map (.sourceOutOfRange index)).kind = "ValueError" :=
        if_neg (by simp [MapError.refuses, hlong])
      rw [hkind]
      decide
  | source => decide

/-! ## From the errors to the places -/

theorem listsNothing_of_get? {value : Option Json} {index : Int} {fault : ShapeFault}
    (h : (Listing.ofJson value).get? index = .error fault) :
    ∃ v, value = some v ∧ ListsNothing v fault := by
  unfold Listing.get? at h
  split at h
  · cases h
  rename_i hindex
  unfold Listing.ofJson at h
  cases value with
  | none => cases h
  | some v =>
      refine ⟨v, rfl, ?_⟩
      cases hempty : v.isEmpty with
      | true => simp [hempty] at h
      | false =>
          simp only [hempty] at h
          cases v with
          | object members =>
              simp only [Bool.false_eq_true, if_false] at h
              split at h
              · rename_i hlt
                obtain rfl := Except.error.inj h
                exact .keyed (by omega) hlt
              · cases h
          | array items => cases h
          | string s => cases h
          | _ =>
              obtain rfl := Except.error.inj h
              exact .unsized hempty nofun nofun nofun

theorem decodeMappings_within {members : List (String × Json)}
    {place : Mapping → Except ShapeFault α} {e : MapError}
    (h : decodeMappings place members = .error e) :
    e.Within fun fault => MapMisplaced members fault ∨ ∃ m, place m = .error fault := by
  unfold decodeMappings at h
  split at h
  · refine (decodeLines_within h).imp ?_
    rintro fault (hget | hget | hplace)
    · obtain ⟨value, hvalue, hlists⟩ := listsNothing_of_get? hget
      exact Or.inl (.sources hvalue hlists)
    · obtain ⟨value, hvalue, hlists⟩ := listsNothing_of_get? hget
      exact Or.inl (.names hvalue hlists)
    · exact Or.inr ⟨_, hplace⟩
  · obtain rfl := Except.error.inj h
    exact Or.inl rfl

theorem misplaced_of_sectionOffset {section_ : List (String × Json)} {fault : ShapeFault}
    (h : sectionOffset section_ = .error fault) : SectionMisplaced (.object section_) fault := by
  unfold sectionOffset at h
  split at h
  · cases h
  · cases h
  · rename_i value hnotObject hoffset
    split at h
    · cases h
    · rename_i hempty
      obtain rfl := Except.error.inj h
      exact .offset hoffset (by simpa using hempty) hnotObject

/-- A mapping that gets no place has a number that the line or the column of the offset is not added
to. -/
theorem SectionOffset.fault_of_place {offset : SectionOffset} {m : Mapping} {fault : ShapeFault}
    (h : offset.place m = .error fault) :
    (∃ n, addOffset n offset.line = .error fault)
      ∨ ∃ n, addOffset n offset.column = .error fault := by
  rcases bind_eq_error h with h | ⟨column, -, h⟩
  · -- only the first line asks for the column of the offset
    split at h
    · exact .inr ⟨_, h⟩
    · cases h
  rcases bind_eq_error h with h | ⟨line, -, h⟩
  · exact .inl ⟨_, h⟩
  · cases h

/-- An offset that is absent or empty is zero, so a fault in it comes from a member. -/
theorem misplaced_of_place {section_ : List (String × Json)} {offset : SectionOffset} {m : Mapping}
    {fault : ShapeFault} (h : sectionOffset section_ = .ok offset)
    (hfault : offset.place m = .error fault) : SectionMisplaced (.object section_) fault := by
  have hfault := SectionOffset.fault_of_place hfault
  have hzero : ∀ n, addOffset n (.int 0) ≠ .error fault := nofun
  unfold sectionOffset at h
  split at h
  · obtain rfl := Except.ok.inj h
    rcases hfault with ⟨n, hn⟩ | ⟨n, hn⟩ <;> exact absurd hn (hzero n)
  · rename_i members hoffset
    obtain rfl := Except.ok.inj h
    simp only at hfault
    rcases hfault with hline | hcolumn
    · cases hmember : Json.member? "line" members with
      | none =>
          rw [hmember] at hline
          exact absurd hline.choose_spec (hzero _)
      | some value =>
          rw [hmember] at hline
          exact .line hoffset hmember hline
    · cases hmember : Json.member? "column" members with
      | none =>
          rw [hmember] at hcolumn
          exact absurd hcolumn.choose_spec (hzero _)
      | some value =>
          rw [hmember] at hcolumn
          exact .column hoffset hmember hcolumn
  · split at h
    · obtain rfl := Except.ok.inj h
      rcases hfault with ⟨n, hn⟩ | ⟨n, hn⟩ <;> exact absurd hn (hzero n)
    · cases h

theorem decodeSection_within {item : Json} {e : MapError} (h : decodeSection item = .error e) :
    e.Within (SectionMisplaced item) := by
  unfold decodeSection at h
  split at h
  · rename_i section_
    split at h
    · obtain rfl := Except.error.inj h
      exact Or.inl rfl
    · rename_i document hmap
      rcases bind_eq_error h with h | ⟨offset, hoffset, h⟩
      · exact MapError.within_malformed h fun fault hfault => misplaced_of_sectionOffset hfault
      split at h
      · refine (decodeMappings_within h).imp ?_
        rintro fault (hmembers | ⟨m, hfault⟩)
        · exact .inMap hmap hmembers
        · exact misplaced_of_place (mapError_eq_ok hoffset) hfault
      · rename_i hnotObject
        obtain rfl := Except.error.inj h
        exact .inr (.inr ⟨_, rfl, .map hmap hnotObject⟩)
  · rename_i hnotObject
    obtain rfl := Except.error.inj h
    exact .inr (.inr ⟨_, rfl, .notAnObject hnotObject⟩)

theorem decodeSections_within {e : MapError} : ∀ {items : List Json},
    decodeSections items = .error e →
      e.Within fun fault => ∃ item ∈ items, SectionMisplaced item fault
  | item :: items, h => by
      rcases bind_eq_error h with h | ⟨own, -, h⟩
      · refine (decodeSection_within h).imp fun fault hfault => ?_
        exact ⟨item, List.mem_cons_self .., hfault⟩
      rcases bind_eq_error h with h | ⟨later, -, h⟩
      · refine (decodeSections_within h).imp ?_
        rintro fault ⟨other, hother, hfault⟩
        exact ⟨other, List.mem_cons_of_mem _ hother, hfault⟩
      · cases h

theorem decodeDocument_within {document : Json} {e : MapError}
    (h : decodeDocument document = .error e) : e.Within (Misplaced document) := by
  unfold decodeDocument at h
  split at h
  · split at h
    · split at h
      · rename_i hflat
        refine (decodeMappings_within (map_eq_error h)).imp ?_
        rintro fault (hmembers | ⟨m, hfault⟩)
        · exact .inDocument hflat hmembers
        · cases hfault
      · rename_i value hsections
        split at h
        · rename_i fault hfault
          obtain rfl := Except.error.inj h
          exact .inr (.inr ⟨fault, rfl, .sections hsections hfault⟩)
        · rename_i items hitems
          refine (decodeSections_within h).imp ?_
          rintro fault ⟨item, hitem, hfault⟩
          exact .inSection hsections hitems hitem hfault
    · obtain rfl := Except.error.inj h
      exact Or.inl rfl
  · obtain rfl := Except.error.inj h
    exact Or.inl rfl

theorem oversteps_of_decodeMappings {members : List (String × Json)}
    {place : Mapping → Except ShapeFault α} {index : Int}
    (h : decodeMappings place members = .error (.sourceOutOfRange index)) :
    Oversteps members index := by
  obtain ⟨text, htext, hcomes, hget⟩ := comesTo_of_decodeMappings h
  exact ⟨⟨text, htext, hcomes⟩, hget⟩

theorem oversteps_of_decodeSection {item : Json} {index : Int}
    (h : decodeSection item = .error (.sourceOutOfRange index)) :
    ∃ section_ map, item = .object section_ ∧ Json.member? "map" section_ = some (.object map)
      ∧ Oversteps map index := by
  unfold decodeSection at h
  split at h
  · rename_i section_
    split at h
    · cases h
    · rename_i hmap
      rcases bind_eq_error h with h | ⟨offset, -, h⟩
      · obtain ⟨_, -, h⟩ := mapError_eq_error h
        cases h
      split at h
      · exact ⟨section_, _, rfl, hmap, oversteps_of_decodeMappings h⟩
      · cases h
  · cases h

theorem exists_section_of_index {index : Int} : ∀ {items : List Json},
    decodeSections items = .error (.sourceOutOfRange index) →
      ∃ item ∈ items, decodeSection item = .error (.sourceOutOfRange index)
  | item :: items, h => by
      rcases bind_eq_error h with h | ⟨own, -, h⟩
      · exact ⟨item, List.mem_cons_self .., h⟩
      rcases bind_eq_error h with h | ⟨later, -, h⟩
      · obtain ⟨other, hother, herror⟩ := exists_section_of_index h
        exact ⟨other, List.mem_cons_of_mem _ hother, herror⟩
      · cases h

/-- A document that is refused for a source index holds a map that oversteps its sources. -/
theorem oversteps_of_decodeDocument {document : Json} {index : Int}
    (h : decodeDocument document = .error (.sourceOutOfRange index)) :
    ∃ map, HoldsMap document map ∧ Oversteps map index := by
  unfold decodeDocument at h
  split at h
  · split at h
    · split at h
      · rename_i hflat
        exact ⟨_, .flat hflat, oversteps_of_decodeMappings (map_eq_error h)⟩
      · rename_i value hsections
        split at h
        · cases h
        · rename_i items hitems
          obtain ⟨item, hitem, herror⟩ := exists_section_of_index h
          obtain ⟨section_, map, rfl, hmap, hoversteps⟩ := oversteps_of_decodeSection herror
          exact ⟨map, .inSection hsections hitems hitem hmap, hoversteps⟩
    · cases h
  · cases h

/-- The source that is selected when nobody asks for one is that of a mapping. -/
theorem DocumentTable.exists_of_source {placed : List PlacedMapping} {source : Label}
    (h : (ofPlaced placed none).source = some source) : ∃ m ∈ placed, m.source = some source := by
  unfold ofPlaced at h
  split at h
  · rename_i mappings hwhole
    obtain ⟨m, hm, hsource⟩ := List.exists_of_findSome?_eq_some h
    rw [eq_map_of_mapM_whole? hwhole]
    exact ⟨.whole m, List.mem_map_of_mem hm, hsource⟩
  · exact List.exists_of_findSome?_eq_some h

/-- A table is made of the document, or the document is refused, or it has a flaw that no check
looks for. -/
def Settles (document : Json) (selected : Option Label) (result : Except MapError DocumentTable) :
    Prop :=
  (∃ table, result = .ok table)
    ∨ ∃ e, result = .error e ∧ (e.Refuses ∨ Unrefused document selected e)

theorem settles_ofDocument (document : Json) (selected : Option Label) :
    Settles document selected (DocumentTable.ofDocument document selected) := by
  cases hresult : DocumentTable.ofDocument document selected with
  | ok table => exact .inl ⟨table, rfl⟩
  | error e =>
      refine .inr ⟨e, rfl, ?_⟩
      rcases bind_eq_error hresult with hdecode | ⟨placed, hdecode, h⟩
      · rcases decodeDocument_within hdecode with hrefuses | ⟨index, rfl, hlong⟩ | ⟨_, rfl, hfault⟩
        · exact .inl hrefuses
        · obtain ⟨map, hmap, hoversteps⟩ := oversteps_of_decodeDocument hdecode
          exact .inr (.index hmap hoversteps hlong)
        · exact .inr (.misplaced hfault)
      simp only at h
      split at h
      · rename_i hunshown
        obtain rfl := Except.error.inj h
        obtain rfl := Option.isNone_iff_eq_none.mp hunshown.1
        cases hsource : (DocumentTable.ofPlaced placed none).source with
        | none =>
            rw [hsource] at hunshown
            exact absurd hunshown.2 (by decide)
        | some source =>
            obtain ⟨m, hm, hmem⟩ := DocumentTable.exists_of_source hsource
            rw [hsource] at hunshown
            exact .inr (.source rfl hdecode hm hmem (by simpa using hunshown.2))
      · cases h

/-- The sources and the names, where there are any, are arrays. -/
structure MapInShape (members : List (String × Json)) : Prop where
  sources : ∀ value ∈ Json.member? "sources" members, ∃ items, value = .array items
  names : ∀ value ∈ Json.member? "names" members, ∃ items, value = .array items

/-- The offset of a section is an object with whole numbers, and its map is an object in shape. -/
structure SectionInShape (section_ : List (String × Json)) : Prop where
  offset : ∀ value ∈ Json.member? "offset" section_, ∃ members, value = .object members
    ∧ (∀ line ∈ Json.member? "line" members, ∃ n, line = .int n)
    ∧ ∀ column ∈ Json.member? "column" members, ∃ n, column = .int n
  map : ∀ value ∈ Json.member? "map" section_, ∃ members, value = .object members
    ∧ MapInShape members

/-- The values of a document are of the kinds that the format has for their places, whatever they
say: an index may be out of range, the text of mappings may be none. -/
structure InShape (document : Json) : Prop where
  map : ∀ members, document = .object members → Json.member? "sections" members = none →
    MapInShape members
  sections : ∀ members, document = .object members →
    ∀ value ∈ Json.member? "sections" members, ∃ items, value = .array items
      ∧ ∀ item ∈ items, ∃ section_, item = .object section_ ∧ SectionInShape section_

variable {fault : ShapeFault}

theorem not_listsNothing_array {items : List Json} : ¬ListsNothing (.array items) fault := by
  rintro ⟨_, hnotArray, _, _⟩
  exact hnotArray items rfl

theorem MapInShape.not_misplaced {members : List (String × Json)} (h : MapInShape members) :
    ¬MapMisplaced members fault := by
  rintro (⟨hvalue, hlists⟩ | ⟨hvalue, hlists⟩)
  · obtain ⟨items, rfl⟩ := h.sources _ hvalue
    exact not_listsNothing_array hlists
  · obtain ⟨items, rfl⟩ := h.names _ hvalue
    exact not_listsNothing_array hlists

theorem SectionInShape.not_misplaced {section_ : List (String × Json)}
    (h : SectionInShape section_) : ¬SectionMisplaced (.object section_) fault := by
  intro hmisplaced
  cases hmisplaced with
  | notAnObject hnotObject => exact hnotObject section_ rfl
  | offset hoffset _ hnotObject =>
      obtain ⟨members, rfl, -⟩ := h.offset _ hoffset
      exact hnotObject members rfl
  | line hoffset hline hfault =>
      obtain ⟨_, ⟨⟩, hlines, -⟩ := h.offset _ hoffset
      obtain ⟨n, rfl⟩ := hlines _ hline
      cases hfault.choose_spec
  | column hoffset hcolumn hfault =>
      obtain ⟨_, ⟨⟩, -, hcolumns⟩ := h.offset _ hoffset
      obtain ⟨n, rfl⟩ := hcolumns _ hcolumn
      cases hfault.choose_spec
  | map hmap hnotObject =>
      obtain ⟨members, rfl, -⟩ := h.map _ hmap
      exact hnotObject members rfl
  | inMap hmap hmembers =>
      obtain ⟨_, ⟨⟩, hshape⟩ := h.map _ hmap
      exact hshape.not_misplaced hmembers

theorem InShape.not_misplaced {document : Json} (h : InShape document) :
    ¬Misplaced document fault := by
  intro hmisplaced
  cases hmisplaced with
  | inDocument hflat hmembers => exact (h.map _ rfl hflat).not_misplaced hmembers
  | sections hsections hfault =>
      obtain ⟨items, rfl, -⟩ := h.sections _ rfl _ hsections
      cases hfault
  | inSection hsections hitems hitem hfault =>
      obtain ⟨items, rfl, hshapes⟩ := h.sections _ rfl _ hsections
      obtain rfl := Except.ok.inj hitems
      obtain ⟨section_, rfl, hshape⟩ := hshapes _ hitem
      exact hshape.not_misplaced hfault

/-- A document in shape is accepted or refused, or something in it is too long to be written. -/
theorem InShape.settles {document : Json} (h : InShape document) (selected : Option Label) :
    (∃ table, DocumentTable.ofDocument document selected = .ok table)
      ∨ ∃ e, DocumentTable.ofDocument document selected = .error e
        ∧ (e.Refuses ∨ (AnalysisError.map e).kind = "ValueError") := by
  rcases settles_ofDocument document selected with haccepted | ⟨e, he, hrefused | hunrefused⟩
  · exact .inl haccepted
  · exact .inr ⟨e, he, .inl hrefused⟩
  · refine .inr ⟨e, he, .inr ?_⟩
    cases hunrefused with
    | misplaced hfault => exact absurd hfault h.not_misplaced
    | index _ _ hlong => exact if_neg (by simp [MapError.refuses, hlong])
    | source => rfl

end BundleSize
