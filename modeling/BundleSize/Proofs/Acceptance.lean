import BundleSize.Proofs.Reports
import BundleSize.Proofs.Sections
import BundleSize.Proofs.Translation

/-!
# What an accepted document guarantees

Reading a document refuses every segment whose numbers come to a negative
column, source line or source column. So whatever document is accepted, its
mappings come from lines and columns that a source can have (`Mapping.Placed`).

Of the generated positions the same holds before a section's place is added to
them, and not after. A section that claims to begin before the text carries its
mappings out of it, and nothing refuses the document (`not_translate_of_ofDocument`). Only
where no section does so the mappings lead into lines and columns that a
text can have, and then no translation fails (`translate_of_ofDocument`).

All this is about documents whose sections begin at whole numbers. One step lemma
looks at a segment (`placed_of_decodeSegment`), the rest carries it through lines,
sections and the document.
-/

namespace BundleSize

/-! ## Offsets of sections -/

/-- The lines and the columns of the offset are whole numbers. -/
def SectionOffset.IsWhole (offset : SectionOffset) : Prop :=
  ∃ line column : Int, offset = ⟨.int line, .int column⟩

/-- The offset is not before the text. -/
structure SectionOffset.InText (offset : SectionOffset) : Prop where
  line : ∀ n, offset.line = .int n → 0 ≤ n
  column : ∀ n, offset.column = .int n → 0 ≤ n

/-- The document has sections, one of which begins at the offset. -/
def HasSectionAt (document : Json) (offset : SectionOffset) : Prop :=
  ∃ members value items section_, document = .object members
    ∧ Json.member? "sections" members = some value ∧ sectionList value = .ok items
    ∧ .object section_ ∈ items ∧ sectionOffset section_ = .ok offset

theorem SectionOffset.inText_of_nonneg {line column : Int} (hline : 0 ≤ line)
    (hcolumn : 0 ≤ column) : SectionOffset.InText ⟨.int line, .int column⟩ where
  line n h := by
    obtain rfl := Json.int.inj h
    exact hline
  column n h := by
    obtain rfl := Json.int.inj h
    exact hcolumn

/-! ## One segment -/

/-- A mapping with a source comes from a place that the source can have. -/
structure Mapping.Placed (m : Mapping) : Prop where
  position : m.source.isSome = true → m.sourcePosition.isSome = true
  proper : ∀ p ∈ m.sourcePosition, p.Proper

/-- Before it is carried to where its section begins, a mapping also leads to a place in a text. -/
theorem placed_of_decodeSegment {legend : Legend} {line : Nat} {sums sums' : Sums}
    {segment : List Char} {m : Mapping}
    (h : decodeSegment legend line sums segment = .ok (sums', m)) :
    m.Placed ∧ m.generated.Proper := by
  obtain ⟨fields, -, h⟩ := bind_eq_ok h
  obtain ⟨⟨added, selected⟩, -, h⟩ := bind_eq_ok h
  simp only at h
  split at h
  · cases h
  · rename_i hnonneg
    have hgenerated : (⟨line + 1, added.column⟩ : Position).Proper := by
      constructor <;> simp only <;> omega
    cases selected with
    | none =>
        obtain ⟨-, rfl⟩ := Prod.mk.inj (Except.ok.inj h)
        exact ⟨⟨nofun, nofun⟩, hgenerated⟩
    | some selection =>
        obtain ⟨label, named⟩ := selection
        obtain ⟨-, rfl⟩ := Prod.mk.inj (Except.ok.inj h)
        refine ⟨⟨fun _ => rfl, fun p hp => ?_⟩, hgenerated⟩
        obtain rfl := Option.mem_some_iff.mp hp
        constructor <;> simp only <;> omega

/-- Carried by an offset that is not before the text, it still does. -/
theorem Mapping.shift_proper {m : Mapping} {line column : Int} (h : m.generated.Proper)
    (hin : SectionOffset.InText ⟨.int line, .int column⟩) :
    (m.shift line column).generated.Proper := by
  have hline := hin.line line rfl
  have hcolumn := hin.column column rfl
  obtain ⟨hfirst, hnonneg⟩ := h
  constructor
  · simp only [shift]
    omega
  · simp only [shift]
    split <;> omega

/-! ## Lines and sections -/

section

variable {legend : Legend} {P : Mapping → Prop}

theorem forall_mem_decodeLine
    (hstep : ∀ {line sums segment sums' m},
      decodeSegment legend line sums segment = .ok (sums', m) → P m) {line : Nat} :
    ∀ {segments : List (List Char)} {sums sums' : Sums} {mappings : List Mapping},
      decodeLine .ok legend line sums segments = .ok (sums', mappings) → ∀ m ∈ mappings, P m
  | [], _, _, _, h, m, hm => by
      obtain ⟨-, rfl⟩ := Prod.mk.inj (Except.ok.inj h)
      cases hm
  | [] :: _, _, _, _, h, m, hm => by
      rw [decodeLine] at h
      exact forall_mem_decodeLine hstep h m hm
  | (c :: text) :: segments, sums, _, _, h, m, hm => by
      obtain ⟨⟨sums₁, first⟩, hfirst, h⟩ := bind_eq_ok h
      obtain ⟨placed, hplaced, h⟩ := bind_eq_ok h
      obtain rfl : first = placed := Except.ok.inj hplaced
      obtain ⟨⟨sums₂, later⟩, hlater, h⟩ := bind_eq_ok h
      obtain ⟨-, rfl⟩ := Prod.mk.inj (Except.ok.inj h)
      rcases List.mem_cons.mp hm with rfl | hm
      · exact hstep hfirst
      · exact forall_mem_decodeLine hstep hlater m hm

theorem forall_mem_decodeLines
    (hstep : ∀ {line sums segment sums' m},
      decodeSegment legend line sums segment = .ok (sums', m) → P m) :
    ∀ {lines : List (List Char)} {line : Nat} {sums : Sums} {mappings : List Mapping},
      decodeLines .ok legend line sums lines = .ok mappings → ∀ m ∈ mappings, P m
  | [], _, _, _, h, m, hm => by
      obtain rfl := Except.ok.inj h
      cases hm
  | text :: lines, line, sums, _, h, m, hm => by
      obtain ⟨⟨sums', first⟩, hfirst, h⟩ := bind_eq_ok h
      obtain ⟨later, hlater, h⟩ := bind_eq_ok h
      obtain rfl := Except.ok.inj h
      rcases List.mem_append.mp hm with hm | hm
      · exact forall_mem_decodeLine hstep hfirst m hm
      · exact forall_mem_decodeLines hstep hlater m hm

end

theorem placed_of_mem_decodeMappings {members : List (String × Json)} {mappings : List Mapping}
    (h : decodeMappings .ok members = .ok mappings) :
    ∀ m ∈ mappings, m.Placed ∧ m.generated.Proper := by
  unfold decodeMappings at h
  split at h
  · exact forall_mem_decodeLines placed_of_decodeSegment h
  · cases h

/-- What a document guarantees of a mapping: it comes from a place that a source can have, and it
leads to one that a text can have, unless a section begins before the text. -/
def Guarantees (document : Json) (m : Mapping) : Prop :=
  m.Placed ∧ ((∀ offset, HasSectionAt document offset → offset.InText) → m.generated.Proper)

/-- A section that begins at whole numbers carries its mappings to whole numbers. -/
theorem decodeSection_of_whole {item : Json} {placed : List PlacedMapping}
    (hwhole : ∀ section_ offset, item = .object section_ → sectionOffset section_ = .ok offset →
      offset.IsWhole)
    (h : decodeSection item = .ok placed) :
    ∃ (section_ : List (String × Json)) (offset : SectionOffset) (mappings : List Mapping),
      item = .object section_ ∧ sectionOffset section_ = .ok offset
      ∧ placed = mappings.map .whole
      ∧ ∀ m ∈ mappings, m.Placed ∧ (offset.InText → m.generated.Proper) := by
  unfold decodeSection at h
  split at h
  · rename_i section_
    split at h
    · cases h
    · obtain ⟨offset, hoffset, h⟩ := bind_eq_ok h
      have hoffset := mapError_eq_ok hoffset
      split at h
      · obtain ⟨line, column, rfl⟩ := hwhole section_ offset rfl hoffset
        rw [decodeMappings_shift] at h
        obtain ⟨own, hown, rfl⟩ := map_eq_ok h
        refine ⟨section_, _, own.map (·.shift line column), rfl, hoffset, ?_, fun m hm => ?_⟩
        · rw [List.map_map]
          rfl
        · obtain ⟨relative, hrelative, rfl⟩ := List.mem_map.mp hm
          obtain ⟨hplaced, hproper⟩ := placed_of_mem_decodeMappings hown relative hrelative
          exact ⟨⟨hplaced.position, hplaced.proper⟩, fun hin => Mapping.shift_proper hproper hin⟩
      · cases h
  · cases h

theorem decodeSections_of_whole {document : Json} : ∀ {items : List Json}
    {placed : List PlacedMapping},
    (∀ section_ offset, .object section_ ∈ items → sectionOffset section_ = .ok offset →
      HasSectionAt document offset) →
    (∀ offset, HasSectionAt document offset → offset.IsWhole) →
    decodeSections items = .ok placed →
      ∃ mappings : List Mapping, placed = mappings.map .whole ∧ ∀ m ∈ mappings, Guarantees document m
  | [], _, _, _, h => by
      obtain rfl := Except.ok.inj h
      exact ⟨[], rfl, nofun⟩
  | item :: items, _, hat, hwhole, h => by
      obtain ⟨own, hown, h⟩ := bind_eq_ok h
      obtain ⟨later, hlater, h⟩ := bind_eq_ok h
      obtain rfl := Except.ok.inj h
      have hoffsets : ∀ section_ offset, item = .object section_ →
          sectionOffset section_ = .ok offset → offset.IsWhole := by
        rintro section_ offset rfl hoffset
        exact hwhole offset (hat section_ offset (List.mem_cons_self ..) hoffset)
      obtain ⟨section_, offset, first, rfl, hoffset, rfl, hfirst⟩ :=
        decodeSection_of_whole hoffsets hown
      obtain ⟨rest, rfl, hrest⟩ := decodeSections_of_whole
        (fun s o hs => hat s o (List.mem_cons_of_mem _ hs)) hwhole hlater
      refine ⟨first ++ rest, List.map_append.symm, fun m hm => ?_⟩
      rcases List.mem_append.mp hm with hm | hm
      · obtain ⟨hplaced, hproper⟩ := hfirst m hm
        refine ⟨hplaced, fun hin => hproper ?_⟩
        exact hin offset (hat section_ offset (List.mem_cons_self ..) hoffset)
      · exact hrest m hm

/-! ## Documents -/

theorem decodeDocument_of_whole {document : Json} {placed : List PlacedMapping}
    (hwhole : ∀ offset, HasSectionAt document offset → offset.IsWhole)
    (h : decodeDocument document = .ok placed) :
    ∃ mappings : List Mapping, placed = mappings.map .whole
      ∧ ∀ m ∈ mappings, Guarantees document m := by
  unfold decodeDocument at h
  split at h
  · rename_i members
    split at h
    · split at h
      · obtain ⟨mappings, hmappings, rfl⟩ := map_eq_ok h
        refine ⟨mappings, rfl, fun m hm => ?_⟩
        obtain ⟨hplaced, hproper⟩ := placed_of_mem_decodeMappings hmappings m hm
        exact ⟨hplaced, fun _ => hproper⟩
      · rename_i value hsections
        split at h
        · cases h
        · rename_i items hitems
          refine decodeSections_of_whole (fun section_ offset hmem hoffset => ?_) hwhole h
          exact ⟨members, value, items, section_, rfl, hsections, hitems, hmem, hoffset⟩
    · cases h
  · cases h

/-- **No translation through an accepted document fails, unless a section begins before the text.**
The mappings of an accepted document, flat or indexed by whole numbers, come from lines and columns
that a source can have. If no section's offset is negative, they also lead to lines and columns that
a text can have, so that every offset of every text has a translation, which is no offset before the
text. -/
theorem translate_of_ofDocument {document : Json} {selected : Option Label}
    (hwhole : ∀ offset, HasSectionAt document offset → offset.IsWhole) {accepted : DocumentTable}
    (h : DocumentTable.ofDocument document selected = .ok accepted) :
    ∃ table, accepted = .whole table
      ∧ (∀ m ∈ table.mappings, m.Placed)
      ∧ ((∀ offset, HasSectionAt document offset → offset.InText) →
        (∀ m ∈ table.mappings, m.generated.Proper)
          ∧ ∀ (code : String) (minified : Option String) (offset : Int) (b : Boundary),
            ∃ result, (Translator.ofTexts code minified (some table)).translate offset b
                = .ok result
              ∧ ∀ r ∈ result, 0 ≤ r) := by
  obtain ⟨placed, hplaced, h⟩ := bind_eq_ok h
  obtain ⟨mappings, rfl, hguarantees⟩ := decodeDocument_of_whole hwhole hplaced
  simp only [DocumentTable.ofPlaced_map_whole] at h
  split at h
  · cases h
  obtain rfl := Except.ok.inj h
  refine ⟨_, rfl, fun m hm => (hguarantees m hm).1, fun hin => ?_⟩
  have hproper : ∀ m ∈ mappings, m.generated.Proper := fun m hm => (hguarantees m hm).2 hin
  refine ⟨hproper, fun code minified offset b => ?_⟩
  have hsends : ∀ p q, (PositionTable.ofMappings mappings selected).Sends p q → q.Proper := by
    rintro p q ⟨m, hm, -, -, -, -, rfl⟩
    exact hproper m hm
  obtain ⟨result, hresult, hbounds⟩ := Translator.translate_of_proper
    (t := .ofTexts code minified (some (.ofMappings mappings selected))) rfl hsends offset b
  exact ⟨result, hresult, fun r hr => (hbounds r hr).1⟩

/-- The index of one section, which begins at the offset and has one mapping at its beginning. -/
def oneSection (line column : Int) : Json :=
  .object
    [("version", .int 3),
      ("sections", .array
        [.object
          [("offset", .object [("line", .int line), ("column", .int column)]),
            ("map", .object
              [("version", .int 3), ("sources", .array [.string "0"]), ("names", .array []),
                ("mappings", .string "AAAA")])]])]

theorem offset_of_hasSectionAt_oneSection {line column : Int} {offset : SectionOffset}
    (h : HasSectionAt (oneSection line column) offset) : offset = ⟨.int line, .int column⟩ := by
  obtain ⟨members, value, items, section_, hdocument, hsections, hitems, hitem, hoffset⟩ := h
  obtain rfl := Json.object.inj hdocument
  obtain rfl := Option.some.inj hsections
  obtain rfl := Except.ok.inj hitems
  obtain rfl := Json.object.inj (List.mem_singleton.mp hitem)
  exact (Except.ok.inj hoffset).symm

theorem translate_of_ofDocument_oneSection : ∃ table,
    DocumentTable.ofDocument (oneSection 0 1) none = .ok (.whole table)
      ∧ (∀ m ∈ table.mappings, m.generated.Proper)
      ∧ ∃ result, (Translator.ofTexts "ab" (some "b") (some table)).translate 0 .left = .ok result
        ∧ ∀ r ∈ result, 0 ≤ r := by
  have hdecoded : decodeDocument (oneSection 0 1)
      = .ok ([⟨⟨1, 1⟩, some (.string "0"), some ⟨1, 0⟩, none⟩].map .whole) := rfl
  have haccepted : DocumentTable.ofDocument (oneSection 0 1) none = _ :=
    DocumentTable.ofDocument_eq hdecoded fun _ => rfl
  have hwhole : ∀ offset, HasSectionAt (oneSection 0 1) offset → offset.IsWhole :=
    fun offset hoffset => ⟨0, 1, offset_of_hasSectionAt_oneSection hoffset⟩
  have hin : ∀ offset, HasSectionAt (oneSection 0 1) offset → offset.InText := by
    intro offset hoffset
    obtain rfl := offset_of_hasSectionAt_oneSection hoffset
    exact SectionOffset.inText_of_nonneg (by decide) (by decide)
  obtain ⟨table, htable, -, hsafe⟩ := translate_of_ofDocument hwhole haccepted
  obtain ⟨hproper, htranslates⟩ := hsafe hin
  exact ⟨table, htable ▸ haccepted, hproper, htranslates "ab" (some "b") 0 .left⟩

/-- A section may begin two lines before the text, and nothing refuses it. -/
theorem not_translate_of_ofDocument :
    ¬∀ (document : Json) (selected : Option Label) (table : PositionTable),
      (∀ offset, HasSectionAt document offset → offset.IsWhole) →
      DocumentTable.ofDocument document selected = .ok (.whole table) →
        (∀ m ∈ table.mappings, m.generated.Proper)
          ∧ ∀ (code minified : String) (offset : Int) (b : Boundary),
            0 ≤ offset → offset ≤ code.length →
            ∃ result, (Translator.ofTexts code (some minified) (some table)).translate offset b
              = .ok result := by
  intro hsafe
  let outside : Mapping := ⟨⟨-1, 0⟩, some (.string "0"), some ⟨1, 0⟩, none⟩
  have hdecoded : decodeDocument (oneSection (-2) 0) = .ok ([outside].map .whole) := rfl
  have htable : DocumentTable.ofDocument (oneSection (-2) 0) none = _ :=
    DocumentTable.ofDocument_eq hdecoded fun _ => rfl
  have hwhole : ∀ offset, HasSectionAt (oneSection (-2) 0) offset → offset.IsWhole :=
    fun offset hoffset => ⟨-2, 0, offset_of_hasSectionAt_oneSection hoffset⟩
  have hfails : (Translator.ofTexts "a" (some "a") (some (.ofMappings [outside] none))).translate 0
      .left = .error (.noSuchLine (-1)) := by decide +kernel
  obtain ⟨-, htranslates⟩ := hsafe _ none _ hwhole htable
  obtain ⟨result, hresult⟩ := htranslates "a" "a" 0 .left (by decide) (by decide)
  rw [hfails] at hresult
  cases hresult

end BundleSize
