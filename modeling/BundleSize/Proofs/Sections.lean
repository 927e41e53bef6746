import BundleSize.Proofs.RoundTrip
import BundleSize.SourceMap.Sections
import Mathlib.Data.List.Basic
import Mathlib.Data.List.Forall2

/-!
# Sections of a document

A section's offset has no say in how its numbers are read: reading with an
offset of whole numbers is reading without one and carrying every mapping
(`decodeMappings_shift`).
So a section in which the mappings are written relative to its beginning gives
back the mappings of the whole text (`decodeSection_of_written`), and an index
gives those of its sections one after the other, which is the list that was cut
(`decodeDocument_of_writesSections`). Neither mid-line beginnings nor empty
sections need a case of their own.

That there is such an index needs the hypotheses on the mappings. A mapping
behind the section's beginning is relative to it still inside a text
(`Mapping.IsListed.relative`), and mappings in the order of their lines can be
written as lines (`segmentMappings_segmentLines`).
-/

namespace BundleSize

/-! ## Reading with an offset -/

theorem Mapping.shift_relative (line column : Int) (m : Mapping) :
    (m.relative line column).shift line column = m := by
  have hfirst : m.generated.line - line = 1 ↔ m.generated.line = line + 1 := by omega
  simp only [shift, relative, hfirst, Int.sub_add_cancel]

/-- An offset of whole numbers carries every mapping. -/
theorem SectionOffset.place_int (line column : Int) (m : Mapping) :
    (⟨.int line, .int column⟩ : SectionOffset).place m = .ok (.whole (m.shift line column)) := by
  by_cases hfirst : m.generated.line = 1 <;>
    simp [SectionOffset.place, hfirst, addOffset, PlacedMapping.ofCoordinates, Mapping.shift, bind,
      Except.bind, pure, Except.pure]

section Placed

variable {place : Mapping → Except ShapeFault α} {f : Mapping → α}

/-- Where every mapping has a place, to put the mappings in their places as they come is to read all
of them first. -/
theorem decodeLine_map (hplace : ∀ m, place m = .ok (f m)) (legend : Legend) (n : Nat) :
    ∀ (segments : List (List Char)) (sums : Sums),
      decodeLine place legend n sums segments
        = (decodeLine .ok legend n sums segments).map fun r => (r.1, r.2.map f)
  | [], _ => rfl
  | [] :: segments, sums => decodeLine_map hplace legend n segments sums
  | (c :: text) :: segments, sums => by
      simp only [decodeLine]
      cases decodeSegment legend n sums (c :: text) with
      | error e => rfl
      | ok read =>
          obtain ⟨sums', m⟩ := read
          simp only [bind, Except.bind, hplace, mapError_ok, decodeLine_map hplace legend n segments]
          cases decodeLine .ok legend n sums' segments <;> rfl

theorem decodeLines_map (hplace : ∀ m, place m = .ok (f m)) (legend : Legend) :
    ∀ (lines : List (List Char)) (n : Nat) (sums : Sums),
      decodeLines place legend n sums lines
        = (decodeLines .ok legend n sums lines).map fun ms => ms.map f
  | [], _, _ => rfl
  | text :: lines, n, sums => by
      simp only [decodeLines, decodeLine_map hplace]
      cases decodeLine .ok legend n { sums with column := 0 } (Text.splitAt ',' text) with
      | error e => rfl
      | ok read =>
          obtain ⟨sums', ms⟩ := read
          simp only [Except.map, bind, Except.bind, decodeLines_map hplace legend lines]
          cases decodeLines .ok legend (n + 1) sums' lines with
          | error e => rfl
          | ok later => simp only [pure, Except.pure, List.map_append]

theorem decodeMappings_map (hplace : ∀ m, place m = .ok (f m)) (members : List (String × Json)) :
    decodeMappings place members = (decodeMappings .ok members).map fun ms => ms.map f := by
  unfold decodeMappings
  split
  · exact decodeLines_map hplace ..
  · rfl

end Placed

/-- To read a document with an offset is to read it without one and to carry its mappings. -/
theorem decodeMappings_shift (members : List (String × Json)) (line column : Int) :
    decodeMappings (SectionOffset.place ⟨.int line, .int column⟩) members
      = (decodeMappings .ok members).map fun ms =>
          ms.map fun m => .whole (m.shift line column) :=
  decodeMappings_map (SectionOffset.place_int line column) members

/-! ## Reading an index -/

/-- A flat document with these sources and names whose lines stand for the mappings. -/
def Lists (members : List (String × Json)) (sources names : List String)
    (mappings : List Mapping) : Prop :=
  ∃ lines, Writes members sources names lines
    ∧ (∀ line ∈ lines, ∀ s ∈ line, s.IsListed sources.length names.length)
    ∧ segmentMappings sources names 0 lines = mappings

namespace Lists

variable {members : List (String × Json)} {sources names : List String} {mappings : List Mapping}

theorem decodeMappings (h : Lists members sources names mappings) :
    decodeMappings .ok members = .ok mappings := by
  obtain ⟨lines, hwrites, hlisted, rfl⟩ := h
  exact decodeMappings_of_writes hwrites hlisted

theorem decodeDocument (h : Lists members sources names mappings) :
    decodeDocument (.object members) = .ok (mappings.map .whole) := by
  obtain ⟨lines, hwrites, hlisted, rfl⟩ := h
  exact decodeDocument_of_writes hwrites hlisted

end Lists

/-- The item of an index in which the section is written: its offset, and a document of the
relative mappings. -/
def MapSection.WrittenIn (s : MapSection) (item : Json) : Prop :=
  ∃ members document, item = .object members
    ∧ sectionOffset members = .ok ⟨.int s.line, .int s.column⟩
    ∧ Json.member? "map" members = some (.object document)
    ∧ Lists document s.sources s.names s.relativeMappings

/-- The members of an indexed document in which the sections are written, in their order. -/
structure WritesSections (members : List (String × Json)) (sections : List MapSection) : Prop where
  version : Json.member? "version" members = some (.int 3)
  sections : ∃ items, Json.member? "sections" members = some (.array items)
    ∧ List.Forall₂ (fun item s => s.WrittenIn item) items sections

theorem decodeSection_of_written {s : MapSection} {item : Json} (h : s.WrittenIn item) :
    decodeSection item = .ok (s.mappings.map .whole) := by
  obtain ⟨members, document, rfl, hoffset, hmap, hlists⟩ := h
  have hback : (s.relativeMappings.map fun m => PlacedMapping.whole (m.shift s.line s.column))
      = s.mappings.map .whole := by
    rw [MapSection.relativeMappings, List.map_map]
    refine List.map_congr_left fun m _ => ?_
    rw [Function.comp_apply, Mapping.shift_relative]
  simp only [decodeSection, hmap, hoffset, mapError_ok, bind, Except.bind]
  rw [decodeMappings_shift, hlists.decodeMappings, Except.map, hback]

theorem decodeSections_of_written {items : List Json} {sections : List MapSection}
    (h : List.Forall₂ (fun item s => MapSection.WrittenIn s item) items sections) :
    decodeSections items = .ok ((sections.flatMap (·.mappings)).map .whole) := by
  induction h with
  | nil => rfl
  | cons hwritten _ ih =>
      rw [decodeSections, decodeSection_of_written hwritten, ih, List.flatMap_cons, List.map_append]
      rfl

/-- An index gives the mappings of its sections, one section after the other. -/
theorem decodeDocument_of_writesSections {members : List (String × Json)}
    {sections : List MapSection} (h : WritesSections members sections) :
    decodeDocument (.object members) = .ok ((sections.flatMap (·.mappings)).map .whole) := by
  obtain ⟨items, hitems, hwritten⟩ := h.sections
  simp only [decodeDocument, h.version, hitems, Option.any_some, Json.isNumber, sectionList]
  exact decodeSections_of_written hwritten

/-! ## Writing mappings -/

/-- The mappings are in the order of their generated lines. -/
def LineOrdered (mappings : List Mapping) : Prop :=
  mappings.Pairwise fun m n => m.generated.line ≤ n.generated.line

section Writing

variable {sources names : List String}

theorem getElem?_labelIndex {labels : List String} {label : String} (h : label ∈ labels) :
    labels[labelIndex labels (.string label)]? = some label :=
  List.getElem?_idxOf h

theorem labelIndex_lt {labels : List String} {label : String} (h : label ∈ labels) :
    labelIndex labels (.string label) < labels.length :=
  List.idxOf_lt_length_iff.mpr h

theorem Position.Proper.eq_generated {p : Position} (h : p.Proper) {line : Nat}
    (hline : p.line = line + 1) : (⟨line + 1, p.column.toNat⟩ : Position) = p := by
  rw [← hline, Int.toNat_of_nonneg h.2]

theorem Position.Proper.eq_source {p : Position} (h : p.Proper) :
    (⟨(p.line - 1).toNat + 1, p.column.toNat⟩ : Position) = p := by
  rw [Int.toNat_of_nonneg h.2, Int.toNat_of_nonneg (by have := h.1; omega), Int.sub_add_cancel]

/-- A mapping is what its segment stands for on its line. -/
theorem Segment.mapping_ofMapping {m : Mapping} (h : m.IsListed sources names) {line : Nat}
    (hline : m.generated.line = line + 1) :
    (ofMapping sources names m).mapping sources names line = m := by
  cases h with
  | bare hp =>
      simp only [ofMapping, mapping, Option.bind_eq_bind, Option.bind_none]
      rw [hp.eq_generated hline]
  | sourced hp hq hsource =>
      simp only [ofMapping, mapping, Option.bind_eq_bind, Option.bind_some, Option.map_none,
        Option.bind_none, pure, getElem?_labelIndex hsource, Option.map_some]
      rw [hp.eq_generated hline, hq.eq_source]
  | named hp hq hsource hname =>
      simp only [ofMapping, mapping, Option.bind_eq_bind, Option.bind_some, Option.map_some, pure,
        getElem?_labelIndex hsource, getElem?_labelIndex hname]
      rw [hp.eq_generated hline, hq.eq_source]

theorem Segment.ofMapping_isListed {m : Mapping} (h : m.IsListed sources names) :
    (ofMapping sources names m).IsListed sources.length names.length := by
  intro r hr
  cases h with
  | bare hp => cases hr
  | sourced hp hq hsource =>
      obtain rfl := Option.some.inj hr
      exact ⟨labelIndex_lt hsource, fun name hname => by cases hname⟩
  | named hp hq hsource hname =>
      obtain rfl := Option.some.inj hr
      refine ⟨labelIndex_lt hsource, fun name hmem => ?_⟩
      obtain rfl := Option.some.inj hmem
      exact labelIndex_lt hname

theorem lt_of_mem_dropWhile {line : Int} : ∀ {mappings : List Mapping}, LineOrdered mappings →
    (∀ m ∈ mappings, line ≤ m.generated.line) →
      ∀ m ∈ mappings.dropWhile (fun m => decide (m.generated.line = line)),
        line < m.generated.line
  | [], _, _, _, hm => absurd hm List.not_mem_nil
  | n :: mappings, hordered, hfrom, m, hm => by
      obtain ⟨hfirst, hrest⟩ := List.pairwise_cons.mp hordered
      rw [List.dropWhile_cons] at hm
      split at hm
      · exact lt_of_mem_dropWhile hrest (fun k hk => hfrom k (List.mem_cons_of_mem _ hk)) m hm
      · rename_i hpast
        have hne : n.generated.line ≠ line := by simpa using hpast
        have hle := hfrom n (List.mem_cons_self ..)
        rcases List.mem_cons.mp hm with rfl | hm
        · omega
        · have := hfirst m hm
          omega

/-- Mappings in the order of their lines are what their lines of segments stand for. Each line
takes the front of what is left. -/
theorem segmentMappings_segmentLines : ∀ (count : Nat) {line : Nat} {mappings : List Mapping},
    LineOrdered mappings → (∀ m ∈ mappings, m.IsListed sources names) →
      (∀ m ∈ mappings, line + 1 ≤ m.generated.line ∧ m.generated.line ≤ line + count) →
        segmentMappings sources names line (segmentLines sources names line count mappings)
          = mappings
  | 0, line, [], _, _, _ => rfl
  | 0, line, m :: mappings, _, _, hlines => by
      have := hlines m (List.mem_cons_self ..)
      omega
  | count + 1, line, mappings, hordered, hlisted, hlines => by
      let here := fun m : Mapping => decide (m.generated.line = line + 1)
      have hfront : ((mappings.takeWhile here).map (Segment.ofMapping sources names)).map
          (Segment.mapping sources names line) = mappings.takeWhile here := by
        rw [List.map_map]
        refine (List.map_congr_left fun m hm => ?_).trans (List.map_id _)
        have hline : m.generated.line = line + 1 := by
          simpa [here] using List.all_eq_true.mp List.all_takeWhile m hm
        exact Segment.mapping_ofMapping (hlisted m ((List.takeWhile_sublist here).subset hm)) hline
      have hleft : (mappings.dropWhile here).Sublist mappings := List.dropWhile_sublist here
      have hlater : segmentMappings sources names (line + 1)
          (segmentLines sources names (line + 1) count (mappings.dropWhile here))
            = mappings.dropWhile here := by
        refine segmentMappings_segmentLines count (hordered.sublist hleft)
          (fun m hm => hlisted m (hleft.subset hm)) fun m hm => ?_
        have hpast := lt_of_mem_dropWhile hordered (fun k hk => (hlines k hk).1) m hm
        have hlast := (hlines m (hleft.subset hm)).2
        push_cast at hlast ⊢
        omega
      rw [segmentLines, segmentMappings, hfront, hlater, List.takeWhile_append_dropWhile]

theorem segmentLines_isListed : ∀ (count : Nat) {line : Nat} {mappings : List Mapping},
    (∀ m ∈ mappings, m.IsListed sources names) →
      ∀ segments ∈ segmentLines sources names line count mappings, ∀ s ∈ segments,
        s.IsListed sources.length names.length
  | 0, _, _, _, _, h => absurd h List.not_mem_nil
  | count + 1, line, mappings, hlisted, segments, h => by
      rcases List.mem_cons.mp h with rfl | h
      · intro s hs
        obtain ⟨m, hm, rfl⟩ := List.mem_map.mp hs
        exact Segment.ofMapping_isListed (hlisted m ((List.takeWhile_sublist _).subset hm))
      · exact segmentLines_isListed count
          (fun m hm => hlisted m ((List.dropWhile_sublist _).subset hm)) segments h

theorem le_lineCount : ∀ {mappings : List Mapping} {m : Mapping}, m ∈ mappings →
    m.generated.line ≤ lineCount mappings
  | n :: mappings, m, hm => by
      have hstep : lineCount (n :: mappings)
          = max n.generated.line.toNat (lineCount mappings) := rfl
      rcases List.mem_cons.mp hm with rfl | hm
      · omega
      · have := le_lineCount hm
        omega

theorem Mapping.IsListed.proper {m : Mapping} (h : m.IsListed sources names) :
    m.generated.Proper := by
  cases h <;> assumption

theorem Mapping.IsListed.source_text {m : Mapping} (h : m.IsListed sources names) {source : Label}
    (hsource : m.source = some source) : ∃ name, source = .string name := by
  cases h with
  | bare _ => cases hsource
  | sourced _ _ _ => exact ⟨_, (Option.some.inj hsource).symm⟩
  | named _ _ _ _ => exact ⟨_, (Option.some.inj hsource).symm⟩

/-- Any mappings that can be listed have a document, if they are in the order of their lines. -/
theorem encodeMap_lists {mappings : List Mapping} (hordered : LineOrdered mappings)
    (hlisted : ∀ m ∈ mappings, m.IsListed sources names) :
    ∃ members, encodeMap sources names mappings = .object members
      ∧ Lists members sources names mappings := by
  obtain ⟨members, hdocument, hwrites⟩ := encodeDocument_writes sources names
    (segmentLines sources names 0 (lineCount mappings) mappings)
  refine ⟨members, hdocument, _, hwrites, segmentLines_isListed _ hlisted,
    segmentMappings_segmentLines _ hordered hlisted fun m hm => ?_⟩
  have hfirst := (hlisted m hm).proper.1
  have hlast := le_lineCount hm
  omega

end Writing

/-! ## Writing an index -/

theorem Mapping.IsListed.moved {sources names : List String} {m : Mapping}
    (h : m.IsListed sources names) {p : Position} (hp : p.Proper) :
    IsListed sources names { m with generated := p } := by
  cases h with
  | bare _ => exact .bare hp
  | sourced _ hq hsource => exact .sourced hp hq hsource
  | named _ hq hsource hname => exact .named hp hq hsource hname

/-- What stands behind the beginning of a section is inside a text also as seen from there. -/
theorem Mapping.IsListed.relative {sources names : List String} {m : Mapping} {line column : Nat}
    (h : m.IsListed sources names)
    (hafter : (⟨line + 1, column⟩ : Position).upTo m.generated = true) :
    (m.relative line column).IsListed sources names := by
  refine h.moved ?_
  have hcolumn := h.proper.2
  rw [Position.upTo_iff] at hafter
  simp only at hafter
  by_cases hfirst : m.generated.line = line + 1
  · simp only [hfirst, if_true]
    constructor <;> simp only <;> omega
  · simp only [hfirst, if_false]
    constructor <;> simp only <;> omega

namespace MapSection

theorem toJson_written {s : MapSection} (hwritable : s.IsWritable)
    (hordered : LineOrdered s.mappings) : s.WrittenIn s.toJson := by
  have hrelative : LineOrdered s.relativeMappings := by
    refine List.pairwise_map.mpr (hordered.imp fun {m n} hle => ?_)
    simp only [Mapping.relative]
    omega
  have hlisted : ∀ m ∈ s.relativeMappings, m.IsListed s.sources s.names := by
    intro m hm
    obtain ⟨n, hn, rfl⟩ := List.mem_map.mp hm
    exact (hwritable n hn).1.relative (hwritable n hn).2
  obtain ⟨document, hdocument, hlists⟩ := encodeMap_lists hrelative hlisted
  exact ⟨_, document, rfl, rfl, congrArg some hdocument, hlists⟩

end MapSection

theorem encodeSections_writes {sections : List MapSection}
    (hwritable : ∀ s ∈ sections, s.IsWritable)
    (hordered : LineOrdered (sections.flatMap (·.mappings))) :
    ∃ members, encodeSections sections = .object members ∧ WritesSections members sections := by
  have hsections := (List.pairwise_flatMap.mp hordered).1
  refine ⟨_, rfl, rfl, _, rfl, ?_⟩
  rw [List.forall₂_map_left_iff, List.forall₂_same]
  exact fun s hs => MapSection.toJson_written (hwritable s hs) (hsections s hs)

/-! ## Cutting mappings into sections -/

/-- **An index is read like a flat document.** Let mappings in the order of their generated lines be
cut into sections, each with sources and names of its own and with a beginning that none of its
mappings stands before. The sections have an index and all mappings together a flat document, and
any two such documents are read as these mappings and have one table, for every source. -/
theorem ofDocument_eq_of_sections {mappings : List Mapping} {sections : List MapSection}
    {sources names : List String} (hlisted : ∀ m ∈ mappings, m.IsListed sources names)
    (hordered : LineOrdered mappings) (hcut : sections.flatMap (·.mappings) = mappings)
    (hwritable : ∀ s ∈ sections, s.IsWritable) :
    (∃ index, encodeSections sections = .object index ∧ WritesSections index sections)
      ∧ (∃ flat, encodeMap sources names mappings = .object flat
        ∧ Lists flat sources names mappings)
      ∧ ∀ index flat, WritesSections index sections → Lists flat sources names mappings →
        decodeDocument (.object index) = .ok (mappings.map .whole)
          ∧ decodeDocument (.object flat) = .ok (mappings.map .whole)
          ∧ ∀ selected, ∃ table, table = PositionTable.ofMappings mappings selected
            ∧ PositionTable.ofDocument (.object index) selected = .ok table
            ∧ PositionTable.ofDocument (.object flat) selected = .ok table := by
  subst hcut
  refine ⟨encodeSections_writes hwritable hordered, encodeMap_lists hordered hlisted, ?_⟩
  intro index flat hindex hflat
  have hindexed := decodeDocument_of_writesSections hindex
  have hflattened := hflat.decodeDocument
  have hshown := isWritable_source_of_texts fun m hm _ hsource => (hlisted m hm).source_text hsource
  exact ⟨hindexed, hflattened, fun selected => ⟨_, rfl,
    PositionTable.ofDocument_eq hindexed fun _ => hshown,
    PositionTable.ofDocument_eq hflattened fun _ => hshown⟩⟩

/-- A section that begins inside a line, one without a mapping, and one that begins two lines before
its first mapping. -/
def sampleSections : List MapSection :=
  [⟨0, 0, ["a.js"], ["x"],
      [⟨⟨1, 0⟩, some (.string "a.js"), some ⟨1, 0⟩, none⟩,
        ⟨⟨1, 3⟩, some (.string "a.js"), some ⟨1, 4⟩, some (.string "x")⟩]⟩,
    ⟨0, 5, ["b.js"], [],
      [⟨⟨1, 7⟩, some (.string "b.js"), some ⟨2, 0⟩, none⟩, ⟨⟨3, 2⟩, none, none, none⟩]⟩,
    ⟨2, 9, [], [], []⟩,
    ⟨3, 1, ["b.js", "a.js"], [], [⟨⟨6, 0⟩, some (.string "a.js"), some ⟨9, 9⟩, none⟩]⟩]

example : (sampleSections.map fun s => encodeMappings
    (segmentLines s.sources s.names 0 (lineCount s.relativeMappings) s.relativeMappings))
      = ["AAAA,GAAIA", "EACA;;E", "", ";;ACQS"] := by decide +kernel

theorem ofDocument_eq_of_sections_sampleSections : ∃ index flat,
    encodeSections sampleSections = .object index
      ∧ encodeMap ["a.js", "b.js"] ["x"] (sampleSections.flatMap (·.mappings)) = .object flat
      ∧ decodeDocument (.object index) = .ok ((sampleSections.flatMap (·.mappings)).map .whole)
      ∧ decodeDocument (.object flat) = .ok ((sampleSections.flatMap (·.mappings)).map .whole) := by
  have hlisted : ∀ m ∈ sampleSections.flatMap (·.mappings),
      m.IsListed ["a.js", "b.js"] ["x"] := by
    simp only [sampleSections, List.flatMap_cons, List.flatMap_nil, List.cons_append,
      List.nil_append, List.append_nil, List.forall_mem_cons]
    exact ⟨.sourced (by decide) (by decide) (by decide),
      .named (by decide) (by decide) (by decide) (by decide),
      .sourced (by decide) (by decide) (by decide), .bare (by decide),
      .sourced (by decide) (by decide) (by decide), List.forall_mem_nil _⟩
  have hordered : LineOrdered (sampleSections.flatMap (·.mappings)) := by
    unfold LineOrdered
    decide
  have hwritable : ∀ s ∈ sampleSections, s.IsWritable := by
    simp only [sampleSections, MapSection.IsWritable, List.forall_mem_cons]
    exact ⟨⟨⟨.sourced (by decide) (by decide) (by decide), by decide⟩,
        ⟨.named (by decide) (by decide) (by decide) (by decide), by decide⟩,
        List.forall_mem_nil _⟩,
      ⟨⟨.sourced (by decide) (by decide) (by decide), by decide⟩, ⟨.bare (by decide), by decide⟩,
        List.forall_mem_nil _⟩,
      List.forall_mem_nil _,
      ⟨⟨.sourced (by decide) (by decide) (by decide), by decide⟩, List.forall_mem_nil _⟩,
      List.forall_mem_nil _⟩
  obtain ⟨⟨index, hindex, hsections⟩, ⟨flat, hflat, hmappings⟩, hread⟩ :=
    ofDocument_eq_of_sections hlisted hordered rfl hwritable
  obtain ⟨hindexed, hflattened, -⟩ := hread index flat hsections hmappings
  exact ⟨index, flat, hindex, hflat, hindexed, hflattened⟩

end BundleSize
