import BundleSize.Proofs.Unmoved
import BundleSize.Proofs.Walk
import BundleSize.Text.Word
import Mathlib.Data.Nat.Find

/-!
# A table of tokens

The identity table has a mapping for the beginning of each token. It is made line by
line; read as one walk through the text, it lists the positions where tokens of the whole
text begin (`PositionTable.sends_identity_iff`), since a line feed ends every run of word
characters.

Positions are in the order of their offsets, so a lookup finds the first token from an
offset on, and the way back leads to where that token begins. An exclusive end looks up
the character before it: a token that begins right there is moved past by one
character, and any other token from there on begins at the end itself or behind it.
So a range whose ends keep to the beginnings of tokens is not changed by such a table.
-/

namespace BundleSize

/-! ## Where tokens begin -/

namespace Text

/-- A token begins with the character `c`, given the characters before it, which follow on
a word character or on something else. -/
def BeginsToken (inWord : Bool) (before : List Char) (c : Char) : Prop :=
  if isWord c then (before.getLast?.map isWord).getD inWord = false else isBlank c = false

theorem beginsToken_cons {inWord : Bool} {before : List Char} {c d : Char} :
    BeginsToken inWord (d :: before) c ↔ BeginsToken (isWord d) before c := by
  rw [BeginsToken, BeginsToken, List.getLast?_cons]
  cases before.getLast? <;> rfl

theorem exists_split_cons {c : Char} {rest : List Char} {P : List Char → Char → Prop} :
    (∃ before d behind, c :: rest = before ++ d :: behind ∧ P before d)
      ↔ P [] c ∨ ∃ before d behind, rest = before ++ d :: behind ∧ P (c :: before) d := by
  constructor
  · rintro ⟨before, d, behind, heq, h⟩
    cases before with
    | nil =>
        obtain ⟨rfl, rfl⟩ := List.cons.inj heq
        exact Or.inl h
    | cons e before =>
        obtain ⟨rfl, rfl⟩ := List.cons.inj heq
        exact Or.inr ⟨before, d, behind, rfl, h⟩
  · rintro (h | ⟨before, d, behind, rfl, h⟩)
    · exact ⟨[], c, rest, rfl, h⟩
    · exact ⟨c :: before, d, behind, rfl, h⟩

/-- Whether a token begins with a character is decided by it and the one before it. -/
theorem startsToken_iff {text : List Char} {offset : Nat} :
    StartsToken text offset ↔ ∃ before c behind, text = before ++ c :: behind
      ∧ before.length = offset ∧ BeginsToken false before c := by
  constructor
  · rintro ⟨before, token, behind, rfl, rfl, htoken⟩
    cases htoken with
    | mark hword hblank =>
        exact ⟨before, _, behind, rfl, rfl, by simpa [BeginsToken, hword] using hblank⟩
    | word hne hword hbefore _ =>
        obtain ⟨c, token, rfl⟩ := List.exists_cons_of_ne_nil hne
        refine ⟨before, c, token ++ behind, rfl, rfl, ?_⟩
        rw [BeginsToken, if_pos (hword c (List.mem_cons_self ..))]
        cases hlast : before.getLast? with
        | none => rfl
        | some d => exact hbefore d hlast
  · rintro ⟨before, c, behind, rfl, rfl, hbegins⟩
    by_cases hc : isWord c = true
    · -- the token goes on as far as there are word characters
      rw [BeginsToken, if_pos hc] at hbegins
      have hrun : c :: behind
          = (c :: behind.takeWhile isWord) ++ behind.dropWhile isWord := by
        rw [List.cons_append, List.takeWhile_append_dropWhile]
      refine ⟨before, c :: behind.takeWhile isWord, behind.dropWhile isWord, by rw [hrun], rfl,
        .word (List.cons_ne_nil _ _) ?_ ?_ ?_⟩
      · intro d hd
        rcases List.mem_cons.mp hd with rfl | hd
        · exact hc
        · exact List.mem_takeWhile_imp hd
      · intro d hd
        rw [Option.mem_def.mp hd] at hbegins
        exact hbegins
      · intro d hd
        have hstop := List.head?_dropWhile_not isWord behind
        rw [Option.mem_def.mp hd] at hstop
        exact hstop
    · rw [BeginsToken, if_neg hc] at hbegins
      exact ⟨before, [c], behind, rfl, rfl, .mark (by simpa using hc) hbegins⟩

theorem StartsToken.lt_length {text : List Char} {offset : Nat} (h : StartsToken text offset) :
    offset < text.length := by
  obtain ⟨before, c, behind, rfl, rfl, -⟩ := startsToken_iff.mp h
  simp

theorem exists_nextToken (text : List Char) (offset : Nat) :
    ∃ next, NextToken text offset next := by
  classical
  by_cases h : ∃ start, StartsToken text start ∧ offset ≤ start
  · obtain ⟨hstarts, hle⟩ := Nat.find_spec h
    exact ⟨some (Nat.find h), hstarts, hle, fun other hother hfrom =>
      Nat.find_min' h ⟨hother, hfrom⟩⟩
  · exact ⟨none, fun other hother => Nat.lt_of_not_le fun hle => h ⟨other, hother, hle⟩⟩

/-- Where no token begins, the next one is the next one from the following offset on. -/
theorem NextToken.of_succ {text : List Char} {offset : Nat} {next : Option Nat}
    (h : NextToken text (offset + 1) next) (hno : ¬StartsToken text offset) :
    NextToken text offset next := by
  have hbehind : ∀ other, StartsToken text other → offset ≤ other → offset + 1 ≤ other := by
    intro other hother hle
    rcases Nat.lt_or_eq_of_le hle with hlt | rfl
    · exact hlt
    · exact absurd hother hno
  cases next with
  | some start =>
      obtain ⟨hstarts, hle, hleast⟩ := h
      exact ⟨hstarts, by omega, fun other hother hfrom =>
        hleast other hother (hbehind other hother hfrom)⟩
  | none =>
      refine fun other hother => Nat.lt_of_not_le fun hle => ?_
      exact absurd (h other hother) (Nat.not_lt.mpr (hbehind other hother hle))

theorem StartsToken.nextToken {text : List Char} {offset : Nat} (h : StartsToken text offset) :
    NextToken text offset (some offset) :=
  ⟨h, Nat.le_refl _, fun _ _ hle => hle⟩

end Text

/-! ## The mappings of the table -/

namespace PositionTable

/-- The mapping that sends a position to itself. -/
def mappingAt (source : Label) (p : Position) : Mapping := ⟨p, labelOf source, some p, none⟩

/-- The mappings that are made from inside a line on: of what is left of it, and of the lines behind
it. -/
def mappingsFrom (source : Label) (line column : Nat) (inWord : Bool) :
    List (List Char) → List Mapping
  | [] => []
  | piece :: pieces =>
    (tokenStarts column inWord piece).map (fun (column : Nat) => mappingAt source ⟨line, column⟩)
      ++ identityMappings source (line + 1) pieces

theorem identityMappings_eq (source : Label) (line : Nat) (pieces : List (List Char)) :
    identityMappings source line pieces = mappingsFrom source line 0 false pieces := by
  cases pieces <;> rfl

section

variable {source : Label} {line column : Nat} {inWord : Bool} {m : Mapping}

/-- A line feed begins no token and leads to the next line. -/
theorem mappingsFrom_lineFeed (rest : List Char) :
    mappingsFrom source line column inWord (Text.splitAt '\n' ('\n' :: rest))
      = mappingsFrom source (line + 1) 0 false (Text.splitAt '\n' rest) := by
  rw [Text.splitAt]
  cases hpieces : Text.splitAt '\n' rest with
  | nil => exact absurd hpieces (Text.splitAt_ne_nil _ _)
  | cons piece pieces =>
      simp only [if_true, mappingsFrom, tokenStarts, List.map_nil, List.nil_append]
      rfl

/-- Any other character leads to the next column, and to a mapping if it begins a token. -/
theorem mem_mappingsFrom_cons {c : Char} (hc : c ≠ '\n') (rest : List Char) :
    m ∈ mappingsFrom source line column inWord (Text.splitAt '\n' (c :: rest))
      ↔ (Text.BeginsToken inWord [] c ∧ m = mappingAt source ⟨line, column⟩)
        ∨ m ∈ mappingsFrom source line (column + 1) (Text.isWord c) (Text.splitAt '\n' rest) := by
  rw [Text.splitAt]
  cases hpieces : Text.splitAt '\n' rest with
  | nil => exact absurd hpieces (Text.splitAt_ne_nil _ _)
  | cons piece pieces =>
      simp only [hc, if_false, mappingsFrom, tokenStarts, Text.BeginsToken]
      cases hword : Text.isWord c <;> cases inWord <;> cases hblank : Text.isBlank c <;>
        simp

/-- Going through a text, there is a mapping for each character that begins a token. -/
theorem mem_mappingsFrom_splitAt : ∀ {s : List Char} {line column : Nat} {inWord : Bool},
    m ∈ mappingsFrom source line column inWord (Text.splitAt '\n' s)
      ↔ ∃ before c behind, s = before ++ c :: behind ∧ Text.BeginsToken inWord before c
        ∧ m = mappingAt source (before.foldl (Position.past fun _ => 1) ⟨line, column⟩)
  | [], line, column, inWord => by
      simp [Text.splitAt, mappingsFrom, tokenStarts, identityMappings]
  | c :: rest, line, column, inWord => by
      rw [Text.exists_split_cons (P := fun before d => Text.BeginsToken inWord before d
        ∧ m = mappingAt source (before.foldl (Position.past fun _ => 1) ⟨line, column⟩))]
      simp only [Text.beginsToken_cons, List.foldl_cons, List.foldl_nil]
      by_cases hc : c = '\n'
      · subst hc
        have hno : ¬Text.BeginsToken inWord [] '\n' := by
          rw [Text.BeginsToken, if_neg (by decide +kernel)]
          decide +kernel
        rw [mappingsFrom_lineFeed, mem_mappingsFrom_splitAt]
        simp only [hno, false_and, false_or, Position.past, if_true]
        rfl
      · rw [mem_mappingsFrom_cons hc, mem_mappingsFrom_splitAt]
        simp only [Position.past, if_neg hc]
        rfl

end

section

variable {x : LineIndex} {source : String}

/-- The identity table sends the places where tokens of the text begin to themselves, and no
others. -/
theorem sends_identity_iff {p q : Position} :
    (identity x.text (.string source)).Sends p q ↔ p = q ∧ ∃ offset : Nat,
      Text.StartsToken x.text.toList offset ∧ x.position offset = p := by
  constructor
  · rintro ⟨m, hm, label, -, -, hposition, hgenerated⟩
    have hm : m ∈ mappingsFrom (.string source) 1 0 false (Text.splitAt '\n' x.text.toList) :=
      identityMappings_eq .. ▸ hm
    obtain ⟨before, c, behind, htext, hbegins, rfl⟩ := mem_mappingsFrom_splitAt.mp hm
    obtain rfl := Option.some.inj hposition
    exact ⟨hgenerated, before.length,
      Text.startsToken_iff.mpr ⟨before, c, behind, htext, rfl, hbegins⟩,
      LineIndex.position_length htext⟩
  · rintro ⟨rfl, offset, hstarts, rfl⟩
    obtain ⟨before, c, behind, htext, rfl, hbegins⟩ := Text.startsToken_iff.mp hstarts
    rw [LineIndex.position_length htext]
    refine ⟨mappingAt (.string source) (Position.behind (fun _ => 1) before), ?_,
      .string source, rfl, rfl, rfl, rfl⟩
    show _ ∈ identityMappings _ _ _
    rw [identityMappings_eq, mem_mappingsFrom_splitAt]
    exact ⟨before, c, behind, htext, hbegins, rfl⟩

/-- The lookup of an offset finds the next token from there on. -/
theorem find?_identity_of_next (source : String) {offset start : Nat}
    (h : Text.NextToken x.text.toList offset (some start)) :
    ∃ m, (identity x.text (.string source)).find? (x.position offset) .leastUpper = some m
      ∧ m.sourcePosition = some (x.position start) ∧ m.generated = x.position start := by
  obtain ⟨hstarts, hle, hleast⟩ := h
  refine find?_of_first (fun q g hsends => (sends_identity_iff.mp hsends).1)
    (sends_identity_iff.mpr ⟨rfl, start, hstarts, rfl⟩)
    (LineIndex.position_upTo_natCast_iff.mpr hle) ?_
  intro q hsends hfrom
  obtain ⟨-, other, hother, rfl⟩ := sends_identity_iff.mp hsends
  exact LineIndex.position_upTo_natCast_iff.mpr
    (hleast other hother (LineIndex.position_upTo_natCast_iff.mp hfrom))

theorem find?_identity_of_no_next (source : String) {offset : Nat}
    (h : Text.NextToken x.text.toList offset none) :
    (identity x.text (.string source)).find? (x.position offset) .leastUpper = none := by
  refine find?_eq_none_of_before fun q g hsends => ?_
  obtain ⟨-, other, hother, rfl⟩ := sends_identity_iff.mp hsends
  exact LineIndex.position_before (Int.natCast_nonneg _) (Int.ofNat_lt.mpr (h other hother))

end

end PositionTable

/-! ## Translation -/

namespace Translator

section

variable {source : String} {t : Translator} {offset : Nat}

theorem offset_of_startsToken (hcode : t.minified = t.code) {start : Nat}
    (h : Text.StartsToken t.code.text.toList start) :
    t.minified.offset (t.code.position start) = .ok start := by
  have hlt := h.lt_length
  rw [String.length_toList, ← t.code.length_eq] at hlt
  rw [hcode]
  exact LineIndex.offset_position (Int.natCast_nonneg _) (Int.ofNat_le.mpr (Nat.le_of_lt hlt))

/-- A start goes to the next token. -/
theorem translate_left_of_identity
    (ht : t.table = some (.identity t.code.text (.string source))) (hcode : t.minified = t.code)
    {next : Option Nat} (h : Text.NextToken t.code.text.toList offset next) :
    t.translate offset .left = .ok (next.map Int.ofNat) := by
  cases next with
  | none => exact translate_of_find?_eq_none ht (PositionTable.find?_identity_of_no_next source h)
  | some start =>
      obtain ⟨m, hfind, -, hgenerated⟩ :=
        PositionTable.find?_identity_of_next source h
      have hfound := offset_of_startsToken hcode h.1
      rw [← hgenerated] at hfound
      exact translate_left_of_find? ht hfind hfound

/-- What an exclusive end looks up is the character before it, and from there it goes to the next
token; if that is the character itself, it is passed by. -/
theorem translate_right_of_identity
    (ht : t.table = some (.identity t.code.text (.string source))) (hcode : t.minified = t.code)
    {next : Option Nat} (h : Text.NextToken t.code.text.toList offset next) :
    t.translate (offset + 1) .right
      = .ok (next.map fun start => if start = offset then offset + 1 else (start : Int)) := by
  have htarget : Boundary.right.target (offset + 1) = offset := by
    rw [Boundary.target_right (by omega), Int.add_sub_cancel]
  have hmoved : Boundary.right.target (offset + 1) ≠ offset + 1 := by
    rw [htarget]
    omega
  cases next with
  | none =>
      refine translate_of_find?_eq_none ht ?_
      rw [htarget]
      exact PositionTable.find?_identity_of_no_next source h
  | some start =>
      obtain ⟨m, hfind, hposition, hgenerated⟩ :=
        PositionTable.find?_identity_of_next source h
      have hfound := offset_of_startsToken hcode h.1
      have hown : m.sourcePosition = some (t.code.position offset) ↔ start = offset := by
        rw [hposition, Option.some.injEq]
        constructor
        · intro heq
          exact Int.ofNat_inj.mp (LineIndex.position_inj (Int.natCast_nonneg _)
            (Int.natCast_nonneg _) heq)
        · rintro rfl
          rfl
      rw [← hgenerated] at hfound
      rw [← htarget] at hfind hown
      rw [translate_of_find? ht hfind hfound, Option.map_some]
      by_cases heq : start = offset
      · rw [if_pos ⟨hmoved, hown.mpr heq⟩, if_pos heq, heq]
      · rw [if_neg fun h => heq (hown.mp h.2), if_neg heq]

/-- Where no token begins before it, an exclusive end goes to the next token like a start. -/
theorem translate_right_of_gap
    (ht : t.table = some (.identity t.code.text (.string source))) (hcode : t.minified = t.code)
    {next : Option Nat} (h : Text.NextToken t.code.text.toList (offset + 1) next)
    (hno : ¬Text.StartsToken t.code.text.toList offset) :
    t.translate (offset + 1) .right = .ok (next.map Int.ofNat) := by
  rw [translate_right_of_identity ht hcode (h.of_succ hno)]
  cases next with
  | none => rfl
  | some start =>
      have hbehind : start ≠ offset := by
        have := h.2.1
        omega
      rw [Option.map_some, if_neg hbehind]
      rfl

/-- At the beginning of the text there is no character to step back to. -/
theorem translate_right_zero (t : Translator) : t.translate 0 .right = t.translate 0 .left := rfl

/-- An exclusive end where a token begins, or one character behind the beginning of a token, stays
where it is. -/
theorem translate_right_of_aligned
    (ht : t.table = some (.identity t.code.text (.string source))) (hcode : t.minified = t.code)
    {stop : Nat} (h : Text.StartsToken t.code.text.toList stop
      ∨ ∃ first, Text.StartsToken t.code.text.toList first ∧ stop = first + 1) :
    t.translate stop .right = .ok (some stop) := by
  have hbehind : ∀ first, Text.StartsToken t.code.text.toList first →
      t.translate (first + 1) .right = .ok (some (first + 1)) := by
    intro first hfirst
    rw [translate_right_of_identity ht hcode hfirst.nextToken, Option.map_some, if_pos rfl]
  rcases h with hstarts | ⟨first, hfirst, rfl⟩
  · cases stop with
    | zero =>
        exact (translate_right_zero t).trans
          (translate_left_of_identity ht hcode hstarts.nextToken)
    | succ first =>
        by_cases hfirst : Text.StartsToken t.code.text.toList first
        · exact hbehind first hfirst
        · exact translate_right_of_gap ht hcode hstarts.nextToken hfirst
  · exact hbehind first hfirst

end

/-- Both ends decide the range that a definition occupies. -/
theorem range?_eq {t : Translator} {d : Definition} {start stop : Int}
    (hstart : t.translate d.start .left = .ok (some start))
    (hstop : t.translate d.stop .right = .ok (some stop)) :
    t.range? d = if start ≤ stop then some ⟨d, start, stop⟩ else none := by
  rw [range?, outcome_eq hstart hstop, classify]
  by_cases hle : start ≤ stop
  · rw [if_pos hle, if_pos hle]
    rfl
  · rw [if_neg hle, if_neg hle]
    by_cases hline : (t.minified.position start).line = (t.minified.position stop).line
    · rw [if_pos hline]
      rfl
    · rw [if_neg hline]
      rfl

/-- A text as its own minified form, with the table of its tokens. -/
def byTokens (text source : String) : Translator :=
  ofTexts text (some text) (some (.identity text (.string source)))

end Translator

/-- In every state, attribution gives the range that the translator gives. -/
theorem Attributor.result_eq_some_iff {t : Translator} {a : Attributor} (h : a.Serves t)
    {d : Definition} {r : AttributedRange} :
    (a.assign d).result = .ok (some r) ↔ t.range? d = some r :=
  ⟨fun hresult => (range?_of_assign_result h hresult).symm,
    fun hrange => (assign_of_kept h (Translator.outcome_of_range? hrange)).1⟩

/-- **The identity table leads to the beginnings of tokens.** Let a text be its own minified form,
with the table that sends every token of it to itself. A start goes to the beginning of the
first token that does not begin before it, and goes nowhere behind the last one. An exclusive end
stays where it is one character behind the beginning of a token, and goes where a start goes
anywhere else. So of a definition that starts where a token begins, and stops where one
begins or one character behind that, every attributor gives the very range that one without a table
gives. -/
theorem Translator.translate_byTokens (text source : String) :
    (∀ offset : Nat, ∃ next, Text.NextToken text.toList offset next
      ∧ (byTokens text source).translate offset .left = .ok (next.map Int.ofNat)
      ∧ (0 < offset →
        (Text.StartsToken text.toList (offset - 1) →
          (byTokens text source).translate offset .right = .ok (some offset))
        ∧ (¬Text.StartsToken text.toList (offset - 1) →
          (byTokens text source).translate offset .right = .ok (next.map Int.ofNat))))
      ∧ ∀ (d : Definition) (start stop : Nat), d.start = start → d.stop = stop →
        Text.StartsToken text.toList start →
        (Text.StartsToken text.toList stop
          ∨ ∃ first, Text.StartsToken text.toList first ∧ stop = first + 1) →
        (byTokens text source).range? d = (ofTexts text none none).range? d
          ∧ (start ≤ stop → (byTokens text source).range? d = some ⟨d, start, stop⟩)
          ∧ ∀ (strict strict' : Bool) (a b : Attributor),
            Attributor.Reached (byTokens text source) strict a →
            Attributor.Reached (ofTexts text none none) strict' b →
            ∀ r, (a.assign d).result = .ok (some r) ↔ (b.assign d).result = .ok (some r) := by
  have ht : (byTokens text source).table
      = some (.identity (byTokens text source).code.text (.string source)) := rfl
  have hcode : (byTokens text source).minified = (byTokens text source).code := rfl
  refine ⟨fun offset => ?_, fun d start stop hdstart hdstop hstart hstop => ?_⟩
  · obtain ⟨next, hnext⟩ := Text.exists_nextToken text.toList offset
    refine ⟨next, hnext, translate_left_of_identity ht hcode hnext, fun hpos => ?_⟩
    obtain ⟨before, rfl⟩ := Nat.exists_eq_add_of_lt hpos
    rw [Nat.zero_add, Nat.add_sub_cancel] at *
    refine ⟨fun hstarts => ?_, fun hno => translate_right_of_gap ht hcode hnext hno⟩
    exact translate_right_of_aligned ht hcode (Or.inr ⟨before, hstarts, rfl⟩)
  · have hleft : (byTokens text source).translate d.start .left = .ok (some d.start) := by
      rw [hdstart]
      exact translate_left_of_identity ht hcode hstart.nextToken
    have hright : (byTokens text source).translate d.stop .right = .ok (some d.stop) := by
      rw [hdstop]
      exact translate_right_of_aligned ht hcode hstop
    have hrange := range?_eq hleft hright
    have hsame : (byTokens text source).range? d = (ofTexts text none none).range? d := by
      rw [hrange, range?_eq (translate_of_no_table rfl _ _) (translate_of_no_table rfl _ _)]
    refine ⟨hsame, fun hle => ?_, fun strict strict' a b ha hb r => ?_⟩
    · rw [hrange, if_pos (by omega), hdstart, hdstop]
    · rw [Attributor.result_eq_some_iff ha.serves, Attributor.result_eq_some_iff hb.serves, hsame]

theorem Translator.translate_byTokens_statement :
    (byTokens "ab = 1;\nc" "0").translate 7 .right = .ok (some 7)
      ∧ (byTokens "ab = 1;\nc" "0").range? ⟨"ab", .binding, 0, 6⟩
        = some ⟨⟨"ab", .binding, 0, 6⟩, 0, 6⟩ := by
  have hname : Text.StartsToken "ab = 1;\nc".toList 0 :=
    ⟨[], ['a', 'b'], [' ', '=', ' ', '1', ';', '\n', 'c'], by decide, rfl,
      .word (by decide) (List.all_eq_true.mp (by decide +kernel)) nofun fun c hc => by
        obtain rfl := Option.some.inj hc
        decide +kernel⟩
  have hend : Text.StartsToken "ab = 1;\nc".toList 6 :=
    ⟨['a', 'b', ' ', '=', ' ', '1'], [';'], ['\n', 'c'], by decide, rfl,
      .mark (by decide +kernel) (by decide +kernel)⟩
  obtain ⟨_, -, -, hright⟩ := (translate_byTokens "ab = 1;\nc" "0").1 7
  exact ⟨(hright (by decide)).1 hend, ((translate_byTokens "ab = 1;\nc" "0").2
    ⟨"ab", .binding, 0, 6⟩ 0 6 rfl rfl hname (Or.inl hend)).2.1 (by decide)⟩

end BundleSize
