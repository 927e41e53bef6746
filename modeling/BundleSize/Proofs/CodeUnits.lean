import BundleSize.Proofs.Tokens
import BundleSize.Offsets.CodeUnits

/-!
# Characters looked up by code units

A table may count its columns in code units, while an offset is looked up by characters.
Where a character takes two code units the columns of its line part, and the columns
of the table have gaps: no mapping stands at the second unit. Every position
of a character within the text is either one that the table has, or such a gap
(`LineIndex.whole_or_splits`).

If a text goes to itself, the difference is made on both sides and falls away, except
at a gap. There the lookup goes on to the next column, one character too far. This moves a
start. An exclusive end looks up the character before it, and being led one character on instead
of stepping past one comes to the same, so an end is never moved.
-/

namespace BundleSize

theorem Text.codeUnits_pos (c : Char) : 0 < codeUnits c := by
  rw [codeUnits]
  split <;> decide

theorem Text.codeUnits_cases (c : Char) : codeUnits c = 1 ∨ codeUnits c = 2 := by
  rw [codeUnits]
  split
  · exact Or.inl rfl
  · exact Or.inr rfl

theorem Text.ne_lineFeed_of_codeUnits {c : Char} (h : codeUnits c = 2) : c ≠ '\n' := by
  rintro rfl
  exact absurd h (by decide)

/-! ## Walks by different widths -/

namespace Position

/-- Wider characters lead at least as far on the same line. -/
theorem behind_of_one {width : Char → Nat} (hwidth : ∀ c, 0 < width c) (s : List Char) :
    (behind (fun _ => 1) s).line = (behind width s).line
      ∧ (behind (fun _ => 1) s).column ≤ (behind width s).column := by
  induction s using List.reverseRecOn with
  | nil => exact ⟨rfl, Int.le_refl _⟩
  | append_singleton s c ih =>
      obtain ⟨hline, hcolumn⟩ := ih
      rw [behind_concat, behind_concat, past, past]
      by_cases hc : c = '\n'
      · rw [if_pos hc, if_pos hc]
        exact ⟨by simp only [hline], Int.le_refl _⟩
      · have := hwidth c
        rw [if_neg hc, if_neg hc]
        exact ⟨hline, by simp only; omega⟩

theorem behind_eq_of_narrow {width : Char → Nat} {s : List Char} (h : ∀ c ∈ s, width c = 1) :
    behind width s = behind (fun _ => 1) s := by
  induction s using List.reverseRecOn with
  | nil => rfl
  | append_singleton s c ih =>
      rw [behind_concat, behind_concat, ih fun d hd => h d (List.mem_append_left _ hd), past, past,
        h c (List.mem_append_right _ (List.mem_singleton.mpr rfl))]

end Position

/-! ## Positions in code units -/

namespace LineIndex

variable {x : LineIndex} {offset : Nat}

theorem position_upTo_unitPosition (hle : offset ≤ x.text.length) :
    (x.position offset).upTo (x.unitPosition offset) = true := by
  rw [x.position_eq_behind hle]
  exact Position.upTo_iff.mpr (Or.inr (Position.behind_of_one Text.codeUnits_pos _))

theorem unitPosition_upTo {n m : Nat} (hnm : n ≤ m) :
    (x.unitPosition n).upTo (x.unitPosition m) = true :=
  Position.upTo_behind_take Text.codeUnits_pos _ hnm

theorem lt_of_unitPosition_before {n m : Nat}
    (h : (x.unitPosition n).before (x.unitPosition m) = true) : n < m :=
  Nat.lt_of_not_le fun hle => Position.not_before.mpr (unitPosition_upTo hle) h

section

variable {before behind : List Char} {c : Char}

theorem unitPosition_length (htext : x.text.toList = before ++ behind) :
    x.unitPosition before.length = Position.behind Text.codeUnits before := by
  rw [unitPosition, htext, List.take_left]

theorem unitPosition_length_succ (htext : x.text.toList = before ++ c :: behind) :
    x.unitPosition (before.length + 1)
      = (Position.behind Text.codeUnits before).past Text.codeUnits c := by
  have hconcat : x.text.toList = (before ++ [c]) ++ behind := by
    rw [htext, List.append_assoc]
    rfl
  have hposition := unitPosition_length hconcat
  rwa [List.length_append, List.length_singleton, Position.behind_concat] at hposition

/-- A position that is passed by one character is the position behind it, or it is left out between
the two code units of the character. -/
theorem whole_or_splits_past (hle : offset ≤ x.text.length)
    (htext : x.text.toList = before ++ c :: behind)
    (hbefore : (Position.behind Text.codeUnits before).before (x.position offset) = true)
    (hupTo : (x.position offset).upTo
      ((Position.behind Text.codeUnits before).past Text.codeUnits c) = true) :
    x.position offset = (Position.behind Text.codeUnits before).past Text.codeUnits c
      ∨ x.Splits offset := by
  by_cases hc : c = '\n'
  · -- the offset is behind the line feed, which ends the line for both ways of counting
    have hlt : before.length < offset := by
      refine lt_of_unitPosition_before (x := x) ?_
      rw [unitPosition_length htext]
      exact Position.before_of_before_of_upTo hbefore (position_upTo_unitPosition hle)
    have hline := (Position.behind_of_one Text.codeUnits_pos before).1
    have hnext : x.position (before.length + 1 : Nat)
        = (Position.behind Text.codeUnits before).past Text.codeUnits c := by
      rw [position_length_succ htext, Position.past, Position.past, if_pos hc, if_pos hc, hline]
    refine Or.inl (Position.upTo_antisymm hupTo ?_)
    rw [← hnext]
    exact position_upTo_natCast_iff.mpr hlt
  · rw [Position.past, if_neg hc] at hupTo ⊢
    rw [Position.before_iff] at hbefore
    rw [Position.upTo_iff] at hupTo
    simp only at hupTo
    have heq : ∀ k : Int, (x.position offset).line = (Position.behind Text.codeUnits before).line →
        (x.position offset).column = (Position.behind Text.codeUnits before).column + k →
        x.position offset = ⟨(Position.behind Text.codeUnits before).line,
          (Position.behind Text.codeUnits before).column + k⟩ := by
      intro k hline hcolumn
      rw [← hline, ← hcolumn]
    rcases Text.codeUnits_cases c with hone | htwo
    · refine Or.inl ?_
      rw [hone] at hupTo ⊢
      exact heq _ (by omega) (by omega)
    · rw [htwo] at hupTo ⊢
      by_cases hfirst : (x.position offset).column
          = (Position.behind Text.codeUnits before).column + 1
      · exact Or.inr ⟨before, c, behind, htext, htwo, heq 1 (by omega) hfirst⟩
      · exact Or.inl (heq _ (by omega) (by omega))

end

theorem whole_or_splits_of_upTo (hle : offset ≤ x.text.length) : ∀ before behind : List Char,
    x.text.toList = before ++ behind →
    (x.position offset).upTo (Position.behind Text.codeUnits before) = true →
      (∃ n ≤ before.length, x.unitPosition n = x.position offset) ∨ x.Splits offset := by
  intro before
  induction before using List.reverseRecOn with
  | nil =>
      intro behind htext hupTo
      refine Or.inl ⟨0, Nat.le_refl _, Position.upTo_antisymm ?_ hupTo⟩
      have hzero : x.unitPosition 0 = x.position (0 : Nat) := by
        rw [x.position_eq_behind (Nat.zero_le _)]
        rfl
      rw [hzero]
      exact position_upTo_natCast_iff.mpr (Nat.zero_le _)
  | append_singleton before c ih =>
      intro behind htext hupTo
      rw [List.append_assoc, List.singleton_append] at htext
      rw [Position.behind_concat] at hupTo
      rw [List.length_append]
      by_cases hreached : (Position.behind Text.codeUnits before).before (x.position offset) = true
      · rcases whole_or_splits_past hle htext hreached hupTo with heq | hsplits
        · exact Or.inl ⟨before.length + 1, Nat.le_refl _, by
            rw [unitPosition_length_succ htext, heq]⟩
        · exact Or.inr hsplits
      · rcases ih _ htext (Position.not_before.mp hreached) with ⟨n, hn, heq⟩ | hsplits
        · exact Or.inl ⟨n, Nat.le_add_right_of_le hn, heq⟩
        · exact Or.inr hsplits

/-- The position of an offset is one that some character has in code units, or it is left out
between the two code units of a character. -/
theorem whole_or_splits (hle : offset ≤ x.text.length) :
    (∃ n ≤ offset, x.unitPosition n = x.position offset) ∨ x.Splits offset := by
  have hlength : (x.text.toList.take offset).length = offset := by
    rw [List.length_take, String.length_toList, Nat.min_eq_left hle]
  have hwhole := whole_or_splits_of_upTo hle (x.text.toList.take offset)
    (x.text.toList.drop offset) (List.take_append_drop ..).symm (position_upTo_unitPosition hle)
  rwa [hlength] at hwhole

/-- What is left out lies behind a character of the text, and the next position is that of the next
character. -/
theorem Splits.between (h : x.Splits offset) (hle : offset ≤ x.text.length) : ∃ n, n < offset
    ∧ (x.unitPosition n).before (x.position offset) = true
    ∧ x.unitPosition (n + 1) = ⟨(x.position offset).line, (x.position offset).column + 1⟩ := by
  obtain ⟨before, c, behind, htext, hc, hposition⟩ := h
  have hbefore : (x.unitPosition before.length).before (x.position offset) = true := by
    rw [unitPosition_length htext, hposition, Position.before_iff]
    exact Or.inr ⟨rfl, by simp only; omega⟩
  refine ⟨before.length, ?_, hbefore, ?_⟩
  · exact lt_of_unitPosition_before
      (Position.before_of_before_of_upTo hbefore (position_upTo_unitPosition hle))
  · rw [unitPosition_length_succ htext, hposition, Position.past,
      if_neg (Text.ne_lineFeed_of_codeUnits hc), hc]
    simp only [Position.mk.injEq, true_and]
    omega

/-- One column on is one offset on, up to the end of the text. -/
theorem offset_next_column (hlt : offset < x.text.length) :
    x.offset ⟨(x.position offset).line, (x.position offset).column + 1⟩ = .ok (offset + 1) := by
  obtain ⟨n, hn⟩ := exists_line (x := x) (Int.natCast_nonneg offset)
  have hstart := hn.start_le
  have hproper : Position.Proper ⟨(x.position offset).line, (x.position offset).column + 1⟩ := by
    rw [hn.position_eq]
    exact ⟨by simp only; omega, by simp only; omega⟩
  have hindex : ((n : Int) + 1 - 1).toNat = n := by omega
  have hline := hn.line
  rw [offset_eq_of_proper x hproper, hn.position_eq]
  simp only [hindex]
  rw [if_neg (by omega), x.length_eq]
  congr 1
  omega

/-- Characters of two code units only at the end of the text split no offset within it. -/
theorem not_splits_of_narrow (hlt : offset < x.text.length)
    (hlast : ∀ before c behind, x.text.toList = before ++ c :: behind → Text.codeUnits c = 2 →
      behind = []) : ¬x.Splits offset := by
  intro h
  obtain ⟨before, c, behind, htext, hc, hposition⟩ := h
  obtain rfl := hlast _ _ _ htext hc
  have hnarrow : ∀ d ∈ before, Text.codeUnits d = 1 := by
    intro d hd
    obtain ⟨front, back, rfl⟩ := List.append_of_mem hd
    rcases Text.codeUnits_cases d with hone | htwo
    · exact hone
    · have hempty := hlast front d (back ++ [c]) (by rw [htext, List.append_assoc]; rfl) htwo
      exact absurd hempty (by simp)
  have hfeed := Text.ne_lineFeed_of_codeUnits hc
  -- so the position is the one behind the last character
  have hend : x.position x.text.length = x.position offset := by
    rw [hposition, x.position_eq_behind (Nat.le_refl _), ← String.length_toList, List.take_length,
      htext, Position.behind_concat, Position.past, if_neg hfeed,
      Position.behind_eq_of_narrow hnarrow]
    rfl
  have := position_inj (Int.natCast_nonneg _) (Int.natCast_nonneg _) hend
  omega

/-- Behind the first character of two code units is an offset that it splits. -/
theorem splits_of_wide {before behind : List Char} {c : Char}
    (htext : x.text.toList = before ++ c :: behind) (hc : Text.codeUnits c = 2)
    (hnarrow : ∀ d ∈ before, Text.codeUnits d = 1) : x.Splits (before.length + 1) := by
  have hfeed := Text.ne_lineFeed_of_codeUnits hc
  refine ⟨before, c, behind, htext, hc, ?_⟩
  rw [Position.behind_eq_of_narrow hnarrow, position_length_succ htext, Position.past, if_neg hfeed]
  rfl

theorem exists_splits_of_wide : ∀ {before behind : List Char} {c : Char},
    x.text.toList = before ++ c :: behind → Text.codeUnits c = 2 → behind ≠ [] →
      ∃ offset < x.text.length, x.Splits offset
  | before, behind, c, htext, hc, hbehind => by
      by_cases hnarrow : ∀ d ∈ before, Text.codeUnits d = 1
      · refine ⟨before.length + 1, ?_, splits_of_wide htext hc hnarrow⟩
        have := List.length_pos_of_ne_nil hbehind
        rw [← String.length_toList, htext, List.length_append, List.length_cons]
        omega
      · -- an earlier character is as wide
        push Not at hnarrow
        obtain ⟨d, hd, hwide⟩ := hnarrow
        obtain ⟨front, back, rfl⟩ := List.append_of_mem hd
        have hearlier : front.length < (front ++ d :: back).length := by
          rw [List.length_append, List.length_cons]
          omega
        rw [List.append_assoc] at htext
        exact exists_splits_of_wide htext ((Text.codeUnits_cases d).resolve_left hwide)
          (List.append_ne_nil_of_right_ne_nil _ (List.cons_ne_nil _ _))
  termination_by before => before.length

end LineIndex

/-! ## Lookups -/

namespace PositionTable

variable {x : LineIndex} {source : String} {offset : Nat}

theorem sends_ofUnits_iff {p q : Position} :
    (ofUnits x.text (.string source)).Sends p q
      ↔ p = q ∧ ∃ n < x.text.length, x.unitPosition n = p := by
  constructor
  · rintro ⟨m, hm, label, -, -, hposition, hgenerated⟩
    obtain ⟨n, hn, rfl⟩ := List.mem_map.mp hm
    obtain rfl := Option.some.inj hposition
    exact ⟨hgenerated, n, List.mem_range.mp hn, rfl⟩
  · rintro ⟨rfl, n, hn, rfl⟩
    exact ⟨_, List.mem_map.mpr ⟨n, List.mem_range.mpr hn, rfl⟩, .string source, rfl, rfl, rfl, rfl⟩

/-- The lookup of an offset that is not split finds the place of the offset itself. -/
theorem find?_ofUnits_of_whole (source : String) (hlt : offset < x.text.length)
    (h : ¬x.Splits offset) :
    ∃ m, (ofUnits x.text (.string source)).find? (x.position offset) .leastUpper = some m
      ∧ m.sourcePosition = some (x.position offset) ∧ x.offset m.generated = .ok offset := by
  obtain ⟨n, hn, heq⟩ := (LineIndex.whole_or_splits (Nat.le_of_lt hlt)).resolve_right h
  obtain ⟨m, hfind, hposition, hgenerated⟩ :=
    find?_of_first (fun p q hsends => (sends_ofUnits_iff.mp hsends).1)
      (sends_ofUnits_iff.mpr ⟨rfl, n, Nat.lt_of_le_of_lt hn hlt, heq⟩) (Position.upTo_refl _)
      fun q _ hupTo => hupTo
  refine ⟨m, hfind, hposition, ?_⟩
  rw [hgenerated]
  exact LineIndex.offset_position (Int.natCast_nonneg _) (by rw [x.length_eq]; omega)

/-- The lookup of an offset that is split finds the next column. -/
theorem find?_ofUnits_of_splits (source : String) (hlt : offset < x.text.length)
    (h : x.Splits offset) :
    ∃ m, (ofUnits x.text (.string source)).find? (x.position offset) .leastUpper = some m
      ∧ m.sourcePosition ≠ some (x.position offset)
      ∧ x.offset m.generated = .ok (offset + 1) := by
  obtain ⟨n, hn, hbefore, hnext⟩ := h.between (Nat.le_of_lt hlt)
  have hpast : (x.position offset).before
      ⟨(x.position offset).line, (x.position offset).column + 1⟩ = true :=
    Position.before_iff.mpr (Or.inr ⟨rfl, by simp only; omega⟩)
  have hfirst : ∀ q, (ofUnits x.text (.string source)).Sends q q →
      (x.position offset).upTo q = true →
      Position.upTo ⟨(x.position offset).line, (x.position offset).column + 1⟩ q = true := by
    intro q hq hupTo
    obtain ⟨-, m, -, rfl⟩ := sends_ofUnits_iff.mp hq
    rw [← hnext]
    exact LineIndex.unitPosition_upTo
      (LineIndex.lt_of_unitPosition_before (Position.before_of_before_of_upTo hbefore hupTo))
  obtain ⟨m, hfind, hposition, hgenerated⟩ :=
    find?_of_first (fun p q hsends => (sends_ofUnits_iff.mp hsends).1)
      (sends_ofUnits_iff.mpr ⟨rfl, n + 1, Nat.lt_of_le_of_lt hn hlt, hnext⟩)
      (Position.upTo_of_before hpast) hfirst
  refine ⟨m, hfind, ?_, ?_⟩
  · rw [hposition, ne_eq, Option.some.injEq]
    intro heq
    rw [heq] at hpast
    exact Position.not_before.mpr (Position.upTo_refl _) hpast
  · rw [hgenerated]
    exact LineIndex.offset_next_column hlt

end PositionTable

/-! ## Translation -/

namespace Translator

section

variable {source : String} {t : Translator} {offset : Nat}

theorem translate_left_of_whole
    (ht : t.table = some (.ofUnits t.code.text (.string source))) (hcode : t.minified = t.code)
    (hlt : offset < t.code.text.length) (h : ¬t.code.Splits offset) :
    t.translate offset .left = .ok (some offset) := by
  obtain ⟨m, hfind, -, hfound⟩ := PositionTable.find?_ofUnits_of_whole source hlt h
  rw [← hcode] at hfound
  exact translate_left_of_find? ht hfind hfound

theorem translate_left_of_splits
    (ht : t.table = some (.ofUnits t.code.text (.string source))) (hcode : t.minified = t.code)
    (hlt : offset < t.code.text.length) (h : t.code.Splits offset) :
    t.translate offset .left = .ok (some (offset + 1)) := by
  obtain ⟨m, hfind, -, hfound⟩ := PositionTable.find?_ofUnits_of_splits source hlt h
  rw [← hcode] at hfound
  exact translate_left_of_find? ht hfind hfound

/-- An exclusive end stays where it is, split or not. -/
theorem translate_right_of_units
    (ht : t.table = some (.ofUnits t.code.text (.string source))) (hcode : t.minified = t.code)
    (hlt : offset < t.code.text.length) :
    t.translate (offset + 1) .right = .ok (some (offset + 1)) := by
  have htarget : Boundary.right.target (offset + 1) = offset := by
    rw [Boundary.target_right (by omega), Int.add_sub_cancel]
  by_cases h : t.code.Splits offset
  · -- what is found is the next character, so there is no step past it
    obtain ⟨m, hfind, hother, hfound⟩ := PositionTable.find?_ofUnits_of_splits source hlt h
    rw [← hcode] at hfound
    rw [← htarget] at hfind
    rw [translate_of_find? ht hfind hfound, htarget, if_neg fun hown => hother hown.2]
  · obtain ⟨m, hfind, hown, hfound⟩ := PositionTable.find?_ofUnits_of_whole source hlt h
    rw [← hcode] at hfound
    rw [← htarget] at hfind
    rw [translate_of_find? ht hfind hfound, htarget, if_pos ⟨by omega, hown⟩]

end

/-- A text as its own minified form, with the table of its characters by code units. -/
def byUnits (text source : String) : Translator :=
  ofTexts text (some text) (some (.ofUnits text (.string source)))

section

variable {text source : String}

theorem translate_left_byUnits (source : String) {offset : Nat} (hlt : offset < text.length) :
    ((LineIndex.ofText text).Splits offset →
        (byUnits text source).translate offset .left = .ok (some (offset + 1)))
      ∧ (¬(LineIndex.ofText text).Splits offset →
        (byUnits text source).translate offset .left = .ok (some offset)) :=
  ⟨translate_left_of_splits (t := byUnits text source) rfl rfl hlt,
    translate_left_of_whole (t := byUnits text source) rfl rfl hlt⟩

theorem translate_right_byUnits {offset : Nat} (hpos : 0 < offset) (hle : offset ≤ text.length) :
    (byUnits text source).translate offset .right = .ok (some offset) := by
  obtain ⟨before, rfl⟩ := Nat.exists_eq_add_of_lt hpos
  rw [Nat.zero_add] at hle ⊢
  exact translate_right_of_units (t := byUnits text source) rfl rfl hle

/-- Every start is exact if no character of two code units is followed by another character, and
only then. -/
theorem translate_left_byUnits_iff :
    (∀ offset : Nat, offset < text.length →
        (byUnits text source).translate offset .left = .ok (some offset))
      ↔ ∀ before c behind, text.toList = before ++ c :: behind → Text.codeUnits c = 2 →
        behind = [] := by
  constructor
  · intro hexact before c behind htext hc
    by_contra hbehind
    obtain ⟨offset, hlt, hsplits⟩ :=
      LineIndex.exists_splits_of_wide (x := .ofText text) htext hc hbehind
    have hmoved := ((translate_left_byUnits source hlt).1 hsplits).symm.trans (hexact offset hlt)
    have := Option.some.inj (Except.ok.inj hmoved)
    omega
  · intro hlast offset hlt
    exact (translate_left_byUnits source hlt).2 (LineIndex.not_splits_of_narrow hlt hlast)

end

/-- **By code units, starts are moved where a character is split.** Let a text be its own minified
form, with the table that sends every character to itself, its columns counted in code units on both
sides. An exclusive end is never moved. A start is not moved either unless its column is that of
the second code unit of a character before it; then it is moved past the character that it stands
at. So every definition with something in it is kept with its end, and all starts are exact
if and only if no character of two code units is followed by another character. -/
theorem translate_byUnits (text source : String) :
    (∀ offset : Nat, 0 < offset → offset ≤ text.length →
        (byUnits text source).translate offset .right = .ok (some offset))
      ∧ (∀ offset : Nat, offset < text.length →
        ((LineIndex.ofText text).Splits offset →
          (byUnits text source).translate offset .left = .ok (some (offset + 1)))
        ∧ (¬(LineIndex.ofText text).Splits offset →
          (byUnits text source).translate offset .left = .ok (some offset)))
      ∧ (∀ (d : Definition) (start stop : Nat), d.start = start → d.stop = stop → start < stop →
        stop ≤ text.length →
        ((LineIndex.ofText text).Splits start →
          (byUnits text source).range? d = some ⟨d, start + 1, stop⟩)
        ∧ (¬(LineIndex.ofText text).Splits start →
          (byUnits text source).range? d = some ⟨d, start, stop⟩))
      ∧ ((∀ offset : Nat, offset < text.length →
          (byUnits text source).translate offset .left = .ok (some offset))
        ↔ ∀ before c behind, text.toList = before ++ c :: behind → Text.codeUnits c = 2 →
          behind = []) := by
  refine ⟨fun offset => translate_right_byUnits, fun offset => translate_left_byUnits source, ?_,
    translate_left_byUnits_iff⟩
  intro d start stop hstart hstop hlt hle
  have hend : (byUnits text source).translate d.stop .right = .ok (some stop) := by
    rw [hstop]
    exact translate_right_byUnits (by omega) hle
  obtain ⟨hsplits, hwhole⟩ := translate_left_byUnits source
    (show start < text.length by omega)
  rw [← hstart] at hsplits hwhole
  constructor
  · intro h
    rw [range?_eq (hsplits h) hend, if_pos (by omega), hstart]
  · intro h
    rw [range?_eq (hwhole h) hend, if_pos (by omega), hstart]

/-- The character behind one of two code units stands at the column of its second code unit. -/
theorem splits_of_smile : (LineIndex.ofText "😀ab").Splits 1 := by
  have htext : (LineIndex.ofText "😀ab").text.toList = [] ++ '😀' :: ['a', 'b'] := by decide
  exact LineIndex.splits_of_wide htext (by decide) nofun

theorem translate_byUnits_smile :
    (byUnits "😀ab" "0").translate 3 .right = .ok (some 3)
      ∧ (byUnits "😀ab" "0").translate 1 .left = .ok (some 2)
      ∧ (byUnits "😀ab" "0").range? ⟨"ab", .binding, 1, 3⟩
        = some ⟨⟨"ab", .binding, 1, 3⟩, 2, 3⟩ := by
  obtain ⟨hright, hleft, hrange, -⟩ := translate_byUnits "😀ab" "0"
  exact ⟨hright 3 (by decide) (by decide), (hleft 1 (by decide)).1 splits_of_smile,
    (hrange ⟨"ab", .binding, 1, 3⟩ 1 3 rfl rfl (by decide) (by decide)).1 splits_of_smile⟩

/-- Such a table does not leave every offset where it is. -/
theorem not_translate_byUnits :
    ¬ ∀ text source : String,
      (∀ offset : Nat, offset < text.length →
        (byUnits text source).translate offset .left = .ok (some offset))
      ∧ ∀ offset : Nat, 0 < offset → offset ≤ text.length →
        (byUnits text source).translate offset .right = .ok (some offset) := by
  intro h
  have hmoved := (translate_left_byUnits "0" (by decide)).1 splits_of_smile
  have hexact := (h "😀ab" "0").1 1 (by decide)
  have := Option.some.inj (Except.ok.inj (hmoved.symm.trans hexact))
  omega

end Translator

end BundleSize
