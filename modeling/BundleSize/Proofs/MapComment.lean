import BundleSize.Minification.Minified
import BundleSize.Pattern.Greedy
import BundleSize.Proofs.LineFeeds

/-!
# Dropping the comment that names a source map

The comment is told by its form: a line feed or none, the opening, an address without
blanks, and blanks up to the end of the text (`IsMapEnding`). What is dropped is the
longest ending of a text that has the form, if one has it. So of several comments in
a row only the last one goes: the line feed before it is not in an
address, and what follows that line feed is not blank.

The same is done by a search for a greedy pattern. A search may find something in
many places and ways, but here the first place decides, and from there the first way
that leads to an end leads to the end of the text.
-/

namespace BundleSize

open Text Greedy

namespace Minification

variable {text rest : List Char}

/-- The text is a comment that names a source map, with or without a line feed in front of it. -/
def IsMapEnding (text : List Char) : Prop :=
  ∃ feed address blanks, text = feed ++ (mapCommentOpening ++ (address ++ blanks))
    ∧ (feed = [] ∨ feed = ['\n']) ∧ (∀ c ∈ address, isBlank c = false)
    ∧ ∀ c ∈ blanks, isBlank c = true

/-! ## The form of the comment -/

theorem all_blank_dropWhile_iff :
    ((rest.dropWhile fun c => !isBlank c).all isBlank = true)
      ↔ ∃ address blanks, rest = address ++ blanks ∧ (∀ c ∈ address, isBlank c = false)
        ∧ ∀ c ∈ blanks, isBlank c = true := by
  rw [List.all_eq_true]
  constructor
  · intro hblanks
    refine ⟨_, _, List.takeWhile_append_dropWhile.symm, fun c hc => ?_, hblanks⟩
    simpa using List.mem_takeWhile_imp hc
  · rintro ⟨address, blanks, rfl, haddress, hblanks⟩ c hc
    have hpass : ∀ c ∈ address, (!isBlank c) = true := fun c hc => by simp [haddress c hc]
    rw [List.dropWhile_append_of_pos hpass] at hc
    exact hblanks c ((List.dropWhile_sublist _).mem hc)

theorem isMapComment_iff :
    isMapComment text = true ↔ ∃ address blanks, text = mapCommentOpening ++ (address ++ blanks)
      ∧ (∀ c ∈ address, isBlank c = false) ∧ ∀ c ∈ blanks, isBlank c = true := by
  rw [isMapComment, Bool.and_eq_true, List.isPrefixOf_iff_prefix, all_blank_dropWhile_iff]
  constructor
  · rintro ⟨⟨rest, rfl⟩, h⟩
    rw [List.drop_left] at h
    obtain ⟨address, blanks, rfl, h⟩ := h
    exact ⟨address, blanks, rfl, h⟩
  · rintro ⟨address, blanks, rfl, h⟩
    rw [List.drop_left]
    exact ⟨List.prefix_append _ _, address, blanks, rfl, h⟩

theorem endsInMapComment_iff : endsInMapComment text = true ↔ IsMapEnding text := by
  constructor
  · intro h
    unfold endsInMapComment at h
    split at h
    · obtain ⟨address, blanks, rfl, hform⟩ := isMapComment_iff.mp h
      exact ⟨['\n'], address, blanks, rfl, .inr rfl, hform⟩
    · obtain ⟨address, blanks, rfl, hform⟩ := isMapComment_iff.mp h
      exact ⟨[], address, blanks, rfl, .inl rfl, hform⟩
  · rintro ⟨feed, address, blanks, rfl, rfl | rfl, hform⟩
    · exact isMapComment_iff.mpr ⟨address, blanks, rfl, hform⟩
    · exact isMapComment_iff.mpr ⟨address, blanks, rfl, hform⟩

/-- A comment has no line feed in it that is not among the blanks at its end. -/
theorem isMapComment_append_lineFeed {front tail : List Char}
    (h : isMapComment (front ++ '\n' :: tail) = true) : ∀ c ∈ tail, isBlank c = true := by
  obtain ⟨address, blanks, heq, haddress, hblanks⟩ := isMapComment_iff.mp h
  have hnone : '\n' ∉ mapCommentOpening ++ address := by
    intro hmem
    rcases List.mem_append.mp hmem with hopening | hmem
    · exact absurd hopening (by decide)
    · exact absurd (haddress _ hmem) (by decide)
  rw [← List.append_assoc] at heq
  rcases List.append_eq_append_iff.mp heq with ⟨between, hbetween, htail⟩ | ⟨between, -, rfl⟩
  · -- the line feed cannot be in what lies between, so nothing lies between
    cases between with
    | nil =>
        obtain rfl : '\n' :: tail = blanks := htail
        exact fun c hc => hblanks c (List.mem_cons_of_mem _ hc)
    | cons c between =>
        obtain ⟨rfl, -⟩ := List.cons.inj htail
        exact absurd (hbetween ▸ List.mem_append_right front (List.mem_cons_self ..)) hnone
  · exact fun c hc => hblanks c (List.mem_append_right _ (List.mem_cons_of_mem _ hc))

/-! ## What is dropped -/

/-- Code in front of a comment is kept, whatever it is. -/
theorem dropMapComment_append {tail : List Char} (htail : isMapComment tail = true) :
    ∀ code : List Char, dropMapComment (code ++ '\n' :: tail) = code
  | [] => by
      have hends : endsInMapComment ('\n' :: tail) = true := htail
      rw [List.nil_append, dropMapComment, if_pos hends]
  | c :: code => by
      have hslash : ¬∀ c ∈ tail, isBlank c = true := by
        obtain ⟨address, blanks, rfl, -⟩ := isMapComment_iff.mp htail
        have hmem : '/' ∈ mapCommentOpening ++ (address ++ blanks) :=
          List.mem_append_left _ (by decide)
        exact fun h => absurd (h '/' hmem) (by decide)
      have hnot : ¬endsInMapComment (c :: (code ++ '\n' :: tail)) = true := by
        intro h
        unfold endsInMapComment at h
        split at h
        · rename_i heq
          obtain ⟨-, rfl⟩ := List.cons.inj heq
          exact hslash (isMapComment_append_lineFeed h)
        · exact hslash (isMapComment_append_lineFeed
            (show isMapComment ((c :: code) ++ '\n' :: tail) = true from h))
      rw [List.cons_append, dropMapComment, if_neg hnot, dropMapComment_append htail code]

/-- What is dropped is the longest comment at the end; without one nothing is. -/
theorem dropMapComment_cases : ∀ text : List Char, ∃ ending, text = dropMapComment text ++ ending
    ∧ (IsMapEnding ending ∧ (∀ other, other <:+ text → IsMapEnding other → other <:+ ending)
      ∨ ending = [] ∧ ∀ other, other <:+ text → ¬IsMapEnding other)
  | [] => by
      refine ⟨[], rfl, .inr ⟨rfl, fun other hother hform => ?_⟩⟩
      obtain rfl := List.suffix_nil.mp hother
      exact absurd (endsInMapComment_iff.mpr hform) (by decide)
  | c :: rest => by
      rw [dropMapComment]
      split
      · rename_i hends
        exact ⟨c :: rest, rfl, .inl ⟨endsInMapComment_iff.mp hends, fun _ hother _ => hother⟩⟩
      · rename_i hends
        -- the text itself is no comment, so its comments are those of the rest
        have hrest : ∀ other, other <:+ c :: rest → IsMapEnding other → other <:+ rest := by
          intro other hother hform
          rcases List.suffix_cons_iff.mp hother with rfl | hother
          · exact absurd (endsInMapComment_iff.mpr hform) hends
          · exact hother
        obtain ⟨ending, heq, hcases⟩ := dropMapComment_cases rest
        refine ⟨ending, congrArg (c :: ·) heq, hcases.imp ?_ ?_⟩
        · rintro ⟨hform, hlongest⟩
          exact ⟨hform, fun other hother h => hlongest other (hrest other hother h) h⟩
        · rintro ⟨hnil, hnone⟩
          exact ⟨hnil, fun other hother h => hnone other (hrest other hother h) h⟩

/-! ## The search -/

/-- The comment as a pattern: a line feed or none, the opening, characters that are not blank,
blanks, the end. -/
def mapCommentParts : List GreedyPart :=
  .optional (· = '\n') :: (mapCommentOpening.map fun c => .one (· = c))
    ++ [.many fun c => !isBlank c, .many isBlank, .lineEnd]

theorem leftovers_literal (parts : List GreedyPart) : ∀ literal text : List Char,
    leftovers ((literal.map fun c => .one (· = c)) ++ parts) text
      = if literal.isPrefixOf text then leftovers parts (text.drop literal.length) else []
  | [], text => by simp
  | c :: literal, [] => by simp [leftovers, afterOne]
  | c :: literal, d :: text => by
      rw [List.map_cons, List.cons_append, leftovers, afterOne, leftovers_literal parts literal]
      by_cases hd : d = c
      · simp [hd]
      · simp [hd, Ne.symm hd]

theorem leftovers_lineEnd_of_cons {c : Char} (h : (c :: rest).all isBlank = false) :
    leftovers [.lineEnd] (c :: rest) = [] := by
  have hnot : ¬(c :: rest = [] ∨ c :: rest = ['\n']) := by
    rintro (hnil | hfeed)
    · cases hnil
    · rw [hfeed] at h
      exact absurd h (by decide)
  rw [leftovers, if_neg hnot]

theorem head?_leftovers_blanks : ∀ text : List Char,
    (leftovers [.many isBlank, .lineEnd] text).head? = if text.all isBlank then some [] else none
  | [] => rfl
  | c :: rest => by
      have ih := head?_leftovers_blanks rest
      rw [leftovers] at ih ⊢
      rw [afterMany, List.head?_append]
      by_cases hall : (c :: rest).all isBlank = true
      · obtain ⟨hc, hrest⟩ : isBlank c = true ∧ rest.all isBlank = true := by simpa using hall
        rw [if_pos hc, ih, if_pos hrest, if_pos hall, Option.some_or]
      · rw [leftovers_lineEnd_of_cons (by simpa using hall), if_neg hall]
        by_cases hc : isBlank c = true
        · have hrest : ¬rest.all isBlank = true := fun h => hall (by simp [hc, h])
          rw [if_pos hc, ih, if_neg hrest]
          rfl
        · rw [if_neg hc]
          rfl

theorem head?_leftovers_address : ∀ text : List Char,
    (leftovers [.many fun c => !isBlank c, .many isBlank, .lineEnd] text).head?
      = if (text.dropWhile fun c => !isBlank c).all isBlank then some [] else none
  | [] => rfl
  | c :: rest => by
      have ih := head?_leftovers_address rest
      rw [leftovers] at ih ⊢
      rw [afterMany, List.head?_append, head?_leftovers_blanks]
      by_cases hc : isBlank c = true
      · rw [List.dropWhile_cons_of_neg (by simp [hc]), if_neg (by simp [hc])]
        rfl
      · have hnot : ¬(c :: rest).all isBlank = true := by simp [hc]
        rw [List.dropWhile_cons_of_pos (by simpa using hc), if_pos (by simpa using hc), ih,
          if_neg hnot, Option.or_none]

theorem head?_leftovers_opening (text : List Char) :
    (leftovers ((mapCommentOpening.map fun c => .one (· = c))
        ++ [.many fun c => !isBlank c, .many isBlank, .lineEnd]) text).head?
      = if isMapComment text then some [] else none := by
  rw [leftovers_literal, isMapComment]
  by_cases hopening : mapCommentOpening.isPrefixOf text = true
  · rw [if_pos hopening, head?_leftovers_address, hopening, Bool.true_and]
  · rw [if_neg hopening, Bool.eq_false_iff.mpr hopening, Bool.false_and]
    rfl

/-- A match that begins a text is the text itself, when it has the form. -/
theorem head?_leftovers_mapComment (text : List Char) :
    (leftovers mapCommentParts text).head? = if endsInMapComment text then some [] else none := by
  rw [mapCommentParts, List.cons_append, leftovers, List.head?_append, head?_leftovers_opening]
  cases text with
  | nil => rfl
  | cons c rest =>
      rw [afterOne]
      by_cases hc : c = '\n'
      · -- with the line feed taken the rest is the comment, without it nothing is
        subst hc
        have hnot : isMapComment ('\n' :: rest) = false := rfl
        rw [if_pos (decide_eq_true rfl), head?_leftovers_opening, hnot, endsInMapComment]
        exact Option.or_none
      · have hends : endsInMapComment (c :: rest) = isMapComment (c :: rest) := by
          unfold endsInMapComment
          split
          · rename_i heq
            exact absurd (List.cons.inj heq).1 hc
          · rfl
        rw [if_neg (by simpa using hc), hends]
        rfl

theorem removeAll_mapComment : ∀ text : List Char,
    removeAll mapCommentParts text = dropMapComment text
  | [] => by rw [removeAll, dropMapComment]
  | c :: rest => by
      rw [removeAll, dropMapComment, head?_leftovers_mapComment]
      by_cases hends : endsInMapComment (c :: rest) = true
      · simp only [hends, if_true, List.length_nil, Nat.zero_le, removeAll]
      · simp only [hends, removeAll_mapComment rest]
        rfl

/-! ## Positions -/

end Minification

/-- A text that goes on behind an offset has the same position there. -/
theorem LineIndex.position_of_prefix {x y : LineIndex} (h : x.text.toList <+: y.text.toList)
    {offset : Nat} (hle : offset ≤ x.text.length) : x.position offset = y.position offset := by
  obtain ⟨rest, hrest⟩ := h
  have htake : y.text.toList.take offset = x.text.toList.take offset := by
    rw [← hrest, List.take_append_of_le_length (by rwa [String.length_toList])]
  rw [position_eq_count, position_eq_count, htake]

namespace Minification

/-- **The longest comment at the end goes, and nothing else.** Code is what is left of it and a
comment behind it on a line of its own, whatever the code is. Of any text the longest ending that is
such a comment is dropped, with a line feed in front of it, and nothing of a text without one. This
is what a search for the comment's pattern removes. Offsets in what is left keep their
positions, and positions of what is left lead to the same offsets. -/
theorem dropMapComment_drops_longest :
    (∀ code address blanks : List Char, (∀ c ∈ address, isBlank c = false) →
      (∀ c ∈ blanks, isBlank c = true) →
        dropMapComment (code ++ '\n' :: (mapCommentOpening ++ (address ++ blanks))) = code)
      ∧ ∀ text : List Char,
        (∃ ending, text = dropMapComment text ++ ending
          ∧ (IsMapEnding ending
              ∧ (∀ other, other <:+ text → IsMapEnding other → other <:+ ending)
            ∨ ending = [] ∧ ∀ other, other <:+ text → ¬IsMapEnding other))
        ∧ removeAll mapCommentParts text = dropMapComment text
        ∧ ∀ offset : Nat, offset ≤ (dropMapComment text).length →
          (LineIndex.ofText (String.ofList (dropMapComment text))).position offset
              = (LineIndex.ofText (String.ofList text)).position offset
            ∧ (LineIndex.ofText (String.ofList (dropMapComment text))).offset
              ((LineIndex.ofText (String.ofList text)).position offset) = .ok offset := by
  refine ⟨fun code address blanks haddress hblanks => ?_, fun text => ?_⟩
  · exact dropMapComment_append
      (isMapComment_iff.mpr ⟨address, blanks, rfl, haddress, hblanks⟩) code
  refine ⟨dropMapComment_cases text, removeAll_mapComment text, fun offset hle => ?_⟩
  obtain ⟨ending, heq, -⟩ := dropMapComment_cases text
  have hprefix : (LineIndex.ofText (String.ofList (dropMapComment text))).text.toList
      <+: (LineIndex.ofText (String.ofList text)).text.toList := by
    simpa only [LineIndex.ofText, String.toList_ofList] using ⟨ending, heq.symm⟩
  have hwithin : offset ≤ (String.ofList (dropMapComment text)).length := by
    rwa [String.length_ofList]
  have hsame := LineIndex.position_of_prefix hprefix hwithin
  exact ⟨hsame, hsame ▸ LineIndex.offset_position (Int.natCast_nonneg _) (Int.ofNat_le.mpr hwithin)⟩

/-- The code ends in a comment itself, and in a line feed. -/
theorem dropMapComment_drops_longest_behindComment :
    (∀ c ∈ "b.map".toList, isBlank c = false) ∧ (∀ c ∈ "\n \n".toList, isBlank c = true)
      ∧ dropMapComment ("a;\n//# sourceMappingURL=a.map\n".toList
          ++ '\n' :: (mapCommentOpening ++ ("b.map".toList ++ "\n \n".toList)))
        = "a;\n//# sourceMappingURL=a.map\n".toList := by
  have haddress : ∀ c ∈ "b.map".toList, isBlank c = false :=
    List.forall_mem_iff_getElem.mpr (by decide +kernel)
  have hblanks : ∀ c ∈ "\n \n".toList, isBlank c = true :=
    List.all_eq_true.mp (by decide +kernel)
  exact ⟨haddress, hblanks, dropMapComment_drops_longest.1 _ _ _ haddress hblanks⟩

end Minification

end BundleSize
