import BundleSize.Proofs.Positions
import Mathlib.Algebra.Ring.Nat
import Mathlib.Data.List.DropRight

/-!
# Positions by counting line feeds

The index of a text searches its table of line starts. Reading the text from its
beginning tells the same positions: the line is told by the number of line feeds
before the offset, and the column counts from behind the last of them. Both follow
from one equation. What stands before an offset are the lines before its own, each
with its line feed, and then a part of its own line, in which there is none
(`LineIndex.Lies.take_eq`).

The equation is about offsets in the text. Behind the end nothing more is read, so
such an offset has the line of the end, and its column runs on.
-/

namespace BundleSize

namespace Text

/-- Lines, each followed by its line feed. -/
def fed (ls : List String) : List Char := ls.flatMap fun line => line.toList ++ ['\n']

theorem fed_append (ls ms : List String) : fed (ls ++ ms) = fed ls ++ fed ms :=
  List.flatMap_append ..

theorem length_fed (ls : List String) : (fed ls).length = fedLength ls := by
  induction ls with
  | nil => rfl
  | cons line ls ih =>
      show (line.toList ++ ['\n'] ++ fed ls).length = line.length + 1 + fedLength ls
      rw [List.length_append, List.length_append, String.length_toList, ih]
      rfl

theorem fedLength_eq_sum (ls : List String) :
    fedLength ls = (ls.map fun line => line.length + 1).sum := by
  induction ls with
  | nil => rfl
  | cons line ls ih => rw [fedLength, ih, List.map_cons, List.sum_cons]

theorem fed_split {ls : List String} {n : Nat} {line : String} (h : ls[n]? = some line) :
    fed ls = fed (ls.take n) ++ (line.toList ++ '\n' :: fed (ls.drop (n + 1))) := by
  obtain ⟨hn, rfl⟩ := List.getElem?_eq_some_iff.mp h
  conv_lhs => rw [← List.take_append_drop n ls, fed_append, List.drop_eq_getElem_cons hn]
  show _ ++ (ls[n].toList ++ ['\n'] ++ fed (ls.drop (n + 1))) = _
  rw [List.append_assoc, List.singleton_append]

/-- The lines of a text hold all of it. -/
theorem fed_lines (text : String) : fed (lines text) = text.toList ++ ['\n'] := by
  rw [lines]
  induction text.toList with
  | nil => rfl
  | cons c rest ih =>
      simp only [splitAt]
      cases hpieces : splitAt '\n' rest with
      | nil => exact absurd hpieces (splitAt_ne_nil _ _)
      | cons piece pieces =>
          rw [hpieces] at ih
          by_cases hc : c = '\n'
          · simpa [hc, fed] using ih
          · simpa [hc, fed] using ih

/-- No piece of a text holds what parts it from the others. -/
theorem not_mem_of_mem_splitAt {separator : Char} {piece : List Char} : ∀ {s : List Char},
    piece ∈ splitAt separator s → separator ∉ piece
  | [], h => by
      obtain rfl := List.mem_singleton.mp h
      exact List.not_mem_nil
  | c :: rest, h => by
      simp only [splitAt] at h
      cases hpieces : splitAt separator rest with
      | nil => exact absurd hpieces (splitAt_ne_nil _ _)
      | cons first pieces =>
          have ih : ∀ p ∈ first :: pieces, separator ∉ p := by
            intro p hp
            exact not_mem_of_mem_splitAt (hpieces ▸ hp)
          rw [hpieces] at h
          by_cases hc : c = separator
          · simp only [hc, if_true] at h
            rcases List.mem_cons.mp h with rfl | h
            · exact List.not_mem_nil
            · exact ih _ h
          · simp only [hc, if_false] at h
            rcases List.mem_cons.mp h with rfl | h
            · exact List.not_mem_cons_of_ne_of_not_mem (Ne.symm hc) (ih _ (List.mem_cons_self ..))
            · exact ih _ (List.mem_cons_of_mem _ h)

theorem lineFeed_not_mem_of_mem_lines {text line : String} (h : line ∈ lines text) :
    '\n' ∉ line.toList := by
  obtain ⟨piece, hpiece, rfl⟩ := List.mem_map.mp h
  rw [String.toList_ofList]
  exact not_mem_of_mem_splitAt hpiece

section

variable {ls : List String} {piece : List Char}

theorem count_fed_append (hls : ∀ line ∈ ls, '\n' ∉ line.toList) (hpiece : '\n' ∉ piece) :
    (fed ls ++ piece).count '\n' = ls.length := by
  induction ls with
  | nil => exact List.count_eq_zero.mpr hpiece
  | cons line ls ih =>
      have hline := List.count_eq_zero.mpr (hls line (List.mem_cons_self ..))
      have ih := ih fun l hl => hls l (List.mem_cons_of_mem _ hl)
      show (line.toList ++ ['\n'] ++ fed ls ++ piece).count '\n' = ls.length + 1
      rw [List.append_assoc, List.count_append, List.count_append, hline, ih]
      exact Nat.add_comm 1 _

/-- Behind the last line feed the piece begins. -/
theorem rdropWhile_fed_append (hpiece : '\n' ∉ piece) :
    (fed ls ++ piece).rdropWhile (· ≠ '\n') = fed ls := by
  have hreversed : ∀ c ∈ piece.reverse, decide (c ≠ '\n') = true := by
    intro c hc
    simp only [decide_eq_true_eq]
    rintro rfl
    exact hpiece (List.mem_reverse.mp hc)
  rw [List.rdropWhile, List.reverse_append, List.dropWhile_append_of_pos hreversed]
  show (fed ls).rdropWhile _ = fed ls
  rcases List.eq_nil_or_concat ls with rfl | ⟨ls, line, rfl⟩
  · rfl
  · have hfed : fed (ls.concat line) = fed ls ++ line.toList ++ ['\n'] := by
      simp [fed]
    rw [hfed, List.rdropWhile_concat_neg _ _ _ (by simp)]

end

end Text

namespace LineIndex

variable {x : LineIndex}

/-- What stands before an offset of the text: the lines before its own, and a part of its own. -/
theorem Lies.take_eq {n offset : Nat} (h : x.Lies n offset) (hle : offset ≤ x.text.length) :
    ∃ piece, '\n' ∉ piece
      ∧ x.text.toList.take offset = Text.fed ((Text.lines x.text).take n) ++ piece := by
  obtain ⟨line, hline⟩ : ∃ line, (Text.lines x.text)[n]? = some line :=
    ⟨_, List.getElem?_eq_getElem h.line⟩
  have hlength : (Text.fed ((Text.lines x.text).take n)).length = Text.startOf x.text n :=
    Text.length_fed _
  have hwithin : offset - Text.startOf x.text n ≤ line.toList.length := by
    have hsucc := Text.startOf_succ hline
    rcases Nat.lt_or_ge (n + 1) (Text.lines x.text).length with hlt | hge
    · have := h.lt_next hlt
      simp only [String.length_toList]
      omega
    · have hlast : n + 1 = (Text.lines x.text).length := Nat.le_antisymm h.line hge
      rw [hlast, Text.startOf_length] at hsucc
      simp only [String.length_toList]
      omega
  refine ⟨line.toList.take (offset - Text.startOf x.text n), fun hmem => ?_, ?_⟩
  · exact Text.lineFeed_not_mem_of_mem_lines (List.mem_of_getElem? hline)
      (List.mem_of_mem_take hmem)
  · -- the line feed that the text lacks at its end is not reached
    have hstart := h.start_le
    have htake : x.text.toList.take offset = (x.text.toList ++ ['\n']).take offset := by
      rw [List.take_append_of_le_length (by rwa [String.length_toList])]
    rw [htake, ← Text.fed_lines, Text.fed_split hline, List.take_append, hlength,
      List.take_of_length_le (by omega), List.take_append_of_le_length hwithin]

/-- Behind the end of the text is still its last line. -/
theorem Lies.of_length_lt {n offset : Nat} (h : x.Lies n offset) (hlt : x.text.length < offset) :
    x.Lies n x.text.length := by
  have hend := Text.startOf_length x.text
  have hstart := Text.startOf_lt x.text h.line (Nat.le_refl _)
  refine ⟨h.line, by omega, fun hnext => ?_⟩
  have := h.lt_next hnext
  omega

/-- The position of an offset by the line feeds before it. -/
theorem position_eq_count (x : LineIndex) (offset : Nat) :
    x.position offset = ⟨1 + (x.text.toList.take offset).count '\n',
      offset - ((x.text.toList.take offset).rdropWhile (· ≠ '\n')).length⟩ := by
  obtain ⟨n, hn⟩ := exists_line (x := x) (Int.natCast_nonneg offset)
  have hread : ∃ piece, '\n' ∉ piece
      ∧ x.text.toList.take offset = Text.fed ((Text.lines x.text).take n) ++ piece := by
    rcases Nat.lt_or_ge x.text.length offset with hlt | hle
    · have htake : x.text.toList.take offset = x.text.toList.take x.text.length := by
        rw [List.take_of_length_le (by simp only [String.length_toList]; omega),
          List.take_of_length_le (by rw [String.length_toList])]
      rw [htake]
      exact (hn.of_length_lt hlt).take_eq (Nat.le_refl _)
    · exact hn.take_eq hle
  obtain ⟨piece, hpiece, htake⟩ := hread
  have hls : ∀ line ∈ (Text.lines x.text).take n, '\n' ∉ line.toList := fun line hline =>
    Text.lineFeed_not_mem_of_mem_lines (List.mem_of_mem_take hline)
  rw [hn.position_eq, htake, Text.count_fed_append hls hpiece, Text.rdropWhile_fed_append hpiece,
    Text.length_fed, List.length_take, Nat.min_eq_left (Nat.le_of_lt hn.line), Int.add_comm 1]
  rfl

/-- **Positions and offsets are told by counting.** The line of an offset is one more than the line
feeds before it, and its column counts from behind the last of them. The offset of a position is
the characters of the lines before it, each with its line feed, and the column, but no more than the
text; a line behind the last one stands at the end. So the two undo each other: for every offset of
the text, and for every position inside a line, its end included. -/
theorem position_and_offset_by_counting (x : LineIndex) :
    (∀ offset : Nat, x.position offset = ⟨1 + (x.text.toList.take offset).count '\n',
        offset - ((x.text.toList.take offset).rdropWhile (· ≠ '\n')).length⟩)
      ∧ (∀ line column : Nat, 1 ≤ line → x.offset ⟨line, column⟩ = .ok
        (if line ≤ (Text.lines x.text).length then
          min ((((Text.lines x.text).take (line - 1)).map fun l => l.length + 1).sum + column)
            x.text.length
        else x.text.length : Nat))
      ∧ (∀ offset : Nat, offset ≤ x.text.length → x.offset (x.position offset) = .ok offset)
      ∧ ∀ p, Text.InLine x.text p → ∃ offset, x.offset p = .ok offset ∧ x.position offset = p := by
  refine ⟨x.position_eq_count, fun line column hline => ?_, fun offset hle => ?_, fun p hp => ?_⟩
  · have hproper : Position.Proper ⟨line, column⟩ := ⟨by simp only; omega, Int.natCast_nonneg _⟩
    have hindex : ((line : Int) - 1).toNat = line - 1 := by omega
    rw [x.offset_eq_of_proper hproper, ← Text.fedLength_eq_sum, ← Text.startOf, x.length_eq]
    simp only [hindex]
    by_cases hle : line ≤ (Text.lines x.text).length
    · rw [if_neg (by omega), if_pos hle]
      congr 1
      omega
    · rw [if_pos (by omega), if_neg hle]
  · exact offset_position (Int.natCast_nonneg _) (by rw [x.length_eq]; omega)
  · obtain ⟨offset, hnonneg, hle, rfl⟩ := exists_offset_of_inLine hp
    exact ⟨offset, offset_position hnonneg hle, rfl⟩

/-- Behind a line feed at the end of a text there is one more line, which is empty. -/
example : (ofText "ab\n\nc\n").position 6 = ⟨4, 0⟩ := by decide +kernel

end LineIndex

end BundleSize
