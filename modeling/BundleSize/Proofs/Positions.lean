import BundleSize.Offsets.LineIndex

/-!
# Positions of offsets

The starts of a text's lines are the sums of the lengths of the lines before
them, each with its line feed (`lineStarts_eq`, `Text.startOf`). From this
every offset from zero on has exactly one line that it lies in
(`LineIndex.exists_line`), and the binary search finds it
(`LineIndex.position_eq`).

Two consequences carry everything that is said about translation. Positions
are ordered as their offsets are (`LineIndex.position_before_iff`), also
beyond the end of the text. And within the text the way back is exact
(`LineIndex.offset_position`). A position inside a line is the position of an
offset (`LineIndex.exists_offset_of_inLine`), so the two orders agree on all
such positions.
-/

namespace BundleSize

/-! ## Where lines start -/

namespace Text

/-- The characters of lines that are each followed by a line feed. -/
def fedLength : List String → Nat
  | [] => 0
  | line :: rest => line.length + 1 + fedLength rest

/-- The offset of the line with index `n`: the lines before it with their line feeds. -/
def startOf (text : String) (n : Nat) : Nat := fedLength ((lines text).take n)

/-- The position is inside a line of the text, the end of the line included. -/
def InLine (text : String) (p : Position) : Prop :=
  ∃ (n : Nat) (line : String),
    (lines text)[n]? = some line ∧ p.line = n + 1 ∧ 0 ≤ p.column ∧ p.column ≤ line.length

/-- The position is that of a character of a line. -/
def AtCharacter (text : String) (p : Position) : Prop :=
  ∃ (n : Nat) (line : String),
    (lines text)[n]? = some line ∧ p.line = n + 1 ∧ 0 ≤ p.column ∧ p.column < line.length

theorem atCharacter_iff {text : String} {p : Position} :
    AtCharacter text p ↔ 0 ≤ p.column ∧ InLine text ⟨p.line, p.column + 1⟩ := by
  constructor
  · rintro ⟨n, line, hline, hp, hnonneg, hlt⟩
    exact ⟨hnonneg, n, line, hline, hp, Int.add_nonneg hnonneg (by decide), hlt⟩
  · rintro ⟨hnonneg, n, line, hline, hp, -, hlt⟩
    exact ⟨n, line, hline, hp, hnonneg, hlt⟩

theorem AtCharacter.inLine {text : String} {p : Position} (h : AtCharacter text p) :
    InLine text p := by
  obtain ⟨n, line, hline, hp, hnonneg, hlt⟩ := h
  exact ⟨n, line, hline, hp, hnonneg, Int.le_of_lt hlt⟩

instance (text : String) (p : Position) : Decidable (InLine text p) :=
  decidable_of_iff (((lines text)[(p.line - 1).toNat]?.any fun line =>
    1 ≤ p.line ∧ 0 ≤ p.column ∧ p.column ≤ line.length) = true) <| by
      simp only [Option.any_eq_true, decide_eq_true_eq]
      constructor
      · rintro ⟨line, hline, hp, hcolumn⟩
        exact ⟨(p.line - 1).toNat, line, hline, by omega, hcolumn⟩
      · rintro ⟨n, line, hline, hp, hcolumn⟩
        have hindex : (p.line - 1).toNat = n := by omega
        exact ⟨line, hindex ▸ hline, by omega, hcolumn⟩

instance (text : String) (p : Position) : Decidable (AtCharacter text p) :=
  decidable_of_iff _ atCharacter_iff.symm

/-- The offsets of lines, the first of which starts at `at_`. -/
def startsFrom (at_ : Nat) : List String → List Nat
  | [] => []
  | line :: rest => at_ :: startsFrom (at_ + (line.length + 1)) rest

theorem cons_lineStartsFrom (at_ : Nat) (s : List Char) :
    at_ :: lineStartsFrom at_ s = startsFrom at_ ((splitAt '\n' s).map String.ofList) := by
  induction s generalizing at_ with
  | nil => rfl
  | cons c rest ih =>
      have ih := ih (at_ + 1)
      simp only [lineStartsFrom, splitAt]
      cases hpieces : splitAt '\n' rest with
      | nil => exact absurd hpieces (splitAt_ne_nil _ _)
      | cons piece pieces =>
          rw [hpieces] at ih
          by_cases hc : c = '\n'
          · simp only [hc, if_true, List.map_cons, startsFrom, ih]
            rfl
          · have htail : lineStartsFrom (at_ + 1) rest
                = startsFrom (at_ + 1 + (piece.length + 1)) (pieces.map String.ofList) := by
              simpa using (List.cons.inj ih).2
            simp only [hc, if_false, List.map_cons, startsFrom, htail, String.length_ofList,
              List.length_cons]
            congr 2
            omega

theorem startsFrom_eq (at_ : Nat) (lines : List String) :
    startsFrom at_ lines = (List.range lines.length).map fun n =>
      at_ + fedLength (lines.take n) := by
  induction lines generalizing at_ with
  | nil => rfl
  | cons line rest ih =>
      rw [startsFrom, ih, List.length_cons, List.range_succ_eq_map, List.map_cons, List.map_map]
      congr 1
      refine List.map_congr_left fun n _ => ?_
      simp only [Function.comp_apply, List.take_succ_cons, fedLength]
      omega

theorem lineStarts_eq (text : String) :
    lineStarts text = (List.range (lines text).length).map (startOf text) := by
  rw [lineStarts, cons_lineStartsFrom, startsFrom_eq]
  refine List.map_congr_left fun n _ => ?_
  rw [Nat.zero_add]
  rfl

theorem fedLength_append (ls ms : List String) :
    fedLength (ls ++ ms) = fedLength ls + fedLength ms := by
  induction ls with
  | nil => exact (Nat.zero_add _).symm
  | cons line ls ih =>
      rw [List.cons_append, fedLength, fedLength, ih]
      omega

theorem startOf_succ {text : String} {n : Nat} {line : String}
    (h : (lines text)[n]? = some line) :
    startOf text (n + 1) = startOf text n + (line.length + 1) := by
  rw [startOf, List.take_add_one, h, Option.toList_some, fedLength_append]
  rfl

/-- A line starts behind all lines before it. -/
theorem startOf_lt (text : String) {n m : Nat} (hnm : n < m) (hm : m ≤ (lines text).length) :
    startOf text n < startOf text m := by
  induction m with
  | zero => exact absurd hnm (Nat.not_lt_zero n)
  | succ m ih =>
      have hline := List.getElem?_eq_getElem (l := lines text) (i := m) (by omega)
      have hstep := startOf_succ hline
      rcases Nat.lt_or_eq_of_le (Nat.le_of_lt_succ hnm) with hlt | rfl
      · have := ih hlt (by omega)
        omega
      · omega

/-- Every line in front of a line takes one character at least, its line feed. -/
theorem le_startOf (text : String) {n : Nat} (hn : n ≤ (lines text).length) :
    n ≤ startOf text n := by
  induction n with
  | zero => exact Nat.zero_le _
  | succ n ih => exact Nat.lt_of_le_of_lt (ih (by omega)) (startOf_lt text (Nat.lt_succ_self n) hn)

theorem startOf_le (text : String) {n m : Nat} (hnm : n ≤ m) (hm : m ≤ (lines text).length) :
    startOf text n ≤ startOf text m := by
  rcases Nat.lt_or_eq_of_le hnm with hlt | rfl
  · exact Nat.le_of_lt (startOf_lt text hlt hm)
  · exact Nat.le_refl _

/-- Behind the last line a line feed is counted that the text does not have. -/
theorem startOf_length (text : String) : startOf text (lines text).length = text.length + 1 := by
  have hjoined : ∀ s : List Char,
      fedLength ((splitAt '\n' s).map String.ofList) = s.length + 1 := by
    intro s
    induction s with
    | nil => rfl
    | cons c rest ih =>
        simp only [splitAt]
        cases hpieces : splitAt '\n' rest with
        | nil => exact absurd hpieces (splitAt_ne_nil _ _)
        | cons piece pieces =>
            rw [hpieces] at ih
            by_cases hc : c = '\n'
            · simp only [hc, if_true, List.map_cons, fedLength, List.length_cons] at ih ⊢
              rw [ih, String.length_ofList, List.length_nil]
              omega
            · simp only [hc, if_false, List.map_cons, fedLength, String.length_ofList,
                List.length_cons] at ih ⊢
              omega
  rw [startOf, List.take_length, lines, hjoined, String.length_toList]

theorem lines_ne_nil (text : String) : 0 < (lines text).length := by
  have h := splitAt_ne_nil '\n' text.toList
  rw [lines, List.length_map]
  exact List.length_pos_iff.mpr h

end Text

/-! ## The line of an offset -/

namespace LineIndex

variable (x : LineIndex)

theorem size_starts : x.starts.size = (Text.lines x.text).length := by
  simp [x.starts_eq, Text.lineStarts_eq]

theorem getElem_starts {n : Nat} (h : n < x.starts.size) : x.starts[n] = Text.startOf x.text n := by
  simp [x.starts_eq, Text.lineStarts_eq]

theorem start?_natCast {n : Nat} (h : n < (Text.lines x.text).length) :
    x.start? n = some (Text.startOf x.text n) := by
  have hsize : n < x.starts.size := by
    rw [size_starts]
    exact h
  rw [start?, if_pos (Int.natCast_nonneg n), Int.toNat_natCast, Array.getElem?_eq_getElem hsize,
    getElem_starts]

/-- The offset lies in the line with index `n`, or behind its end if it is the last line. -/
structure Lies (n : Nat) (offset : Int) : Prop where
  line : n < (Text.lines x.text).length
  start_le : Text.startOf x.text n ≤ offset
  lt_next : n + 1 < (Text.lines x.text).length → offset < Text.startOf x.text (n + 1)

variable {x}

theorem exists_line {offset : Int} (h : 0 ≤ offset) : ∃ n, x.Lies n offset := by
  -- the last line whose start the offset reaches, searched for from line `n` on
  have hsearch : ∀ k n : Nat, n + k + 1 = (Text.lines x.text).length →
      (Text.startOf x.text n : Int) ≤ offset → ∃ m, x.Lies m offset := by
    intro k
    induction k with
    | zero => exact fun n hn hle => ⟨n, by omega, hle, fun hlt => absurd hlt (by omega)⟩
    | succ k ih =>
        intro n hn hle
        by_cases hnext : (Text.startOf x.text (n + 1) : Int) ≤ offset
        · exact ih (n + 1) (by omega) hnext
        · exact ⟨n, by omega, hle, fun _ => by omega⟩
  have hpos := Text.lines_ne_nil x.text
  exact hsearch ((Text.lines x.text).length - 1) 0 (by omega) h

theorem partitioned_starts (x : LineIndex) (offset : Int) :
    Partitioned x.starts fun start => (start : Int) ≤ offset := by
  intro i j hj hij hle
  have hi : i < x.starts.size := by omega
  have hlen := x.size_starts
  simp only [getElem_starts, decide_eq_true_eq] at hle ⊢
  have := Text.startOf_le x.text hij (by omega)
  omega

/-- The binary search finds the line that an offset lies in. -/
theorem Lies.linesUpTo_eq {n : Nat} {offset : Int} (h : x.Lies n offset) :
    x.linesUpTo offset = n + 1 := by
  obtain ⟨hle, hbefore, hfrom⟩ := partitionPoint_spec (x.partitioned_starts offset)
  rw [← linesUpTo] at hle hbefore hfrom
  have hlen := x.size_starts
  have hline := h.line
  simp only [getElem_starts, decide_eq_true_eq, decide_eq_false_iff_not] at hbefore hfrom
  have hreached : n < x.linesUpTo offset := by
    refine Nat.lt_of_not_le fun hge => ?_
    exact hfrom n (by omega) hge h.start_le
  refine Nat.le_antisymm (Nat.le_of_not_lt fun hgt => ?_) hreached
  have hnext := hbefore (n + 1) (by omega) hgt
  have := h.lt_next (by omega)
  omega

theorem Lies.position_eq {n : Nat} {offset : Int} (h : x.Lies n offset) :
    x.position offset = ⟨n + 1, offset - Text.startOf x.text n⟩ := by
  have hindex : ((n + 1 : Nat) : Int) - 1 = (n : Int) := by omega
  rw [position, h.linesUpTo_eq]
  simp only [hindex, start?_natCast x h.line, Option.getD_some]
  congr 1

/-- The numbers of a position are no larger than the offset, except that lines count from one. -/
theorem position_le {offset : Int} (h : 0 ≤ offset) :
    0 ≤ (x.position offset).line ∧ (x.position offset).line ≤ offset + 1
      ∧ 0 ≤ (x.position offset).column ∧ (x.position offset).column ≤ offset := by
  obtain ⟨n, hn⟩ := exists_line (x := x) h
  have hstart := hn.start_le
  have hbefore := Text.le_startOf x.text (Nat.le_of_lt hn.line)
  rw [hn.position_eq]
  simp only
  omega

/-! ## The order of positions -/

theorem position_before {a b : Int} (ha : 0 ≤ a) (hab : a < b) :
    (x.position a).before (x.position b) = true := by
  obtain ⟨n, hn⟩ := exists_line (x := x) ha
  obtain ⟨m, hm⟩ := exists_line (x := x) (Int.le_of_lt (Int.lt_of_le_of_lt ha hab))
  have hnm : n ≤ m := by
    refine Nat.le_of_not_lt fun hlt => ?_
    have hnext := hm.lt_next (by have := hn.line; omega)
    have hstart := hn.start_le
    have := Text.startOf_le x.text (show m + 1 ≤ n from hlt) (Nat.le_of_lt hn.line)
    omega
  rw [hn.position_eq, hm.position_eq, Position.before_iff]
  rcases Nat.lt_or_eq_of_le hnm with hlt | rfl
  · exact Or.inl (by simp only; omega)
  · exact Or.inr ⟨rfl, by simp only; omega⟩

theorem position_before_iff {a b : Int} (ha : 0 ≤ a) (hb : 0 ≤ b) :
    (x.position a).before (x.position b) = true ↔ a < b := by
  refine ⟨fun h => Int.lt_of_not_ge fun hge => ?_, position_before ha⟩
  rcases Int.lt_or_eq_of_le hge with hlt | rfl
  · have hback := position_before (x := x) hb hlt
    rw [Position.before_iff] at h hback
    omega
  · rw [Position.before_iff] at h
    omega

theorem position_upTo_iff {a b : Int} (ha : 0 ≤ a) (hb : 0 ≤ b) :
    (x.position a).upTo (x.position b) = true ↔ a ≤ b := by
  rw [Position.upTo, Bool.not_eq_true', ← Bool.not_eq_true, position_before_iff hb ha]
  omega

theorem position_inj {a b : Int} (ha : 0 ≤ a) (hb : 0 ≤ b) (h : x.position a = x.position b) :
    a = b := by
  rcases Int.lt_trichotomy a b with hlt | heq | hgt
  · have hbefore := position_before (x := x) ha hlt
    rw [h, Position.before_iff] at hbefore
    omega
  · exact heq
  · have hbefore := position_before (x := x) hb hgt
    rw [h, Position.before_iff] at hbefore
    omega

/-! ## The way back -/

/-- Within the text, the offset of an offset's position is that offset. -/
theorem offset_position {offset : Int} (h : 0 ≤ offset) (hle : offset ≤ x.length) :
    x.offset (x.position offset) = .ok offset := by
  obtain ⟨n, hn⟩ := exists_line (x := x) h
  have hline := hn.line
  have hindex : ((n : Int) + 1) - 1 = (n : Int) := by omega
  rw [hn.position_eq, LineIndex.offset]
  simp only [hindex]
  rw [if_pos (by rw [size_starts]; omega), start?_natCast x hn.line]
  have hstart := hn.start_le
  have hmin : min ((Text.startOf x.text n : Int) + (offset - Text.startOf x.text n)) x.length
      = offset := by omega
  simp only [hmin]

/-- The offset of a proper position: columns beyond the end of a line run on into the next one, and
the end of the text bounds all of them. -/
theorem offset_eq_of_proper (x : LineIndex) {p : Position} (h : p.Proper) :
    x.offset p = .ok (if (Text.lines x.text).length < p.line then (x.length : Int)
      else min (Text.startOf x.text (p.line - 1).toNat + p.column) x.length) := by
  obtain ⟨hline, -⟩ := h
  obtain ⟨n, hn⟩ := Int.eq_ofNat_of_zero_le (Int.sub_nonneg_of_le hline)
  rw [LineIndex.offset, size_starts, hn]
  by_cases hlt : n < (Text.lines x.text).length
  · rw [if_pos (by omega), if_neg (by omega), start?_natCast x hlt, Int.toNat_natCast]
  · rw [if_neg (by omega), if_pos (by omega)]

/-- A proper position has an offset in the text, also when it lies outside of the text's lines. -/
theorem offset_of_proper (x : LineIndex) {p : Position} (h : p.Proper) :
    ∃ offset, x.offset p = .ok offset ∧ 0 ≤ offset ∧ offset ≤ x.length := by
  have hcolumn : 0 ≤ p.column := h.2
  refine ⟨_, x.offset_eq_of_proper h, ?_⟩
  split <;> omega

theorem exists_offset_of_inLine {p : Position} (h : Text.InLine x.text p) :
    ∃ offset : Int, 0 ≤ offset ∧ offset ≤ x.length ∧ x.position offset = p := by
  obtain ⟨n, line, hline, hp, hnonneg, hle⟩ := h
  have hn : n < (Text.lines x.text).length := (List.getElem?_eq_some_iff.mp hline).1
  have hstep := Text.startOf_succ hline
  have hend : Text.startOf x.text (n + 1) ≤ x.text.length + 1 := by
    rw [← Text.startOf_length]
    exact Text.startOf_le x.text hn (Nat.le_refl _)
  have hlies : x.Lies n (Text.startOf x.text n + p.column) :=
    ⟨hn, by omega, fun _ => by omega⟩
  refine ⟨Text.startOf x.text n + p.column, by omega, ?_, ?_⟩
  · rw [x.length_eq]
    omega
  · rw [hlies.position_eq]
    obtain ⟨line', column⟩ := p
    simp only [Position.mk.injEq] at hp ⊢
    omega

theorem exists_offset_of_atCharacter {p : Position} (h : Text.AtCharacter x.text p) :
    ∃ offset : Int, 0 ≤ offset ∧ offset < x.length ∧ x.position offset = p := by
  -- the next column is still inside the line, hence at most at the end of the text
  obtain ⟨next, hnonneg, hbound, heq⟩ := exists_offset_of_inLine (Text.atCharacter_iff.mp h).2
  obtain ⟨offset, hoffset, hle, rfl⟩ := exists_offset_of_inLine h.inLine
  have hbefore : (x.position offset).before (x.position next) = true := by
    rw [heq, Position.before_iff]
    exact Or.inr ⟨rfl, by simp only; omega⟩
  have := (position_before_iff hoffset hnonneg).mp hbefore
  exact ⟨offset, hoffset, by omega, rfl⟩

end LineIndex

end BundleSize
