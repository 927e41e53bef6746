import BundleSize.Syntax.ByteIndex
import BundleSize.Syntax.Layout

/-!
# Characters by their bytes

The index of a text lists the ends of its wide characters, each with the
excess of bytes up to there. Behind a prefix of the text, the wide characters
of the prefix have ended and no others have (`wideEndsFrom_append`), and the
last of them holds the excess of the whole prefix (`excess_wideEndsFrom`). So
a byte offset between two characters is converted to the number of characters
before it (`ByteIndex.toChar_byteLength`), and the order of such offsets is
kept (`ByteIndex.toChar_le`).
-/

namespace BundleSize

namespace Text

theorem byteLength_append (s t : List Char) :
    byteLength (s ++ t) = byteLength s + byteLength t := by
  induction s with
  | nil => exact (Nat.zero_add _).symm
  | cons c s ih => rw [List.cons_append, byteLength, byteLength, ih, Nat.add_assoc]

theorem length_le_byteLength (s : List Char) : s.length ≤ byteLength s := by
  induction s with
  | nil => exact Nat.le_refl _
  | cons c s ih =>
      have hpos := c.utf8Size_pos
      rw [List.length_cons, byteLength]
      omega

/-- A longer prefix takes more bytes. -/
theorem byteLength_take_lt {s : List Char} {n m : Nat} (h : n < m) (hm : m ≤ s.length) :
    byteLength (s.take n) < byteLength (s.take m) := by
  obtain ⟨k, rfl⟩ := Nat.exists_eq_add_of_lt h
  have hrest : (s.drop n).take (k + 1) ≠ [] := by
    simp only [ne_eq, List.take_eq_nil_iff, List.drop_eq_nil_iff]
    omega
  have hlength := length_le_byteLength ((s.drop n).take (k + 1))
  have hpos := List.length_pos_iff.mpr hrest
  rw [Nat.add_assoc, List.take_add, byteLength_append]
  omega

end Text

open Text

/-! ## Wide characters -/

/-- The wide characters of a text are those of a prefix and those of the rest behind it. -/
theorem wideEndsFrom_append (offset excess : Nat) (s t : List Char) :
    wideEndsFrom offset excess (s ++ t)
      = wideEndsFrom offset excess s
        ++ wideEndsFrom (offset + byteLength s) (excess + (byteLength s - s.length)) t := by
  induction s generalizing offset excess with
  | nil => rfl
  | cons c s ih =>
      have hlength := length_le_byteLength s
      have hpos := c.utf8Size_pos
      simp only [List.cons_append, wideEndsFrom, ih, byteLength, List.length_cons]
      split
      · rename_i hwidth
        rw [hwidth]
        congr 2 <;> omega
      · simp only [List.cons_append]
        congr 3 <;> omega

theorem stop_le_of_mem_wideEndsFrom {w : WideEnd} : ∀ {s : List Char} {offset excess : Nat},
    w ∈ wideEndsFrom offset excess s → offset < w.stop ∧ w.stop ≤ offset + byteLength s
  | [], _, _, h => absurd h (by simp [wideEndsFrom])
  | c :: s, offset, excess, h => by
      have hpos := c.utf8Size_pos
      simp only [wideEndsFrom] at h
      rw [byteLength]
      split at h
      · have := stop_le_of_mem_wideEndsFrom h
        omega
      · rcases List.mem_cons.mp h with rfl | h
        · simp only
          omega
        · have := stop_le_of_mem_wideEndsFrom h
          omega

theorem getLast?_cons_map (f : α → β) (a : α) (as : List α) (b : β) :
    ((a :: as).getLast?.map f).getD b = (as.getLast?.map f).getD (f a) := by
  rw [List.getLast?_cons]
  cases as.getLast? <;> rfl

/-- The last wide character holds the excess of the whole text. -/
theorem excess_wideEndsFrom (offset excess : Nat) (s : List Char) :
    ((wideEndsFrom offset excess s).getLast?.map (·.excess)).getD excess
      = excess + (byteLength s - s.length) := by
  induction s generalizing offset excess with
  | nil => rfl
  | cons c s ih =>
      have hlength := length_le_byteLength s
      have hpos := c.utf8Size_pos
      simp only [wideEndsFrom, byteLength, List.length_cons]
      split
      · rw [ih]
        omega
      · rw [getLast?_cons_map, ih]
        omega

/-- A sequence of elements with the property and then of ones without it is parted between the
two. -/
theorem partitionPoint_append {p : α → Bool} {xs ys : List α} (hxs : ∀ x ∈ xs, p x = true)
    (hys : ∀ y ∈ ys, p y = false) : partitionPoint (xs ++ ys).toArray p = xs.length := by
  have hleft : ∀ i (h : i < (xs ++ ys).toArray.size), i < xs.length →
      p (xs ++ ys).toArray[i] = true := by
    intro i h hlt
    rw [List.getElem_toArray, List.getElem_append_left hlt]
    exact hxs _ (List.getElem_mem hlt)
  have hright : ∀ i (h : i < (xs ++ ys).toArray.size), xs.length ≤ i →
      p (xs ++ ys).toArray[i] = false := by
    intro i h hle
    rw [List.getElem_toArray, List.getElem_append_right hle]
    exact hys _ (List.getElem_mem _)
  have hpartitioned : Partitioned (xs ++ ys).toArray p := by
    intro i j hj hij hpj
    by_cases hlt : i < xs.length
    · exact hleft i (by omega) hlt
    · rw [hright j hj (by omega)] at hpj
      cases hpj
  obtain ⟨hle, hbefore, hbehind⟩ := partitionPoint_spec hpartitioned
  have hsize : (xs ++ ys).toArray.size = xs.length + ys.length := by simp
  rcases Nat.lt_trichotomy (partitionPoint (xs ++ ys).toArray p) xs.length with hlt | heq | hgt
  · have hfalse := hbehind _ (by omega) (Nat.le_refl _)
    rw [hleft _ (by omega) hlt] at hfalse
    cases hfalse
  · exact heq
  · have htrue := hbefore xs.length (by omega) hgt
    rw [hright _ (by omega) (Nat.le_refl _)] at htrue
    cases htrue

/-! ## Offsets -/

namespace ByteIndex

variable (x : ByteIndex)

/-- The bytes in excess before the end of a prefix are those of the prefix. -/
theorem excess_byteLength {s t : List Char} (h : x.text.toList = s ++ t) :
    x.excess (byteLength s) = byteLength s - s.length := by
  have hwide : x.wide = (wideEndsFrom 0 0 s
      ++ wideEndsFrom (byteLength s) (byteLength s - s.length) t).toArray := by
    rw [x.wide_eq, h, wideEndsFrom_append, Nat.zero_add, Nat.zero_add]
  have hpassed : (partitionPoint x.wide fun w => w.stop ≤ byteLength s)
      = (wideEndsFrom 0 0 s).length := by
    rw [hwide]
    refine partitionPoint_append (fun w hw => ?_) (fun w hw => ?_)
    · have := stop_le_of_mem_wideEndsFrom hw
      exact decide_eq_true (by omega)
    · have := stop_le_of_mem_wideEndsFrom hw
      exact decide_eq_false (by omega)
  have hlast := excess_wideEndsFrom 0 0 s
  rw [Nat.zero_add] at hlast
  rw [excess, hpassed, hwide, ← hlast]
  cases hends : wideEndsFrom 0 0 s with
  | nil => rfl
  | cons w ws =>
      simp only [List.length_cons, Nat.add_eq_zero_iff, Nat.one_ne_zero, and_false, if_false,
        Nat.add_sub_cancel, List.getElem?_toArray, List.getLast?_eq_getElem?]
      rw [List.getElem?_append_left (by simp)]

/-- A byte offset between characters is converted to the number of characters before it. -/
theorem toChar_byteLength {n : Nat} (h : n ≤ x.text.length) :
    x.toChar (byteLength (x.text.toList.take n)) = n := by
  have hlength := length_le_byteLength (x.text.toList.take n)
  have htake : (x.text.toList.take n).length = n := by
    rw [List.length_take, String.length_toList]
    omega
  rw [toChar, x.excess_byteLength (List.take_append_drop n _).symm]
  omega

theorem toChar_le {offset offset' : Nat} (h : AtBoundary x.text offset)
    (h' : AtBoundary x.text offset') (hle : offset ≤ offset') :
    x.toChar offset ≤ x.toChar offset' := by
  obtain ⟨n, hn, rfl⟩ := h
  obtain ⟨m, hm, rfl⟩ := h'
  rw [x.toChar_byteLength hn, x.toChar_byteLength hm]
  refine Nat.le_of_not_lt fun hlt => ?_
  have := byteLength_take_lt hlt (s := x.text.toList) (by rwa [String.length_toList])
  omega

end ByteIndex

end BundleSize
