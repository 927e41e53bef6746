import BundleSize.SourceMap.Mapping
import BundleSize.Proofs.LineFeeds
import BundleSize.Proofs.Lookup

/-!
# Walks and the order of positions

Whatever the characters' widths are, as long as none of them is zero every step of a walk
leads to a later position, so more characters never lead back
(`Position.upTo_behind_take`). Where all of them are one, the walk arrives at the positions
that the index of the text tells (`LineIndex.position_eq_behind`).
-/

namespace BundleSize

namespace Position

variable {width : Char → Nat}

theorem behind_concat (width : Char → Nat) (s : List Char) (c : Char) :
    behind width (s ++ [c]) = (behind width s).past width c :=
  List.foldl_concat ..

theorem before_past (hwidth : ∀ c, 0 < width c) (p : Position) (c : Char) :
    p.before (p.past width c) = true := by
  rw [before_iff, past]
  split
  · exact Or.inl (Int.lt_add_one_of_le (Int.le_refl _))
  · have := hwidth c
    exact Or.inr ⟨rfl, by simp only; omega⟩

theorem upTo_foldl_past (hwidth : ∀ c, 0 < width c) : ∀ (s : List Char) (p : Position),
    p.upTo (s.foldl (past width) p) = true
  | [], p => upTo_refl p
  | c :: s, p => upTo_trans (upTo_of_before (before_past hwidth p c)) (upTo_foldl_past hwidth s _)

theorem behind_append (width : Char → Nat) (s t : List Char) :
    behind width (s ++ t) = t.foldl (past width) (behind width s) :=
  List.foldl_append ..

theorem upTo_behind_take (hwidth : ∀ c, 0 < width c) (s : List Char) {i j : Nat} (hij : i ≤ j) :
    (behind width (s.take i)).upTo (behind width (s.take j)) = true := by
  obtain ⟨k, rfl⟩ := Nat.exists_eq_add_of_le hij
  rw [List.take_add, behind_append]
  exact upTo_foldl_past hwidth _ _

/-- By characters, a walk counts line feeds and what follows the last of them. -/
theorem behind_one (s : List Char) : behind (fun _ => 1) s
    = ⟨1 + s.count '\n', s.length - (s.rdropWhile (· ≠ '\n')).length⟩ := by
  induction s using List.reverseRecOn with
  | nil => rfl
  | append_singleton s c ih =>
      rw [behind_concat, ih, past, List.count_append, List.length_append]
      by_cases hc : c = '\n'
      · subst hc
        rw [if_pos rfl, List.rdropWhile_concat_neg _ _ _ (by simp), List.length_append]
        simp
        omega
      · have hle := (List.rdropWhile_prefix (fun d => decide (d ≠ '\n')) (l := s)).length_le
        have hcount : [c].count '\n' = 0 := List.count_eq_zero.mpr (by simpa using Ne.symm hc)
        rw [if_neg hc, List.rdropWhile_concat_pos _ _ _ (by simpa using hc), hcount]
        simp only [List.length_singleton, Nat.add_zero, Position.mk.injEq, true_and]
        omega

end Position

namespace LineIndex

variable {x : LineIndex} {before behind : List Char} {c : Char}

theorem position_upTo_natCast_iff {a b : Nat} :
    (x.position a).upTo (x.position b) = true ↔ a ≤ b :=
  (position_upTo_iff (Int.natCast_nonneg _) (Int.natCast_nonneg _)).trans Int.ofNat_le

theorem position_eq_behind (x : LineIndex) {offset : Nat} (hle : offset ≤ x.text.length) :
    x.position offset = Position.behind (fun _ => 1) (x.text.toList.take offset) := by
  rw [position_eq_count, Position.behind_one, List.length_take, String.length_toList,
    Nat.min_eq_left hle]

theorem position_length (htext : x.text.toList = before ++ behind) :
    x.position before.length = Position.behind (fun _ => 1) before := by
  have hle : before.length ≤ x.text.length := by
    rw [← String.length_toList, htext, List.length_append]
    exact Nat.le_add_right _ _
  rw [x.position_eq_behind hle, htext, List.take_left]

theorem position_length_succ (htext : x.text.toList = before ++ c :: behind) :
    x.position (before.length + 1 : Nat)
      = (Position.behind (fun _ => 1) before).past (fun _ => 1) c := by
  have hconcat : x.text.toList = (before ++ [c]) ++ behind := by
    rw [htext, List.append_assoc]
    rfl
  have hposition := position_length hconcat
  rwa [List.length_append, List.length_singleton, Position.behind_concat] at hposition

end LineIndex

end BundleSize
