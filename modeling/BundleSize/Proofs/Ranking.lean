import BundleSize.Report.Report
import BundleSize.Search.Stable
import Mathlib.Data.List.Basic

/-!
# Rankings

A ranking has two properties: sizes never increase along it
(`rank_descending`), and the ranges of any one size stand in it in the order in
which they were given (`rank_filter_size`). There is no other list with both
(`eq_of_descending`), so two rankings are compared size by size. That is how
ranking commutes with a choice among the ranges (`rank_filter`), ties and
repeated definitions included.
-/

namespace BundleSize

/-- Sizes never increase along the list. -/
def Descending (ranges : List AttributedRange) : Prop :=
  ranges.Pairwise fun r s => s.size ≤ r.size

theorem largerFirst_trans (r s u : AttributedRange) (hrs : largerFirst r s = true)
    (hsu : largerFirst s u = true) : largerFirst r u = true := by
  simp only [largerFirst, decide_eq_true_eq] at *
  omega

theorem largerFirst_total (r s : AttributedRange) :
    (largerFirst r s || largerFirst s r) = true := by
  simp only [largerFirst, Bool.or_eq_true, decide_eq_true_eq]
  omega

theorem rank_descending (ranges : List AttributedRange) : Descending (rank ranges) :=
  (List.pairwise_mergeSort largerFirst_trans largerFirst_total ranges).imp fun h => by
    simpa only [largerFirst, decide_eq_true_eq] using h

/-- The ranges of one size keep their order. -/
theorem rank_filter_size (ranges : List AttributedRange) (n : Int) :
    (rank ranges).filter (·.size = n) = ranges.filter (·.size = n) := by
  refine filter_mergeSort_of_tied largerFirst_trans largerFirst_total (fun r s hr hs => ?_) ranges
  simp only [decide_eq_true_eq] at hr hs
  simp only [largerFirst, decide_eq_true_eq, hr, hs, Int.le_refl]

section

variable {α : Type} {key : α → Int}

theorem mem_of_filter_key {l l' : List α}
    (h : ∀ n : Int, l.filter (key · = n) = l'.filter (key · = n)) {a : α} (ha : a ∈ l) :
    a ∈ l' := by
  have hin : a ∈ l.filter (key · = key a) := List.mem_filter.mpr ⟨ha, by simp⟩
  rw [h] at hin
  exact (List.mem_filter.mp hin).1

theorem key_le_head {a b : α} {l : List α} (h : (a :: l).Pairwise fun a b => key b ≤ key a)
    (hb : b ∈ a :: l) : key b ≤ key a := by
  rcases List.mem_cons.mp hb with rfl | hin
  · exact Int.le_refl _
  · exact (List.pairwise_cons.mp h).1 b hin

/-- A list along which a key never increases is determined by what it holds of each key. -/
theorem eq_of_descending : ∀ {l l' : List α}, (l.Pairwise fun a b => key b ≤ key a) →
    (l'.Pairwise fun a b => key b ≤ key a) →
    (∀ n : Int, l.filter (key · = n) = l'.filter (key · = n)) → l = l'
  | [], [], _, _, _ => rfl
  | [], b :: l', _, _, hkeys =>
      absurd (mem_of_filter_key (fun n => (hkeys n).symm) (List.mem_cons_self ..))
        List.not_mem_nil
  | a :: l, [], _, _, hkeys =>
      absurd (mem_of_filter_key hkeys (List.mem_cons_self ..)) List.not_mem_nil
  | a :: l, b :: l', hl, hl', hkeys => by
      -- both heads have the greatest key, so they are the first of that key in either list
      have hhead : key b = key a := Int.le_antisymm
        (key_le_head hl (mem_of_filter_key (fun n => (hkeys n).symm) (List.mem_cons_self ..)))
        (key_le_head hl' (mem_of_filter_key hkeys (List.mem_cons_self ..)))
      have hfirst := hkeys (key a)
      rw [List.filter_cons_of_pos (by simp), List.filter_cons_of_pos (by simp [hhead])] at hfirst
      obtain ⟨heq, htail⟩ := List.cons.inj hfirst
      have htails : ∀ n : Int, l.filter (key · = n) = l'.filter (key · = n) := by
        intro n
        by_cases hn : key a = n
        · exact hn ▸ htail
        · have hkey := hkeys n
          rwa [List.filter_cons_of_neg (by simpa using hn),
            List.filter_cons_of_neg (by simpa [hhead] using hn)] at hkey
      rw [heq, eq_of_descending (List.pairwise_cons.mp hl).2 (List.pairwise_cons.mp hl').2 htails]

end

/-- Choosing among the ranges and ranking them can be exchanged. -/
theorem rank_filter (keeps : AttributedRange → Bool) (ranges : List AttributedRange) :
    rank (ranges.filter keeps) = (rank ranges).filter keeps := by
  refine eq_of_descending (rank_descending _) ((rank_descending ranges).sublist
    List.filter_sublist) fun n => ?_
  rw [rank_filter_size, List.filter_comm, List.filter_comm _ keeps, rank_filter_size]

end BundleSize
