/-!
# Stable sorting

A merge sort keeps elements in order that the comparison does not tell apart. So of
a class of such elements the sorted list holds the same ones in the same order as
the list it was made of (`filter_mergeSort_of_tied`), and the first of them in the one
is the first of them in the other (`find?_mergeSort_of_tied`).
-/

namespace BundleSize

variable {α : Type} {le : α → α → Bool} {p : α → Bool}

theorem filter_mergeSort_of_tied (htrans : ∀ a b c, le a b = true → le b c = true → le a c = true)
    (htotal : ∀ a b, (le a b || le b a) = true)
    (htied : ∀ a b, p a = true → p b = true → le a b = true) (l : List α) :
    (l.mergeSort le).filter p = l.filter p := by
  have hordered : (l.filter p).Pairwise fun a b => le a b = true := by
    refine List.pairwise_of_forall_mem_list fun a ha b hb => ?_
    exact htied a b (List.mem_filter.mp ha).2 (List.mem_filter.mp hb).2
  have hsublist : (l.filter p).Sublist (l.mergeSort le) :=
    List.sublist_mergeSort htrans htotal hordered List.filter_sublist
  have hfiltered := hsublist.filter p
  rw [List.filter_filter] at hfiltered
  simp only [Bool.and_self] at hfiltered
  exact (hfiltered.eq_of_length ((List.mergeSort_perm l le).filter p).length_eq.symm).symm

theorem find?_mergeSort_of_tied (htrans : ∀ a b c, le a b = true → le b c = true → le a c = true)
    (htotal : ∀ a b, (le a b || le b a) = true)
    (htied : ∀ a b, p a = true → p b = true → le a b = true) (l : List α) :
    (l.mergeSort le).find? p = l.find? p := by
  rw [← List.head?_filter, filter_mergeSort_of_tied htrans htotal htied, List.head?_filter]

end BundleSize
