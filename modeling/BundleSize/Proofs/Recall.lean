import BundleSize.Proofs.Attribution
import Mathlib

/-!
# Answers from memory

A translator with a memory may be asked any questions in any order, also some that
it fails to answer. What it knows afterwards is told by the questions alone: the
answer of the bare translator to each of them that has one (`Memo.known_translate`
for one question, `Memo.known_translateEach` for all). So nobody can tell by the
answers whether there is a memory, and the memory has as many entries as different
questions were answered.
-/

namespace BundleSize

namespace Memo

variable {m : Memo}

/-- Asks one question after the other, whether or not they are answered. -/
def translateEach (m : Memo) :
    List (Int × Boundary) → List (Except LineError (Option Int)) × Memo
  | [] => ([], m)
  | q :: qs =>
    let (answer, next, _) := m.translate q.1 q.2
    let (answers, last) := next.translateEach qs
    (answer :: answers, last)

/-! ## What is known after a question -/

/-- A question leaves its answer behind, and nothing if it has none. -/
theorem known_translate (h : m.Faithful) (q k : Int × Boundary) :
    (m.translate q.1 q.2).2.1.known[k]?
      = if q = k then (m.translator.translate q.1 q.2).toOption else m.known[k]? := by
  unfold translate
  split
  · rename_i answer hknown
    have hanswer := h q.1 q.2 answer hknown
    split
    · rename_i heq
      rw [← heq, hanswer]
      exact hknown
    · rfl
  · rename_i hknown
    cases m.translator.translate q.1 q.2 with
    | error e =>
        show m.known[k]? = _
        split
        · rename_i heq
          rw [← heq]
          exact hknown
        · rfl
    | ok answer =>
        show (m.known.insert q answer)[k]? = _
        simp only [Std.HashMap.getElem?_insert, beq_iff_eq]
        rfl

theorem known_translateEach (h : m.Faithful) (questions : List (Int × Boundary))
    (k : Int × Boundary) :
    (m.translateEach questions).2.known[k]?
      = if k ∈ questions then (m.translator.translate k.1 k.2).toOption else m.known[k]? := by
  induction questions generalizing m with
  | nil => rfl
  | cons q qs ih =>
      show ((m.translate q.1 q.2).2.1.translateEach qs).2.known[k]? = _
      rw [ih (translate_faithful h q.1 q.2), translate_translator, known_translate h]
      -- the answer is the same whether the first question or a later one left it behind
      by_cases hrest : k ∈ qs
      · rw [if_pos hrest, if_pos (List.mem_cons_of_mem q hrest)]
      · rw [if_neg hrest]
        by_cases heq : q = k
        · rw [if_pos heq, heq, if_pos (List.mem_cons_self ..)]
        · have hmem : k ∉ q :: qs := List.not_mem_cons_of_ne_of_not_mem (Ne.symm heq) hrest
          rw [if_neg heq, if_neg hmem]

theorem answers_translateEach (h : m.Faithful) (questions : List (Int × Boundary)) :
    (m.translateEach questions).1
      = questions.map fun q => m.translator.translate q.1 q.2 := by
  induction questions generalizing m with
  | nil => rfl
  | cons q qs ih =>
      show (m.translate q.1 q.2).1 :: ((m.translate q.1 q.2).2.1.translateEach qs).1 = _
      rw [translate_eq h, ih (translate_faithful h q.1 q.2), translate_translator, List.map_cons]

/-- The memory has one entry for each question that was answered. -/
theorem size_translateEach_fresh (t : Translator) (questions : List (Int × Boundary)) :
    ((fresh t).translateEach questions).2.size
      = (questions.filter fun q => (t.translate q.1 q.2).isOk).dedup.length := by
  rw [size, ← Std.HashMap.length_keys]
  refine ((List.perm_ext_iff_of_nodup Std.HashMap.nodup_keys (List.nodup_dedup _)).mpr
    fun q => ?_).length_eq
  rw [Std.HashMap.mem_keys, Std.HashMap.mem_iff_isSome_getElem?,
    known_translateEach (fresh_faithful t), List.mem_dedup, List.mem_filter]
  by_cases hasked : q ∈ questions
  · rw [if_pos hasked]
    show (t.translate q.1 q.2).toOption.isSome = true ↔ _
    cases t.translate q.1 q.2 <;> simp [hasked, Except.toOption, Except.isOk, Except.toBool]
  · simp [hasked, fresh]

/-! ## Any number of questions -/

/-- **The memory does not show.** Ask a translator any questions, and each is answered, or fails, as
if it were the first one. Asked in another order, or with repetitions, they have the same answers in
that order. Afterwards the memory holds the answer to each question that has one; that an offset
goes nowhere is an answer too, and it is recalled without another lookup or report. The memory has
as many entries as there are different questions among those answered. -/
theorem translateEach_fresh (t : Translator) (questions : List (Int × Boundary)) :
    ∃ answers last, (fresh t).translateEach questions = (answers, last)
      ∧ answers = (questions.map fun q => ((fresh t).translate q.1 q.2).1)
      ∧ (∀ order : List Nat, ((fresh t).translateEach (order.filterMap (questions[·]?))).1
        = order.filterMap (answers[·]?))
      ∧ (∀ q, last.known[q]?
        = if q ∈ questions then ((fresh t).translate q.1 q.2).1.toOption else none)
      ∧ (∀ q ∈ questions, ((fresh t).translate q.1 q.2).1 = .ok none →
        last.translate q.1 q.2 = (.ok none, last, []))
      ∧ last.size
        = (((questions.zip answers).filter fun asked => asked.2.isOk).map (·.1)).dedup.length := by
  have hfresh := fresh_faithful t
  have hanswers : ∀ qs, ((fresh t).translateEach qs).1 = qs.map fun q => t.translate q.1 q.2 :=
    answers_translateEach hfresh
  have hone : ∀ q : Int × Boundary, ((fresh t).translate q.1 q.2).1 = t.translate q.1 q.2 :=
    fun q => translate_eq hfresh q.1 q.2
  have hknown : ∀ q, ((fresh t).translateEach questions).2.known[q]?
      = if q ∈ questions then (t.translate q.1 q.2).toOption else none := by
    intro q
    rw [known_translateEach hfresh]
    simp [fresh]
  refine ⟨_, _, rfl, ?_, fun order => ?_, fun q => ?_, fun q hasked hnone => ?_, ?_⟩
  · simpa only [hone] using hanswers questions
  · rw [hanswers, hanswers, List.map_filterMap]
    simp only [List.getElem?_map]
  · rw [hone, hknown]
  · rw [hone] at hnone
    have hrecalled : ((fresh t).translateEach questions).2.known[q]? = some none := by
      rw [hknown, if_pos hasked, hnone]
      rfl
    rw [translate, hrecalled]
  · rw [size_translateEach_fresh, hanswers, ← List.map_prod_left_eq_zip, List.filter_map,
      List.map_map]
    exact congrArg (fun asked : List (Int × Boundary) => asked.dedup.length) (List.map_id _).symm

/-- The first character is where it was, the second went to a line that there is not, and the end of
the text is not in the table. -/
def patchy : Translator :=
  .ofTexts "ab" none (some (.ofMappings
    [⟨⟨1, 0⟩, some (.string "0"), some ⟨1, 0⟩, none⟩,
      ⟨⟨-5, 0⟩, some (.string "0"), some ⟨1, 1⟩, none⟩] none))

theorem translateEach_fresh_patchy :
    let questions : List (Int × Boundary) :=
      [(0, .left), (1, .left), (2, .left), (2, .left), (1, .left), (0, .left)]
    ∃ last, (fresh patchy).translateEach questions
        = ([.ok (some 0), .error (.noSuchLine (-5)), .ok none, .ok none,
          .error (.noSuchLine (-5)), .ok (some 0)], last)
      ∧ last.translate 2 .left = (.ok none, last, [])
      ∧ last.known[((1 : Int), Boundary.left)]? = none ∧ last.size = 2 := by
  intro questions
  obtain ⟨answers, last, hrun, hanswers, -, hknown, hnone, hsize⟩ :=
    translateEach_fresh patchy questions
  have hone (q : Int × Boundary) : ((fresh patchy).translate q.1 q.2).1
      = patchy.translate q.1 q.2 := translate_eq (fresh_faithful patchy) q.1 q.2
  have hfirst : patchy.translate 0 .left = .ok (some 0) := by cbv
  have hsecond : patchy.translate 1 .left = .error (.noSuchLine (-5)) := by cbv
  have hend : patchy.translate 2 .left = .ok none := by cbv
  simp only [questions, List.map_cons, List.map_nil, hone, hfirst, hsecond, hend] at hanswers
  refine ⟨last, by rw [hrun, hanswers], ?_, ?_, ?_⟩
  · exact hnone (2, .left) (by decide) ((hone (2, .left)).trans hend)
  · rw [hknown, hone, if_pos (by decide), hsecond]
    rfl
  · rw [hsize, hanswers]
    decide

end Memo

end BundleSize
