import BundleSize.Proofs.Lookup
import BundleSize.Search.Stable
import Mathlib.Data.Prod.Lex

/-!
# Lookups and linear scans

A lookup by source position halves a sorted index. What it finds is said here
without an index: of the mappings in the order in which they were decoded, those of
the selected source that stand on the searched side of the position are its
candidates (`PositionTable.Candidate`), and the one of the least rank is found
(`PositionTable.find?_eq_some_iff_least`). The rank goes by source position, by
generated position, and last by the place in decoding order, so no two candidates
have the same.

The index tells the place in decoding order only because the sort is stable: the
first anchor of its source position in the index is also the first in decoding order
of all that agree with it in both positions (`Stops.decoded_first`).
-/

namespace BundleSize

namespace Bias

/-- What a lookup goes by: the source position, the generated position and the place in decoding
order. A lookup that goes back counts source positions backwards, and nothing else. -/
def rank : Bias → Position → Position → Nat → ℤ ×ₗ ℤ ×ₗ ℤ ×ₗ ℤ ×ₗ ℕ
  | .leastUpper, q, g, k => toLex (q.line, toLex (q.column, toLex (g.line, toLex (g.column, k))))
  | .greatestLower, q, g, k =>
    toLex (-q.line, toLex (-q.column, toLex (g.line, toLex (g.column, k))))

variable {bias : Bias} {q g q' g' : Position}

theorem rank_le_iff {k k' : Nat} :
    bias.rank q g k ≤ bias.rank q' g' k' ↔ bias.nearer q q' = true
      ∨ q = q' ∧ (g.before g' = true ∨ g = g' ∧ k ≤ k') := by
  obtain ⟨line, column⟩ := q
  obtain ⟨line', column'⟩ := q'
  obtain ⟨gline, gcolumn⟩ := g
  obtain ⟨gline', gcolumn'⟩ := g'
  cases bias <;>
    simp only [rank, nearer, Prod.Lex.toLex_le_toLex, Position.before_iff, Position.mk.injEq] <;>
    omega

/-- Neither of two mappings ranks behind the other, wherever they were decoded. -/
theorem eq_of_rank_le {k k' l l' : Nat} (h : bias.rank q g k ≤ bias.rank q' g' k')
    (h' : bias.rank q' g' l' ≤ bias.rank q g l) : q = q' ∧ g = g' ∧ k ≤ k' ∧ l' ≤ l := by
  obtain ⟨line, column⟩ := q
  obtain ⟨line', column'⟩ := q'
  obtain ⟨gline, gcolumn⟩ := g
  obtain ⟨gline', gcolumn'⟩ := g'
  cases bias <;>
    simp only [rank, Prod.Lex.toLex_le_toLex, Position.mk.injEq] at h h' ⊢ <;>
    omega

end Bias

/-- The two agree in the source position and in the generated one. -/
def Anchor.tied (a b : Anchor) : Bool :=
  a.position == b.position && a.mapping.generated == b.mapping.generated

theorem Anchor.tied_iff {a b : Anchor} : a.tied b = true ↔
    a.position = b.position ∧ a.mapping.generated = b.mapping.generated := by
  simp [tied]

theorem Anchor.order_of_tied {a b c : Anchor} (hb : a.tied b = true) (hc : a.tied c = true) :
    b.order c = true := by
  rw [tied_iff] at hb hc
  rw [order_iff]
  refine Or.inr ⟨hb.1.symm.trans hc.1, ?_⟩
  rw [← hb.2, ← hc.2]
  exact Position.upTo_refl _

namespace PositionTable

variable {t : PositionTable} {bias : Bias} {p : Position}

/-! ## Candidates -/

/-- The mapping was decoded in the place `k`, is one of the selected source, and comes from the
source position `q`, which is on the side of `p` that is searched. -/
structure Candidate (t : PositionTable) (bias : Bias) (p : Position) (k : Nat) (q : Position)
    (m : Mapping) : Prop where
  place : t.mappings[k]? = some m
  source : ∃ label, t.source = some label ∧ m.source = some label
  position : m.sourcePosition = some q
  reached : bias.reaches p q = true

section

variable {k : Nat} {q : Position} {m : Mapping}

theorem Candidate.anchor? (h : t.Candidate bias p k q m) : m.anchor? t.source = some ⟨q, m⟩ := by
  obtain ⟨label, hsource, hlabel⟩ := h.source
  exact anchor?_eq_some.mpr ⟨label, hsource, hlabel, h.position, rfl⟩

theorem Candidate.mem_bySource (h : t.Candidate bias p k q m) :
    (⟨q, m⟩ : Anchor) ∈ t.bySource :=
  PositionTable.mem_bySource.mpr ⟨m, List.mem_of_getElem? h.place, h.anchor?⟩

end

/-! ## Back to the order of decoding -/

theorem Stops.find?_tied {i : Nat} {a : Anchor} (h : t.Stops bias p i a) :
    (t.mappings.filterMap (Mapping.anchor? t.source)).find? a.tied = some a := by
  have hlist : t.bySource.toList = anchors t.source t.mappings := by rw [t.bySource_eq]
  rw [← find?_mergeSort_of_tied Anchor.order_trans Anchor.order_total
    (fun _ _ => Anchor.order_of_tied), ← anchors, ← hlist, List.find?_eq_some_iff_getElem]
  obtain ⟨hi, hget⟩ := Array.getElem?_eq_some_iff.mp h.place
  refine ⟨Anchor.tied_iff.mpr ⟨rfl, rfl⟩, i, by simpa using hi, by simpa using hget, ?_⟩
  intro j hj
  have hbefore := h.first j _ (Array.getElem?_eq_getElem (by omega)) hj
  simp only [Array.getElem_toList, Bool.not_eq_true', ← Bool.not_eq_true, Anchor.tied_iff]
  rintro ⟨hposition, -⟩
  rw [hposition] at hbefore
  exact Position.not_before.mpr (Position.upTo_refl _) hbefore

theorem Stops.decoded_first {i : Nat} {a : Anchor} (h : t.Stops bias p i a) :
    ∃ k, t.Candidate bias p k a.position a.mapping
      ∧ ∀ k' q' m', t.Candidate bias p k' q' m' → a.tied ⟨q', m'⟩ = true → k ≤ k' := by
  have hdecoded := h.find?_tied
  rw [List.find?_filterMap, Option.bind_eq_some_iff] at hdecoded
  obtain ⟨m, hm, hanchor⟩ := hdecoded
  obtain ⟨label, hsource, hlabel, hposition, rfl⟩ := anchor?_eq_some.mp hanchor
  obtain ⟨-, k, hk, hget, hearlier⟩ := List.find?_eq_some_iff_getElem.mp hm
  refine ⟨k, ⟨?_, ⟨label, hsource, hlabel⟩, hposition, h.reached⟩, ?_⟩
  · rw [List.getElem?_eq_getElem hk, hget]
  · intro k' q' m' hother htied
    by_contra hlt
    obtain ⟨hk', rfl⟩ := List.getElem?_eq_some_iff.mp hother.place
    have huntied := hearlier k' (by omega)
    simp [hother.anchor?, htied] at huntied

theorem Stops.least {i : Nat} {a : Anchor} (h : t.Stops bias p i a) :
    ∃ k, t.Candidate bias p k a.position a.mapping
      ∧ ∀ k' q' m', t.Candidate bias p k' q' m' →
        bias.rank a.position a.mapping.generated k ≤ bias.rank q' m'.generated k' := by
  obtain ⟨k, hcandidate, hfirst⟩ := h.decoded_first
  refine ⟨k, hcandidate, fun k' q' m' hother => Bias.rank_le_iff.mpr ?_⟩
  rcases h.nearest _ hother.mem_bySource hother.reached with hnearer | hsame
  · exact Or.inl hnearer
  refine Or.inr ⟨hsame, ?_⟩
  have hupTo : a.mapping.generated.upTo m'.generated = true :=
    h.upTo_generated hother.mem_bySource hsame
  rcases Position.upTo_iff_before_or_eq.mp hupTo with hbefore | heq
  · exact Or.inl hbefore
  · exact Or.inr ⟨heq, hfirst k' q' m' hother (Anchor.tied_iff.mpr ⟨hsame, heq⟩)⟩

/-- Nothing is found where there is no candidate, else the candidate of the least rank. -/
theorem find?_least (t : PositionTable) (bias : Bias) (p : Position) :
    (t.find? p bias = none ∧ ∀ k q m, ¬t.Candidate bias p k q m)
      ∨ ∃ k q m, t.find? p bias = some m ∧ t.Candidate bias p k q m
        ∧ ∀ k' q' m', t.Candidate bias p k' q' m' →
          bias.rank q m.generated k ≤ bias.rank q' m'.generated k' := by
  rcases t.find?_cases bias p with ⟨hnone, hout⟩ | ⟨i, a, hsome, hstops⟩
  · refine Or.inl ⟨hnone, ?_⟩
    intro k q m hcandidate
    have hreached := hout _ hcandidate.mem_bySource
    rw [hcandidate.reached] at hreached
    cases hreached
  · obtain ⟨k, hcandidate, hleast⟩ := hstops.least
    exact Or.inr ⟨k, a.position, a.mapping, hsome, hcandidate, hleast⟩

/-- **A lookup finds what a scan of the decoded mappings finds.** Nothing is found exactly if there
is no candidate, and otherwise the candidate of the least rank: the nearest source position, the
least generated position there, and the first decoded of those that agree in both. -/
theorem find?_eq_some_iff_least (t : PositionTable) (bias : Bias) (p : Position) :
    (t.find? p bias = none ↔ ∀ k q m, ¬t.Candidate bias p k q m)
      ∧ ∀ m, t.find? p bias = some m ↔ ∃ k q, t.Candidate bias p k q m
        ∧ ∀ k' q' m', t.Candidate bias p k' q' m' →
          bias.rank q m.generated k ≤ bias.rank q' m'.generated k' := by
  rcases t.find?_least bias p with ⟨hnone, hno⟩ | ⟨k, q, m, hsome, hcandidate, hleast⟩
  · simp [hnone, hno]
  · rw [hsome]
    refine ⟨⟨nofun, fun hno => absurd hcandidate (hno k q m)⟩, fun m' => ⟨?_, ?_⟩⟩
    · rintro ⟨rfl⟩
      exact ⟨k, q, hcandidate, hleast⟩
    · rintro ⟨k', q', hother, hleast'⟩
      -- of two candidates of least rank, both were decoded in the same place
      obtain ⟨-, -, hle, hge⟩ :=
        Bias.eq_of_rank_le (hleast k' q' m' hother) (hleast' k q m hcandidate)
      obtain rfl : k = k' := Nat.le_antisymm hle hge
      exact hcandidate.place.symm.trans hother.place

end PositionTable

end BundleSize
