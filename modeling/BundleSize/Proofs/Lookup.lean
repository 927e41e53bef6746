import BundleSize.SourceMap.Table

/-!
# What a lookup finds

The index by source position holds the mappings of the selected source and
no others (`PositionTable.sends_iff_mem_bySource`), sorted by source
position and, where source positions agree, by generated position. The binary
searches stop at an anchor that is the first of its source position in the index,
and nothing on the searched side is nearer (`PositionTable.find?_cases`). So the
search for the nearest mapping at or after a position finds the least one in this
order: `PositionTable.nearest_of_find?` says it of the mapping that is found,
`PositionTable.before_of_find?_eq_none` when there is none.

Everything that is proved about translated offsets goes through one
consequence, `PositionTable.Nearest.mono`: a later lookup finds a later
source position, or the very same source and generated position.
-/

namespace BundleSize

namespace Position

theorem not_before {p q : Position} : ¬p.before q = true ↔ q.upTo p = true := by
  rw [upTo, Bool.not_eq_true', Bool.not_eq_true]

theorem upTo_iff_before_or_eq {p q : Position} :
    p.upTo q = true ↔ p.before q = true ∨ p = q := by
  obtain ⟨line, column⟩ := p
  obtain ⟨line', column'⟩ := q
  rw [upTo_iff, before_iff, Position.mk.injEq]
  simp only
  omega

theorem before_of_before_of_upTo {p q r : Position} (h₁ : p.before q = true)
    (h₂ : q.upTo r = true) : p.before r = true := by
  rw [before_iff] at *
  rw [upTo_iff] at h₂
  omega

theorem upTo_of_before {p q : Position} (h : p.before q = true) : p.upTo q = true :=
  upTo_iff_before_or_eq.mpr (Or.inl h)

theorem upTo_refl (p : Position) : p.upTo p = true := upTo_iff_before_or_eq.mpr (Or.inr rfl)

theorem upTo_antisymm {p q : Position} (h₁ : p.upTo q = true) (h₂ : q.upTo p = true) : p = q := by
  rcases upTo_iff_before_or_eq.mp h₁ with h | h
  · exact absurd h (not_before.mpr h₂)
  · exact h

end Position

namespace Anchor

theorem order_iff {a b : Anchor} :
    a.order b = true ↔ a.position.before b.position = true
      ∨ a.position = b.position ∧ a.mapping.generated.upTo b.mapping.generated = true := by
  simp [order]

theorem order_trans (a b c : Anchor) (hab : a.order b = true) (hbc : b.order c = true) :
    a.order c = true := by
  rw [order_iff] at *
  rcases hab with hab | ⟨hab, hgab⟩ <;> rcases hbc with hbc | ⟨hbc, hgbc⟩
  · exact Or.inl (Position.before_of_before_of_upTo hab (Position.upTo_of_before hbc))
  · exact Or.inl (hbc ▸ hab)
  · exact Or.inl (hab ▸ hbc)
  · exact Or.inr ⟨hab.trans hbc, Position.upTo_trans hgab hgbc⟩

theorem order_total (a b : Anchor) : (a.order b || b.order a) = true := by
  rw [Bool.or_eq_true, order_iff, order_iff]
  by_cases hab : a.position.before b.position = true
  · exact Or.inl (Or.inl hab)
  · rcases Position.upTo_iff_before_or_eq.mp (Position.not_before.mp hab) with hba | heq
    · exact Or.inr (Or.inl hba)
    · rcases Bool.or_eq_true_iff.mp
        (Position.upTo_total a.mapping.generated b.mapping.generated) with hg | hg
      · exact Or.inl (Or.inr ⟨heq.symm, hg⟩)
      · exact Or.inr (Or.inr ⟨heq, hg⟩)

end Anchor

namespace Bias

/-- The source position `q` is on the side of `p` that is searched. -/
def reaches : Bias → Position → Position → Bool
  | .leastUpper, p, q => p.upTo q
  | .greatestLower, p, q => q.upTo p

/-- Going away from the position that is looked up, `q` comes before `q'`. -/
def nearer : Bias → Position → Position → Bool
  | .leastUpper, q, q' => q.before q'
  | .greatestLower, q, q' => q'.before q

end Bias

namespace PositionTable

/-- A mapping of the selected source sends the source position `p` to the generated one `q`. -/
def Sends (t : PositionTable) (p q : Position) : Prop :=
  ∃ m ∈ t.mappings, ∃ label, t.source = some label ∧ m.source = some label
    ∧ m.sourcePosition = some p ∧ m.generated = q

theorem anchor?_eq_some {source : Option Label} {m : Mapping} {a : Anchor} :
    m.anchor? source = some a ↔ ∃ label, source = some label ∧ m.source = some label
      ∧ m.sourcePosition = some a.position ∧ a.mapping = m := by
  obtain ⟨position, mapping⟩ := a
  unfold Mapping.anchor?
  constructor
  · intro h
    split at h
    · rename_i label place hlabel hplace
      split at h
      · rename_i hsource
        obtain ⟨rfl, rfl⟩ := Anchor.mk.inj (Option.some.inj h)
        exact ⟨label, eq_of_beq hsource, hlabel, hplace, rfl⟩
      · cases h
    · cases h
  · rintro ⟨label, hsource, hlabel, hplace, hmapping⟩
    obtain rfl : mapping = m := hmapping
    have hplace : mapping.sourcePosition = some position := hplace
    simp only [hlabel, hplace, hsource, beq_self_eq_true, if_true]

theorem mem_bySource {t : PositionTable} {a : Anchor} :
    a ∈ t.bySource ↔ ∃ m ∈ t.mappings, m.anchor? t.source = some a := by
  rw [t.bySource_eq, List.mem_toArray, anchors, List.mem_mergeSort, List.mem_filterMap]

theorem sourcePosition_of_mem_bySource {t : PositionTable} {a : Anchor} (h : a ∈ t.bySource) :
    a.mapping.sourcePosition = some a.position := by
  obtain ⟨m, -, ha⟩ := mem_bySource.mp h
  obtain ⟨label, -, -, hplace, rfl⟩ := anchor?_eq_some.mp ha
  exact hplace

theorem sends_iff_mem_bySource {t : PositionTable} {p q : Position} :
    t.Sends p q ↔ ∃ a ∈ t.bySource, a.position = p ∧ a.mapping.generated = q := by
  constructor
  · rintro ⟨m, hm, label, hsource, hlabel, hplace, hq⟩
    exact ⟨⟨p, m⟩, mem_bySource.mpr ⟨m, hm, anchor?_eq_some.mpr
      ⟨label, hsource, hlabel, hplace, rfl⟩⟩, rfl, hq⟩
  · rintro ⟨a, ha, rfl, hq⟩
    obtain ⟨m, hm, hanchor⟩ := mem_bySource.mp ha
    obtain ⟨label, hsource, hlabel, hplace, rfl⟩ := anchor?_eq_some.mp hanchor
    exact ⟨a.mapping, hm, label, hsource, hlabel, hplace, hq⟩

/-- The pairs of positions that the mappings of the selected source tie together. -/
def pairs (t : PositionTable) : List (Position × Position) :=
  (t.mappings.filterMap (Mapping.anchor? t.source)).map fun a =>
    (a.position, a.mapping.generated)

theorem sends_iff_mem_pairs {t : PositionTable} {p q : Position} :
    t.Sends p q ↔ (p, q) ∈ t.pairs := by
  simp only [sends_iff_mem_bySource, mem_bySource, pairs, List.mem_map, List.mem_filterMap,
    Prod.mk.injEq]

theorem forall_sends {t : PositionTable} {motive : Position → Position → Prop} :
    (∀ p q, t.Sends p q → motive p q) ↔ ∀ pair ∈ t.pairs, motive pair.1 pair.2 := by
  simp only [sends_iff_mem_pairs, Prod.forall]

theorem order_bySource {t : PositionTable} {i j : Nat} (hij : i < j) (hj : j < t.bySource.size) :
    (t.bySource[i]).order t.bySource[j] = true := by
  have hpairwise : (anchors t.source t.mappings).Pairwise fun a b => a.order b = true :=
    List.pairwise_mergeSort Anchor.order_trans Anchor.order_total _
  have hlist : t.bySource.toList = anchors t.source t.mappings := by rw [t.bySource_eq]
  rw [← hlist] at hpairwise
  exact List.pairwise_iff_getElem.mp hpairwise i j (by simp; omega) (by simpa using hj) hij

theorem upTo_bySource {t : PositionTable} {i j : Nat} (hij : i ≤ j) (hj : j < t.bySource.size) :
    (t.bySource[i]).position.upTo t.bySource[j].position = true := by
  rcases Nat.lt_or_eq_of_le hij with hlt | rfl
  · rcases Anchor.order_iff.mp (order_bySource hlt hj) with hbefore | ⟨hsame, -⟩
    · exact Position.upTo_of_before hbefore
    · rw [hsame]
      exact Position.upTo_refl _
  · exact Position.upTo_refl _

theorem partitioned_bySource (t : PositionTable) (p : Position) :
    Partitioned t.bySource fun a => a.position.before p := by
  intro i j hj hij hbefore
  rcases Position.upTo_iff_before_or_eq.mp (upTo_bySource hij hj) with hlt | heq
  · exact Position.before_of_before_of_upTo hlt (Position.upTo_of_before hbefore)
  · simpa only [heq] using hbefore

theorem partitioned_bySource_upTo (t : PositionTable) (p : Position) :
    Partitioned t.bySource fun a => a.position.upTo p := by
  intro i j hj hij hupTo
  exact Position.upTo_trans (upTo_bySource hij hj) hupTo

/-! ## Where the binary searches stop -/

section

variable {t : PositionTable} {bias : Bias} {p : Position}

/-- The anchor stands in the place `i` of the index, first of all with its source position, and
nothing else that is reached is nearer. -/
structure Stops (t : PositionTable) (bias : Bias) (p : Position) (i : Nat) (a : Anchor) : Prop where
  place : t.bySource[i]? = some a
  reached : bias.reaches p a.position = true
  first : ∀ (j : Nat) (b : Anchor), t.bySource[j]? = some b → j < i →
    b.position.before a.position = true
  nearest : ∀ b ∈ t.bySource, bias.reaches p b.position = true →
    bias.nearer a.position b.position = true ∨ a.position = b.position

theorem stops_leastUpper (t : PositionTable) (p : Position) :
    (t.find? p .leastUpper = none ∧ ∀ a ∈ t.bySource, p.upTo a.position = false)
      ∨ ∃ i a, t.find? p .leastUpper = some a.mapping ∧ t.Stops .leastUpper p i a := by
  obtain ⟨-, hbefore, hfrom⟩ := partitionPoint_spec (t.partitioned_bySource p)
  rw [find?]
  generalize partitionPoint t.bySource (fun a => a.position.before p) = i at hbefore hfrom ⊢
  by_cases hi : i < t.bySource.size
  · have hreached : p.upTo t.bySource[i].position = true :=
      Position.not_before.mp (by simp [hfrom i hi (Nat.le_refl i)])
    refine Or.inr ⟨i, t.bySource[i], by simp [hi], by simp [hi], hreached, ?_, ?_⟩
    · intro j b hb hlt
      obtain ⟨hj, rfl⟩ := Array.getElem?_eq_some_iff.mp hb
      exact Position.before_of_before_of_upTo (hbefore j hj hlt) hreached
    · intro b hb hupTo
      obtain ⟨j, hj, rfl⟩ := Array.getElem_of_mem hb
      have hij : i ≤ j := Nat.le_of_not_lt fun hlt =>
        Position.not_before.mpr hupTo (hbefore j hj hlt)
      exact Position.upTo_iff_before_or_eq.mp (upTo_bySource hij hj)
  · refine Or.inl ⟨by simp [hi], ?_⟩
    intro a ha
    obtain ⟨j, hj, rfl⟩ := Array.getElem_of_mem ha
    simp [Position.upTo, hbefore j hj (by omega)]

theorem stops_greatestLower (t : PositionTable) (p : Position) :
    (t.find? p .greatestLower = none ∧ ∀ a ∈ t.bySource, a.position.upTo p = false)
      ∨ ∃ i a, t.find? p .greatestLower = some a.mapping ∧ t.Stops .greatestLower p i a := by
  obtain ⟨hle, hupTo, hbeyond⟩ := partitionPoint_spec (t.partitioned_bySource_upTo p)
  rw [find?]
  generalize partitionPoint t.bySource (fun a => a.position.upTo p) = n at hle hupTo hbeyond ⊢
  rcases Nat.eq_zero_or_pos n with rfl | hpos
  · refine Or.inl ⟨by split <;> rfl, ?_⟩
    intro a ha
    obtain ⟨j, hj, rfl⟩ := Array.getElem_of_mem ha
    exact hbeyond j hj (Nat.zero_le j)
  · -- the last anchor that is reached tells the source position, the second search its first anchor
    have hlast : n - 1 < t.bySource.size := by omega
    obtain ⟨-, hbefore, hfrom⟩ :=
      partitionPoint_spec (t.partitioned_bySource t.bySource[n - 1].position)
    simp only [Array.getElem?_eq_getElem hlast, Nat.ne_of_gt hpos, if_false]
    generalize partitionPoint t.bySource
      (fun a => a.position.before t.bySource[n - 1].position) = i at hbefore hfrom ⊢
    have hin : i ≤ n - 1 := Nat.le_of_not_lt fun hlt =>
      Position.not_before.mpr (Position.upTo_refl _) (hbefore (n - 1) hlast hlt)
    have hi : i < t.bySource.size := by omega
    have hsame : t.bySource[i].position = t.bySource[n - 1].position :=
      Position.upTo_antisymm (upTo_bySource hin hlast)
        (Position.not_before.mp (by simp [hfrom i hi (Nat.le_refl i)]))
    refine Or.inr ⟨i, t.bySource[i], by simp [hi], by simp [hi], hupTo i hi (by omega), ?_, ?_⟩
    · intro j b hb hlt
      obtain ⟨hj, rfl⟩ := Array.getElem?_eq_some_iff.mp hb
      rw [hsame]
      exact hbefore j hj hlt
    · intro b hb hreached
      obtain ⟨j, hj, rfl⟩ := Array.getElem_of_mem hb
      have hjn : j ≤ n - 1 := by
        refine Nat.le_of_not_lt fun hlt => ?_
        simp [Bias.reaches, hbeyond j hj (by omega)] at hreached
      rw [hsame]
      rcases Position.upTo_iff_before_or_eq.mp (upTo_bySource hjn hlast) with hlt | heq
      · exact Or.inl hlt
      · exact Or.inr heq.symm

/-- Nothing is found where nothing is reached, else the mapping of the anchor where the search
stops. -/
theorem find?_cases (t : PositionTable) (bias : Bias) (p : Position) :
    (t.find? p bias = none ∧ ∀ a ∈ t.bySource, bias.reaches p a.position = false)
      ∨ ∃ i a, t.find? p bias = some a.mapping ∧ t.Stops bias p i a := by
  cases bias with
  | leastUpper => exact stops_leastUpper t p
  | greatestLower => exact stops_greatestLower t p

/-- From one source position the index goes by generated position. -/
theorem Stops.upTo_generated {i : Nat} {a b : Anchor} (h : t.Stops bias p i a)
    (hb : b ∈ t.bySource) (hsame : a.position = b.position) :
    a.mapping.generated.upTo b.mapping.generated = true := by
  obtain ⟨hi, rfl⟩ := Array.getElem?_eq_some_iff.mp h.place
  obtain ⟨j, hj, rfl⟩ := Array.getElem_of_mem hb
  rcases Nat.lt_trichotomy i j with hlt | rfl | hgt
  · rcases Anchor.order_iff.mp (order_bySource hlt hj) with hbefore | ⟨-, hupTo⟩
    · rw [hsame] at hbefore
      exact absurd hbefore (Position.not_before.mpr (Position.upTo_refl _))
    · exact hupTo
  · exact Position.upTo_refl _
  · have hbefore := h.first j _ (Array.getElem?_eq_getElem hj) hgt
    rw [hsame] at hbefore
    exact absurd hbefore (Position.not_before.mpr (Position.upTo_refl _))

end

/-! ## The nearest mapping -/

/-- The mapping `m` at `q` is the first of the selected source at or after `p`, by source position
and then by generated position. -/
structure Nearest (t : PositionTable) (p : Position) (m : Mapping) (q : Position) : Prop where
  position : m.sourcePosition = some q
  sends : t.Sends q m.generated
  upTo : p.upTo q = true
  least : ∀ {q' g}, t.Sends q' g → p.upTo q' = true →
    q.before q' = true ∨ q = q' ∧ m.generated.upTo g = true

theorem nearest_of_find? {t : PositionTable} {p : Position} {m : Mapping}
    (h : t.find? p .leastUpper = some m) : ∃ q, t.Nearest p m q := by
  rcases t.find?_cases .leastUpper p with ⟨hnone, -⟩ | ⟨i, a, hsome, hstops⟩
  · rw [hnone] at h
    cases h
  · obtain rfl := Option.some.inj (hsome.symm.trans h)
    have hmem : a ∈ t.bySource := Array.mem_of_getElem? hstops.place
    refine ⟨a.position, sourcePosition_of_mem_bySource hmem,
      sends_iff_mem_bySource.mpr ⟨a, hmem, rfl, rfl⟩, hstops.reached, ?_⟩
    intro q g hsends hupTo
    obtain ⟨b, hb, rfl, rfl⟩ := sends_iff_mem_bySource.mp hsends
    rcases hstops.nearest b hb hupTo with hbefore | hsame
    · exact Or.inl hbefore
    · exact Or.inr ⟨hsame, hstops.upTo_generated hb hsame⟩

theorem before_of_find?_eq_none {t : PositionTable} {p q g : Position}
    (h : t.find? p .leastUpper = none) (hsends : t.Sends q g) : q.before p = true := by
  rcases t.find?_cases .leastUpper p with ⟨-, hout⟩ | ⟨i, a, hsome, -⟩
  · obtain ⟨a, ha, rfl, -⟩ := sends_iff_mem_bySource.mp hsends
    simpa [Bias.reaches, Position.upTo] using hout a ha
  · rw [hsome] at h
    cases h

theorem find?_eq_none_of_before {t : PositionTable} {p : Position}
    (h : ∀ q g, t.Sends q g → q.before p = true) : t.find? p .leastUpper = none := by
  cases hfind : t.find? p .leastUpper with
  | none => rfl
  | some m =>
      obtain ⟨q, hnearest⟩ := nearest_of_find? hfind
      exact absurd (h _ _ hnearest.sends) (Position.not_before.mpr hnearest.upTo)

/-- A table that sends nothing to another place sends a lookup to the first place that it has from
there on. -/
theorem find?_of_first {t : PositionTable} (hsame : ∀ q g, t.Sends q g → q = g) {p r : Position}
    (hr : t.Sends r r) (hupTo : p.upTo r = true)
    (hfirst : ∀ q, t.Sends q q → p.upTo q = true → r.upTo q = true) :
    ∃ m, t.find? p .leastUpper = some m ∧ m.sourcePosition = some r ∧ m.generated = r := by
  cases hfind : t.find? p .leastUpper with
  | none => exact absurd (before_of_find?_eq_none hfind hr) (Position.not_before.mpr hupTo)
  | some m =>
      obtain ⟨q, hnearest⟩ := nearest_of_find? hfind
      obtain rfl := hsame q m.generated hnearest.sends
      have hq := hfirst _ hnearest.sends hnearest.upTo
      rcases hnearest.least hr hupTo with hbefore | ⟨heq, -⟩
      · exact absurd hbefore (Position.not_before.mpr hq)
      · exact ⟨m, rfl, heq ▸ hnearest.position, heq⟩

/-- A later lookup finds a later source position, or the same source and generated position. -/
theorem Nearest.mono {t : PositionTable} {p p' : Position} {m m' : Mapping} {q q' : Position}
    (h : t.Nearest p m q) (h' : t.Nearest p' m' q') (hp : p.upTo p' = true) :
    q.before q' = true ∨ q = q' ∧ m.generated = m'.generated := by
  rcases h.least h'.sends (Position.upTo_trans hp h'.upTo) with hlt | ⟨rfl, hg⟩
  · exact Or.inl hlt
  · refine Or.inr ⟨rfl, Position.upTo_antisymm hg ?_⟩
    rcases h'.least h.sends h'.upTo with hlt | ⟨-, hg'⟩
    · exact absurd hlt (Position.not_before.mpr (Position.upTo_refl q))
    · exact hg'

end PositionTable

end BundleSize
