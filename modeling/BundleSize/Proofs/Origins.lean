import BundleSize.Proofs.Scan
import Mathlib

/-!
# Where generated positions came from

The index by generated position runs over all lines of the generated text. A lookup
for where a position came from halves it as a whole and only then asks whether what
it stopped at is on the line of the position. Said without an index it is a scan of
that line alone: the mappings on the line that begin at or before the position
cover it (`PositionTable.covering`), and of these the one that begins furthest to the
right decides, the last decoded if several begin there (`Rightmost`).

Both tie-breaks come from the index (`PositionTable.Precedes`). Nothing that is not
beyond the position stands behind the mapping where the search stops, so a covering
mapping on the line would keep the search from stopping on an earlier one. And the
sort is stable, so of the mappings with one generated position the last in the index
is the last decoded.

From this the two directions of lookup agree (`PositionTable.origin?_of_generated?`). A
mapping that shares its generated position with no other is the only one that can
decide there, of whatever source the others are.
-/

namespace BundleSize

/-- What a mapping tells about its generated position. -/
def Mapping.origin? (m : Mapping) : Option Origin :=
  match m.source, m.sourcePosition with
  | some source, some position => some ⟨position, source, m.name⟩
  | _, _ => none

theorem Mapping.order_trans (a b c : Mapping) (hab : a.order b = true) (hbc : b.order c = true) :
    a.order c = true :=
  Position.upTo_trans hab hbc

theorem Mapping.order_total (a b : Mapping) : (a.order b || b.order a) = true :=
  Position.upTo_total a.generated b.generated

theorem getLast?_filter_of_later {q : α → Bool} {l : List α} {n : Nat} (hn : n < l.length)
    (hq : q l[n] = true) (hlater : ∀ i (h : i < l.length), n < i → q l[i] = false) :
    (l.filter q).getLast? = some l[n] := by
  have hnone : (l.drop (n + 1)).filter q = [] := by
    refine List.filter_eq_nil_iff.mpr fun a ha => ?_
    obtain ⟨i, hi, rfl⟩ := List.getElem_of_mem ha
    rw [List.length_drop] at hi
    simp [hlater (n + 1 + i) (by omega) (by omega)]
  have hsplit : l = l.take n ++ l[n] :: l.drop (n + 1) := by
    rw [← List.drop_eq_getElem_cons hn, List.take_append_drop]
  calc (l.filter q).getLast?
      = ((l.take n ++ l[n] :: l.drop (n + 1)).filter q).getLast? := by rw [← hsplit]
    _ = some l[n] := by
      rw [List.filter_append, List.filter_cons_of_pos hq, hnone, List.getLast?_concat]

/-- Of the mappings of a line, `m` begins furthest to the right, and none behind it begins there
too. -/
def Rightmost (line : List Mapping) (m : Mapping) : Prop :=
  ∃ before after, line = before ++ m :: after
    ∧ (∀ b ∈ before, b.generated.column ≤ m.generated.column)
    ∧ ∀ a ∈ after, a.generated.column < m.generated.column

theorem Rightmost.unique {line : List Mapping} {m m' : Mapping} (h : Rightmost line m)
    (h' : Rightmost line m') : m = m' := by
  obtain ⟨before, after, rfl, hbefore, hafter⟩ := h
  obtain ⟨before', after', hline, hbefore', hafter'⟩ := h'
  rcases List.append_eq_append_iff.mp hline with ⟨between, rfl, hrest⟩ | ⟨between, rfl, hrest⟩
  · cases between with
    | nil => exact (List.cons.inj hrest).1
    | cons n between =>
        -- `m` stands before `m'`
        obtain ⟨rfl, rfl⟩ := List.cons.inj hrest
        have hle := hbefore' m (by simp)
        have hlt := hafter m' (by simp)
        omega
  · cases between with
    | nil => exact (List.cons.inj hrest).1.symm
    | cons n between =>
        obtain ⟨rfl, rfl⟩ := List.cons.inj hrest
        have hle := hbefore m' (by simp)
        have hlt := hafter' m (by simp)
        omega

theorem Rightmost.ne_nil {line : List Mapping} {m : Mapping} (h : Rightmost line m) :
    line ≠ [] := by
  obtain ⟨before, after, rfl, -, -⟩ := h
  simp

namespace PositionTable

variable {t : PositionTable} {p : Position} {m : Mapping}

/-- The mappings on the line of a generated position that begin at or before it, in the order of
decoding. -/
def covering (t : PositionTable) (p : Position) : List Mapping :=
  t.mappings.filter fun m => m.generated.line = p.line ∧ m.generated.column ≤ p.column

theorem mem_covering : m ∈ t.covering p ↔
    m ∈ t.mappings ∧ m.generated.line = p.line ∧ m.generated.column ≤ p.column := by
  simp [covering]

theorem upTo_of_mem_covering (h : m ∈ t.covering p) : m.generated.upTo p = true :=
  Position.upTo_iff.mpr (Or.inr (mem_covering.mp h).2)

/-! ## The index by generated position -/

theorem toList_byGenerated (t : PositionTable) :
    t.byGenerated.toList = t.mappings.mergeSort Mapping.order := by
  rw [t.byGenerated_eq]

theorem mem_byGenerated : m ∈ t.byGenerated ↔ m ∈ t.mappings := by
  rw [t.byGenerated_eq, List.mem_toArray, List.mem_mergeSort]

theorem upTo_byGenerated {i j : Nat} (hij : i ≤ j) (hj : j < t.byGenerated.size) :
    (t.byGenerated[i]).generated.upTo t.byGenerated[j].generated = true := by
  have hpairwise : (t.mappings.mergeSort Mapping.order).Pairwise fun a b => a.order b = true :=
    List.pairwise_mergeSort Mapping.order_trans Mapping.order_total _
  rw [← toList_byGenerated] at hpairwise
  rcases Nat.lt_or_eq_of_le hij with hlt | rfl
  · exact List.pairwise_iff_getElem.mp hpairwise i j (by simp; omega) (by simpa using hj) hlt
  · exact Position.upTo_refl _

theorem partitioned_byGenerated (t : PositionTable) (p : Position) :
    Partitioned t.byGenerated fun m => m.generated.upTo p := by
  intro i j hj hij hupTo
  exact Position.upTo_trans (upTo_byGenerated hij hj) hupTo

/-- The mapping is the last of the index that is not beyond the position. -/
structure Precedes (t : PositionTable) (m : Mapping) (p : Position) : Prop where
  upTo : m.generated.upTo p = true
  last : ∀ m' ∈ t.mappings, m'.generated.upTo p = true →
    m'.generated.upTo m.generated = true
  decoded_last : (t.mappings.filter fun m' => m'.generated = m.generated).getLast? = some m

theorem precedes_of_isPartitionPoint {n : Nat}
    (h : IsPartitionPoint t.byGenerated (fun m => m.generated.upTo p) (n + 1))
    (hm : t.byGenerated[n]? = some m) : t.Precedes m p := by
  obtain ⟨hn, rfl⟩ := Array.getElem?_eq_some_iff.mp hm
  obtain ⟨-, hupTo, hbeyond⟩ := h
  simp only at hupTo hbeyond
  have hreached := hupTo n hn (Nat.lt_succ_self n)
  refine ⟨hreached, ?_, ?_⟩
  · intro m' hm' hreached'
    obtain ⟨i, hi, rfl⟩ := Array.getElem_of_mem (mem_byGenerated.mpr hm')
    refine upTo_byGenerated (Nat.le_of_not_lt fun hlt => ?_) hn
    rw [hbeyond i hi hlt] at hreached'
    cases hreached'
  · -- the index goes on beyond the position, so nothing behind `m` has its generated position
    have htied : ∀ a b : Mapping, decide (a.generated = t.byGenerated[n].generated) = true →
        decide (b.generated = t.byGenerated[n].generated) = true → a.order b = true := by
      intro a b ha hb
      rw [Mapping.order, of_decide_eq_true ha, of_decide_eq_true hb]
      exact Position.upTo_refl _
    rw [← filter_mergeSort_of_tied Mapping.order_trans Mapping.order_total htied,
      ← toList_byGenerated]
    refine getLast?_filter_of_later (l := t.byGenerated.toList) hn (decide_eq_true rfl) ?_
    intro i hi hlt
    have hfalse := hbeyond i hi hlt
    rw [Array.getElem_toList]
    refine decide_eq_false fun hsame => ?_
    rw [hsame, hreached] at hfalse
    cases hfalse

/-- The last mapping that is not beyond the position tells where it came from, if it is on the
line. -/
theorem origin?_cases (t : PositionTable) (p : Position) :
    (t.origin? p = none ∧ ∀ m ∈ t.mappings, m.generated.upTo p = false)
      ∨ ∃ m, t.Precedes m p
        ∧ t.origin? p = if m.generated.line = p.line then m.origin? else none := by
  have hpoint := partitionPoint_spec (t.partitioned_byGenerated p)
  rw [origin?]
  generalize partitionPoint t.byGenerated (fun m => m.generated.upTo p) = n at hpoint ⊢
  cases n with
  | zero =>
      refine Or.inl ⟨rfl, fun m hm => ?_⟩
      obtain ⟨i, hi, rfl⟩ := Array.getElem_of_mem (mem_byGenerated.mpr hm)
      exact hpoint.2.2 i hi (Nat.zero_le i)
  | succ n =>
      have hget : t.byGenerated[n]? = some _ := Array.getElem?_eq_getElem hpoint.1
      refine Or.inr ⟨_, precedes_of_isPartitionPoint hpoint hget, ?_⟩
      simp only [Nat.add_one_ne_zero, if_false, Nat.add_sub_cancel, hget, ne_eq, ite_not]
      rfl

theorem Precedes.mem (h : t.Precedes m p) : m ∈ t.mappings :=
  (List.mem_filter.mp (List.mem_of_getLast? h.decoded_last)).1

/-! ## Scanning a line -/

theorem Precedes.rightmost (h : t.Precedes m p) (hline : m.generated.line = p.line) :
    Rightmost (t.covering p) m := by
  have hcolumn : ∀ m' ∈ t.covering p, m'.generated.line = m.generated.line
      ∧ m'.generated.column ≤ m.generated.column := by
    intro m' hm'
    obtain ⟨hmem, hline', -⟩ := mem_covering.mp hm'
    have hupTo := Position.upTo_iff.mp (h.last m' hmem (upTo_of_mem_covering hm'))
    omega
  have hupTo := Position.upTo_iff.mp h.upTo
  have htied : (t.covering p).filter (fun m' => m'.generated = m.generated)
      = t.mappings.filter fun m' => m'.generated = m.generated := by
    rw [covering, List.filter_filter]
    refine List.filter_congr fun m' _ => ?_
    by_cases hsame : m'.generated = m.generated
    · have hle : m.generated.column ≤ p.column := by omega
      simp [hsame, hline, hle]
    · simp [hsame]
  have hlast := h.decoded_last
  rw [← htied, List.getLast?_filter, List.find?_eq_some_iff_append] at hlast
  obtain ⟨-, after, before, hsplit, hafter⟩ := hlast
  rw [List.reverse_eq_iff, List.reverse_append, List.reverse_cons, List.append_assoc] at hsplit
  refine ⟨before.reverse, after.reverse, hsplit, ?_, ?_⟩
  · intro b hb
    exact (hcolumn b (hsplit ▸ List.mem_append_left _ hb)).2
  · intro a ha
    obtain ⟨hline', hle⟩ := hcolumn a (by rw [hsplit]; simp [List.mem_reverse.mp ha])
    have hne : a.generated ≠ m.generated := by simpa using hafter a (List.mem_reverse.mp ha)
    have hupTo' := Position.upTo_iff.mpr (Or.inr ⟨hline', hle⟩)
    refine Int.not_le.mp fun hback => hne (Position.upTo_antisymm hupTo' ?_)
    exact Position.upTo_iff.mpr (Or.inr ⟨hline'.symm, hback⟩)

/-- Without a covering mapping nothing decides, else the rightmost one does. -/
theorem origin?_of_covering (t : PositionTable) (p : Position) :
    (t.covering p = [] ∧ t.origin? p = none)
      ∨ ∃ m, Rightmost (t.covering p) m ∧ t.origin? p = m.origin? := by
  rcases t.origin?_cases p with ⟨hnone, hout⟩ | ⟨m, hprecedes, horigin⟩
  · refine Or.inl ⟨List.eq_nil_iff_forall_not_mem.mpr fun m hm => ?_, hnone⟩
    have hupTo := upTo_of_mem_covering hm
    rw [hout m (mem_covering.mp hm).1] at hupTo
    cases hupTo
  · by_cases hline : m.generated.line = p.line
    · rw [if_pos hline] at horigin
      exact Or.inr ⟨m, hprecedes.rightmost hline, horigin⟩
    · -- a covering mapping would stand between `m` and the position, hence on the line of both
      rw [if_neg hline] at horigin
      refine Or.inl ⟨List.eq_nil_iff_forall_not_mem.mpr fun m' hm' => hline ?_, horigin⟩
      obtain ⟨hmem, hline', -⟩ := mem_covering.mp hm'
      have hafter := Position.upTo_iff.mp (hprecedes.last m' hmem (upTo_of_mem_covering hm'))
      have hupTo := Position.upTo_iff.mp hprecedes.upTo
      omega

theorem origin?_eq_of_covering {t' : PositionTable} (h : t'.covering p = t.covering p) :
    t'.origin? p = t.origin? p := by
  have horigin' := t'.origin?_of_covering p
  rw [h] at horigin'
  rcases t.origin?_of_covering p with ⟨hempty, hnone⟩ | ⟨m, hm, horigin⟩ <;>
    rcases horigin' with ⟨hempty', hnone'⟩ | ⟨m', hm', horigin'⟩
  · rw [hnone, hnone']
  · exact absurd hempty hm'.ne_nil
  · exact absurd hempty' hm.ne_nil
  · rw [horigin, horigin', hm.unique hm']

theorem covering_eq_of_line {t' : PositionTable}
    (h : (t'.mappings.filter fun m => m.generated.line = p.line)
      = t.mappings.filter fun m => m.generated.line = p.line) : t'.covering p = t.covering p := by
  have hline : ∀ t : PositionTable, t.covering p
      = (t.mappings.filter fun m => m.generated.line = p.line).filter
        fun m => m.generated.column ≤ p.column := by
    intro t
    simp only [covering, List.filter_filter, Bool.decide_and, Bool.and_comm]
  rw [hline, hline, h]

/-- **The origin of a generated position is found by scanning its line.** Nothing is found where no
mapping on the line begins at or before the position. Otherwise the one that begins furthest to the
right tells the origin, the last decoded if several begin there, and it tells none if it has no
source. Two tables that agree in the mappings on the line agree in the origin. -/
theorem origin?_eq_scan (t : PositionTable) (p : Position) :
    ((t.covering p = [] ∧ t.origin? p = none)
        ∨ ∃ m, Rightmost (t.covering p) m
          ∧ (m.source = none → t.origin? p = none)
          ∧ ∀ source q, m.source = some source → m.sourcePosition = some q →
            t.origin? p = some ⟨q, source, m.name⟩)
      ∧ ∀ t' : PositionTable, (t'.mappings.filter fun m => m.generated.line = p.line)
          = (t.mappings.filter fun m => m.generated.line = p.line) → t'.origin? p = t.origin? p := by
  constructor
  · rcases t.origin?_of_covering p with hnone | ⟨m, hm, horigin⟩
    · exact Or.inl hnone
    · refine Or.inr ⟨m, hm, fun hsource => ?_, fun source q hsource hq => ?_⟩
      · rw [horigin, Mapping.origin?, hsource]
      · rw [horigin, Mapping.origin?, hsource, hq]
  · intro t' hsame
    exact origin?_eq_of_covering (covering_eq_of_line hsame)

/-- Four mappings begin at or before the position on its line, three of them at the same column. -/
def sharedColumns : PositionTable :=
  .ofMappings
    [⟨⟨2, 6⟩, some (.string "a"), some ⟨4, 0⟩, none⟩,
      ⟨⟨2, 4⟩, some (.string "b"), some ⟨7, 7⟩, none⟩,
      ⟨⟨1, 9⟩, some (.string "a"), some ⟨1, 8⟩, none⟩,
      ⟨⟨2, 4⟩, none, none, none⟩,
      ⟨⟨2, 4⟩, some (.string "a"), some ⟨5, 5⟩, some (.string "g")⟩,
      ⟨⟨2, 0⟩, some (.string "a"), some ⟨1, 0⟩, none⟩,
      ⟨⟨3, 0⟩, none, none, none⟩] none

/-- The same line without the others. -/
def sharedColumnsAlone : PositionTable :=
  .ofMappings
    [⟨⟨2, 6⟩, some (.string "a"), some ⟨4, 0⟩, none⟩,
      ⟨⟨2, 4⟩, some (.string "b"), some ⟨7, 7⟩, none⟩,
      ⟨⟨2, 4⟩, none, none, none⟩,
      ⟨⟨2, 4⟩, some (.string "a"), some ⟨5, 5⟩, some (.string "g")⟩,
      ⟨⟨2, 0⟩, some (.string "a"), some ⟨1, 0⟩, none⟩] (some (.string "b"))

theorem origin?_eq_scan_sharedColumns :
    (sharedColumnsAlone.mappings.filter fun m => m.generated.line = 2)
        = (sharedColumns.mappings.filter fun m => m.generated.line = 2)
      ∧ sharedColumns.origin? ⟨2, 5⟩ = some ⟨⟨5, 5⟩, .string "a", some (.string "g")⟩
      ∧ sharedColumnsAlone.origin? ⟨2, 5⟩ = some ⟨⟨5, 5⟩, .string "a", some (.string "g")⟩ := by
  have hline : (sharedColumnsAlone.mappings.filter fun m => m.generated.line = 2)
      = (sharedColumns.mappings.filter fun m => m.generated.line = 2) := by cbv
  have horigin : sharedColumns.origin? ⟨2, 5⟩
      = some ⟨⟨5, 5⟩, .string "a", some (.string "g")⟩ := by cbv
  exact ⟨hline, horigin, ((sharedColumns.origin?_eq_scan ⟨2, 5⟩).2 _ hline).trans horigin⟩

/-! ## Both directions -/

/-- The least source position of the selected source from `p` on is `q`. -/
structure LeastFrom (t : PositionTable) (p q : Position) : Prop where
  sends : ∃ g, t.Sends q g
  upTo : p.upTo q = true
  least : ∀ q' g, t.Sends q' g → p.upTo q' = true → q.upTo q' = true

/-- A mapping that shares its generated position with no other tells the origin there. -/
theorem origin?_generated (hdistinct : (t.mappings.map (·.generated)).Nodup)
    (hm : m ∈ t.mappings) : t.origin? m.generated = m.origin? := by
  rcases t.origin?_cases m.generated with ⟨-, hout⟩ | ⟨m', hprecedes, horigin⟩
  · have hbeyond := hout m hm
    rw [Position.upTo_refl] at hbeyond
    cases hbeyond
  · have hsame : m'.generated = m.generated :=
      Position.upTo_antisymm hprecedes.upTo (hprecedes.last m hm (Position.upTo_refl _))
    obtain rfl : m' = m := List.inj_on_of_nodup_map hdistinct hprecedes.mem hm hsame
    rw [horigin, if_pos rfl]

/-- A mapping that is found tells the least source position from the one that was looked up. -/
theorem leastFrom_of_find? (hfind : t.find? p .leastUpper = some m) :
    ∃ source q, m ∈ t.mappings ∧ m.origin? = some ⟨q, source, m.name⟩ ∧ t.source = some source
      ∧ t.LeastFrom p q := by
  obtain ⟨q, hnearest⟩ := nearest_of_find? hfind
  rcases t.find?_least .leastUpper p with ⟨hnone, -⟩ | ⟨k, q', m', hsome, hcandidate, -⟩
  · rw [hnone] at hfind
    cases hfind
  · obtain rfl := Option.some.inj (hsome.symm.trans hfind)
    obtain ⟨source, hsource, hlabel⟩ := hcandidate.source
    refine ⟨source, q, List.mem_of_getElem? hcandidate.place, ?_, hsource,
      ⟨_, hnearest.sends⟩, hnearest.upTo, ?_⟩
    · rw [Mapping.origin?, hlabel, hnearest.position]
    · intro q' g hsends hreached
      rcases hnearest.least hsends hreached with hbefore | ⟨rfl, -⟩
      · exact Position.upTo_of_before hbefore
      · exact Position.upTo_refl _

/-- **The two directions of lookup agree.** Let no two mappings share a generated position. Where a
lookup for a source position finds a mapping, the origin of the generated position that it gives is
the least position of the selected source from the one that was looked up on. So a source position
that has a mapping leads back to itself. -/
theorem origin?_of_generated? (hdistinct : (t.mappings.map (·.generated)).Nodup) (p : Position) :
    (∀ m, t.find? p .leastUpper = some m →
        t.generated? p .leastUpper = some m.generated
          ∧ ∃ origin, t.origin? m.generated = some origin ∧ t.source = some origin.source
            ∧ t.LeastFrom p origin.position)
      ∧ ∀ g, t.Sends p g → ∃ g' origin, t.generated? p .leastUpper = some g'
        ∧ t.origin? g' = some origin ∧ t.source = some origin.source ∧ origin.position = p := by
  have hback : ∀ m, t.find? p .leastUpper = some m →
      t.generated? p .leastUpper = some m.generated
        ∧ ∃ origin, t.origin? m.generated = some origin ∧ t.source = some origin.source
          ∧ t.LeastFrom p origin.position := by
    intro m hfind
    obtain ⟨source, q, hm, horigin, hsource, hleast⟩ := leastFrom_of_find? hfind
    refine ⟨by rw [generated?, hfind]; rfl, ⟨q, source, m.name⟩, ?_, hsource, hleast⟩
    rw [origin?_generated hdistinct hm, horigin]
  refine ⟨hback, fun g hsends => ?_⟩
  cases hfind : t.find? p .leastUpper with
  | none =>
      have hbefore := before_of_find?_eq_none hfind hsends
      exact absurd hbefore (Position.not_before.mpr (Position.upTo_refl p))
  | some m =>
      obtain ⟨hgenerated, origin, horigin, hsource, hleast⟩ := hback m hfind
      refine ⟨_, origin, hgenerated, horigin, hsource, ?_⟩
      exact Position.upTo_antisymm (hleast.least p g hsends (Position.upTo_refl p)) hleast.upTo

/-- Two sources, text of no source, and a source position that went to two lines. -/
def twoLines : PositionTable :=
  .ofMappings
    [⟨⟨2, 0⟩, some (.string "a"), some ⟨1, 4⟩, none⟩,
      ⟨⟨1, 6⟩, some (.string "b"), some ⟨1, 2⟩, none⟩,
      ⟨⟨1, 3⟩, none, none, none⟩,
      ⟨⟨1, 2⟩, some (.string "a"), some ⟨1, 4⟩, some (.string "f")⟩,
      ⟨⟨1, 0⟩, some (.string "a"), some ⟨3, 1⟩, none⟩] none

theorem origin?_of_generated?_twoLines :
    (twoLines.mappings.map (·.generated)).Nodup
      ∧ twoLines.generated? ⟨1, 1⟩ .leastUpper = some ⟨1, 2⟩
      ∧ (∃ origin, twoLines.origin? ⟨1, 2⟩ = some origin
        ∧ twoLines.LeastFrom ⟨1, 1⟩ origin.position)
      ∧ ∃ g origin, twoLines.generated? ⟨3, 1⟩ .leastUpper = some g
        ∧ twoLines.origin? g = some origin ∧ origin.position = ⟨3, 1⟩ := by
  have hdistinct : (twoLines.mappings.map (·.generated)).Nodup := by decide
  have hfind : twoLines.find? ⟨1, 1⟩ .leastUpper
      = some ⟨⟨1, 2⟩, some (.string "a"), some ⟨1, 4⟩, some (.string "f")⟩ := by cbv
  have hsends : twoLines.Sends ⟨3, 1⟩ ⟨1, 0⟩ := sends_iff_mem_pairs.mpr (by decide)
  obtain ⟨hgenerated, origin, horigin, -, hleast⟩ :=
    (origin?_of_generated? hdistinct ⟨1, 1⟩).1 _ hfind
  obtain ⟨g, origin', hg, horigin', -, hsame⟩ :=
    (origin?_of_generated? hdistinct ⟨3, 1⟩).2 _ hsends
  exact ⟨hdistinct, hgenerated, ⟨origin, horigin, hleast⟩, g, origin', hg, horigin', hsame⟩

end PositionTable

end BundleSize
