import BundleSize.Offsets.Translator
import BundleSize.Proofs.Scan
import Mathlib

/-!
# Only the selected source counts

A table holds its mappings in the order in which they were given and sorts them
stably, so the order may decide which of several mappings is found. It does not
decide where they lead: mappings that a lookup ranks alike up to their place in the
order come from one position and go to one position. So the ends of what is found
depend only on which positions the selected source ties together
(`PositionTable.find?_ends_eq`), and with them every translation.
-/

namespace BundleSize

namespace PositionTable

variable {t t' : PositionTable} {bias : Bias} {p q g : Position}

theorem Candidate.sends {k : Nat} {m : Mapping} (h : t.Candidate bias p k q m) :
    t.Sends q m.generated := by
  obtain ⟨label, hsource, hlabel⟩ := h.source
  exact ⟨m, List.mem_of_getElem? h.place, label, hsource, hlabel, h.position, rfl⟩

theorem exists_candidate (hsends : t.Sends q g) (hreached : bias.reaches p q = true) :
    ∃ k m, t.Candidate bias p k q m ∧ m.generated = g := by
  obtain ⟨m, hm, label, hsource, hlabel, hposition, hg⟩ := hsends
  obtain ⟨k, hk⟩ := List.mem_iff_getElem?.mp hm
  exact ⟨k, m, ⟨hk, ⟨label, hsource, hlabel⟩, hposition, hreached⟩, hg⟩

/-- What is a candidate in one table has a match in the other. -/
theorem Candidate.matched (hsame : ∀ q g, t.Sends q g → t'.Sends q g) {k : Nat} {m : Mapping}
    (h : t.Candidate bias p k q m) :
    ∃ k' m', t'.Candidate bias p k' q m' ∧ m'.generated = m.generated :=
  exists_candidate (hsame q m.generated h.sends) h.reached

/-- The source position and the generated position of what is found depend only on the positions
that the selected source ties together. -/
theorem find?_ends_eq (hsame : ∀ q g, t.Sends q g ↔ t'.Sends q g) (bias : Bias) (p : Position) :
    (t.find? p bias).map (fun m => (m.sourcePosition, m.generated))
      = (t'.find? p bias).map (fun m => (m.sourcePosition, m.generated)) := by
  have hto : ∀ q g, t.Sends q g → t'.Sends q g := fun q g => (hsame q g).mp
  have hfrom : ∀ q g, t'.Sends q g → t.Sends q g := fun q g => (hsame q g).mpr
  rcases t.find?_least bias p with ⟨hnone, hno⟩ | ⟨k, q, m, hsome, hcandidate, hleast⟩ <;>
    rcases t'.find?_least bias p with ⟨hnone', hno'⟩ | ⟨k', q', m', hsome', hcandidate', hleast'⟩
  · rw [hnone, hnone']
  · obtain ⟨k, m, hcandidate, -⟩ := hcandidate'.matched hfrom
    exact absurd hcandidate (hno k q' m)
  · obtain ⟨k', m', hcandidate', -⟩ := hcandidate.matched hto
    exact absurd hcandidate' (hno' k' q m')
  · -- each is ranked no further back than the match of the other in its own table
    obtain ⟨l, n, hmatch, hn⟩ := hcandidate'.matched hfrom
    obtain ⟨l', n', hmatch', hn'⟩ := hcandidate.matched hto
    have hle := hleast l q' n hmatch
    have hge := hleast' l' q n' hmatch'
    rw [hn] at hle
    rw [hn'] at hge
    obtain ⟨rfl, hg, -⟩ := Bias.eq_of_rank_le hle hge
    simp only [hsome, hsome', Option.map_some, hcandidate.position, hcandidate'.position, hg]

theorem generated?_eq (hsame : ∀ q g, t.Sends q g ↔ t'.Sends q g) (p : Position) (bias : Bias) :
    t.generated? p bias = t'.generated? p bias := by
  have hends := congrArg (Option.map Prod.snd) (find?_ends_eq hsame bias p)
  simpa only [generated?, Option.map_map, Function.comp_def] using hends

end PositionTable

theorem Translator.translate_eq_of_sends {t t' : PositionTable}
    (hsame : ∀ q g, t.Sends q g ↔ t'.Sends q g) (code minified : LineIndex) (offset : Int)
    (b : Boundary) :
    translate ⟨code, minified, some t⟩ offset b = translate ⟨code, minified, some t'⟩ offset b := by
  have hends := PositionTable.find?_ends_eq hsame .leastUpper (code.position (b.target offset))
  simp only [translate]
  cases hfind : t.find? (code.position (b.target offset)) .leastUpper <;>
    cases hfind' : t'.find? (code.position (b.target offset)) .leastUpper <;>
    rw [hfind, hfind'] at hends
  · cases hends
  · cases hends
  · simp only [Option.map_some, Option.some.injEq, Prod.mk.injEq] at hends
    simp only [hends.1, hends.2]

section

variable {source : Label} {mappings mappings' : List Mapping}

theorem PositionTable.sends_ofMappings {q g : Position} :
    (ofMappings mappings (some source)).Sends q g ↔
      ∃ m ∈ mappings.filter (·.source == some source), m.sourcePosition = some q
        ∧ m.generated = g := by
  constructor
  · rintro ⟨m, hm, label, hsource, hlabel, hposition, hg⟩
    obtain rfl : source = label := Option.some.inj hsource
    exact ⟨m, List.mem_filter.mpr ⟨hm, by simp [hlabel]⟩, hposition, hg⟩
  · rintro ⟨m, hm, hposition, hg⟩
    obtain ⟨hm, hlabel⟩ := List.mem_filter.mp hm
    exact ⟨m, hm, source, rfl, eq_of_beq hlabel, hposition, hg⟩

/-- **Only the mappings of the selected source count, and not in which order they come.** Where the
mappings of the source in one list are those in the other in another order, the two tables lead
every lookup and every translation to the same place, whatever else the lists hold. -/
theorem translate_eq_of_perm
    (hperm : (mappings.filter (·.source == some source)).Perm
      (mappings'.filter (·.source == some source))) :
    (∀ (p : Position) (bias : Bias),
        (PositionTable.ofMappings mappings (some source)).generated? p bias
          = (PositionTable.ofMappings mappings' (some source)).generated? p bias)
      ∧ ∀ (code : String) (minified : Option String) (offset : Int) (b : Boundary),
        (Translator.ofTexts code minified
            (some (.ofMappings mappings (some source)))).translate offset b
          = (Translator.ofTexts code minified
            (some (.ofMappings mappings' (some source)))).translate offset b := by
  have hsame : ∀ q g, (PositionTable.ofMappings mappings (some source)).Sends q g
      ↔ (PositionTable.ofMappings mappings' (some source)).Sends q g := by
    intro q g
    simp only [PositionTable.sends_ofMappings, hperm.mem_iff]
  refine ⟨PositionTable.generated?_eq hsame, ?_⟩
  intro code minified offset b
  exact Translator.translate_eq_of_sends hsame _ _ offset b

end

/-- Two mappings of one source agree in their positions and differ in their names. -/
def sharedPosition : List Mapping :=
  [⟨⟨1, 4⟩, some (.string "0"), some ⟨1, 0⟩, some (.string "f")⟩,
    ⟨⟨1, 2⟩, some (.string "1"), some ⟨1, 0⟩, none⟩,
    ⟨⟨1, 4⟩, some (.string "0"), some ⟨1, 0⟩, some (.string "g")⟩,
    ⟨⟨1, 6⟩, some (.string "0"), some ⟨1, 3⟩, none⟩]

/-- The mappings of that source the other way around, among mappings of none. -/
def sharedPositionTurned : List Mapping :=
  [⟨⟨1, 6⟩, some (.string "0"), some ⟨1, 3⟩, none⟩,
    ⟨⟨1, 0⟩, none, none, none⟩,
    ⟨⟨1, 4⟩, some (.string "0"), some ⟨1, 0⟩, some (.string "g")⟩,
    ⟨⟨1, 4⟩, some (.string "0"), some ⟨1, 0⟩, some (.string "f")⟩]

theorem translate_eq_of_perm_sharedPosition :
    (sharedPosition.filter (·.source == some (.string "0"))).Perm
        (sharedPositionTurned.filter (·.source == some (.string "0")))
      ∧ (PositionTable.ofMappings sharedPositionTurned (some (.string "0"))).generated? ⟨1, 1⟩
          .greatestLower = some ⟨1, 4⟩
      ∧ (Translator.ofTexts "f()g" (some "x=1,f(g)")
          (some (.ofMappings sharedPositionTurned (some (.string "0"))))).translate 1 .right
            = .ok (some 5) := by
  have hperm : (sharedPosition.filter (·.source == some (.string "0"))).Perm
      (sharedPositionTurned.filter (·.source == some (.string "0"))) := by
    have hleft : sharedPosition.filter (·.source == some (.string "0"))
        = (sharedPositionTurned.filter (·.source == some (.string "0"))).reverse := by cbv
    rw [hleft]
    exact List.reverse_perm _
  obtain ⟨hgenerated, htranslate⟩ := translate_eq_of_perm hperm
  have hplace : (PositionTable.ofMappings sharedPosition (some (.string "0"))).generated? ⟨1, 1⟩
      .greatestLower = some ⟨1, 4⟩ := by cbv
  have hoffset : (Translator.ofTexts "f()g" (some "x=1,f(g)")
      (some (.ofMappings sharedPosition (some (.string "0"))))).translate 1 .right
        = .ok (some 5) := by cbv
  exact ⟨hperm, hgenerated _ _ ▸ hplace, htranslate _ _ _ _ ▸ hoffset⟩

end BundleSize
