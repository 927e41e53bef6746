import BundleSize.Proofs.Grammar
import BundleSize.SourceMap.Spelling
import Mathlib.Tactic.SplitIfs

/-!
# Complete texts

The two accounts of what a text spells are brought together: the one that takes
digit after digit (`Vlq.Spells`), which is what is read, and the one of the text
as a whole (`Vlq.Complete`, `Vlq.IsSpelling`, `Vlq.number`). A single spelling is
the same in both (`Vlq.spellsOne_iff`), hence so is a sequence
(`Vlq.spells_iff`), and there is a sequence exactly if the text is complete
(`Vlq.exists_spells_iff`): a digit that is not final has another one behind it,
and the text behind a digit is complete as well.

So no text that is cut short gets through, not even where the groups that were
read are all zero, and what reads as numbers does so whatever stands behind it.
-/

namespace BundleSize

namespace Vlq

/-! ## Digits -/

theorem ascii_of_digitValue? {c : Char} {digit : Nat} (h : digitValue? c = some digit) :
    c.toNat < 128 := by
  have hle {a b : Char} (hab : a ≤ b) : a.toNat ≤ b.toNat := Fin.mk_le_mk.mp hab
  unfold digitValue? at h
  split_ifs at h with hupper hlower hdecimal hplus hslash
  · exact Nat.lt_of_le_of_lt (hle hupper.2) (by decide)
  · exact Nat.lt_of_le_of_lt (hle hlower.2) (by decide)
  · exact Nat.lt_of_le_of_lt (hle hdecimal.2) (by decide)
  · subst hplus
    decide
  · subst hslash
    decide

theorem mem_alphabet_of_ascii : ∀ n < 128, (digitValue? (Char.ofNat n)).isSome = true →
    Char.ofNat n ∈ alphabet := by
  decide +kernel

theorem digitValue?_of_mem {c : Char} (hc : c ∈ alphabet) : digitValue? c = some (placeOf c) := by
  have hall : (alphabet.all fun c => digitValue? c = some (placeOf c)) = true := by decide +kernel
  exact of_decide_eq_true (List.all_eq_true.mp hall c hc)

/-- The digits are those of the alphabet, and their values are their places in it. -/
theorem digitValue?_eq_some_iff {c : Char} {digit : Nat} :
    digitValue? c = some digit ↔ c ∈ alphabet ∧ placeOf c = digit := by
  constructor
  · intro h
    have hmem := mem_alphabet_of_ascii c.toNat (ascii_of_digitValue? h)
    rw [Char.ofNat_toNat, h] at hmem
    have hc := hmem rfl
    rw [digitValue?_of_mem hc] at h
    exact ⟨hc, Option.some.inj h⟩
  · rintro ⟨hc, rfl⟩
    exact digitValue?_of_mem hc

theorem digitValue?_eq_none_iff {c : Char} : digitValue? c = none ↔ c ∉ alphabet := by
  constructor
  · intro h hc
    rw [digitValue?_of_mem hc] at h
    cases h
  · intro hc
    cases h : digitValue? c with
    | none => rfl
    | some digit => exact absurd (digitValue?_eq_some_iff.mp h).1 hc

theorem isFinal_iff {c : Char} : isFinal c = true ↔ placeOf c < 32 := decide_eq_true_iff

theorem isFinal_eq_false_iff {c : Char} : isFinal c = false ↔ 32 ≤ placeOf c := by
  rw [← Bool.not_eq_true, isFinal_iff, Nat.not_lt]

/-! ## Complete texts, digit by digit -/

theorem complete_nil : Complete [] := ⟨by simp, by simp⟩

/-- Behind a digit stands a complete text, which is empty only if the digit is final. -/
theorem complete_cons {c : Char} {rest : List Char} :
    Complete (c :: rest) ↔ c ∈ alphabet ∧ Complete rest ∧ (rest = [] → isFinal c = true) := by
  cases rest with
  | nil =>
      constructor
      · exact fun h => ⟨h.digits c (by simp), complete_nil, fun _ => h.final c rfl⟩
      · rintro ⟨hc, -, hfinal⟩
        exact ⟨by simpa using hc, by simpa using hfinal rfl⟩
  | cons d rest =>
      constructor
      · intro h
        refine ⟨h.digits c (by simp), ⟨fun e he => h.digits e (by simp [he]), ?_⟩, by simp⟩
        simpa using h.final
      · rintro ⟨hc, hrest, -⟩
        refine ⟨fun e he => ?_, by simpa using hrest.final⟩
        rcases List.mem_cons.mp he with rfl | he
        · exact hc
        · exact hrest.digits e he

theorem complete_append {text rest : List Char} (h : Complete text) :
    Complete (text ++ rest) ↔ Complete rest := by
  induction text with
  | nil => rfl
  | cons c text ih =>
      obtain ⟨hc, htext, hfinal⟩ := complete_cons.mp h
      rw [List.cons_append, complete_cons, ih htext, List.append_eq_nil_iff]
      exact ⟨fun h => h.2.1, fun hrest => ⟨hc, hrest, fun hnil => hfinal hnil.1⟩⟩

theorem not_isSpelling_nil : ¬ IsSpelling [] := by
  rintro ⟨-, -, c, hc, -⟩
  cases hc

theorem isSpelling_singleton {c : Char} :
    IsSpelling [c] ↔ c ∈ alphabet ∧ isFinal c = true := by
  constructor
  · rintro ⟨hdigits, -, final, hlast, hfinal⟩
    obtain rfl : c = final := by simpa using hlast
    exact ⟨hdigits c (by simp), hfinal⟩
  · rintro ⟨hc, hfinal⟩
    exact ⟨by simpa using hc, by simp, c, rfl, hfinal⟩

theorem isSpelling_cons {c : Char} {rest : List Char} (hne : rest ≠ []) :
    IsSpelling (c :: rest) ↔ c ∈ alphabet ∧ isFinal c = false ∧ IsSpelling rest := by
  obtain ⟨d, rest, rfl⟩ := List.exists_cons_of_ne_nil hne
  constructor
  · rintro ⟨hdigits, hmore, final, hlast, hfinal⟩
    refine ⟨hdigits c (by simp), hmore c (by simp), fun e he => hdigits e (by simp [he]),
      fun e he => hmore e (by simp [he]), final, by simpa using hlast, hfinal⟩
  · rintro ⟨hc, hnext, hdigits, hmore, final, hlast, hfinal⟩
    refine ⟨?_, ?_, final, by simpa using hlast, hfinal⟩
    · simpa [hc] using hdigits
    · simpa [hnext] using hmore

theorem groupSum_cons (c : Char) (rest : List Char) :
    groupSum (c :: rest) = placeOf c % 32 + 32 * groupSum rest := by
  rw [groupSum, List.map_cons, Nat.ofDigits_cons]
  rfl

theorem unfoldSign_groupSum (spelling : List Char) :
    unfoldSign (groupSum spelling) = number spelling := by
  unfold unfoldSign number
  rcases Nat.mod_two_eq_zero_or_one (groupSum spelling) with hsign | hsign <;> simp [hsign]

/-! ## The two accounts -/

/-- Digits spell a number as they are read exactly if they are a spelling, and then it is the sum
of their groups. -/
theorem spellsOne_iff {text : List Char} {n : Nat} :
    SpellsOne text n ↔ IsSpelling text ∧ groupSum text = n := by
  constructor
  · intro h
    induction h with
    | @last c digit hdigit hlast =>
        obtain ⟨hc, rfl⟩ := digitValue?_eq_some_iff.mp hdigit
        refine ⟨isSpelling_singleton.mpr ⟨hc, isFinal_iff.mpr hlast⟩, ?_⟩
        rw [groupSum_cons, Nat.mod_eq_of_lt hlast]
        rfl
    | @group c digit n digits hdigit hmore hdigits ih =>
        obtain ⟨hc, rfl⟩ := digitValue?_eq_some_iff.mp hdigit
        obtain ⟨hspelling, rfl⟩ := ih
        have hne : digits ≠ [] := fun hnil => not_isSpelling_nil (hnil ▸ hspelling)
        exact ⟨(isSpelling_cons hne).mpr ⟨hc, isFinal_eq_false_iff.mpr hmore, hspelling⟩,
          groupSum_cons c digits⟩
  · rintro ⟨h, rfl⟩
    induction text with
    | nil => exact absurd h not_isSpelling_nil
    | cons c rest ih =>
        rw [groupSum_cons]
        by_cases hne : rest = []
        · subst hne
          obtain ⟨hc, hfinal⟩ := isSpelling_singleton.mp h
          rw [isFinal_iff] at hfinal
          rw [Nat.mod_eq_of_lt hfinal]
          exact .last (digitValue?_of_mem hc) hfinal
        · obtain ⟨hc, hmore, hrest⟩ := (isSpelling_cons hne).mp h
          exact .group (digitValue?_of_mem hc) (isFinal_eq_false_iff.mp hmore) (ih hrest)

/-- A text spells numbers as they are read exactly if it consists of spellings of them. -/
theorem spells_iff {text : List Char} {ns : List Int} :
    Spells text ns ↔ ∃ spellings : List (List Char), text = spellings.flatten
      ∧ (∀ spelling ∈ spellings, IsSpelling spelling) ∧ ns = spellings.map number := by
  constructor
  · intro h
    induction h with
    | nil => exact ⟨[], rfl, by simp, rfl⟩
    | @cons digits rest n ns hdigits hrest ih =>
        obtain ⟨spellings, rfl, hspellings, rfl⟩ := ih
        obtain ⟨hspelling, rfl⟩ := spellsOne_iff.mp hdigits
        refine ⟨digits :: spellings, rfl, ?_, ?_⟩
        · simpa [hspelling] using hspellings
        · rw [List.map_cons, unfoldSign_groupSum]
  · rintro ⟨spellings, rfl, hspellings, rfl⟩
    induction spellings with
    | nil => exact .nil
    | cons spelling spellings ih =>
        rw [List.forall_mem_cons] at hspellings
        rw [List.flatten_cons, List.map_cons, ← unfoldSign_groupSum]
        exact .cons (spellsOne_iff.mpr ⟨hspellings.1, rfl⟩) (ih hspellings.2)

theorem complete_of_spellsOne {text : List Char} {n : Nat} (h : SpellsOne text n) :
    Complete text := by
  obtain ⟨hspelling, -⟩ := spellsOne_iff.mp h
  obtain ⟨final, hlast, hfinal⟩ := hspelling.final
  refine ⟨hspelling.digits, fun c hc => ?_⟩
  rwa [Option.mem_unique hc hlast]

theorem complete_of_spells {text : List Char} {ns : List Int} (h : Spells text ns) :
    Complete text := by
  induction h with
  | nil => exact complete_nil
  | cons hdigits hrest ih => exact (complete_append (complete_of_spellsOne hdigits)).mpr ih

theorem exists_spells_of_complete : ∀ {text : List Char}, Complete text → ∃ ns, Spells text ns
  | [], _ => ⟨[], .nil⟩
  | c :: rest, h => by
      obtain ⟨hc, hrest, hend⟩ := complete_cons.mp h
      have hdigit := digitValue?_of_mem hc
      obtain ⟨ns, hspells⟩ := exists_spells_of_complete hrest
      by_cases hfinal : isFinal c = true
      · exact ⟨_, .cons (.last hdigit (isFinal_iff.mp hfinal)) hspells⟩
      · -- the digit joins the first spelling behind it, and there is one
        have hmore := isFinal_eq_false_iff.mp (Bool.not_eq_true _ ▸ hfinal)
        cases hspells with
        | nil => exact absurd (hend rfl) hfinal
        | cons hdigits hlater => exact ⟨_, .cons (.group hdigit hmore hdigits) hlater⟩

theorem exists_spells_iff {text : List Char} : (∃ ns, Spells text ns) ↔ Complete text :=
  ⟨fun ⟨_, h⟩ => complete_of_spells h, exists_spells_of_complete⟩

theorem countP_isFinal_of_isSpelling {text : List Char} (h : IsSpelling text) :
    text.countP isFinal = 1 := by
  obtain ⟨final, hlast, hfinal⟩ := h.final
  have hmore : text.dropLast.countP isFinal = 0 :=
    List.countP_eq_zero.mpr fun c hc => by simp [h.more c hc]
  rw [← List.dropLast_append_getLast? final hlast, List.countP_append, hmore]
  simp [hfinal]

/-- There are as many numbers as final digits. -/
theorem length_of_spells {text : List Char} {ns : List Int} (h : Spells text ns) :
    ns.length = text.countP isFinal := by
  induction h with
  | nil => rfl
  | cons hdigits hrest ih =>
      rw [List.length_cons, List.countP_append, ih,
        countP_isFinal_of_isSpelling (spellsOne_iff.mp hdigits).1, Nat.add_comm]

/-! ## What is not read -/

/-- Reading fails for the first character that is no digit, if there is one, and else at the end
of the text. -/
theorem find?_of_decodeFrom : ∀ {text : List Char} {value shift : Nat} {e : Error},
    decodeFrom value shift text = .error e →
      e = (match text.find? (· ∉ alphabet) with
        | some c => .invalidDigit c
        | none => .truncated)
  | [], value, shift, e, h => by
      rw [decodeFrom] at h
      split at h
      · cases h
      · exact (Except.error.inj h).symm
  | c :: rest, value, shift, e, h => by
      rw [decodeFrom] at h
      by_cases hc : c ∈ alphabet
      · rw [List.find?_cons_of_neg (by simpa using hc)]
        rw [digitValue?_of_mem hc] at h
        simp only at h
        split at h
        · cases hrest : decodeFrom 0 0 rest with
          | ok ns => rw [hrest] at h; cases h
          | error e' =>
              rw [hrest] at h
              obtain rfl := Except.error.inj h
              exact find?_of_decodeFrom hrest
        · exact find?_of_decodeFrom h
      · rw [List.find?_cons_of_pos (by simpa using hc)]
        rw [digitValue?_eq_none_iff.mpr hc] at h
        exact (Except.error.inj h).symm

end Vlq

/-! ## The numbers of a segment -/

theorem segmentFields_of_not_complete {text : List Char} (h : ¬ Vlq.Complete text) :
    segmentFields text = .error (refusal text) := by
  unfold segmentFields refusal
  cases hdecode : Vlq.decode text with
  | ok ns => exact absurd (Vlq.complete_of_spells (Vlq.decode_eq_ok_iff.mp hdecode)) h
  | error e =>
      have hcause := Vlq.find?_of_decodeFrom hdecode
      cases hfind : text.find? (· ∉ Vlq.alphabet) <;> rw [hfind] at hcause <;> rw [hcause]

theorem exists_segmentFields_iff {text : List Char} :
    (∃ ns, segmentFields text = .ok ns) ↔ Vlq.Complete text := by
  simp only [segmentFields_eq_ok_iff, Vlq.exists_spells_iff]

/-- Behind a complete text the same character is the first that is no digit. -/
theorem refusal_append {text : List Char} (h : Vlq.Complete text) (rest : List Char) :
    refusal (text ++ rest) = (refusal rest).foundIn (text ++ rest) := by
  have hnone : text.find? (· ∉ Vlq.alphabet) = none :=
    List.find?_eq_none.mpr fun c hc => by simpa using h.digits c hc
  unfold refusal
  rw [List.find?_append, hnone, Option.none_or]
  split <;> rfl

/-- **Exactly the complete texts are sequences of numbers.** A text has numbers if and only if it is
complete; they are those of the spellings that it consists of, one for each digit that announces no
group behind its own. Any other text is refused as no valid source map, for the first character that
is no digit or else as cut short. -/
theorem segmentFields_iff_complete (text : List Char) :
    ((∃ ns, segmentFields text = .ok ns) ↔ Vlq.Complete text)
      ∧ (∀ ns, segmentFields text = .ok ns ↔ ∃ spellings : List (List Char),
          text = spellings.flatten ∧ (∀ spelling ∈ spellings, Vlq.IsSpelling spelling)
            ∧ ns = spellings.map Vlq.number)
      ∧ (∀ ns, segmentFields text = .ok ns → ns.length = text.countP Vlq.isFinal)
      ∧ (¬ Vlq.Complete text →
          segmentFields text = .error (refusal text) ∧ (refusal text).Refuses) := by
  refine ⟨exists_segmentFields_iff, fun ns => ?_, fun ns h => ?_, fun h => ?_⟩
  · rw [segmentFields_eq_ok_iff, Vlq.spells_iff]
  · exact Vlq.length_of_spells (segmentFields_eq_ok_iff.mp h)
  · have herror := segmentFields_of_not_complete h
    exact ⟨herror, segmentFields_refuses herror⟩

/-- A zero with a group more than it needs, and a zero with the sign of a negative number. -/
def paddedText : List Char := "gAB".toList

theorem segmentFields_iff_complete_padded : segmentFields paddedText = .ok [0, 0]
    ∧ segmentFields (paddedText ++ ['g']) = .error (.truncatedNumber "gABg") := by
  obtain ⟨-, hok, -, -⟩ := segmentFields_iff_complete paddedText
  obtain ⟨-, -, -, herror⟩ := segmentFields_iff_complete (paddedText ++ ['g'])
  have hgroups : Vlq.IsSpelling ['g', 'A'] :=
    (Vlq.isSpelling_cons (by simp)).mpr
      ⟨by decide +kernel, by decide +kernel, Vlq.isSpelling_singleton.mpr (by decide +kernel)⟩
  have hnegative : Vlq.IsSpelling ['B'] := Vlq.isSpelling_singleton.mpr (by decide +kernel)
  have hspellings : ∀ spelling ∈ [['g', 'A'], ['B']], Vlq.IsSpelling spelling := by
    simp [hgroups, hnegative]
  exact ⟨(hok [0, 0]).mpr ⟨[['g', 'A'], ['B']], rfl, hspellings, by decide +kernel⟩,
    (herror (by decide +kernel)).1⟩

/-- **Reading undoes writing, and goes on.** The written digits of any numbers are read as them. A
text that has numbers has them whatever stands behind it: the numbers of that follow, and if it has
none, then the whole is refused for its reason. -/
theorem segmentFields_encode_append :
    (∀ ns : List Int, segmentFields (Vlq.encode ns) = .ok ns)
      ∧ ∀ (text rest : List Char) (ns : List Int), segmentFields text = .ok ns →
        (∀ later, segmentFields rest = .ok later →
            segmentFields (text ++ rest) = .ok (ns ++ later))
          ∧ ∀ e, segmentFields rest = .error e →
            segmentFields (text ++ rest) = .error (e.foundIn (text ++ rest))
              ∧ (e.foundIn (text ++ rest)).Refuses := by
  refine ⟨fun ns => segmentFields_eq_ok_iff.mpr (Vlq.encode_spells ns), fun text rest ns h => ?_⟩
  have hspells := segmentFields_eq_ok_iff.mp h
  constructor
  · intro later hlater
    rw [segmentFields_eq_ok_iff] at hlater ⊢
    rw [← Vlq.decode_eq_ok_iff] at hlater ⊢
    rw [Vlq.decode_append_of_spells hspells, hlater]
    rfl
  · intro e he
    have hcomplete := Vlq.complete_of_spells hspells
    have hrest : ¬ Vlq.Complete rest := fun hrest => by
      obtain ⟨later, hlater⟩ := exists_segmentFields_iff.mpr hrest
      rw [hlater] at he
      cases he
    have hwhole : segmentFields (text ++ rest) = .error (refusal (text ++ rest)) :=
      segmentFields_of_not_complete (mt (Vlq.complete_append hcomplete).mp hrest)
    rw [segmentFields_of_not_complete hrest] at he
    obtain rfl := Except.error.inj he
    rw [refusal_append hcomplete] at hwhole
    exact ⟨hwhole, segmentFields_refuses hwhole⟩

theorem segmentFields_encode_append_padded : segmentFields paddedText = .ok [0, 0]
    ∧ segmentFields (paddedText ++ Vlq.encode [-1000]) = .ok [0, 0, -1000]
    ∧ segmentFields (paddedText ++ ['A', '!']) = .error (.invalidDigit '!' "gABA!") := by
  have hpadded : segmentFields paddedText = .ok [0, 0] := rfl
  obtain ⟨hencode, happend⟩ := segmentFields_encode_append
  exact ⟨hpadded, (happend paddedText _ _ hpadded).1 [-1000] (hencode [-1000]),
    ((happend paddedText ['A', '!'] _ hpadded).2 (.invalidDigit '!' "A!") rfl).1⟩

end BundleSize
