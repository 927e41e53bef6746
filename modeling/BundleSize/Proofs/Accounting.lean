import BundleSize.Proofs.Modes

/-!
# Every definition is accounted for once

An attributor keeps counts, diagnostics and a memory from one definition to
the next. The memory does not show in any result: whatever was attributed or
asked before, a definition gets the result that it would get first
(`Attributor.assign_result_eq`), because both settle the same outcome.

The counts and diagnostics are a tally of these outcomes. One step adds the
outcome of its definition to the tally (`Attributor.tallies_assign`), and by
induction a whole sequence leaves the tally of its outcomes in order
(`Attributor.tallies_assignEach`). As every outcome is in one class only, the
classes add up to the number of definitions (`Outcome.length_eq_classes`).

A step that fails adds nothing (`Attributor.assign_of_error`), with one
exception: an anomaly that is tolerated is noted before it is reported, so it
counts also where its report has a number that is too long to be written.
-/

namespace BundleSize

/-- Each outcome counts in exactly one class. -/
theorem Outcome.length_eq_classes (outcomes : List Outcome) :
    (outcomes.filterMap Outcome.range?).length + outcomes.count .unmapped
      + outcomes.count .aliased + (outcomes.filterMap Outcome.anomaly?).length
      = outcomes.length := by
  induction outcomes with
  | nil => rfl
  | cons outcome rest ih =>
      cases outcome with
      | _ =>
          simp only [List.filterMap_cons, List.count_cons, List.length_cons, Outcome.range?,
            Outcome.anomaly?, beq_iff_eq, reduceCtorEq, if_true, if_false]
          omega

/-- What a tolerant attributor gives for an outcome. -/
def Outcome.tolerated : Outcome → Except AttributionError (Option AttributedRange)
  | .inconsistent anomaly => if anomaly.isWritable then .ok none else .error (.unwritable anomaly)
  | outcome => .ok outcome.range?

theorem Outcome.range_of_tolerated (outcome : Outcome) :
    outcome.tolerated.toOption.join = outcome.range? := by
  cases outcome with
  | inconsistent anomaly =>
      rw [tolerated]
      split <;> rfl
  | _ => rfl

/-- The anomaly that was noted before its report failed. -/
def AttributionError.noted : AttributionError → List Anomaly
  | .unwritable anomaly => [anomaly]
  | _ => []

theorem Translator.decides_of_no_table {t : Translator} (ht : t.table = none) (d : Definition) :
    t.Decides d :=
  ⟨_, outcome_eq (by rw [translate, ht]) (by rw [translate, ht])⟩

namespace Attributor

/-- The results of definitions that are attributed one after the other, and the attributor in the
end. A definition that fails does not keep the later ones from their turn. -/
def assignEach (a : Attributor) :
    List Definition → List (Except AttributionError (Option AttributedRange)) × Attributor
  | [] => ([], a)
  | d :: ds =>
    let step := a.assign d
    let (results, last) := step.state.assignEach ds
    (step.result :: results, last)

/-- The ranges among results. -/
def returned (results : List (Except AttributionError (Option AttributedRange))) :
    List AttributedRange :=
  results.filterMap fun result => result.toOption.join

/-- Where every definition has an outcome, the ranges are those of the outcomes. -/
theorem returned_tolerated (outcomes : List Outcome) :
    returned (outcomes.map Outcome.tolerated) = outcomes.filterMap Outcome.range? := by
  rw [returned, List.filterMap_map]
  exact List.filterMap_congr fun outcome _ => outcome.range_of_tolerated

/-- The attributor `b` has counted some outcomes more than `a`. -/
structure Tallies (a b : Attributor) (outcomes : List Outcome) : Prop where
  unmapped : b.unmapped = a.unmapped + outcomes.count .unmapped
  aliased : b.aliased = a.aliased + outcomes.count .aliased
  anomalies : b.anomalies = a.anomalies ++ outcomes.filterMap Outcome.anomaly?

theorem Tallies.trans {a b c : Attributor} {outcomes later : List Outcome}
    (h : a.Tallies b outcomes) (hlater : b.Tallies c later) : a.Tallies c (outcomes ++ later) where
  unmapped := by rw [hlater.unmapped, h.unmapped, List.count_append, Nat.add_assoc]
  aliased := by rw [hlater.aliased, h.aliased, List.count_append, Nat.add_assoc]
  anomalies := by
    rw [hlater.anomalies, h.anomalies, List.filterMap_append, List.append_assoc]

variable {t : Translator} {a b : Attributor} {d : Definition}

/-! ## One definition -/

/-- The result of a definition depends on the translator and the mode only. -/
theorem assign_result_eq (ha : a.Serves t) (hb : b.Serves t) (hmode : a.strict = b.strict)
    (d : Definition) : (a.assign d).result = (b.assign d).result := by
  obtain ⟨memo, records, -, -, heq⟩ := assign_eq ha d
  obtain ⟨memo', records', -, -, heq'⟩ := assign_eq hb d
  rw [heq, heq']
  cases t.outcome d with
  | error e => rfl
  | ok outcome =>
      cases outcome with
      | inconsistent anomaly =>
          simp only [settle, conclude, hmode]
          split
          · rfl
          · split <;> rfl
      | _ => rfl

/-- An attributor that is not strict counts the outcome, and gives what it tolerates. -/
theorem tallies_assign (ha : a.Serves t) (htolerant : a.strict = false) {outcome : Outcome}
    (houtcome : t.outcome d = .ok outcome) :
    (a.assign d).result = outcome.tolerated ∧ a.Tallies (a.assign d).state [outcome] := by
  obtain ⟨memo, records, -, -, heq⟩ := assign_eq ha d
  rw [heq, houtcome]
  cases outcome with
  | inconsistent anomaly =>
      simp only [settle, conclude, htolerant, Bool.false_eq_true, if_false, Outcome.tolerated]
      split <;> exact ⟨rfl, rfl, rfl, rfl⟩
  | kept range => exact ⟨rfl, rfl, rfl, (List.append_nil _).symm⟩
  | _ => exact ⟨rfl, rfl, rfl, (List.append_nil _).symm⟩

/-- A definition that fails is not counted, but an anomaly that is tolerated is noted. -/
theorem assign_of_error (ha : a.Serves t) {e : AttributionError}
    (herror : (a.assign d).result = .error e) :
    (a.assign d).state.unmapped = a.unmapped ∧ (a.assign d).state.aliased = a.aliased
      ∧ (a.assign d).state.anomalies = a.anomalies ++ e.noted
      ∧ (a.strict = true → e.noted = []) := by
  obtain ⟨memo, records, -, -, heq⟩ := assign_eq ha d
  rw [heq] at herror ⊢
  cases houtcome : t.outcome d with
  | error fault =>
      rw [houtcome] at herror
      obtain rfl := Except.error.inj herror
      exact ⟨rfl, rfl, (List.append_nil _).symm, fun _ => rfl⟩
  | ok outcome =>
      rw [houtcome] at herror
      cases outcome with
      | inconsistent anomaly =>
          simp only [settle, conclude] at herror ⊢
          by_cases hstrict : a.strict = true
          · rw [if_pos hstrict] at herror ⊢
            obtain rfl := Except.error.inj herror
            exact ⟨rfl, rfl, (List.append_nil _).symm, fun _ => rfl⟩
          · rw [if_neg hstrict] at herror ⊢
            split at herror
            · cases herror
            · rename_i hlong
              obtain rfl := Except.error.inj herror
              rw [if_neg hlong]
              exact ⟨rfl, rfl, rfl, fun h => absurd h hstrict⟩
      | _ => cases herror

theorem Reached.mode {strict : Bool} (h : Reached t strict a) : a.strict = strict := by
  induction h with
  | start => rfl
  | assign d hreached ih => exact (assign_mode _ hreached.serves d).trans ih
  | translate offset b _ ih => exact ih

/-! ## Sequences -/

/-- A sequence of definitions leaves the tally of their outcomes. -/
theorem tallies_assignEach : ∀ {ds : List Definition} {a : Attributor} {outcomes : List Outcome},
    a.Serves t → a.strict = false → ds.mapM t.outcome = .ok outcomes →
      (a.assignEach ds).1 = outcomes.map Outcome.tolerated
        ∧ a.Tallies (a.assignEach ds).2 outcomes
  | [], a, outcomes, _, _, houtcomes => by
      obtain rfl := Except.ok.inj houtcomes
      exact ⟨rfl, rfl, rfl, (List.append_nil _).symm⟩
  | d :: ds, a, outcomes, ha, htolerant, houtcomes => by
      rw [List.mapM_cons] at houtcomes
      obtain ⟨outcome, houtcome, houtcomes⟩ := bind_eq_ok houtcomes
      obtain ⟨later, hlater, houtcomes⟩ := bind_eq_ok houtcomes
      obtain rfl := Except.ok.inj houtcomes
      obtain ⟨hresult, hstep⟩ := tallies_assign ha htolerant houtcome
      obtain ⟨hresults, hrest⟩ :=
        tallies_assignEach (ha.assign d) ((assign_mode a ha d).trans htolerant) hlater
      refine ⟨?_, hstep.trans hrest⟩
      rw [assignEach, List.map_cons, ← hresult, ← hresults]

/-- Each result of a sequence is the one that an attributor gives which has seen nothing else. -/
theorem assignEach_results (strict : Bool) : ∀ {ds : List Definition} {a : Attributor},
    a.Serves t → a.strict = strict →
      (a.assignEach ds).1 = ds.map fun d => ((start t strict).assign d).result
  | [], _, _, _ => rfl
  | d :: ds, a, ha, hmode => by
      rw [assignEach, List.map_cons,
        ← assignEach_results strict (ha.assign d) ((assign_mode a ha d).trans hmode),
        assign_result_eq ha (start_serves t strict) hmode d]

/-- What is left of a sequence of definitions: the result of each, as if it were the only one, and
an attributor that has counted each definition once. -/
structure Accounts (t : Translator) (ds : List Definition)
    (results : List (Except AttributionError (Option AttributedRange))) (a : Attributor)
    (outcomes : List Outcome) : Prop where
  /-- The definitions have outcomes, each on its own. -/
  outcomes_eq : ds.mapM t.outcome = .ok outcomes
  alone : results = ds.map fun d => ((start t false).assign d).result
  results_eq : results = outcomes.map Outcome.tolerated
  unmapped : a.unmapped = outcomes.count .unmapped
  aliased : a.aliased = outcomes.count .aliased
  anomalies : a.anomalies = outcomes.filterMap Outcome.anomaly?
  total : (returned results).length + a.unmapped + a.aliased + a.anomalies.length = ds.length

/-- **Definitions are isolated and each is accounted for once.** Let the table, if there is one,
lead into lines and columns that a text can have. An attributor that is not strict then gives each
definition of a sequence the result that it would give it alone, and its counts and diagnostics are
those of the outcomes. In either mode the result of a definition does not depend on what an
attributor and its translator were asked before. A definition that fails changes no count, and no
diagnostic either but for one that is noted and cannot be written, which no strict attributor has.
-/
theorem assignEach_accounts
    (hproper : ∀ table ∈ t.table, ∀ p q, table.Sends p q → q.Proper) :
    (∀ ds, ∃ outcomes, Accounts t ds ((start t false).assignEach ds).1
        ((start t false).assignEach ds).2 outcomes)
      ∧ (∀ strict a, Reached t strict a →
        ∀ d, (a.assign d).result = ((start t strict).assign d).result)
      ∧ ∀ strict a, Reached t strict a → ∀ d e, (a.assign d).result = .error e →
        (a.assign d).state.unmapped = a.unmapped ∧ (a.assign d).state.aliased = a.aliased
          ∧ (a.assign d).state.anomalies = a.anomalies ++ e.noted
          ∧ (strict = true → (a.assign d).state.anomalies = a.anomalies) := by
  refine ⟨fun ds => ?_, fun strict a ha d => ?_, fun strict a ha d e herror => ?_⟩
  · have hdecides : ∀ d ∈ ds, t.Decides d := by
      intro d _
      cases ht : t.table with
      | none => exact Translator.decides_of_no_table ht d
      | some table => exact Translator.decides_of_proper ht (hproper table ht) d
    obtain ⟨outcomes, houtcomes⟩ := exists_mapM hdecides
    have hserves := start_serves t false
    obtain ⟨hresults, htally⟩ := tallies_assignEach hserves rfl houtcomes
    have hreturned : returned ((start t false).assignEach ds).1
        = outcomes.filterMap Outcome.range? := by
      rw [hresults, returned_tolerated]
    have halone : ((start t false).assignEach ds).1
        = ds.map fun d => ((start t false).assign d).result :=
      assignEach_results false hserves rfl
    have hlength : outcomes.length = ds.length := by
      simpa using congrArg List.length (hresults.symm.trans halone)
    refine ⟨outcomes, houtcomes, halone, hresults, htally.unmapped.trans (Nat.zero_add _),
      htally.aliased.trans (Nat.zero_add _), htally.anomalies, ?_⟩
    rw [hreturned, htally.unmapped, htally.aliased, htally.anomalies, ← hlength,
      ← Outcome.length_eq_classes outcomes]
    simp [start]
  · exact assign_result_eq ha.serves (start_serves t strict) ha.mode d
  · obtain ⟨hunmapped, haliased, hanomalies, hnoted⟩ := assign_of_error ha.serves herror
    refine ⟨hunmapped, haliased, hanomalies, fun hstrict => ?_⟩
    rw [hanomalies, hnoted (ha.mode.trans hstrict), List.append_nil]

/-- The parts of the second assignment have changed places on a line, and those of the third from
one line to the one before; the fourth is gone. -/
def mixedTable : PositionTable :=
  .ofMappings
    [⟨⟨1, 0⟩, some (.string "0"), some ⟨1, 0⟩, none⟩,
      ⟨⟨1, 2⟩, some (.string "0"), some ⟨1, 2⟩, none⟩,
      ⟨⟨2, 4⟩, some (.string "0"), some ⟨1, 4⟩, none⟩,
      ⟨⟨2, 0⟩, some (.string "0"), some ⟨1, 6⟩, none⟩,
      ⟨⟨2, 2⟩, some (.string "0"), some ⟨1, 8⟩, none⟩,
      ⟨⟨1, 0⟩, some (.string "0"), some ⟨1, 10⟩, none⟩] none

def mixed : Translator := .ofTexts "a=1;b=2;c=3;d=4" (some "a=1;\nb,c=3") (some mixedTable)

theorem assignEach_accounts_mixed :
    let a : Definition := ⟨"a", .binding, 0, 3⟩
    let b : Definition := ⟨"b", .binding, 4, 7⟩
    let c : Definition := ⟨"c", .binding, 8, 11⟩
    let d : Definition := ⟨"d", .binding, 12, 15⟩
    ∃ results last, (start mixed false).assignEach [c, a, b, d, c, a] = (results, last)
      ∧ returned results = [⟨a, 0, 3⟩, ⟨a, 0, 3⟩] ∧ last.unmapped = 1 ∧ last.aliased = 1
      ∧ last.anomalies.map (·.name) = ["c", "c"]
      ∧ results[1]? = some ((start mixed false).assign a).result
      ∧ ∃ e, ((start mixed true).assign c).result = .error e
        ∧ ((start mixed true).assign c).state.anomalies = [] := by
  intro a b c d
  have hproper : ∀ table ∈ mixed.table, ∀ p q, table.Sends p q → q.Proper := by
    intro table htable
    obtain rfl := Option.some.inj (show some mixedTable = some table from htable)
    exact PositionTable.forall_sends.mpr (by decide)
  have ha : mixed.outcome a = .ok (.kept ⟨a, 0, 3⟩) := by cbv
  have hb : mixed.outcome b = .ok .aliased := by cbv
  have hd : mixed.outcome d = .ok .unmapped := by cbv
  have hfound : (mixed.anomaly? c).isSome = true := by cbv
  obtain ⟨anomaly, hanomaly⟩ := Option.isSome_iff_exists.mp hfound
  have hc := Translator.outcome_of_anomaly? hanomaly
  have hname : anomaly.name = "c" := Translator.name_of_anomaly? hanomaly
  obtain ⟨hall, -, hfailed⟩ := assignEach_accounts hproper
  obtain ⟨outcomes, h⟩ := hall [c, a, b, d, c, a]
  have houtcomes : ([c, a, b, d, c, a] : List Definition).mapM mixed.outcome = .ok
      [.inconsistent anomaly, .kept ⟨a, 0, 3⟩, .aliased, .unmapped, .inconsistent anomaly,
        .kept ⟨a, 0, 3⟩] := by
    simp only [List.mapM_cons, List.mapM_nil, ha, hb, hc, hd]
    rfl
  obtain rfl := Except.ok.inj (h.outcomes_eq.symm.trans houtcomes)
  have hstrict := (assign_of_anomaly (start_serves mixed true) hanomaly).1 rfl
  refine ⟨_, _, (Prod.eta _).symm, ?_, ?_, ?_, ?_, ?_, _, hstrict, ?_⟩
  · rw [h.results_eq, returned_tolerated]
    rfl
  · rw [h.unmapped]
    simp
  · rw [h.aliased]
    simp
  · rw [h.anomalies, ← hname]
    rfl
  · rw [h.alone]
    rfl
  · exact (hfailed true _ .start c _ hstrict).2.2.2 rfl

end Attributor

end BundleSize
