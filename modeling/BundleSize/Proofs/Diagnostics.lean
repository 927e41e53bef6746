import BundleSize.Proofs.Reports
import BundleSize.Proofs.Translation

/-!
# Inconsistent ranges in a run

Whether a definition is inconsistent, and with what diagnostic, is a matter of
the translator (`Translator.anomaly?`), as is the range that it occupies. The
mode only says what a run makes of it. A run that tolerates it notes the
diagnostic and goes on (`Attributor.assignAll_of_tolerant`), unless the
diagnostic cannot be written (`Attributor.assignAll_of_unwritable`); a strict run
stops at the first (`Attributor.assignAll_of_strict`); without any, both are the
same (`Attributor.assignAll_of_consistent`). Each is an induction on the
definitions over one step lemma, `Attributor.assign_of_consistent` or
`Attributor.assign_of_anomaly`.

All this is about definitions that have an outcome at all. Under a table into
lines and columns that a text can have, every definition has one
(`Translator.decides_of_proper`), and the range that it occupies is at most one
character longer than the text.
-/

namespace BundleSize

namespace Translator

variable {t : Translator} {table : PositionTable} {d : Definition}

theorem outcome_of_anomaly? {anomaly : Anomaly} (h : t.anomaly? d = some anomaly) :
    t.outcome d = .ok (.inconsistent anomaly) := by
  rw [anomaly?] at h
  split at h
  · rename_i outcome houtcome
    cases outcome with
    | inconsistent found =>
        obtain rfl := Option.some.inj h
        exact houtcome
    | _ => cases h
  · cases h

/-- The two ends of an inconsistent definition are translated, the second one before the first, and
its diagnostic is made of them. -/
theorem ends_of_anomaly? {anomaly : Anomaly} (h : t.anomaly? d = some anomaly) :
    ∃ start stop, t.translate d.start .left = .ok (some start)
      ∧ t.translate d.stop .right = .ok (some stop) ∧ stop < start
      ∧ anomaly = t.diagnose d start stop := by
  obtain ⟨start, hstart, houtcome⟩ := bind_eq_ok (outcome_of_anomaly? h)
  obtain ⟨stop, hstop, houtcome⟩ := bind_eq_ok houtcome
  have hclass : t.classify d start stop = .inconsistent anomaly := Except.ok.inj houtcome
  cases start with
  | none => cases hclass
  | some start =>
      cases stop with
      | none => cases hclass
      | some stop =>
          rw [classify] at hclass
          split at hclass
          · cases hclass
          · rename_i hordered
            split at hclass
            · cases hclass
            · obtain rfl := Outcome.inconsistent.inj hclass
              exact ⟨start, stop, hstart, hstop, Int.not_le.mp hordered, rfl⟩

/-- A diagnostic names the definition that it is about. -/
theorem name_of_anomaly? {anomaly : Anomaly} (h : t.anomaly? d = some anomaly) :
    anomaly.name = d.name := by
  obtain ⟨start, stop, -, -, -, rfl⟩ := ends_of_anomaly? h
  rfl

theorem decides_of_proper (ht : t.table = some table)
    (hproper : ∀ p q, table.Sends p q → q.Proper) (d : Definition) : t.Decides d := by
  obtain ⟨start, hstart, -⟩ := translate_of_proper ht hproper d.start .left
  obtain ⟨stop, hstop, -⟩ := translate_of_proper ht hproper d.stop .right
  exact ⟨_, outcome_eq hstart hstop⟩

theorem size_of_proper (ht : t.table = some table)
    (hproper : ∀ p q, table.Sends p q → q.Proper) {r : AttributedRange}
    (h : t.range? d = some r) : 0 ≤ r.size ∧ r.size ≤ t.minified.length + 1 := by
  obtain ⟨hleft, hright, -, hordered⟩ := ends_of_kept (outcome_of_range? h)
  obtain ⟨start, hstart, hstartBounds⟩ := translate_of_proper ht hproper d.start .left
  obtain ⟨stop, hstop, hstopBounds⟩ := translate_of_proper ht hproper d.stop .right
  obtain rfl := Except.ok.inj (hleft.symm.trans hstart)
  obtain rfl := Except.ok.inj (hright.symm.trans hstop)
  have hnonneg := (hstartBounds r.start rfl).1
  have hbound := (hstopBounds r.stop rfl).2
  rw [AttributedRange.size]
  omega

end Translator

/-! ## Runs -/

namespace Attributor

variable {t : Translator}

/-- An inconsistent definition gives no range: a strict run stops at it, another one notes it and
goes on if it can be written. -/
theorem assign_of_anomaly {a : Attributor} (h : a.Serves t) {d : Definition} {anomaly : Anomaly}
    (hanomaly : t.anomaly? d = some anomaly) :
    (a.strict = true → (a.assign d).result = .error (.inconsistent anomaly))
      ∧ (a.strict = false →
        (a.assign d).result
            = (if anomaly.isWritable then .ok none else .error (.unwritable anomaly))
        ∧ (a.assign d).state.anomalies = a.anomalies ++ [anomaly]) := by
  obtain ⟨-, -, hstrict, htolerant⟩ :=
    assign_of_inconsistent h (Translator.outcome_of_anomaly? hanomaly)
  exact ⟨fun h => (hstrict h).1, htolerant⟩

theorem range?_of_anomaly? {d : Definition} {anomaly : Anomaly}
    (h : t.anomaly? d = some anomaly) : t.range? d = none := by
  rw [Translator.range?, Translator.outcome_of_anomaly? h]
  rfl

theorem assign_mode (a : Attributor) (h : a.Serves t) (d : Definition) :
    (a.assign d).state.strict = a.strict := by
  obtain ⟨memo, records, -, -, heq⟩ := assign_eq h d
  rw [heq]
  exact (settle_memo { a with memo } d records (t.outcome d)).2

/-- A strict run stops at the first inconsistent definition. -/
theorem assignAll_of_strict {anomaly : Anomaly} {rest : List Anomaly} :
    ∀ {ds : List Definition} {a : Attributor}, a.Serves t → a.strict = true →
      (∀ d ∈ ds, t.Decides d) → ds.filterMap t.anomaly? = anomaly :: rest →
        (a.assignAll ds).1 = .error (.inconsistent anomaly)
  | [], _, _, _, _, hfirst => absurd hfirst (by simp)
  | d :: ds, a, h, hstrict, hdecides, hfirst => by
      rw [assignAll]
      cases hanomaly : t.anomaly? d with
      | some found =>
          rw [List.filterMap_cons_some hanomaly] at hfirst
          obtain ⟨rfl, -⟩ := List.cons.inj hfirst
          simp only [(assign_of_anomaly h hanomaly).1 hstrict]
      | none =>
          rw [List.filterMap_cons_none hanomaly] at hfirst
          have hresult :=
            (assign_of_consistent h (hdecides d (List.mem_cons_self ..)) hanomaly).1
          have hlater := assignAll_of_strict (h.assign d) ((assign_mode a h d).trans hstrict)
            (fun e he => hdecides e (List.mem_cons_of_mem _ he)) hfirst
          simp only [hresult, hlater]
          rfl

/-- A run that is not strict notes every inconsistent definition and gives the other ranges, if all
diagnostics can be written. -/
theorem assignAll_of_tolerant : ∀ {ds : List Definition} {a : Attributor}, a.Serves t →
    a.strict = false → (∀ d ∈ ds, t.Decides d) →
    (∀ anomaly ∈ ds.filterMap t.anomaly?, anomaly.isWritable = true) →
      (a.assignAll ds).1 = .ok (ds.filterMap t.range?)
        ∧ (a.assignAll ds).2.1.anomalies = a.anomalies ++ ds.filterMap t.anomaly?
  | [], _, _, _, _, _ => ⟨rfl, (List.append_nil _).symm⟩
  | d :: ds, a, h, htolerant, hdecides, hwritable => by
      have hserves := h.assign d
      have hmode := (assign_mode a h d).trans htolerant
      have hrest : ∀ e ∈ ds, t.Decides e := fun e he => hdecides e (List.mem_cons_of_mem _ he)
      rw [assignAll]
      cases hanomaly : t.anomaly? d with
      | some found =>
          rw [List.filterMap_cons_some hanomaly] at hwritable ⊢
          obtain ⟨hresult, hnote⟩ := (assign_of_anomaly h hanomaly).2 htolerant
          rw [if_pos (hwritable found (List.mem_cons_self ..))] at hresult
          obtain ⟨hlater, hnoted⟩ := assignAll_of_tolerant hserves hmode hrest
            fun anomaly hmem => hwritable anomaly (List.mem_cons_of_mem _ hmem)
          rw [List.filterMap_cons_none (range?_of_anomaly? hanomaly)]
          simp only [hresult, hlater, hnoted, hnote, List.append_assoc, List.singleton_append]
          exact ⟨rfl, trivial⟩
      | none =>
          rw [List.filterMap_cons_none hanomaly] at hwritable ⊢
          obtain ⟨hlater, hnoted⟩ := assignAll_of_tolerant hserves hmode hrest hwritable
          obtain ⟨hresult, hkept⟩ :=
            assign_of_consistent h (hdecides d (List.mem_cons_self ..)) hanomaly
          rw [List.filterMap_cons]
          simp only [hresult, hlater, hnoted, hkept]
          exact ⟨by cases t.range? d <;> rfl, trivial⟩

/-- A run that is not strict ends at the first diagnostic that cannot be written. -/
theorem assignAll_of_unwritable {anomaly : Anomaly} : ∀ {ds : List Definition} {a : Attributor},
    a.Serves t → a.strict = false → (∀ d ∈ ds, t.Decides d) →
    (ds.filterMap t.anomaly?).find? (fun found => !found.isWritable) = some anomaly →
      (a.assignAll ds).1 = .error (.unwritable anomaly)
  | [], _, _, _, _, hfirst => absurd hfirst (by simp)
  | d :: ds, a, h, htolerant, hdecides, hfirst => by
      have hlater := @assignAll_of_unwritable anomaly ds _ (h.assign d)
        ((assign_mode a h d).trans htolerant) fun e he => hdecides e (List.mem_cons_of_mem _ he)
      rw [assignAll]
      cases hanomaly : t.anomaly? d with
      | some found =>
          rw [List.filterMap_cons_some hanomaly, List.find?_cons] at hfirst
          have hresult := ((assign_of_anomaly h hanomaly).2 htolerant).1
          cases hwritable : found.isWritable with
          | true =>
              rw [if_pos hwritable] at hresult
              simp only [hwritable, Bool.not_true] at hfirst
              simp only [hresult, hlater hfirst]
              rfl
          | false =>
              rw [if_neg (by simp [hwritable])] at hresult
              simp only [hwritable, Bool.not_false, Option.some.injEq] at hfirst
              simp only [hresult, hfirst]
      | none =>
          rw [List.filterMap_cons_none hanomaly] at hfirst
          have hresult :=
            (assign_of_consistent h (hdecides d (List.mem_cons_self ..)) hanomaly).1
          simp only [hresult, hlater hfirst]
          rfl

end Attributor

/-! ## Reports -/

namespace Inspection

variable {program : Program} {size : Int} {t : Translator} {mode : InspectionMode}

/-- What a run that is not strict reports: all ranges and all diagnostics. -/
theorem conclusion_of_tolerant (hmode : mode.strict = false)
    (hdecides : ∀ d ∈ program.definitions mode.filter, t.Decides d)
    (hwritable : ∀ anomaly ∈ (program.definitions mode.filter).filterMap t.anomaly?,
      anomaly.isWritable = true) :
    conclusion program size t mode
      = (Report.build ((program.definitions mode.filter).filterMap t.range?) size
          ((program.definitions mode.filter).filterMap t.anomaly?)).mapError .percentage :=
  conclusion_of_run (Attributor.assignAll_of_tolerant (Attributor.start_serves t mode.strict) hmode
    hdecides hwritable)

/-- A run that is not strict ends with the first diagnostic that cannot be written. -/
theorem conclusion_of_unwritable (hmode : mode.strict = false)
    (hdecides : ∀ d ∈ program.definitions mode.filter, t.Decides d) {anomaly : Anomaly}
    (hfirst : ((program.definitions mode.filter).filterMap t.anomaly?).find?
      (fun found => !found.isWritable) = some anomaly) :
    conclusion program size t mode = .error (.attribution (.unwritable anomaly)) :=
  have hserves := Attributor.start_serves t mode.strict
  conclusion_of_stop (Attributor.assignAll_of_unwritable hserves hmode hdecides hfirst)

/-- Without an inconsistent definition the mode makes no difference. -/
theorem conclusion_of_consistent
    (hdecides : ∀ d ∈ program.definitions mode.filter, t.Decides d)
    (hnone : (program.definitions mode.filter).filterMap t.anomaly? = []) :
    conclusion program size t mode
      = (Report.build ((program.definitions mode.filter).filterMap t.range?) size []).mapError
          .percentage :=
  conclusion_of_run
    (Attributor.assignAll_of_consistent (Attributor.start_serves t mode.strict) hdecides hnone)

/-- A strict run ends with the first inconsistent definition. -/
theorem conclusion_of_strict (hmode : mode.strict = true)
    (hdecides : ∀ d ∈ program.definitions mode.filter, t.Decides d) {anomaly : Anomaly}
    {rest : List Anomaly}
    (hfirst : (program.definitions mode.filter).filterMap t.anomaly? = anomaly :: rest) :
    conclusion program size t mode = .error (.attribution (.inconsistent anomaly)) :=
  conclusion_of_stop
    (Attributor.assignAll_of_strict (Attributor.start_serves t mode.strict) hmode hdecides hfirst)

end Inspection

end BundleSize
