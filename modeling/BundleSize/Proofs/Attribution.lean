import BundleSize.Attribution.Attributor

/-!
# What an attributor adds to its translator

An attributor answers from memory, counts, and may stop; none of this decides
what becomes of a definition. In every state that it can reach its memory
holds only answers of its translator (`Reached.serves`), and from such a state
`Attributor.assign_eq` reduces attribution of a definition to settling the
outcome that the translator alone gives it. Later proofs use that reduction
and never look into the memory.

A run is the steps in order: as long as none of them stops it, its ranges are
those of the kept outcomes in the order of the definitions
(`Attributor.assignAll_ranges`), and if none of them is inconsistent it does not stop
(`Attributor.assignAll_of_consistent`).
-/

namespace BundleSize

theorem Memo.translate_translator (m : Memo) (offset : Int) (b : Boundary) :
    (m.translate offset b).2.1.translator = m.translator := by
  unfold translate
  split
  · rfl
  · split <;> rfl

/-- The characters that ranges occupy, each range on its own. -/
def occupied : List AttributedRange → Int
  | [] => 0
  | r :: ranges => r.size + occupied ranges

/-- The range that a kept definition occupies. -/
def Outcome.range? : Outcome → Option AttributedRange
  | .kept range => some range
  | _ => none

/-- The range that a definition occupies, if it is kept. -/
def Translator.range? (t : Translator) (d : Definition) : Option AttributedRange :=
  match t.outcome d with
  | .ok outcome => outcome.range?
  | .error _ => none

/-- The diagnostic of an inconsistent definition. -/
def Outcome.anomaly? : Outcome → Option Anomaly
  | .inconsistent anomaly => some anomaly
  | _ => none

/-- The diagnostic of a definition, if it is inconsistent. -/
def Translator.anomaly? (t : Translator) (d : Definition) : Option Anomaly :=
  match t.outcome d with
  | .ok outcome => outcome.anomaly?
  | .error _ => none

/-- The definition has an outcome: no lookup for it fails. -/
def Translator.Decides (t : Translator) (d : Definition) : Prop :=
  ∃ outcome, t.outcome d = .ok outcome

/-! ## Outcomes -/

namespace Translator

variable {t : Translator} {d : Definition} {r : AttributedRange}

theorem outcome_eq {start stop : Option Int} (hstart : t.translate d.start .left = .ok start)
    (hstop : t.translate d.stop .right = .ok stop) :
    t.outcome d = .ok (t.classify d start stop) := by
  rw [outcome, hstart, hstop]
  rfl

/-- A kept definition occupies the range between its translated ends, which are in order. -/
theorem ends_of_kept (h : t.outcome d = .ok (.kept r)) :
    t.translate d.start .left = .ok (some r.start)
      ∧ t.translate d.stop .right = .ok (some r.stop)
      ∧ r.definition = d ∧ r.start ≤ r.stop := by
  cases hstart : t.translate d.start .left with
  | error e =>
      rw [outcome, hstart] at h
      cases h
  | ok start =>
      cases hstop : t.translate d.stop .right with
      | error e =>
          rw [outcome, hstart, hstop] at h
          cases h
      | ok stop =>
          rw [outcome_eq hstart hstop] at h
          have h := Except.ok.inj h
          unfold classify at h
          split at h
          · split at h
            · rename_i hordered
              obtain rfl := Outcome.kept.inj h
              exact ⟨rfl, rfl, rfl, hordered⟩
            · split at h <;> cases h
          · cases h

theorem outcome_of_range? (h : t.range? d = some r) : t.outcome d = .ok (.kept r) := by
  rw [range?] at h
  split at h
  · rename_i outcome houtcome
    cases outcome with
    | kept range =>
        obtain rfl := Option.some.inj h
        exact houtcome
    | _ => cases h
  · cases h

end Translator

namespace Attributor

/-! ## Reachable states -/

/-- The states of an attributor after any attributions, also ones that failed, and after any other
questions to its translator in between. -/
inductive Reached (t : Translator) (strict : Bool) : Attributor → Prop where
  | start : Reached t strict (Attributor.start t strict)
  | assign {a : Attributor} (d : Definition) :
      Reached t strict a → Reached t strict (a.assign d).state
  | translate {a : Attributor} (offset : Int) (b : Boundary) :
      Reached t strict a → Reached t strict { a with memo := (a.memo.translate offset b).2.1 }

/-- The attributor works for a translator: its memory holds answers of that one only. -/
structure Serves (a : Attributor) (t : Translator) : Prop where
  translator : a.memo.translator = t
  faithful : a.memo.Faithful

theorem start_serves (t : Translator) (strict : Bool) : (Attributor.start t strict).Serves t :=
  ⟨rfl, Memo.fresh_faithful t⟩

theorem Serves.translate {a : Attributor} {t : Translator} (h : a.Serves t) (offset : Int)
    (b : Boundary) : Serves { a with memo := (a.memo.translate offset b).2.1 } t :=
  ⟨(a.memo.translate_translator offset b).trans h.translator,
    Memo.translate_faithful h.faithful offset b⟩

/-! ## One definition -/

/-- The step that an outcome leads to: a failed lookup stops the run. -/
def settle (a : Attributor) (d : Definition) (records : List Record) :
    Except LineError Outcome → Step
  | .error e => ⟨.error (.line e), a, records⟩
  | .ok outcome => a.conclude d records outcome

/-- Attributing a definition settles the translator's own outcome; only the memory and the records
depend on what was asked before. -/
theorem assign_eq {a : Attributor} {t : Translator} (h : a.Serves t) (d : Definition) :
    ∃ memo records, memo.translator = t ∧ memo.Faithful
      ∧ a.assign d = settle { a with memo } d records (t.outcome d) := by
  have hstart := Memo.translate_eq h.faithful d.start .left
  have hserves := h.translate d.start .left
  simp only [assign, Translator.outcome]
  rw [h.translator] at hstart
  generalize a.memo.translate d.start .left = started at hstart hserves
  obtain ⟨start, memo, startRecords⟩ := started
  simp only at hstart hserves ⊢
  rw [← hstart]
  cases start with
  | error e => exact ⟨memo, startRecords, hserves.translator, hserves.faithful, rfl⟩
  | ok start =>
      have hstop := Memo.translate_eq hserves.faithful d.stop .right
      have hserves' := hserves.translate d.stop .right
      simp only at hstop hserves' ⊢
      rw [show memo.translator = t from hserves.translator] at hstop
      generalize memo.translate d.stop .right = stopped at hstop hserves'
      obtain ⟨stop, memo', stopRecords⟩ := stopped
      simp only at hstop hserves' ⊢
      rw [← hstop]
      refine ⟨memo', startRecords ++ stopRecords, hserves'.translator, hserves'.faithful, ?_⟩
      cases stop with
      | error e => rfl
      | ok stop =>
          simp only [show memo'.translator = t from hserves'.translator]
          rfl

/-- A kept definition gives its range and changes no count. -/
theorem assign_of_kept {a : Attributor} {t : Translator} (h : a.Serves t) {d : Definition}
    {r : AttributedRange} (houtcome : t.outcome d = .ok (.kept r)) :
    (a.assign d).result = .ok (some r) ∧ (a.assign d).state.unmapped = a.unmapped
      ∧ (a.assign d).state.aliased = a.aliased
      ∧ (a.assign d).state.anomalies = a.anomalies := by
  obtain ⟨memo, records, -, -, heq⟩ := assign_eq h d
  rw [heq, houtcome]
  exact ⟨rfl, rfl, rfl, rfl⟩

/-- A removed definition gives no range and is counted as such. -/
theorem assign_of_unmapped {a : Attributor} {t : Translator} (h : a.Serves t) {d : Definition}
    (houtcome : t.outcome d = .ok .unmapped) :
    (a.assign d).result = .ok none ∧ (a.assign d).state.unmapped = a.unmapped + 1
      ∧ (a.assign d).state.aliased = a.aliased
      ∧ (a.assign d).state.anomalies = a.anomalies := by
  obtain ⟨memo, records, -, -, heq⟩ := assign_eq h d
  rw [heq, houtcome]
  exact ⟨rfl, rfl, rfl, rfl⟩

/-- An alias gives no range in either mode and is counted as such. -/
theorem assign_of_aliased {a : Attributor} {t : Translator} (h : a.Serves t) {d : Definition}
    (houtcome : t.outcome d = .ok .aliased) :
    (a.assign d).result = .ok none ∧ (a.assign d).state.unmapped = a.unmapped
      ∧ (a.assign d).state.aliased = a.aliased + 1
      ∧ (a.assign d).state.anomalies = a.anomalies := by
  obtain ⟨memo, records, -, -, heq⟩ := assign_eq h d
  rw [heq, houtcome]
  exact ⟨rfl, rfl, rfl, rfl⟩

/-- An inconsistent definition gives no range: a strict run stops at it, another one notes it and
goes on if it can be written. -/
theorem assign_of_inconsistent {a : Attributor} {t : Translator} (h : a.Serves t)
    {d : Definition} {anomaly : Anomaly} (houtcome : t.outcome d = .ok (.inconsistent anomaly)) :
    (a.assign d).state.unmapped = a.unmapped ∧ (a.assign d).state.aliased = a.aliased
      ∧ (a.strict = true → (a.assign d).result = .error (.inconsistent anomaly)
        ∧ (a.assign d).state.anomalies = a.anomalies)
      ∧ (a.strict = false →
        (a.assign d).result
            = (if anomaly.isWritable then .ok none else .error (.unwritable anomaly))
        ∧ (a.assign d).state.anomalies = a.anomalies ++ [anomaly]) := by
  obtain ⟨memo, records, -, -, heq⟩ := assign_eq h d
  rw [heq, houtcome]
  simp only [settle, conclude]
  by_cases hstrict : a.strict = true
  · rw [if_pos hstrict]
    exact ⟨rfl, rfl, fun _ => ⟨rfl, rfl⟩, fun htolerant => absurd hstrict (by simp [htolerant])⟩
  · rw [if_neg hstrict]
    split <;> exact ⟨rfl, rfl, fun h => absurd h hstrict, fun _ => ⟨rfl, rfl⟩⟩

/-- Settling touches the counts and the diagnostics, not the memory and the mode. -/
theorem settle_memo (a : Attributor) (d : Definition) (records : List Record)
    (outcome : Except LineError Outcome) :
    (a.settle d records outcome).state.memo = a.memo
      ∧ (a.settle d records outcome).state.strict = a.strict := by
  cases outcome with
  | error e => exact ⟨rfl, rfl⟩
  | ok outcome =>
      cases outcome with
      | inconsistent anomaly =>
          simp only [settle, conclude]
          split
          · exact ⟨rfl, rfl⟩
          · split <;> exact ⟨rfl, rfl⟩
      | _ => exact ⟨rfl, rfl⟩

theorem Serves.assign {a : Attributor} {t : Translator} (h : a.Serves t) (d : Definition) :
    (a.assign d).state.Serves t := by
  obtain ⟨memo, records, htranslator, hfaithful, heq⟩ := assign_eq h d
  have hmemo := (settle_memo { a with memo } d records (t.outcome d)).1
  rw [heq]
  exact ⟨by rw [hmemo]; exact htranslator, by rw [hmemo]; exact hfaithful⟩

/-- In every reachable state the memory holds answers of the translator only. -/
theorem Reached.serves {t : Translator} {strict : Bool} {a : Attributor}
    (h : Reached t strict a) : a.Serves t := by
  induction h with
  | start => exact start_serves t strict
  | assign d _ ih => exact ih.assign d
  | translate offset b _ ih => exact ih.translate offset b

/-! ## Runs -/

variable {t : Translator}

/-- The definition is kept or removed: it stops no run, and nothing is noted about it. -/
def Settled (t : Translator) (d : Definition) : Prop :=
  t.outcome d = .ok .unmapped ∨ ∃ range, t.outcome d = .ok (.kept range)

/-- A result of a step is the range of the definition's outcome. -/
theorem range?_of_assign_result {a : Attributor} (h : a.Serves t) {d : Definition}
    {kept : Option AttributedRange} (hresult : (a.assign d).result = .ok kept) :
    kept = t.range? d := by
  obtain ⟨memo, records, -, -, heq⟩ := assign_eq h d
  rw [heq] at hresult
  rw [Translator.range?]
  cases houtcome : t.outcome d with
  | error e =>
      rw [houtcome] at hresult
      cases hresult
  | ok outcome =>
      rw [houtcome, settle] at hresult
      cases outcome with
      | kept range => exact (Except.ok.inj hresult).symm
      | unmapped => exact (Except.ok.inj hresult).symm
      | aliased => exact (Except.ok.inj hresult).symm
      | inconsistent anomaly =>
          simp only [conclude] at hresult
          split at hresult
          · cases hresult
          · split at hresult
            · exact (Except.ok.inj hresult).symm
            · cases hresult

/-- A definition that is not inconsistent gives its range, in either mode. -/
theorem assign_of_consistent {a : Attributor} (h : a.Serves t) {d : Definition}
    (hdecides : t.Decides d) (hnone : t.anomaly? d = none) :
    (a.assign d).result = .ok (t.range? d) ∧ (a.assign d).state.anomalies = a.anomalies := by
  obtain ⟨outcome, houtcome⟩ := hdecides
  obtain ⟨memo, records, -, -, heq⟩ := assign_eq h d
  rw [Translator.anomaly?, houtcome] at hnone
  rw [heq, Translator.range?, houtcome]
  cases outcome with
  | inconsistent anomaly => cases hnone
  | _ => exact ⟨rfl, rfl⟩

/-- A run that is not stopped gives the ranges of the kept definitions, in their order. -/
theorem assignAll_ranges : ∀ {ds : List Definition} {a : Attributor}
    {ranges : List AttributedRange}, a.Serves t → (a.assignAll ds).1 = .ok ranges →
      ranges = ds.filterMap t.range?
  | [], _, _, _, hrun => (Except.ok.inj hrun).symm
  | d :: ds, a, ranges, h, hrun => by
      rw [assignAll] at hrun
      cases hresult : (a.assign d).result with
      | error e => simp [hresult] at hrun
      | ok kept =>
          have hkept := range?_of_assign_result h hresult
          simp only [hresult] at hrun
          cases hlater : ((a.assign d).state.assignAll ds).1 with
          | error e =>
              rw [hlater] at hrun
              cases hrun
          | ok later =>
              rw [hlater] at hrun
              have hranges : kept.toList ++ later = ranges := Except.ok.inj hrun
              rw [← hranges, assignAll_ranges (h.assign d) hlater, hkept, List.filterMap_cons]
              cases t.range? d <;> rfl

/-- A run over consistent definitions is the same in both modes. -/
theorem assignAll_of_consistent : ∀ {ds : List Definition} {a : Attributor}, a.Serves t →
    (∀ d ∈ ds, t.Decides d) → ds.filterMap t.anomaly? = [] →
      (a.assignAll ds).1 = .ok (ds.filterMap t.range?)
        ∧ (a.assignAll ds).2.1.anomalies = a.anomalies
  | [], _, _, _, _ => ⟨rfl, rfl⟩
  | d :: ds, a, h, hdecides, hnone => by
      cases hanomaly : t.anomaly? d with
      | some anomaly =>
          rw [List.filterMap_cons_some hanomaly] at hnone
          cases hnone
      | none =>
          rw [List.filterMap_cons_none hanomaly] at hnone
          obtain ⟨hresult, hkept⟩ :=
            assign_of_consistent h (hdecides d (List.mem_cons_self ..)) hanomaly
          obtain ⟨hlater, hlaterKept⟩ := assignAll_of_consistent (h.assign d)
            (fun e he => hdecides e (List.mem_cons_of_mem _ he)) hnone
          rw [assignAll, List.filterMap_cons]
          simp only [hresult, hlater]
          exact ⟨by cases t.range? d <;> rfl, hlaterKept.trans hkept⟩

theorem Settled.consistent {d : Definition} (h : Settled t d) :
    t.Decides d ∧ t.anomaly? d = none := by
  rcases h with houtcome | ⟨range, houtcome⟩
  · exact ⟨⟨_, houtcome⟩, by rw [Translator.anomaly?, houtcome]; rfl⟩
  · exact ⟨⟨_, houtcome⟩, by rw [Translator.anomaly?, houtcome]; rfl⟩

/-- A run over settled definitions is not stopped and finds no anomaly. -/
theorem assignAll_of_settled {ds : List Definition} {a : Attributor} (h : a.Serves t)
    (hds : ∀ d ∈ ds, Settled t d) :
    (a.assignAll ds).1 = .ok (ds.filterMap t.range?)
      ∧ (a.assignAll ds).2.1.anomalies = a.anomalies :=
  assignAll_of_consistent h (fun d hd => (hds d hd).consistent.1)
    (List.filterMap_eq_nil_iff.mpr fun d hd => (hds d hd).consistent.2)

end Attributor

end BundleSize
