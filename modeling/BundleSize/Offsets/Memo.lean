import BundleSize.Journal
import BundleSize.Offsets.Translator
import Std.Data.HashMap

/-!
# Translating with a memory

The ends of neighbouring ranges often coincide, so a run remembers each
answer of its translator. An answer from memory is the answer that the
translator would give again; a failure is not remembered. An offset that
goes nowhere is reported once, when it is first asked for.
-/

namespace BundleSize

/-- A translator with the answers it has given. -/
structure Memo where
  translator : Translator
  known : Std.HashMap (Int × Boundary) (Option Int) := {}

namespace Memo

/-- The memory of a translator that was not asked anything. -/
def fresh (t : Translator) : Memo := { translator := t }

/-- The number of answers that are remembered. -/
def size (m : Memo) : Nat := m.known.size

/-- Every remembered answer is the translator's own. -/
def Faithful (m : Memo) : Prop :=
  ∀ (offset : Int) (b : Boundary) (answer : Option Int),
    m.known[(offset, b)]? = some answer → m.translator.translate offset b = .ok answer

theorem fresh_faithful (t : Translator) : (fresh t).Faithful := by
  intro offset b answer h
  simp [fresh] at h

/-- Where an offset goes, the memory after it, and what is reported on the way. -/
def translate (m : Memo) (offset : Int) (b : Boundary) :
    Except LineError (Option Int) × Memo × List Record :=
  match m.known[(offset, b)]? with
  | some answer => (.ok answer, m, [])
  | none =>
    match m.translator.translate offset b with
    | .error e => (.error e, m, [])
    | .ok answer =>
      let records : List Record :=
        if answer.isNone then [⟨.debug, m.translator.unmappedMessage offset b⟩] else []
      (.ok answer, { m with known := m.known.insert (offset, b) answer }, records)

theorem translate_eq {m : Memo} (h : m.Faithful) (offset : Int) (b : Boundary) :
    (m.translate offset b).1 = m.translator.translate offset b := by
  unfold translate
  split
  · rename_i answer hknown
    exact (h offset b answer hknown).symm
  · split <;> simp_all

theorem translate_faithful {m : Memo} (h : m.Faithful) (offset : Int) (b : Boundary) :
    (m.translate offset b).2.1.Faithful := by
  unfold translate
  split
  · exact h
  · split
    · exact h
    · rename_i answer hanswer
      intro o b' a hknown
      simp only [Std.HashMap.getElem?_insert] at hknown
      split at hknown
      · rename_i heq
        obtain ⟨rfl, rfl⟩ : offset = o ∧ b = b' := by simpa using heq
        cases hknown
        exact hanswer
      · exact h o b' a hknown

end Memo

end BundleSize
