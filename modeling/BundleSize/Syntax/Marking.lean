import BundleSize.Syntax.Layout
import Mathlib.Data.List.DropRight

/-!
# How errors are marked in a tree

A parser that goes on behind an error marks it in the tree and flags every node
that it lies in, and no others (`Node.Flagged`). Each node tells by bytes where it
begins, the line feeds before it among them (`Node.PlacedIn`).
-/

namespace BundleSize

namespace Text

/-- The bytes of the UTF-8 form. -/
def utf8 (s : List Char) : List UInt8 := s.flatMap String.utf8EncodeChar

/-- The place behind the given beginning of a text. -/
def pointBehind (front : List Char) : BytePoint :=
  let bytes := utf8 front
  { offset := bytes.length
    row := bytes.count 10
    column := bytes.length - (bytes.rdropWhile (· ≠ 10)).length }

end Text

namespace Node

/-- The parser could not make sense of what stands here, or assumed what does not. -/
def isFault (n : Node) : Bool := n.kind = .error || n.missing

/-- The flagged nodes of the tree are those that a fault lies in. -/
def Flagged (root : Node) : Prop :=
  ∀ n ∈ root.nodes, n.hasError = true ↔ ∃ m ∈ n.nodes, m.isFault = true

instance (root : Node) : Decidable root.Flagged :=
  inferInstanceAs (Decidable (∀ n ∈ root.nodes, n.hasError = true ↔ ∃ m ∈ n.nodes, m.isFault = true))

/-- Every node of the tree begins between two characters, in the place that it tells. -/
def PlacedIn (text : String) (root : Node) : Prop :=
  ∀ n ∈ root.nodes, ∃ offset ≤ text.length, n.start = Text.pointBehind (text.toList.take offset)

instance (text : String) (root : Node) : Decidable (root.PlacedIn text) :=
  decidable_of_iff (∀ n ∈ root.nodes, ∃ offset < text.length + 1,
      n.start = Text.pointBehind (text.toList.take offset)) <| by
    simp only [PlacedIn, Nat.lt_succ_iff]

end Node

end BundleSize
