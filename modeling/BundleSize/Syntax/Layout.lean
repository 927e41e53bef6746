import BundleSize.Syntax.Node

/-!
# How a tree lies in its text

The nodes of a tree cover stretches of the text's bytes. A parser that reads
a text from its beginning to its end gives trees of one shape: every node
begins and ends between two characters, the parts of a node lie inside it,
and they stand one behind the other. Gaps between them are possible, and so
are nodes that cover nothing.
-/

namespace BundleSize

namespace Text

/-- The number of bytes of the UTF-8 form. -/
def byteLength : List Char → Nat
  | [] => 0
  | c :: rest => c.utf8Size + byteLength rest

/-- The byte offset is one before, between or after the characters of the text. -/
def AtBoundary (text : String) (offset : Nat) : Prop :=
  ∃ n ≤ text.length, offset = byteLength (text.toList.take n)

instance (text : String) (offset : Nat) : Decidable (AtBoundary text offset) :=
  decidable_of_iff (∃ n < text.length + 1, offset = byteLength (text.toList.take n)) <| by
    simp only [AtBoundary, Nat.lt_succ_iff]

end Text

namespace Node

/-- What holds of a node when it holds of its parts holds of all nodes. -/
@[elab_as_elim]
theorem inductionOn {motive : Node → Prop} (n : Node)
    (step : ∀ n : Node, (∀ c ∈ n.children, motive c) → motive n) : motive n :=
  step n fun c _ => inductionOn c step
termination_by sizeOf n
decreasing_by
  rename_i hc
  have hsize := List.sizeOf_lt_of_mem hc
  obtain ⟨kind, named, start, stop, missing, hasError, role, children⟩ := n
  simp only [Node.mk.sizeOf_spec] at hsize ⊢
  omega

mutual

/-- A node and everything below it, in the order of the text; what is around comes first. -/
def nodes : Node → List Node
  | n@⟨_, _, _, _, _, _, _, children⟩ => n :: nodesIn children

def nodesIn : List Node → List Node
  | [] => []
  | c :: cs => nodes c ++ nodesIn cs

end

/-- The node lies between characters, and its parts lie in it, one behind the other. -/
structure LaidOut (text : String) (n : Node) : Prop where
  starts : Text.AtBoundary text n.start.offset
  stops : Text.AtBoundary text n.stop
  start_le_stop : n.start.offset ≤ n.stop
  inside : ∀ c ∈ n.children, n.start.offset ≤ c.start.offset ∧ c.stop ≤ n.stop
  ordered : n.children.Pairwise fun c d => c.stop ≤ d.start.offset

instance (text : String) (n : Node) : Decidable (n.LaidOut text) :=
  decidable_of_iff (Text.AtBoundary text n.start.offset ∧ Text.AtBoundary text n.stop
      ∧ n.start.offset ≤ n.stop
      ∧ (∀ c ∈ n.children, n.start.offset ≤ c.start.offset ∧ c.stop ≤ n.stop)
      ∧ n.children.Pairwise fun c d => c.stop ≤ d.start.offset)
    ⟨fun ⟨starts, stops, hle, inside, ordered⟩ => ⟨starts, stops, hle, inside, ordered⟩,
      fun h => ⟨h.starts, h.stops, h.start_le_stop, h.inside, h.ordered⟩⟩

/-- All nodes of the tree are laid out in the text. -/
def Fits (text : String) (root : Node) : Prop := ∀ n ∈ root.nodes, n.LaidOut text

instance (text : String) (root : Node) : Decidable (root.Fits text) :=
  inferInstanceAs (Decidable (∀ n ∈ root.nodes, n.LaidOut text))

/-! ## Nodes of a tree -/

theorem mem_nodesIn {n : Node} {cs : List Node} : n ∈ nodesIn cs ↔ ∃ c ∈ cs, n ∈ c.nodes := by
  induction cs with
  | nil => simp [nodesIn]
  | cons c cs ih => simp [nodesIn, ih]

theorem mem_nodes {n m : Node} : m ∈ n.nodes ↔ m = n ∨ ∃ c ∈ n.children, m ∈ c.nodes := by
  obtain ⟨kind, named, start, stop, missing, hasError, role, children⟩ := n
  simp only [nodes, List.mem_cons, mem_nodesIn]

theorem self_mem_nodes (n : Node) : n ∈ n.nodes := mem_nodes.mpr (.inl rfl)

theorem mem_nodes_of_mem_children {n c : Node} (h : c ∈ n.children) : c ∈ n.nodes :=
  mem_nodes.mpr (.inr ⟨c, h, self_mem_nodes c⟩)

theorem mem_nodes_trans {n m k : Node} (hm : m ∈ n.nodes) (hk : k ∈ m.nodes) : k ∈ n.nodes := by
  induction n using inductionOn with
  | step n ih =>
      rcases mem_nodes.mp hm with rfl | ⟨c, hc, hm⟩
      · exact hk
      · exact mem_nodes.mpr (.inr ⟨c, hc, ih c hc hm⟩)

theorem mem_nodes_of_child? {n c : Node} {role : Role} (h : n.child? role = some c) :
    c ∈ n.nodes :=
  mem_nodes_of_mem_children (List.mem_of_find?_eq_some h)

theorem mem_of_firstNamedInParentheses {m : Node} : ∀ {cs : List Node},
    firstNamedInParentheses cs = some m → ∃ c ∈ cs, c.inParentheses = some m
  | [], h => by cases h
  | c :: cs, h => by
      rw [firstNamedInParentheses] at h
      split at h
      · exact ⟨c, List.mem_cons_self .., h⟩
      · obtain ⟨c', hc', h⟩ := mem_of_firstNamedInParentheses h
        exact ⟨c', List.mem_cons_of_mem _ hc', h⟩

theorem mem_nodes_of_inParentheses {n m : Node} (h : n.inParentheses = some m) :
    m ∈ n.nodes := by
  induction n using inductionOn with
  | step n ih =>
      obtain ⟨kind, named, start, stop, missing, hasError, role, children⟩ := n
      rw [inParentheses] at h
      split at h
      · obtain ⟨c, hc, h⟩ := mem_of_firstNamedInParentheses h
        exact mem_nodes.mpr (.inr ⟨c, hc, ih c hc h⟩)
      · obtain rfl := Option.some.inj h
        exact self_mem_nodes _

/-! ## Trees that fit their text -/

theorem Fits.of_mem {text : String} {n m : Node} (h : n.Fits text) (hm : m ∈ n.nodes) :
    m.Fits text :=
  fun k hk => h k (mem_nodes_trans hm hk)

/-- Everything below a node lies in it. -/
theorem Fits.within {text : String} {n m : Node} (h : n.Fits text) (hm : m ∈ n.nodes) :
    n.start.offset ≤ m.start.offset ∧ m.stop ≤ n.stop := by
  induction n using inductionOn with
  | step n ih =>
      rcases mem_nodes.mp hm with rfl | ⟨c, hc, hm⟩
      · exact ⟨Nat.le_refl _, Nat.le_refl _⟩
      · obtain ⟨hstart, hstop⟩ := (h n (self_mem_nodes n)).inside c hc
        obtain ⟨hstart', hstop'⟩ := ih c hc (h.of_mem (mem_nodes_of_mem_children hc)) hm
        exact ⟨Nat.le_trans hstart hstart', Nat.le_trans hstop' hstop⟩

end Node

end BundleSize
