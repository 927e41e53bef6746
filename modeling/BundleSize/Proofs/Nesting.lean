import BundleSize.Proofs.Comments
import BundleSize.Syntax.Edits

/-!
# Definitions and what is nested in them

Which definitions are found below a node depends on its place
(`Program.definitionsAt`). At each place they are put together from those of some
of its parts: of all named ones, of the first named one, or of the first one in a
role. An edited part is chosen where the part before was
(`flatMap_filter_replace`, `flatMap_find?_replace`), so if the edit keeps the
definitions at the part, it keeps them at the node
(`Program.definitionsAt_inside`). Of what is edited itself, parentheses are looked
through (`Program.definitionsAt_of_encloses`), and nothing is found below a node
with interior parts only (`Program.definitionsAt_of_interior`).

So, by induction on the way down to the edit, the definitions of the program are
the same after one edit (`Program.kept_of_edited`), and therefore after any number
of them (`Program.definitions_eq_of_edited`).
-/

namespace BundleSize

section

variable {α β γ : Type} {f : α → List β} {q : α → Bool} {a b : α}

theorem flatMap_filter_replace (front back : List α) (hq : q b = q a)
    (hf : q a = true → f b = f a) :
    ((front ++ b :: back).filter q).flatMap f = ((front ++ a :: back).filter q).flatMap f := by
  simp only [List.filter_append, List.filter_cons, List.flatMap_append, hq]
  split
  · rename_i ha
    simp only [List.flatMap_cons, hf ha]
  · rfl

theorem flatMap_find?_replace (front back : List α) (hq : q b = q a)
    (hf : q a = true → f b = f a) :
    ((front ++ b :: back).find? q).toList.flatMap f
      = ((front ++ a :: back).find? q).toList.flatMap f := by
  simp only [List.find?_append, List.find?_cons, hq]
  cases front.find? q with
  | some _ => rfl
  | none =>
      cases ha : q a with
      | false => rfl
      | true => simp only [Option.none_or, Option.toList_some, List.flatMap_singleton, hf ha]

theorem flatMap_toList_bind (o : Option α) (g : α → Option β) (h : β → List γ) :
    (o.bind g).toList.flatMap h = o.toList.flatMap fun a => (g a).toList.flatMap h := by
  cases o with
  | none => rfl
  | some a => simp only [Option.bind_some, Option.toList_some, List.flatMap_singleton]

end

open Node

/-- The body of a function that is written as an expression. -/
def functionBody? (callee : Node) : Option Node :=
  if isFunctionLiteral callee.kind then callee.child? .body else none

theorem isFunctionLiteral_iff {kind : NodeKind} :
    isFunctionLiteral kind = true ↔ kind = .functionExpression ∨ kind = .functionLiteral := by
  simp [isFunctionLiteral]

theorem calledBody?_eq (call : Node) : calledBody? call
    = if call.kind = .callExpression then
        (call.child? .callee).bind fun callee => callee.inParentheses.bind functionBody?
      else none := by
  rw [calledBody?]
  rfl

theorem Node.inParentheses_eq (n : Node) : n.inParentheses
    = if n.kind = .parenthesizedExpression then
        (n.children.find? (·.named)).bind inParentheses
      else some n := by
  obtain ⟨kind, named, start, stop, missing, hasError, role, children⟩ := n
  rw [inParentheses, firstNamedInParentheses_eq, List.head?_filter]

namespace Program

/-- The definitions that are found below a node that is at the given place. -/
def definitionsAt (p : Program) (place : Place) (n : Node) : List Definition :=
  match place with
  | .program => n.namedChildren.flatMap fun s => (bodyStatements s).flatMap p.statementDefinitions
  | .statement => (bodyStatements n).flatMap p.statementDefinitions
  | .expression => (n.inParentheses.bind calledBody?).toList.flatMap fun body =>
      body.namedChildren.flatMap p.statementDefinitions
  | .callee => (n.inParentheses.bind functionBody?).toList.flatMap fun body =>
      body.namedChildren.flatMap p.statementDefinitions
  | .body => n.namedChildren.flatMap p.statementDefinitions
  | .member => p.statementDefinitions n
  | .declarator => (p.declaratorDefinition? n).toList
  | .name | .interior => []

variable (p : Program) {place : Place} {n n' : Node}

theorem allDefinitions_eq : p.allDefinitions = p.definitionsAt .program p.root := by
  rw [allDefinitions, initializerStatements_eq, List.flatMap_assoc]
  rfl

/-! ## The parts that definitions are taken from -/

theorem flatMap_bodyStatements (s : Node) : (bodyStatements s).flatMap p.statementDefinitions
    = (initializerBody? s).toList.flatMap (p.definitionsAt .body) := by
  rw [bodyStatements]
  cases initializerBody? s with
  | none => rfl
  | some body => rw [Option.toList_some, List.flatMap_singleton, definitionsAt]

theorem definitionsAt_statement (n : Node) : p.definitionsAt .statement n
    = if n.kind = .expressionStatement then
        (n.children.find? (·.named)).toList.flatMap (p.definitionsAt .expression)
      else [] := by
  rw [definitionsAt, flatMap_bodyStatements, initializerBody?_eq, firstNamedInParentheses_eq,
    List.head?_filter, Option.bind_assoc]
  split
  · rw [flatMap_toList_bind]
    rfl
  · rfl

theorem definitionsAt_expression (n : Node) : p.definitionsAt .expression n
    = if n.kind = .parenthesizedExpression then
        (n.children.find? (·.named)).toList.flatMap (p.definitionsAt .expression)
      else if n.kind = .callExpression then
        (n.children.find? (·.role == some .callee)).toList.flatMap (p.definitionsAt .callee)
      else [] := by
  rw [definitionsAt, inParentheses_eq]
  split
  · rw [Option.bind_assoc, flatMap_toList_bind]
    rfl
  · rw [Option.bind_some, calledBody?_eq, child?]
    split
    · rw [flatMap_toList_bind]
      rfl
    · rfl

theorem definitionsAt_callee (n : Node) : p.definitionsAt .callee n
    = if n.kind = .parenthesizedExpression then
        (n.children.find? (·.named)).toList.flatMap (p.definitionsAt .callee)
      else if isFunctionLiteral n.kind then
        (n.children.find? (·.role == some .body)).toList.flatMap (p.definitionsAt .body)
      else [] := by
  rw [definitionsAt, inParentheses_eq]
  split
  · rw [Option.bind_assoc, flatMap_toList_bind]
    rfl
  · rw [Option.bind_some, functionBody?, child?]
    split <;> rfl

theorem definitionsAt_member (n : Node) : p.definitionsAt .member n
    = if n.kind = .variableDeclaration ∨ n.kind = .lexicalDeclaration then
        (n.children.filter (·.named)).flatMap (p.definitionsAt .declarator)
      else if n.kind = .functionDeclaration ∨ n.kind = .generatorFunctionDeclaration then
        (n.children.find? (·.role == some .name)).toList.flatMap fun name =>
          [p.definitionOf .function name n]
      else [] := by
  rw [definitionsAt, statementDefinitions, functionDefinition?, child?]
  split
  · rw [List.filterMap_eq_flatMap_toList]
    rfl
  · split
    · cases n.children.find? (·.role == some .name) <;> rfl
    · rfl

theorem definitionsAt_declarator (n : Node) : p.definitionsAt .declarator n
    = if n.kind = .variableDeclarator then
        (n.children.find? (·.role == some .name)).toList.flatMap fun name =>
          if name.kind = .identifier then [p.definitionOf .binding name n] else []
      else [] := by
  rw [definitionsAt, declaratorDefinition?, child?]
  split
  · cases n.children.find? (·.role == some .name) with
    | none => rfl
    | some name =>
        simp only [Option.toList_some, List.flatMap_singleton]
        split <;> rfl
  · rfl

/-! ## Edits -/

/-- From above, the second node cannot be told from the first one: it is chosen where the first one
is, and the same definitions are found below it. -/
structure Kept (p : Program) (place : Place) (n n' : Node) : Prop where
  named : n'.named = n.named
  role : n'.role = n.role
  /-- All that counts of a name are its kind and its range. -/
  spelled : place = .name → n'.kind = n.kind ∧ n'.start = n.start ∧ n'.stop = n.stop
  definitions : p.definitionsAt place n' = p.definitionsAt place n

variable {p}

theorem definitionOf_of_spelled {name name' node node' : Node} (hname : name'.start = name.start
    ∧ name'.stop = name.stop) (hnode : node'.start = node.start ∧ node'.stop = node.stop)
    (kind : DefinitionKind) : p.definitionOf kind name' node' = p.definitionOf kind name node := by
  simp only [definitionOf, nodeText, range, hname, hnode]

/-- The definitions at a node are the same when they are the same at the part that is edited. -/
theorem definitionsAt_inside {c c' : Node} (n : Node) (front back : List Node)
    (h : p.Kept (place.part n.kind c.role) c c') :
    p.definitionsAt place { n with children := front ++ c' :: back }
      = p.definitionsAt place { n with children := front ++ c :: back } := by
  have hrole : ∀ role : Role, (c'.role == some role) = (c.role == some role) := fun role => by
    rw [h.role]
  -- each case settles how parts are chosen at the place, and what the chosen part is
  cases place with
  | program => exact flatMap_filter_replace front back h.named fun _ => h.definitions
  | statement =>
      simp only [definitionsAt_statement]
      split
      · rename_i hkind
        simp only [Place.part, hkind, if_true] at h
        exact flatMap_find?_replace front back h.named fun _ => h.definitions
      · rfl
  | expression =>
      simp only [definitionsAt_expression]
      split
      · rename_i hkind
        simp only [Place.part, hkind, if_true] at h
        exact flatMap_find?_replace front back h.named fun _ => h.definitions
      · rename_i hkind
        split
        · rename_i hcall
          refine flatMap_find?_replace front back (hrole .callee) fun hc => ?_
          simp only [Place.part, hcall, beq_iff_eq.mp hc, and_self, if_true, reduceCtorEq,
            if_false] at h
          exact h.definitions
        · rfl
  | callee =>
      simp only [definitionsAt_callee, isFunctionLiteral_iff]
      split
      · rename_i hkind
        simp only [Place.part, hkind, if_true] at h
        exact flatMap_find?_replace front back h.named fun _ => h.definitions
      · rename_i hkind
        split
        · rename_i hfunction
          refine flatMap_find?_replace front back (hrole .body) fun hc => ?_
          simp only [Place.part, hkind, hfunction, beq_iff_eq.mp hc, and_self, if_true,
            if_false] at h
          exact h.definitions
        · rfl
  | body => exact flatMap_filter_replace front back h.named fun _ => h.definitions
  | member =>
      simp only [definitionsAt_member]
      split
      · rename_i hkind
        simp only [Place.part, hkind, if_true] at h
        exact flatMap_filter_replace front back h.named fun _ => h.definitions
      · rename_i hkind
        split
        · rename_i hfunction
          refine flatMap_find?_replace front back (hrole .name) fun hc => ?_
          simp only [Place.part, hkind, hfunction, beq_iff_eq.mp hc, and_self, if_true,
            if_false] at h
          rw [definitionOf_of_spelled (h.spelled rfl).2 ⟨rfl, rfl⟩]
        · rfl
  | declarator =>
      simp only [definitionsAt_declarator]
      split
      · rename_i hkind
        refine flatMap_find?_replace front back (hrole .name) fun hc => ?_
        simp only [Place.part, hkind, beq_iff_eq.mp hc, and_self, if_true] at h
        rw [definitionOf_of_spelled (h.spelled rfl).2 ⟨rfl, rfl⟩, (h.spelled rfl).1]
      · rfl
  | name => rfl
  | interior => rfl

/-- Parentheses are looked through; the role of a node in them does not matter. -/
theorem definitionsAt_of_encloses {outer : Node} (hplace : place = .expression ∨ place = .callee)
    (h : Encloses outer n) : p.definitionsAt place outer = p.definitionsAt place n := by
  obtain ⟨role, hcontent⟩ := h.content
  have hfirst : outer.children.find? (·.named) = some { n with role } := by
    rw [← List.head?_filter]
    exact congrArg List.head? hcontent
  rcases hplace with rfl | rfl
  · rw [p.definitionsAt_expression outer, if_pos h.kind, hfirst, Option.toList_some,
      List.flatMap_singleton, definitionsAt_expression, definitionsAt_expression]
  · rw [p.definitionsAt_callee outer, if_pos h.kind, hfirst, Option.toList_some,
      List.flatMap_singleton, definitionsAt_callee, definitionsAt_callee]

/-- Nothing is found below a node with interior parts only. -/
theorem definitionsAt_of_interior (h : ∀ role, place.part n.kind role = .interior) :
    p.definitionsAt place n = [] := by
  cases place with
  | program => cases h none
  | statement =>
      rw [definitionsAt_statement, if_neg]
      intro hkind
      simpa [Place.part, hkind] using h none
  | expression =>
      rw [definitionsAt_expression, if_neg, if_neg]
      · intro hcall
        simpa [Place.part, hcall] using h (some .callee)
      · intro hkind
        simpa [Place.part, hkind] using h none
  | callee =>
      rw [definitionsAt_callee, if_neg, if_neg]
      · intro hfunction
        rcases isFunctionLiteral_iff.mp hfunction with hkind | hkind <;>
          simpa [Place.part, hkind] using h (some .body)
      · intro hkind
        simpa [Place.part, hkind] using h none
  | body => cases h none
  | member =>
      rw [definitionsAt_member, if_neg, if_neg]
      · intro hfunction
        rcases hfunction with hkind | hkind <;> simpa [Place.part, hkind] using h (some .name)
      · intro hkind
        simpa [Place.part, hkind] using h none
  | declarator =>
      rw [definitionsAt_declarator, if_neg]
      intro hkind
      simpa [Place.part, hkind] using h (some .name)
  | name => rfl
  | interior => rfl

/-- One edit is not noticed from above. -/
theorem kept_of_edited (h : Edited place n n') : p.Kept place n n' := by
  induction h with
  | @enclose place n outer hplace hencloses =>
      obtain ⟨role, hcontent⟩ := hencloses.content
      have hmem : { n with role } ∈ outer.namedChildren := by
        rw [hcontent]
        exact List.mem_singleton_self _
      have hnamed : n.named = true := (List.mem_filter.mp hmem).2
      refine ⟨hencloses.named.trans hnamed.symm, hencloses.role, ?_,
        definitionsAt_of_encloses hplace hencloses⟩
      rintro rfl
      simp at hplace
  | @refill place n n' hinterior hrefilled =>
      have hinterior' : ∀ role, place.part n'.kind role = .interior := by
        rwa [hrefilled.kind]
      exact ⟨hrefilled.named, hrefilled.role,
        fun _ => ⟨hrefilled.kind, hrefilled.start, hrefilled.stop⟩, by
        rw [definitionsAt_of_interior hinterior, definitionsAt_of_interior hinterior']⟩
  | inside n front back _ ih =>
      exact ⟨rfl, rfl, fun _ => ⟨rfl, rfl, rfl⟩, definitionsAt_inside n front back ih⟩

theorem definitionsAt_of_eqvGen (h : Relation.EqvGen (Edited place) n n') :
    p.definitionsAt place n' = p.definitionsAt place n := by
  induction h with
  | rel n n' h => exact (kept_of_edited h).definitions
  | refl n => rfl
  | symm n n' _ ih => exact ih.symm
  | trans n n' n'' _ _ ih ih' => exact ih'.trans ih

/-- What is found below a node depends on the text alone. -/
theorem definitionsAt_of_index {p' : Program} (h : p'.index = p.index) (place : Place) (n : Node) :
    p'.definitionsAt place n = p.definitionsAt place n := by
  obtain ⟨root, index⟩ := p
  obtain ⟨root', index'⟩ := p'
  obtain rfl : index' = index := h
  rfl

/-- **Definitions are found through parentheses and never in nested code.** Let the tree of a
program be edited anywhere and any number of times: parentheses are put around calls and called
functions, or taken away, and other subtrees are put under parts that no way to a declared name
leads through. Then the definitions that a filter keeps are the same as before, with their names,
their kinds and their ranges, and in their order. -/
theorem definitions_eq_of_edited {p p' : Program} (hindex : p'.index = p.index)
    (hroots : Relation.EqvGen (Edited .program) p.root p'.root) (filter : NameFilter) :
    p'.definitions filter = p.definitions filter := by
  rw [definitions, definitions, allDefinitions_eq, allDefinitions_eq,
    definitionsAt_of_index hindex, definitionsAt_of_eqvGen hroots]

/-- A node in a pair of parentheses. -/
def enclosed (n : Node) : Node :=
  { kind := .parenthesizedExpression, start := n.start, stop := n.stop, role := n.role
    children := [{ n with role := none }] }

theorem edited_enclosed (hplace : place = .expression ∨ place = .callee) (h : n.named = true) :
    Edited place n (enclosed n) :=
  .enclose hplace ⟨rfl, rfl, rfl, none, List.filter_cons_of_pos h⟩

/-- A function that declares a variable, with subtrees under its value and under the statement
behind it. -/
def declaring (value last : List Node) : Node :=
  { kind := .functionExpression, start := ⟨1, 0, 1⟩, stop := 24, role := some .callee
    children := [
      { kind := .statementBlock, start := ⟨11, 0, 11⟩, stop := 24, role := some .body
        children := [
          { kind := .variableDeclaration, start := ⟨12, 0, 12⟩, stop := 20
            children := [
              { kind := .variableDeclarator, start := ⟨16, 0, 16⟩, stop := 19
                children := [
                  { kind := .identifier, start := ⟨16, 0, 16⟩, stop := 17, role := some .name },
                  { kind := .other "number", start := ⟨18, 0, 18⟩, stop := 19
                    role := some (.other "value"), children := value }] }] },
          { kind := .expressionStatement, start := ⟨20, 0, 20⟩, stop := 23, children := last }] }] }

/-- The call of a function where it stands. -/
def calling (callee : Node) : Node :=
  { kind := .callExpression, start := {}, stop := 27, children := [callee] }

/-- A program of one statement. -/
def consisting (expression : Node) : Program where
  index := .ofText "(function()\x7bvar a=1;b()\x7d)();"
  root :=
    { kind := .program, start := {}, stop := 28
      children := [
        { kind := .expressionStatement, start := {}, stop := 28, children := [expression] }] }

theorem edited_of_part {c c' : Node} (front back : List Node) (hn : n.children = front ++ c :: back)
    (hn' : n' = { n with children := front ++ c' :: back })
    (h : Edited (place.part n.kind c.role) c c') : Edited place n n' := by
  obtain ⟨kind, named, start, stop, missing, hasError, role, children⟩ := n
  obtain rfl : children = front ++ c :: back := hn
  exact hn' ▸ .inside _ front back h

theorem edited_consisting {e e' : Node} (h : Edited .expression e e') :
    Edited .program (consisting e).root (consisting e').root :=
  edited_of_part [] [] rfl rfl (edited_of_part [] [] rfl rfl h)

theorem edited_calling {f f' : Node} (hrole : f.role = some .callee) (h : Edited .callee f f') :
    Edited .expression (calling f) (calling f') :=
  edited_of_part [] [] rfl rfl (by simpa [Place.part, calling, hrole] using h)

theorem edited_declaring (value last : List Node) :
    Edited .callee (declaring [] []) (declaring value [])
      ∧ Edited .callee (declaring value []) (declaring value last) :=
  ⟨edited_of_part [] [] rfl rfl (edited_of_part [] [_] rfl rfl (edited_of_part [] [] rfl rfl
      (edited_of_part [_] [] rfl rfl (.refill (fun _ => rfl) ⟨rfl, rfl, rfl, rfl, rfl⟩)))),
    edited_of_part [] [] rfl rfl (edited_of_part [_] [] rfl rfl
      (.refill (fun _ => rfl) ⟨rfl, rfl, rfl, rfl, rfl⟩))⟩

/-- The call stands in two pairs of parentheses and the function in one, and what stands under the
value and under the last statement declares variables, the latter in an initializer of its own. -/
def nested : Program :=
  consisting (enclosed (enclosed (calling (enclosed
    (declaring [declaring [] []] [calling (declaring [] [])])))))

theorem definitions_eq_of_edited_nested :
    Relation.EqvGen (Edited .program) (consisting (calling (declaring [] []))).root nested.root
      ∧ (consisting (calling (declaring [] []))).definitions [] = [⟨"a", .binding, 16, 19⟩]
      ∧ nested.definitions [] = [⟨"a", .binding, 16, 19⟩] := by
  have hroots : Relation.EqvGen (Edited .program) (consisting (calling (declaring [] []))).root
      nested.root := by
    obtain ⟨hvalue, hlast⟩ := edited_declaring [declaring [] []] [calling (declaring [] [])]
    refine .trans _ _ _ (.rel _ _ (edited_consisting (edited_calling rfl hvalue))) ?_
    refine .trans _ _ _ (.rel _ _ (edited_consisting (edited_calling rfl hlast))) ?_
    refine .trans _ _ _ (.rel _ _ (edited_consisting (edited_calling rfl
      (edited_enclosed (.inr rfl) rfl)))) ?_
    refine .trans _ _ _ (.rel _ _ (edited_consisting (edited_enclosed (.inl rfl) rfl))) ?_
    exact .rel _ _ (edited_consisting (edited_enclosed (.inl rfl) rfl))
  have hfound : (consisting (calling (declaring [] []))).definitions []
      = [⟨"a", .binding, 16, 19⟩] := by
    decide +kernel
  have hindex : nested.index = (consisting (calling (declaring [] []))).index := rfl
  exact ⟨hroots, hfound, (definitions_eq_of_edited hindex hroots []).trans hfound⟩

end Program

end BundleSize
