import BundleSize.Proofs.Extraction
import BundleSize.Syntax.Comments

/-!
# Comments and definitions

What makes a definition is found by its kind or its role, and a comment has neither.
There are two places where nothing but the order counts: the expression of a
statement, and the contents of parentheses, are what comes first among the named
parts. A comment that stands there is taken for the call, or for the function that is
called, and then the whole statement makes no definition (`Node.blocked`). Everywhere
else comments make no difference: what a statement makes that is not blocked is what it
makes without its comments (`Program.definitionsIn_withoutComments`).

So comments never add to the definitions or change their order. They hide some
exactly if a blocked statement would otherwise make any
(`Program.definitions_eq_iff_not_conceals`).
-/

namespace BundleSize

theorem flatMap_filter_of_nil {f : α → List β} {q : α → Bool} {l : List α}
    (h : ∀ a ∈ l, q a = false → f a = []) : (l.filter q).flatMap f = l.flatMap f := by
  induction l with
  | nil => rfl
  | cons a l ih =>
      have hrest := ih fun b hb => h b (List.mem_cons_of_mem a hb)
      rw [List.filter_cons, List.flatMap_cons]
      cases hq : q a with
      | true => simp only [if_true, List.flatMap_cons, hrest]
      | false =>
          rw [h a (List.mem_cons_self ..) hq]
          simpa using hrest

/-- Lists that are made of parts of others are the same only if all parts are. -/
theorem flatMap_eq_iff_of_sublist {f g : α → List β} {l : List α}
    (h : ∀ a ∈ l, (f a).Sublist (g a)) : l.flatMap f = l.flatMap g ↔ ∀ a ∈ l, f a = g a := by
  refine ⟨fun heq => ?_, List.flatMap_congr⟩
  induction l with
  | nil => nofun
  | cons a l ih =>
      have hfirst := h a (List.mem_cons_self ..)
      have hparts : ∀ b ∈ l, (f b).Sublist (g b) := fun b hb => h b (List.mem_cons_of_mem a hb)
      have hrest := List.Sublist.flatMap_right l hparts
      have hlength := congrArg List.length heq
      simp only [List.flatMap_cons, List.length_append] at hlength
      have hle := hfirst.length_le
      have hle' := hrest.length_le
      intro b hb
      rcases List.mem_cons.mp hb with rfl | hb
      · exact hfirst.eq_of_length (by omega)
      · exact ih hparts (hrest.eq_of_length (by omega)) b hb

namespace Node

variable {n : Node}

theorem inParentheses_of_isComment (h : n.isComment = true) : n.inParentheses = some n := by
  obtain ⟨kind, named, start, stop, missing, hasError, role, children⟩ := n
  obtain rfl : kind = .comment := (isComment_iff.mp h).1
  rw [inParentheses]
  exact if_neg (by decide)

theorem firstNamedInParentheses_eq (cs : List Node) :
    firstNamedInParentheses cs = (cs.filter (·.named)).head?.bind inParentheses := by
  induction cs with
  | nil => rfl
  | cons c cs ih =>
      rw [firstNamedInParentheses, ih, List.filter_cons]
      split <;> rfl

/-- What is found first among some parts is found without the comments too, if it is none. -/
theorem firstNamedInParentheses_withoutCommentsIn {cs : List Node}
    (hparts : ∀ c ∈ cs, c.inParentheses.any isComment = false →
      c.withoutComments.inParentheses = c.inParentheses.map withoutComments)
    (h : (firstNamedInParentheses cs).any isComment = false) :
    firstNamedInParentheses (withoutCommentsIn cs)
      = (firstNamedInParentheses cs).map withoutComments := by
  induction cs with
  | nil => rfl
  | cons c cs ih =>
      rw [firstNamedInParentheses] at h ⊢
      rw [withoutCommentsIn]
      cases hc : c.isComment with
      | true =>
          rw [if_pos (isComment_iff.mp hc).2.1, inParentheses_of_isComment hc, Option.any_some,
            hc] at h
          cases h
      | false =>
          simp only [Bool.false_eq_true, if_false, firstNamedInParentheses, named_withoutComments]
          split at h
          · rename_i hnamed
            rw [if_pos hnamed, if_pos hnamed]
            exact hparts c (List.mem_cons_self ..) h
          · rename_i hnamed
            rw [if_neg hnamed, if_neg hnamed]
            exact ih (fun d hd => hparts d (List.mem_cons_of_mem c hd)) h

theorem inParentheses_withoutComments (h : n.inParentheses.any isComment = false) :
    n.withoutComments.inParentheses = n.inParentheses.map withoutComments := by
  induction n using inductionOn with
  | step n ih =>
      obtain ⟨kind, named, start, stop, missing, hasError, role, children⟩ := n
      rw [inParentheses] at h ⊢
      rw [withoutComments, inParentheses]
      split at h
      · rename_i hkind
        rw [if_pos hkind, if_pos hkind]
        exact firstNamedInParentheses_withoutCommentsIn ih h
      · rename_i hkind
        rw [if_neg hkind, if_neg hkind, Option.map_some, withoutComments]

/-- In the place of the call that a statement makes, or of the function that is called there, stands
a comment: it is the first named part of the statement, or of parentheses on the way. -/
def blocked (statement : Node) : Bool :=
  (firstNamedInParentheses statement.children).any fun call =>
    call.isComment || (call.child? .callee).any fun callee => callee.inParentheses.any isComment

end Node

open Node

/-! ## Bodies of functions that are called -/

/-- The body of the function that a node calls. -/
def calledBody? (call : Node) : Option Node :=
  if call.kind = .callExpression then do
    let callee ← (← call.child? .callee).inParentheses
    if isFunctionLiteral callee.kind then callee.child? .body else none
  else none

theorem initializerBody?_eq (statement : Node) : initializerBody? statement
    = if statement.kind = .expressionStatement then
        (firstNamedInParentheses statement.children).bind calledBody? else none := by
  rw [firstNamedInParentheses_eq, initializerBody?, namedChildren]
  cases (statement.children.filter (·.named)).head? <;> rfl

theorem calledBody?_of_isComment {call : Node} (h : call.isComment = true) :
    calledBody? call = none := by
  rw [calledBody?, (isComment_iff.mp h).1]
  exact if_neg (by decide)

theorem calledBody?_of_callee {call : Node}
    (h : ((call.child? .callee).any fun callee => callee.inParentheses.any isComment) = true) :
    calledBody? call = none := by
  rw [calledBody?]
  split
  · obtain ⟨inner, hinner, h⟩ := (Option.any_eq_true _ _).mp h
    obtain ⟨callee, hcallee, h⟩ := (Option.any_eq_true _ _).mp h
    have hkind : isFunctionLiteral callee.kind = false := by
      rw [(isComment_iff.mp h).1]
      decide
    simp only [hinner, hcallee, Option.bind_eq_bind, Option.bind_some, hkind, Bool.false_eq_true,
      if_false]
  · rfl

theorem calledBody?_withoutComments {call : Node}
    (h : ((call.child? .callee).any fun callee => callee.inParentheses.any isComment) = false) :
    calledBody? call.withoutComments = (calledBody? call).map withoutComments := by
  rw [calledBody?, calledBody?, kind_withoutComments, child?_withoutComments]
  split
  · cases hinner : call.child? .callee with
    | none => rfl
    | some inner =>
        rw [hinner, Option.any_some] at h
        simp only [Option.map_some, Option.bind_eq_bind, Option.bind_some,
          inParentheses_withoutComments h]
        cases inner.inParentheses with
        | none => rfl
        | some callee =>
            simp only [Option.map_some, Option.bind_some, kind_withoutComments,
              child?_withoutComments]
            split <;> rfl
  · rfl

/-- A statement that is blocked is no initializer. -/
theorem initializerBody?_of_blocked {statement : Node} (h : statement.blocked = true) :
    initializerBody? statement = none := by
  rw [initializerBody?_eq]
  split
  · obtain ⟨call, hcall, h⟩ := (Option.any_eq_true _ _).mp h
    rw [hcall, Option.bind_some]
    rcases Bool.or_eq_true_iff.mp h with hcomment | hcallee
    · exact calledBody?_of_isComment hcomment
    · exact calledBody?_of_callee hcallee
  · rfl

theorem initializerBody?_withoutComments {statement : Node} (h : statement.blocked = false) :
    initializerBody? statement.withoutComments
      = (initializerBody? statement).map withoutComments := by
  rw [initializerBody?_eq, initializerBody?_eq, kind_withoutComments, children_withoutComments]
  split
  · have hfirst : (firstNamedInParentheses statement.children).any isComment = false := by
      cases hcall : firstNamedInParentheses statement.children with
      | none => rfl
      | some call =>
          rw [blocked, hcall, Option.any_some] at h
          exact (Bool.or_eq_false_iff.mp h).1
    rw [firstNamedInParentheses_withoutCommentsIn (fun _ _ => inParentheses_withoutComments) hfirst]
    cases hcall : firstNamedInParentheses statement.children with
    | none => rfl
    | some call =>
        rw [blocked, hcall, Option.any_some] at h
        exact calledBody?_withoutComments (Bool.or_eq_false_iff.mp h).2
  · rfl

theorem bodyStatements_of_isComment {n : Node} (h : n.isComment = true) : bodyStatements n = [] := by
  rw [bodyStatements, initializerBody?, (isComment_iff.mp h).1]
  rfl

theorem bodyStatements_withoutComments {statement : Node} (h : statement.blocked = false) :
    bodyStatements statement.withoutComments
      = ((bodyStatements statement).filter fun n => !n.isComment).map withoutComments := by
  rw [bodyStatements, bodyStatements, initializerBody?_withoutComments h]
  cases initializerBody? statement with
  | none => rfl
  | some body => exact namedChildren_withoutComments body

/-! ## Definitions -/

namespace Program

variable {p p' : Program} {n : Node}

theorem definitionOf_withoutComments (hindex : p'.index = p.index) (kind : DefinitionKind)
    (name node : Node) :
    p'.definitionOf kind name.withoutComments node.withoutComments = p.definitionOf kind name node := by
  simp only [definitionOf, nodeText, range, slice, text, hindex, start_withoutComments,
    stop_withoutComments]

theorem functionDefinition?_withoutComments (hindex : p'.index = p.index) (n : Node) :
    p'.functionDefinition? n.withoutComments = p.functionDefinition? n := by
  rw [functionDefinition?, functionDefinition?, kind_withoutComments, child?_withoutComments]
  split
  · cases n.child? .name with
    | none => rfl
    | some name => exact congrArg some (definitionOf_withoutComments hindex _ _ _)
  · rfl

theorem declaratorDefinition?_withoutComments (hindex : p'.index = p.index) (n : Node) :
    p'.declaratorDefinition? n.withoutComments = p.declaratorDefinition? n := by
  rw [declaratorDefinition?, declaratorDefinition?, kind_withoutComments, child?_withoutComments]
  split
  · cases n.child? .name with
    | none => rfl
    | some name =>
        simp only [Option.map_some, kind_withoutComments,
          definitionOf_withoutComments hindex]
  · rfl

theorem declaratorDefinition?_of_isComment (p : Program) (h : n.isComment = true) :
    p.declaratorDefinition? n = none := by
  rw [declaratorDefinition?, (isComment_iff.mp h).1]
  rfl

theorem statementDefinitions_of_isComment (p : Program) (h : n.isComment = true) :
    p.statementDefinitions n = [] := by
  rw [statementDefinitions, functionDefinition?, (isComment_iff.mp h).1]
  rfl

/-- A statement makes the same definitions without the comments in it. -/
theorem statementDefinitions_withoutComments (hindex : p'.index = p.index) (n : Node) :
    p'.statementDefinitions n.withoutComments = p.statementDefinitions n := by
  rw [statementDefinitions, statementDefinitions, kind_withoutComments,
    functionDefinition?_withoutComments hindex]
  split
  · rw [namedChildren_withoutComments, List.filterMap_map, List.filterMap_filter]
    refine List.filterMap_congr fun c _ => ?_
    cases hc : c.isComment with
    | true => simp [declaratorDefinition?_of_isComment p hc]
    | false => simp [declaratorDefinition?_withoutComments hindex]
  · rfl

/-- The definitions with names that a filter keeps, of one statement of the program: if it is an
initializer, those in the body. -/
def definitionsIn (p : Program) (filter : NameFilter) (statement : Node) : List Definition :=
  ((bodyStatements statement).flatMap p.statementDefinitions).filter fun d => filter.keeps d.name

theorem definitions_eq_flatMap (p : Program) (filter : NameFilter) :
    p.definitions filter = p.root.namedChildren.flatMap (p.definitionsIn filter) := by
  rw [definitions, allDefinitions, initializerStatements_eq, List.flatMap_assoc,
    List.filter_flatMap]
  rfl

theorem definitionsIn_of_isComment (p : Program) (filter : NameFilter) (h : n.isComment = true) :
    p.definitionsIn filter n = [] := by
  rw [definitionsIn, bodyStatements_of_isComment h]
  rfl

theorem definitionsIn_of_blocked (p : Program) (filter : NameFilter) (h : n.blocked = true) :
    p.definitionsIn filter n = [] := by
  rw [definitionsIn, bodyStatements, initializerBody?_of_blocked h]
  rfl

/-- A statement that is not blocked makes the same definitions without the comments in it. -/
theorem definitionsIn_withoutComments (hindex : p'.index = p.index) (filter : NameFilter)
    (h : n.blocked = false) :
    p'.definitionsIn filter n.withoutComments = p.definitionsIn filter n := by
  rw [definitionsIn, definitionsIn, bodyStatements_withoutComments h, List.flatMap_map]
  simp only [statementDefinitions_withoutComments hindex]
  rw [flatMap_filter_of_nil fun m _ hm => statementDefinitions_of_isComment p (by simpa using hm)]

/-- The program with all comments taken out of its tree, of the same text. -/
def withoutComments (p : Program) : Program := { p with root := p.root.withoutComments }

theorem index_withoutComments (p : Program) : p.index = p.withoutComments.index := rfl

theorem withoutComments_commented (p : Program) :
    Relation.EqvGen Commented p.withoutComments.root p.root :=
  eqvGen_withoutComments p.root

theorem definitions_withoutComments (p : Program) (filter : NameFilter) :
    p.withoutComments.definitions filter
      = p.root.namedChildren.flatMap fun s => p.definitionsIn filter s.withoutComments := by
  have hcomment : ∀ s ∈ p.root.namedChildren, (!s.isComment) = false →
      p.definitionsIn filter s.withoutComments = [] := by
    intro s _ hs
    refine definitionsIn_of_isComment p filter ?_
    rw [isComment_withoutComments]
    simpa using hs
  rw [← flatMap_filter_of_nil hcomment, definitions_eq_flatMap, withoutComments,
    namedChildren_withoutComments, List.flatMap_map]
  rfl

/-- A comment keeps a statement of the program from making definitions: the statement is blocked,
and without the comments in it it makes some. -/
def Conceals (p : Program) (filter : NameFilter) : Prop :=
  ∃ s ∈ p.root.namedChildren,
    s.blocked = true ∧ p.definitionsIn filter s.withoutComments ≠ []

instance (p : Program) (filter : NameFilter) : Decidable (p.Conceals filter) :=
  inferInstanceAs (Decidable (∃ s ∈ p.root.namedChildren,
    s.blocked = true ∧ p.definitionsIn filter s.withoutComments ≠ []))

theorem definitionsIn_sublist (p : Program) (filter : NameFilter) (s : Node) :
    (p.definitionsIn filter s).Sublist (p.definitionsIn filter s.withoutComments) := by
  cases hs : s.blocked with
  | true =>
      rw [definitionsIn_of_blocked p filter hs]
      exact List.nil_sublist _
  | false =>
      rw [definitionsIn_withoutComments rfl filter hs]

theorem definitions_sublist (p : Program) (filter : NameFilter) :
    (p.definitions filter).Sublist (p.withoutComments.definitions filter) := by
  rw [definitions_withoutComments, definitions_eq_flatMap]
  exact .flatMap_right _ fun s _ => p.definitionsIn_sublist filter s

/-- A program has all the definitions that it has without its comments, if none is concealed. -/
theorem definitions_eq_withoutComments_iff (p : Program) (filter : NameFilter) :
    p.definitions filter = p.withoutComments.definitions filter ↔ ¬p.Conceals filter := by
  rw [definitions_withoutComments, definitions_eq_flatMap,
    flatMap_eq_iff_of_sublist fun s _ => p.definitionsIn_sublist filter s]
  simp only [Conceals, not_exists, not_and, ne_eq, not_not]
  refine forall₂_congr fun s _ => ?_
  cases hs : s.blocked with
  | true =>
      rw [definitionsIn_of_blocked p filter hs, eq_comm]
      simp
  | false =>
      rw [definitionsIn_withoutComments rfl filter hs]
      exact iff_of_true rfl nofun

/-- Without comments nothing is concealed. -/
theorem not_conceals_withoutComments (p : Program) (filter : NameFilter) :
    ¬p.withoutComments.Conceals filter := by
  have hroot := commented_iff.mp (eqvGen_withoutComments p.root)
  rw [← definitions_eq_withoutComments_iff]
  simp only [withoutComments, hroot]

/-- **Comments hide definitions only where they stand in the place of a call or of a called
function.** Let comments be put into the tree of a program and taken out of it, anywhere, and let
none conceal definitions at first. Then the definitions that a filter keeps are the same as
before, with their names, their kinds and their ranges and in their order, exactly if no comment
conceals any now. Otherwise some of them are missing and nothing else has changed. -/
theorem definitions_eq_iff_not_conceals {filter : NameFilter} (hindex : p'.index = p.index)
    (hroots : Relation.EqvGen Commented p.root p'.root) (hp : ¬p.Conceals filter) :
    (p'.definitions filter).Sublist (p.definitions filter)
      ∧ (p'.definitions filter = p.definitions filter ↔ ¬p'.Conceals filter) := by
  have hsame : p'.withoutComments = p.withoutComments := by
    rw [withoutComments, withoutComments, hindex, commented_iff.mp hroots]
  have hplain : p.definitions filter = p'.withoutComments.definitions filter := by
    rw [hsame]
    exact (p.definitions_eq_withoutComments_iff filter).mpr hp
  rw [hplain]
  exact ⟨p'.definitions_sublist filter, p'.definitions_eq_withoutComments_iff filter⟩

/-- The program of a text, with the tree that a parser makes of it. -/
def ofScript (text : String) : Program := { root := Script.tree text, index := .ofText text }

/-- An initializer with comments before, in and behind it, none of which is in the way. -/
def annotated : Program :=
  ofScript "/*1*/(function(/*2*/)\x7bvar a/*3*/=1/*4*/,b;//5\n\x7d/*6*/)(/*7*/);"

theorem definitions_eq_iff_not_conceals_annotated :
    Relation.EqvGen Commented annotated.withoutComments.root annotated.root
      ∧ ¬annotated.withoutComments.Conceals []
      ∧ annotated.definitions [] = [⟨"a", .binding, 26, 34⟩, ⟨"b", .binding, 40, 41⟩]
      ∧ annotated.withoutComments.definitions []
        = [⟨"a", .binding, 26, 34⟩, ⟨"b", .binding, 40, 41⟩] := by
  have hroots := annotated.withoutComments_commented
  have hplain := annotated.not_conceals_withoutComments []
  have hfound : ¬annotated.Conceals []
      ∧ annotated.definitions [] = [⟨"a", .binding, 26, 34⟩, ⟨"b", .binding, 40, 41⟩] := by
    decide +kernel
  have hsame := (definitions_eq_iff_not_conceals annotated.index_withoutComments hroots
    hplain).2.mpr hfound.1
  exact ⟨hroots, hplain, hfound.2, hsame.symm.trans hfound.2⟩

/-- A comment is what comes first in the parentheses around a call. -/
def obstructed : Program := ofScript "(/*c*/function()\x7bvar a=1;\x7d());"

theorem not_definitions_eq_of_commented :
    ¬ ∀ (p p' : Program) (filter : NameFilter), p'.index = p.index →
      Relation.EqvGen Commented p.root p'.root → p'.definitions filter = p.definitions filter := by
  intro h
  have hsame := h obstructed.withoutComments obstructed [] obstructed.index_withoutComments
    obstructed.withoutComments_commented
  have hnone : obstructed.definitions [] = [] := by decide +kernel
  have hfound : obstructed.withoutComments.definitions [] = [⟨"a", .binding, 21, 24⟩] := by
    decide +kernel
  rw [hnone, hfound] at hsame
  cases hsame

end Program

end BundleSize
