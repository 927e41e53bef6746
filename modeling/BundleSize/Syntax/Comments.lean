import BundleSize.Syntax.Layout
import Mathlib.Logic.Relation

/-!
# Comments in a tree

Comments stand between any two parts of a node, in no role of it. A tree with
some comments more or fewer is a tree of the same program, so trees are
compared here by what comments may be put into them or taken out
(`Node.Commented`), and brought to a common form in which there are none
(`Node.withoutComments`). Two trees come from each other by putting comments in
and taking them out exactly if that form is the same (`Node.commented_iff`).
-/

namespace BundleSize

namespace Node

/-- A comment has no role. -/
def isComment (n : Node) : Bool := n.kind = .comment && n.named && n.role = none

theorem isComment_iff {n : Node} :
    n.isComment = true ↔ n.kind = .comment ∧ n.named = true ∧ n.role = none := by
  simp [isComment, and_assoc]

mutual

/-- The node with all comments below it taken out. -/
def withoutComments : Node → Node
  | ⟨kind, named, start, stop, missing, hasError, role, children⟩ =>
    ⟨kind, named, start, stop, missing, hasError, role, withoutCommentsIn children⟩

def withoutCommentsIn : List Node → List Node
  | [] => []
  | c :: cs =>
    if c.isComment then withoutCommentsIn cs else withoutComments c :: withoutCommentsIn cs

end

/-- The second node is the first one with a comment put in somewhere below it. -/
inductive Commented : Node → Node → Prop
  | here (n : Node) (front back : List Node) (comment : Node) : comment.isComment = true →
      Commented { n with children := front ++ back } { n with children := front ++ comment :: back }
  | inside (n : Node) (front back : List Node) {c c' : Node} : Commented c c' →
      Commented { n with children := front ++ c :: back } { n with children := front ++ c' :: back }

/-! ## The form without comments -/

variable {n c : Node}

theorem withoutCommentsIn_eq (cs : List Node) :
    withoutCommentsIn cs = (cs.filter fun c => !c.isComment).map withoutComments := by
  induction cs with
  | nil => rfl
  | cons c cs ih =>
      rw [withoutCommentsIn, ih]
      cases hc : c.isComment <;> simp [hc]

theorem withoutCommentsIn_append (cs ds : List Node) :
    withoutCommentsIn (cs ++ ds) = withoutCommentsIn cs ++ withoutCommentsIn ds := by
  simp only [withoutCommentsIn_eq, List.filter_append, List.map_append]

theorem withoutComments_eq (n : Node) :
    n.withoutComments = { n with children := withoutCommentsIn n.children } := by
  obtain ⟨kind, named, start, stop, missing, hasError, role, children⟩ := n
  rw [withoutComments]

@[simp] theorem kind_withoutComments (n : Node) : n.withoutComments.kind = n.kind := by
  rw [withoutComments_eq]

@[simp] theorem named_withoutComments (n : Node) : n.withoutComments.named = n.named := by
  rw [withoutComments_eq]

@[simp] theorem role_withoutComments (n : Node) : n.withoutComments.role = n.role := by
  rw [withoutComments_eq]

@[simp] theorem start_withoutComments (n : Node) : n.withoutComments.start = n.start := by
  rw [withoutComments_eq]

@[simp] theorem stop_withoutComments (n : Node) : n.withoutComments.stop = n.stop := by
  rw [withoutComments_eq]

@[simp] theorem children_withoutComments (n : Node) :
    n.withoutComments.children = withoutCommentsIn n.children := by
  rw [withoutComments_eq]

@[simp] theorem isComment_withoutComments (n : Node) :
    n.withoutComments.isComment = n.isComment := by
  simp only [isComment, kind_withoutComments, named_withoutComments, role_withoutComments]

/-- What is looked up by its role is no comment. -/
theorem child?_withoutComments (n : Node) (role : Role) :
    n.withoutComments.child? role = (n.child? role).map withoutComments := by
  rw [child?, children_withoutComments, withoutCommentsIn_eq, List.find?_map, List.find?_filter,
    child?]
  congr 2
  funext c
  rw [Function.comp_apply, role_withoutComments, Bool.eq_iff_iff]
  cases hc : c.isComment with
  | false => simp
  | true => simp [(isComment_iff.mp hc).2.2]

theorem namedChildren_withoutComments (n : Node) : n.withoutComments.namedChildren
    = (n.namedChildren.filter fun c => !c.isComment).map withoutComments := by
  rw [namedChildren, children_withoutComments, withoutCommentsIn_eq, List.filter_map,
    List.filter_filter, namedChildren, List.filter_filter]
  congr 2
  funext c
  rw [Function.comp_apply, named_withoutComments, Bool.and_comm]

/-! ## Putting comments in and taking them out -/

theorem withoutComments_of_commented {n' : Node} (h : Commented n n') :
    n.withoutComments = n'.withoutComments := by
  induction h with
  | here n front back comment hcomment =>
      simp only [withoutComments, withoutCommentsIn_append, withoutCommentsIn, hcomment, if_true]
  | inside n front back h ih =>
      rename_i c c'
      have hsame : c.isComment = c'.isComment := by
        rw [← isComment_withoutComments, ih, isComment_withoutComments]
      simp only [withoutComments, withoutCommentsIn_append, withoutCommentsIn, hsame, ih]

/-- What is done below a part of a node is done below the node. -/
theorem eqvGen_below (n : Node) (front back : List Node) {c c' : Node}
    (h : Relation.EqvGen Commented c c') :
    Relation.EqvGen Commented { n with children := front ++ c :: back }
      { n with children := front ++ c' :: back } := by
  induction h with
  | rel c c' h => exact .rel _ _ (.inside n front back h)
  | refl c => exact .refl _
  | symm c c' _ ih => exact .symm _ _ ih
  | trans c c' c'' _ _ ih ih' => exact .trans _ _ _ ih ih'

theorem eqvGen_children (n : Node) (front : List Node) {cs : List Node}
    (h : ∀ c ∈ cs, Relation.EqvGen Commented c.withoutComments c) :
    Relation.EqvGen Commented { n with children := front ++ withoutCommentsIn cs }
      { n with children := front ++ cs } := by
  induction cs generalizing front with
  | nil => exact .refl _
  | cons c cs ih =>
      have hrest := fun d hd => h d (List.mem_cons_of_mem c hd)
      rw [withoutCommentsIn]
      cases hc : c.isComment with
      | true => exact .trans _ _ _ (ih front hrest) (.rel _ _ (.here n front cs c hc))
      | false =>
          have hlater := ih (front ++ [c]) hrest
          rw [List.append_assoc, List.append_assoc] at hlater
          exact .trans _ _ _ (eqvGen_below n front _ (h c (List.mem_cons_self ..))) hlater

theorem eqvGen_withoutComments (n : Node) : Relation.EqvGen Commented n.withoutComments n := by
  induction n using inductionOn with
  | step n ih =>
      obtain ⟨kind, named, start, stop, missing, hasError, role, children⟩ := n
      rw [withoutComments_eq]
      exact eqvGen_children ⟨kind, named, start, stop, missing, hasError, role, children⟩ [] ih

/-- Trees come from each other by putting comments in and taking them out exactly if they are the
same without comments. -/
theorem commented_iff {n n' : Node} :
    Relation.EqvGen Commented n n' ↔ n.withoutComments = n'.withoutComments := by
  constructor
  · intro h
    induction h with
    | rel n n' h => exact withoutComments_of_commented h
    | refl n => rfl
    | symm n n' _ ih => exact ih.symm
    | trans n n' n'' _ _ ih ih' => exact ih.trans ih'
  · intro h
    have hback := eqvGen_withoutComments n'
    rw [← h] at hback
    exact .trans _ _ _ (.symm _ _ (eqvGen_withoutComments n)) hback

end Node

end BundleSize
