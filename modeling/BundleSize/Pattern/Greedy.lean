/-!
# Greedy patterns

A greedy pattern is a sequence of parts. Each accepts single characters by a test, and
one that may take more or less of a text tries more first. When a later part finds
nothing that it accepts, the parts before it try less, the last one of them first.

A search goes through a text from its beginning. It takes the first place where all
parts find what they accept, one after the other, and of the ways in which
they do so the one that is tried first. Then it goes on behind that.
-/

namespace BundleSize

/-- A part of a greedy pattern. -/
inductive GreedyPart where
  /-- One character. -/
  | one (accepts : Char → Bool)
  /-- One character, or else nothing. -/
  | optional (accepts : Char → Bool)
  /-- Any number of characters. -/
  | many (accepts : Char → Bool)
  /-- Nothing, at the end of the text or before a line feed that ends it. -/
  | lineEnd

namespace Greedy

/-- What one accepted character and then a next part leave of a text. -/
def afterOne (accepts : Char → Bool) (next : List Char → List (List Char)) :
    List Char → List (List Char)
  | [] => []
  | c :: rest => if accepts c then next rest else []

/-- What any number of accepted characters and then a next part leave of a text. -/
def afterMany (accepts : Char → Bool) (next : List Char → List (List Char)) :
    List Char → List (List Char)
  | [] => next []
  | c :: rest => (if accepts c then afterMany accepts next rest else []) ++ next (c :: rest)

/-- What parts can leave of a text that they begin at, in the order in which it is tried. -/
def leftovers : List GreedyPart → List Char → List (List Char)
  | [], text => [text]
  | .one accepts :: parts, text => afterOne accepts (leftovers parts) text
  | .optional accepts :: parts, text =>
    afterOne accepts (leftovers parts) text ++ leftovers parts text
  | .many accepts :: parts, text => afterMany accepts (leftovers parts) text
  | .lineEnd :: parts, text => if text = [] ∨ text = ['\n'] then leftovers parts text else []

/-- The text without what a search for the parts finds. -/
def removeAll (parts : List GreedyPart) : List Char → List Char
  | [] => []
  | c :: rest =>
    match (leftovers parts (c :: rest)).head? with
    | none => c :: removeAll parts rest
    | some left =>
      if left.length ≤ rest.length then removeAll parts left else c :: removeAll parts rest
  termination_by text => text.length
  decreasing_by all_goals simp only [List.length_cons]; omega

end Greedy

end BundleSize
