import BundleSize.Text.Character
import BundleSize.Text.Word

/-!
# Name patterns

A pattern is a regular expression that is searched for anywhere in a name.
Since only the existence of a match is asked for, a pattern is read as the
relation between the places where a match may begin and those where it may
end. A set of places is carried through the pattern, so that no choice is
ever taken back, and greedy and reluctant repetition are the same.

A repetition gains nothing after as many rounds as the name has places: a
longer way round must return to a place it has been to.
-/

namespace BundleSize

/-- A class of characters with a name of its own. -/
inductive CharClass where
  | decimal | blank | word
  deriving Repr, DecidableEq

def CharClass.has : CharClass → Char → Bool
  | decimal, c => Text.isDecimal c
  | blank, c => Text.isBlank c
  | word, c => Text.isWord c

/-- One member of a bracketed set. -/
inductive SetItem where
  | range (first last : Nat)
  | charClass (which : CharClass) (negated : Bool)
  deriving Repr, DecidableEq

def SetItem.has : SetItem → Char → Bool
  | range first last, c => first ≤ c.toNat && c.toNat ≤ last
  | charClass which negated, c => which.has c != negated

/-- A condition on a place between characters. -/
inductive Assertion where
  /-- The start of the name. -/
  | start
  /-- The end of the name. -/
  | stop
  /-- The end of the name, or the place before a line feed that ends it. -/
  | lineEnd
  /-- The place between a word character and something else. -/
  | wordBoundary
  /-- Any other place of a name that is not empty. -/
  | notWordBoundary
  deriving Repr, DecidableEq

/-- A regular expression. -/
inductive Pattern where
  | empty
  /-- Any character but a line feed. -/
  | any
  | set (items : List SetItem) (negated : Bool)
  | assertion (a : Assertion)
  | seq (p q : Pattern)
  | alt (p q : Pattern)
  /-- At least `least` times and, if there is a bound, at most `most` times. -/
  | repeat (p : Pattern) (least : Nat) (most : Option Nat)
  deriving Repr, DecidableEq

namespace Pattern

/-- One character. -/
def char (code : Nat) : Pattern := .set [.range code code] false

/-- The character belongs to the set. -/
def setHas (items : List SetItem) (negated : Bool) (c : Char) : Bool :=
  (items.any fun item => item.has c) != negated

/-- The name's character at a place is a word character. -/
def wordAt (name : Array Char) (i : Nat) : Bool := (name[i]?).any Text.isWord

/-- The place lies between a word character and something else. -/
def boundaryAt (name : Array Char) (i : Nat) : Bool :=
  (i != 0 && wordAt name (i - 1)) != wordAt name i

/-- The condition holds at the place. -/
def assertionHolds (name : Array Char) (i : Nat) : Assertion → Bool
  | .start => i == 0
  | .stop => i == name.size
  | .lineEnd => i == name.size || (i + 1 == name.size && name[i]? == some '\n')
  | .wordBoundary => name.size != 0 && boundaryAt name i
  | .notWordBoundary => name.size != 0 && !boundaryAt name i

/-- The places of two sets, each once. -/
def union (xs ys : List Nat) : List Nat := xs ++ ys.filter fun y => !xs.contains y

/-- The places after one character that the test accepts. -/
def advance (name : Array Char) (accepts : Char → Bool) (places : List Nat) : List Nat :=
  (places.filter fun i => (name[i]?).any accepts).map (· + 1)

/-- `n` rounds of a step. -/
def rounds (step : List Nat → List Nat) : Nat → List Nat → List Nat
  | 0, places => places
  | n + 1, places => if places.isEmpty then [] else rounds step n (step places)

/-- Up to `n` rounds of a step, as long as a round reaches places that none before it did. -/
def upTo (step : List Nat → List Nat) : Nat → (reached latest : List Nat) → List Nat
  | 0, reached, _ => reached
  | n + 1, reached, latest =>
    let fresh := (step latest).filter fun i => !reached.contains i
    if fresh.isEmpty then reached else upTo step n (reached ++ fresh) fresh

/-- The places where a match that begins at one of the given places may end. -/
def ends (name : Array Char) : Pattern → List Nat → List Nat
  | .empty, places => places
  | .any, places => advance name (· != '\n') places
  | .set items negated, places => advance name (setHas items negated) places
  | .assertion a, places => places.filter fun i => assertionHolds name i a
  | .seq p q, places => ends name q (ends name p places)
  | .alt p q, places => union (ends name p places) (ends name q places)
  | .repeat p least most, places =>
    let limit := name.size + 1
    let begun := rounds (ends name p) (min least limit) places
    let more := (most.map fun m => min (m - least) limit).getD limit
    upTo (ends name p) more begun begun

/-- Some part of the name matches the pattern. -/
def occursIn (p : Pattern) (name : String) : Bool :=
  let chars := name.toList.toArray
  !(ends chars p (List.range (chars.size + 1))).isEmpty

end Pattern

end BundleSize
