import BundleSize.Numeric.Binary64
import BundleSize.Text.Quoted

/-!
# JSON values

A number written without point and exponent is a whole number of any size;
any other number is kept as the decimal that was written. An object keeps
its members in the order in which their names first appear, each name once.
-/

namespace BundleSize

/-- A JSON value. -/
inductive Json where
  | null
  | bool (b : Bool)
  | int (n : Int)
  /-- The number `digits * 10 ^ exponent`. -/
  | decimal (digits exponent : Int)
  /-- Not a number, or one of the two infinities, by its written form. -/
  | nonFinite (text : String)
  | string (s : String)
  | array (items : List Json)
  | object (members : List (String × Json))
  deriving Repr, Inhabited

namespace Json

mutual

/-- Equality of values. The members of an object count in their order. -/
def beq : Json → Json → Bool
  | null, null => true
  | bool a, bool b => a == b
  | int m, int n => m == n
  | decimal digits exponent, decimal digits' exponent' => digits == digits' && exponent == exponent'
  | nonFinite a, nonFinite b => a == b
  | string a, string b => a == b
  | array items, array items' => beqItems items items'
  | object members, object members' => beqMembers members members'
  | _, _ => false

def beqItems : List Json → List Json → Bool
  | [], [] => true
  | a :: items, b :: items' => beq a b && beqItems items items'
  | _, _ => false

def beqMembers : List (String × Json) → List (String × Json) → Bool
  | [], [] => true
  | (name, a) :: members, (name', b) :: members' =>
    name == name' && beq a b && beqMembers members members'
  | _, _ => false

end

instance : BEq Json := ⟨beq⟩

mutual

theorem eq_of_beq : ∀ {a b : Json}, beq a b = true → a = b
  | null, b, h => by cases b <;> simp_all [beq]
  | bool _, b, h => by cases b <;> simp_all [beq]
  | int _, b, h => by cases b <;> simp_all [beq]
  | decimal _ _, b, h => by cases b <;> simp_all [beq]
  | nonFinite _, b, h => by cases b <;> simp_all [beq]
  | string _, b, h => by cases b <;> simp_all [beq]
  | array _, b, h => by
    cases b with
    | array _ => exact congrArg array (eq_of_beqItems (by simpa [beq] using h))
    | _ => simp [beq] at h
  | object _, b, h => by
    cases b with
    | object _ => exact congrArg object (eq_of_beqMembers (by simpa [beq] using h))
    | _ => simp [beq] at h

theorem eq_of_beqItems : ∀ {xs ys : List Json}, beqItems xs ys = true → xs = ys
  | [], [], _ => rfl
  | [], _ :: _, h => by simp [beqItems] at h
  | _ :: _, [], h => by simp [beqItems] at h
  | _ :: _, _ :: _, h => by
    rw [beqItems, Bool.and_eq_true] at h
    rw [eq_of_beq h.1, eq_of_beqItems h.2]

theorem eq_of_beqMembers : ∀ {ms ns : List (String × Json)}, beqMembers ms ns = true → ms = ns
  | [], [], _ => rfl
  | [], _ :: _, h => by simp [beqMembers] at h
  | _ :: _, [], h => by simp [beqMembers] at h
  | (_, _) :: _, (_, _) :: _, h => by
    rw [beqMembers, Bool.and_eq_true, Bool.and_eq_true, beq_iff_eq] at h
    rw [h.1.1, eq_of_beq h.1.2, eq_of_beqMembers h.2]

end

mutual

theorem beq_refl : ∀ a : Json, beq a a = true
  | null => by rw [beq]
  | bool _ => by
    rw [beq]
    exact BEq.rfl
  | int _ => by
    rw [beq]
    exact BEq.rfl
  | decimal _ _ => by simp [beq]
  | nonFinite _ => by
    rw [beq]
    exact BEq.rfl
  | string _ => by
    rw [beq]
    exact BEq.rfl
  | array items => by
    rw [beq]
    exact beqItems_refl items
  | object members => by
    rw [beq]
    exact beqMembers_refl members

theorem beqItems_refl : ∀ items : List Json, beqItems items items = true
  | [] => rfl
  | a :: items => by
    rw [beqItems, beq_refl a, beqItems_refl items]
    rfl

theorem beqMembers_refl : ∀ members : List (String × Json), beqMembers members members = true
  | [] => rfl
  | (name, a) :: members => by
    rw [beqMembers, beq_refl a, beqMembers_refl members, beq_self_eq_true]
    rfl

end

instance : LawfulBEq Json where
  eq_of_beq := eq_of_beq
  rfl := beq_refl _

/-- A member's value by its name. -/
def member? (name : String) : List (String × Json) → Option Json
  | [] => none
  | (n, v) :: rest => if n = name then some v else member? name rest

/-- The members with one more: a name that is there already keeps its place and takes the new
value. -/
def setMember (name : String) (value : Json) : List (String × Json) → List (String × Json)
  | [] => [(name, value)]
  | (n, v) :: rest => if n = name then (n, value) :: rest else (n, v) :: setMember name value rest

theorem member?_setMember (name : String) (value : Json) (ms : List (String × Json)) :
    member? name (setMember name value ms) = some value := by
  induction ms with
  | nil => simp [setMember, member?]
  | cons m ms ih =>
    obtain ⟨n, v⟩ := m
    by_cases h : n = name <;> simp [setMember, member?, h, ih]

/-- The value that stands for "nothing here": absent, null, false, zero or empty. -/
def isEmpty : Json → Bool
  | null => true
  | bool b => !b
  | int n => n == 0
  | decimal digits _ => digits == 0
  | nonFinite _ => false
  | string s => s.isEmpty
  | array items => items.isEmpty
  | object members => members.isEmpty

/-- The magnitude `digits * 10 ^ exponent`, unless its size is beyond double precision on either
side. -/
def magnitude? (digits : Nat) (exponent : Int) : Option Rat :=
  let size := (Nat.toDigits 10 digits).length + exponent
  if digits = 0 then some 0
  else if 400 < size ∨ size < -400 then none
  else if 0 ≤ exponent then some (mkRat (digits * Nat.pow 10 exponent.toNat) 1)
  else some (mkRat digits (Nat.pow 10 (-exponent).toNat))

/-- The double that a number stands for which is not written as a whole number. -/
def double? : Json → Option Double
  | decimal digits exponent =>
    match magnitude? digits.natAbs exponent with
    | some x => some (Double.ofRat (Double.signed (digits < 0) x))
    | none =>
      if 0 < (Nat.toDigits 10 digits.natAbs).length + exponent then some (.infinite (digits < 0))
      else some (.finite 0)
  | nonFinite text => some (if text = "NaN" then .notANumber else .infinite (text = "-Infinity"))
  | _ => none

/-- The value is the number `n`, in double precision when it was written as a decimal. -/
def isNumber (n : Nat) : Json → Bool
  | bool b => b.toNat == n
  | int m => m == n
  | decimal digits exponent =>
    (digits ≥ 0 || n == 0) && (magnitude? digits.natAbs exponent).any fun x =>
      Binary64.nearest x == (n : Rat)
  | _ => false

end Json

end BundleSize
