import CharacterBuild.Number.Basic

set_option autoImplicit false

/-! # Amounts

An amount is a whole number or a number with a fraction. Whole amounts are exact and stay
whole under addition and multiplication; as soon as a fraction takes part, the whole one is
turned into the nearest number with a fraction, which fails if it is too large. Comparison is
exact between both sorts.
-/

namespace CharacterBuild

/-- A whole number or a number with a fraction. -/
inductive Amount (ν : Type) where
  /-- A whole number of any size. -/
  | whole (n : Int)
  /-- A number with a fraction. -/
  | real (x : ν)
  deriving DecidableEq, Repr

namespace Amount

variable {ν : Type} [Number ν]

/-- The order of two amounts; none if one of them is not a number. -/
def compare : Amount ν → Amount ν → Option Ordering
  | whole a, whole b => some (Ord.compare a b)
  | whole a, real y => (Number.compareInt y a).map Ordering.swap
  | real x, whole b => Number.compareInt x b
  | real x, real y => Number.compare x y

instance : LT (Amount ν) := ⟨fun a b => a.compare b = some .lt⟩

instance : LE (Amount ν) := ⟨fun a b => a.compare b = some .lt ∨ a.compare b = some .eq⟩

instance (a b : Amount ν) : Decidable (a < b) :=
  inferInstanceAs (Decidable (a.compare b = some .lt))

instance (a b : Amount ν) : Decidable (a ≤ b) :=
  inferInstanceAs (Decidable (a.compare b = some .lt ∨ a.compare b = some .eq))

/-- Amounts are the same when they are equal as numbers, whatever their sort. -/
def same (a b : Amount ν) : Bool := a.compare b = some .eq

/-- Whether two amounts are one occurrence of what is not a number. -/
def coincides : Amount ν → Amount ν → Bool
  | real x, real y => Number.coincide x y
  | _, _ => false

/-- An amount counts as true unless it is zero. -/
def isTrue (a : Amount ν) : Bool := !a.same (whole 0)

/-- The amount as a number with a fraction; none if it is too large for one. -/
def toReal? : Amount ν → Option ν
  | whole n => Number.ofInt? n
  | real x => some x

/-- Two amounts joined by an operation, in whole numbers if both are whole. -/
def combine (onInt : Int → Int → Int) (onReal : ν → ν → ν) (a b : Amount ν) :
    Option (Amount ν) :=
  match a, b with
  | whole m, whole n => some (whole (onInt m n))
  | _, _ =>
    match a.toReal?, b.toReal? with
    | some x, some y => some (real (onReal x y))
    | _, _ => none

/-- The sum of two amounts; none if a whole one is too large to be joined to a fraction. -/
def add? (a b : Amount ν) : Option (Amount ν) := combine (· + ·) (· + ·) a b

/-- The product of two amounts, with the same exception. -/
def mul? (a b : Amount ν) : Option (Amount ν) := combine (· * ·) (· * ·) a b

/-- The text of an amount; a whole one has no point. -/
def text : Amount ν → String
  | whole n => toString n
  | real x => Number.text x

/-- The text of an amount with at most six significant digits. -/
def brief (a : Amount ν) : String :=
  match a.toReal? with
  | some x => Number.brief x
  | none => a.text

@[simp] theorem whole_lt_whole {m n : Int} : (whole m : Amount ν) < whole n ↔ m < n := by
  show (compare (whole m) (whole n) : Option Ordering) = some .lt ↔ m < n
  simp [compare, Int.compare_eq_lt]

@[simp] theorem whole_le_whole {m n : Int} : (whole m : Amount ν) ≤ whole n ↔ m ≤ n := by
  show ((compare (whole m) (whole n) : Option Ordering) = some .lt ∨
    (compare (whole m) (whole n) : Option Ordering) = some .eq) ↔ m ≤ n
  simp only [compare, Option.some.injEq, Int.compare_eq_lt, Int.compare_eq_eq]
  omega

@[simp] theorem whole_same_whole {m n : Int} :
    (whole m : Amount ν).same (whole n) = decide (m = n) := by
  simp [same, compare]

@[simp] theorem whole_add_whole (m n : Int) :
    add? (whole m : Amount ν) (whole n) = some (whole (m + n)) := rfl

@[simp] theorem whole_mul_whole (m n : Int) :
    mul? (whole m : Amount ν) (whole n) = some (whole (m * n)) := rfl

end Amount

end CharacterBuild
