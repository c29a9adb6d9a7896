import CharacterBuild.Number.Numeral

set_option autoImplicit false

/-! # Numbers of a catalog

Weights, costs and rewards are numbers with a fraction. What the library asks of them is
collected in one class, so that the same rules run on machine numbers and can be reasoned
about on exact ones. Comparing such a number with a whole number is exact. What is not a number
equals nothing; its occurrences are told apart, so that one of them can be found again among
others.
-/

namespace CharacterBuild

/-- What is left of a number when its fraction is cut off. -/
inductive Truncation where
  /-- The whole part. -/
  | whole (n : Int)
  /-- An infinity has no whole part. -/
  | infinite
  /-- What is not a number has no whole part. -/
  | nan
  deriving DecidableEq, Repr

/-- A kind of number with fractions. -/
class Number (ν : Type) extends Add ν, Sub ν, Mul ν, Neg ν where
  /-- The order of two numbers; none if one of them is not a number. -/
  compare : ν → ν → Option Ordering
  /-- Whether two numbers are one occurrence of what is not a number. -/
  coincide : ν → ν → Bool
  /-- The exact order of a number and a whole number. -/
  compareInt : ν → Int → Option Ordering
  /-- The number nearest to a whole number; none if it is too large. -/
  ofInt? : Int → Option ν
  /-- The number nearest to what a numeral says. -/
  ofNumeral : Numeral → ν
  /-- The number without its fraction. -/
  truncate : ν → Truncation
  /-- The shortest text that reads back as the number. -/
  text : ν → String
  /-- The text with at most six significant digits. -/
  brief : ν → String

end CharacterBuild
