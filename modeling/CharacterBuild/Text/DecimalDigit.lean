import CharacterBuild.Text.Basic

set_option autoImplicit false

/-! # Decimal digits

Every script writes its ten decimal digits at ten consecutive code points, from zero to
nine. A numeral may mix the digits of any scripts.
-/

namespace CharacterBuild.Text

/-- The code points of the zeros, one per run of ten digits, in ascending order. -/
def zeroDigits : List Nat :=
  [48, 1632, 1776, 1984, 2406, 2534, 2662, 2790, 2918, 3046, 3174, 3302, 3430, 3558, 3664, 3792,
   3872, 4160, 4240, 6112, 6160, 6470, 6608, 6784, 6800, 6992, 7088, 7232, 7248, 42528, 43216,
   43264, 43472, 43504, 43600, 44016, 65296, 66720, 68912, 69734, 69872, 69942, 70096, 70384,
   70736, 70864, 71248, 71360, 71472, 71904, 72016, 72784, 73040, 73120, 92768, 92864, 93008,
   120782, 120792, 120802, 120812, 120822, 123200, 123632, 125264, 130032]

/-- The value of a decimal digit of any script. -/
def digitValue? (c : CodePoint) : Option Nat :=
  match zeroDigits.find? fun z => z ≤ c.val && c.val < z + 10 with
  | some z => some (c.val - z)
  | none => none

/-- The value of one of the digits `0` to `9`. -/
def asciiDigit? (c : Char) : Option Nat :=
  if c.isDigit then some (c.toNat - 48) else none

end CharacterBuild.Text
