import CharacterBuild.Text.Blank
import CharacterBuild.Text.DecimalDigit

set_option autoImplicit false

/-! # Numerals

How a number is read from a text. Blanks may surround the numeral, a sign may lead it, and a
single underscore may stand between two digits. A whole numeral is a run of digits of any
script, not more of them than are ever read; a decimal numeral may also have a point, an exponent
of ten, or one of the words for infinity and for what is not a number.
-/

namespace CharacterBuild

/-- What a decimal numeral says, before it is rounded to any kind of number. -/
inductive Numeral where
  /-- Not a number. -/
  | nan
  /-- An infinity, and whether it is the negative one. -/
  | infinite (negative : Bool)
  /-- The number `± digits * 10 ^ exponent`. -/
  | decimal (negative : Bool) (digits : Nat) (exponent : Int)
  deriving DecidableEq, Repr

namespace Numeral

open Text

/-- The value of a run of digits, the most significant one first. -/
def ofDigits (digits : List Nat) : Nat := digits.foldl (fun n d => 10 * n + d) 0

/-- The characters of a numeral: its margins taken off, every digit turned into the ASCII
digit of its value. -/
def plain (s : Text) : List Char :=
  (strip isMargin s.points).map fun c =>
    match digitValue? c with
    | some d => Nat.digitChar d
    | none => c.char

/-- The most digits that a whole numeral is read or written with, leading zeros included. -/
def mostDigits : Nat := 4300

/-- The whole number of a run of digits, unless there are too many of them. -/
def wholeOf? (negative : Bool) (digits : List Nat) : Option Int :=
  if mostDigits < digits.length then none
  else if negative then some (-(ofDigits digits : Int))
  else some (ofDigits digits : Int)

/-- The sign that leads a numeral, and what follows it. -/
def splitSign : List Char → Bool × List Char
  | '-' :: rest => (true, rest)
  | '+' :: rest => (false, rest)
  | cs => (false, cs)

/-- The characters without their underscores, if each of these stands between two digits.
`afterDigit` says whether a digit was read just before. -/
def dropUnderscores : (afterDigit : Bool) → List Char → Option (List Char)
  | _, [] => some []
  | afterDigit, '_' :: rest =>
    match rest with
    | d :: _ => if afterDigit && d.isDigit then dropUnderscores false rest else none
    | [] => none
  | _, c :: rest => (dropUnderscores c.isDigit rest).map (c :: ·)

/-- The leading run of digits and what follows it. -/
def splitDigits : List Char → List Nat × List Char
  | [] => ([], [])
  | c :: rest =>
    match asciiDigit? c with
    | some d => ((d :: (splitDigits rest).1), (splitDigits rest).2)
    | none => ([], c :: rest)

/-- The whole number that a text spells, if it spells one. -/
def readWhole? (s : Text) : Option Int :=
  let (negative, body) := splitSign (plain s)
  match dropUnderscores false body with
  | none => none
  | some cs =>
    match splitDigits cs with
    | ([], _) => none
    | (digits, []) => wholeOf? negative digits
    | (_, _ :: _) => none

/-- The exponent that a numeral ends in; the empty text stands for zero. -/
def readExponent? : List Char → Option Int
  | [] => some 0
  | c :: rest =>
    if c = 'e' || c = 'E' then
      let (negative, body) := splitSign rest
      match splitDigits body with
      | ([], _) => none
      | (digits, []) =>
        if negative then some (-(ofDigits digits : Int)) else some (ofDigits digits : Int)
      | (_, _ :: _) => none
    else none

/-- The digits after the point, if there is a point, and what follows them. -/
def splitFraction : List Char → List Nat × List Char
  | '.' :: rest => splitDigits rest
  | cs => ([], cs)

/-- An unsigned decimal numeral: digits, a point among or around them, an exponent. -/
def readMagnitude? (negative : Bool) (cs : List Char) : Option Numeral :=
  let (whole, afterWhole) := splitDigits cs
  let (fraction, afterFraction) := splitFraction afterWhole
  if whole.isEmpty && fraction.isEmpty then none
  else
    (readExponent? afterFraction).map fun e =>
      decimal negative (ofDigits (whole ++ fraction)) (e - fraction.length)

/-- The words for infinity. -/
def infinityWords : List String := ["inf", "infinity"]

/-- The decimal numeral that a text spells, if it spells one. -/
def read? (s : Text) : Option Numeral :=
  match dropUnderscores false (plain s) with
  | none => none
  | some cs =>
    let (negative, body) := splitSign cs
    let word := String.ofList (body.map Char.toLower)
    if infinityWords.contains word then some (infinite negative)
    else if word = "nan" then some nan
    else readMagnitude? negative body

end Numeral

end CharacterBuild
