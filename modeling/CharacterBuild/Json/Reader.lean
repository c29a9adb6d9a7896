import CharacterBuild.Directory
import CharacterBuild.Value.Basic

set_option autoImplicit false

/-! # Reading JSON

A document is one value, with blanks around it and around its parts. A number with a point or
an exponent has a fraction, any other is whole and has no more digits than are ever read; the
words for infinity and for what is not a number stand for themselves. A member that is named
twice keeps its first place and its last value. Each step of the reader takes the rest of the
text and returns what it left of it.
-/

namespace CharacterBuild

namespace Json

variable {ν : Type} [Number ν]

/-- The text without the blanks at its front. -/
def skipBlanks (cs : List Char) : List Char :=
  cs.dropWhile fun c => c = ' ' || c = '\t' || c = '\n' || c = '\r'

/-- The value of a digit in base sixteen. -/
def hexDigit? (c : Char) : Option Nat :=
  if c.isDigit then some (c.toNat - 48)
  else if 'a' ≤ c && c ≤ 'f' then some (c.toNat - 87)
  else if 'A' ≤ c && c ≤ 'F' then some (c.toNat - 55)
  else none

/-- The number of four digits in base sixteen. -/
def hexUnit? (a b c d : Char) : Option Nat :=
  match hexDigit? a, hexDigit? b, hexDigit? c, hexDigit? d with
  | some a, some b, some c, some d => some (((a * 16 + b) * 16 + c) * 16 + d)
  | _, _, _, _ => none

/-- The character that a one-letter escape stands for. -/
def escaped? : Char → Option Char
  | '"' => some '"'
  | '\\' => some '\\'
  | '/' => some '/'
  | 'b' => some '\x08'
  | 'f' => some '\x0c'
  | 'n' => some '\n'
  | 'r' => some '\r'
  | 't' => some '\t'
  | _ => none

/-- Why a document cannot be read. -/
inductive ReadFault where
  /-- The document is not well formed. -/
  | malformed
  /-- A whole number has too many digits. -/
  | numeralTooLong
  deriving DecidableEq, Repr

/-- What is read, or why it cannot be read. A step gives what it read and the rest of the text. -/
abbrev Reading : Type → Type := Except ReadFault

/-- What may be missing is asked for. -/
def orMalformed {α : Type} : Option α → Reading α
  | some a => .ok a
  | none => .error .malformed

/-- The code points of a text up to its closing quote, and the rest after the quote. Control
characters have to be escaped. Halves of surrogate pairs are left as they stand. -/
def readPoints : List Char → Reading (List CodePoint × List Char)
  | [] => .error .malformed
  | '"' :: rest => .ok ([], rest)
  | '\\' :: 'u' :: a :: b :: c :: d :: rest => do
    let unit ← orMalformed (hexUnit? a b c d)
    let (points, rest) ← readPoints rest
    .ok (.ofNat unit :: points, rest)
  | '\\' :: c :: rest => do
    let c ← orMalformed (escaped? c)
    let (points, rest) ← readPoints rest
    .ok (c :: points, rest)
  | c :: rest =>
    if c.toNat < 32 || c = '\\' then .error .malformed
    else do
      let (points, rest) ← readPoints rest
      .ok (c :: points, rest)

/-- The code point of a surrogate pair. -/
def pairOf (high low : CodePoint) : CodePoint :=
  .ofNat (0x10000 + (high.val - 0xd800) * 0x400 + (low.val - 0xdc00))

/-- The code points with every first half that a second half follows joined to a character. -/
def joinHalves : List CodePoint → List CodePoint
  | [] => []
  | [p] => [p]
  | high :: low :: rest =>
    if high.isHighHalf && low.isLowHalf then pairOf high low :: joinHalves rest
    else high :: joinHalves (low :: rest)

/-- A text after its opening quote. -/
def readText (cs : List Char) : Reading (Text × List Char) := do
  let (points, rest) ← readPoints cs
  .ok (⟨joinHalves points⟩, rest)

/-- The digits of the whole part of a number; a leading zero stands alone. -/
def splitWhole : List Char → List Nat × List Char
  | '0' :: rest => ([0], rest)
  | cs => Numeral.splitDigits cs

/-- The digits of a fraction with at least one of them, and what follows. -/
def splitFraction? : List Char → Option (List Nat × List Char)
  | '.' :: rest =>
    match Numeral.splitDigits rest with
    | ([], _) => none
    | split => some split
  | _ => none

/-- An exponent with at least one digit, and what follows. -/
def splitExponent? : List Char → Option (Int × List Char)
  | c :: rest =>
    if c = 'e' || c = 'E' then
      let (negative, body) := Numeral.splitSign rest
      match Numeral.splitDigits body with
      | ([], _) => none
      | (digits, rest) =>
        let e : Int := Numeral.ofDigits digits
        some (if negative then -e else e, rest)
    else none
  | [] => none

/-- A number whose sign has been read. -/
def readMagnitude (negative : Bool) (cs : List Char) : Reading (Value ν × List Char) :=
  match splitWhole cs with
  | ([], _) => .error .malformed
  | (whole, afterWhole) =>
    let fraction := splitFraction? afterWhole
    let afterFraction := (fraction.map Prod.snd).getD afterWhole
    let exponent := splitExponent? afterFraction
    let rest := (exponent.map Prod.snd).getD afterFraction
    if fraction.isNone && exponent.isNone then
      match Numeral.wholeOf? negative whole with
      | some n => .ok (.whole n, rest)
      | none => .error .numeralTooLong
    else
      let places := (fraction.map Prod.fst).getD []
      let e := (exponent.map Prod.fst).getD 0
      .ok (.real (Number.ofNumeral
        (.decimal negative (Numeral.ofDigits (whole ++ places)) (e - places.length))), rest)

/-- The rest of a text that starts with the characters of a word. -/
def afterWord? (word : String) (cs : List Char) : Option (List Char) :=
  if word.toList.isPrefixOf cs then some (cs.drop word.length) else none

/-- The values that have a word of their own. -/
def words : List (String × Value ν) :=
  [("null", .null), ("true", .bool true), ("false", .bool false),
   ("NaN", .real (Number.ofNumeral .nan)),
   ("Infinity", .real (Number.ofNumeral (.infinite false))),
   ("-Infinity", .real (Number.ofNumeral (.infinite true)))]

/-- A number or a word. -/
def readScalar (cs : List Char) : Reading (Value ν × List Char) :=
  match words.findSome? fun w => (afterWord? w.1 cs).map fun rest => (w.2, rest) with
  | some found => .ok found
  | none =>
    match cs with
    | '-' :: rest => readMagnitude true rest
    | _ => readMagnitude false cs

mutual

/-- A value at the front of a text; `fuel` bounds how many values are read. -/
def readValue : (fuel : Nat) → List Char → Reading (Value ν × List Char)
  | 0, _ => .error .malformed
  | fuel + 1, cs =>
    match cs with
    | '"' :: rest => do
      let (s, rest) ← readText rest
      .ok (.text s, rest)
    | '[' :: rest =>
      match skipBlanks rest with
      | ']' :: rest => .ok (.list [], rest)
      | rest => do
        let (items, rest) ← readItems fuel rest
        .ok (.list items, rest)
    | '\x7b' :: rest =>
      match skipBlanks rest with
      | '\x7d' :: rest => .ok (.object [], rest)
      | rest => do
        let (members, rest) ← readMembers fuel rest
        .ok (.object (Directory.ofList members).entries, rest)
    | cs => readScalar cs

/-- The items of a list up to its closing bracket. -/
def readItems : (fuel : Nat) → List Char → Reading (List (Value ν) × List Char)
  | 0, _ => .error .malformed
  | fuel + 1, cs => do
    let (item, rest) ← readValue fuel cs
    match skipBlanks rest with
    | ']' :: rest => .ok ([item], rest)
    | ',' :: rest => do
      let (items, rest) ← readItems fuel (skipBlanks rest)
      .ok (item :: items, rest)
    | _ => .error .malformed

/-- The members of an object up to its closing brace. -/
def readMembers : (fuel : Nat) → List Char → Reading (Members ν × List Char)
  | 0, _ => .error .malformed
  | fuel + 1, '"' :: rest => do
    let (name, rest) ← readText rest
    match skipBlanks rest with
    | ':' :: rest => do
      let (value, rest) ← readValue fuel (skipBlanks rest)
      match skipBlanks rest with
      | '\x7d' :: rest => .ok ([(name, value)], rest)
      | ',' :: rest => do
        let (members, rest) ← readMembers fuel (skipBlanks rest)
        .ok ((name, value) :: members, rest)
      | _ => .error .malformed
    | _ => .error .malformed
  | _, _ => .error .malformed

end

/-- The value that a document holds. Of several faults the first one in the document counts.
Every value takes at least one character, and so does every step from a value to its parts, so
twice the length is fuel enough. -/
def read (s : String) : Reading (Value ν) := do
  let (v, rest) ← readValue (2 * s.length + 1) (skipBlanks s.toList)
  if (skipBlanks rest).isEmpty then .ok v else .error .malformed

end Json

end CharacterBuild
