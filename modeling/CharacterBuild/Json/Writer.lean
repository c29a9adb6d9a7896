import CharacterBuild.Text.Quoted
import CharacterBuild.Value.Basic

set_option autoImplicit false

/-! # Writing JSON

A value is written either without any blanks between its parts, or with each part on a line of
its own, two blanks deeper than the whole. Texts are kept to ASCII: other code points are written
as one or two escaped units of sixteen bits.
-/

namespace CharacterBuild

namespace Json

variable {ν : Type} [Number ν]

/-- How the parts of a value are laid out. -/
inductive Layout where
  /-- On one line, without blanks. -/
  | compact
  /-- Each part on a line of its own. -/
  | indented
  deriving DecidableEq, Repr

/-- An escaped unit of sixteen bits. -/
def unitEscape (n : Nat) : List Char := '\\' :: 'u' :: Text.hexPlaces 4 n

/-- A code point as it stands in a text. -/
def escape (c : CodePoint) : List Char :=
  if c = '"' then ['\\', '"']
  else if c = '\\' then ['\\', '\\']
  else if c = '\n' then ['\\', 'n']
  else if c = '\r' then ['\\', 'r']
  else if c = '\t' then ['\\', 't']
  else if c = '\x08' then ['\\', 'b']
  else if c = '\x0c' then ['\\', 'f']
  else if 32 ≤ c.val && c.val ≤ 126 then [c.char]
  else if c.val < 0x10000 then unitEscape c.val
  else
    let n := c.val - 0x10000
    unitEscape (0xd800 + n / 0x400) ++ unitEscape (0xdc00 + n % 0x400)

/-- A text in quotes. -/
def writeText (s : Text) : String :=
  String.ofList ('"' :: s.points.flatMap escape ++ ['"'])

/-- An amount; what is not a finite number is written as a word. -/
def writeAmount : Amount ν → String
  | .whole n => toString n
  | .real x =>
    match Number.truncate x with
    | .whole _ => Number.text x
    | .nan => "NaN"
    | .infinite => if Number.compareInt x 0 = some .lt then "-Infinity" else "Infinity"

/-- An atom. -/
def writeAtom : Atom ν → String
  | .null => "null"
  | .bool true => "true"
  | .bool false => "false"
  | .number a => writeAmount a
  | .text s => writeText s

/-- The name of a member whose key is an atom. -/
def nameOfKey : Atom ν → Text
  | .text s => s
  | a => writeAtom a

/-- The start of a line at a depth. -/
def newLine (depth : Nat) : String :=
  String.ofList ('\n' :: List.replicate (2 * depth) ' ')

/-- Parts between an opening and a closing mark; `depth` is that of the whole. -/
def enclose (layout : Layout) (depth : Nat) (before after : String) (parts : List String) :
    String :=
  if parts.isEmpty then before ++ after
  else
    match layout with
    | .compact => before ++ ",".intercalate parts ++ after
    | .indented =>
      before ++ newLine (depth + 1) ++ ("," ++ newLine (depth + 1)).intercalate parts ++
        newLine depth ++ after

/-- What stands between the name of a member and its value. -/
def Layout.colon : Layout → String
  | compact => ":"
  | indented => ": "

mutual

/-- A value as a document, or as a part of one at a depth. -/
def write (layout : Layout) (depth : Nat) : Value ν → String
  | .atom a => writeAtom a
  | .list items => enclose layout depth "[" "]" (writeItems layout (depth + 1) items)
  | .object members =>
    enclose layout depth "\x7b" "\x7d" (writeMembers layout (depth + 1) members)

/-- The items of a list. -/
def writeItems (layout : Layout) (depth : Nat) : List (Value ν) → List String
  | [] => []
  | x :: xs => write layout depth x :: writeItems layout depth xs

/-- The members of an object. -/
def writeMembers (layout : Layout) (depth : Nat) : Members ν → List String
  | [] => []
  | (name, x) :: rest =>
    (writeText name ++ layout.colon ++ write layout depth x) :: writeMembers layout depth rest

end

/-- Whether an atom can be written: a whole number may have too many digits. -/
def canWriteAtom : Atom ν → Bool
  | .number (.whole n) => (Nat.toDigits 10 n.natAbs).length ≤ Numeral.mostDigits
  | _ => true

mutual

/-- Whether a value can be written, all numbers in it being short enough. -/
def canWrite : Value ν → Bool
  | .atom a => canWriteAtom a
  | .list items => canWriteItems items
  | .object members => canWriteMembers members

/-- Whether the items of a list can be written. -/
def canWriteItems : List (Value ν) → Bool
  | [] => true
  | x :: xs => canWrite x && canWriteItems xs

/-- Whether the members of an object can be written. -/
def canWriteMembers : Members ν → Bool
  | [] => true
  | (_, x) :: rest => canWrite x && canWriteMembers rest

end

end Json

end CharacterBuild
