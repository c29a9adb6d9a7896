import CharacterBuild.Value.Basic
import CharacterBuild.Text.Quoted

set_option autoImplicit false

/-! # Values in messages

How a message shows a value: texts in quotes, lists in brackets, objects in braces, the rest
by fixed words and numerals. A text that stands for itself is written without quotes.
-/

namespace CharacterBuild

namespace Atom

variable {ν : Type} [Number ν]

/-- The word for an atom's kind. -/
def kind : Atom ν → Text
  | null => "NoneType"
  | bool _ => "bool"
  | number (.whole _) => "int"
  | number (.real _) => "float"
  | text _ => "str"

/-- An atom as a message shows it. -/
def shown : Atom ν → Text
  | null => "None"
  | bool true => "True"
  | bool false => "False"
  | number a => a.text
  | text s => Text.quoted s

end Atom

namespace Value

variable {ν : Type} [Number ν]

/-- The word for a value's kind. -/
def kind : Value ν → Text
  | .atom a => a.kind
  | .list _ => "list"
  | .object _ => "dict"

/-- Parts between an opening and a closing mark, set apart by a comma and a space. -/
def enclosed (before after : Text) (parts : List Text) : Text :=
  before ++ Text.join ", " parts ++ after

mutual

/-- A value as a message shows it. -/
def shown : Value ν → Text
  | .atom a => a.shown
  | .list items => enclosed "[" "]" (shownItems items)
  | .object members => enclosed "\x7b" "\x7d" (shownMembers members)

/-- The items of a list as a message shows them. -/
def shownItems : List (Value ν) → List Text
  | [] => []
  | x :: xs => shown x :: shownItems xs

/-- The members of an object as a message shows them. -/
def shownMembers : Members ν → List Text
  | [] => []
  | (name, x) :: rest => (Text.quoted name ++ ": " ++ shown x) :: shownMembers rest

end

/-- The text of a value: a text itself, anything else as a message shows it. -/
def str : Value ν → Text
  | text s => s
  | v => v.shown

@[simp] theorem str_text (s : Text) : (text s : Value ν).str = s := rfl

end Value

end CharacterBuild
