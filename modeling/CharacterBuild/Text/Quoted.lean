import CharacterBuild.Text.Printable

set_option autoImplicit false

/-! # Quoted texts

A text that a message names stands in quotes. The quotes are single, or double when the text
holds a single quote and no double one. A backslash and the quote in use are escaped by a
backslash; line ends and tabs by a letter; other characters that cannot be printed by their
number in base sixteen, with two, four or eight places.
-/

namespace CharacterBuild.Text

/-- The last `width` places of a number in base sixteen. -/
def hexPlaces : (width n : Nat) → List Char
  | 0, _ => []
  | width + 1, n => hexPlaces width (n / 16) ++ [Nat.digitChar (n % 16)]

/-- The quote that a text is put in. -/
def quoteFor (t : Text) : Char :=
  if t.points.contains '\'' && !t.points.contains '"' then '"' else '\''

/-- A code point as it stands inside quotes of the kind `quote`. -/
def quotedPoint (quote c : CodePoint) : Text :=
  if c = quote || c = '\\' then ⟨['\\', c]⟩
  else if c = '\n' then "\\n"
  else if c = '\r' then "\\r"
  else if c = '\t' then "\\t"
  else if isPrintable c then ⟨[c]⟩
  else if c.val ≤ 0xff then ofChars ('\\' :: 'x' :: hexPlaces 2 c.val)
  else if c.val ≤ 0xffff then ofChars ('\\' :: 'u' :: hexPlaces 4 c.val)
  else ofChars ('\\' :: 'U' :: hexPlaces 8 c.val)

/-- A text in quotes. -/
def quoted (t : Text) : Text :=
  let quote : CodePoint := quoteFor t
  ⟨quote :: t.points.flatMap (fun c => (quotedPoint quote c).points) ++ [quote]⟩

end CharacterBuild.Text
