import CharacterBuild.Text.Basic

set_option autoImplicit false

/-! # Blank characters

The characters that separate words: the spaces, line ends and separators of the whole
character set. Texts are trimmed of them, and numerals may stand between them. The four
information separators are blank in a text but not around a numeral.
-/

namespace CharacterBuild.Text

/-- The blank characters, as ranges of code points in ascending order. -/
def blankRanges : List (Nat × Nat) :=
  [(9, 13), (28, 32), (133, 133), (160, 160), (5760, 5760), (8192, 8202), (8232, 8233),
   (8239, 8239), (8287, 8287), (12288, 12288)]

/-- A blank character: a space, a line end or a separator. -/
def isBlank (c : CodePoint) : Bool :=
  blankRanges.any fun r => r.1 ≤ c.val && c.val ≤ r.2

/-- A blank that may stand around a numeral: any blank but an information separator. -/
def isMargin (c : CodePoint) : Bool :=
  isBlank c && !(28 ≤ c.val && c.val ≤ 31)

/-- The elements left when those that `p` holds of are taken off both ends. -/
def strip {α : Type} (p : α → Bool) (l : List α) : List α :=
  ((l.dropWhile p).reverse.dropWhile p).reverse

/-- A text without the blanks at its ends. -/
def trim (t : Text) : Text := ⟨strip isBlank t.points⟩

end CharacterBuild.Text
