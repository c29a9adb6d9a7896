set_option autoImplicit false

/-! # Texts

A text is a sequence of code points. Most of them are characters. The others are halves of
surrogate pairs, which a document may name one at a time: a half that stands alone is part of a
text like any character, though no character is there to be shown for it.
-/

namespace CharacterBuild

/-- The number of a character or of half a surrogate pair. -/
structure CodePoint where
  val : Nat
  isLt : val < 0x110000
  deriving DecidableEq, Repr

namespace CodePoint

theorem toNat_lt (c : Char) : c.toNat < 0x110000 := by
  have h := c.valid
  simp only [UInt32.isValidChar, Nat.isValidChar] at h
  show c.val.toNat < 0x110000
  omega

/-- The code point of a character. -/
def ofChar (c : Char) : CodePoint := ⟨c.toNat, toNat_lt c⟩

instance : Coe Char CodePoint := ⟨ofChar⟩

instance : LT CodePoint := ⟨fun a b => a.val < b.val⟩

instance (a b : CodePoint) : Decidable (a < b) := inferInstanceAs (Decidable (a.val < b.val))

/-- The code point of a number, or of the sign that replaces what is no code point. -/
def ofNat (n : Nat) : CodePoint := if h : n < 0x110000 then ⟨n, h⟩ else '\ufffd'

/-- The first half of a surrogate pair. -/
def isHighHalf (p : CodePoint) : Bool := 0xd800 ≤ p.val && p.val < 0xdc00

/-- The second half of a surrogate pair. -/
def isLowHalf (p : CodePoint) : Bool := 0xdc00 ≤ p.val && p.val < 0xe000

/-- The character of a code point; for a half that stands alone the sign that replaces it. -/
def char (p : CodePoint) : Char :=
  if p.isHighHalf || p.isLowHalf then '\ufffd' else Char.ofNat p.val

end CodePoint

/-- A sequence of code points. -/
structure Text where
  points : List CodePoint
  deriving DecidableEq, Repr

namespace Text

/-- The text of some characters. -/
def ofChars (cs : List Char) : Text := ⟨cs.map CodePoint.ofChar⟩

/-- The text of a string. -/
def ofString (s : String) : Text := ofChars s.toList

instance : Coe String Text := ⟨ofString⟩

instance : Inhabited Text := ⟨⟨[]⟩⟩

/-- The characters of a text. -/
def chars (t : Text) : List Char := t.points.map CodePoint.char

instance : ToString Text := ⟨fun t => String.ofList t.chars⟩

instance : Append Text := ⟨fun s t => ⟨s.points ++ t.points⟩⟩

/-- Texts are ordered by their first code points that differ. -/
instance : LT Text := ⟨fun s t => s.points < t.points⟩

instance : LE Text := ⟨fun s t => s.points ≤ t.points⟩

instance (s t : Text) : Decidable (s < t) := inferInstanceAs (Decidable (s.points < t.points))

instance (s t : Text) : Decidable (s ≤ t) := inferInstanceAs (Decidable (s.points ≤ t.points))

/-- The text without any code point. -/
def isEmpty (t : Text) : Bool := t.points.isEmpty

/-- Whether a text can be put out as characters: no half of a surrogate pair stands alone in it. -/
def canPrint (t : Text) : Bool := t.points.all fun p => !(p.isHighHalf || p.isLowHalf)

/-- Texts one after another, with a text between any two of them. -/
def join (between : Text) (parts : List Text) : Text :=
  ⟨between.points.intercalate (parts.map points)⟩

theorem join_cons_cons (between s t : Text) (rest : List Text) :
    join between (s :: t :: rest) = s ++ between ++ join between (t :: rest) := by
  unfold join
  rw [List.map_cons, List.map_cons, List.intercalate_cons_cons]
  rfl

end Text

end CharacterBuild
