import CharacterBuild.Number.Basic
import CharacterBuild.Number.Decimal

set_option autoImplicit false

/-! # Machine numbers as the numbers of a catalog

Numbers of double precision, with their own arithmetic; comparison with whole numbers,
truncation, reading and writing go through the exact parts of the number. A mark tells the
occurrences of what is not a number apart. Numerals and arithmetic leave the mark at zero.
-/

namespace CharacterBuild

namespace Binary

/-- The order of two finite quotients `± m * 2 ^ e` and `n`. -/
def compareInt : Binary → Int → Option Ordering
  | nan, _ => none
  | infinite negative, _ => some (if negative then .lt else .gt)
  | finite negative m e, n =>
    let signed : Int := if negative then -(m : Int) else m
    if e < 0 then some (Ord.compare signed (n * twoTo (-e).toNat))
    else some (Ord.compare (signed * twoTo e.toNat) n)

/-- The number without its fraction. -/
def truncate : Binary → Truncation
  | nan => .nan
  | infinite _ => .infinite
  | finite negative m e =>
    let size : Nat := if e < 0 then m / twoTo (-e).toNat else m * twoTo e.toNat
    .whole (if negative then -(size : Int) else size)

end Binary

/-- A machine number. -/
structure Double where
  value : Float
  /-- Tells the occurrences of what is not a number apart; no other number's mark counts. -/
  mark : Nat := 0
  deriving Repr

namespace Double

/-- The parts of a machine number. -/
def parts (x : Double) : Binary := Binary.ofBits x.value.toBits

/-- The machine number of some bits. -/
def ofBits (bits : UInt64) : Double := ⟨Float.ofBits bits, 0⟩

/-- An occurrence of what is not a number. -/
def nan (mark : Nat) : Double := ⟨Float.ofBits (Binary.bitsOf .nan), mark⟩

/-- The machine number nearest to a whole number; none if it would be infinite. -/
def ofWhole? (n : Int) : Option Double :=
  let bits := Binary.magnitudeBits n.natAbs 1
  if bits = Binary.infinityBits then none else some (ofBits (Binary.withSign (n < 0) bits))

/-- The order of two machine numbers. -/
def order (x y : Double) : Option Ordering :=
  if x.value < y.value then some .lt
  else if y.value < x.value then some .gt
  else if x.value == y.value then some .eq
  else none

end Double

instance : Number Double where
  add x y := ⟨x.value + y.value, 0⟩
  sub x y := ⟨x.value - y.value, 0⟩
  mul x y := ⟨x.value * y.value, 0⟩
  neg x := ⟨-x.value, 0⟩
  compare := Double.order
  coincide x y := x.parts = .nan && y.parts = .nan && x.mark = y.mark
  compareInt x n := x.parts.compareInt n
  ofInt? := Double.ofWhole?
  ofNumeral n := Double.ofBits (Binary.bitsOf n)
  truncate x := x.parts.truncate
  text x := x.parts.text
  brief x := x.parts.brief

end CharacterBuild
