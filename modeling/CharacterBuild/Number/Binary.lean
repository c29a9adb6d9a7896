import CharacterBuild.Number.Numeral

set_option autoImplicit false

/-! # Binary numbers of double precision

A finite number of double precision is `± significand * 2 ^ exponent` with a significand
below `2 ^ 53`. This file takes such a number apart and finds the one nearest to a quotient of
whole numbers; of two that are equally near, the one with the even significand.
-/

namespace CharacterBuild

/-- A number of double precision, taken apart. -/
inductive Binary where
  /-- Not a number. -/
  | nan
  /-- An infinity, and whether it is the negative one. -/
  | infinite (negative : Bool)
  /-- The number `± significand * 2 ^ exponent`. -/
  | finite (negative : Bool) (significand : Nat) (exponent : Int)
  deriving DecidableEq, Repr

/-- `2 ^ k`. -/
def twoTo (k : Nat) : Nat := Nat.pow 2 k

/-- `10 ^ k`. -/
def tenTo (k : Nat) : Nat := Nat.pow 10 k

/-- The whole number nearest to `num / den`, of two the even one. -/
def roundDiv (num den : Nat) : Nat :=
  let q := num / den
  let r := num % den
  if 2 * r < den then q
  else if den < 2 * r then q + 1
  else q + q % 2

namespace Binary

/-- The least exponent of a number of double precision. -/
def minExponent : Int := -1074

/-- The bits of an infinity, sign apart; every number of fewer bits is finite. -/
def infinityBits : Nat := 2047 * twoTo 52

/-- The parts of a number that is given by its sixty-four bits. -/
def ofBits (bits : UInt64) : Binary :=
  let n := bits.toNat
  let negative := twoTo 63 ≤ n
  let field : Nat := n / twoTo 52 % 2048
  let fraction : Nat := n % twoTo 52
  if field = 2047 then if fraction = 0 then infinite negative else nan
  else if field = 0 then finite negative fraction minExponent
  else finite negative (twoTo 52 + fraction) ((field : Int) - 1 + minExponent)

/-- `num * 2 ^ (-k) / den` as a quotient of whole numbers. -/
def shifted (num den : Nat) (k : Int) : Nat × Nat :=
  if k < 0 then (num * twoTo (-k).toNat, den) else (num, den * twoTo k.toNat)

/-- The exponent of the number of double precision nearest to `num / den`. -/
def exponentOf (num den : Nat) : Int :=
  let guess := (Nat.log2 num : Int) - Nat.log2 den - 53
  let (n, d) := shifted num den guess
  max minExponent (if n < d * twoTo 53 then guess else guess + 1)

/-- The bits, sign apart, of the number nearest to `num / den`. A significand that is rounded
up to `2 ^ 53` carries into the exponent, and a number that is too large becomes an infinity. -/
def magnitudeBits (num den : Nat) : Nat :=
  if num = 0 then 0
  else
    let e := exponentOf num den
    let (n, d) := shifted num den e
    min infinityBits (roundDiv n d + (e - minExponent).toNat * twoTo 52)

/-- The bits, sign apart, of the number nearest to `digits * 10 ^ exponent`. Numbers beyond
all bounds are not computed: they are zero or infinite by their size alone. -/
def decimalBits (digits : Nat) (exponent : Int) : Nat :=
  if digits = 0 then 0
  else
    let size := (Nat.toDigits 10 digits).length + exponent
    if 400 < size then infinityBits
    else if size < -400 then 0
    else if exponent < 0 then magnitudeBits digits (tenTo (-exponent).toNat)
    else magnitudeBits (digits * tenTo exponent.toNat) 1

/-- The bits of a number, sign included. -/
def withSign (negative : Bool) (bits : Nat) : UInt64 :=
  UInt64.ofNat (if negative then twoTo 63 + bits else bits)

/-- The bits of the number nearest to what a numeral says. -/
def bitsOf : Numeral → UInt64
  | .nan => UInt64.ofNat (infinityBits + twoTo 51)
  | .infinite negative => withSign negative infinityBits
  | .decimal negative digits exponent => withSign negative (decimalBits digits exponent)

end Binary

end CharacterBuild
