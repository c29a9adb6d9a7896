import CharacterBuild.Number.Binary

set_option autoImplicit false

/-! # Decimal texts of binary numbers

A positive number is written by decimal digits in two ways. The shortest form has the fewest
digits that read back to the same number, and of these the nearest. The brief form has at most
six significant digits, correctly rounded. A style says how the digits are laid out: in
positions, or as a digit with a fraction and an exponent of ten.
-/

namespace CharacterBuild

/-- The positive number `digits * 10 ^ exponent`. -/
structure Decimal where
  digits : Nat
  exponent : Int
  deriving DecidableEq, Repr

/-- How decimal digits are laid out. -/
structure DecimalStyle where
  /-- The least exponent of ten whose number is written in positions. -/
  lowest : Int
  /-- The least exponent above `lowest` whose number is written with an exponent. -/
  highest : Int
  /-- A whole number written in positions ends in a point and a zero. -/
  keepsPoint : Bool

/-- The style of values: positions below ten to the sixteenth, with at least one decimal. -/
def DecimalStyle.full : DecimalStyle := ⟨-4, 16, true⟩

/-- The style of messages: positions below a million, without a needless decimal. -/
def DecimalStyle.brief : DecimalStyle := ⟨-4, 6, false⟩

namespace Decimal

/-- The same number without zeros at its end; `fuel` bounds their count. -/
def normalize : (fuel : Nat) → Decimal → Decimal
  | 0, d => d
  | fuel + 1, d =>
    if d.digits % 10 = 0 && d.digits ≠ 0 then normalize fuel ⟨d.digits / 10, d.exponent + 1⟩
    else d

/-- The digits of a number, the most significant one first. -/
def chars (n : Nat) : List Char := Nat.toDigits 10 n

/-- An exponent with its sign and at least two digits. -/
def exponentText (e : Int) : List Char :=
  let ds := chars e.natAbs
  (if e < 0 then '-' else '+') :: (if ds.length < 2 then '0' :: ds else ds)

/-- The digits laid out with an exponent of ten, `1.5e-07`. -/
def scientific (ds : List Char) (e : Int) : List Char :=
  let fraction := ds.drop 1
  ds.take 1 ++ (if fraction.isEmpty then [] else '.' :: fraction) ++ 'e' :: exponentText e

/-- The digits laid out in positions around the point. -/
def positional (keepsPoint : Bool) (ds : List Char) (e : Int) : List Char :=
  if e < 0 then '0' :: '.' :: List.replicate (-e - 1).toNat '0' ++ ds
  else
    let places := e.toNat + 1
    let whole := ds.take places ++ List.replicate (places - ds.length) '0'
    let fraction := ds.drop places
    if fraction.isEmpty then whole ++ (if keepsPoint then ['.', '0'] else [])
    else whole ++ '.' :: fraction

/-- The text of a positive number in the given style. -/
def render (style : DecimalStyle) (d : Decimal) : List Char :=
  let d := d.normalize (chars d.digits).length
  let ds := chars d.digits
  let e := d.exponent + ds.length - 1
  if style.lowest ≤ e && e < style.highest then positional style.keepsPoint ds e
  else scientific ds e

/-- The text of zero in the given style. -/
def zero (style : DecimalStyle) : List Char :=
  if style.keepsPoint then ['0', '.', '0'] else ['0']

/-- `num * 10 ^ (-k) / den` as a quotient of whole numbers. -/
def scaled (num den : Nat) (k : Int) : Nat × Nat :=
  if k < 0 then (num * tenTo (-k).toNat, den) else (num, den * tenTo k.toNat)

/-- Whether ten to the `k` is at most `num / den`. -/
def powerFits (num den : Nat) (k : Int) : Bool :=
  let (n, d) := scaled num den k
  d ≤ n

/-- The exponent of the leading decimal digit of `num / den`. The binary logarithm gives it
up to one, and a comparison decides. -/
def leading (num den : Nat) : Int :=
  let guess := Int.fdiv (((Nat.log2 num : Int) - Nat.log2 den) * 30103) 100000
  if powerFits num den (guess + 1) then guess + 1
  else if powerFits num den guess then guess
  else if powerFits num den (guess - 1) then guess - 1
  else guess - 2

/-- The numbers that read back as the same binary number, as an interval of quotients over one
denominator; the ends belong to it when `closed`. -/
structure Interval where
  low : Nat
  value : Nat
  high : Nat
  den : Nat
  closed : Bool

/-- The interval of the numbers that round to `significand * 2 ^ exponent`. The lower neighbour
of a power of two is half as far away as the upper one. -/
def Interval.around (significand : Nat) (exponent : Int) : Interval :=
  let m := 4 * significand
  let low := if significand = twoTo 52 && Binary.minExponent < exponent then m - 1 else m - 2
  let e := exponent - 2
  let up := if e < 0 then 1 else twoTo e.toNat
  let den := if e < 0 then twoTo (-e).toNat else 1
  ⟨low * up, m * up, (m + 2) * up, den, significand % 2 = 0⟩

/-- Whether `digits * 10 ^ k` lies in the interval. -/
def Interval.holds (i : Interval) (digits : Nat) (k : Int) : Bool :=
  let point := if k < 0 then digits * i.den else digits * tenTo k.toNat * i.den
  let unit := if k < 0 then tenTo (-k).toNat else 1
  if i.closed then i.low * unit ≤ point && point ≤ i.high * unit
  else i.low * unit < point && point < i.high * unit

/-- The point nearest to the value of the grid of the multiples of `10 ^ k`, among those that
lie in the interval. -/
def Interval.onGrid? (i : Interval) (k : Int) : Option Decimal :=
  let (n, d) := scaled i.value i.den k
  let below := n / d
  let nearest := roundDiv n d
  let other := if nearest = below then below + 1 else below
  if i.holds nearest k then some ⟨nearest, k⟩
  else if i.holds other k then some ⟨other, k⟩
  else none

/-- The first grid with a point in the interval, of the next `count` ones from `k` down. -/
def Interval.shortest (i : Interval) : (count : Nat) → (k : Int) → Decimal
  | 0, k => ⟨(scaled i.value i.den k).1 / (scaled i.value i.den k).2, k⟩
  | count + 1, k =>
    match i.onGrid? k with
    | some d => d
    | none => i.shortest count (k - 1)

/-- The shortest decimal that reads back as `significand * 2 ^ exponent`. -/
def shortest (significand : Nat) (exponent : Int) : Decimal :=
  let i := Interval.around significand exponent
  i.shortest 17 (leading i.value i.den)

/-- The number `significand * 2 ^ exponent` rounded to six significant digits. -/
def sixDigits (significand : Nat) (exponent : Int) : Decimal :=
  let i := Interval.around significand exponent
  let k := leading i.value i.den - 5
  let (n, d) := scaled i.value i.den k
  ⟨roundDiv n d, k⟩

end Decimal

namespace Binary

/-- The text of a binary number, its finite positive ones by `digits` in the style `style`. -/
def textBy (style : DecimalStyle) (digits : Nat → Int → Decimal) : Binary → String
  | nan => "nan"
  | infinite negative => if negative then "-inf" else "inf"
  | finite negative m e =>
    let body := if m = 0 then Decimal.zero style else (digits m e).render style
    String.ofList (if negative then '-' :: body else body)

/-- The shortest text that reads back as the number. -/
def text : Binary → String := textBy DecimalStyle.full Decimal.shortest

/-- The text of the number with at most six significant digits. -/
def brief : Binary → String := textBy DecimalStyle.brief Decimal.sixDigits

end Binary

end CharacterBuild
