import CharacterBuild.Number.Amount
import Mathlib.Algebra.Order.Field.Rat
import Mathlib.Algebra.Order.Ring.Cast

set_option autoImplicit false

/-! # Exact numbers

The rational numbers as the numbers of a catalog: all arithmetic is exact, and no number is too
large. They have no infinities and nothing that is not a number; numerals that say so are read as
zero. An amount is then just one rational number, whether it is a whole one or not
(`Amount.toRat`), and comparing, adding and multiplying amounts is comparing, adding and
multiplying these.
-/

namespace CharacterBuild

/-- The number that a numeral says. -/
def ratOf : Numeral → ℚ
  | .nan => 0
  | .infinite _ => 0
  | .decimal negative digits exponent =>
    let size : ℚ :=
      if exponent < 0 then digits / (10 ^ (-exponent).toNat : Nat)
      else (digits * 10 ^ exponent.toNat : Nat)
    if negative then -size else size

instance : Number ℚ where
  compare x y := some (cmp x y)
  coincide _ _ := false
  compareInt x n := some (cmp x n)
  ofInt? n := some n
  ofNumeral := ratOf
  truncate x := .whole (x.num.tdiv x.den)
  text x := toString x
  brief x := toString x

namespace Amount

/-- The number that an amount is. -/
def toRat : Amount ℚ → ℚ
  | whole n => n
  | real x => x

@[simp] theorem toRat_whole (n : Int) : (whole n : Amount ℚ).toRat = n := rfl

@[simp] theorem toRat_real (x : ℚ) : (real x).toRat = x := rfl

/-- Amounts compare as the numbers that they are. -/
theorem compare_eq_cmp (a b : Amount ℚ) : a.compare b = some (cmp a.toRat b.toRat) := by
  cases a with
  | whole m =>
      cases b with
      | whole n =>
          show some (Ord.compare m n) = some (cmp (m : ℚ) n)
          rcases Int.lt_trichotomy m n with h | h | h
          · rw [Int.compare_eq_lt.mpr h, (cmp_eq_lt_iff _ _).mpr (Int.cast_lt.mpr h)]
          · rw [Int.compare_eq_eq.mpr h, (cmp_eq_eq_iff _ _).mpr (congrArg Int.cast h)]
          · rw [Int.compare_eq_gt.mpr h, (cmp_eq_gt_iff _ _).mpr (Int.cast_lt.mpr h)]
      | real y =>
          show some (cmp y m).swap = _
          rw [cmp_swap]
          rfl
  | real x =>
      cases b with
      | whole n => rfl
      | real y => rfl

theorem lt_iff_toRat (a b : Amount ℚ) : a < b ↔ a.toRat < b.toRat := by
  show a.compare b = some .lt ↔ _
  rw [compare_eq_cmp, Option.some.injEq, cmp_eq_lt_iff]

/-- Joining two exact amounts never fails. -/
theorem combine_eq_some {onInt : Int → Int → Int} {onReal : ℚ → ℚ → ℚ}
    (h : ∀ m n : Int, ((onInt m n : Int) : ℚ) = onReal m n) (a b : Amount ℚ) :
    ∃ c, combine onInt onReal a b = some c ∧ c.toRat = onReal a.toRat b.toRat := by
  cases a with
  | whole m =>
      cases b with
      | whole n => exact ⟨_, rfl, h m n⟩
      | real y => exact ⟨_, rfl, rfl⟩
  | real x =>
      cases b with
      | whole n => exact ⟨_, rfl, rfl⟩
      | real y => exact ⟨_, rfl, rfl⟩

theorem add?_eq_some (a b : Amount ℚ) :
    ∃ c, a.add? b = some c ∧ c.toRat = a.toRat + b.toRat :=
  combine_eq_some (fun m n => Int.cast_add m n) a b

theorem mul?_eq_some (a b : Amount ℚ) :
    ∃ c, a.mul? b = some c ∧ c.toRat = a.toRat * b.toRat :=
  combine_eq_some (fun m n => Int.cast_mul m n) a b

end Amount

end CharacterBuild
