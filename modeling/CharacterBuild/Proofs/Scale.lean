import CharacterBuild.Build.Level
import CharacterBuild.Number.Double

set_option autoImplicit false

/-! # The place of a level among the whole levels

Levels are compared with whole levels only, so all that counts is where a level stands among
them. Its place is a number on a scale of half steps: `2 * n` for the whole level `n`, and
`2 * n + 1` for whatever lies between `n` and `n + 1` (`Level.IsAt`). With places instead of
levels, chains of comparisons are linear arithmetic. Numbers of double precision have such
places (`ExactNumber`), but for the infinities and what is not a number.
-/

namespace CharacterBuild

/-- Comparing a number with whole numbers goes by its place among them, unless it lies beyond
all of them or is not a number. -/
class ExactNumber (ν : Type) [Number ν] : Prop where
  placed : ∀ x : ν, (∀ n, Number.compareInt x n = none) ∨
    (∃ o : Ordering, o ≠ .eq ∧ ∀ n, Number.compareInt x n = some o) ∨
    ∃ p : Int, ∀ n, Number.compareInt x n = some (Ord.compare p (2 * n))

/-! ## Numbers of double precision -/

/-- The place of a quotient. -/
def placeOf (a d : Int) : Int := 2 * (a / d) + if a % d = 0 then 0 else 1

theorem compare_mul (a : Int) {d : Int} (hd : 0 < d) (n : Int) :
    Ord.compare a (n * d) = Ord.compare (placeOf a d) (2 * n) := by
  unfold placeOf
  have hsplit : d * (a / d) + a % d = a := Int.mul_ediv_add_emod a d
  have hrest : 0 ≤ a % d := Int.emod_nonneg a (by omega)
  rcases Int.lt_trichotomy a (n * d) with h | h | h
  · have hq : a / d < n := (Int.ediv_lt_iff_lt_mul hd).mpr h
    rw [Int.compare_eq_lt.mpr h, Int.compare_eq_lt.mpr]
    split <;> omega
  -- the quotient is a whole number, just `n`
  · have hq : a / d = n := by rw [h]; exact Int.mul_ediv_cancel n (by omega)
    have hr : a % d = 0 := by rw [h]; exact Int.mul_emod_left n d
    rw [Int.compare_eq_eq.mpr h, Int.compare_eq_eq.mpr]
    rw [if_pos hr]
    omega
  · have hq : n ≤ a / d := (Int.le_ediv_iff_mul_le hd).mpr (by omega)
    rw [Int.compare_eq_gt.mpr h, Int.compare_eq_gt.mpr]
    split
    -- without a rest the quotient is `a / d` itself, which is not `n` as `a` is larger
    · rename_i hr
      have hne : a / d ≠ n := by
        intro hn
        rw [hr, hn, Int.mul_comm] at hsplit
        omega
      omega
    · omega

theorem twoTo_pos (k : Nat) : 0 < twoTo k := Nat.pow_pos (by decide)

instance : ExactNumber Double where
  placed := by
    intro x
    show (∀ n, x.parts.compareInt n = none) ∨
      (∃ o : Ordering, o ≠ .eq ∧ ∀ n, x.parts.compareInt n = some o) ∨
      ∃ p : Int, ∀ n, x.parts.compareInt n = some (Ord.compare p (2 * n))
    cases x.parts with
    | nan => exact Or.inl fun n => rfl
    | infinite negative =>
        refine Or.inr (Or.inl ⟨if negative then .lt else .gt, ?_, fun n => rfl⟩)
        cases negative <;> decide
    | finite negative m e =>
        refine Or.inr (Or.inr ?_)
        simp only [Binary.compareInt]
        generalize (if negative = true then -(m : Int) else (m : Int)) = signed
        -- below the point: a fraction of a power of two; above it: a whole number
        by_cases he : e < 0
        · have hd : (0 : Int) < (twoTo (-e).toNat : Nat) := by
            have := twoTo_pos (-e).toNat
            omega
          refine ⟨placeOf signed (twoTo (-e).toNat : Nat), fun n => ?_⟩
          rw [if_pos he, compare_mul signed hd n]
        · refine ⟨2 * (signed * (twoTo e.toNat : Nat)), fun n => ?_⟩
          rw [if_neg he]
          rcases Int.lt_trichotomy (signed * (twoTo e.toNat : Nat)) n with h | h | h
          · rw [Int.compare_eq_lt.mpr h, Int.compare_eq_lt.mpr (by omega)]
          · rw [Int.compare_eq_eq.mpr h, Int.compare_eq_eq.mpr (by omega)]
          · rw [Int.compare_eq_gt.mpr h, Int.compare_eq_gt.mpr (by omega)]

/-! ## Levels -/

namespace Level

variable {ν : Type} [Number ν]

/-- A level stands at a place of the scale. -/
def IsAt (l : Level ν) (p : Int) : Prop :=
  ∀ n : Int, l.amount.compare (.whole n) = some (Ord.compare p (2 * n))

/-- A level that is a number: it equals itself, and can be compared. -/
structure IsNumber (l : Level ν) : Prop where
  refl : l ≤ l
  comparable : l.amount.compare (.whole 0) ≠ none

theorem isAt_whole (n : Int) : (whole n : Level ν).IsAt (2 * n) := by
  intro m
  show some (Ord.compare n m) = _
  rcases Int.lt_trichotomy n m with h | h | h
  · rw [Int.compare_eq_lt.mpr h, Int.compare_eq_lt.mpr (by omega)]
  · rw [Int.compare_eq_eq.mpr h, Int.compare_eq_eq.mpr (by omega)]
  · rw [Int.compare_eq_gt.mpr h, Int.compare_eq_gt.mpr (by omega)]

theorem isNumber_whole (n : Int) : (whole n : Level ν).IsNumber :=
  ⟨whole_le_whole.mpr (Int.le_refl n), nofun⟩

theorem compare_whole_swap (a : Amount ν) (n : Int) :
    (Amount.whole n).compare a = (a.compare (.whole n)).map Ordering.swap := by
  cases a with
  | whole m =>
      show some (Ord.compare n m) = some (Ord.compare m n).swap
      rw [Int.compare_swap]
  | real x => rfl

namespace IsAt

variable {l : Level ν} {p : Int}

theorem lt_whole (h : l.IsAt p) (n : Int) : l < (n : Level ν) ↔ p < 2 * n := by
  show l.amount.compare (.whole n) = some .lt ↔ _
  rw [h n, Option.some.injEq, Int.compare_eq_lt]

theorem le_whole (h : l.IsAt p) (n : Int) : l ≤ (n : Level ν) ↔ p ≤ 2 * n := by
  show l.amount.compare (.whole n) = some .lt ∨ l.amount.compare (.whole n) = some .eq ↔ _
  rw [h n, Option.some.injEq, Option.some.injEq, Int.compare_eq_lt, Int.compare_eq_eq]
  omega

theorem whole_lt (h : l.IsAt p) (n : Int) : (n : Level ν) < l ↔ 2 * n < p := by
  show (Amount.whole n).compare l.amount = some .lt ↔ _
  rw [compare_whole_swap, h n, Option.map_some, Option.some.injEq, Ordering.swap_eq_lt,
    Int.compare_eq_gt]

theorem whole_le (h : l.IsAt p) (n : Int) : (n : Level ν) ≤ l ↔ 2 * n ≤ p := by
  show (Amount.whole n).compare l.amount = some .lt ∨
    (Amount.whole n).compare l.amount = some .eq ↔ _
  rw [compare_whole_swap, h n, Option.map_some, Option.some.injEq, Option.some.injEq,
    Ordering.swap_eq_lt, Ordering.swap_eq_eq, Int.compare_eq_gt, Int.compare_eq_eq]
  omega

end IsAt

/-- Every number that lies between two whole levels has a place. -/
theorem isAt_of_between [ExactNumber ν] {l : Level ν} (hl : l.IsNumber) {least most : Int}
    (hleast : ¬ l < (least : Level ν)) (hmost : ¬ (most : Level ν) < l) : ∃ p, l.IsAt p := by
  cases l with
  | whole n => exact ⟨_, isAt_whole n⟩
  | flag b => exact ⟨_, isAt_whole (if b then 1 else 0)⟩
  | real x =>
      -- what is not a number is ruled out by `hl`, and the infinities by the two bounds
      rcases ExactNumber.placed x with h | ⟨o, ho, h⟩ | ⟨p, h⟩
      · exact absurd (h 0) hl.comparable
      · cases o with
        | lt => exact absurd (h least) hleast
        | eq => exact absurd rfl ho
        | gt =>
            refine absurd ?_ hmost
            show (Number.compareInt x most).map Ordering.swap = some .lt
            rw [h]
            rfl
      · exact ⟨p, h⟩

/-- What lies below a whole level lies below all higher ones. -/
theorem lt_of_lt_of_le [ExactNumber ν] {l : Level ν} {m n : Int} (h : l < (m : Level ν))
    (hmn : m ≤ n) : l < (n : Level ν) := by
  have hplaced : ∀ {p}, l.IsAt p → l < (n : Level ν) := by
    intro p hp
    have hm := (hp.lt_whole m).mp h
    exact (hp.lt_whole n).mpr (by omega)
  cases l with
  | whole k => exact hplaced (isAt_whole k)
  | flag b => exact hplaced (isAt_whole (if b then 1 else 0))
  | real x =>
      have hx : Number.compareInt x m = some .lt := h
      rcases ExactNumber.placed x with hnone | ⟨o, _, ho⟩ | ⟨p, hp⟩
      · rw [hnone] at hx
        cases hx
      · have hlt : some o = some .lt := by rw [← hx, ho]
        show Number.compareInt x n = some .lt
        rw [ho, hlt]
      · exact hplaced hp

/-- What is no higher than a whole level lies below all higher ones. -/
theorem lt_of_le_of_whole_lt [ExactNumber ν] {l : Level ν} {m n : Int} (h : l ≤ (m : Level ν))
    (hmn : m < n) : l < (n : Level ν) := by
  have hplaced : ∀ {p}, l.IsAt p → l < (n : Level ν) := by
    intro p hp
    have hm := (hp.le_whole m).mp h
    exact (hp.lt_whole n).mpr (by omega)
  cases l with
  | whole k => exact hplaced (isAt_whole k)
  | flag b => exact hplaced (isAt_whole (if b then 1 else 0))
  | real x =>
      have hx : Number.compareInt x m = some .lt ∨ Number.compareInt x m = some .eq := h
      rcases ExactNumber.placed x with hnone | ⟨o, hne, ho⟩ | ⟨p, hp⟩
      · rw [hnone] at hx
        rcases hx with hx | hx <;> cases hx
      · -- beyond all whole numbers it is on the same side of each
        rw [ho] at hx
        have hlt : some o = some .lt := hx.resolve_right fun heq => hne (Option.some.inj heq)
        show Number.compareInt x n = some .lt
        rw [ho, hlt]
      · exact hplaced hp

end Level

end CharacterBuild
