set_option autoImplicit false

/-! # Searching the front of a list

How many elements at the front of a list have a property, if no element has it that comes after
one without it. Both ways to count look at few places only. Where the property comes and goes,
the count depends on the places that are looked at, so these are part of what is defined here.
-/

namespace CharacterBuild.Sorting

/-- Which of the two middle places is taken of an even number of places. -/
inductive Middle where
  | lower
  | upper
  deriving DecidableEq, Repr

/-- The middle of `size` places, counted from zero. -/
def Middle.place : Middle → Nat → Nat
  | lower, size => (size - 1) / 2
  | upper, size => size / 2

/-- The first of the `size` places from `start` on that lacks the property `p`, by halving; the
place after them if all have it. `fuel` bounds how often a place is looked at. -/
def bisect (middle : Middle) (p : Nat → Bool) : (fuel start size : Nat) → Nat
  | 0, start, _ => start
  | fuel + 1, start, size =>
    if size = 0 then start
    else
      let k := middle.place size
      if p (start + k) then bisect middle p fuel (start + k + 1) (size - k - 1)
      else bisect middle p fuel start k

/-- The last place found to have the property and the next one to look at, in steps that
double. `fuel` bounds how often a place is looked at. -/
def stride (p : Nat → Bool) (size : Nat) : (fuel last next : Nat) → Nat × Nat
  | 0, last, next => (last, next)
  | fuel + 1, last, next =>
    if next < size && p next then stride p size fuel next (2 * next + 1) else (last, next)

/-- Whether the element at a place of an array has the property `p`. -/
def hasAt {α : Type} (p : α → Bool) (a : Array α) (place : Nat) : Bool := a[place]?.any p

/-- How many elements at the front have the property `p`, by halving. -/
def countByHalving {α : Type} (middle : Middle) (p : α → Bool) (l : List α) : Nat :=
  bisect middle (hasAt p l.toArray) l.length 0 l.length

/-- How many elements at the front have the property `p`: strides from the first place on, and
halving between the last two places that were looked at. -/
def countByStrides {α : Type} (middle : Middle) (p : α → Bool) (l : List α) : Nat :=
  let has := hasAt p l.toArray
  if has 0 then
    let (last, next) := stride has l.length l.length 0 1
    let size := min next l.length - last - 1
    bisect middle has size (last + 1) size
  else 0

end CharacterBuild.Sorting
