import CharacterBuild.Index

set_option autoImplicit false

/-! # Points

The balance of a point pool: what it starts with, and what the selections in its groups earn
and spend. A selection costs its item's cost as often as it is held.
-/

namespace CharacterBuild

/-- The state of a point pool. -/
structure Balance (ν : Type) where
  id : Text
  name : Text
  current : Amount ν
  total : Amount ν

variable {ν : Type} [Number ν]

/-- The result of an operation on amounts that fails when a whole one is too large. -/
def Amount.orTooLarge (a : Option (Amount ν)) : Except (Fault ν) (Amount ν) :=
  match a with
  | some a => .ok a
  | none => .error .outOfRange

/-- The difference of two amounts. -/
def Amount.sub? (a b : Amount ν) : Option (Amount ν) := Amount.combine (· - ·) (· - ·) a b

/-- The cost of an item in a property, as often as a selection holds it. -/
def Selection.cost (s : Selection ν) (item : Item ν) (property : Value ν) :
    Except (Fault ν) (Amount ν) := do
  Amount.orTooLarge (Amount.mul? (.whole s.count) (← item.cost property))

namespace Balance

/-- How much of the pool is spent beyond its content. -/
def overspent (b : Balance ν) : Amount ν :=
  if b.current < .whole 0 then
    match b.current with
    | .whole n => .whole (-n)
    | .real x => .real (-x)
  else .whole 0

/-- The balance of a pool after the effect of one selection. -/
def afterSelection (catalog : Catalog ν) (unlock : PointBuy ν) (current : Amount ν)
    (s : Selection ν) : Traced ν (Amount ν) :=
  match unlock.group? s.group with
  | none => pure current
  | some group =>
    match catalog.item? s.id with
    | none => do
      Traced.note (.costUnknown s.id)
      pure current
    | some item => do
      let cost ← Traced.lift (s.cost item group.costProperty)
      match group.effect with
      | .earn => Traced.lift (Amount.orTooLarge (current.add? cost))
      | .spend => Traced.lift (Amount.orTooLarge (current.sub? cost))

/-- The balance of a pool over some selections. Those in no group of the pool do not count. -/
def ofSelections (catalog : Catalog ν) (unlock : PointBuy ν) (selections : List (Selection ν)) :
    Traced ν (Balance ν) := do
  let initial : Amount ν := .real unlock.pool.initial
  let current ← selections.foldlM (afterSelection catalog unlock) initial
  pure ⟨unlock.pool.id, unlock.pool.name, current, initial⟩

end Balance

end CharacterBuild
