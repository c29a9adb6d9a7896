import CharacterBuild.Catalog.Item

set_option autoImplicit false

/-! # Unlocks

What a source grants at a level. A reward is given without being asked for. A choice offers a
group of items of which some may be selected. A point pool offers groups of items that are paid
for with its points, or that earn them.
-/

namespace CharacterBuild

/-- Health and attributes that are granted. -/
structure Grant (ν : Type) where
  health : ν
  attributes : Directory Text ν

/-- A grant that is never selected and never missing. -/
structure Reward (ν : Type) where
  id : Text
  name : Text
  grant : Grant ν

/-- A group of items of which a limited number may be selected. -/
structure Choice where
  id : Text
  name : Text
  items : List Text
  /-- How many items may be selected, as given. -/
  givenLimit : Option Int
  itemType : Text
  deriving DecidableEq, Repr

/-- A stock of points. -/
structure Pool (ν : Type) where
  id : Text
  name : Text
  initial : ν

/-- What an item does to the pool whose group it is selected in. -/
inductive PoolEffect where
  /-- The item earns its cost. -/
  | earn
  /-- The item spends its cost. -/
  | spend
  deriving DecidableEq, Repr

/-- The name of an effect. -/
def PoolEffect.name : PoolEffect → Text
  | earn => "add"
  | spend => "subtract"

/-- A group of items that earn or spend the points of a pool. -/
structure PointGroup (ν : Type) where
  id : Text
  name : Text
  items : List Text
  effect : PoolEffect
  /-- The property that costs are counted in, as given. -/
  costProperty : Value ν
  /-- How many items may be selected, as given. -/
  givenLimit : Option Int

/-- A point pool with its groups. -/
structure PointBuy (ν : Type) where
  id : Text
  name : Text
  pool : Pool ν
  groups : List (PointGroup ν)

namespace PointBuy

variable {ν : Type}

/-- The first group of an id. -/
def group? (unlock : PointBuy ν) (group : Value ν) : Option (PointGroup ν) :=
  unlock.groups.find? fun g => group.isText g.id

end PointBuy

/-- Something that a source grants at a level. -/
inductive Unlock (ν : Type) where
  | reward (reward : Reward ν)
  | choice (choice : Choice)
  | pointBuy (pointBuy : PointBuy ν)

namespace Unlock

variable {ν : Type}

/-- The id of an unlock. -/
def id : Unlock ν → Text
  | reward r => r.id
  | choice c => c.id
  | pointBuy p => p.id

/-- The point pool that an unlock is, if it is one. -/
def pointBuy? : Unlock ν → Option (PointBuy ν)
  | pointBuy p => some p
  | _ => none

/-- The reward that an unlock is, if it is one. -/
def reward? : Unlock ν → Option (Reward ν)
  | reward r => some r
  | _ => none

/-- The choice that an unlock is, if it is one. -/
def choice? : Unlock ν → Option Choice
  | choice c => some c
  | _ => none

end Unlock

end CharacterBuild
