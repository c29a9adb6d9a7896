import CharacterBuild.Value.Reading

set_option autoImplicit false

/-! # Configuration

What a set of rules may tune beside its catalog: the range of levels, the attributes and the
values that are to be assigned to them, and what is asked of a finished build.
-/

namespace CharacterBuild

/-- The parameters of a set of rules. -/
structure Config where
  minLevel : Int := 1
  maxLevel : Int := 10
  /-- Whether every change is checked for violations before it is made. -/
  checksState : Bool := true
  /-- The attributes that have to be assigned. -/
  attributeNames : List Text := []
  /-- The values to assign, each as often as it is listed; any value if none is listed. -/
  attributeValues : List Int := []
  /-- Whether a finished build has to have a name. -/
  requiresName : Bool := true
  /-- The types of items that are taken in a quantity when they are forced. -/
  inventoryTypes : List Text := ["equipment", "inventory", "loot"]
  deriving DecidableEq, Repr

namespace Config

variable {ν : Type} [Number ν]

/-- What a reader makes of a member, if the value has one of that name. -/
def readIf {α : Type} (name : Text) (raw : Value ν) (default : α)
    (read : Value ν → Except (Fault ν) α) : Except (Fault ν) α := do
  if ← raw.has name then read (← raw.member name) else .ok default

/-- A configuration from the members that it names; the others keep their defaults. -/
def read (raw : Value ν) : Except (Fault ν) Config := do
  let base : Config := {}
  let minLevel ← readIf "minLevel" raw base.minLevel Value.toWhole
  let maxLevel ← readIf "maxLevel" raw base.maxLevel Value.toWhole
  let attributeNames ← readIf "attributeNames" raw base.attributeNames
    fun v => do .ok ((← v.elements).map Value.str)
  let attributeValues ← readIf "attributeValues" raw base.attributeValues
    fun v => do (← v.elements).mapM Value.toWhole
  let requiresName ← readIf "requireName" raw base.requiresName fun v => .ok v.isTrue
  .ok {
    minLevel := minLevel
    maxLevel := maxLevel
    attributeNames := attributeNames
    attributeValues := attributeValues
    requiresName := requiresName }

end Config

end CharacterBuild
