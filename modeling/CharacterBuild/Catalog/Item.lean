import CharacterBuild.Directory
import CharacterBuild.Value.Reading

set_option autoImplicit false

/-! # Items

An item is something a build may select: an ability, a perk, a flaw, a piece of equipment. It
has a weight and may have further costs under names of their own, and it may offer options that
are chosen once the item is selected.
-/

namespace CharacterBuild

/-- A choice inside an item. -/
structure NestedOption where
  id : Text
  name : Text
  deriving DecidableEq, Repr

/-- The limit that a given number stands for: only a positive number limits anything. -/
def limitOf (given : Option Int) : Option Nat :=
  match given with
  | some n => if 0 < n then some n.toNat else none
  | none => none

/-- An entry of the catalog. -/
structure Item (ν : Type) where
  id : Text
  itemType : Text
  name : Text
  description : Text
  weight : ν
  /-- Whether the item may be held more than once. -/
  stackable : Bool
  options : List NestedOption
  /-- How many options may be chosen, as given. -/
  givenLimit : Option Int
  /-- The costs other than the weight. -/
  properties : Directory Text ν

namespace Item

variable {ν : Type}

/-- The name of the item, or its id if it has none. -/
def label (item : Item ν) : Text := if item.name = "" then item.id else item.name

/-- The ids of the options in order. -/
def optionIds (item : Item ν) : List Text := item.options.map NestedOption.id

/-- How many options may be chosen, if there is a limit. -/
def optionLimit (item : Item ν) : Option Nat := limitOf item.givenLimit

/-- How many options have to be chosen before the item is complete. -/
def neededOptions (item : Item ν) : Nat :=
  match item.optionLimit with
  | some limit => min limit item.options.length
  | none => 0

/-- The property that a cost is counted in, unless another one is named. -/
def weightName : Text := "weight"

variable [Number ν]

/-- The cost of the item in a property, or in weight if none is named. A property that the item
does not have costs nothing. -/
def cost (item : Item ν) (property : Value ν) : Except (Fault ν) (Amount ν) :=
  if !property.isTrue || property.isText weightName then .ok (.real item.weight)
  else do
    match ← property.key with
    | .text name => .ok (((item.properties.find? name).map Amount.real).getD (.whole 0))
    | _ => .ok (.whole 0)

end Item

theorem limitOf_eq_some_iff {given : Option Int} {n : Nat} :
    limitOf given = some n ↔ given = some (n : Int) ∧ 0 < n := by
  cases given with
  | none => simp [limitOf]
  | some m =>
    simp only [limitOf, Option.some.injEq]
    split <;> simp <;> omega

end CharacterBuild
