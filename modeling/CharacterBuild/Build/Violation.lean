import CharacterBuild.Build.Level

set_option autoImplicit false

/-! # Violations

What can be wrong with the state of a build, and how it is told.
-/

namespace CharacterBuild

/-- One broken condition of a build's state. -/
inductive Violation (ν : Type) where
  /-- The target level is below the first one. -/
  | levelTooLow (level : Level ν)
  /-- An item is selected more than once. -/
  | itemRepeated (item : Text) (count : Nat)
  /-- A group holds more items than it may. -/
  | groupOverfull (group source : Text) (count limit : Nat)
  /-- An item has more chosen options than it may. -/
  | optionsOverfull (item : Text) (count limit : Nat)
  deriving DecidableEq, Repr

/-- The text of a violation. -/
def Violation.message {ν : Type} [Number ν] : Violation ν → Text
  | levelTooLow level => "target level " ++ level.shown ++ " is below 1"
  | itemRepeated item count =>
    "item " ++ Text.quoted item ++ " is selected " ++ toString count ++ " times"
  | groupOverfull group source count limit =>
    "group " ++ Text.quoted group ++ " in " ++ Text.quoted source ++ " holds " ++
      toString count ++ " of max " ++ toString limit
  | optionsOverfull item count limit =>
    "item " ++ Text.quoted item ++ " has " ++ toString count ++ " options of max " ++
      toString limit

end CharacterBuild
