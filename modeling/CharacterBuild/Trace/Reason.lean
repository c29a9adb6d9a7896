import CharacterBuild.Build.Level

set_option autoImplicit false

/-! # Reasons

Why a choice is refused, or was carried out in part only. A reason is told to the user and is
not a fault.
-/

namespace CharacterBuild

/-- Why a choice is refused or carried out in part. Items and groups are named as they are
shown, by their name or else their id. -/
inductive Reason (ν : Type) where
  /-- The catalog has no such item. -/
  | unknownItem (id : Text)
  /-- Another source owns the item. -/
  | ownedBy (source : Text)
  /-- The group does not list the item. -/
  | notOffered (item group : Text)
  /-- The group holds as many items as it may. -/
  | groupFull (limit : Nat)
  /-- The group opens at a higher level than the build aims for. -/
  | opensLater (level : Int) (target : Level ν)
  /-- The choices of the level were settled before the build was restored. -/
  | levelSettled (level : Int)
  /-- The selection was settled before the build was restored. -/
  | itemSettled
  /-- The selection was settled and cannot be changed. -/
  | settled
  /-- The pool does not hold the cost of the item. -/
  | unaffordable (cost : Amount ν) (pool : Text) (balance : Amount ν)
  /-- The item cannot be held more than once. -/
  | notStackable
  /-- A plain group holds each item once. -/
  | singleOnly
  /-- The item has to be selected before the options that are asked about. -/
  | selectItemFirst (item : Text)
  /-- The item has to be selected before an option is chosen. -/
  | selectFirst
  /-- The item has no such option. -/
  | notAnOption (option item : Text)
  /-- The item has as many chosen options as it may. -/
  | optionsFull (limit : Nat) (item : Text)
  /-- More options were asked for than the item may have. -/
  | optionsCut (limit : Nat) (item : Text)
  /-- The target level lies outside the range of levels. -/
  | levelOutside (least most given : Int)
  /-- The target level lies below the level that was restored. -/
  | levelBelow (restored : Level ν)
  deriving DecidableEq, Repr

/-- The wording of a reason. -/
def Reason.text {ν : Type} [Number ν] : Reason ν → Text
  | unknownItem id => "Unknown item " ++ Text.quoted id ++ "."
  | ownedBy source => "This is already selected from " ++ source ++ "."
  | notOffered item group => "\"" ++ item ++ "\" is not offered in \"" ++ group ++ "\"."
  | groupFull limit =>
    "You have already selected the maximum of " ++ toString limit ++ " item(s) from this group."
  | opensLater level target =>
    "Unlocks at level " ++ toString level ++ " (target level is " ++ target.shown ++ ")."
  | levelSettled level =>
    "Level " ++ toString level ++ " choices were committed before this level-up."
  | itemSettled => "This item was committed at an earlier level."
  | settled => "This was committed at an earlier level and cannot be changed."
  | unaffordable cost pool balance =>
    "Requires " ++ cost.brief ++ " " ++ pool ++ ", but you only have " ++ balance.brief ++
      " available."
  | notStackable => "This item cannot be stacked."
  | singleOnly => "You can only select a quantity of 1 for this item here."
  | selectItemFirst item => "Select \"" ++ item ++ "\" before choosing its options."
  | selectFirst => "Select the item before choosing its options."
  | notAnOption option item => "\"" ++ option ++ "\" is not an option of \"" ++ item ++ "\"."
  | optionsFull limit item =>
    "You can choose at most " ++ toString limit ++ " option(s) for \"" ++ item ++ "\"."
  | optionsCut limit item =>
    "Only " ++ toString limit ++ " option(s) may be chosen for \"" ++ item ++ "\"."
  | levelOutside least most given =>
    "Target level must be " ++ toString least ++ ".." ++ toString most ++ ", got " ++
      toString given
  | levelBelow restored =>
    "Target level cannot drop below the committed level " ++ restored.shown ++ "."

/-- The answer to whether a choice may be made now. -/
inductive Verdict (ν : Type) where
  /-- The choice may be made. -/
  | enabled
  /-- The choice may not be made. -/
  | disabled (reason : Reason ν)
  deriving DecidableEq, Repr

/-- What became of a request to change the build. -/
structure Result (ν : Type) where
  /-- Whether the build was changed. -/
  changed : Bool
  /-- Why it was not, or what was left out of the change. -/
  reason : Option (Reason ν)
  deriving DecidableEq, Repr

end CharacterBuild
