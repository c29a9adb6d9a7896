import CharacterBuild.Build.Selection

set_option autoImplicit false

/-! # The state of a build

Everything that has been chosen so far. A build is created from nothing, or continued from one
that was restored; the levels up to the restored one are settled.
-/

namespace CharacterBuild

/-- How a build came about. -/
inductive Mode where
  /-- From nothing. -/
  | creation
  /-- From a build that was restored. -/
  | continuation
  deriving DecidableEq, Repr

/-- The name of a mode. -/
def Mode.name : Mode → Text
  | creation => "creation"
  | continuation => "continuation"

/-- All choices of a build. -/
structure Build (ν : Type) [Number ν] where
  /-- The level that the build aims for. -/
  targetLevel : Level ν := .whole 1
  mode : Mode := .creation
  /-- The level at which the build was restored. -/
  restoredAt : Option (Level ν) := none
  selections : List (Selection ν) := []
  attributes : Directory (Atom ν) (Value ν) := .empty
  inventory : List (InventoryLine ν) := []
  info : Directory (Atom ν) (Value ν) := .empty
  /-- The fields without a meaning of their own. -/
  fields : Directory Text (Value ν) := .empty

namespace Build

variable {ν : Type} [Number ν]

/-- Whether the build was restored. -/
def isRestored (s : Build ν) : Bool := s.mode = .continuation

/-- The level up to which the build is settled, if it was restored. -/
def settledUpTo (s : Build ν) : Option (Level ν) := if s.isRestored then s.restoredAt else none

/-- Whether a level was settled before the build was restored. -/
def isSettled (s : Build ν) (level : Int) : Bool :=
  s.settledUpTo.any fun settled => (level : Level ν) ≤ settled

/-- The first selection of an item, from the given source if one is given. -/
def selection? (s : Build ν) (item : Text) (source : Option SourceId) :
    Option (Selection ν) :=
  s.selections.find? (Selection.isOf item source)

/-- Whether an item is selected from any source. -/
def isSelected (s : Build ν) (item : Text) : Bool := s.selections.any (·.id = item)

/-- The selections made from a source. -/
def selectionsOf (s : Build ν) (source : SourceId) : List (Selection ν) :=
  s.selections.filter (·.source = source)

/-- The selections made in a group of a source. -/
def membersOf (s : Build ν) (source : SourceId) (group : Text) :
    List (Selection ν) :=
  s.selections.filter (Selection.isIn source group)

/-- The state with the first selection of an item from a source put through a change. -/
def modify (s : Build ν) (item : Text) (source : SourceId)
    (change : Selection ν → Selection ν) : Build ν :=
  { s with selections := go s.selections }
where
  /-- The selections with the first one of the item and source changed. -/
  go : List (Selection ν) → List (Selection ν)
    | [] => []
    | x :: rest => if x.isOf item (some source) then change x :: rest else x :: go rest

end Build

end CharacterBuild
