import CharacterBuild.Catalog.Unlock

set_option autoImplicit false

/-! # Sources

A source is a pillar of a build, or a page that stands for itself. It unlocks things level by
level, and it says what happens when the one selected member of a group is selected again.
-/

namespace CharacterBuild

/-- Where a source stands in the build. -/
inductive Origin where
  /-- A pillar of the build. -/
  | primary
  /-- A page that stands for itself. -/
  | independent
  deriving DecidableEq, Repr

/-- The name of an origin. -/
def Origin.name : Origin → Text
  | primary => "primary"
  | independent => "independent"

/-- A source as selections refer to it. -/
structure SourceId where
  name : Text
  origin : Origin := .primary
  deriving DecidableEq, Repr

/-- What becomes of the selected member of an exclusive group that is selected again. -/
inductive RepeatPolicy where
  /-- It stays selected. -/
  | keep
  /-- It is deselected. -/
  | toggle
  deriving DecidableEq, Repr

/-- The name of a policy. -/
def RepeatPolicy.name : RepeatPolicy → Text
  | keep => "keep"
  | toggle => "toggle"

/-- The policy of a source that names none. -/
def Origin.policy : Origin → RepeatPolicy
  | primary => .keep
  | independent => .toggle

/-- What a source unlocks at one level. -/
structure Tier (ν : Type) where
  level : Int
  unlocks : List (Unlock ν)

/-- A source with all that it unlocks. -/
structure Source (ν : Type) where
  key : SourceId
  name : Text
  description : Text
  /-- The tiers in ascending order of their levels. -/
  tiers : List (Tier ν)
  /-- The policy that the source names, if any. -/
  repeatPolicy : Option RepeatPolicy

namespace Source

variable {ν : Type}

/-- The policy that the source names, or else that of its origin. -/
def policy (source : Source ν) : RepeatPolicy :=
  source.repeatPolicy.getD source.key.origin.policy

/-- The name of the source as it is shown. -/
def label (source : Source ν) : Text :=
  if source.name = "" then source.key.name else source.name

end Source

end CharacterBuild
