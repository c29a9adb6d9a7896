import CharacterBuild.Build.Check
import CharacterBuild.Build.Config
import CharacterBuild.Build.Pruning
import CharacterBuild.Value.Order

set_option autoImplicit false

/-! # Plans

A request to change a build is first turned into a plan, which touches nothing: the build stays
as it is, or it is replaced as a whole by a new state. A plan that replaces the state names the
field that changes and the note to be taken once it has changed.
-/

namespace CharacterBuild

/-- A new state of a build. -/
structure Change (ν : Type) [Number ν] where
  /-- The name of the field that changes. -/
  field : Text
  state : Build ν
  /-- What is noted once the state has changed. -/
  note : Note ν

/-- What is to become of a request to change a build. -/
inductive Plan (ν : Type) [Number ν] where
  /-- The build stays as it is. -/
  | keep (reason : Option (Reason ν))
  /-- The build changes; the reason says what is left out. -/
  | commit (change : Change ν) (reason : Option (Reason ν))

/-- The names of the fields of a build's state. -/
structure FieldNames where
  targetLevel : Text := "target_level"
  attributes : Text := "attributes"
  inventory : Text := "inventory"
  info : Text := "info"
  selections : Text := "selections"
  state : Text := "state"
  /-- The fields that are never set directly. -/
  guarded : List Text := ["mode", "original_level", "selections", "state"]

/-- The names of the fields. -/
def fieldNames : FieldNames := {}

namespace Plan

variable {ν : Type} [Number ν]

/-- The plan that changes the selections. -/
def selections (state : Build ν) (selections : List (Selection ν)) (note : Note ν)
    (reason : Option (Reason ν)) : Plan ν :=
  .commit ⟨fieldNames.selections, { state with selections := selections }, note⟩ reason

/-- Stay as it is, for a reason. -/
def refuse (reason : Reason ν) : Plan ν := .keep (some reason)

/-- Stay as it is, since there is nothing to do. -/
def nothing : Plan ν := .keep none

/-- Remove a selection, unless it is settled. -/
def remove (state : Build ν) (x : Selection ν) : Plan ν :=
  if x.locked then refuse .settled
  else
    selections state (state.selections.filter fun y => !(y.id = x.id && y.source = x.source))
      (.deselected x.id x.source.name) none

/-- The keys among some that are none of the known names, in order. -/
def unknownKeys (known : List Text) (raw : Value ν) : Except (Fault ν) (List (Atom ν)) := do
  let keys ← raw.distinctKeys
  Atom.sort (keys.filter fun k => !known.any fun name => k.same (.text name))

end Plan

end CharacterBuild
