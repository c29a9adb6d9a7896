import CharacterBuild.Change.Fields

set_option autoImplicit false

/-! # Restoring a build

A build that was assembled before is restored at the level it had reached. Its selections are
settled from then on, each item once, and the build is continued.
-/

namespace CharacterBuild

variable {ν : Type} [Number ν]

/-- What is restored of a build beside its selections. -/
structure Restored (ν : Type) where
  attributes : Value ν := .null
  inventory : Value ν := .null
  info : Value ν := .null
  level : Value ν := .whole 1

namespace Plan

/-- The selections that come first with their item, and a note for each other one. -/
def settle : (seen : List Text) → List (Selection ν) → Traced ν (List (Selection ν))
  | _, [] => pure []
  | seen, x :: rest =>
    if seen.contains x.id then do
      Traced.note (.settledRepeated x.id x.source.name)
      settle seen rest
    else do
      let others ← settle (x.id :: seen) rest
      pure ({ x with locked := true } :: others)

/-- The level that a build is restored at, which has to lie in the range of levels. -/
def restoredLevel (config : Config) (level : Value ν) : Except (Fault ν) (Level ν) :=
  match Level.ofValue? level with
  | none => .error .wrongKind
  | some l =>
    if l < (config.minLevel : Level ν) || (config.maxLevel : Level ν) < l then
      .error (.restoredOutside config.minLevel config.maxLevel l)
    else .ok l

/-- The directory that a value stands for, without entries if the value is absent or empty. -/
def directoryOf (raw : Value ν) : Except (Fault ν) (Directory (Atom ν) (Value ν)) := do
  .ok (.ofList (← (raw.orElse (.object [])).pairs))

/-- Restore a build with some selections at a level. -/
def restore (state : Build ν) (level : Level ν) (saved : List (Selection ν))
    (r : Restored ν) : Traced ν (Plan ν) := do
  let settled ← settle [] saved
  let attributes ← Traced.lift (directoryOf r.attributes)
  let lines ← Traced.lift (r.inventory.orElse (.list [])).elements
  let inventory ← InventoryLine.readAll lines
  let info ← Traced.lift (directoryOf r.info)
  let selections := state.selections ++ settled
  pure (.commit ⟨fieldNames.state,
    { state with
      mode := .continuation
      restoredAt := some level
      targetLevel := level
      selections := selections
      attributes := attributes
      inventory := inventory
      info := info },
    .restored selections.length level⟩ none)

end Plan

end CharacterBuild
