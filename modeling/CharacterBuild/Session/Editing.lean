import CharacterBuild.Session.Announcing

set_option autoImplicit false

/-! # Editing a build

The requests that change a build, without asking the rules first: selecting and taking back
items, their options, setting fields, restoring a build, and taking all choices that leave no
choice.
-/

namespace CharacterBuild

namespace Session

variable {ν κ : Type} [Number ν]

/-- Select an item, or take it back if it is selected. -/
def select (run : κ → Action ν κ (Answer ν)) (item : Item ν) (source : SourceId)
    (group payload : Value ν) : Action ν κ (Result ν) :=
  request run fun s state => Plan.select s.index state item source group payload

/-- Take an item back. -/
def deselect (run : κ → Action ν κ (Answer ν)) (item : Text) (source : SourceId) :
    Action ν κ (Result ν) :=
  request run fun _ state => pure (Plan.deselect state item source)

/-- Change the quantity of a selected item, or whether it is equipped. -/
def update (run : κ → Action ν κ (Answer ν)) (item : Text) (source : SourceId)
    (changes : Value ν) : Action ν κ (Result ν) := do
  Action.lift (Traced.lift (Plan.checkChanges changes))
  request run fun s state => Traced.lift (Plan.update s.index state item source changes)

/-- Replace the options of a selected item. -/
def replaceOptions (run : κ → Action ν κ (Answer ν)) (item : Text) (source : SourceId)
    (options : Value ν) : Action ν κ (Result ν) :=
  request run fun s state => Plan.replaceOptions s.index state item source options

/-- Take an option of a selected item. -/
def takeOption (run : κ → Action ν κ (Answer ν)) (item : Text) (source : SourceId)
    (option : Text) : Action ν κ (Result ν) :=
  request run fun s state => pure (Plan.takeOption s.index state item source option)

/-- Give back an option of a selected item. -/
def dropOption (run : κ → Action ν κ (Answer ν)) (item : Text) (source : SourceId)
    (option : Text) : Action ν κ (Result ν) :=
  request run fun _ state => pure (Plan.dropOption state item source option)

/-- Set a field. -/
def setField (run : κ → Action ν κ (Answer ν)) (name : Text) (value : Value ν) :
    Action ν κ (Result ν) := do
  Action.lift (Traced.lift (Plan.checkField name))
  request run fun s state => Plan.setField s.index s.config state name value

/-- Restore a build, before any other change. -/
def restore (run : κ → Action ν κ (Answer ν)) (saved : List (Selection ν)) (r : Restored ν) :
    Action ν κ Unit := do
  let s ← Action.session
  if s.changed then Action.fail .restoredLate
  else do
    let level ← Action.lift (Traced.lift (Plan.restoredLevel s.config r.level))
    let _ ← request run fun _ state => Plan.restore state level saved r
    pure ()

/-- The choices that have to be taken as a whole, as pairs of an item and a choice. -/
def forcedChoices (index : Index ν) (state : Build ν) (source : Text) :
    List (Text × Text) :=
  (index.unlocks source state.settledUpTo (some state.targetLevel)).flatMap fun u =>
    match u.2.choice? with
    | some choice =>
      if !choice.items.isEmpty && choice.givenLimit = some (choice.items.length : Int) then
        choice.items.map fun item => (item, choice.id)
      else []
    | none => []

/-- The payload with which a forced item is selected. -/
def forcedPayload (config : Config) (item : Item ν) : Value ν :=
  if config.inventoryTypes.contains item.itemType then .object [("quantity", .whole 1)]
  else .object []

/-- Select one forced item, unless it is selected already. -/
def selectForced (run : κ → Action ν κ (Answer ν)) (source : SourceId)
    (forced : Text × Text) : Action ν κ (List Text) := do
  let s ← Action.session
  match s.index.item? forced.1 with
  | none => do
    Action.lift (Traced.note (.forcedUnknown forced.1 forced.2))
    pure []
  | some item =>
    if s.state.isSelected forced.1 then pure []
    else do
      let result ← select run item source (.text forced.2) (forcedPayload s.config item)
      pure (if result.changed then [forced.1] else [])

/-- Take the choices of a source that offer exactly as many items as are to be chosen. -/
def selectAllForced (run : κ → Action ν κ (Answer ν)) (source : SourceId) :
    Action ν κ (List Text) := do
  let s ← Action.session
  let selected ← (forcedChoices s.index s.state source.name).mapM (selectForced run source)
  pure selected.flatten

/-- The ids of the selected items. -/
def selectedIds : Action ν κ (List Text) := do
  let s ← Action.session
  pure (s.state.selections.map Selection.id)

end Session

end CharacterBuild
