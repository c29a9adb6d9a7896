import CharacterBuild.Change.Plan

set_option autoImplicit false

/-! # Setting fields

The target level, the attributes, the inventory and the information on a build are set as a
whole, and so is any field without a meaning of its own. Setting a field to what it holds
changes nothing. A lower target level also prunes the selections.
-/

namespace CharacterBuild

variable {ν : Type} [Number ν]

namespace Plan

/-- The plan that sets a field. -/
def setting (name : Text) (state : Build ν) : Plan ν :=
  .commit ⟨name, state, .fieldSet name⟩ none

/-- The directory of the keys and values of a value, whose keys are turned into texts. -/
def textKeyed (raw : Value ν) (ofValue : Value ν → Value ν) :
    Except (Fault ν) (Directory (Atom ν) (Value ν)) := do
  let d := Directory.ofList (← raw.pairs)
  .ok (.ofList (d.entries.map fun e => (.text (Value.atom e.1).str, ofValue e.2)))

/-- Set the attributes. -/
def setAttributes (state : Build ν) (raw : Value ν) : Except (Fault ν) (Plan ν) := do
  let attributes ← textKeyed raw fun v => v
  if attributes.same Value.alike state.attributes then .ok nothing
  else .ok (setting fieldNames.attributes { state with attributes := attributes })

/-- Set the information on the build, all of it as texts. -/
def setInfo (state : Build ν) (raw : Value ν) : Except (Fault ν) (Plan ν) := do
  let info ← textKeyed raw fun v => .text v.str
  if info.same Value.alike state.info then .ok nothing
  else .ok (setting fieldNames.info { state with info := info })

/-- Whether two inventories are equal, line by line. -/
def sameInventory : List (InventoryLine ν) → List (InventoryLine ν) → Bool
  | [], [] => true
  | x :: xs, y :: ys => x.same y && sameInventory xs ys
  | _, _ => false

/-- Set the inventory to the entries that can be read. -/
def setInventory (state : Build ν) (raw : Value ν) : Traced ν (Plan ν) := do
  let inventory ← InventoryLine.readAll (← Traced.lift raw.elements)
  if sameInventory inventory state.inventory then pure nothing
  else pure (setting fieldNames.inventory { state with inventory := inventory })

/-- Set a field without a meaning of its own. -/
def setOther (state : Build ν) (name : Text) (value : Value ν) : Plan ν :=
  if (state.fields.find? name).any fun held => value.same held then nothing
  else setting name { state with fields := state.fields.insert name value }

/-- Set the target level. -/
def setLevel (index : Index ν) (config : Config) (state : Build ν) (value : Value ν) :
    Traced ν (Plan ν) :=
  match value with
  | .whole n =>
    if n < config.minLevel || config.maxLevel < n then
      pure (refuse (.levelOutside config.minLevel config.maxLevel n))
    else
      match state.settledUpTo.filter fun settled => (n : Level ν) < settled with
      | some settled => pure (refuse (.levelBelow settled))
      | none =>
        if state.targetLevel.same n then pure nothing
        else do
          let (_, pruned) ←
            Build.prune { state with targetLevel := n } index state.targetLevel
          pure (.commit ⟨fieldNames.targetLevel, pruned, .levelSet state.targetLevel n⟩ none)
  | _ => Traced.fail (.levelNotWhole value)

/-- Whether a field may be set. -/
def checkField (name : Text) : Except (Fault ν) Unit :=
  if fieldNames.guarded.contains name then .error (.fieldProtected name) else .ok ()

/-- Set a field. -/
def setField (index : Index ν) (config : Config) (state : Build ν) (name : Text)
    (value : Value ν) : Traced ν (Plan ν) :=
  if name = fieldNames.targetLevel then setLevel index config state value
  else if name = fieldNames.attributes then Traced.lift (setAttributes state value)
  else if name = fieldNames.inventory then setInventory state value
  else if name = fieldNames.info then Traced.lift (setInfo state value)
  else pure (setOther state name value)

end Plan

end CharacterBuild
