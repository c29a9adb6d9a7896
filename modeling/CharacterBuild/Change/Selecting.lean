import CharacterBuild.Change.Options

set_option autoImplicit false

/-! # Selecting and updating items

Selecting an item that is not selected puts it into its group, in exchange for the member if
the group is exclusive. Selecting it again takes it back, unless it is the member of an
exclusive group whose source keeps such members. A payload may set the quantity, whether the
item is equipped, and the options; an update may change the first two of a selected item.
-/

namespace CharacterBuild

variable {ν : Type} [Number ν]

namespace Plan

/-- The names that a payload may hold. -/
def payloadNames : List Text := ["quantity", "equipped", "selections"]

/-- The names that an update may hold. -/
def changeNames : List Text := ["quantity", "equipped"]

/-- The quantity that an item is held in when it is asked for in a quantity, with a reason if
it is less. -/
def heldQuantity (item : Option (Item ν)) (asked : Int) : Int × Option (Reason ν) :=
  match item with
  | some item =>
    if !item.stackable && 1 < asked then (1, some .notStackable) else (asked, none)
  | none => (asked, none)

/-- A selection with the quantity that a payload asks for. -/
def payQuantity (item : Item ν) (payload : Value ν) (x : Selection ν) :
    Except (Fault ν) (Selection ν × Option (Reason ν)) := do
  if ← payload.has "quantity" then
    let asked ← (← payload.member "quantity").toWhole
    let (quantity, reason) := heldQuantity (some item) (max 1 asked)
    .ok ({ x with quantity := some quantity }, reason)
  else .ok (x, none)

/-- A selection equipped as the payload says. -/
def payEquipped (payload : Value ν) (x : Selection ν) : Except (Fault ν) (Selection ν) := do
  if ← payload.has "equipped" then
    .ok { x with equipped := some (← payload.member "equipped").isTrue }
  else .ok x

/-- A selection with the options that the payload asks for. -/
def payOptions (item : Item ν) (payload : Value ν) (x : Selection ν) :
    Traced ν (Selection ν × Option (Reason ν)) := do
  if ← Traced.lift (payload.has "selections") then
    let asked ← Traced.lift (payload.member "selections")
    let (options, reason) ← Options.clean (some item) item.id asked
    pure ({ x with options := options }, reason)
  else pure (x, none)

/-- A selection as the payload asks for it; of several reasons the first one counts. -/
def pay (item : Item ν) (payload : Value ν) (x : Selection ν) :
    Traced ν (Selection ν × Option (Reason ν)) := do
  let unknown ← Traced.lift (unknownKeys payloadNames payload)
  if !unknown.isEmpty then Traced.fail (.payloadUnknown unknown)
  else
    let (x, quantityReason) ← Traced.lift (payQuantity item payload x)
    let x ← Traced.lift (payEquipped payload x)
    let (x, optionsReason) ← payOptions item payload x
    pure (x, quantityReason.or optionsReason)

/-- The group an item is selected in, and the id that is kept of it. -/
def groupFor (index : Index ν) (item : Item ν) (source : SourceId) (group : Value ν) :
    Traced ν (Option (Group ν) × Value ν) :=
  if group.isNull then
    match index.groupListing? source.name item.id with
    | some g => pure (some g, .text g.id)
    | none => pure (none, .null)
  else do
    let g ← index.group source.name group
    pure (g, group)

/-- Select an item that is selected already. -/
def reselect (index : Index ν) (state : Build ν) (item : Item ν) (source : SourceId)
    (group : Option (Group ν)) (existing : Selection ν) : Traced ν (Plan ν) :=
  if existing.source ≠ source then do
    let owner := index.label existing.source.name
    Traced.note (.ownedElsewhere item.id source.name owner)
    pure (refuse (.ownedBy owner))
  else
    match group with
    | some g =>
      if g.isExclusive && index.policy source = .keep then do
        Traced.note (.memberKept item.id g.id)
        pure nothing
      else pure (remove state existing)
    | none => pure (remove state existing)

/-- The selections that stay when an item is put into a group, or the reason why it cannot be
put there. -/
def makeRoom (state : Build ν) (item : Item ν) (source : SourceId) (g : Group ν) :
    Traced ν (Except (Reason ν) (List (Selection ν))) :=
  if !g.items.contains item.id then do
    Traced.note (.notOffered item.id g.id source.name)
    pure (.error (.notOffered item.label g.name))
  else if state.targetLevel < (g.level : Level ν) then
    pure (.error (.opensLater g.level state.targetLevel))
  else if state.isSettled g.level then pure (.error .settled)
  else
    let members := state.membersOf source g.id
    match g.limit with
    | none => pure (.ok state.selections)
    | some limit =>
      if g.isExclusive then
        if members.any fun m => m.locked then pure (.error .settled)
        else do
          members.forM fun m => Traced.note (.replaced m.id item.id g.id)
          pure (.ok (state.selections.filter fun x => !x.isIn source g.id))
      else if limit ≤ members.length then pure (.error (.groupFull limit))
      else pure (.ok state.selections)

/-- The same for an item that may be in no group; then all selections stay. -/
def roomFor (state : Build ν) (item : Item ν) (source : SourceId) :
    Option (Group ν) → Traced ν (Except (Reason ν) (List (Selection ν)))
  | some g => makeRoom state item source g
  | none => pure (.ok state.selections)

/-- Select an item, or take it back if it is selected. -/
def select (index : Index ν) (state : Build ν) (item : Item ν) (source : SourceId)
    (group payload : Value ν) : Traced ν (Plan ν) := do
  let (g, group) ← groupFor index item source group
  match state.selection? item.id none with
  | some existing => reselect index state item source g existing
  | none => do
    match ← roomFor state item source g with
    | .error reason => pure (refuse reason)
    | .ok others => do
      let (x, reason) ← pay item (payload.orElse (.object []))
        { id := item.id, source := source, group := group }
      pure (selections state (others ++ [x]) (.selected item.id source.name group) reason)

/-- Take an item back. -/
def deselect (state : Build ν) (item : Text) (source : SourceId) : Plan ν :=
  match state.selection? item (some source) with
  | none => nothing
  | some x => remove state x

/-- Whether the names of an update are known. -/
def checkChanges (changes : Value ν) : Except (Fault ν) Unit := do
  let unknown ← unknownKeys changeNames changes
  if unknown.isEmpty then .ok () else .error (.changesUnknown unknown)

/-- The quantity that an update asks for, if it asks for one. -/
def askedQuantity (changes : Value ν) : Except (Fault ν) (Option Int) := do
  if ← changes.has "quantity" then (← changes.member "quantity").toWhole.map some
  else .ok none

/-- Change the quantity of a selected item, or whether it is equipped. A quantity below one
takes the item back. -/
def update (index : Index ν) (state : Build ν) (item : Text) (source : SourceId)
    (changes : Value ν) : Except (Fault ν) (Plan ν) :=
  match state.selection? item (some source) with
  | none => .ok nothing
  | some x =>
    if x.locked then .ok (refuse .settled)
    else do
      let asked ← askedQuantity changes
      if asked.any fun n => n ≤ 0 then .ok (remove state x)
      else
        let held := asked.map (heldQuantity (index.item? item))
        let reason := held.bind Prod.snd
        let y ← payEquipped changes { x with quantity := (held.map Prod.fst).or x.quantity }
        if y.quantity = x.quantity && y.equipped = x.equipped then .ok (.keep reason)
        else
          .ok (selections state (state.modify item source fun _ => y).selections
            (.updated item source.name changes) reason)

end Plan

end CharacterBuild
