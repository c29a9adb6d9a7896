import CharacterBuild.Points

set_option autoImplicit false

/-! # Rules

Whether an item may be selected now, and if not, why not. The checks run in a fixed order and
the first one that fails gives the reason: the item belongs to another source; the group does
not list it; the group is full, unless it is exclusive; the pool cannot pay for it; the group
opens above the target level, or its level is settled.
-/

namespace CharacterBuild

namespace Verdict

variable {ν : Type}

/-- Whether the choice may be made. -/
def isEnabled : Verdict ν → Bool
  | enabled => true
  | disabled _ => false

/-- The first verdict unless it is favourable, and then the second. -/
def andThen (v w : Verdict ν) : Verdict ν :=
  match v with
  | enabled => w
  | disabled reason => disabled reason

end Verdict

namespace Rules

variable {ν : Type} [Number ν]

/-- The group an item is offered in: the one that is named, or else the first one that lists
the item. -/
def resolveGroup (index : Index ν) (item : Item ν) (source : SourceId) (group : Value ν) :
    Traced ν (Option (Group ν)) :=
  if group.isNull then pure (index.groupListing? source.name item.id)
  else index.group source.name group

/-- An item belongs to the source it was selected from. -/
def ownerVerdict (index : Index ν) (state : Build ν) (item : Item ν) (source : SourceId) :
    Verdict ν :=
  match state.selection? item.id none with
  | some existing =>
    if existing.source = source then .enabled
    else .disabled (.ownedBy (index.label existing.source.name))
  | none => .enabled

/-- A group offers the items that it lists. -/
def memberVerdict (group : Option (Group ν)) (item : Item ν) : Verdict ν :=
  match group with
  | some g =>
    if g.items.contains item.id then .enabled else .disabled (.notOffered item.label g.name)
  | none => .enabled

/-- A group that is not exclusive holds as many items as its limit says. -/
def roomVerdict (state : Build ν) (group : Option (Group ν)) (item : Item ν)
    (source : SourceId) : Verdict ν :=
  match group with
  | some g =>
    match g.limit with
    | some limit =>
      if (state.selection? item.id (some source)).isSome || g.isExclusive then .enabled
      else if limit ≤ (state.membersOf source g.id).length then .disabled (.groupFull limit)
      else .enabled
    | none => .enabled
  | none => .enabled

/-- A group that spends points of a pool asks for an item's cost once. -/
def payable (index : Index ν) (state : Build ν) (item : Item ν) (g : Group ν) :
    Traced ν (Verdict ν) :=
  match g.kind with
  | .choice _ => pure .enabled
  | .pointBuy unlock group =>
    match group.effect with
    | .earn => pure .enabled
    | .spend => do
      let balance ← Balance.ofSelections index.catalog unlock state.selections
      let cost ← Traced.lift (item.cost group.costProperty)
      if balance.current < cost then
        pure (.disabled (.unaffordable cost balance.name balance.current))
      else pure .enabled

/-- An item that is not selected yet has to be paid for. -/
def costVerdict (index : Index ν) (state : Build ν) (group : Option (Group ν))
    (item : Item ν) : Traced ν (Verdict ν) :=
  match group with
  | some g => if state.isSelected item.id then pure .enabled else payable index state item g
  | none => pure .enabled

/-- A group is open up to the target level, above the level that was settled. -/
def levelVerdict (state : Build ν) (group : Option (Group ν)) (item : Item ν)
    (source : SourceId) : Verdict ν :=
  match group with
  | some g =>
    if (state.selection? item.id (some source)).isSome then .enabled
    else if state.targetLevel < (g.level : Level ν) then
      .disabled (.opensLater g.level state.targetLevel)
    else if state.isSettled g.level then .disabled (.levelSettled g.level)
    else .enabled
  | none => .enabled

/-- Whether an item may be selected from a source, in a group if one is named. -/
def judge (index : Index ν) (state : Build ν) (item : Item ν) (source : SourceId)
    (group : Value ν) : Traced ν (Verdict ν) :=
  match ownerVerdict index state item source with
  | .disabled reason => pure (.disabled reason)
  | .enabled => do
    let g ← resolveGroup index item source group
    match (memberVerdict g item).andThen (roomVerdict state g item source) with
    | .disabled reason => pure (.disabled reason)
    | .enabled => do
      let cost ← costVerdict index state g item
      pure (cost.andThen (levelVerdict state g item source))

/-- Whether an item may be held once more. Plain groups hold each item once; a pool pays for as
many as it can. -/
def judgeQuantity (index : Index ν) (state : Build ν) (item : Item ν) (source : SourceId)
    (group : Value ν) : Traced ν (Verdict ν) :=
  match state.selection? item.id (some source) with
  | none => judge index state item source group
  | some selection =>
    if !item.stackable then pure (.disabled .notStackable)
    else if selection.locked then pure (.disabled .itemSettled)
    else do
      let g ← resolveGroup index item source (selection.group.orElse group)
      match g.filter Group.usesPoints with
      | some g => payable index state item g
      | none => pure (if 1 ≤ selection.count then .disabled .singleOnly else .enabled)

/-- Whether an option of a selected item may be chosen. -/
def judgeOption (state : Build ν) (item : Item ν) (source : SourceId) (option : Text) :
    Verdict ν :=
  match state.selection? item.id (some source) with
  | none => .disabled (.selectItemFirst item.label)
  | some selection =>
    if !item.optionIds.contains option then .disabled (.notAnOption option item.label)
    else if (Value.text option).isIn selection.options then .enabled
    else if selection.locked then .disabled .itemSettled
    else
      match item.optionLimit with
      | some limit =>
        if limit ≤ selection.options.length then .disabled (.optionsFull limit item.label)
        else .enabled
      | none => .enabled

end Rules

end CharacterBuild
