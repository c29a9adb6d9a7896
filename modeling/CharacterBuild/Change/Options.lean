import CharacterBuild.Change.Plan

set_option autoImplicit false

/-! # Choosing options

The options of a selected item are replaced as a whole, or taken and given back one by one.
Only options that the item has are kept, each once, and no more of them than its limit allows;
whenever something is left out, a reason says so. An item that is not in the catalog cannot be
checked, and its options are kept as they are given.
-/

namespace CharacterBuild

variable {ν : Type} [Number ν]

namespace Options

/-- Values without repetitions, in the order of first occurrence. -/
def distinct (options : List (Value ν)) : List (Value ν) := firstsBy Value.alike options

/-- Whether an item has an option. Only a text names one, and a value with parts cannot stand
as an id. -/
def isOf (item : Item ν) (option : Value ν) : Except (Fault ν) Bool := do
  match ← option.key with
  | .text id => .ok (item.optionIds.contains id)
  | _ => .ok false

/-- The options up to a limit, if there is one, with a reason if some are left out. -/
def cut (item : Item ν) (id : Text) (options : List (Value ν)) :
    Traced ν (List (Value ν) × Option (Reason ν)) :=
  match item.optionLimit with
  | some limit =>
    if limit < options.length then do
      Traced.note (.optionsCut options.length id limit)
      pure (options.take limit, some (.optionsCut limit item.label))
    else pure (options, none)
  | none => pure (options, none)

/-- The options that are kept of those asked for, with a reason if some are cut off. -/
def clean (item : Option (Item ν)) (id : Text) (asked : Value ν) :
    Traced ν (List (Value ν) × Option (Reason ν)) := do
  let options := distinct (← Traced.lift asked.elements)
  match item with
  | none => do
    Traced.note (.optionsUnchecked id)
    pure (options, none)
  | some item => do
    let marked ← Traced.lift (options.mapM fun o => do .ok (o, ← isOf item o))
    let unknown := (marked.filter fun m => !m.2).map Prod.fst
    if !unknown.isEmpty then Traced.note (.optionsUnknown unknown id)
    cut item id ((marked.filter fun m => m.2).map Prod.fst)

end Options

namespace Plan

/-- Set the options of the selection of an item from a source. -/
def withOptions (state : Build ν) (item : Text) (source : SourceId)
    (options : List (Value ν)) (note : Note ν) (reason : Option (Reason ν)) : Plan ν :=
  selections state (state.modify item source fun x => { x with options := options }).selections
    note reason

/-- Replace the options of a selected item. -/
def replaceOptions (index : Index ν) (state : Build ν) (item : Text)
    (source : SourceId) (asked : Value ν) : Traced ν (Plan ν) :=
  match state.selection? item (some source) with
  | none => pure nothing
  | some x =>
    if x.locked then pure (refuse .settled)
    else do
      let (options, reason) ← Options.clean (index.item? item) item asked
      if Value.alikeItems options x.options then pure (.keep reason)
      else
        pure (withOptions state item source options (.optionsSet item source.name options) reason)

/-- Take an option of a selected item. If the item may have one option only, the new one
replaces the old. -/
def takeOption (index : Index ν) (state : Build ν) (itemId : Text) (source : SourceId)
    (option : Text) : Plan ν :=
  match state.selection? itemId (some source), index.item? itemId with
  | some x, some item =>
    if x.locked then refuse .settled
    else if !item.optionIds.contains option then refuse (.notAnOption option item.label)
    else if (Value.text option).isIn x.options then nothing
    else
      let note := .optionChosen option itemId source.name
      match item.optionLimit with
      | some limit =>
        if limit = 1 then withOptions state itemId source [.text option] note none
        else if limit ≤ x.options.length then refuse (.optionsFull limit item.label)
        else withOptions state itemId source (x.options ++ [.text option]) note none
      | none => withOptions state itemId source (x.options ++ [.text option]) note none
  | _, _ => refuse .selectFirst

/-- Give back an option of a selected item. -/
def dropOption (state : Build ν) (item : Text) (source : SourceId) (option : Text) :
    Plan ν :=
  match state.selection? item (some source) with
  | none => nothing
  | some x =>
    if !(Value.text option).isIn x.options then nothing
    else if x.locked then refuse .settled
    else
      withOptions state item source (x.options.filter fun o => !o.same (.text option))
        (.optionRemoved option item source.name) none

end Plan

end CharacterBuild
