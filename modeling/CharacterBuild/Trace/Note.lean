import CharacterBuild.Trace.Fault
import CharacterBuild.Trace.Reason

set_option autoImplicit false

/-! # Notes

What an operation notes down while it runs: entries it skips, names it does not know, changes
it made. A note has a severity and a wording. How a fault is named inside a note is left to the
reader of the log.
-/

namespace CharacterBuild

/-- How much a note matters. -/
inductive Severity where
  | debug
  | info
  | warning
  deriving DecidableEq, Repr

/-- The name of a severity in a log. -/
def Severity.name : Severity → Text
  | debug => "DEBUG"
  | info => "INFO"
  | warning => "WARNING"

/-- The place of a severity in their order. -/
def Severity.rank : Severity → Nat
  | debug => 0
  | info => 1
  | warning => 2

/-- The part of a catalog in which an object was expected. -/
inductive Part where
  | sources
  | items
  | rewards
  | rewardAttributes
  | pointPool (unlock : Text)
  deriving DecidableEq, Repr

/-- The name of a part. -/
def Part.name : Part → Text
  | sources => "sources"
  | items => "items"
  | rewards => "rewards"
  | rewardAttributes => "reward attributes"
  | pointPool unlock => "point pool of " ++ Text.quoted unlock

/-- One thing that was noted down. -/
inductive Note (ν : Type) where
  /-- A part of the catalog is not an object and counts as empty. -/
  | partIgnored (part : Part) (kind : Text)
  /-- An item is not an object. -/
  | itemNotObject (id kind : Text)
  /-- An item is skipped. -/
  | itemSkipped (id : Text) (fault : Fault ν)
  /-- A group of a point pool is skipped. -/
  | pointGroupSkipped (unlock : Text) (fault : Fault ν)
  /-- An unlock is skipped. -/
  | unlockSkipped (source : Text) (level : Int) (fault : Fault ν)
  /-- What a source unlocks at a level is skipped. -/
  | tierSkipped (source : Text) (fault : Fault ν)
  /-- A source is not an object. -/
  | sourceNotObject (name : Text)
  /-- A source is skipped. -/
  | sourceSkipped (name : Text) (fault : Fault ν)
  /-- The catalog was read. -/
  | catalogRead (sources items : Nat)
  /-- A saved selection is skipped. -/
  | selectionSkipped (raw : Value ν) (fault : Fault ν)
  /-- A saved selection names a source that the catalog lacks. -/
  | selectionSourceUnknown (item source : Text)
  /-- The quantity of a saved selection cannot be read. -/
  | selectionQuantityBad (item : Text) (fault : Fault ν)
  /-- A saved inventory entry is skipped. -/
  | entrySkipped (raw : Value ν)
  /-- The quantity of a saved inventory entry cannot be read. -/
  | entryQuantityBad (id : Value ν) (fault : Fault ν)
  /-- Two groups of a source have one id. -/
  | groupRepeated (group source : Text) (level kept : Int)
  /-- A source is not in the catalog. -/
  | sourceUnknown (name : Text)
  /-- A group is not in the catalog. -/
  | groupUnknown (group : Value ν) (source : Text)
  /-- A selected item without a catalog entry costs nothing. -/
  | costUnknown (item : Text)
  /-- Selections were removed because the level dropped. -/
  | levelPruned (old new : Level ν) (items : List Text)
  /-- A settled selection is left out because its item has one already. -/
  | settledRepeated (item source : Text)
  /-- A build was restored. -/
  | restored (selections : Nat) (level : Level ν)
  /-- An item is owned by another source. -/
  | ownedElsewhere (item source owner : Text)
  /-- A member of an exclusive group stays. -/
  | memberKept (item group : Text)
  /-- A group does not list an item. -/
  | notOffered (item group source : Text)
  /-- A member of an exclusive group was replaced. -/
  | replaced (old new group : Text)
  /-- An item was selected. -/
  | selected (item source : Text) (group : Value ν)
  /-- An item was deselected. -/
  | deselected (item source : Text)
  /-- A selection was updated. -/
  | updated (item source : Text) (changes : Value ν)
  /-- The options of an item were replaced. -/
  | optionsSet (item source : Text) (options : List (Value ν))
  /-- An option was chosen. -/
  | optionChosen (option item source : Text)
  /-- An option was taken back. -/
  | optionRemoved (option item source : Text)
  /-- The options of an item without a catalog entry are kept as they are. -/
  | optionsUnchecked (item : Text)
  /-- Options that the item does not have are dropped. -/
  | optionsUnknown (options : List (Value ν)) (item : Text)
  /-- Options beyond the item's limit are dropped. -/
  | optionsCut (count : Nat) (item : Text) (limit : Nat)
  /-- A field was set. -/
  | fieldSet (name : Text)
  /-- The target level was set. -/
  | levelSet (old : Level ν) (new : Int)
  /-- An item that has to be chosen is not in the catalog. -/
  | forcedUnknown (item unlock : Text)
  /-- An item is not in the catalog. -/
  | itemUnknown (id : Text)
  /-- A selection was refused. -/
  | refused (item source : Text) (reason : Reason ν)
  /-- No point pool belongs to an id. -/
  | poolUnknown (unlock : Text)
  /-- A page is neither a source nor one of the fixed pages. -/
  | pageUnknown (page : Text)
  /-- An inventory entry without a catalog entry is dropped. -/
  | inventoryUnknown (id : Value ν)
  /-- A selection without a catalog entry is left out of the result. -/
  | selectionUnknown (item : Text)
  /-- An item is of a type that the result has no place for. -/
  | uncategorised (item itemType : Text)
  /-- The result was put together. -/
  | assembled (level : Level ν) (selections : Nat)

namespace Note

variable {ν : Type}

/-- How much a note matters. -/
def severity : Note ν → Severity
  | catalogRead .. | ownedElsewhere .. | memberKept .. | fieldSet .. | refused ..
  | uncategorised .. | assembled .. => .debug
  | levelPruned .. | restored .. | replaced .. | selected .. | deselected .. | updated ..
  | optionsSet .. | optionChosen .. | optionRemoved .. | levelSet .. => .info
  | _ => .warning

variable [Number ν]

/-- The wording of a note; `describe` names the faults in it. -/
def message (describe : Fault ν → Text) : Note ν → Text
  | partIgnored part kind => "Ignoring " ++ part.name ++ ": expected an object, got " ++ kind
  | itemNotObject id kind =>
    "Skipping item " ++ Text.quoted id ++ ": expected an object, got " ++ kind
  | itemSkipped id fault =>
    "Skipping malformed item " ++ Text.quoted id ++ ": " ++ describe fault
  | pointGroupSkipped unlock fault =>
    "Skipping malformed point-buy group in " ++ Text.quoted unlock ++ ": " ++ describe fault
  | unlockSkipped source level fault =>
    "Skipping malformed unlock in " ++ Text.quoted source ++ " level " ++ toString level ++
      ": " ++ describe fault
  | tierSkipped source fault =>
    "Skipping malformed level block in " ++ Text.quoted source ++ ": " ++ describe fault
  | sourceNotObject name => "Skipping source " ++ Text.quoted name ++ ": expected an object"
  | sourceSkipped name fault =>
    "Skipping malformed source " ++ Text.quoted name ++ ": " ++ describe fault
  | catalogRead sources items =>
    "Parsed " ++ toString sources ++ " source(s) and " ++ toString items ++ " item(s)"
  | selectionSkipped raw fault =>
    "Skipping malformed selection " ++ raw.shown ++ ": " ++ describe fault
  | selectionSourceUnknown item source =>
    "Selection " ++ Text.quoted item ++ " names unknown source " ++ Text.quoted source
  | selectionQuantityBad item fault =>
    "Skipping selection " ++ Text.quoted item ++ " with bad quantity: " ++ describe fault
  | entrySkipped raw => "Skipping malformed inventory entry " ++ raw.shown
  | entryQuantityBad id fault =>
    "Skipping inventory entry " ++ id.shown ++ " with bad quantity: " ++ describe fault
  | groupRepeated group source level kept =>
    "Duplicate group id " ++ Text.quoted group ++ " in source " ++ Text.quoted source ++
      " (level " ++ toString level ++ "); keeping level " ++ toString kept
  | sourceUnknown name =>
    "Unknown source " ++ Text.quoted name ++ "; treating it as a primary source"
  | groupUnknown group source =>
    "Group " ++ group.shown ++ " not found in source " ++ Text.quoted source
  | costUnknown item =>
    "Selected item " ++ Text.quoted item ++ " is missing from the catalog; costing it 0"
  | levelPruned old new items =>
    "Level " ++ old.counted ++ " -> " ++ new.counted ++ " pruned " ++ toString items.length ++
      " selection(s): " ++ Text.join ", " items
  | settledRepeated item source =>
    "Dropping duplicate committed selection " ++ Text.quoted item ++ " from " ++ source
  | restored selections level =>
    "Populated " ++ toString selections ++ " committed selection(s) at level " ++ level.counted
  | ownedElsewhere item source owner =>
    "Refusing " ++ Text.quoted item ++ " for " ++ source ++ ": owned by " ++ owner
  | memberKept item group =>
    "Re-select of " ++ Text.quoted item ++ " in exclusive group " ++ Text.quoted group ++
      " is a no-op"
  | notOffered item group source =>
    "Item " ++ Text.quoted item ++ " is not offered in group " ++ Text.quoted group ++ " of " ++
      source
  | replaced old new group =>
    "Replaced " ++ Text.quoted old ++ " with " ++ Text.quoted new ++ " in group " ++
      Text.quoted group
  | selected item source group =>
    "Selected " ++ Text.quoted item ++ " from " ++ source ++ " (group " ++ group.shown ++ ")"
  | deselected item source => "Deselected " ++ Text.quoted item ++ " from " ++ source
  | updated item source changes =>
    "Updated " ++ Text.quoted item ++ " from " ++ source ++ ": " ++ changes.shown
  | optionsSet item source options =>
    "Options of " ++ Text.quoted item ++ " from " ++ source ++ " set to " ++
      (Value.list options).shown
  | optionChosen option item source =>
    "Chose option " ++ Text.quoted option ++ " of " ++ Text.quoted item ++ " from " ++ source
  | optionRemoved option item source =>
    "Removed option " ++ Text.quoted option ++ " of " ++ Text.quoted item ++ " from " ++ source
  | optionsUnchecked item =>
    "Item " ++ Text.quoted item ++ " is missing from the catalog; keeping options unchecked"
  | optionsUnknown options item =>
    "Dropping unknown option(s) " ++ (Value.list options).shown ++ " of " ++ Text.quoted item
  | optionsCut count item limit =>
    "Clamping " ++ toString count ++ " option(s) of " ++ Text.quoted item ++ " to " ++
      toString limit
  | fieldSet name => "Field " ++ Text.quoted name ++ " updated"
  | levelSet old new => "Target level " ++ old.counted ++ " -> " ++ toString new
  | forcedUnknown item unlock =>
    "Forced choice " ++ Text.quoted item ++ " in " ++ Text.quoted unlock ++
      " is missing from the catalog"
  | itemUnknown id => "Unknown item " ++ Text.quoted id
  | refused item source reason =>
    "Rejected " ++ Text.quoted item ++ " from " ++ source ++ ": " ++ reason.text
  | poolUnknown unlock => "No point-buy unlock with id " ++ Text.quoted unlock
  | pageUnknown page => "Unknown page " ++ Text.quoted page ++ "; nothing to evaluate"
  | inventoryUnknown id =>
    "Inventory item " ++ id.shown ++ " is missing from the catalog; dropping it"
  | selectionUnknown item =>
    "Selected item " ++ Text.quoted item ++ " is missing from the catalog; skipping it"
  | uncategorised item itemType =>
    "Item " ++ Text.quoted item ++ " has type " ++ Text.quoted itemType ++
      " with no output category"
  | assembled level selections =>
    "Assembled level " ++ level.counted ++ " build with " ++ toString selections ++
      " selection(s)"

end Note

end CharacterBuild
