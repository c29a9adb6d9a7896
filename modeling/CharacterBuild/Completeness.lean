import CharacterBuild.Build.Config
import CharacterBuild.Points
import CharacterBuild.Value.Order

set_option autoImplicit false

/-! # Completion

What a build still lacks, page by page. Every source has a page, and so have the attributes and
the information on the build. Only what is unlocked up to the target level counts, and of a
restored build only what lies above the level at which it was restored.
-/

namespace CharacterBuild

/-- What is missing on a page. -/
inductive Lack (ν : Type) where
  /-- Items have to be chosen. -/
  | items (unlock : Text) (level : Int) (count : Nat)
  /-- Options of an item have to be chosen. -/
  | options (item : Text) (count : Nat)
  /-- More points are spent than there are. -/
  | points (pool : Text) (amount : Amount ν)
  /-- Attributes have no value. -/
  | attributes (names : List Text)
  /-- Attributes have values that are not to be had. -/
  | values (extra : List (Atom ν))
  /-- The build has no name. -/
  | name
  deriving Repr

namespace Lack

variable {ν : Type}

/-- The word for what is missing. -/
def category : Lack ν → Text
  | items .. => "choice"
  | options .. => "options"
  | points .. => "points"
  | attributes _ | values _ => "attributes"
  | name => "info"

variable [Number ν]

/-- The wording of what is missing. -/
def message : Lack ν → Text
  | items unlock level count =>
    "From \"" ++ unlock ++ "\" (Lvl " ++ toString level ++ ") you must choose " ++
      toString count ++ " more item(s)."
  | options item count => "\"" ++ item ++ "\" needs " ++ toString count ++
      " more option(s) chosen."
  | points pool amount =>
    "You have overspent " ++ pool ++ " by " ++ amount.brief ++ " point(s)."
  | attributes names =>
    "Assign a value to every attribute (missing: " ++ Text.join ", " names ++ ")."
  | values extra =>
    "Attribute values are not available to assign: " ++
      Text.join ", " (extra.map fun a => (Value.atom a).str) ++ "."
  | name => "Please enter a name."

end Lack

/-- One thing that a page lacks. -/
structure Issue (ν : Type) where
  page : Text
  /-- The level that the missing thing belongs to, if it belongs to one. -/
  level : Option Int
  lack : Lack ν

namespace Completeness

variable {ν : Type} [Number ν]

/-- The page of the attributes. -/
def attributesPage : Text := "attributes"

/-- The page of the information on the build. -/
def infoPage : Text := "info"

/-- What a source unlocks that still has to be looked at. -/
def activeUnlocks (index : Index ν) (state : Build ν) (source : Text) :
    List (Int × Unlock ν) :=
  index.unlocks source state.settledUpTo (some state.targetLevel)

/-- The pages on which something is to be decided. -/
def openPages (index : Index ν) (state : Build ν) : List Text :=
  (index.sourceList.filter fun name => !(activeUnlocks index state name).isEmpty) ++
    (if state.isRestored then [] else [attributesPage, infoPage])

/-! ## The page of a source -/

/-- The items that a choice still lacks. Items that are not in the catalog cannot be chosen and
are not asked for. -/
def choiceLack? (index : Index ν) (level : Int) (choice : Choice)
    (selections : List (Selection ν)) : Option (Lack ν) :=
  match limitOf choice.givenLimit with
  | none => none
  | some limit =>
    let needed := min limit (choice.items.countP fun id => (index.item? id).isSome)
    let chosen := selections.countP fun x => x.group.isText choice.id
    if needed ≤ chosen then none else some (.items choice.name level (needed - chosen))

/-- What an unlock lacks. -/
def unlockIssue (index : Index ν) (source : Text) (selections : List (Selection ν))
    (u : Int × Unlock ν) : Traced ν (Option (Issue ν)) :=
  match u.2 with
  | .reward _ => pure none
  | .choice choice =>
    pure ((choiceLack? index u.1 choice selections).map fun l => ⟨source, some u.1, l⟩)
  | .pointBuy unlock => do
    let balance ← Balance.ofSelections index.catalog unlock selections
    if balance.current < .whole 0 then
      pure (some ⟨source, some u.1, .points balance.name balance.overspent⟩)
    else pure none

/-- Whether a level lies outside of what counts for a build. -/
def isOutside (state : Build ν) (level : Int) : Bool :=
  state.targetLevel < (level : Level ν) || state.isSettled level

/-- The options that a selection lacks. -/
def optionIssue (index : Index ν) (state : Build ν) (source : Text) (x : Selection ν) :
    Except (Fault ν) (Option (Issue ν)) :=
  if x.locked then .ok none
  else do
    let level ← index.levelOf source x.group
    match level.any (isOutside state), index.item? x.id with
    | false, some item =>
      if x.options.length < item.neededOptions then
        .ok (some ⟨source, level, .options item.label (item.neededOptions - x.options.length)⟩)
      else .ok none
    | _, _ => .ok none

/-- What the page of a source lacks: first its unlocks, then the options of its items. -/
def sourceIssues (index : Index ν) (state : Build ν) (source : Text) :
    Traced ν (List (Issue ν)) := do
  let key ← index.sourceId source
  let selections := state.selectionsOf key
  let unlocks ← (activeUnlocks index state source).mapM (unlockIssue index source selections)
  let options ← Traced.lift (selections.mapM (optionIssue index state source))
  pure ((unlocks ++ options).filterMap fun i => i)

/-! ## The fixed pages -/

/-- The attributes without a value. -/
def unassigned (config : Config) (state : Build ν) : List Text :=
  config.attributeNames.filter fun name => !state.attributes.contains (.text name)

/-- How often each of some atoms occurs, in the order of first occurrence. -/
def tally (atoms : List (Atom ν)) : Directory (Atom ν) Nat :=
  atoms.foldl (fun d a => d.insert a ((d.find? a).getD 0 + 1)) .empty

/-- The assigned values beyond those that are listed, in ascending order. -/
def unavailable (config : Config) (state : Build ν) : Except (Fault ν) (List (Atom ν)) := do
  let used ← (config.attributeNames.filterMap fun name =>
    state.attributes.find? (.text name)).mapM Value.key
  Atom.sort ((tally used).entries.flatMap fun (a, n) =>
    List.replicate
      (n - config.attributeValues.countP fun v => a.same (.number (.whole v))) a)

/-- What the page of the attributes lacks. -/
def attributeIssues (config : Config) (state : Build ν) :
    Except (Fault ν) (List (Issue ν)) := do
  if state.isRestored || config.attributeNames.isEmpty then .ok []
  else
    let missing := unassigned config state
    let extra ← if config.attributeValues.isEmpty then .ok [] else unavailable config state
    .ok ((if missing.isEmpty then [] else [⟨attributesPage, none, .attributes missing⟩]) ++
      (if extra.isEmpty then [] else [⟨attributesPage, none, .values extra⟩]))

/-- Whether the information on a build holds a name. -/
def hasName (state : Build ν) : Bool :=
  match state.info.find? (.text "name") with
  | some v => !(Text.trim v.str).isEmpty
  | none => false

/-- What the page of the information lacks. -/
def infoIssues (config : Config) (state : Build ν) : List (Issue ν) :=
  if state.isRestored || !config.requiresName || hasName state then []
  else [⟨infoPage, none, .name⟩]

/-! ## All pages -/

/-- What a page lacks. -/
def issues (index : Index ν) (config : Config) (state : Build ν) (page : Text) :
    Traced ν (List (Issue ν)) :=
  if page = attributesPage then Traced.lift (attributeIssues config state)
  else if page = infoPage then pure (infoIssues config state)
  else
    match index.source? page with
    | none => do
      Traced.note (.pageUnknown page)
      pure []
    | some _ => sourceIssues index state page

/-- Whether a page lacks nothing. -/
def isDone (index : Index ν) (config : Config) (state : Build ν) (page : Text) :
    Traced ν Bool := do
  pure (← issues index config state page).isEmpty

/-- What a page lacks, a line for each thing; empty if it lacks nothing. -/
def pageText (index : Index ν) (config : Config) (state : Build ν) (page : Text) :
    Traced ν Text := do
  pure (Text.join "\n" ((← issues index config state page).map fun i => i.lack.message))

/-- What the build lacks on all relevant pages. -/
def allIssues (index : Index ν) (config : Config) (state : Build ν) :
    Traced ν (List (Issue ν)) := do
  pure (← (openPages index state).mapM (issues index config state)).flatten

/-- What the build lacks, a block for each page that lacks something. -/
def report (index : Index ν) (config : Config) (state : Build ν) : Traced ν Text := do
  let blocks ← (openPages index state).mapM (pageText index config state)
  pure (Text.join "\n\n" (blocks.filter fun b => b ≠ ""))

end Completeness

end CharacterBuild
