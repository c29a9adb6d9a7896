import CharacterBuild.Session.Editing
import CharacterBuild.Session.Mention

set_option autoImplicit false

/-! # Guided requests

Requests for which the rules are asked first: an item is selected, or held more often, only if
they allow it. Everything else about a build may be asked as well: what may be selected, how
its pools stand, what it lacks, and what record it makes.
-/

namespace CharacterBuild

namespace Guided

variable {ν κ : Type} [Number ν]

/-- The verdict on an item, by the given judgement if the item is known. -/
def judgeItem (s : Session ν κ) (item : ItemMention ν) (source : SourceMention)
    (judgement : Item ν → SourceId → Traced ν (Verdict ν)) : Traced ν (Verdict ν) := do
  match ← item.resolve s.index with
  | .error reason => pure (.disabled reason)
  | .ok item => do
    let key ← source.resolve s.index
    judgement item key

/-- What the rules say to selecting an item. Nothing is asked about one that is selected. -/
def admits (s : Session ν κ) (item : Item ν) (key : SourceId) (group : Value ν) :
    Traced ν (Verdict ν) :=
  match s.state.selection? item.id none with
  | some _ => pure .enabled
  | none => Rules.judge s.index s.state item key group

/-- The names that an update cannot use, since they say what is updated. -/
def updateArguments : List Text := ["self", "item_id", "source"]

/-- What the rules say to an update. They are asked only if an item is to be held more often. -/
def admitsUpdate (s : Session ν κ) (item : Text) (key : SourceId)
    (changes : Value ν) : Traced ν (Verdict ν) := do
  if ← Traced.lift (changes.has "quantity") then
    match s.index.item? item, s.state.selection? item (some key) with
    | some definition, some x => do
      let asked ← Traced.lift ((changes.member "quantity").bind Value.toWhole)
      if x.count < asked then Rules.judgeQuantity s.index s.state definition key x.group
      else pure .enabled
    | _, _ => pure .enabled
  else pure .enabled

/-- The members of an update, none of which may have a name that says what is updated. -/
def changesOf (changes : Value ν) : Except (Fault ν) Unit :=
  match changes with
  | .object ms =>
    if ms.any fun m => updateArguments.contains m.1 then .error .wrongKind else .ok ()
  | _ => .error .wrongKind

/-- The balance of a pool over all selections. -/
def balanceOf (s : Session ν κ) (unlock : PointBuy ν) : Traced ν (Balance ν) :=
  Balance.ofSelections s.index.catalog unlock s.state.selections

/-- The record of a build that lacks nothing, or the report on what it lacks. -/
def finalize (s : Session ν κ) : Traced ν (Except Text (Record ν)) := do
  let issues ← Completeness.allIssues s.index s.config s.state
  if issues.isEmpty then .ok <$> Record.assemble s.index s.state
  else .error <$> Completeness.report s.index s.config s.state

/-- A question about the build, which changes nothing. -/
def ask {α : Type} (question : Session ν κ → Traced ν α) : Action ν κ α := do
  let s ← Action.session
  Action.lift (question s)

/-- A request about a source, which is named or given. -/
def withKey {α : Type} (source : SourceMention) (request : SourceId → Action ν κ α) :
    Action ν κ α := do
  let key ← ask fun s => source.resolve s.index
  request key

/-- Select an item if the rules allow it. -/
def select (run : κ → Action ν κ (Answer ν)) (item : ItemMention ν)
    (source : SourceMention) (group payload : Value ν) : Action ν κ (Result ν) := do
  match ← ask fun s => item.resolve s.index with
  | .error reason => pure ⟨false, some reason⟩
  | .ok item => withKey source fun key => do
    match ← ask fun s => admits s item key group with
    | .disabled reason => do
      Action.lift (Traced.note (.refused item.id key.name reason))
      pure ⟨false, some reason⟩
    | .enabled => Session.select run item key group payload

/-- Update a selected item if the rules allow it. -/
def update (run : κ → Action ν κ (Answer ν)) (item : Text) (source : SourceMention)
    (changes : Value ν) : Action ν κ (Result ν) := do
  Action.lift (Traced.lift (changesOf changes))
  withKey source fun key => do
    match ← ask fun s => admitsUpdate s item key changes with
    | .disabled reason => pure ⟨false, some reason⟩
    | .enabled => Session.update run item key changes

/-- Restore a build from its saved selections. -/
def restore (run : κ → Action ν κ (Answer ν))
    (selections : List (SavedSelection ν)) (rest : Restored ν) : Action ν κ Unit := do
  let selections ← ask fun s => SavedSelection.resolveAll s.index.catalog selections
  Session.restore run selections rest

/-- The balance of the pool of an id, if there is one. -/
def balance (s : Session ν κ) (unlock : Text) : Traced ν (Option (Balance ν)) :=
  match (s.index.unlock? unlock).bind Unlock.pointBuy? with
  | some p => some <$> balanceOf s p
  | none => do
    Traced.note (.poolUnknown unlock)
    pure none

/-- The balance of the pool of an id, or a fault if there is none. -/
def requiredBalance (s : Session ν κ) (unlock : Text) :
    Traced ν (Option (Balance ν)) :=
  match (s.index.unlock? unlock).bind Unlock.pointBuy? with
  | some p => some <$> balanceOf s p
  | none => Traced.fail .notAnObject

/-- Whether a page lacks nothing, or the whole build. -/
def isDone (s : Session ν κ) : Option Text → Traced ν Bool
  | some page => Completeness.isDone s.index s.config s.state page
  | none => do pure (← Completeness.allIssues s.index s.config s.state).isEmpty

end Guided

end CharacterBuild
