import CharacterBuild.Session.Editing

set_option autoImplicit false

/-! # Sessions without rules

What can be asked of a session in which no rules are asked: the requests that change the build,
the selected items, and registering listeners. A listener reacts with calls of the same kind.
-/

namespace CharacterBuild

namespace Unguided

variable {ν : Type} [Number ν]

/-- What can be asked of a session without rules. -/
inductive Call (ν : Type) [Number ν] where
  | select (item : Item ν) (source : SourceId) (group payload : Value ν)
  | deselect (item : Text) (source : SourceId)
  | update (item : Text) (source : SourceId) (changes : Value ν)
  | replaceOptions (item : Text) (source : SourceId) (options : Value ν)
  | takeOption (item : Text) (source : SourceId) (option : Text)
  | dropOption (item : Text) (source : SourceId) (option : Text)
  | setField (name : Text) (value : Value ν)
  | selectAllForced (source : SourceId)
  | restore (selections : List (Selection ν)) (rest : Restored ν)
  /-- Replace the whole state, unchecked. -/
  | replace (field : Text) (state : Build ν)
  | selected
  | subscribe (listener : Text) (steps : List (Step (Call ν)))
  | unsubscribe (listener : Text)
  /-- A call that cannot be made, since something that it names cannot be read. -/
  | faulty (fault : Fault ν)

/-- What a call does, if listeners run their calls by `run`. -/
def Call.runWith (run : Call ν → Action ν (Call ν) (Answer ν)) :
    Call ν → Action ν (Call ν) (Answer ν)
  | select item source group payload =>
    .result <$> Session.select run item source group payload
  | deselect item source => .result <$> Session.deselect run item source
  | update item source changes => .result <$> Session.update run item source changes
  | replaceOptions item source options =>
    .result <$> Session.replaceOptions run item source options
  | takeOption item source option => .result <$> Session.takeOption run item source option
  | dropOption item source option => .result <$> Session.dropOption run item source option
  | setField name value => .result <$> Session.setField run name value
  | selectAllForced source => .names <$> Session.selectAllForced run source
  | restore selections rest => (fun _ => .nothing) <$> Session.restore run selections rest
  | replace field state => (fun _ => .nothing) <$> Session.replace run field state
  | selected => .names <$> Session.selectedIds
  | subscribe listener steps => (fun _ => .nothing) <$> Session.subscribe listener steps
  | unsubscribe listener => (fun _ => .nothing) <$> Session.unsubscribe listener
  | faulty fault => Action.fail fault

/-- What a call of a listener does. No change is made while listeners are told, so there is
nothing to tell other listeners of. -/
def Call.runInside : Call ν → Action ν (Call ν) (Answer ν) :=
  Call.runWith fun _ => pure .nothing

/-- What a call does. -/
def Call.run : Call ν → Action ν (Call ν) (Answer ν) := Call.runWith Call.runInside

/-- A session without rules, on a given state. -/
def start (index : Index ν) (config : Config) (state : Build ν) : Session ν (Call ν) :=
  { index := index, config := config, state := state }

end Unguided

end CharacterBuild
