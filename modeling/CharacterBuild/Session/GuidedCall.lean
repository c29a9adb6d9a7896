import CharacterBuild.Session.Guided

set_option autoImplicit false

/-! # Guided sessions

A session in which every request is a guided one. It starts with a new build, or with a given
state that is free of violations.
-/

namespace CharacterBuild

namespace Guided

variable {ν : Type} [Number ν]

/-- What can be asked of a guided session. -/
inductive Call (ν : Type) where
  | select (item : ItemMention ν) (source : SourceMention) (group payload : Value ν)
  | deselect (item : Text) (source : SourceMention)
  | update (item : Text) (source : SourceMention) (changes : Value ν)
  | replaceOptions (item : Text) (source : SourceMention) (options : Value ν)
  | takeOption (item : Text) (source : SourceMention) (option : Text)
  | dropOption (item : Text) (source : SourceMention) (option : Text)
  | setField (name : Text) (value : Value ν)
  | setLevel (level : Value ν)
  | selectAllForced (source : SourceMention)
  | restore (selections : List (SavedSelection ν)) (rest : Restored ν)
  | judge (item : ItemMention ν) (source : SourceMention) (group : Value ν)
  | judgeQuantity (item : ItemMention ν) (source : SourceMention) (group : Value ν)
  | judgeOption (item : ItemMention ν) (source : SourceMention) (option : Text)
  /-- The balance of the pool of an id. -/
  | balance (unlock : Text)
  /-- The balance of the pool of an id, which has to be in the catalog. -/
  | balanceOf (unlock : Text)
  | openPages
  /-- Whether a page is complete, or the whole build. -/
  | isDone (page : Option Text)
  | pageText (page : Text)
  | allIssues
  | report
  | assemble
  | finalize
  | config
  | sourceId (source : SourceMention)
  | contents
  | selected
  | subscribe (listener : Text) (steps : List (Step (Call ν)))
  | unsubscribe (listener : Text)
  /-- A call that cannot be made, since something that it names cannot be read. -/
  | faulty (fault : Fault ν)

/-- What a call does, if listeners run their calls by `run`. -/
def Call.runWith (run : Call ν → Action ν (Call ν) (Answer ν)) :
    Call ν → Action ν (Call ν) (Answer ν)
  | select item source group payload => .result <$> Guided.select run item source group payload
  | deselect item source =>
    .result <$> withKey source fun key => Session.deselect run item key
  | update item source changes => .result <$> Guided.update run item source changes
  | replaceOptions item source options =>
    .result <$> withKey source fun key => Session.replaceOptions run item key options
  | takeOption item source option =>
    .result <$> withKey source fun key => Session.takeOption run item key option
  | dropOption item source option =>
    .result <$> withKey source fun key => Session.dropOption run item key option
  | setField name value => .result <$> Session.setField run name value
  | setLevel level =>
    .result <$> Session.setField run fieldNames.targetLevel level
  | selectAllForced source => .names <$> withKey source (Session.selectAllForced run)
  | restore selections rest => (fun _ => .nothing) <$> Guided.restore run selections rest
  | judge item source group => .verdict <$> ask fun s =>
      judgeItem s item source fun item key => Rules.judge s.index s.state item key group
  | judgeQuantity item source group => .verdict <$> ask fun s =>
      judgeItem s item source fun item key => Rules.judgeQuantity s.index s.state item key group
  | judgeOption item source option => .verdict <$> ask fun s =>
      judgeItem s item source fun item key => pure (Rules.judgeOption s.state item key option)
  | balance unlock => .balance <$> ask fun s => Guided.balance s unlock
  | balanceOf unlock => .balance <$> ask fun s => requiredBalance s unlock
  | openPages => .names <$> ask fun s => pure (Completeness.openPages s.index s.state)
  | isDone page => .flag <$> ask fun s => Guided.isDone s page
  | pageText page => .text <$> ask fun s => Completeness.pageText s.index s.config s.state page
  | allIssues => .issues <$> ask fun s => Completeness.allIssues s.index s.config s.state
  | report => .text <$> ask fun s => Completeness.report s.index s.config s.state
  | assemble => .build <$> ask fun s => Record.assemble s.index s.state
  | finalize => .finished <$> ask Guided.finalize
  | config => .config <$> ask fun s => pure s.config
  | sourceId source => .source <$> ask fun s => source.resolve s.index
  | contents => (fun s => .contents s.index.sourceList s.index.catalog.items.keys) <$>
      Action.session
  | selected => .names <$> Session.selectedIds
  | subscribe listener steps => (fun _ => .nothing) <$> Session.subscribe listener steps
  | unsubscribe listener => (fun _ => .nothing) <$> Session.unsubscribe listener
  | faulty fault => Action.fail fault

/-- What a call of a listener does. No change is made while listeners are told, so there is
nothing to tell other listeners of. -/
def Call.runInside : Call ν → Action ν (Call ν) (Answer ν) :=
  Call.runWith fun _ => pure .nothing

/-- What a call does. -/
def Call.run : Call ν → Action ν (Call ν) (Answer ν) := Call.runWith Call.runInside

/-- A guided session on a new build, which aims for the first level. -/
def newBuild (catalog : Catalog ν) (config : Config) : Traced ν (Session ν (Call ν)) := do
  let index ← Index.make catalog
  pure { index := index, config := config, state := { targetLevel := .whole config.minLevel } }

/-- A guided session on a given state, which has to be free of violations. -/
def ofState (state : Build ν) (catalog : Catalog ν) (config : Config) :
    Traced ν (Session ν (Call ν)) := do
  let fresh ← newBuild catalog config
  let problems ← Traced.lift (state.violations fresh.index)
  if problems.isEmpty then pure { fresh with state := state }
  else Traced.fail (.violated problems)

end Guided

/-- Something that is done in a guided session. -/
abbrev GuidedAction (ν : Type) [Number ν] (α : Type) : Type := Action ν (Guided.Call ν) α

end CharacterBuild
