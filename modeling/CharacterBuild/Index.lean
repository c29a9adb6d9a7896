import CharacterBuild.Build.Basic

set_option autoImplicit false

/-! # The index of a catalog

The index answers which group a source means by an id, at which level it opens, and what a
source unlocks between two levels. A choice is one group, and a point pool has several; both
are resolved into the same kind of group. Within a source the first group of an id counts, in
the order of levels, and further ones are noted and left out.
-/

namespace CharacterBuild

/-- What stands behind a group. -/
inductive GroupKind (ν : Type) where
  /-- The whole of a choice. -/
  | choice (choice : Choice)
  /-- One group of a point pool. -/
  | pointBuy (unlock : PointBuy ν) (group : PointGroup ν)

/-- A group of items that a source offers. -/
structure Group (ν : Type) where
  source : Text
  id : Text
  name : Text
  /-- The level at which the group opens. -/
  level : Int
  items : List Text
  /-- How many items may be selected, if there is a limit. -/
  limit : Option Nat
  kind : GroupKind ν

namespace Group

variable {ν : Type}

/-- Whether the group holds one item at most. -/
def isExclusive (g : Group ν) : Bool := g.limit = some 1

/-- Whether the group belongs to a point pool. -/
def usesPoints (g : Group ν) : Bool :=
  match g.kind with
  | .pointBuy .. => true
  | .choice _ => false

/-- The group that a choice is. -/
def ofChoice (source : Text) (level : Int) (c : Choice) : Group ν :=
  ⟨source, c.id, c.name, level, c.items, limitOf c.givenLimit, .choice c⟩

/-- A group of a point pool. -/
def ofPointGroup (source : Text) (level : Int) (p : PointBuy ν) (g : PointGroup ν) :
    Group ν :=
  ⟨source, g.id, g.name, level, g.items, limitOf g.givenLimit, .pointBuy p g⟩

/-- The groups that an unlock offers. -/
def ofUnlock (source : Text) (level : Int) : Unlock ν → List (Group ν)
  | .reward _ => []
  | .choice c => [ofChoice source level c]
  | .pointBuy p => p.groups.map (ofPointGroup source level p)

/-- The groups that come first with their id. -/
def firsts (groups : List (Group ν)) : List (Group ν) := firstsBy (fun a b => a.id = b.id) groups

/-- A note for each group that does not come first with its id. -/
def repeats : (seen : List (Group ν)) → List (Group ν) → List (Note ν)
  | _, [] => []
  | seen, g :: rest =>
    match seen.find? (·.id = g.id) with
    | some kept => .groupRepeated g.id g.source g.level kept.level :: repeats seen rest
    | none => repeats (seen ++ [g]) rest

end Group

namespace Source

variable {ν : Type}

/-- What a source unlocks, in ascending order of levels. -/
def unlocks (source : Source ν) : List (Int × Unlock ν) :=
  (Tier.sort source.tiers).flatMap fun t => t.unlocks.map fun u => (t.level, u)

/-- All groups that a source offers, in ascending order of levels. -/
def allGroups (source : Source ν) : List (Group ν) :=
  source.unlocks.flatMap fun u => Group.ofUnlock source.key.name u.1 u.2

end Source

/-- What the index keeps of a source. -/
structure IndexedSource (ν : Type) where
  source : Source ν
  /-- What the source unlocks, in ascending order of levels. -/
  unlocks : List (Int × Unlock ν)
  /-- The groups of the source, each id once. -/
  groups : List (Group ν)

/-- What the index keeps of a source. -/
def Source.indexed {ν : Type} (source : Source ν) : IndexedSource ν :=
  ⟨source, source.unlocks, Group.firsts source.allGroups⟩

/-- A catalog with its unlocks and groups in order. -/
structure Index (ν : Type) where
  catalog : Catalog ν
  /-- The sources in the order of the catalog. -/
  sources : List (IndexedSource ν) := catalog.sources.values.map Source.indexed
  /-- The index keeps nothing but what the catalog says. -/
  sources_eq : sources = catalog.sources.values.map Source.indexed := by rfl

namespace Index

variable {ν : Type}

/-- The notes on groups that are left out of the index. -/
def notesOf (catalog : Catalog ν) : List (Note ν) :=
  catalog.sources.values.flatMap fun s => Group.repeats [] s.allGroups

/-- The index of a catalog, with the notes on groups that are left out of it. -/
def make (catalog : Catalog ν) : Traced ν (Index ν) :=
  ⟨notesOf catalog, .ok { catalog := catalog }⟩

/-! ## Sources -/

/-- What the index keeps of the source of a name. -/
def entry? (index : Index ν) (name : Text) : Option (IndexedSource ν) :=
  index.sources.find? (·.source.key.name = name)

/-- The source of a name. -/
def source? (index : Index ν) (name : Text) : Option (Source ν) := index.catalog.source? name

/-- The item of an id. -/
def item? (index : Index ν) (id : Text) : Option (Item ν) := index.catalog.item? id

/-- The names of all sources. -/
def sourceList (index : Index ν) : List Text := index.catalog.sources.keys

/-- The key of the source of a name; a source that the catalog lacks counts as a pillar. -/
def sourceId (index : Index ν) (name : Text) : Traced ν SourceId :=
  match index.source? name with
  | some source => pure source.key
  | none => do
    Traced.note (.sourceUnknown name)
    pure ⟨name, .primary⟩

/-- What becomes of the member of an exclusive group of a source that is selected again. -/
def policy (index : Index ν) (key : SourceId) : RepeatPolicy :=
  match index.source? key.name with
  | some source => source.policy
  | none => key.origin.policy

/-- The name of a source as it is shown. -/
def label (index : Index ν) (name : Text) : Text :=
  match index.source? name with
  | some source => source.label
  | none => name

/-! ## Groups -/

/-- The groups of a source in order. -/
def groups (index : Index ν) (source : Text) : List (Group ν) :=
  match index.entry? source with
  | some entry => entry.groups
  | none => []

/-- The groups of all sources. -/
def allGroups (index : Index ν) : List (Group ν) := index.sources.flatMap (·.groups)

/-- The group of a source with an id. -/
def groupOf? (index : Index ν) (source id : Text) : Option (Group ν) :=
  (index.groups source).find? (·.id = id)

/-- The group of a source that a value names. Only a text names one, and a value with parts
cannot stand as an id. -/
def groupNamed (index : Index ν) (source : Text) (group : Value ν) :
    Except (Fault ν) (Option (Group ν)) := do
  match ← group.key with
  | .text id => .ok (index.groupOf? source id)
  | _ => .ok none

/-- The same, with a note if a group is named that the source does not have. -/
def group (index : Index ν) (source : Text) (group : Value ν) :
    Traced ν (Option (Group ν)) := do
  let found ← Traced.lift (index.groupNamed source group)
  if found.isNone && !group.isNull then Traced.note (.groupUnknown group source)
  pure found

/-- The first group of a source that lists an item. -/
def groupListing? (index : Index ν) (source item : Text) : Option (Group ν) :=
  (index.groups source).find? (·.items.contains item)

/-- The level at which the group that a value names opens. -/
def levelOf (index : Index ν) (source : Text) (group : Value ν) :
    Except (Fault ν) (Option Int) := do
  .ok ((← index.groupNamed source group).map Group.level)

/-- The first point pool with a group of an id. -/
def poolOfGroup? (index : Index ν) (group : Text) : Option (PointBuy ν) :=
  (index.sources.flatMap fun s => s.unlocks.filterMap fun u => u.2.pointBuy?).find? fun p =>
    p.groups.any (·.id = group)

/-! ## Unlocks -/

/-- The first unlock of an id. -/
def unlock? (index : Index ν) (id : Text) : Option (Unlock ν) :=
  ((index.sources.flatMap (·.unlocks)).find? (·.2.id = id)).map Prod.snd

/-- All point pools, in the order of the sources. -/
def pointBuys (index : Index ν) : List (PointBuy ν) :=
  index.sources.flatMap fun s => s.unlocks.filterMap fun u => u.2.pointBuy?

variable [Number ν]

/-- The ids of the groups that open above a level, in any source. -/
def idsAbove (index : Index ν) (level : Level ν) : List Text :=
  (index.allGroups.filter fun g => level < (g.level : Level ν)).map Group.id

/-- Whether a level lies above one bound and up to another, where these are given. -/
def inWindow (above upTo : Option (Level ν)) (level : Int) : Bool :=
  !(match upTo with
    | some most => decide (most < (level : Level ν))
    | none => false) &&
  !(match above with
    | some least => decide ((level : Level ν) ≤ least)
    | none => false)

/-- What a source unlocks above one level and up to another, where these are given. -/
def unlocks (index : Index ν) (source : Text) (above upTo : Option (Level ν)) :
    List (Int × Unlock ν) :=
  match index.entry? source with
  | some entry => entry.unlocks.filter fun u => inWindow above upTo u.1
  | none => []

/-- The rewards of all sources up to a level. -/
def rewardsThrough (index : Index ν) (level : Level ν) : List (Text × Int × Reward ν) :=
  index.sources.flatMap fun s => s.unlocks.filterMap fun u =>
    if (u.1 : Level ν) ≤ level then u.2.reward?.map fun r => (s.source.key.name, u.1, r)
    else none

end Index

end CharacterBuild
