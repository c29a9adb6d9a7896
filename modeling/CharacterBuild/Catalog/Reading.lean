import CharacterBuild.Catalog.Basic
import CharacterBuild.Trace.Traced

set_option autoImplicit false

/-! # Reading a catalog

A catalog is read from an object with the members `sources` and `items`. An entry that cannot
be read is noted and skipped, whatever level of the catalog it stands at, so that one bad
record never keeps the rest from being read; only a number beyond all bounds is let through as
a fault. Where an object is expected and something else stands, it counts as an empty object.
-/

namespace CharacterBuild

variable {ν α β : Type}

/-- Read every entry of a list, skipping those that cannot be read. -/
def Traced.readEach (read : α → Traced ν β) (skipped : α → Fault ν → Note ν) :
    List α → Traced ν (List β)
  | [] => pure []
  | a :: rest => do
    let found ← (some <$> read a).orSkip fun fault => do
      Traced.note (skipped a fault)
      pure none
    let others ← readEach read skipped rest
    pure (found.toList ++ others)

/-- The value of a table of words that a value names. -/
def Value.word (table : List (Text × α)) (v : Value ν) : Except (Fault ν) α :=
  match table.find? fun w => v.isText w.1 with
  | some w => .ok w.2
  | none => .error .unreadable

/-- The words for the origins. -/
def Origin.words : List (Text × Origin) :=
  [(primary.name, primary), (independent.name, independent)]

/-- The words for the policies. -/
def RepeatPolicy.words : List (Text × RepeatPolicy) :=
  [(keep.name, keep), (toggle.name, toggle)]

/-- The words for the effects on a pool. -/
def PoolEffect.words : List (Text × PoolEffect) :=
  [(earn.name, earn), (spend.name, spend)]

/-- The kinds of unlocks. -/
inductive Unlock.Kind where
  | reward
  | choice
  | pointBuy
  deriving DecidableEq, Repr

/-- The words for the kinds of unlocks. -/
def Unlock.kindWords : List (Text × Unlock.Kind) :=
  [("reward", .reward), ("choice", .choice), ("pointBuy", .pointBuy)]

variable [Number ν]

/-- The members of a part of the catalog. An absent part has none, and one that is not an
object is noted and has none either. -/
def Value.partMembers (part : Part) : Value ν → Traced ν (Members ν)
  | .object ms => pure ms
  | .null => pure []
  | v => do
    Traced.note (.partIgnored part v.kind)
    pure []

/-- The text of a member, or the given one if there is no such member. -/
def Value.textOr (name : Text) (default : Text) (ms : Members ν) : Text :=
  match Value.lookup name ms with
  | some v => v.str
  | none => default

/-- The elements of a member that may be absent or empty. -/
def Value.elementsOf (name : Text) (ms : Members ν) : Except (Fault ν) (List (Value ν)) :=
  ((Value.memberOrNull name ms).orElse (.list [])).elements

/-- The number that a member stands for, zero if it is absent or empty. -/
def Value.realOf (name : Text) (ms : Members ν) : Except (Fault ν) ν :=
  ((Value.memberOrNull name ms).orElse (.whole 0)).toReal

/-! ## Items -/

/-- An option: an object with an id and a name, or any other value that names its id. -/
def NestedOption.read : Value ν → Except (Fault ν) NestedOption
  | .object ms => do
    let id ← (Value.object ms).member "id"
    .ok ⟨id.str, Value.textOr "name" "" ms⟩
  | v => .ok ⟨v.str, ""⟩

/-- The members of an item that have a meaning of their own. -/
def Item.memberNames : List Text :=
  ["id", "name", "description", "itemType", "type", "weight", "stackable", "options",
   "maxChoices"]

/-- The cost that a member of an item is, if it is one: a number under a name of its own. -/
def Item.readProperty (m : Text × Value ν) : Except (Fault ν) (Option (Text × ν)) :=
  match m.2 with
  | .number _ =>
    if Item.memberNames.contains m.1 then .ok none
    else m.2.toReal.map fun x => some (m.1, x)
  | _ => .ok none

/-- An item, from its members. `id` is used unless a member names another one. -/
def Item.read (id : Text) (raw : Value ν) : Except (Fault ν) (Item ν) := do
  let ms ← raw.members
  let options ← (← Value.elementsOf "options" ms).mapM NestedOption.read
  let properties ← ms.mapM Item.readProperty
  let weight ← Value.realOf "weight" ms
  let givenLimit ← (Value.memberOrNull "maxChoices" ms).toWhole?
  .ok {
    id := Value.textOr "id" id ms
    itemType :=
      ((Value.memberOrNull "itemType" ms).orElse
        ((Value.memberOrNull "type" ms).orElse (.text ""))).str
    name := Value.textOr "name" "" ms
    description := Value.textOr "description" "" ms
    weight := weight
    stackable := (Value.memberOrNull "stackable" ms).isTrue
    options := options
    givenLimit := givenLimit
    properties := .ofList (properties.filterMap fun p => p) }

/-- The catalog with the items that the members of an object describe. -/
def Catalog.readItems : Catalog ν → Members ν → Traced ν (Catalog ν)
  | c, [] => pure c
  | c, (id, .object ms) :: rest => do
    let c ← (c.addItem <$> Traced.lift (Item.read id (.object ms))).orSkip fun fault => do
      Traced.note (.itemSkipped id fault)
      pure c
    readItems c rest
  | c, (id, v) :: rest => do
    Traced.note (.itemNotObject id v.kind)
    readItems c rest

/-! ## Unlocks -/

/-- The attributes that a reward grants. -/
def Grant.readAttribute (m : Text × Value ν) : Except (Fault ν) (Text × ν) :=
  m.2.toReal.map fun x => (m.1, x)

/-- What a reward grants. -/
def Grant.read (raw : Value ν) : Traced ν (Grant ν) := do
  let ms ← raw.partMembers .rewards
  let granted ← (Value.memberOrNull "attributes" ms).partMembers .rewardAttributes
  let attributes ← Traced.lift (granted.mapM Grant.readAttribute)
  let health ← Traced.lift (Value.realOf "health" ms)
  pure ⟨health, .ofList attributes⟩

/-- A group of a point pool. -/
def PointGroup.read (raw : Value ν) : Except (Fault ν) (PointGroup ν) := do
  let id ← raw.member "id"
  let ms ← raw.members
  let effect ←
    ((Value.lookup "pointModifier" ms).getD (.text PoolEffect.spend.name)).word PoolEffect.words
  let givenLimit ← (Value.memberOrNull "maxChoices" ms).toWhole?
  .ok {
    id := id.str
    name := Value.textOr "name" "" ms
    items := (Value.memberOrNull "items" ms).texts
    effect := effect
    costProperty := Value.memberOrNull "costProperty" ms
    givenLimit := givenLimit }

/-- A choice, from the members of its object. -/
def Choice.read (id name : Text) (ms : Members ν) : Except (Fault ν) Choice := do
  let givenLimit ← (Value.memberOrNull "maxChoices" ms).toWhole?
  .ok {
    id := id
    name := name
    items := (Value.memberOrNull "items" ms).texts
    givenLimit := givenLimit
    itemType := Value.textOr "itemType" "" ms }

/-- A point pool with its groups, from the members of its object. -/
def PointBuy.read (id name : Text) (ms : Members ν) : Traced ν (PointBuy ν) := do
  let pool ← (Value.memberOrNull "pointPool" ms).partMembers (.pointPool id)
  let initial ← Traced.lift (Value.realOf "initialValue" pool)
  let raws ← Traced.lift (Value.elementsOf "groups" ms)
  let groups ← Traced.readEach (fun raw => Traced.lift (PointGroup.read raw))
    (fun _ fault => .pointGroupSkipped id fault) raws
  pure {
    id := id
    name := name
    pool := ⟨Value.textOr "id" id pool, Value.textOr "name" "Points" pool, initial⟩
    groups := groups }

/-- An unlock of the kind that its `type` names. -/
def Unlock.read (raw : Value ν) : Traced ν (Unlock ν) := do
  let kind ← Traced.lift ((raw.member "type").bind (Value.word Unlock.kindWords))
  let id := (← Traced.lift (raw.member "id")).str
  let ms ← Traced.lift raw.members
  let name := Value.textOr "name" "" ms
  match kind with
  | .reward => do
    let grant ← Grant.read (Value.memberOrNull "rewards" ms)
    pure (.reward ⟨id, name, grant⟩)
  | .choice => .choice <$> Traced.lift (Choice.read id name ms)
  | .pointBuy => .pointBuy <$> PointBuy.read id name ms

/-! ## Sources -/

/-- The reward that stands for what a level grants as a whole. -/
def Tier.readBonus (source : Text) (level : Int) (ms : Members ν) :
    Traced ν (List (Unlock ν)) := do
  let raw := Value.memberOrNull "rewards" ms
  if raw.isTrue then
    let grant ← Grant.read raw
    pure [.reward ⟨source ++ "-lvl-" ++ toString level,
      "Level " ++ toString level ++ " Bonus", grant⟩]
  else pure []

/-- What a source unlocks at one level: first the level's own reward, then its unlocks. -/
def Tier.read (source : Text) (raw : Value ν) : Traced ν (Tier ν) := do
  let level ← Traced.lift ((raw.member "level").bind Value.toWhole)
  let ms ← Traced.lift raw.members
  let bonus ← Tier.readBonus source level ms
  let raws ← Traced.lift (Value.elementsOf "unlocks" ms)
  let unlocks ← Traced.readEach Unlock.read
    (fun _ fault => .unlockSkipped source level fault) raws
  pure ⟨level, bonus ++ unlocks⟩

/-- Tiers in ascending order of their levels; tiers of one level keep their order. -/
def Tier.sort (tiers : List (Tier ν)) : List (Tier ν) :=
  tiers.mergeSort fun a b => a.level ≤ b.level

/-- A source of a given name. -/
def Source.read (name : Text) (raw : Value ν) : Traced ν (Source ν) := do
  let ms ← Traced.lift raw.members
  let origin ← Traced.lift
    (((Value.lookup "origin" ms).getD (.text Origin.primary.name)).word Origin.words)
  let raws ← Traced.lift (Value.elementsOf "levels" ms)
  let tiers ← Traced.readEach (Tier.read name) (fun _ fault => .tierSkipped name fault) raws
  let policy := Value.memberOrNull "reselectPolicy" ms
  let repeatPolicy ← Traced.lift
    (if policy.isTrue then (policy.word RepeatPolicy.words).map some else .ok none)
  pure {
    key := ⟨name, origin⟩
    name := Value.textOr "name" "" ms
    description := Value.textOr "description" "" ms
    tiers := Tier.sort tiers
    repeatPolicy := repeatPolicy }

/-- The catalog with the sources that the members of an object describe. -/
def Catalog.readSources : Catalog ν → Members ν → Traced ν (Catalog ν)
  | c, [] => pure c
  | c, (name, .object ms) :: rest => do
    let c ← (c.addSource <$> Source.read name (.object ms)).orSkip fun fault => do
      Traced.note (.sourceSkipped name fault)
      pure c
    readSources c rest
  | c, (name, _) :: rest => do
    Traced.note (.sourceNotObject name)
    readSources c rest

/-- A whole catalog. -/
def Catalog.read (raw : Value ν) : Traced ν (Catalog ν) := do
  let ms ← Traced.lift raw.members
  let sources ← (Value.memberOrNull "sources" ms).partMembers .sources
  let withSources ← Catalog.readSources {} sources
  let items ← (Value.memberOrNull "items" ms).partMembers .items
  let catalog ← Catalog.readItems withSources items
  Traced.note (.catalogRead catalog.sources.size catalog.items.size)
  pure catalog

end CharacterBuild
