import CharacterBuild.Build.Inventory

set_option autoImplicit false

/-! # Assembling a build

The record that is made of a finished build. Selections are sorted into categories by the types
of their items, the inventory is merged, and the rewards up to the target level are added to
the attributes and to the health. Whether the build is complete is not asked.
-/

namespace CharacterBuild

/-- A list of the record that selections are sorted into. -/
inductive Category where
  | abilities
  | perks
  | flaws
  | communities
  | relationships
  | inventory
  deriving DecidableEq, Repr

namespace Category

/-- All categories in the order of the record. -/
def all : List Category := [abilities, perks, flaws, communities, relationships, inventory]

/-- The name of a category in the record. -/
def name : Category → Text
  | abilities => "abilities"
  | perks => "perks"
  | flaws => "flaws"
  | communities => "communities"
  | relationships => "relationships"
  | inventory => "inventory"

/-- The types of items with the categories they belong to. -/
def ofTypes : List (Text × Category) :=
  [("ability", abilities), ("perk", perks), ("flaw", flaws), ("community", communities),
   ("relationship", relationships), ("equipment", inventory), ("loot", inventory),
   ("inventory", inventory)]

/-- The category that items of a type belong to. -/
def ofType? (itemType : Text) : Option Category :=
  (ofTypes.find? fun t => t.1 = itemType).map Prod.snd

end Category

/-- The record of a build. -/
structure Record (ν : Type) [Number ν] where
  level : Level ν
  mode : Mode
  restoredAt : Option (Level ν)
  /-- The saved forms of the selections of a category, or the merged inventory. -/
  entries : Category → List (Members ν)
  attributes : Directory (Atom ν) (Value ν)
  attributeBonuses : Directory Text (Amount ν)
  healthBonus : Amount ν
  info : Directory (Atom ν) (Value ν)
  fields : Directory Text (Value ν)

namespace Record

variable {ν : Type} [Number ν]

/-- The attribute bonuses with the attributes of one reward added. -/
def addBonuses (bonuses : Directory Text (Amount ν)) (grant : Grant ν) :
    Except (Fault ν) (Directory Text (Amount ν)) :=
  grant.attributes.entries.foldlM (fun bonuses e => do
    let sum ← Amount.orTooLarge (((bonuses.find? e.1).getD (.whole 0)).add? (.real e.2))
    .ok (bonuses.insert e.1 sum)) bonuses

/-- The attribute bonuses and the health that the rewards up to a level add up to. -/
def rewardSums (index : Index ν) (level : Level ν) :
    Except (Fault ν) (Directory Text (Amount ν) × Amount ν) :=
  (index.rewardsThrough level).foldlM (fun sums r => do
    let health ← Amount.orTooLarge (sums.2.add? (.real r.2.2.grant.health))
    let bonuses ← addBonuses sums.1 r.2.2.grant
    .ok (bonuses, health)) (.empty, .whole 0)

/-- The attributes with the bonuses added; an attribute without a value starts from zero. -/
def raisedAttributes (attributes : Directory (Atom ν) (Value ν))
    (bonuses : Directory Text (Amount ν)) :
    Except (Fault ν) (Directory (Atom ν) (Value ν)) :=
  bonuses.entries.foldlM (fun attributes e => do
    let value ← ((attributes.find? (.text e.1)).getD (.whole 0)).toAmount
    let sum ← Amount.orTooLarge (value.add? e.2)
    .ok (attributes.insert (.text e.1) (.number sum))) attributes

/-- The category that a selection belongs to, if its item has one. -/
def categoryOf? (catalog : Catalog ν) (x : Selection ν) : Option Category :=
  (catalog.item? x.id).bind fun item => Category.ofType? item.itemType

/-- The saved forms of the selections that belong to a category. -/
def entriesOf (catalog : Catalog ν) (selections : List (Selection ν)) (c : Category) :
    List (Members ν) :=
  (selections.filter fun x => categoryOf? catalog x = some c).map Selection.saved

/-- The note on a selection that belongs to no category. -/
def leftOut? (catalog : Catalog ν) (x : Selection ν) : Option (Note ν) :=
  match catalog.item? x.id with
  | none => some (.selectionUnknown x.id)
  | some item =>
    if (Category.ofType? item.itemType).isNone then some (.uncategorised x.id item.itemType)
    else none

/-- The record of a build. -/
def assemble (index : Index ν) (state : Build ν) : Traced ν (Record ν) := do
  let entries := entriesOf index.catalog state.selections
  (state.selections.filterMap (leftOut? index.catalog)).forM Traced.note
  let inventory ← Inventory.merge index.catalog
    (state.inventory.map InventoryLine.saved ++ entries .inventory)
  let (bonuses, health) ← Traced.lift (rewardSums index state.targetLevel)
  let attributes ← Traced.lift (raisedAttributes state.attributes bonuses)
  Traced.note (.assembled state.targetLevel state.selections.length)
  pure {
    level := state.targetLevel
    mode := state.mode
    restoredAt := state.restoredAt
    entries := fun c => if c = .inventory then inventory else entries c
    attributes := attributes
    attributeBonuses := bonuses
    healthBonus := health
    info := state.info
    fields := state.fields }

end Record

namespace Record

variable {ν : Type} [Number ν]

/-- The record as a value; the keys of attributes and information become names by `nameOf`. -/
def toValue (nameOf : Atom ν → Text) (b : Record ν) : Value ν :=
  let entries : Members ν := Category.all.map fun c => (c.name, .list ((b.entries c).map .object))
  let fields : Members ν :=
    [("attributes", .object (b.attributes.entries.map fun e => (nameOf e.1, e.2))),
     ("attributeBonuses", .object (b.attributeBonuses.entries.map fun e => (e.1, .number e.2))),
     ("healthBonus", .number b.healthBonus),
     ("info", .object (b.info.entries.map fun e => (nameOf e.1, e.2))),
     ("fields", .object b.fields.entries)]
  .object (("level", b.level.toValue) :: ("mode", .text b.mode.name) ::
    (Selection.savedMember "originalLevel" (b.restoredAt.map Level.toValue) ++ entries ++ fields))

end Record

end CharacterBuild
