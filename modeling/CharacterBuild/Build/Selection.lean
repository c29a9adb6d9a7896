import CharacterBuild.Catalog.Reading

set_option autoImplicit false

/-! # Selections and inventory entries

A selection says which item was picked, from which source and in which group, with which
options and in what quantity. An inventory entry is a line that is carried along without being
selected. Both have a saved form, and both can be read from what was saved; an entry that
cannot be read is noted and left out.
-/

namespace CharacterBuild

/-- A selected item. -/
structure Selection (ν : Type) where
  id : Text
  source : SourceId
  /-- The id of the group the item was picked in, or null; kept as it was given. -/
  group : Value ν := .null
  /-- The chosen options in order. -/
  options : List (Value ν) := []
  quantity : Option Int := none
  equipped : Option Bool := none
  /-- Whether the selection was settled before the build was restored. -/
  locked : Bool := false

namespace Selection

variable {ν : Type}

/-- How often the item is held; once if nothing is said. -/
def count (s : Selection ν) : Int := s.quantity.getD 1

/-- Whether the selection is the item's and, if a source is given, made from it. -/
def isOf (item : Text) (source : Option SourceId) (s : Selection ν) : Bool :=
  s.id = item && (match source with
    | some key => s.source = key
    | none => true)

/-- Whether the selection was made from a source in a group of it. -/
def isIn (source : SourceId) (group : Text) (s : Selection ν) : Bool :=
  s.source = source && s.group.isText group

/-- The members that a saved entry has for an optional value. -/
def savedMember (name : Text) (v : Option (Value ν)) : Members ν :=
  match v with
  | some v => [(name, v)]
  | none => []

/-- The saved form of a selection; what is not set is left out. -/
def saved (s : Selection ν) : Members ν :=
  ("id", .text s.id) :: ("source", .text s.source.name) ::
    (savedMember "groupId" (if s.group.isNull then none else some s.group) ++
      savedMember "selections" (if s.options.isEmpty then none else some (.list s.options)) ++
      savedMember "quantity" (s.quantity.map .whole) ++
      savedMember "equipped" (s.equipped.map .bool))

variable [Number ν]

/-- A selection from its saved form. The source is looked up by its name, and one that the
catalog lacks counts as a pillar of the build. -/
def read (catalog : Catalog ν) (raw : Value ν) : Traced ν (Option (Selection ν)) :=
  match (do .ok (← raw.member "id", ← raw.member "source", ← raw.members) :
      Except (Fault ν) (Value ν × Value ν × Members ν)) with
  | .error fault => do
    Traced.note (.selectionSkipped raw fault)
    pure none
  | .ok (id, source, ms) => do
    let key ←
      match catalog.source? source.str with
      | some definition => pure definition.key
      | none => do
        Traced.note (.selectionSourceUnknown id.str source.str)
        pure ⟨source.str, .primary⟩
    let build (quantity : Option Int) : Option (Selection ν) := some {
      id := id.str
      source := key
      group := Value.memberOrNull "groupId" ms
      options := ((Value.memberOrNull "selections" ms).texts).map .text
      quantity := quantity
      equipped := (Value.memberOrNull "equipped" ms).toFlag? }
    (build <$> Traced.lift (Value.memberOrNull "quantity" ms).toWhole?).orSkip fun fault => do
      Traced.note (.selectionQuantityBad id.str fault)
      pure none

end Selection

/-- A line of the inventory. -/
structure InventoryLine (ν : Type) where
  id : Text
  quantity : Int := 1
  /-- Where the entry comes from, or null; kept as it was given. -/
  source : Value ν := .null
  equipped : Option Bool := none

namespace InventoryLine

variable {ν : Type}

/-- The saved form of an entry; what is not set is left out. -/
def saved (e : InventoryLine ν) : Members ν :=
  ("id", .text e.id) :: ("quantity", .whole e.quantity) ::
    (Selection.savedMember "source" (if e.source.isNull then none else some e.source) ++
      Selection.savedMember "equipped" (e.equipped.map .bool))

variable [Number ν]

/-- Equality of entries as data. -/
def same (a b : InventoryLine ν) : Bool :=
  a.id = b.id && a.quantity = b.quantity && a.source.alike b.source && a.equipped = b.equipped

/-- An entry from its saved form; an absent or empty quantity is one. -/
def read (raw : Value ν) : Traced ν (Option (InventoryLine ν)) :=
  match raw with
  | .object ms =>
    match Value.lookup "id" ms with
    | none => do
      Traced.note (.entrySkipped raw)
      pure none
    | some id =>
      let build (quantity : Int) : Option (InventoryLine ν) := some {
        id := id.str
        quantity := quantity
        source := Value.memberOrNull "source" ms
        equipped := (Value.memberOrNull "equipped" ms).toFlag? }
      (build <$> Traced.lift
          ((Value.memberOrNull "quantity" ms).orElse (.whole 1)).toWhole).orSkip fun fault => do
        Traced.note (.entryQuantityBad id fault)
        pure none
  | _ => do
    Traced.note (.entrySkipped raw)
    pure none

/-- The entries that can be read from the elements of a value. -/
def readAll (raws : List (Value ν)) : Traced ν (List (InventoryLine ν)) := do
  pure ((← raws.mapM read).filterMap fun e => e)

end InventoryLine

end CharacterBuild
