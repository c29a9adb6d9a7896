import CharacterBuild.Points

set_option autoImplicit false

/-! # Merging the inventory

The lines of an inventory are merged by item. An item that cannot be stacked keeps its lines as
they are. The lines of one that can are joined to a single line, which sums their quantities
and lists their sources, each once. Merged lines follow the others, in the order in which their
items first occur.
-/

namespace CharacterBuild

namespace Text

/-- The parts of a text between the code points `sep`. -/
def splitAt (sep : CodePoint) : List CodePoint → List (List CodePoint)
  | [] => [[]]
  | c :: rest =>
    if c = sep then [] :: splitAt sep rest
    else
      match splitAt sep rest with
      | [] => [[c]]
      | part :: parts => (c :: part) :: parts

end Text

namespace Inventory

/-- What has been merged of an item. -/
structure Stack (ν : Type) where
  quantity : Amount ν := .whole 0
  sources : List Text := []

/-- What has been merged of an inventory. -/
structure Merged (ν : Type) where
  /-- The lines that are kept as they are. -/
  kept : List (Members ν) := []
  /-- The items whose lines are joined to one. -/
  joined : Directory Text (Stack ν) := .empty

variable {ν : Type} [Number ν]

/-- The sources that a text lists between commas, without blanks around them. -/
def sourcesOf (s : Text) : List Text :=
  ((Text.splitAt ',' s.points).map fun part =>
    Text.trim ⟨part⟩).filter fun part => !part.isEmpty

/-- The sources with those added that are not among them. -/
def addSources (sources added : List Text) : List Text :=
  added.foldl (addNew fun a b => a = b) sources

/-- The stack with a line added. An absent or empty quantity is one. -/
def Stack.add (stack : Stack ν) (line : Members ν) : Except (Fault ν) (Stack ν) := do
  let quantity ← ((Value.memberOrNull "quantity" line).orElse (.whole 1)).toAmount
  let sum ← Amount.orTooLarge (stack.quantity.add? quantity)
  let source := ((Value.memberOrNull "source" line).orElse (.text "")).str
  .ok ⟨sum, addSources stack.sources (sourcesOf source)⟩

/-- The line of a stack. -/
def Stack.line (item : Text) (stack : Stack ν) : Members ν :=
  [("id", .text item), ("quantity", .number stack.quantity), ("equipped", .bool true),
   ("source", .text (Text.join ", " stack.sources))]

/-- The item of the catalog that a value names. -/
def itemOf (catalog : Catalog ν) (id : Value ν) : Except (Fault ν) (Option (Item ν)) := do
  match ← id.key with
  | .text name => .ok (catalog.item? name)
  | _ => .ok none

/-- What has been merged with a line added. A line without a catalog entry is dropped. -/
def Merged.add (catalog : Catalog ν) (merged : Merged ν) (line : Members ν) :
    Traced ν (Merged ν) := do
  let id ← Traced.lift ((Value.object line).member "id")
  match ← Traced.lift (itemOf catalog id) with
  | none => do
    Traced.note (.inventoryUnknown id)
    pure merged
  | some item =>
    if item.stackable then do
      let stack ← Traced.lift (((merged.joined.find? id.str).getD {}).add line)
      pure { merged with joined := merged.joined.insert id.str stack }
    else pure { merged with kept := merged.kept ++ [line] }

/-- All lines of what has been merged. -/
def Merged.lines (merged : Merged ν) : List (Members ν) :=
  merged.kept ++ merged.joined.entries.map fun (item, stack) => stack.line item

/-- The lines of an inventory, merged by item. -/
def merge (catalog : Catalog ν) (lines : List (Members ν)) : Traced ν (List (Members ν)) := do
  let merged ← lines.foldlM (Merged.add catalog) {}
  pure merged.lines

end Inventory

end CharacterBuild
