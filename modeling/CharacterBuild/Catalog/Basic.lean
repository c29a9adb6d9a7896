import CharacterBuild.Catalog.Source

set_option autoImplicit false

/-! # Catalogs

A catalog holds everything that a build can be made from: the sources by their names and the
items by their ids. Each is entered under the name that it carries itself.
-/

namespace CharacterBuild

theorem sources_named_empty {ν : Type} :
    ∀ e ∈ (Directory.empty : Directory Text (Source ν)).entries, e.2.key.name = e.1 := by
  simp [Directory.empty]

theorem items_named_empty {ν : Type} :
    ∀ e ∈ (Directory.empty : Directory Text (Item ν)).entries, e.2.id = e.1 := by
  simp [Directory.empty]

/-- All sources and items. -/
structure Catalog (ν : Type) where
  sources : Directory Text (Source ν) := .empty
  items : Directory Text (Item ν) := .empty
  /-- Every source is entered under the name of its key. -/
  sources_named : ∀ e ∈ sources.entries, e.2.key.name = e.1 := by exact sources_named_empty
  /-- Every item is entered under its id. -/
  items_named : ∀ e ∈ items.entries, e.2.id = e.1 := by exact items_named_empty

namespace Catalog

variable {ν : Type}

/-- Entering a value under a name that it carries keeps every entry under such a name. -/
theorem named_put {β : Type} (nameOf : β → Text) {v : β} {l : List (Text × β)}
    (h : ∀ e ∈ l, nameOf e.2 = e.1) :
    ∀ e ∈ Directory.put (nameOf v) v l, nameOf e.2 = e.1 := by
  induction l with
  | nil => simp [Directory.put]
  | cons a rest ih =>
    intro e he
    unfold Directory.put at he
    split at he
    · rename_i hk
      rcases List.mem_cons.1 he with rfl | he
      · exact (eq_of_beq hk).symm
      · exact h e (by simp [he])
    · rcases List.mem_cons.1 he with rfl | he
      · exact h _ (by simp)
      · exact ih (fun e he => h e (by simp [he])) e he

/-- The catalog with a source entered under its name. -/
def addSource (c : Catalog ν) (source : Source ν) : Catalog ν where
  sources := c.sources.insert source.key.name source
  items := c.items
  sources_named := named_put (fun s : Source ν => s.key.name) c.sources_named
  items_named := c.items_named

/-- The catalog with an item entered under its id. -/
def addItem (c : Catalog ν) (item : Item ν) : Catalog ν where
  sources := c.sources
  items := c.items.insert item.id item
  sources_named := c.sources_named
  items_named := named_put Item.id c.items_named

/-- The source of a name. -/
def source? (c : Catalog ν) (name : Text) : Option (Source ν) := c.sources.find? name

/-- The item of an id. -/
def item? (c : Catalog ν) (id : Text) : Option (Item ν) := c.items.find? id

end Catalog

end CharacterBuild
