import CharacterBuild.Index

set_option autoImplicit false

/-! # Mentions

Items may be named by their ids and sources by their names, or be given as they are. A name is
looked up in the index, and one that it lacks is noted.
-/

namespace CharacterBuild

variable {ν : Type}

/-- An item, by its id in the catalog or as a definition of its own. -/
inductive ItemMention (ν : Type) where
  | named (id : Text)
  | given (item : Item ν)

/-- A source, by its name or by its key. -/
inductive SourceMention where
  | named (name : Text)
  | given (key : SourceId)
  deriving DecidableEq, Repr

/-- A selection to restore, in its saved form or as it is. -/
inductive SavedSelection (ν : Type) where
  | saved (raw : Value ν)
  | given (selection : Selection ν)

/-- The key that a source is known by. -/
def SourceMention.resolve (index : Index ν) : SourceMention → Traced ν SourceId
  | .given key => pure key
  | .named name => index.sourceId name

/-- The item that is meant, or the reason why there is none. -/
def ItemMention.resolve (index : Index ν) : ItemMention ν → Traced ν (Except (Reason ν) (Item ν))
  | .given item => pure (.ok item)
  | .named id =>
    match index.item? id with
    | some item => pure (.ok item)
    | none => do
      Traced.note (.itemUnknown id)
      pure (.error (.unknownItem id))

variable [Number ν]

/-- The selections to restore; one that cannot be read is left out. -/
def SavedSelection.resolveAll (catalog : Catalog ν) :
    List (SavedSelection ν) → Traced ν (List (Selection ν))
  | [] => pure []
  | .given x :: rest => (x :: ·) <$> resolveAll catalog rest
  | .saved raw :: rest => do
    let x ← Selection.read catalog raw
    let others ← resolveAll catalog rest
    pure (x.toList ++ others)

end CharacterBuild
