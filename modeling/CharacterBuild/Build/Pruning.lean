import CharacterBuild.Index

set_option autoImplicit false

/-! # Pruning

When the target level of a build drops, the selections in groups that open above the new level
are removed. Raising the level again does not bring them back.
-/

namespace CharacterBuild

namespace Build

variable {ν : Type} [Number ν]

/-- Whether the group of a selection is one of those given by their ids. A value with parts
cannot stand as an id. -/
def isStale (stale : List Text) (x : Selection ν) : Except (Fault ν) Bool := do
  match ← x.group.key with
  | .text id => .ok (stale.contains id)
  | _ => .ok false

/-- The selections with and without a mark, each in order. -/
def split (marked : List (Selection ν × Bool)) : List (Selection ν) × List (Selection ν) :=
  ((marked.filter fun m => m.2).map Prod.fst, (marked.filter fun m => !m.2).map Prod.fst)

/-- The selections that a drop from a level to the target level removes, and the state without
them. -/
def prune (s : Build ν) (index : Index ν) (old : Level ν) :
    Traced ν (List (Selection ν) × Build ν) := do
  if old ≤ s.targetLevel then pure ([], s)
  else
    let stale := index.idsAbove s.targetLevel
    if stale.isEmpty then pure ([], s)
    else
      let marked ← Traced.lift (s.selections.mapM fun x => do .ok (x, ← isStale stale x))
      let (removed, kept) := split marked
      if !removed.isEmpty then
        Traced.note (.levelPruned old s.targetLevel (removed.map Selection.id))
      pure (removed, { s with selections := kept })

end Build

end CharacterBuild
