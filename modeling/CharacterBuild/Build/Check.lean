import CharacterBuild.Index

set_option autoImplicit false

/-! # Checking a state

The conditions that every state of a build has to meet: a target level of at least one, no item
selected twice, no group and no item's options beyond their limit. Settled selections count
only towards the second. The violations are listed in this order, items and groups by their
names.
-/

namespace CharacterBuild

/-- The texts of a list, each once, in ascending order. -/
def Text.sortedDistinct (l : List Text) : List Text :=
  (l.mergeSort fun a b => a ≤ b).eraseDups

namespace Build

variable {ν : Type} [Number ν]

/-- The selections that limits apply to. -/
def unlocked (s : Build ν) : List (Selection ν) := s.selections.filter fun x => !x.locked

/-- The violation of too low a target level. -/
def levelViolations (s : Build ν) : List (Violation ν) :=
  if s.targetLevel < .whole 1 then [.levelTooLow s.targetLevel] else []

/-- How often an item is selected. -/
def countOf (s : Build ν) (item : Text) : Nat :=
  s.selections.countP fun x => x.id = item

/-- The violations of items that are selected more than once. -/
def repeatViolations (s : Build ν) : List (Violation ν) :=
  (Text.sortedDistinct (s.selections.map Selection.id)).filterMap fun item =>
    if 1 < s.countOf item then some (.itemRepeated item (s.countOf item)) else none

/-- The source and group id of a selection, if the group is named by a text. -/
def groupName? (x : Selection ν) : Option (Text × Text) :=
  match x.group with
  | .text id => some (x.source.name, id)
  | _ => none

/-- How many selections that limits apply to are in a group of a source of the given name. -/
def countIn (s : Build ν) (source group : Text) : Nat :=
  s.unlocked.countP fun x => x.source.name = source && x.group.isText group

/-- The order of groups: by their sources, then by their ids. -/
def groupOrder (a b : Text × Text) : Bool :=
  if a.1 = b.1 then a.2 ≤ b.2 else a.1 ≤ b.1

/-- The groups with a selection that limits apply to, each once, in order. -/
def groupNames (s : Build ν) : List (Text × Text) :=
  ((s.unlocked.filterMap groupName?).mergeSort groupOrder).eraseDups

/-- Whether two selections of one source name their groups by values that have no order: a text
and a value that is not null. -/
def groupsClash (x y : Selection ν) : Bool :=
  x.source.name = y.source.name && (groupName? x).isSome &&
    !y.group.isNull && (groupName? y).isNone

/-- The groups can be put in order if each is named by an atom and those of one source by atoms
of one sort. -/
def groupsOrdered (s : Build ν) : Except (Fault ν) Unit := do
  let _ ← s.unlocked.mapM fun x => x.group.key
  if s.unlocked.any fun x => s.unlocked.any fun y => groupsClash x y then .error .wrongKind
  else .ok ()

/-- The violations of groups beyond their limit. -/
def groupViolations (s : Build ν) (index : Index ν) : List (Violation ν) :=
  s.groupNames.filterMap fun (source, group) =>
    match (index.groupOf? source group).bind Group.limit with
    | some limit =>
      if limit < s.countIn source group then
        some (.groupOverfull group source (s.countIn source group) limit)
      else none
    | none => none

/-- The violation of an item's options beyond their limit. -/
def optionViolation? (index : Index ν) (x : Selection ν) : Option (Violation ν) :=
  match (index.item? x.id).bind Item.optionLimit with
  | some limit =>
    if limit < x.options.length then some (.optionsOverfull x.id x.options.length limit)
    else none
  | none => none

/-- All violations of a state, or a fault if its groups cannot be put in order. -/
def violations (s : Build ν) (index : Index ν) : Except (Fault ν) (List (Violation ν)) := do
  s.groupsOrdered
  .ok (s.levelViolations ++ s.repeatViolations ++ s.groupViolations index ++
    s.unlocked.filterMap (optionViolation? index))

end Build

end CharacterBuild
