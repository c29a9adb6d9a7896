import CharacterBuild.Build.Selection
import CharacterBuild.Proofs.Outcome

set_option autoImplicit false

/-! # Saved forms

The saved form of a selection or of a line of the inventory has one member for each part that is
set, under a name of its own. So what can be looked up in it under a name is the part of that name
(`lookup_partsSaved`), set or not.
-/

namespace CharacterBuild

variable {ν : Type}

/-! ## Parts -/

namespace Value

theorem lookup_append (name : Text) (ms ns : Members ν) :
    lookup name (ms ++ ns) = (lookup name ms).or (lookup name ns) := by
  unfold lookup
  rw [List.find?_append]
  cases ms.find? fun m => m.1 = name <;> rfl

theorem lookup_savedMember (name name' : Text) (v : Option (Value ν)) :
    lookup name (Selection.savedMember name' v) = if name' = name then v else none := by
  cases v <;> simp [Selection.savedMember, lookup, List.find?_cons]
  split <;> simp_all

end Value

/-- The members for those of some named parts that are set. -/
def partsSaved (parts : List (Text × Option (Value ν))) : Members ν :=
  parts.flatMap fun p => Selection.savedMember p.1 p.2

/-- **Under a name stands the part of that name.** -/
theorem lookup_partsSaved {parts : List (Text × Option (Value ν))}
    (hdistinct : (parts.map Prod.fst).Nodup) {name : Text} {v : Option (Value ν)}
    (h : (name, v) ∈ parts) : Value.lookup name (partsSaved parts) = v := by
  have hnone : ∀ others : List (Text × Option (Value ν)), name ∉ others.map Prod.fst →
      Value.lookup name (partsSaved others) = none := by
    intro others
    induction others with
    | nil => exact fun _ => rfl
    | cons p rest ih =>
        intro hp
        rw [List.map_cons, List.mem_cons, not_or] at hp
        rw [partsSaved, List.flatMap_cons, Value.lookup_append, Value.lookup_savedMember,
          if_neg (Ne.symm hp.1), Option.none_or]
        exact ih hp.2
  induction parts with
  | nil => cases h
  | cons p rest ih =>
      rw [List.map_cons, List.nodup_cons] at hdistinct
      rw [partsSaved, List.flatMap_cons, Value.lookup_append, Value.lookup_savedMember]
      rcases List.mem_cons.mp h with rfl | h
      · -- the name stands nowhere else
        rw [if_pos rfl]
        cases v with
        | some v => rfl
        | none => exact hnone rest hdistinct.1
      · have hne : p.1 ≠ name := fun heq => hdistinct.1 (List.mem_map.mpr ⟨_, h, heq.symm⟩)
        rw [if_neg hne, Option.none_or]
        exact ih hdistinct.2 h

/-- A part that is set unless it is null. -/
def unlessNull (v : Value ν) : Option (Value ν) := if v.isNull then none else some v

theorem memberOrNull_of_lookup {name : Text} {ms : Members ν} {v : Value ν}
    (h : Value.lookup name ms = unlessNull v) : Value.memberOrNull name ms = v := by
  rw [Value.memberOrNull, h, unlessNull]
  split
  · rename_i hnull
    exact (Value.isNull_iff.mp hnull).symm
  · rfl

/-! ## Selections -/

namespace Selection

variable (x : Selection ν)

/-- The parts of a selection. -/
def parts : List (Text × Option (Value ν)) :=
  [("id", some (.text x.id)), ("source", some (.text x.source.name)),
   ("groupId", unlessNull x.group),
   ("selections", if x.options.isEmpty then none else some (.list x.options)),
   ("quantity", x.quantity.map .whole), ("equipped", x.equipped.map .bool)]

theorem saved_eq_parts : x.saved = partsSaved x.parts := by
  simp [saved, partsSaved, parts, savedMember, unlessNull]

theorem lookup_saved {name : Text} {v : Option (Value ν)} (h : (name, v) ∈ x.parts) :
    Value.lookup name x.saved = v := by
  rw [saved_eq_parts]
  exact lookup_partsSaved (by simp only [parts, List.map_cons, List.map_nil]; decide) h

theorem memberOrNull_saved_group : Value.memberOrNull "groupId" x.saved = x.group :=
  memberOrNull_of_lookup (x.lookup_saved (by simp [parts]))

end Selection

/-! ## Lines of the inventory -/

namespace InventoryLine

variable (e : InventoryLine ν)

/-- The parts of a line. -/
def parts : List (Text × Option (Value ν)) :=
  [("id", some (.text e.id)), ("quantity", some (.whole e.quantity)),
   ("source", unlessNull e.source), ("equipped", e.equipped.map .bool)]

theorem saved_eq_parts : e.saved = partsSaved e.parts := by
  simp [saved, partsSaved, parts, Selection.savedMember, unlessNull]

theorem lookup_saved {name : Text} {v : Option (Value ν)} (h : (name, v) ∈ e.parts) :
    Value.lookup name e.saved = v := by
  rw [saved_eq_parts]
  exact lookup_partsSaved (by simp only [parts, List.map_cons, List.map_nil]; decide) h

end InventoryLine

end CharacterBuild
