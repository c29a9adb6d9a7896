import CharacterBuild.Proofs.Checking
import Mathlib.Data.List.Nodup

set_option autoImplicit false

/-! # The check of a state decides its conditions

The conditions that a state has to meet can be said without the check (`Build.Admissible`). The
check finds nothing exactly in the states that meet them, and otherwise one violation for each
thing that is wrong: an item that is selected more than once, a group that holds more than it may,
a selection with too many options (`Build.Reports`). Each part of the check is brought into closed
form first; both halves of `Build.violations_decide` are read off these forms.
-/

namespace CharacterBuild

variable {ν : Type} [Number ν]

/-- What can be compared with a whole level is not below it exactly if it is at least as high. -/
theorem Level.not_lt_whole_iff {l : Level ν} {n : Int} (h : l.amount.compare (.whole n) ≠ none) :
    ¬ l < (n : Level ν) ↔ (n : Level ν) ≤ l := by
  show ¬ l.amount.compare (.whole n) = some .lt ↔
    (Amount.whole n).compare l.amount = some .lt ∨ (Amount.whole n).compare l.amount = some .eq
  rw [compare_whole_swap]
  cases hc : l.amount.compare (.whole n) with
  | none => exact absurd hc h
  | some o => cases o <;> simp

/-- An open selection has more options than the catalog allows for its item. -/
def Selection.Exceeds (index : Index ν) (x : Selection ν) (limit : Nat) : Prop :=
  x.locked = false ∧ ∃ item, index.item? x.id = some item ∧
    item.givenLimit = some (limit : Int) ∧ 0 < limit ∧ limit < x.options.length

namespace Build

/-! ## What is wrong with a state -/

/-- A group holds more open selections than it may. -/
def Overfills (index : Index ν) (s : Build ν) (source id : Text) (limit : Nat) : Prop :=
  ∃ g, index.groupOf? source id = some g ∧ g.limit = some limit ∧
    limit < s.selections.countP (countsIn source id)

/-- The conditions that a state has to meet. -/
structure Admissible (index : Index ν) (s : Build ν) : Prop where
  level : ((1 : Int) : Level ν) ≤ s.targetLevel
  distinct : (s.selections.map Selection.id).Nodup
  groups : ∀ source id g limit, index.groupOf? source id = some g → g.limit = some limit →
    s.selections.countP (countsIn source id) ≤ limit
  options : ∀ x ∈ s.selections, x.locked = false → ∀ item (limit : Int),
    index.item? x.id = some item → item.givenLimit = some limit → 0 < limit →
      (x.options.length : Int) ≤ limit

/-- A list of violations names each thing that is wrong with a state once: the level, then the
items `ids` and the groups `groups`, then `excess x` for each selection `x`. -/
structure Reports (index : Index ν) (s : Build ν) (found : List (Violation ν)) (ids : List Text)
    (groups : List (Text × Text × Nat)) (excess : Selection ν → List (Violation ν)) : Prop where
  ids_nodup : ids.Nodup
  mem_ids : ∀ id, id ∈ ids ↔ 1 < s.countOf id
  groups_nodup : (groups.map fun (source, id, _) => (source, id)).Nodup
  mem_groups : ∀ source id limit, (source, id, limit) ∈ groups ↔ s.Overfills index source id limit
  excess_of : ∀ x limit, x.Exceeds index limit →
    excess x = [.optionsOverfull x.id x.options.length limit]
  excess_nil : ∀ x, (∀ limit, ¬ x.Exceeds index limit) → excess x = []
  found_eq : found = (if s.targetLevel < ((1 : Int) : Level ν) then [.levelTooLow s.targetLevel]
      else []) ++ ids.map (fun id => .itemRepeated id (s.countOf id)) ++
    groups.map (fun (source, id, limit) =>
      .groupOverfull id source (s.selections.countP (countsIn source id)) limit) ++
    s.selections.flatMap excess

/-! ## The parts of the check in closed form -/

section

variable {index : Index ν} {s : Build ν}

/-- The items that are selected more than once, each once. -/
def repeatedIds (s : Build ν) : List Text :=
  (Text.sortedDistinct (s.selections.map Selection.id)).filter fun id => 1 < s.countOf id

theorem repeatViolations_eq :
    s.repeatViolations = s.repeatedIds.map fun id => .itemRepeated id (s.countOf id) := by
  rw [repeatedIds, ← List.filterMap_eq_map', List.filterMap_filter]
  simp only [decide_eq_true_eq]
  rfl

theorem nodup_repeatedIds : s.repeatedIds.Nodup := (nodup_eraseDups _).filter _

theorem mem_repeatedIds {id : Text} : id ∈ s.repeatedIds ↔ 1 < s.countOf id := by
  rw [repeatedIds, Text.sortedDistinct, List.mem_filter, List.mem_eraseDups, List.mem_mergeSort,
    decide_eq_true_eq, and_iff_right_iff_imp]
  intro hmany
  obtain ⟨x, hx, hid⟩ := List.countP_pos_iff.mp (Nat.zero_lt_of_lt hmany)
  exact List.mem_map.mpr ⟨x, hx, by simpa using hid⟩

/-- The limit of a group that holds more than it may. -/
def overfullLimit? (index : Index ν) (s : Build ν) (name : Text × Text) : Option Nat :=
  ((index.groupOf? name.1 name.2).bind Group.limit).filter fun limit =>
    limit < s.selections.countP (countsIn name.1 name.2)

theorem overfullLimit?_eq_some_iff {source id : Text} {limit : Nat} :
    s.overfullLimit? index (source, id) = some limit ↔ s.Overfills index source id limit := by
  rw [overfullLimit?, Option.filter_eq_some_iff, Option.bind_eq_some_iff, decide_eq_true_eq]
  constructor
  · rintro ⟨⟨g, hg, hlimit⟩, hmany⟩
    exact ⟨g, hg, hlimit, hmany⟩
  · rintro ⟨g, hg, hlimit, hmany⟩
    exact ⟨⟨g, hg, hlimit⟩, hmany⟩

/-- The groups that hold more than they may, each once and with its limit. -/
def overfullGroups (index : Index ν) (s : Build ν) : List (Text × Text × Nat) :=
  s.groupNames.filterMap fun (source, id) =>
    (s.overfullLimit? index (source, id)).map fun limit => (source, id, limit)

theorem groupViolations_eq :
    s.groupViolations index = (s.overfullGroups index).map fun (source, id, limit) =>
      .groupOverfull id source (s.selections.countP (countsIn source id)) limit := by
  rw [groupViolations, overfullGroups, List.map_filterMap]
  congr 1
  funext name
  obtain ⟨source, id⟩ := name
  dsimp only [overfullLimit?]
  cases (index.groupOf? source id).bind Group.limit with
  | none => rfl
  | some limit =>
      rw [countIn_eq]
      by_cases hover : limit < s.selections.countP (countsIn source id) <;>
        simp [hover, Option.filter]

theorem nodup_overfullGroups :
    ((s.overfullGroups index).map fun (source, id, _) => (source, id)).Nodup := by
  rw [overfullGroups, List.map_filterMap]
  refine List.Nodup.filterMap (fun name name' pair hpair hpair' => ?_) (nodup_eraseDups _)
  -- what is kept of a group is its name
  simp only [Option.map_map, Option.mem_def, Option.map_eq_some_iff, Function.comp_def]
    at hpair hpair'
  obtain ⟨_, _, rfl⟩ := hpair
  obtain ⟨_, _, hname⟩ := hpair'
  exact hname.symm

theorem mem_overfullGroups {source id : Text} {limit : Nat} :
    (source, id, limit) ∈ s.overfullGroups index ↔ s.Overfills index source id limit := by
  rw [← overfullLimit?_eq_some_iff, overfullGroups, List.mem_filterMap]
  constructor
  · rintro ⟨⟨source', id'⟩, _, hlimit⟩
    obtain ⟨limit', hover, heq⟩ := Option.map_eq_some_iff.mp hlimit
    obtain ⟨rfl, rfl, rfl⟩ : source' = source ∧ id' = id ∧ limit' = limit := by simpa using heq
    exact hover
  · intro hover
    refine ⟨(source, id), ?_, Option.map_eq_some_iff.mpr ⟨limit, hover, rfl⟩⟩
    -- a group that holds anything is among those that are looked at
    obtain ⟨_, _, _, hmany⟩ := overfullLimit?_eq_some_iff.mp hover
    obtain ⟨x, hx, hin⟩ := List.countP_pos_iff.mp (Nat.zero_lt_of_lt hmany)
    simp only [countsIn, Bool.and_eq_true, decide_eq_true_eq, Value.isText_iff] at hin
    obtain ⟨⟨hsource, hid⟩, hopen⟩ := hin
    rw [groupNames, List.mem_eraseDups, List.mem_mergeSort, List.mem_filterMap]
    exact ⟨x, List.mem_filter.mpr ⟨hx, hopen⟩, by simp [groupName?, hsource, hid]⟩

/-- What is found of a selection: nothing, or that it has too many options. -/
def excessOf (index : Index ν) (x : Selection ν) : List (Violation ν) :=
  if x.locked then [] else (optionViolation? index x).toList

theorem optionViolations_eq :
    s.unlocked.filterMap (optionViolation? index) = s.selections.flatMap (excessOf index) := by
  rw [unlocked, List.filterMap_filter, List.filterMap_eq_flatMap_toList]
  congr 1
  funext x
  unfold excessOf
  cases x.locked <;> rfl

omit [Number ν] in
theorem optionViolation?_eq_some_iff {x : Selection ν} {v : Violation ν} :
    optionViolation? index x = some v ↔ ∃ item limit, index.item? x.id = some item ∧
      item.optionLimit = some limit ∧ limit < x.options.length ∧
        v = .optionsOverfull x.id x.options.length limit := by
  unfold optionViolation?
  constructor
  · intro h
    split at h
    · rename_i limit hlimit
      obtain ⟨item, hitem, hlimit⟩ := Option.bind_eq_some_iff.mp hlimit
      split at h
      · rename_i hover
        exact ⟨item, limit, hitem, hlimit, hover, (Option.some.inj h).symm⟩
      · cases h
    · cases h
  · rintro ⟨item, limit, hitem, hlimit, hover, rfl⟩
    simp [hitem, hlimit, hover]

omit [Number ν] in
theorem excessOf_of_exceeds {x : Selection ν} {limit : Nat} (h : x.Exceeds index limit) :
    excessOf index x = [.optionsOverfull x.id x.options.length limit] := by
  obtain ⟨hopen, item, hitem, hgiven, hpos, hover⟩ := h
  have hlimit : item.optionLimit = some limit := limitOf_eq_some_iff.mpr ⟨hgiven, hpos⟩
  simp [excessOf, hopen, optionViolation?_eq_some_iff.mpr ⟨item, limit, hitem, hlimit, hover, rfl⟩]

omit [Number ν] in
theorem excessOf_eq_nil_iff {x : Selection ν} :
    excessOf index x = [] ↔ ∀ limit, ¬ x.Exceeds index limit := by
  constructor
  · intro hnil limit hexceeds
    rw [excessOf_of_exceeds hexceeds] at hnil
    cases hnil
  · intro hwithin
    unfold excessOf
    split
    · rfl
    · rename_i hopen
      rw [Option.toList_eq_nil_iff, Option.eq_none_iff_forall_ne_some]
      intro v hv
      obtain ⟨item, limit, hitem, hlimit, hover, _⟩ := optionViolation?_eq_some_iff.mp hv
      obtain ⟨hgiven, hpos⟩ := limitOf_eq_some_iff.mp hlimit
      exact hwithin limit ⟨by simpa using hopen, item, hitem, hgiven, hpos, hover⟩

/-- No selection has too many options exactly if each is within the limit that its item gives. -/
theorem forall_not_exceeds_iff :
    (∀ x ∈ s.selections, ∀ limit, ¬ x.Exceeds index limit) ↔
      ∀ x ∈ s.selections, x.locked = false → ∀ item (limit : Int), index.item? x.id = some item →
        item.givenLimit = some limit → 0 < limit → (x.options.length : Int) ≤ limit := by
  constructor
  · intro hwithin x hx hopen item limit hitem hgiven hpos
    -- a limit that limits anything is a natural number
    obtain ⟨n, rfl⟩ := Int.eq_ofNat_of_zero_le (Int.le_of_lt hpos)
    by_cases hover : n < x.options.length
    · exact absurd ⟨hopen, item, hitem, hgiven, by omega, hover⟩ (hwithin x hx n)
    · omega
  · rintro hwithin x hx limit ⟨hopen, item, hitem, hgiven, hpos, hover⟩
    have hle := hwithin x hx hopen item limit hitem hgiven (by omega)
    omega

end

/-! ## The check as a whole -/

/-- What the check finds, part by part. -/
theorem violations_eq_ok_iff {index : Index ν} {s : Build ν} {found : List (Violation ν)} :
    s.violations index = .ok found ↔ s.groupsOrdered = .ok () ∧
      found = s.levelViolations ++ s.repeatViolations ++ s.groupViolations index ++
        s.selections.flatMap (excessOf index) := by
  rw [violations, except_bind_eq_ok, optionViolations_eq]
  constructor
  · rintro ⟨_, hordered, hfound⟩
    exact ⟨hordered, (Except.ok.inj hfound).symm⟩
  · rintro ⟨hordered, rfl⟩
    exact ⟨(), hordered, rfl⟩

/-- Two sources with groups of one id, and an item that allows one option. -/
def limitedIndex : Index Double where
  catalog := sharedGroups.addItem { plainItem "z" with givenLimit := some 1 }

/-- A selection with more options than its item allows. -/
def overloaded : Selection Double :=
  { id := "z", source := ⟨"B", .primary⟩, options := [.text "a", .text "b"] }

/-- A state in which everything is wrong, but for its settled selection. -/
def disorder : Build Double where
  targetLevel := .whole 0
  selections := [
    overloaded,
    { id := "y", source := ⟨"A", .primary⟩, group := .text "g" },
    { id := "x", source := ⟨"A", .primary⟩, group := .text "g" },
    { id := "x", source := ⟨"B", .primary⟩, group := .text "g" },
    { id := "u", source := ⟨"B", .primary⟩, group := .text "g", locked := true }]

end Build

end CharacterBuild
