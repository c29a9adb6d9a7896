import CharacterBuild.Number.Double
import CharacterBuild.Proofs.Skipping

set_option autoImplicit false

/-! # Leaving out what is skipped

An entry that the reader of a catalog skips may as well be left out of the document: a source, an
item, a tier of a source, an unlock of a tier or a group of a point pool. Entries are found along
paths of names and positions (`Value.at?`), and what stands at the end of a path can be changed
without anything beside it (`Value.alter`). The readers of the five levels look at the lists that
such a path leads through only by what comes of their entries, so that changing an entry in a way
that its own reader does not see is not seen by the whole (`Catalog.read_deleteFrom`).
-/

namespace CharacterBuild

variable {ν β : Type}

/-! ## Paths -/

/-- A step from a value to one of its parts. -/
inductive Value.Step where
  /-- To the member of a name. -/
  | member (name : Text)
  /-- To an item of a list. -/
  | item (i : Nat)
  deriving DecidableEq, Repr

namespace Value

/-- The part that a step leads to. -/
def part? : Step → Value ν → Option (Value ν)
  | .member name, .object ms => lookup name ms
  | .item i, .list items => items[i]?
  | _, _ => none

/-- What stands at the end of a path. -/
def at? : List Step → Value ν → Option (Value ν)
  | [], v => some v
  | step :: path, v => (v.part? step).bind (at? path)

/-- The members with the first one of a name changed. -/
def alterMember (name : Text) (f : Value ν → Value ν) : Members ν → Members ν
  | [] => []
  | m :: rest => if m.1 = name then (m.1, f m.2) :: rest else m :: alterMember name f rest

/-- The value with a part changed. -/
def alterPart (f : Value ν → Value ν) : Step → Value ν → Value ν
  | .member name, .object ms => .object (alterMember name f ms)
  | .item i, .list items => .list (items.modify i f)
  | _, v => v

/-- The value with what stands at the end of a path changed. -/
def alter (f : Value ν → Value ν) : List Step → Value ν → Value ν
  | [], v => f v
  | step :: path, v => v.alterPart (alter f path) step

/-- The value without a part. -/
def dropPart : Step → Value ν → Value ν
  | .member name, .object ms => .object (ms.eraseP fun m => m.1 = name)
  | .item i, .list items => .list (items.eraseIdx i)
  | _, v => v

theorem at?_cons_eq_some {step : Step} {path : List Step} {v w : Value ν} :
    v.at? (step :: path) = some w ↔ ∃ u, v.part? step = some u ∧ u.at? path = some w :=
  Option.bind_eq_some_iff

section

variable {name : Text} {ms : Members ν} {v : Value ν} {f : Value ν → Value ν}

theorem lookup_cons (name : Text) (m : Text × Value ν) (ms : Members ν) :
    lookup name (m :: ms) = if m.1 = name then some m.2 else lookup name ms := by
  unfold lookup
  by_cases hm : m.1 = name
  · rw [List.find?_cons_of_pos (by simpa using hm), if_pos hm]
    rfl
  · rw [List.find?_cons_of_neg (by simpa using hm), if_neg hm]

/-- The first member of a name stands among the others. -/
theorem exists_of_lookup (h : lookup name ms = some v) :
    ∃ before after, ms = before ++ (name, v) :: after ∧
      alterMember name f ms = before ++ (name, f v) :: after ∧
      (ms.eraseP fun m => m.1 = name) = before ++ after := by
  induction ms with
  | nil => cases h
  | cons m rest ih =>
      obtain ⟨other, w⟩ := m
      rw [lookup_cons] at h
      by_cases hm : other = name
      · subst hm
        obtain rfl : w = v := by simpa using h
        exact ⟨[], rest, rfl, if_pos rfl, List.eraseP_cons_of_pos (by simp)⟩
      · rw [if_neg hm] at h
        obtain ⟨before, after, hrest, halter, herase⟩ := ih h
        refine ⟨(other, w) :: before, after, by rw [hrest]; rfl, ?_, ?_⟩
        · rw [alterMember, if_neg hm, halter]
          rfl
        · rw [List.eraseP_cons_of_neg (by simpa using hm), herase]
          rfl

theorem lookup_alterMember_ne {other : Text} (hne : other ≠ name) (ms : Members ν) :
    lookup other (alterMember name f ms) = lookup other ms := by
  induction ms with
  | nil => rfl
  | cons m rest ih =>
      unfold alterMember
      by_cases hm : m.1 = name
      · have hother : m.1 ≠ other := fun h => hne (h.symm.trans hm)
        rw [if_pos hm, lookup_cons, lookup_cons, if_neg hother, if_neg hother]
      · rw [if_neg hm, lookup_cons, lookup_cons, ih]

theorem lookup_alterMember (name : Text) (f : Value ν → Value ν) (ms : Members ν) :
    lookup name (alterMember name f ms) = (lookup name ms).map f := by
  induction ms with
  | nil => rfl
  | cons m rest ih =>
      unfold alterMember
      by_cases hm : m.1 = name
      · rw [if_pos hm, lookup_cons, lookup_cons, if_pos hm, if_pos hm]
        rfl
      · rw [if_neg hm, lookup_cons, lookup_cons, if_neg hm, if_neg hm, ih]

end

end Value

/-! ## Lists that come to the same -/

section

variable {α : Type} {read : α → Except (Fault ν) β} {l : List α} {a : α} {i : Nat}

theorem keepRead_eraseIdx {fault : Fault ν} (ha : l[i]? = some a) (hread : read a = .error fault)
    (hs : fault.isSkipped = true) :
    keepRead ((l.eraseIdx i).map read) = keepRead (l.map read) := by
  obtain ⟨hi, rfl⟩ := List.getElem?_eq_some_iff.mp ha
  have hl : l.map read = (l.take i).map read ++ .error fault :: (l.drop (i + 1)).map read := by
    rw [← hread, ← List.map_cons, ← List.map_append, ← List.drop_eq_getElem_cons hi,
      List.take_append_drop]
  rw [List.eraseIdx_eq_take_drop_succ, List.map_append, hl, keepRead_without hs]

theorem map_modify_of_read_eq {g : α → α} (ha : l[i]? = some a) (hread : read (g a) = read a) :
    (l.modify i g).map read = l.map read := by
  apply List.ext_getElem?
  intro j
  rw [List.getElem?_map, List.getElem?_map, List.getElem?_modify]
  split
  · rename_i hij
    subst hij
    rw [ha]
    exact congrArg some hread
  · simp

end

section

variable {read : Text × Value ν → Except (Fault ν) β} {ms : Members ν} {name : Text} {v : Value ν}

theorem keepRead_eraseP {fault : Fault ν} (hv : Value.lookup name ms = some v)
    (hread : read (name, v) = .error fault) (hs : fault.isSkipped = true) :
    keepRead ((ms.eraseP fun m => m.1 = name).map read) = keepRead (ms.map read) := by
  obtain ⟨before, after, hms, _, herase⟩ := Value.exists_of_lookup (f := fun v => v) hv
  rw [herase, hms, List.map_append, List.map_append, List.map_cons, hread, keepRead_without hs]

theorem map_alterMember_of_read_eq {g : Value ν → Value ν} (hv : Value.lookup name ms = some v)
    (hread : read (name, g v) = read (name, v)) :
    (Value.alterMember name g ms).map read = ms.map read := by
  obtain ⟨before, after, hms, halter, _⟩ := Value.exists_of_lookup (f := g) hv
  rw [halter, hms, List.map_append, List.map_append, List.map_cons, List.map_cons, hread]

end

namespace Value

section

variable {name : Text} {ms : Members ν} {w : Value ν} {f : Value ν → Value ν}

/-- What has a member is an object. -/
theorem exists_object_of_part? {v : Value ν} (hw : v.part? (.member name) = some w) :
    ∃ ms, v = .object ms ∧ lookup name ms = some w := by
  cases v with
  | object ms => exact ⟨ms, rfl, hw⟩
  | list l => cases hw
  | atom a => cases hw

theorem memberOrNull_of_part? (hw : (object ms).part? (.member name) = some w) :
    memberOrNull name ms = w := by
  have hfound : lookup name ms = some w := hw
  rw [memberOrNull, hfound]
  rfl

theorem memberOrNull_alterMember (hw : (object ms).part? (.member name) = some w) :
    memberOrNull name (alterMember name f ms) = f w := by
  have hfound : lookup name ms = some w := hw
  rw [memberOrNull, lookup_alterMember, hfound]
  rfl

theorem memberOrNull_alterMember_ne {other : Text} (hne : other ≠ name) :
    memberOrNull other (alterMember name f ms) = memberOrNull other ms := by
  rw [memberOrNull, lookup_alterMember_ne hne]
  rfl

end

/-- Two lists whose entries come to the same. -/
def ListsAlike (read : Value ν → Except (Fault ν) β) (v v' : Value ν) : Prop :=
  ∃ l l', v = .list l ∧ v' = .list l' ∧ keepRead (l'.map read) = keepRead (l.map read)

/-- Two objects whose members come to the same. -/
def PartsAlike (read : Text × Value ν → Except (Fault ν) β) (v v' : Value ν) : Prop :=
  keepRead (v'.asPart.map read) = keepRead (v.asPart.map read)

section

variable {read : Value ν → Except (Fault ν) β} {v a : Value ν} {i : Nat}

theorem listsAlike_dropPart {fault : Fault ν} (ha : v.part? (.item i) = some a)
    (hread : read a = .error fault) (hs : fault.isSkipped = true) :
    ListsAlike read v (v.dropPart (.item i)) := by
  cases v with
  | list l => exact ⟨l, _, rfl, rfl, keepRead_eraseIdx ha hread hs⟩
  | object ms => cases ha
  | atom b => cases ha

theorem listsAlike_alterPart {g : Value ν → Value ν} (ha : v.part? (.item i) = some a)
    (hread : read (g a) = read a) : ListsAlike read v (v.alterPart g (.item i)) := by
  cases v with
  | list l => exact ⟨l, _, rfl, rfl, by rw [map_modify_of_read_eq ha hread]⟩
  | object ms => cases ha
  | atom b => cases ha

end

section

variable {read : Text × Value ν → Except (Fault ν) β} {v a : Value ν} {name : Text}

theorem partsAlike_dropPart {fault : Fault ν} (ha : v.part? (.member name) = some a)
    (hread : read (name, a) = .error fault) (hs : fault.isSkipped = true) :
    PartsAlike read v (v.dropPart (.member name)) := by
  obtain ⟨ms, rfl, hfound⟩ := exists_object_of_part? ha
  exact keepRead_eraseP hfound hread hs

theorem partsAlike_alterPart {g : Value ν → Value ν} (ha : v.part? (.member name) = some a)
    (hread : read (name, g a) = read (name, a)) :
    PartsAlike read v (v.alterPart g (.member name)) := by
  obtain ⟨ms, rfl, hfound⟩ := exists_object_of_part? ha
  show keepRead ((alterMember name g ms).map read) = keepRead (ms.map read)
  rw [map_alterMember_of_read_eq hfound hread]

end

variable [Number ν]

theorem elementsOf_of_list {name : Text} {ms : Members ν} {l : List (Value ν)}
    (h : lookup name ms = some (.list l)) : elementsOf name ms = .ok l := by
  unfold elementsOf memberOrNull orElse
  rw [h]
  cases l <;> rfl

end Value

/-! ## What the readers see -/

section

variable [Number ν] {ms ms' : Members ν}

/-- The members of two objects are the same, but for a list whose entries come to the same. -/
structure Value.SameBeside (name : Text) (read : Value ν → Except (Fault ν) β)
    (ms ms' : Members ν) : Prop where
  others : ∀ other : Text, other ≠ name → lookup other ms' = lookup other ms
  listed : ∃ l l', elementsOf name ms = .ok l ∧ elementsOf name ms' = .ok l' ∧
    keepRead (l'.map read) = keepRead (l.map read)

namespace Value.SameBeside

variable {name : Text} {read : Value ν → Except (Fault ν) β}

theorem memberOrNull (h : SameBeside name read ms ms') {other : Text} (hne : other ≠ name) :
    Value.memberOrNull other ms' = Value.memberOrNull other ms := by
  unfold Value.memberOrNull
  rw [h.others other hne]

theorem textOr (h : SameBeside name read ms ms') {other : Text} (hne : other ≠ name)
    (default : Text) : Value.textOr other default ms' = Value.textOr other default ms := by
  unfold Value.textOr
  rw [h.others other hne]

theorem member (h : SameBeside name read ms ms') {other : Text} (hne : other ≠ name) :
    (Value.object ms').member other = (Value.object ms).member other := by
  unfold Value.member
  dsimp only
  rw [h.others other hne]

/-- A list of entries that come to the same, in place of the member of a name. -/
theorem of_listsAlike {v w : Value ν} {f : Value ν → Value ν}
    (hw : v.part? (.member name) = some w) (h : ListsAlike read w (f w)) :
    ∃ ms ms', v = .object ms ∧ v.alterPart f (.member name) = .object ms' ∧
      SameBeside name read ms ms' := by
  obtain ⟨ms, rfl, hfound⟩ := exists_object_of_part? hw
  obtain ⟨l, l', rfl, hl', hsame⟩ := h
  refine ⟨ms, alterMember name f ms, rfl, rfl, fun other hne => lookup_alterMember_ne hne ms,
    l, l', elementsOf_of_list hfound, elementsOf_of_list ?_, hsame⟩
  rw [lookup_alterMember, hfound, Option.map_some, hl']

end Value.SameBeside

/-- A point pool is read from its groups by what comes of them. -/
theorem PointBuy.outcome_read_congr (id name : Text)
    (h : Value.SameBeside "groups" PointGroup.read ms ms') :
    (PointBuy.read id name ms').outcome = (PointBuy.read id name ms).outcome := by
  obtain ⟨l, l', hl, hl', hsame⟩ := h.listed
  unfold PointBuy.read
  rw [h.memberOrNull (by decide), hl, hl']
  simp only [Traced.outcome_bind, Traced.outcome_readEach, Traced.outcome_lift, Except.bind, hsame]

/-- An unlock is read from the groups of its pool by what comes of them. -/
theorem Unlock.outcome_read_congr (h : Value.SameBeside "groups" PointGroup.read ms ms') :
    (Unlock.read (.object ms')).outcome = (Unlock.read (.object ms)).outcome := by
  unfold Unlock.read
  rw [h.member (by decide), h.member (by decide)]
  simp only [Value.members, Traced.outcome_bind, Traced.outcome_lift, Except.bind]
  rw [h.textOr (by decide)]
  cases (Value.object ms).member "type" with
  | error fault => rfl
  | ok type =>
      dsimp only
      cases type.word Unlock.kindWords with
      | error fault => rfl
      | ok kind =>
          dsimp only
          cases (Value.object ms).member "id" with
          | error fault => rfl
          | ok id =>
              cases kind with
              | reward =>
                  dsimp only
                  rw [h.memberOrNull (by decide)]
              | choice =>
                  dsimp only
                  unfold Choice.read
                  rw [h.memberOrNull (by decide), h.memberOrNull (by decide), h.textOr (by decide)]
              | pointBuy =>
                  dsimp only
                  rw [Traced.outcome_map, Traced.outcome_map, PointBuy.outcome_read_congr _ _ h]

/-- A tier is read from its unlocks by what comes of them. -/
theorem Tier.outcome_read_congr (source : Text)
    (h : Value.SameBeside "unlocks" (fun v => (Unlock.read v).outcome) ms ms') :
    (Tier.read source (.object ms')).outcome = (Tier.read source (.object ms)).outcome := by
  obtain ⟨l, l', hl, hl', hsame⟩ := h.listed
  have hbonus : ∀ level, Tier.readBonus source level ms' = Tier.readBonus source level ms := by
    intro level
    unfold Tier.readBonus
    rw [h.memberOrNull (by decide)]
  unfold Tier.read
  rw [h.member (by decide)]
  simp only [Value.members, Traced.outcome_bind, Traced.outcome_readEach, Traced.outcome_lift,
    Except.bind, hbonus, hl, hl', hsame]

/-- A source is read from its tiers by what comes of them. -/
theorem Source.outcome_read_congr (name : Text)
    (h : Value.SameBeside "levels" (fun v => (Tier.read name v).outcome) ms ms') :
    (Source.read name (.object ms')).outcome = (Source.read name (.object ms)).outcome := by
  obtain ⟨l, l', hl, hl', hsame⟩ := h.listed
  unfold Source.read
  simp only [Value.members, Traced.outcome_bind, Traced.outcome_readEach, Traced.outcome_lift,
    Except.bind, hl, hl', hsame]
  rw [h.others _ (by decide), h.memberOrNull (by decide), h.textOr (by decide),
    h.textOr (by decide)]

end

/-! ## Entries -/

/-- An entry of a catalog as it stands in a document. -/
inductive Entry where
  /-- The source of a name. -/
  | source (name : Text)
  /-- The item that is listed under a name. -/
  | item (name : Text)
  /-- A tier of a source. -/
  | tier (source : Text) (i : Nat)
  /-- An unlock of a tier. -/
  | unlock (source : Text) (i j : Nat)
  /-- A group of a point pool. -/
  | pointGroup (source : Text) (i j k : Nat)
  deriving DecidableEq, Repr

namespace Entry

/-- The path to the list or object that an entry stands in. -/
def parent : Entry → List Value.Step
  | source _ => [.member "sources"]
  | item _ => [.member "items"]
  | tier s _ => [.member "sources", .member s, .member "levels"]
  | unlock s i _ => [.member "sources", .member s, .member "levels", .item i, .member "unlocks"]
  | pointGroup s i j _ => [.member "sources", .member s, .member "levels", .item i,
    .member "unlocks", .item j, .member "groups"]

/-- The step to an entry from what it stands in. -/
def step : Entry → Value.Step
  | source name | item name => .member name
  | tier _ i => .item i
  | unlock _ _ j => .item j
  | pointGroup _ _ _ k => .item k

/-- The document with an entry deleted. -/
def deleteFrom (e : Entry) (raw : Value ν) : Value ν := raw.alter (Value.dropPart e.step) e.parent

variable [Number ν]

/-- Whether the reader of an entry ends in a value, and in which fault if it does not. -/
def reading : Entry → Value ν → Except (Fault ν) Unit
  | source name, v => (Source.readMember (name, v)).map fun _ => ()
  | item name, v => (Item.readMember (name, v)).map fun _ => ()
  | tier name _, v => (Tier.read name v).outcome.map fun _ => ()
  | unlock _ _ _, v => (Unlock.read v).outcome.map fun _ => ()
  | pointGroup _ _ _ _, v => (PointGroup.read v).map fun _ => ()

/-- Whether an entry stands in a document and is skipped by its reader. -/
def SkippedIn (e : Entry) (raw : Value ν) : Prop :=
  ∃ v fault, raw.at? (e.parent ++ [e.step]) = some v ∧ e.reading v = .error fault ∧
    fault.isSkipped = true

end Entry

section

variable [Number ν] {f : Value ν → Value ν} {v w : Value ν}

theorem Unlock.outcome_read_alter (hw : v.part? (.member "groups") = some w)
    (h : Value.ListsAlike PointGroup.read w (f w)) :
    (Unlock.read (v.alterPart f (.member "groups"))).outcome = (Unlock.read v).outcome := by
  obtain ⟨ms, ms', rfl, halter, hbeside⟩ := Value.SameBeside.of_listsAlike hw h
  rw [halter]
  exact Unlock.outcome_read_congr hbeside

theorem Tier.outcome_read_alter (source : Text) (hw : v.part? (.member "unlocks") = some w)
    (h : Value.ListsAlike (fun v => (Unlock.read v).outcome) w (f w)) :
    (Tier.read source (v.alterPart f (.member "unlocks"))).outcome
      = (Tier.read source v).outcome := by
  obtain ⟨ms, ms', rfl, halter, hbeside⟩ := Value.SameBeside.of_listsAlike hw h
  rw [halter]
  exact Tier.outcome_read_congr source hbeside

theorem Source.readMember_alter (name : Text) (hw : v.part? (.member "levels") = some w)
    (h : Value.ListsAlike (fun v => (Tier.read name v).outcome) w (f w)) :
    Source.readMember (name, v.alterPart f (.member "levels")) = Source.readMember (name, v) := by
  obtain ⟨ms, ms', rfl, halter, hbeside⟩ := Value.SameBeside.of_listsAlike hw h
  rw [halter]
  exact Source.outcome_read_congr name hbeside

theorem Catalog.outcome_read_alter_sources (hw : v.part? (.member "sources") = some w)
    (h : Value.PartsAlike Source.readMember w (f w)) :
    (Catalog.read (v.alterPart f (.member "sources"))).outcome = (Catalog.read v).outcome := by
  obtain ⟨ms, rfl, _⟩ := Value.exists_object_of_part? hw
  show (Catalog.read (.object _)).outcome = _
  rw [Catalog.outcome_read, Catalog.outcome_read, Value.memberOrNull_alterMember hw,
    Value.memberOrNull_alterMember_ne (by decide), Value.memberOrNull_of_part? hw, h]

theorem Catalog.outcome_read_alter_items (hw : v.part? (.member "items") = some w)
    (h : Value.PartsAlike Item.readMember w (f w)) :
    (Catalog.read (v.alterPart f (.member "items"))).outcome = (Catalog.read v).outcome := by
  obtain ⟨ms, rfl, _⟩ := Value.exists_object_of_part? hw
  show (Catalog.read (.object _)).outcome = _
  rw [Catalog.outcome_read, Catalog.outcome_read, Value.memberOrNull_alterMember hw,
    Value.memberOrNull_alterMember_ne (by decide), Value.memberOrNull_of_part? hw, h]

end

/-! ## Deleting an entry -/

section

variable [Number ν] {raw sources source tiers tier unlocks unlock groups : Value ν}
  {f : Value ν → Value ν} {name : Text} {i j : Nat}

/-- A change among the tiers of a source is seen by what comes of the tiers. -/
theorem Catalog.outcome_read_alter_tiers (hsources : raw.part? (.member "sources") = some sources)
    (hsource : sources.part? (.member name) = some source)
    (htiers : source.part? (.member "levels") = some tiers)
    (h : Value.ListsAlike (fun v => (Tier.read name v).outcome) tiers (f tiers)) :
    (Catalog.read (raw.alter f [.member "sources", .member name, .member "levels"])).outcome
      = (Catalog.read raw).outcome :=
  Catalog.outcome_read_alter_sources hsources
    (Value.partsAlike_alterPart hsource (Source.readMember_alter name htiers h))

/-- A change among the unlocks of a tier is seen by what comes of the unlocks. -/
theorem Catalog.outcome_read_alter_unlocks
    (hsources : raw.part? (.member "sources") = some sources)
    (hsource : sources.part? (.member name) = some source)
    (htiers : source.part? (.member "levels") = some tiers)
    (htier : tiers.part? (.item i) = some tier)
    (hunlocks : tier.part? (.member "unlocks") = some unlocks)
    (h : Value.ListsAlike (fun v => (Unlock.read v).outcome) unlocks (f unlocks)) :
    (Catalog.read (raw.alter f [.member "sources", .member name, .member "levels", .item i,
      .member "unlocks"])).outcome = (Catalog.read raw).outcome :=
  Catalog.outcome_read_alter_tiers hsources hsource htiers
    (Value.listsAlike_alterPart htier (Tier.outcome_read_alter name hunlocks h))

/-- A change among the groups of a point pool is seen by what comes of the groups. -/
theorem Catalog.outcome_read_alter_groups
    (hsources : raw.part? (.member "sources") = some sources)
    (hsource : sources.part? (.member name) = some source)
    (htiers : source.part? (.member "levels") = some tiers)
    (htier : tiers.part? (.item i) = some tier)
    (hunlocks : tier.part? (.member "unlocks") = some unlocks)
    (hunlock : unlocks.part? (.item j) = some unlock)
    (hgroups : unlock.part? (.member "groups") = some groups)
    (h : Value.ListsAlike PointGroup.read groups (f groups)) :
    (Catalog.read (raw.alter f [.member "sources", .member name, .member "levels", .item i,
      .member "unlocks", .item j, .member "groups"])).outcome = (Catalog.read raw).outcome :=
  Catalog.outcome_read_alter_unlocks hsources hsource htiers htier hunlocks
    (Value.listsAlike_alterPart hunlock (Unlock.outcome_read_alter hgroups h))

/-- **What is skipped may as well be left out.** A document from which an entry is deleted that its
reader skips comes to the same catalog: the same sources and items, in the same order. -/
theorem Catalog.read_deleteFrom {e : Entry} (h : e.SkippedIn raw) :
    (Catalog.read (e.deleteFrom raw)).outcome = (Catalog.read raw).outcome := by
  obtain ⟨v, fault, hat, hread, hs⟩ := h
  cases e with
  | source name =>
      obtain ⟨sources, hsources, hat⟩ := Value.at?_cons_eq_some.mp hat
      obtain ⟨_, hv, hat⟩ := Value.at?_cons_eq_some.mp hat
      obtain rfl := Option.some.inj hat
      exact Catalog.outcome_read_alter_sources hsources
        (Value.partsAlike_dropPart hv (except_map_eq_error.mp hread) hs)
  | item name =>
      obtain ⟨items, hitems, hat⟩ := Value.at?_cons_eq_some.mp hat
      obtain ⟨_, hv, hat⟩ := Value.at?_cons_eq_some.mp hat
      obtain rfl := Option.some.inj hat
      exact Catalog.outcome_read_alter_items hitems
        (Value.partsAlike_dropPart hv (except_map_eq_error.mp hread) hs)
  | tier name i =>
      obtain ⟨sources, hsources, hat⟩ := Value.at?_cons_eq_some.mp hat
      obtain ⟨source, hsource, hat⟩ := Value.at?_cons_eq_some.mp hat
      obtain ⟨tiers, htiers, hat⟩ := Value.at?_cons_eq_some.mp hat
      obtain ⟨_, hv, hat⟩ := Value.at?_cons_eq_some.mp hat
      obtain rfl := Option.some.inj hat
      exact Catalog.outcome_read_alter_tiers hsources hsource htiers
        (Value.listsAlike_dropPart hv (except_map_eq_error.mp hread) hs)
  | unlock name i j =>
      obtain ⟨sources, hsources, hat⟩ := Value.at?_cons_eq_some.mp hat
      obtain ⟨source, hsource, hat⟩ := Value.at?_cons_eq_some.mp hat
      obtain ⟨tiers, htiers, hat⟩ := Value.at?_cons_eq_some.mp hat
      obtain ⟨tier, htier, hat⟩ := Value.at?_cons_eq_some.mp hat
      obtain ⟨unlocks, hunlocks, hat⟩ := Value.at?_cons_eq_some.mp hat
      obtain ⟨_, hv, hat⟩ := Value.at?_cons_eq_some.mp hat
      obtain rfl := Option.some.inj hat
      exact Catalog.outcome_read_alter_unlocks hsources hsource htiers htier hunlocks
        (Value.listsAlike_dropPart hv (except_map_eq_error.mp hread) hs)
  | pointGroup name i j k =>
      obtain ⟨sources, hsources, hat⟩ := Value.at?_cons_eq_some.mp hat
      obtain ⟨source, hsource, hat⟩ := Value.at?_cons_eq_some.mp hat
      obtain ⟨tiers, htiers, hat⟩ := Value.at?_cons_eq_some.mp hat
      obtain ⟨tier, htier, hat⟩ := Value.at?_cons_eq_some.mp hat
      obtain ⟨unlocks, hunlocks, hat⟩ := Value.at?_cons_eq_some.mp hat
      obtain ⟨unlock, hunlock, hat⟩ := Value.at?_cons_eq_some.mp hat
      obtain ⟨groups, hgroups, hat⟩ := Value.at?_cons_eq_some.mp hat
      obtain ⟨_, hv, hat⟩ := Value.at?_cons_eq_some.mp hat
      obtain rfl := Option.some.inj hat
      exact Catalog.outcome_read_alter_groups hsources hsource htiers htier hunlocks hunlock hgroups
        (Value.listsAlike_dropPart hv (except_map_eq_error.mp hread) hs)

/-- A pool with two groups, one of which is nothing, comes to the same as the pool with the other
one alone. -/
theorem Catalog.read_deleteFrom_brokenGroup :
    let withGroups (groups : List (Value Double)) : Value Double :=
      .object [("sources", .object [("A", .object [("levels", .list [.object [("level", .whole 1),
        ("unlocks", .list [.object [("type", .text "pointBuy"), ("id", .text "p"),
          ("groups", .list groups)]])]])])])]
    let group : Value Double := .object [("id", .text "g"), ("items", .list [.text "x"])]
    (Catalog.read (withGroups [group])).outcome
      = (Catalog.read (withGroups [.null, group])).outcome := by
  intro withGroups group
  have hskipped : (Entry.pointGroup "A" 0 0 0).SkippedIn (withGroups [.null, group]) :=
    ⟨.null, .wrongKind, rfl, rfl, rfl⟩
  have hdeleted : (Entry.pointGroup "A" 0 0 0).deleteFrom (withGroups [.null, group])
      = withGroups [group] := rfl
  rw [← hdeleted]
  exact Catalog.read_deleteFrom hskipped

end

end CharacterBuild
