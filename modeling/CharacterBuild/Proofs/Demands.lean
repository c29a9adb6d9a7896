import CharacterBuild.Proofs.Requirements
import Mathlib.Data.List.Dedup
import Mathlib.Data.List.Perm.Subperm

set_option autoImplicit false

/-! # Whether what is asked for can be chosen

A page asks for more items of a choice, and items are selected in the group that the index has
under the id of the choice. The page counts the entries of the choice's own list, the group may be
another one with that id. `Completeness.demand_fulfillable_iff` says when the group has both the
room and the items: always if it is the choice's own group and the list names no item of the
catalog twice, and else exactly if the number that the page goes by lies within the limit of the
group and within the different items that it offers, together with those of its members that it
does not offer.
-/

namespace CharacterBuild

variable {ν : Type}

/-! ## Offered items -/

/-- The items of the catalog among some ids. -/
def Index.known (index : Index ν) (ids : List Text) : List Text :=
  ids.filter fun id => (index.item? id).isSome

/-- The different items of the catalog that a group offers. -/
def Index.offered (index : Index ν) (g : Group ν) : List Text := (index.known g.items).dedup

variable [Number ν]

/-- The different items of a group that are not selected in it. -/
def Build.free (s : Build ν) (index : Index ν) (source : SourceId) (g : Group ν) : List Text :=
  (index.offered g).filter fun id => !((s.membersOf source g.id).map Selection.id).contains id

/-- The different items of a group that are selected in it. -/
def Build.taken (s : Build ν) (index : Index ν) (source : SourceId) (g : Group ν) : List Text :=
  (index.offered g).filter fun id => ((s.membersOf source g.id).map Selection.id).contains id

/-- A group in which more items can be selected: there is room for them, and there are as many
different items. -/
structure Build.Fulfillable (s : Build ν) (index : Index ν) (source : SourceId) (g : Group ν)
    (more : Nat) : Prop where
  room : ∀ limit, g.limit = some limit → (s.membersOf source g.id).length + more ≤ limit
  items : more ≤ (s.free index source g).length

namespace Build

variable (s : Build ν) (index : Index ν) (source : SourceId) (g : Group ν)

theorem length_free_add_taken :
    (s.free index source g).length + (s.taken index source g).length
      = (index.offered g).length := by
  rw [free, taken, Nat.add_comm, ← List.length_append]
  exact (List.filter_append_perm _ _).length_eq

/-- Each item that is taken has a member of its own. -/
theorem length_taken_le : (s.taken index source g).length ≤ (s.membersOf source g.id).length := by
  have hnodup : (s.taken index source g).Nodup := (List.nodup_dedup _).filter _
  have hsub : s.taken index source g ⊆ (s.membersOf source g.id).map Selection.id := by
    intro id hid
    simpa using (List.mem_filter.mp hid).2
  have hle := (hnodup.subperm hsub).length_le
  rwa [List.length_map] at hle

theorem length_membersOf (id : Text) : (s.membersOf source id).length
    = (s.selectionsOf source).countP fun x => x.group.isText id := by
  unfold membersOf selectionsOf Selection.isIn
  rw [List.countP_filter, List.countP_eq_length_filter]
  congr 2
  funext x
  exact Bool.and_comm _ _

end Build

namespace Completeness

variable {index : Index ν} {config : Config} {state : Build ν} {page : Text} {level : Int}
  {choice : Choice} {more : Nat}

/-! ## Demands -/

/-- A page asks for more items of a choice of its source. -/
structure Demands (index : Index ν) (state : Build ν) (page : Text) (level : Int)
    (choice : Choice) (more : Nat) : Prop where
  active : (level, .choice choice) ∈ activeUnlocks index state page
  lacks : choiceLack? index level choice (state.selectionsOf (index.keyOf page))
    = some (.items choice.name level more)

omit [Number ν] in
theorem choiceLack?_eq_some {selections : List (Selection ν)} {lack : Lack ν}
    (h : choiceLack? index level choice selections = some lack) :
    ∃ more, lack = .items choice.name level more ∧ 0 < more ∧
      ∃ limit, limitOf choice.givenLimit = some limit ∧
        (selections.countP fun x => x.group.isText choice.id) + more
          = min limit (index.known choice.items).length := by
  unfold choiceLack? at h
  cases hlimit : limitOf choice.givenLimit with
  | none =>
      rw [hlimit] at h
      cases h
  | some limit =>
      rw [hlimit] at h
      dsimp only at h
      split at h
      · cases h
      · rename_i hless
        refine ⟨_, (Option.some.inj h).symm, by omega, limit, rfl, ?_⟩
        rw [Index.known, ← List.countP_eq_length_filter]
        omega

/-- What a page asks for more of is what it goes by less the members. -/
theorem Demands.length_add (h : Demands index state page level choice more) : 0 < more ∧
    ∃ limit, limitOf choice.givenLimit = some limit ∧
      (state.membersOf (index.keyOf page) choice.id).length + more
        = min limit (index.known choice.items).length := by
  obtain ⟨more', heq, hpos, limit, hlimit, hsum⟩ := choiceLack?_eq_some h.lacks
  obtain ⟨_, _, rfl⟩ := Lack.items.inj heq
  rw [state.length_membersOf]
  exact ⟨hpos, limit, hlimit, hsum⟩

/-- The index has a group under the id of a choice that is asked for. -/
theorem Demands.exists_group (h : Demands index state page level choice more) :
    ∃ g, index.groupOf? page choice.id = some g := by
  have hactive := h.active
  unfold activeUnlocks Index.unlocks at hactive
  cases hentry : index.entry? page with
  | none => simp [hentry] at hactive
  | some e =>
      obtain ⟨s, hs, rfl⟩ := index.mem_of_entry? hentry
      rw [hentry] at hactive
      have hunlock : (level, .choice choice) ∈ s.unlocks := (List.mem_filter.mp hactive).1
      have hall : Group.ofChoice s.key.name level choice ∈ s.allGroups :=
        List.mem_flatMap.mpr ⟨_, hunlock, List.mem_singleton.mpr rfl⟩
      obtain ⟨g, hg, hid⟩ := exists_alike_firstsBy (fun a b : Group ν => decide (a.id = b.id))
        (fun _ => decide_eq_true rfl) hall
      have hgroups : index.groups page = Group.firsts s.allGroups := by
        unfold Index.groups
        rw [hentry]
        rfl
      have hid : g.id = choice.id := of_decide_eq_true hid
      exact ⟨g, hid ▸ index.groupOf?_of_mem (by rw [hgroups]; exact hg)⟩

/-- The fixed pages ask for no items. -/
theorem attributeIssues_no_items {found : List (Issue ν)}
    (h : attributeIssues config state = .ok found) {i : Issue ν} (hi : i ∈ found) {name : Text} :
    i.lack ≠ .items name level more := by
  unfold attributeIssues at h
  split at h
  · obtain rfl := Except.ok.inj h
    cases hi
  · -- whatever values are left over
    have hfound : ∃ extra : List (Atom ν),
        (if (unassigned config state).isEmpty then []
          else [⟨attributesPage, none, .attributes (unassigned config state)⟩]) ++
        (if extra.isEmpty then [] else [⟨attributesPage, none, .values extra⟩]) = found := by
      dsimp only at h
      split at h
      · exact ⟨[], Except.ok.inj h⟩
      · obtain ⟨extra, _, h⟩ := except_bind_eq_ok.mp h
        exact ⟨extra, Except.ok.inj h⟩
    obtain ⟨extra, rfl⟩ := hfound
    rcases List.mem_append.mp hi with hi | hi
    · split at hi
      · cases hi
      · rw [List.mem_singleton.mp hi]
        nofun
    · split at hi
      · cases hi
      · rw [List.mem_singleton.mp hi]
        nofun

theorem infoIssues_no_items {i : Issue ν} (hi : i ∈ infoIssues config state) {name : Text} :
    i.lack ≠ .items name level more := by
  unfold infoIssues at hi
  split at hi
  · cases hi
  · rw [List.mem_singleton.mp hi]
    nofun

theorem optionIssue_no_items {x : Selection ν} {i : Issue ν}
    (h : optionIssue index state page x = .ok (some i)) {name : Text} :
    i.lack ≠ .items name level more := by
  unfold optionIssue at h
  split at h
  · cases h
  · obtain ⟨level', _, h⟩ := except_bind_eq_ok.mp h
    split at h
    · split at h
      · obtain rfl := Option.some.inj (Except.ok.inj h)
        nofun
      · cases h
    · cases h

/-- An unlock asks for items if it is a choice that lacks them. -/
theorem demands_of_unlockIssue {u : Int × Unlock ν} {i : Issue ν} {name : Text}
    (hu : u ∈ activeUnlocks index state page)
    (h : (unlockIssue index page (state.selectionsOf (index.keyOf page)) u).outcome = .ok (some i))
    (hlack : i.lack = .items name level more) :
    i.page = page ∧ i.level = some level ∧
      ∃ choice, choice.name = name ∧ Demands index state page level choice more := by
  obtain ⟨l, unlock⟩ := u
  unfold unlockIssue at h
  cases unlock with
  | reward reward => cases h
  | choice choice =>
      obtain ⟨lack, hchoice, rfl⟩ := Option.map_eq_some_iff.mp (Except.ok.inj h)
      obtain ⟨more', rfl, _⟩ := choiceLack?_eq_some hchoice
      cases hlack
      exact ⟨rfl, rfl, choice, rfl, hu, hchoice⟩
  | pointBuy pool =>
      obtain ⟨balance, _, h⟩ := Traced.outcome_bind_eq_ok.mp h
      split at h
      · obtain rfl := Option.some.inj (Except.ok.inj h)
        cases hlack
      · cases h

/-- **What a page asks for of items, it asks for of a choice of its source.** -/
theorem demands_of_issue {found : List (Issue ν)}
    (h : (issues index config state page).outcome = .ok found) {i : Issue ν} (hi : i ∈ found)
    {name : Text} (hlack : i.lack = .items name level more) :
    i.page = page ∧ i.level = some level ∧
      ∃ choice, choice.name = name ∧ Demands index state page level choice more := by
  unfold issues at h
  split at h
  · exact absurd hlack (attributeIssues_no_items h hi)
  · split at h
    · obtain rfl := Except.ok.inj h
      exact absurd hlack (infoIssues_no_items hi)
    · split at h
      · obtain ⟨_, _, h⟩ := Traced.outcome_bind_eq_ok.mp h
        obtain rfl := Except.ok.inj h
        cases hi
      · unfold sourceIssues at h
        simp only [Traced.outcome_bind_eq_ok, Index.sourceId_outcome, Except.ok.injEq,
          exists_eq_left', Traced.outcome_mapM, Traced.outcome_lift, Traced.outcome_pure] at h
        obtain ⟨unlocks, hunlocks, options, hoptions, rfl⟩ := h
        obtain ⟨o, ho, rfl⟩ := List.mem_filterMap.mp hi
        rcases List.mem_append.mp ho with ho | ho
        · obtain ⟨u, hu, hissue⟩ := exists_of_mapM_eq_ok hunlocks ho
          exact demands_of_unlockIssue hu hissue hlack
        · obtain ⟨x, _, hissue⟩ := exists_of_mapM_eq_ok hoptions ho
          exact absurd hlack (optionIssue_no_items hissue)

/-! ## What can be fulfilled -/

/-- **Whether a page asks for more than can be selected.** Every item that a page asks for, it asks
for of a choice of its source, and the index has a group under the id of this choice. In this group
as many more items can be selected exactly if the number that the page goes by, which is that of
the members with those that are asked for, lies within the limit of the group and is no more than
the different items that the group offers together with those of its members that have no such item
to themselves. The choice's own group always has the room; and it has the items if the choice names
none of the catalog twice. -/
theorem demand_fulfillable_iff {found : List (Issue ν)}
    (h : (issues index config state page).outcome = .ok found) {i : Issue ν} (hi : i ∈ found)
    {name : Text} (hlack : i.lack = .items name level more) :
    (∃ choice, choice.name = name ∧ Demands index state page level choice more) ∧
    ∀ choice, Demands index state page level choice more →
      ∃ limit g, limitOf choice.givenLimit = some limit ∧ index.groupOf? page choice.id = some g ∧
        let needed := min limit (index.known choice.items).length
        let members := state.membersOf (index.keyOf page) choice.id
        members.length + more = needed ∧
        (state.Fulfillable index (index.keyOf page) g more ↔
          (∀ most, g.limit = some most → needed ≤ most) ∧
          needed ≤ (index.offered g).length
            + (members.length - (state.taken index (index.keyOf page) g).length)) ∧
        (g = .ofChoice page level choice →
          (∀ most, g.limit = some most → needed ≤ most) ∧
          ((index.known choice.items).Nodup →
            state.Fulfillable index (index.keyOf page) g more)) := by
  obtain ⟨_, _, hchoice⟩ := demands_of_issue h hi hlack
  refine ⟨hchoice, fun choice hdemands => ?_⟩
  obtain ⟨_, limit, hlimit, hsum⟩ := hdemands.length_add
  obtain ⟨g, hg⟩ := hdemands.exists_group
  obtain ⟨_, hid⟩ := index.mem_of_groupOf? hg
  have htaken := state.length_taken_le index (index.keyOf page) g
  have hoffered := state.length_free_add_taken index (index.keyOf page) g
  rw [hid] at htaken
  have hiff : state.Fulfillable index (index.keyOf page) g more ↔
      (∀ most, g.limit = some most → min limit (index.known choice.items).length ≤ most) ∧
      min limit (index.known choice.items).length ≤ (index.offered g).length
        + ((state.membersOf (index.keyOf page) choice.id).length
          - (state.taken index (index.keyOf page) g).length) := by
    rw [← hsum]
    constructor
    · rintro ⟨hroom, hitems⟩
      rw [hid] at hroom
      exact ⟨hroom, by omega⟩
    · rintro ⟨hroom, hitems⟩
      refine ⟨?_, by omega⟩
      rw [hid]
      exact hroom
  refine ⟨limit, g, hlimit, hg, hsum, hiff, ?_⟩
  rintro rfl
  have hroom : ∀ most, (Group.ofChoice page level choice : Group ν).limit = some most →
      min limit (index.known choice.items).length ≤ most := by
    intro most hmost
    have hsame : limitOf choice.givenLimit = some most := hmost
    rw [hlimit] at hsame
    obtain rfl := Option.some.inj hsame
    exact Nat.min_le_left _ _
  refine ⟨hroom, fun hnodup => hiff.mpr ⟨hroom, ?_⟩⟩
  have hall : (index.offered (.ofChoice page level choice)).length
      = (index.known choice.items).length := by
    unfold Index.offered
    exact congrArg List.length hnodup.dedup
  omega

/-! ## A choice that names an item twice -/

/-- A choice of two items that names one item only. -/
def doubledChoice : Choice := ⟨"g", "g", ["x", "x"], some 2, "ability"⟩

/-- A session on a new build from a source with this choice. -/
def doubledStart : Session Double (Guided.Call Double) where
  index := { catalog := (Catalog.addSource {} { plainSource "A" 1 with
    tiers := [⟨1, [.choice doubledChoice]⟩] }).addItem (plainItem "x") }
  config := {}
  state := { targetLevel := .whole 1 }

/-- Once the item is selected, one more is asked for, and there is none. -/
theorem demand_fulfillable_iff_doubledChoice :
    let s := Guided.after doubledStart [.select (.named "x") (.named "A") (.text "g") .null]
    ∃ found i g, (issues s.index s.config s.state "A").outcome = .ok found ∧ i ∈ found ∧
      i.lack = .items "g" 1 1 ∧ s.index.groupOf? "A" "g" = some g ∧
      ¬ s.state.Fulfillable s.index (s.index.keyOf "A") g 1 := by
  intro s
  obtain ⟨found, hfound, hany⟩ := except_eq_ok_of_any
    (p := fun found => found.any fun i => match i.lack with
      | .items name level more => name = "g" && level = 1 && more = 1
      | _ => false)
    (x := (issues s.index s.config s.state "A").outcome) (by decide +kernel)
  obtain ⟨i, hi, hasks⟩ := List.any_eq_true.mp hany
  have hlack : i.lack = .items "g" 1 1 := by
    split at hasks
    · rename_i name level more hlack
      simp only [Bool.and_eq_true, decide_eq_true_eq] at hasks
      rw [hlack, hasks.1.1, hasks.1.2, hasks.2]
    · cases hasks
  obtain ⟨⟨choice, _, hdemands⟩, hfulfill⟩ := demand_fulfillable_iff hfound hi hlack
  -- the source has one choice only
  have honly : ((activeUnlocks s.index s.state "A").all fun u =>
      u.2.choice?.all fun choice => decide (choice = doubledChoice)) = true := by decide +kernel
  obtain rfl : choice = doubledChoice := by
    simpa [Unlock.choice?] using List.all_eq_true.mp honly _ hdemands.active
  obtain ⟨limit, g, hlimit, hg, _, hiff, _⟩ := hfulfill doubledChoice hdemands
  refine ⟨found, i, g, hfound, hi, hlack, hg, fun hfulfillable => ?_⟩
  have hcounts : ((s.index.groupOf? "A" "g").all fun g =>
      decide ((s.index.offered g).length = 1) &&
        decide ((s.state.taken s.index (s.index.keyOf "A") g).length = 1)) = true := by
    decide +kernel
  have hneeded : min limit (s.index.known doubledChoice.items).length = 2 := by
    obtain rfl : 2 = limit := Option.some.inj hlimit
    decide +kernel
  have hmembers : (s.state.membersOf (s.index.keyOf "A") doubledChoice.id).length = 1 := by
    decide +kernel
  have hg' : s.index.groupOf? "A" "g" = some g := hg
  rw [hg'] at hcounts
  simp only [Option.all_some, Bool.and_eq_true, decide_eq_true_eq] at hcounts
  have hle := (hiff.mp hfulfillable).2
  omega

end Completeness

end CharacterBuild
