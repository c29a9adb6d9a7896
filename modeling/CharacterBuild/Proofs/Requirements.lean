import CharacterBuild.Proofs.Answers
import CharacterBuild.Proofs.Groups

set_option autoImplicit false

/-! # What a complete build fulfils

A build that lacks nothing fulfils what its sources require: the choices that are open are made as
far as the catalog has items for them, no pool is overspent, and the options of the items are
chosen (`Completeness.requirements_met`). The requirements are stated on the tiers of a source, and
all that a page says of them is that it says nothing (`Completeness.sourceIssues_eq_nil_iff`).

Two things are not looked at. A source with the name of a fixed page has no page of its own. And a
source that unlocks nothing between the settled levels and the target level has no page at all, so
that the options are not asked for of what is selected from it outside of its groups; that this
does happen is shown at the end.
-/

namespace CharacterBuild

variable {ν : Type}

/-! ## What a source unlocks -/

theorem Source.mem_unlocks {source : Source ν} {u : Int × Unlock ν} :
    u ∈ source.unlocks ↔ ∃ tier ∈ source.tiers, u.1 = tier.level ∧ u.2 ∈ tier.unlocks := by
  unfold unlocks Tier.sort
  simp only [List.mem_flatMap, List.mem_mergeSort, List.mem_map]
  constructor
  · rintro ⟨tier, htier, unlock, hunlock, rfl⟩
    exact ⟨tier, htier, rfl, hunlock⟩
  · rintro ⟨tier, htier, hlevel, hunlock⟩
    exact ⟨tier, htier, u.2, hunlock, by rw [← hlevel]⟩

theorem Index.source?_eq_some_iff {index : Index ν} {name : Text} {source : Source ν} :
    index.source? name = some source ↔ (name, source) ∈ index.catalog.sources.entries :=
  ⟨Directory.mem_of_find?, Directory.find?_of_mem⟩

variable [Number ν]

namespace Completeness

variable {index : Index ν} {config : Config} {state : Build ν} {name : Text} {source : Source ν}

theorem inWindow_eq_not_isOutside (state : Build ν) (level : Int) :
    Index.inWindow state.settledUpTo (some state.targetLevel) level = !isOutside state level := by
  unfold Index.inWindow isOutside Build.isSettled
  cases state.settledUpTo <;> simp

/-- What is looked at of a source is what it unlocks within the levels that count. -/
theorem mem_activeUnlocks (hsource : index.source? name = some source) {u : Int × Unlock ν} :
    u ∈ activeUnlocks index state name ↔ u ∈ source.unlocks ∧ isOutside state u.1 = false := by
  unfold activeUnlocks Index.unlocks
  rw [index.entry?_of_mem (Index.source?_eq_some_iff.mp hsource)]
  dsimp only
  rw [List.mem_filter, inWindow_eq_not_isOutside, Bool.not_eq_true']
  rfl

/-- A source with something to look at has a page. -/
theorem mem_openPages (hsource : index.source? name = some source)
    (hactive : activeUnlocks index state name ≠ []) : name ∈ openPages index state := by
  refine List.mem_append_left _ (List.mem_filter.mpr ⟨?_, by simpa using hactive⟩)
  exact List.mem_map.mpr ⟨_, Index.source?_eq_some_iff.mp hsource, rfl⟩

/-! ## A page that says nothing -/

/-- A choice of a source that leaves nothing to be chosen. -/
def ChoiceMade (index : Index ν) (selections : List (Selection ν)) (choice : Choice) : Prop :=
  ∀ limit, limitOf choice.givenLimit = some limit →
    min limit (choice.items.countP fun id => (index.item? id).isSome)
      ≤ selections.countP fun x => x.group.isText choice.id

/-- A pool that is not overspent. -/
def PoolCovered (index : Index ν) (selections : List (Selection ν)) (pool : PointBuy ν) : Prop :=
  ∃ b, (Balance.ofSelections index.catalog pool selections).outcome = .ok b ∧
    ¬ b.current < .whole 0

/-- A selection with all options that its item needs, unless it is locked or its group lies outside
of the levels that count. -/
def OptionsChosen (index : Index ν) (state : Build ν) (source : Text) (x : Selection ν) : Prop :=
  x.locked = false → ∃ level, index.levelOf source x.group = .ok level ∧
    (level.any (isOutside state) = false → ∀ item, index.item? x.id = some item →
      item.neededOptions ≤ x.options.length)

omit [Number ν] in
theorem choiceLack?_eq_none_iff {level : Int} {choice : Choice} {selections : List (Selection ν)} :
    choiceLack? index level choice selections = none ↔ ChoiceMade index selections choice := by
  unfold choiceLack? ChoiceMade
  cases limitOf choice.givenLimit with
  | none => simp
  | some limit =>
      simp only [Option.some.injEq, forall_eq', ite_eq_left_iff, reduceCtorEq, imp_false,
        Decidable.not_not]

/-- An unlock about which its page says nothing. -/
theorem unlockIssue_eq_none_iff {selections : List (Selection ν)} {u : Int × Unlock ν} :
    (unlockIssue index name selections u).outcome = .ok none ↔
      (∀ choice, u.2 = .choice choice → ChoiceMade index selections choice) ∧
        ∀ pool, u.2 = .pointBuy pool → PoolCovered index selections pool := by
  unfold unlockIssue
  cases u.2 with
  | reward reward => simp
  | choice choice => simp [choiceLack?_eq_none_iff]
  | pointBuy pool =>
      simp only [Traced.outcome_bind_eq_ok, reduceCtorEq, false_implies, implies_true, true_and,
        Unlock.pointBuy.injEq, forall_eq']
      refine exists_congr fun b => and_congr_right fun _ => ?_
      split <;> simp_all

theorem optionIssue_eq_none_iff {x : Selection ν} :
    optionIssue index state name x = .ok none ↔ OptionsChosen index state name x := by
  unfold optionIssue OptionsChosen
  cases x.locked with
  | true => simp
  | false =>
      simp only [Bool.false_eq_true, if_false, forall_const, except_bind_eq_ok]
      refine exists_congr fun level => and_congr_right fun _ => ?_
      split
      · rename_i item hcounts hitem
        split <;> simp_all
      · rename_i hother
        refine ⟨fun _ hcounts item hitem => absurd hitem (hother item hcounts), fun _ => rfl⟩

/-- **The page of a source says nothing** if all that is looked at is fulfilled. -/
theorem sourceIssues_eq_nil_iff (hsource : index.source? name = some source) :
    (sourceIssues index state name).outcome = .ok [] ↔
      (∀ u ∈ activeUnlocks index state name,
        (∀ choice, u.2 = .choice choice →
          ChoiceMade index (state.selectionsOf source.key) choice) ∧
        ∀ pool, u.2 = .pointBuy pool →
          PoolCovered index (state.selectionsOf source.key) pool) ∧
      ∀ x ∈ state.selectionsOf source.key, OptionsChosen index state name x := by
  have hkey : index.keyOf name = source.key := by
    unfold Index.keyOf
    rw [hsource]
  have hnone : ∀ l : List (Option (Issue ν)), (l.filterMap fun i => i) = [] ↔ ∀ i ∈ l, i = none := by
    intro l
    simp [List.filterMap_eq_nil_iff]
  have hunlocks : (∃ r, (activeUnlocks index state name).mapM (fun u =>
        (unlockIssue index name (state.selectionsOf source.key) u).outcome) = .ok r ∧
          ∀ i ∈ r, i = none) ↔
      ∀ u ∈ activeUnlocks index state name,
        (∀ choice, u.2 = .choice choice →
          ChoiceMade index (state.selectionsOf source.key) choice) ∧
        ∀ pool, u.2 = .pointBuy pool →
          PoolCovered index (state.selectionsOf source.key) pool := by
    rw [mapM_eq_ok_forall_iff]
    simp only [exists_eq_right, unlockIssue_eq_none_iff]
  have hoptions : (∃ r, (state.selectionsOf source.key).mapM (optionIssue index state name) = .ok r ∧
        ∀ i ∈ r, i = none) ↔
      ∀ x ∈ state.selectionsOf source.key, OptionsChosen index state name x := by
    rw [mapM_eq_ok_forall_iff]
    simp only [exists_eq_right, optionIssue_eq_none_iff]
  rw [← hunlocks, ← hoptions]
  unfold sourceIssues
  simp only [Traced.outcome_bind_eq_ok, Index.sourceId_outcome, Except.ok.injEq, hkey,
    exists_eq_left', Traced.outcome_mapM, Traced.outcome_lift, Traced.outcome_pure, hnone,
    List.forall_mem_append]
  constructor
  · rintro ⟨unlocks, hu, options, ho, hunone, honone⟩
    exact ⟨⟨unlocks, hu, hunone⟩, options, ho, honone⟩
  · rintro ⟨⟨unlocks, hu, hunone⟩, options, ho, honone⟩
    exact ⟨unlocks, hu, options, ho, hunone, honone⟩

/-! ## Requirements of a source -/

/-- The page of a source is looked at if the source unlocks something that counts. -/
theorem sourceIssues_of_allIssues (h : (allIssues index config state).outcome = .ok [])
    (hsource : index.source? name = some source) (hattributes : name ≠ attributesPage)
    (hinfo : name ≠ infoPage) (hactive : activeUnlocks index state name ≠ []) :
    (sourceIssues index state name).outcome = .ok [] := by
  have hpage := allIssues_eq_nil_iff.mp h name (mem_openPages hsource hactive)
  unfold issues at hpage
  rw [if_neg hattributes, if_neg hinfo, hsource] at hpage
  exact hpage

/-- A group that is open within the levels that count comes from an unlock that is looked at. -/
theorem activeUnlocks_ne_nil_of_group (hsource : index.source? name = some source)
    {group : Value ν} {g : Group ν} (hgroup : index.groupNamed name group = .ok (some g))
    (hlevel : isOutside state g.level = false) : activeUnlocks index state name ≠ [] := by
  obtain ⟨id, _, hfound⟩ := index.groupNamed_eq_ok_some hgroup
  obtain ⟨source', hsource', u, hu, hg⟩ :=
    index.exists_unlock_of_mem_groups (index.mem_of_groupOf? hfound).1
  rw [← Index.source?_eq_some_iff, hsource] at hsource'
  obtain rfl := Option.some.inj hsource'
  exact List.ne_nil_of_mem ((mem_activeUnlocks hsource).mpr ⟨hu, hg ▸ hlevel⟩)

end Completeness

namespace Guided

open Completeness

variable {κ : Type}

/-- **A build that is passed as complete fulfils what its sources require.** If nothing is missing,
it is finished as soon as its record can be made, and of every source, but for one that has the
name of a fixed page: every choice within the levels that count is made, as far as the catalog has
the items; no pool within these levels is overspent; and an open selection from the source of an
item of the catalog has the options it needs if its group is open within these levels, and also if
it has no group of the source, provided that the source unlocks anything within these levels. -/
theorem requirements_met {s : Session ν κ}
    (h : (allIssues s.index s.config s.state).outcome = .ok []) :
    (finalize s).outcome = (Record.assemble s.index s.state).outcome.map .ok ∧
    ∀ name source, s.index.source? name = some source → name ≠ attributesPage → name ≠ infoPage →
      (∀ tier ∈ source.tiers, isOutside s.state tier.level = false →
        (∀ choice, .choice choice ∈ tier.unlocks →
          ChoiceMade s.index (s.state.selectionsOf source.key) choice) ∧
        ∀ pool, .pointBuy pool ∈ tier.unlocks →
          PoolCovered s.index (s.state.selectionsOf source.key) pool) ∧
      ∀ x ∈ s.state.selectionsOf source.key, x.locked = false →
        ∀ item, s.index.item? x.id = some item →
          (∀ g, s.index.groupNamed name x.group = .ok (some g) →
            isOutside s.state g.level = false → item.neededOptions ≤ x.options.length) ∧
          (s.index.groupNamed name x.group = .ok none →
            activeUnlocks s.index s.state name ≠ [] → item.neededOptions ≤ x.options.length) := by
  refine ⟨?_, fun name source hsource hattributes hinfo => ⟨fun tier htier hlevel => ?_,
    fun x hx hopen item hitem => ?_⟩⟩
  · unfold finalize
    rw [Traced.outcome_bind_of_ok h]
    simp
  · have hfulfilled : ∀ unlock ∈ tier.unlocks,
        (∀ choice, unlock = .choice choice →
          ChoiceMade s.index (s.state.selectionsOf source.key) choice) ∧
        ∀ pool, unlock = .pointBuy pool →
          PoolCovered s.index (s.state.selectionsOf source.key) pool := by
      intro unlock hunlock
      have hactive : (tier.level, unlock) ∈ activeUnlocks s.index s.state name :=
        (mem_activeUnlocks hsource).mpr
          ⟨Source.mem_unlocks.mpr ⟨tier, htier, rfl, hunlock⟩, hlevel⟩
      have hpage := sourceIssues_of_allIssues h hsource hattributes hinfo
        (List.ne_nil_of_mem hactive)
      exact ((sourceIssues_eq_nil_iff hsource).mp hpage).1 _ hactive
    exact ⟨fun choice hchoice => (hfulfilled _ hchoice).1 choice rfl,
      fun pool hpool => (hfulfilled _ hpool).2 pool rfl⟩
  · have hchosen : activeUnlocks s.index s.state name ≠ [] →
        OptionsChosen s.index s.state name x := fun hactive =>
      ((sourceIssues_eq_nil_iff hsource).mp
        (sourceIssues_of_allIssues h hsource hattributes hinfo hactive)).2 x hx
    refine ⟨fun g hgroup hlevel => ?_, fun hgroup hactive => ?_⟩
    · obtain ⟨level, hlevelOf, hoptions⟩ :=
        hchosen (activeUnlocks_ne_nil_of_group hsource hgroup hlevel) hopen
      unfold Index.levelOf at hlevelOf
      rw [hgroup] at hlevelOf
      obtain rfl := Except.ok.inj hlevelOf
      exact hoptions (by simpa using hlevel) item hitem
    · obtain ⟨level, hlevelOf, hoptions⟩ := hchosen hactive hopen
      unfold Index.levelOf at hlevelOf
      rw [hgroup] at hlevelOf
      obtain rfl := Except.ok.inj hlevelOf
      exact hoptions rfl item hitem

/-- With an item of it selected, the choice of the one source is made, and the other source opens
later. -/
theorem requirements_met_sharedGroups :
    let s := after (sharedStart { requiresName := false })
      [.select (.named "x") (.named "A") (.text "g") .null]
    (allIssues s.index s.config s.state).outcome = .ok [] ∧
      ChoiceMade s.index (s.state.selectionsOf ⟨"A", .primary⟩)
        ⟨"g", "g", ["x", "y"], some 1, "ability"⟩ := by
  intro s
  obtain ⟨issues, hissues, hempty⟩ := except_eq_ok_of_any (p := List.isEmpty)
    (x := (allIssues s.index s.config s.state).outcome) (by decide +kernel)
  obtain rfl := List.isEmpty_iff.mp hempty
  have hindex : s.index = { catalog := sharedGroups } :=
    (idle_after (newBuild_sharedGroups _) _).index
  have hsource : s.index.source? "A" = some (plainSource "A" 1) := by
    rw [hindex]
    rfl
  obtain ⟨hfulfilled, _⟩ := (requirements_met hissues).2 "A" (plainSource "A" 1) hsource
    (by decide) (by decide)
  exact ⟨hissues, (hfulfilled _ (List.mem_singleton.mpr rfl) (by decide +kernel)).1 _
    (List.mem_singleton.mpr rfl)⟩

/-- An item of which one of its options has to be chosen. -/
def optionItem : Item Double :=
  { plainItem "w" with options := [⟨"o", "o"⟩], givenLimit := some 1 }

/-- A session on a new build from the two sources and this item. -/
def optionStart : Session Double (Call Double) where
  index := { catalog := sharedGroups.addItem optionItem }
  config := {}
  state := { targetLevel := .whole 1 }

/-- Nothing is missing of a build that was restored at level 1 and then took the item from a source
that unlocks nothing above that level, though none of its options is chosen. -/
theorem optionsChosen_fails :
    let s := after optionStart
      [.restore [] {}, .select (.named "w") (.named "A") .null .null]
    (allIssues s.index s.config s.state).outcome = .ok [] ∧ (finalize s).outcome.toBool = true ∧
      ¬ ∀ x ∈ s.state.selectionsOf ⟨"A", .primary⟩, OptionsChosen s.index s.state "A" x := by
  intro s
  obtain ⟨issues, hissues, hempty⟩ := except_eq_ok_of_any (p := List.isEmpty)
    (x := (allIssues s.index s.config s.state).outcome) (by decide +kernel)
  obtain rfl := List.isEmpty_iff.mp hempty
  refine ⟨hissues, by decide +kernel, fun h => ?_⟩
  -- the one selection from the source is open, in no group, and lacks an option
  have hlacks : (s.state.selectionsOf ⟨"A", .primary⟩).any (fun x => !x.locked &&
      (s.index.levelOf "A" x.group).toOption.any Option.isNone &&
      (s.index.item? x.id).any fun item => decide (x.options.length < item.neededOptions)) = true := by
    decide +kernel
  obtain ⟨x, hx, hlacks⟩ := List.any_eq_true.mp hlacks
  simp only [Bool.and_eq_true, Bool.not_eq_true', Option.any_eq_true, decide_eq_true_eq] at hlacks
  obtain ⟨⟨hopen, level, hlevel, hnone⟩, item, hitem, hless⟩ := hlacks
  obtain ⟨level', hlevel', hoptions⟩ := h x hx hopen
  rw [hlevel'] at hlevel
  obtain rfl := Option.some.inj hlevel
  obtain rfl := Option.isNone_iff_eq_none.mp hnone
  exact absurd (hoptions rfl item hitem) (Nat.not_le.mpr hless)

end Guided

end CharacterBuild
