import CharacterBuild.Proofs.Calls
import CharacterBuild.Proofs.Scale
import CharacterBuild.Proofs.SelfLike

set_option autoImplicit false

/-! # Well-formed builds

In every build that a guided session reaches, the selections that are not settled suit the catalog:
each is held as its item allows, and its group lists it. The levels are in order too: the target
level lies in the range of levels and not below the level that was restored, and the groups of these
selections are open, above what was settled (`Build.WellFormed`). No check looks for any of this.
It holds because each request sees to its own part, and what carries it over to all others is
`Build.Steady`: levels have places on the scale, and a build that may still be restored has no
selections.

There is one way to bring the levels out of order. What is not a number is neither below the range
of levels nor above it, so a build can be restored at it, and nothing is in order with such a level
(`Guided.unordered_of_restored`). That this is the only way is the theorem of this module,
`Guided.wellFormed_after`.
-/

namespace CharacterBuild

variable {ν : Type} [Number ν]

/-! ## Well-formed selections -/

/-- A selection that suits the catalog: it is held as its item allows, and its group lists it. -/
structure Selection.Suits (index : Index ν) (x : Selection ν) : Prop where
  held : ∃ item, index.item? x.id = some item ∧ item.Holds x
  listed : ∀ g, index.groupNamed x.source.name x.group = .ok (some g) → x.id ∈ g.items

/-- A selection that is well formed in a build: besides, its group is open, above what was
settled. -/
structure Selection.WellFormed (index : Index ν) (s : Build ν) (x : Selection ν) : Prop
    extends x.Suits index where
  reached : ∀ g, index.groupNamed x.source.name x.group = .ok (some g) →
    (g.level : Level ν) ≤ s.targetLevel
  unsettled : ∀ g, index.groupNamed x.source.name x.group = .ok (some g) →
    ∀ r, s.settledUpTo = some r → r < (g.level : Level ν)

/-- A build with levels in range and well-formed selections. -/
structure Build.WellFormed (index : Index ν) (config : Config) (s : Build ν) : Prop where
  least : (config.minLevel : Level ν) ≤ s.targetLevel
  most : s.targetLevel ≤ (config.maxLevel : Level ν)
  restored : s.mode = .continuation → ∃ r, s.restoredAt = some r ∧ r ≤ s.targetLevel
  selections : ∀ x ∈ s.selections, x.locked = false → x.WellFormed index s

/-- A well-formed build in which levels have places. One that has not been changed yet is
without selections, so that it may be restored. -/
structure Build.Steady (index : Index ν) (config : Config) (s : Build ν) (changed : Bool) :
    Prop extends s.WellFormed index config where
  target : ∃ p, s.targetLevel.IsAt p
  settled : ∀ r, s.settledUpTo = some r → ∃ p, r.IsAt p
  fresh : changed = false → s.selections = []

variable {index : Index ν} {config : Config} {scope : Scope ν}

/-- What is put where there is room for it suits the catalog. -/
theorem Selection.Suits.of_room {s : Build ν} {item : Item ν} {x : Selection ν}
    {g : Option (Group ν)} {others : List (Selection ν)} (hid : x.id = item.id)
    (hheld : item.Holds x) (hitem : index.item? item.id = some item)
    (hgroup : index.groupNamed x.source.name x.group = .ok g)
    (hroom : s.Room item x.source g others) : x.Suits index where
  held := ⟨item, by rw [hid]; exact hitem, hheld⟩
  listed := fun g' hg' => by
    obtain rfl := Except.ok.inj (hgroup.symm.trans hg')
    rw [hid]
    exact hroom.takes.listed

omit [Number ν] in
/-- A selection still suits the catalog when it is changed in its place, within its item. -/
theorem Selection.Suits.revise {x y : Selection ν} (h : x.Suits index) (hplace : x.SamePlace y)
    (hheld : ∀ item, index.item? x.id = some item → item.Holds x → item.Holds y) :
    y.Suits index where
  held := by
    obtain ⟨item, hitem, hholds⟩ := h.held
    exact ⟨item, by rw [hplace.id]; exact hitem, hheld item hitem hholds⟩
  listed := by
    rw [hplace.source, hplace.group, hplace.id]
    exact h.listed

/-- What is well formed stays so among other selections at the same levels. -/
theorem Selection.WellFormed.of_levels {s s' : Build ν} {x : Selection ν}
    (h : x.WellFormed index s) (htarget : s'.targetLevel = s.targetLevel)
    (hsettled : s'.settledUpTo = s.settledUpTo) : x.WellFormed index s' where
  toSuits := h.toSuits
  reached := by rw [htarget]; exact h.reached
  unsettled := by rw [hsettled]; exact h.unsettled

/-- A selection stays well formed when it is changed in its place, within its item. -/
theorem Selection.WellFormed.revise {s : Build ν} {x y : Selection ν} (h : x.WellFormed index s)
    (hplace : x.SamePlace y)
    (hheld : ∀ item, index.item? x.id = some item → item.Holds x → item.Holds y) :
    y.WellFormed index s where
  toSuits := h.toSuits.revise hplace hheld
  reached := by rw [hplace.source, hplace.group]; exact h.reached
  unsettled := by rw [hplace.source, hplace.group]; exact h.unsettled

namespace Build

/-- A build with the same levels is well formed if its selections are. -/
theorem WellFormed.of_levels {s s' : Build ν} (h : s.WellFormed index config)
    (htarget : s'.targetLevel = s.targetLevel) (hmode : s'.mode = s.mode)
    (hrestored : s'.restoredAt = s.restoredAt)
    (hselections : ∀ x ∈ s'.selections, x.locked = false → x.WellFormed index s) :
    s'.WellFormed index config where
  least := by rw [htarget]; exact h.least
  most := by rw [htarget]; exact h.most
  restored := by rw [htarget, hmode, hrestored]; exact h.restored
  selections := fun x hx hopen => (hselections x hx hopen).of_levels htarget
    (by unfold settledUpTo isRestored; rw [hmode, hrestored])

theorem Steady.of_levels {s s' : Build ν} {changed : Bool} (h : s.Steady index config changed)
    (htarget : s'.targetLevel = s.targetLevel) (hmode : s'.mode = s.mode)
    (hrestored : s'.restoredAt = s.restoredAt)
    (hselections : ∀ x ∈ s'.selections, x.locked = false → x.WellFormed index s) :
    s'.Steady index config true where
  toWellFormed := h.toWellFormed.of_levels htarget hmode hrestored hselections
  target := by rw [htarget]; exact h.target
  settled := by
    have hsame : s'.settledUpTo = s.settledUpTo := by
      unfold settledUpTo isRestored
      rw [hmode, hrestored]
    rw [hsame]
    exact h.settled
  fresh := nofun

/-! ## Edits -/

/-- After an edit selections suit the catalog, if only items of the catalog are selected. -/
theorem Edit.suits {s s' : Build ν} (hedit : s.Edit index config scope s')
    (hputs : ∀ item x, scope.puts item x → index.item? item.id = some item)
    (h : ∀ x ∈ s.selections, x.locked = false → x.Suits index) :
    ∀ x ∈ s'.selections, x.locked = false → x.Suits index := by
  refine hedit.forall_mem h ?_ ?_
  · intro item x g others hid _ hheld hgroup hroom hput _
    exact .of_room hid hheld (hputs item x hput) hgroup hroom
  · intro x y hx hopen hplace hheld _ _
    exact (hx hopen).revise hplace hheld

/-- Where there is room for an item, a selection of it is well formed. -/
theorem Steady.wellFormed_of_room {s : Build ν} {changed : Bool} {item : Item ν}
    {x : Selection ν} {g : Option (Group ν)} {others : List (Selection ν)}
    (h : s.Steady index config changed) (hid : x.id = item.id) (hheld : item.Holds x)
    (hitem : index.item? item.id = some item)
    (hgroup : index.groupNamed x.source.name x.group = .ok g)
    (hroom : s.Room item x.source g others) : x.WellFormed index s where
  toSuits := .of_room hid hheld hitem hgroup hroom
  reached := fun g' hg' => by
    -- the group that the selection names is the one that takes the item
    obtain rfl := Except.ok.inj (hgroup.symm.trans hg')
    obtain ⟨p, hp⟩ := h.target
    have hreached := hroom.takes.reached
    rw [hp.lt_whole] at hreached
    rw [hp.whole_le]
    omega
  unsettled := fun g' hg' r hr => by
    obtain rfl := Except.ok.inj (hgroup.symm.trans hg')
    obtain ⟨p, hp⟩ := h.settled r hr
    have hunsettled := hroom.takes.unsettled
    unfold isSettled at hunsettled
    rw [hr, Option.any_some, decide_eq_false_iff_not, hp.whole_le] at hunsettled
    rw [hp.lt_whole]
    omega

/-- A selection that stays when a level is aimed at is in no group above that level. -/
theorem reached_of_mem_aimedAt {s : Build ν} {n : Int} {x : Selection ν} {g : Group ν}
    (htarget : ∃ p, s.targetLevel.IsAt p) (hx : x ∈ (s.aimedAt index n).selections)
    (hgroup : index.groupNamed x.source.name x.group = .ok (some g))
    (hreached : (g.level : Level ν) ≤ s.targetLevel) : g.level ≤ n := by
  obtain ⟨p, hp⟩ := htarget
  by_cases hrises : s.targetLevel ≤ (n : Level ν)
  · rw [hp.le_whole] at hrises
    rw [hp.whole_le] at hreached
    omega
  · have hkept : (!index.opensAboveAnywhere (n : Level ν) x.group) = true := by
      have hmem : x ∈ s.selections.filter fun x => !index.opensAboveAnywhere n x.group := by
        unfold aimedAt at hx
        rw [if_neg hrises] at hx
        exact hx
      exact (List.mem_filter.mp hmem).2
    -- it was kept when the level dropped, so no source has a group of its id above
    obtain ⟨id, hid, hfound⟩ := index.groupNamed_eq_ok_some hgroup
    by_cases habove : g.level ≤ n
    · exact habove
    · have hopens : index.opensAbove (n : Level ν) x.source.name x.group = true := by
        rw [hid]
        simp only [Index.opensAbove, hfound, Option.any_some, decide_eq_true_eq,
          Level.whole_lt_whole]
        omega
      rw [index.opensAboveAnywhere_of_opensAbove hopens] at hkept
      cases hkept

theorem Steady.aim {s : Build ν} {changed : Bool} {n : Int} (h : s.Steady index config changed)
    (hleast : config.minLevel ≤ n) (hmost : n ≤ config.maxLevel)
    (hsettled : ∀ r, s.settledUpTo = some r → ¬ (n : Level ν) < r) :
    Steady index config (s.aimedAt index n) true where
  least := Level.whole_le_whole.mpr hleast
  most := Level.whole_le_whole.mpr hmost
  restored := fun hmode => by
    obtain ⟨r, hr, _⟩ := h.restored hmode
    have hupTo : s.settledUpTo = some r := by
      have hmode : s.mode = .continuation := hmode
      simp [settledUpTo, isRestored, hmode, hr]
    obtain ⟨p, hp⟩ := h.settled r hupTo
    have hnot := hsettled r hupTo
    rw [hp.whole_lt] at hnot
    refine ⟨r, hr, (hp.le_whole n).mpr ?_⟩
    omega
  selections := fun x hx hopen => by
    have hwell := h.selections x ((aimedAt_sublist index s n).subset hx) hopen
    exact ⟨hwell.toSuits, fun g hg => Level.whole_le_whole.mpr
      (reached_of_mem_aimedAt h.target hx hg (hwell.reached g hg)), hwell.unsettled⟩
  target := ⟨2 * n, Level.isAt_whole n⟩
  settled := h.settled
  fresh := nofun

/-- **An edit keeps a build well formed**, if only items of the catalog are selected. -/
theorem Steady.edit {s s' : Build ν} {changed : Bool} (h : s.Steady index config changed)
    (hputs : ∀ item x, scope.puts item x → index.item? item.id = some item)
    (hedit : s.Edit index config scope s') : s'.Steady index config true := by
  -- all but a new level leaves the selections as well formed as they were in the build before
  have hstay : ∀ x ∈ s'.selections, x.locked = false → x.WellFormed index s := by
    refine hedit.forall_mem h.selections ?_ ?_
    · intro item x g others hid _ hheld hgroup hroom hput _
      exact h.wellFormed_of_room hid hheld (hputs item x hput) hgroup hroom
    · intro x y hx hopen hplace hheld _ _
      exact (hx hopen).revise hplace hheld
  cases hedit with
  | drop => exact h.of_levels rfl rfl rfl hstay
  | put => exact h.of_levels rfl rfl rfl hstay
  | revise => exact h.of_levels rfl rfl rfl hstay
  | aim _ hleast hmost hsettled => exact h.aim hleast hmost hsettled
  | fill hsame => exact h.of_levels hsame.target hsame.mode hsame.restoredAt hstay

/-- **A build that has not been changed is well formed after it is restored**: all its
selections are settled. -/
theorem Steady.restoration [ExactNumber ν] {s s' : Build ν} {restored : Selection ν → Prop}
    {level : Level ν} (h : s.Steady index config false) (hlevel : level.IsNumber)
    (hr : s.Restoration config restored level s') : s'.Steady index config true := by
  -- a number between two whole levels has a place, where comparisons are linear
  obtain ⟨p, hp⟩ := Level.isAt_of_between hlevel hr.least hr.most
  have hleast := hr.least
  have hmost := hr.most
  rw [hp.lt_whole] at hleast
  rw [hp.whole_lt] at hmost
  refine ⟨⟨?_, ?_, fun _ => ⟨level, hr.restoredAt, ?_⟩, fun x hx hopen => ?_⟩, ⟨p, ?_⟩,
    fun r hsettled => ⟨p, ?_⟩, nofun⟩
  · rw [hr.target, hp.whole_le]
    omega
  · rw [hr.target, hp.le_whole]
    omega
  · rw [hr.target]
    exact hlevel.refl
  · obtain ⟨settled, hselections, _, hlocked⟩ := hr.selections
    rw [hselections, h.fresh rfl, List.nil_append] at hx
    -- all restored selections are settled
    obtain ⟨y, _, rfl⟩ := hlocked x hx
    cases hopen
  · rw [hr.target]
    exact hp
  · have hlevel : some level = some r := by
      rw [← hsettled]
      simp [settledUpTo, isRestored, hr.mode, hr.restoredAt]
    rw [← Option.some.inj hlevel]
    exact hp

end Build

/-! ## Levels that are numbers -/

/-- What is not a number has no place among the whole numbers. -/
theorem Binary.eq_nan_of_compareInt {x : Binary} {n : Int} (h : x.compareInt n = none) :
    x = nan := by
  cases x with
  | nan => rfl
  | infinite negative => cases h
  | finite negative m e =>
      unfold compareInt at h
      dsimp only at h
      split at h <;> cases h

/-- A level that is no higher than another one is a number. -/
theorem Level.isNumber_of_le {a b : Level Double} (h : a ≤ b) : a.IsNumber := by
  cases a with
  | whole n => exact isNumber_whole n
  | flag b => exact ⟨Amount.whole_le_whole.mpr (Int.le_refl _), nofun⟩
  | real x =>
      have hparts : x.parts ≠ .nan := by
        intro hnan
        have hnone : (Amount.real x).compare b.amount = none := by
          cases b.amount with
          | whole n =>
              show x.parts.compareInt n = none
              rw [hnan]
              rfl
          | real y => exact Double.order_of_nan hnan
        rcases h with h | h
        · cases hnone.symm.trans h
        · cases hnone.symm.trans h
      refine ⟨?_, fun hnone => hparts (Binary.eq_nan_of_compareInt hnone)⟩
      -- a number equals itself, as it is no occurrence of what is not one
      rcases SelfLike.self_like x with hself | hnan
      · exact Or.inr hself
      · have hnan : (x.parts = .nan && x.parts = .nan && x.mark = x.mark) = true := hnan
        exact absurd (by simpa using hnan) hparts

namespace Build

/-- If a build was restored, then at a level that is a number. -/
def RestoredAtNumber (s : Build ν) : Prop := ∀ r, s.restoredAt = some r → r.IsNumber

/-- **A build that calls reach.** Its selections suit the catalog, and it is steady unless it was
restored at what is not a number. -/
structure Reached (index : Index ν) (config : Config) (s : Build ν) (changed : Bool) : Prop where
  suits : ∀ x ∈ s.selections, x.locked = false → x.Suits index
  origin : ∀ r, s.restoredAt = some r → changed = true ∧ s.mode = .continuation
  steady : s.RestoredAtNumber → s.Steady index config changed

variable {s s' : Build ν} {changed : Bool}

theorem Reached.edit (h : s.Reached index config changed)
    (hputs : ∀ item x, scope.puts item x → index.item? item.id = some item)
    (hedit : s.Edit index config scope s') : s'.Reached index config true where
  suits := hedit.suits hputs h.suits
  origin := by
    obtain ⟨hmode, hrestored⟩ := hedit.origin_eq
    intro r hr
    rw [hmode]
    exact ⟨rfl, (h.origin r (hrestored.symm.trans hr)).2⟩
  steady := by
    unfold RestoredAtNumber
    rw [hedit.origin_eq.2]
    exact fun hnumber => (h.steady hnumber).edit hputs hedit

theorem Reached.restoration [ExactNumber ν] {restored : Selection ν → Prop} {level : Level ν}
    (h : s.Reached index config false) (hr : s.Restoration config restored level s') :
    s'.Reached index config true where
  suits := hr.open_all h.suits
  origin := fun _ _ => ⟨rfl, hr.mode⟩
  steady := fun hnumber => by
    -- a build that has not been changed was not restored
    have hnew : s.RestoredAtNumber := fun r hrestored => by
      cases (h.origin r hrestored).1
    exact (h.steady hnew).restoration (hnumber level hr.restoredAt) hr

/-- **The level of the restoration decides whether a build is well formed.** -/
theorem Reached.wellFormed_iff {index : Index Double} {s : Build Double}
    (h : s.Reached index config changed) : s.WellFormed index config ↔ s.RestoredAtNumber := by
  constructor
  · intro hwell r hr
    obtain ⟨r', hr', hle⟩ := hwell.restored (h.origin r hr).2
    obtain rfl := Option.some.inj (hr.symm.trans hr')
    exact Level.isNumber_of_le hle
  · exact fun hnumber => (h.steady hnumber).toWellFormed

end Build

/-! ## Sessions -/

namespace Guided

/-- A call that selects items by their ids. -/
def Call.NamesItems : Call ν → Prop
  | .select item _ _ _ => ∃ id, item = .named id
  | _ => True

/-- The contract of sessions whose listeners let out no fault: calls reach the build. -/
def reachedContract (index : Index ν) (config : Config) : Contract ν where
  index := index
  config := config
  reacts := fun d => d.outcome = .ok ()
  holds := Build.Reached index config

theorem reachedContract_allows [ExactNumber ν] {c : Call ν} (hc : c.NamesItems) :
    (reachedContract index config).Allows c := by
  intro s changed s' hs heffect
  have hmade : s'.Reached index config true := by
    cases heffect with
    | edit hedit =>
        refine Build.Reached.edit hs (fun item x hputs => c.item?_of_puts ?_ hputs) hedit
        rintro mention source group payload rfl
        exact hc
    | restore hchanged _ _ hr =>
        subst hchanged
        exact Build.Reached.restoration hs hr
  exact .of_calm (fun _ hcalm => hcalm) hmade

/-- A new build is one that calls reach. -/
theorem reachedContract_newBuild {catalog : Catalog ν}
    (hrange : config.minLevel ≤ config.maxLevel) {s : Session ν (Call ν)}
    (hs : (newBuild catalog config).outcome = .ok s) :
    (reachedContract s.index config).Meets s := by
  obtain rfl := Except.ok.inj hs
  refine ⟨rfl, rfl, rfl, nofun, nofun, fun _ => ?_⟩
  refine ⟨⟨?_, ?_, nofun, nofun⟩, ⟨_, Level.isAt_whole _⟩, nofun, fun _ => rfl⟩
  · exact Level.whole_le_whole.mpr (Int.le_refl _)
  · exact Level.whole_le_whole.mpr hrange

/-- **Which of the builds that a guided session reaches are well formed**: all of them but those
that were restored at what is not a number; and there the selections that are not settled suit the
catalog all the same. Whatever is called in which order, it is only needed that items are selected
by their ids and that no listener lets out a fault. -/
theorem wellFormed_after {catalog : Catalog Double} {config : Config}
    (hrange : config.minLevel ≤ config.maxLevel) {s : Session Double (Call Double)}
    (hs : (newBuild catalog config).outcome = .ok s) {calls : List (Call Double)}
    (hcalls : ∀ c ∈ calls, c.NamesItems)
    (hcalm : ∀ t ∈ turns s calls, ∀ d ∈ t.deliveries, d.outcome = .ok ()) :
    let state := (after s calls).state
    (state.WellFormed s.index config ↔ ∀ r, state.restoredAt = some r → r.IsNumber) ∧
      ∀ x ∈ state.selections, x.locked = false → x.Suits s.index := by
  have hreached : (reachedContract s.index config).Meets (after s calls) :=
    (turns_keep (.of_all fun _ => trivial) (fun c hc => reachedContract_allows (hcalls c hc))
      (fun _ _ _ _ => trivial) (reachedContract_newBuild hrange hs) hcalm).1
  exact ⟨hreached.holds.wellFormed_iff, hreached.holds.suits⟩

/-- A build that was restored at the first level is well formed after further calls. -/
theorem wellFormed_after_sharedGroups :
    let s : Session Double (Call Double) := sharedStart { checksState := false }
    (after s sharedCalls).state.selections.length = 2 ∧
      (after s sharedCalls).state.WellFormed s.index s.config := by
  intro s
  have hs : (newBuild sharedGroups s.config).outcome = .ok s := newBuild_sharedGroups _
  have hcalls : ∀ c ∈ sharedCalls, c.NamesItems := by simp [sharedCalls, Call.NamesItems]
  have hcalm : ∀ t ∈ turns s sharedCalls, ∀ d ∈ t.deliveries, d.outcome = .ok () :=
    calm_of_all (by decide +kernel)
  have hnumber : ∀ r, (after s sharedCalls).state.restoredAt = some r → r.IsNumber := by
    intro r hr
    have hsame : ((after s sharedCalls).state.restoredAt.all (·.same (.whole 1))) = true := by
      decide +kernel
    rw [hr, Option.all_some] at hsame
    exact Level.isNumber_of_le (Or.inr (of_decide_eq_true hsame))
  obtain ⟨hiff, _⟩ := wellFormed_after (by decide) hs hcalls hcalm
  exact ⟨by decide +kernel, hiff.mpr hnumber⟩

/-- **A build can be restored at what is not a number**, and then its target level does not lie in
the range of levels. -/
theorem unordered_of_restored :
    let s := sharedStart {}
    let calls : List (Call Double) := [.restore [] { level := .real (.nan 0) }]
    (newBuild sharedGroups {}).outcome = .ok s ∧ (∀ c ∈ calls, c.NamesItems) ∧
      (∀ t ∈ turns s calls, t.outcome.toBool = true ∧ ∀ d ∈ t.deliveries, d.outcome = .ok ()) ∧
      ¬ (((1 : Int) : Level Double) ≤ (after s calls).state.targetLevel) := by
  intro s calls
  have hcalm : ∀ t ∈ turns s calls, ∀ d ∈ t.deliveries, d.outcome = .ok () :=
    calm_of_all (by decide +kernel)
  refine ⟨rfl, by simp [calls, Call.NamesItems], fun t ht => ⟨?_, hcalm t ht⟩, by decide +kernel⟩
  obtain rfl := List.mem_singleton.mp ht
  decide +kernel

end Guided

end CharacterBuild
