import CharacterBuild.Proofs.Commits
import CharacterBuild.Proofs.Courses
import CharacterBuild.Proofs.Likeness
import CharacterBuild.Proofs.Queries
import CharacterBuild.Proofs.ReadBack
import CharacterBuild.Proofs.Requirements
import Mathlib.Data.List.Dedup

set_option autoImplicit false

/-! # Choosing all options

An item asks for as many of its options as its limit says, or for all if it has fewer
(`Item.neededOptions`). Where an open selection is asked to take all options of its item, it takes
each id once, up to the limit (`Item.mostOptions`). That is as many as the item asks for, unless its
limit counts on an id that stands for several options: options are asked for by their number and
taken by their ids. `Guided.options_suffice_iff` says so of every open selection in every build that
a session reaches.

Such a selection is found by its item and its source since it is the first one of its item
(`Build.OpenFirst`), and the check does not object, since a build in which something is selected has
passed it (`Guided.passed_after`).
-/

namespace CharacterBuild

variable {ν : Type} [Number ν]

/-! ## Options that are different -/

/-- First occurrences among values that are made of others. -/
theorem firstsBy_map {α β : Type} (alike : β → β → Bool) (f : α → β) (l : List α) :
    firstsBy alike (l.map f) = (firstsBy (fun a b => alike (f a) (f b)) l).map f := by
  have hstep : ∀ (kept : List α) (a : α), addNew alike (kept.map f) (f a)
      = (addNew (fun a b => alike (f a) (f b)) kept a).map f := by
    intro kept a
    unfold addNew
    rw [List.any_map]
    simp only [Function.comp_def]
    split <;> simp
  -- by induction on the list, for whatever was kept before
  have key : ∀ (l kept : List α), (l.map f).foldl (addNew alike) (kept.map f)
      = (l.foldl (addNew fun a b => alike (f a) (f b)) kept).map f := by
    intro l
    induction l with
    | nil => exact fun kept => rfl
    | cons a rest ih =>
        intro kept
        rw [List.map_cons, List.foldl_cons, List.foldl_cons, hstep, ih]
  exact key l []

/-- First occurrences are as many as there are different elements. -/
theorem length_firstsBy_eq {α : Type} [DecidableEq α] (l : List α) :
    (firstsBy (fun a b => decide (a = b)) l).length = l.dedup.length := by
  have hnodup : (firstsBy (fun a b => decide (a = b)) l).Nodup :=
    (firstsBy_pairwise _ l).imp fun h => of_decide_eq_false h
  refine ((List.perm_ext_iff_of_nodup hnodup (List.nodup_dedup l)).mpr fun a => ?_).length_eq
  rw [List.mem_dedup]
  refine ⟨mem_of_mem_firstsBy, fun ha => ?_⟩
  obtain ⟨b, hb, heq⟩ := exists_alike_firstsBy (fun a b => decide (a = b)) (by simp) ha
  exact of_decide_eq_true heq ▸ hb

namespace Options

/-- Of options that are named by ids, each id is kept once. -/
theorem length_distinct (ids : List Text) :
    (distinct (ids.map (Value.text (ν := ν)))).length = ids.dedup.length := by
  unfold distinct
  rw [firstsBy_map, List.length_map]
  simp only [Value.alike_text]
  exact length_firstsBy_eq ids

end Options

namespace Item

/-- How many options of an item can be held: those with different ids, up to the limit. -/
def mostOptions (item : Item ν) : Nat :=
  match item.optionLimit with
  | some limit => min limit item.optionIds.dedup.length
  | none => item.optionIds.dedup.length

omit [Number ν] in
/-- **As many options as an item asks for can be held** unless its limit counts on an id that stands
for several options. -/
theorem neededOptions_le_iff (item : Item ν) : item.neededOptions ≤ item.mostOptions ↔
    ∀ limit, item.optionLimit = some limit →
      limit ≤ item.optionIds.dedup.length ∨ item.optionIds.Nodup := by
  have hle : item.optionIds.dedup.length ≤ item.optionIds.length :=
    (List.dedup_sublist _).length_le
  have hnodup : item.optionIds.Nodup ↔ item.optionIds.dedup.length = item.optionIds.length := by
    rw [← List.dedup_eq_self]
    exact ⟨congrArg List.length, (List.dedup_sublist _).eq_of_length⟩
  have hlength : item.optionIds.length = item.options.length := List.length_map _
  unfold neededOptions mostOptions
  cases item.optionLimit with
  | none => simp
  | some limit =>
      simp only [Option.some.injEq, forall_eq', hnodup, ← hlength]
      omega

end Item

namespace Options

omit [Number ν] in
/-- As many options are kept as there is room for. -/
theorem length_of_cut (item : Item ν) (id : Text) (options : List (Value ν)) :
    ∃ kept reason, (cut item id options).outcome = .ok (kept, reason) ∧
      kept.length = match item.optionLimit with
        | some limit => min limit options.length
        | none => options.length := by
  obtain ⟨reason, hcut, _⟩ := cut_outcome item id options
  refine ⟨_, reason, hcut, ?_⟩
  cases item.optionLimit with
  | none => rfl
  | some limit => exact List.length_take

/-- **Where all options are asked for, as many are kept as can be held.** -/
theorem clean_all (item : Item ν) (id : Text) : ∃ kept reason,
    (clean (some item) id (.list (item.optionIds.map .text))).outcome = .ok (kept, reason) ∧
      kept.length = item.mostOptions := by
  have hoffered : ∀ o ∈ item.optionIds.map (Value.text (ν := ν)), ∃ id ∈ item.optionIds,
      o = .text id := by
    intro o ho
    obtain ⟨id, hid, rfl⟩ := List.mem_map.mp ho
    exact ⟨id, hid, rfl⟩
  rw [clean_of_offered hoffered]
  obtain ⟨kept, reason, hcut, hlength⟩ :=
    length_of_cut item id (distinct (item.optionIds.map (Value.text (ν := ν))))
  rw [length_distinct] at hlength
  exact ⟨kept, reason, hcut, hlength⟩

end Options

/-! ## Selections that are found -/

namespace Build

/-- Every open selection is the first one of its item. -/
def OpenFirst (s : Build ν) : Prop :=
  s.selections.Pairwise fun y x => x.locked = false → y.id ≠ x.id

variable {index : Index ν} {config : Config} {scope : Scope ν} {s s' : Build ν}

theorem OpenFirst.edit (h : s.OpenFirst) (hedit : s.Edit index config scope s') :
    s'.OpenFirst := by
  cases hedit with
  | drop hx hopen => exact h.sublist List.filter_sublist
  | @put item x g others hnew hid hopen hheld hgroup hroom hputs =>
      refine List.pairwise_append.mpr ⟨h.sublist hroom.sublist, List.pairwise_singleton _ _, ?_⟩
      intro y hy z hz _
      rw [List.mem_singleton.mp hz, hid]
      exact hnew y (hroom.sublist.subset hy)
  | @revise before after x y hs hopen hplace hheld hcount =>
      unfold OpenFirst at h ⊢
      rw [hs] at h
      simpa [List.pairwise_append, hplace.id, hplace.locked] using h
  | aim haims hleast hmost hsettled => exact h.sublist (aimedAt_sublist index s _)
  | fill hsame => exact h.sublist hsame.sublist

/-- What is restored stands behind all else and is settled. -/
theorem OpenFirst.restoration {restored : Selection ν → Prop} {level : Level ν} (h : s.OpenFirst)
    (hr : s.Restoration config restored level s') : s'.OpenFirst := by
  obtain ⟨settled, hselections, _, hlocked⟩ := hr.selections
  have hnone : ∀ x ∈ settled, x.locked ≠ false := by
    intro x hx
    obtain ⟨y, _, rfl⟩ := hlocked x hx
    nofun
  unfold OpenFirst
  rw [hselections, List.pairwise_append]
  refine ⟨h, List.pairwise_of_forall_mem_list fun y _ x hx hopen => absurd hopen (hnone x hx),
    fun y _ x hx hopen => absurd hopen (hnone x hx)⟩

/-- **An open selection is found by its item and its source.** -/
theorem OpenFirst.found (h : s.OpenFirst) {x : Selection ν} (hx : x ∈ s.selections)
    (hopen : x.locked = false) : s.selection? x.id (some x.source) = some x := by
  obtain ⟨before, after, hs⟩ := List.append_of_mem hx
  unfold OpenFirst at h
  rw [hs, List.pairwise_append] at h
  refine List.find?_eq_some_iff_append.mpr ⟨by simp [Selection.isOf], before, after, hs, ?_⟩
  intro y hy
  have hne := h.2.2 y hy x (by simp) hopen
  simp [Selection.isOf, hne]

end Build

namespace Guided

/-- In whatever build a session reaches, open selections are the first ones of their items. -/
theorem openFirst_after {catalog : Catalog ν} {config : Config} {s : Session ν (Call ν)}
    (hs : (newBuild catalog config).outcome = .ok s) (calls : List (Call ν)) :
    (after s calls).state.OpenFirst := by
  refine (turns_keep (C := statesWith s.index config Build.OpenFirst) (.of_all fun _ => trivial)
    (fun c _ state changed state' h heffect => ?_) (fun _ _ _ _ => trivial) ?_
    fun _ _ _ _ => trivial).1.holds
  · suffices h' : state'.OpenFirst from ⟨h', fun _ _ _ _ => h'⟩
    cases heffect with
    | edit hedit => exact Build.OpenFirst.edit h hedit
    | restore _ _ _ hr => exact Build.OpenFirst.restoration h hr
  · obtain rfl := Except.ok.inj hs
    exact ⟨rfl, rfl, rfl, List.Pairwise.nil⟩

/-- A build in which something is selected has no violations, if states are checked. -/
def PassedIfAny (index : Index ν) (config : Config) (s : Build ν) : Prop :=
  config.checksState = true → s.selections ≠ [] → s.violations index = .ok []

/-- A change that passes the check leaves a build without violations. -/
theorem passedIfAny_kept (index : Index ν) (config : Config) :
    KeptByCommits index config (fun _ _ => True) (PassedIfAny index config) where
  commits := by
    intro s c change hmeets _ _ hpass _ hchecks _
    have hindex : s.index = index := hmeets.index
    have hconfig : s.config = config := hmeets.config
    rw [← hindex]
    exact hpass (by rw [hconfig]; exact hchecks)
  forced := fun _ htakes hchecks _ => htakes.passes hchecks

/-- **In whatever build a session reaches, something is selected only if there are no violations**,
if states are checked. -/
theorem Starts.passed_after {s : Session ν (Call ν)} (hs : Starts s) (calls : List (Call ν)) :
    PassedIfAny s.index s.config (after s calls).state := by
  refine (holds_after (passedIfAny_kept s.index s.config) ?_ fun _ _ _ => trivial).holds
  refine ⟨rfl, rfl, hs.idle_unchanged.1, fun _ hany => ?_⟩
  cases hs with
  | newBuild h =>
      obtain rfl := Except.ok.inj h
      exact absurd rfl hany
  | ofState h =>
      obtain ⟨rfl, hclean⟩ := of_ofState h
      exact hclean

/-- The same of a session on a new build. -/
theorem passed_after {catalog : Catalog ν} {config : Config} {s : Session ν (Call ν)}
    (hs : (newBuild catalog config).outcome = .ok s) (calls : List (Call ν)) :
    PassedIfAny s.index config (after s calls).state := by
  have hpassed := (Starts.newBuild hs).passed_after calls
  obtain rfl := Except.ok.inj hs
  exact hpassed

end Guided

/-! ## Asking for all options -/

namespace Plan

variable {index : Index ν} {s : Build ν} {x : Selection ν} {asked : Value ν}
  {options : List (Value ν)} {reason : Option (Reason ν)}

/-- Options that are asked for replace those that an open selection has, unless they are alike. -/
theorem replaceOptions_of_clean (hx : s.selection? x.id (some x.source) = some x)
    (hopen : x.locked = false)
    (hclean : (Options.clean (index.item? x.id) x.id asked).outcome = .ok (options, reason)) :
    (replaceOptions index s x.id x.source asked).outcome
      = .ok (if Value.alikeItems options x.options then .keep reason
        else withOptions s x.id x.source options (.optionsSet x.id x.source.name options) reason) := by
  unfold replaceOptions
  rw [hx]
  dsimp only
  rw [hopen, if_neg (by simp), Traced.outcome_bind_of_ok hclean]
  dsimp only
  split <;> rfl

end Plan

omit [Number ν] in
/-- As many options as can be held do not go beyond the limit. -/
theorem Item.mostOptions_le {item : Item ν} {limit : Nat} (h : item.optionLimit = some limit) :
    item.mostOptions ≤ limit := by
  unfold mostOptions
  rw [h]
  exact Nat.min_le_left ..

/-- **Other options for a selection pass the check**, if they do not go beyond the limit. -/
theorem Plan.SetsOptions.violations {index : Index ν} {s : Build ν} {id : Text} {source : SourceId}
    {item : Item ν} {x : Selection ν} {options : List (Value ν)} {change : Change ν}
    (h : SetsOptions s id source options change) (hx : s.selection? id (some source) = some x)
    (hitem : index.item? id = some item) (hclean : s.violations index = .ok [])
    (hfits : ∀ limit, item.optionLimit = some limit → options.length ≤ limit) :
    change.state.violations index = .ok [] := by
  obtain ⟨before, after, hsplit, hmodify⟩ := Build.modify_of_selection? hx
  rw [h.state, hmodify]
  refine Build.violations_revise hclean hsplit ⟨rfl, rfl, rfl, rfl⟩ ?_
  unfold Build.optionViolation?
  rw [← Build.selection?_id hx] at hitem
  show (match (index.item? x.id).bind Item.optionLimit with
    | some limit => if limit < options.length then _ else _
    | none => none) = none
  rw [hitem, Option.bind_some]
  cases hlimit : item.optionLimit with
  | none => rfl
  | some limit => exact if_neg (Nat.not_lt.mpr (hfits limit hlimit))

namespace Session

variable {κ : Type} {run : κ → Action ν κ (Answer ν)} {s : Session ν κ} {x : Selection ν}
  {item : Item ν}

/-- Replacing options is the plan carried out. -/
theorem replaceOptions_carried (hrun : ∀ c, (run c).LeavesBuild) (hidle : s.announcing = false)
    {id : Text} {source : SourceId} {options : Value ν} {p : Plan ν}
    (hplan : (Plan.replaceOptions s.index s.state id source options).outcome = .ok p) :
    s.Carried (replaceOptions run id source options s) p :=
  carried_of_plan hrun hidle hplan

/-- **Asking for all options of an open selection** leaves it in its place with as many as can be
held. -/
theorem replaceOptions_all (hrun : ∀ c, (run c).LeavesBuild) (hidle : s.announcing = false)
    (hfirst : s.state.OpenFirst)
    (hpassed : s.config.checksState = true → s.state.selections ≠ [] →
      s.state.violations s.index = .ok [])
    (hx : x ∈ s.state.selections) (hopen : x.locked = false)
    (hitem : s.index.item? x.id = some item) :
    let t := replaceOptions run x.id x.source (.list (item.optionIds.map .text)) s
    (∃ y, t.session.state.selection? x.id (some x.source) = some y ∧ x.SamePlace y ∧
      y.options.length = item.mostOptions) ∧
    ((∃ r, t.outcome = .ok r) ∨
      ∃ fault, t.outcome = .error fault ∧ ∃ d ∈ t.deliveries, d.outcome = .error fault) := by
  intro t
  have hfound := hfirst.found hx hopen
  obtain ⟨options, reason, hclean, hlength⟩ := Options.clean_all item x.id
  rw [← hitem] at hclean
  have hplan := Plan.replaceOptions_of_clean hfound hopen hclean
  by_cases halike : Value.alikeItems options x.options = true
  · rw [if_pos halike] at hplan
    cases replaceOptions_carried hrun hidle hplan with
    | kept hs _ ho =>
        refine ⟨⟨x, ?_, .refl x, ?_⟩, Or.inl ⟨_, ho⟩⟩
        · show Build.selection? t.session.state _ _ = _
          rw [show t.session = s from hs]
          exact hfound
        · rw [← hlength, Value.length_of_alikeItems halike]
  · rw [if_neg halike] at hplan
    have hplace : x.SamePlace { x with options := options } := ⟨rfl, rfl, rfl, rfl⟩
    have hput : ∀ {change : Change ν} {changed s'},
        Plan.SetsOptions s.state x.id x.source options change → s.Replaced change.state changed s' →
        ∃ y, s'.state.selection? x.id (some x.source) = some y ∧ x.SamePlace y ∧
          y.options.length = item.mostOptions := by
      intro change changed s' hsets hs
      refine ⟨{ x with options := options }, ?_, hplace, hlength⟩
      rw [hs.state]
      exact hsets.found hfound
    cases replaceOptions_carried hrun hidle hplan with
    | made _ hs ho => exact ⟨hput ⟨rfl, rfl⟩ hs, Or.inl ⟨_, ho⟩⟩
    | broken _ hs ho hd => exact ⟨hput ⟨rfl, rfl⟩ hs, Or.inr ⟨_, ho, hd⟩⟩
    | barred _ _ _ hbar =>
        refine absurd hbar (not_barred (Plan.SetsOptions.violations ⟨rfl, rfl⟩ hfound hitem
          (hpassed hbar.checks (List.ne_nil_of_mem hx)) fun limit hlimit => ?_))
        rw [hlength]
        exact Item.mostOptions_le hlimit

end Session

/-! ## What is missing then -/

/-- **What the page of a source says about the options of an open selection**: nothing, if its group
is outside of the levels that count, or if it has as many options as its item asks for. -/
theorem Completeness.optionIssue_of_open {index : Index ν} {state : Build ν} {page : Text}
    {y : Selection ν} {item : Item ν} (hopen : y.locked = false) (hread : ∃ a, y.group = .atom a)
    (hitem : index.item? y.id = some item) :
    ∃ issue, optionIssue index state page y = .ok issue ∧ (issue = none ↔
      (∃ g, index.groupNamed page y.group = .ok (some g) ∧ isOutside state g.level = true) ∨
        item.neededOptions ≤ y.options.length) := by
  obtain ⟨issue, hissue⟩ : ∃ issue, optionIssue index state page y = .ok issue :=
    ends_optionIssue fun _ => hread
  have hchosen : issue = none ↔ OptionsChosen index state page y := by
    rw [← optionIssue_eq_none_iff, hissue, Except.ok.injEq]
  obtain ⟨a, ha⟩ := hread
  obtain ⟨g, hg⟩ : ∃ g, index.groupNamed page y.group = .ok g := by
    rw [ha]
    exact index.exists_groupNamed_atom page a
  have hlevel : index.levelOf page y.group = .ok (g.map Group.level) := by
    unfold Index.levelOf
    rw [hg]
    rfl
  refine ⟨issue, hissue, hchosen.trans ?_⟩
  simp only [OptionsChosen, hopen, forall_const, hlevel, hitem, Except.ok.injEq, exists_eq_left',
    Option.some.injEq, forall_eq', hg]
  cases g with
  | none => simp
  | some g => cases hout : isOutside state g.level <;> simp [hout]

namespace Guided

/-- **When all options of an item suffice**, in whatever build some calls have brought a session to.
An open selection of an item of the catalog is asked to take all options of the item in order. The
call answers, unless a listener lets out a fault. Then the selection stands in its place with as
many options as can be held, and the page of its source can tell what is missing of them: nothing,
exactly if the group is outside of the levels that count, or there is no limit, or there are at
least as many different ids as the limit says, or the ids are all different. -/
theorem options_suffice_iff {catalog : Catalog ν} {config : Config} {st : Session ν (Call ν)}
    (hs : (newBuild catalog config).outcome = .ok st) (calls : List (Call ν)) {x : Selection ν}
    (hx : x ∈ (after st calls).state.selections) (hopen : x.locked = false) {item : Item ν}
    (hitem : st.index.item? x.id = some item) {source : SourceMention}
    (hsource : (source.resolve st.index).outcome = .ok x.source) :
    let t := (Call.replaceOptions x.id source (.list (item.optionIds.map .text))).run
      (after st calls)
    ((∃ r, t.outcome = .ok (.result r)) ∨
      ∃ fault, t.outcome = .error fault ∧ ∃ d ∈ t.deliveries, d.outcome = .error fault) ∧
    ∃ y, t.session.state.selection? x.id (some x.source) = some y ∧ x.SamePlace y ∧
      y.options.length = item.mostOptions ∧
      ∃ issue, Completeness.optionIssue st.index t.session.state x.source.name y = .ok issue ∧
        (issue = none ↔
          (∃ g, st.index.groupNamed x.source.name x.group = .ok (some g) ∧
            Completeness.isOutside t.session.state g.level = true) ∨
          ∀ limit, item.optionLimit = some limit →
            limit ≤ item.optionIds.dedup.length ∨ item.optionIds.Nodup) := by
  intro t
  have hmeets := idle_after hs calls
  have hindex : st.index = (after st calls).index := hmeets.index.symm
  have hconfig : (after st calls).config = config := hmeets.config
  have hfirst := openFirst_after hs calls
  have hpassed := passed_after hs calls
  have hread := groupsRead_after hs calls x hx hopen
  rw [hindex] at hitem hsource hpassed ⊢
  rw [← hconfig] at hpassed
  have ht : t = (Answer.result <$> (Action.lift (source.resolve (after st calls).index) >>= fun key =>
    Session.replaceOptions Call.runInside x.id key (.list (item.optionIds.map .text))))
      (after st calls) := rfl
  rw [Action.map_apply, Action.lift_bind_of_ok hsource] at ht
  obtain ⟨⟨y, hfound, hplace, hlength⟩, hanswer⟩ := Session.replaceOptions_all
    Call.runInside_leavesBuild hmeets.idle hfirst hpassed hx hopen hitem
  rw [ht]
  refine ⟨?_, y, hfound, hplace, hlength, ?_⟩
  · rcases hanswer with ⟨r, hr⟩ | ⟨fault, hfault, hd⟩
    · exact Or.inl ⟨r, by dsimp only; rw [hr]; rfl⟩
    · refine Or.inr ⟨fault, by dsimp only; rw [hfault]; rfl, hd⟩
  · rw [← hplace.group] at hread ⊢
    rw [← hplace.id] at hitem
    rw [← Item.neededOptions_le_iff, ← hlength]
    exact Completeness.optionIssue_of_open (hplace.locked.trans hopen) hread hitem

/-- An item of which two options have to be chosen, with options of some ids. -/
def twoOptionsItem (ids : List Text) : Item Double :=
  { plainItem "w" with options := ids.map fun id => ⟨id, id⟩, givenLimit := some 2 }

/-- A new build on two sources and this item. -/
def twoOptionsStart (ids : List Text) : Session Double (Call Double) where
  index := { catalog := sharedGroups.addItem (twoOptionsItem ids) }
  config := { checksState := false }
  state := { targetLevel := .whole 1 }

/-- The item is selected, and then all its options are asked for. -/
def askForAll (ids : List Text) : Turn Double (Call Double) (Answer Double) :=
  (Call.replaceOptions "w" (.named "A") (.list (ids.map .text))).run
    (after (twoOptionsStart ids) [.select (.named "w") (.named "A") .null .null])

/-- Of two different options nothing is missing; of two options of one id the second one is. -/
theorem options_suffice_iff_twoOptions :
    (∃ y, (askForAll ["a", "b"]).session.state.selection? "w" (some ⟨"A", .primary⟩) = some y ∧
      Completeness.optionIssue (twoOptionsStart ["a", "b"]).index
        (askForAll ["a", "b"]).session.state "A" y = .ok none) ∧
    ∃ y issue, (askForAll ["a", "a"]).session.state.selection? "w" (some ⟨"A", .primary⟩) = some y ∧
      Completeness.optionIssue (twoOptionsStart ["a", "a"]).index
        (askForAll ["a", "a"]).session.state "A" y = .ok (some issue) := by
  have hs : ∀ ids, (newBuild (sharedGroups.addItem (twoOptionsItem ids))
      { checksState := false }).outcome = .ok (twoOptionsStart ids) := fun _ => rfl
  have hitem : ∀ ids, (twoOptionsStart ids).index.item? "w" = some (twoOptionsItem ids) :=
    fun _ => rfl
  have hasked : ∀ ids, (∃ x ∈ (after (twoOptionsStart ids)
        [.select (.named "w") (.named "A") .null .null]).state.selections,
        (x.id = "w" && !x.locked && x.source = ⟨"A", .primary⟩ && x.group.isNull) = true) →
      ∃ y issue,
        (askForAll ids).session.state.selection? "w" (some ⟨"A", .primary⟩) = some y ∧
        Completeness.optionIssue (twoOptionsStart ids).index (askForAll ids).session.state "A" y
          = .ok issue ∧ (issue = none ↔ 2 ≤ ids.dedup.length ∨ ids.Nodup) := by
    rintro ids ⟨x, hx, hplace⟩
    simp only [Bool.and_eq_true, decide_eq_true_eq, Bool.not_eq_true', Value.isNull_iff] at hplace
    obtain ⟨⟨⟨hid, hopen⟩, hsource⟩, hgroup⟩ := hplace
    have hresolve : ((SourceMention.named "A").resolve (twoOptionsStart ids).index).outcome
        = .ok x.source := by
      rw [hsource]
      rfl
    have hfound := options_suffice_iff (hs ids) _ hx hopen (by rw [hid]; exact hitem ids) hresolve
    have hids : (twoOptionsItem ids).optionIds = ids := by
      simp [twoOptionsItem, Item.optionIds, Function.comp_def]
    have hlimit : (twoOptionsItem ids).optionLimit = some 2 := rfl
    rw [hids, hlimit, hid, hsource, hgroup] at hfound
    obtain ⟨_, y, hy, _, _, issue, hissue, hnone⟩ := hfound
    refine ⟨y, issue, hy, hissue, hnone.trans ?_⟩
    simp
  constructor
  · obtain ⟨y, issue, hy, hissue, hnone⟩ :=
      hasked ["a", "b"] (List.any_eq_true.mp (by decide +kernel))
    exact ⟨y, hy, by rw [hissue, hnone.mpr (by decide)]⟩
  · obtain ⟨y, issue, hy, hissue, hnone⟩ :=
      hasked ["a", "a"] (List.any_eq_true.mp (by decide +kernel))
    have hsome : issue ≠ none := fun h => absurd (hnone.mp h) (by decide)
    obtain ⟨missing, rfl⟩ := Option.ne_none_iff_exists'.mp hsome
    exact ⟨y, missing, hy, hissue⟩

end Guided

end CharacterBuild
