import CharacterBuild.Proofs.Calls
import CharacterBuild.Proofs.Scale

set_option autoImplicit false

/-! # What the check of a state looks for

Each part of the check lists nothing exactly if, or at least if, a condition holds that can be
stated without the check (`Build.repeatViolations_eq_nil_iff` and the lemmas after it). The
second part is the invariant that brings these conditions about, `Build.Sound`. It says more than
the check can see: selections are counted by the names of their sources when the state is
checked, but by the keys of their sources when an item is put into a group, so the key of a
selection's source has to be the one that its name stands for.
-/

namespace CharacterBuild

variable {ν : Type} [Number ν]

/-- A selection of an item of the catalog, held as the item allows, from the source that the
catalog has under its name and in a group that is null or a text. -/
structure Selection.Listed (index : Index ν) (x : Selection ν) : Prop where
  keyed : x.source = index.keyOf x.source.name
  named : x.group = .null ∨ ∃ id, x.group = .text id
  held : ∃ item, index.item? x.id = some item ∧ item.Holds x

namespace Build

/-! ## The parts of the check -/

/-- **No item is reported as repeated exactly if none is selected twice.** -/
theorem repeatViolations_eq_nil_iff {s : Build ν} :
    s.repeatViolations = [] ↔ (s.selections.map Selection.id).Nodup := by
  have hcount : ∀ item, s.countOf item = (s.selections.map Selection.id).count item := by
    intro item
    rw [List.count, List.countP_map, countOf]
    exact List.countP_congr fun x _ => by simp
  have hmem : ∀ item, item ∈ Text.sortedDistinct (s.selections.map Selection.id) ↔
      item ∈ s.selections.map Selection.id := by
    intro item
    rw [Text.sortedDistinct, List.mem_eraseDups, List.mem_mergeSort]
  -- an item is reported if it is counted more than once
  rw [repeatViolations, List.filterMap_eq_nil_iff, List.nodup_iff_count]
  constructor
  · intro h item
    by_cases hitem : item ∈ s.selections.map Selection.id
    · have hnone := h item ((hmem item).mpr hitem)
      rw [← hcount]
      by_cases hmany : 1 < s.countOf item
      · rw [if_pos hmany] at hnone
        cases hnone
      · omega
    · rw [List.count_eq_zero.mpr hitem]
      omega
  · intro h item _
    have hone := h item
    rw [← hcount] at hone
    rw [if_neg (by omega)]

/-- **No group is reported exactly if none holds more than it may.** -/
theorem groupViolations_eq_nil_iff {s : Build ν} {index : Index ν} :
    s.groupViolations index = [] ↔ ∀ source id g limit, index.groupOf? source id = some g →
      g.limit = some limit → s.countIn source id ≤ limit := by
  rw [groupViolations, List.filterMap_eq_nil_iff]
  constructor
  · intro h source id g limit hg hlimit
    by_cases hover : limit < s.countIn source id
    · -- a group with members is among those that are looked at
      obtain ⟨x, hx, hin⟩ := List.countP_pos_iff.mp (Nat.zero_lt_of_lt hover)
      simp only [Bool.and_eq_true, decide_eq_true_eq, Value.isText_iff] at hin
      have hname : groupName? x = some (source, id) := by simp [groupName?, hin.1, hin.2]
      have hmem : (source, id) ∈ s.groupNames := by
        rw [groupNames, List.mem_eraseDups, List.mem_mergeSort, List.mem_filterMap]
        exact ⟨x, hx, hname⟩
      have hnone := h (source, id) hmem
      simp [hg, hlimit, hover] at hnone
    · exact Nat.le_of_not_lt hover
  · rintro h ⟨source, id⟩ _
    dsimp only
    split
    · rename_i limit hlimit
      obtain ⟨g, hg, hlimit⟩ := Option.bind_eq_some_iff.mp hlimit
      have hcount := h source id g limit hg hlimit
      rw [if_neg (by omega)]
    · rfl

theorem groupViolations_eq_nil {s : Build ν} {index : Index ν}
    (h : ∀ source id g limit, index.groupOf? source id = some g → g.limit = some limit →
      s.countIn source id ≤ limit) : s.groupViolations index = [] :=
  groupViolations_eq_nil_iff.mpr h

theorem optionViolations_eq_nil {s : Build ν} {index : Index ν}
    (h : ∀ x ∈ s.selections, x.locked = false → x.Listed index) :
    s.unlocked.filterMap (optionViolation? index) = [] := by
  rw [List.filterMap_eq_nil_iff]
  intro x hx
  obtain ⟨hmem, hopen⟩ := List.mem_filter.mp hx
  obtain ⟨item, hitem, hheld⟩ := (h x hmem (by simpa using hopen)).held
  unfold optionViolation?
  rw [hitem, Option.bind_some]
  cases hl : item.optionLimit with
  | none => rfl
  | some limit =>
      have hbounded := hheld.options.bounded limit hl
      dsimp only
      rw [if_neg (by omega)]

/-- **Groups can be put in order exactly if each is named by an atom and none clash.** -/
theorem groupsOrdered_eq_ok_iff {s : Build ν} :
    s.groupsOrdered = .ok () ↔ (∀ x ∈ s.unlocked, ∃ a, x.group.key = .ok a) ∧
      ∀ x ∈ s.unlocked, ∀ y ∈ s.unlocked, groupsClash x y = false := by
  have hkeys : (∃ keys, (s.unlocked.mapM fun x => x.group.key) = .ok keys) ↔
      ∀ x ∈ s.unlocked, ∃ a, x.group.key = .ok a := by
    simpa using mapM_eq_ok_forall_iff (f := fun x : Selection ν => x.group.key) (l := s.unlocked)
      (P := fun _ => True)
  rw [← hkeys, groupsOrdered, except_bind_eq_ok]
  constructor
  · rintro ⟨keys, hkeys, h⟩
    split at h
    · cases h
    · rename_i hclash
      exact ⟨⟨keys, hkeys⟩, by simpa using hclash⟩
  · rintro ⟨⟨keys, hkeys⟩, hclash⟩
    exact ⟨keys, hkeys, if_neg (by simpa using hclash)⟩

/-- Groups that are null or texts can be put in order. -/
theorem groupsOrdered_of_named {s : Build ν}
    (h : ∀ x ∈ s.selections, x.locked = false → x.group = .null ∨ ∃ id, x.group = .text id) :
    s.groupsOrdered = .ok () := by
  have hunlocked : ∀ x ∈ s.unlocked, x.group = .null ∨ ∃ id, x.group = .text id := by
    intro x hx
    obtain ⟨hmem, hopen⟩ := List.mem_filter.mp hx
    exact h x hmem (by simpa using hopen)
  refine groupsOrdered_eq_ok_iff.mpr ⟨fun x hx => ?_, fun x hx y hy => ?_⟩
  · rcases hunlocked x hx with hnull | ⟨id, htext⟩
    · exact ⟨.null, by rw [hnull]; rfl⟩
    · exact ⟨.text id, by rw [htext]; rfl⟩
  · -- two of them never clash
    rcases hunlocked y hy with hnull | ⟨id, htext⟩
    · simp [groupsClash, hnull, Value.isNull]
    · simp [groupsClash, groupName?, htext]

/-- A state passes the check if each part of it lists nothing. -/
theorem violations_eq_nil_iff {s : Build ν} {index : Index ν} :
    s.violations index = .ok [] ↔ s.groupsOrdered = .ok () ∧ s.levelViolations = [] ∧
      s.repeatViolations = [] ∧ s.groupViolations index = [] ∧
      s.unlocked.filterMap (optionViolation? index) = [] := by
  rw [violations, except_bind_eq_ok]
  simp only [Except.ok.injEq, List.append_eq_nil_iff, and_assoc]
  exact ⟨fun ⟨_, h⟩ => h, fun h => ⟨(), h⟩⟩

/-- **Taking selections away brings no violation about.** -/
theorem violations_of_sublist {s s' : Build ν} {index : Index ν} (h : s.violations index = .ok [])
    (hsub : s'.selections.Sublist s.selections) (htarget : s'.targetLevel = s.targetLevel) :
    s'.violations index = .ok [] := by
  obtain ⟨hordered, hlevel, hrepeat, hgroups, hoptions⟩ := violations_eq_nil_iff.mp h
  have hunlocked : s'.unlocked.Sublist s.unlocked := hsub.filter _
  refine violations_eq_nil_iff.mpr ⟨?_, ?_, ?_, ?_, ?_⟩
  · obtain ⟨hkeys, hclash⟩ := groupsOrdered_eq_ok_iff.mp hordered
    exact groupsOrdered_eq_ok_iff.mpr ⟨fun x hx => hkeys x (hunlocked.subset hx),
      fun x hx y hy => hclash x (hunlocked.subset hx) y (hunlocked.subset hy)⟩
  · unfold levelViolations at hlevel ⊢
    rw [htarget]
    exact hlevel
  · rw [repeatViolations_eq_nil_iff] at hrepeat ⊢
    exact hrepeat.sublist (hsub.map _)
  · rw [groupViolations_eq_nil_iff] at hgroups ⊢
    intro source id g limit hg hlimit
    exact Nat.le_trans hunlocked.countP_le (hgroups source id g limit hg hlimit)
  · exact List.sublist_nil.mp (hoptions ▸ hunlocked.filterMap _)

/-- A state that passes the check has no item twice. -/
theorem nodup_of_violations {s : Build ν} {index : Index ν} (h : s.violations index = .ok []) :
    (s.selections.map Selection.id).Nodup := by
  obtain ⟨_, _, h⟩ := except_bind_eq_ok.mp h
  have hnil := Except.ok.inj h
  simp only [List.append_eq_nil_iff] at hnil
  exact repeatViolations_eq_nil_iff.mp hnil.1.1.2

/-! ## Sound states -/

/-- A state that passes the check and stays so under requests. -/
structure Sound (index : Index ν) (s : Build ν) (changed : Bool) : Prop where
  level : ¬ s.targetLevel < ((1 : Int) : Level ν)
  distinct : (s.selections.map Selection.id).Nodup
  listed : ∀ x ∈ s.selections, x.locked = false → x.Listed index
  capacity : ∀ source id g limit, index.groupOf? source id = some g → g.limit = some limit →
    s.countIn source id ≤ limit
  fresh : changed = false → s.selections = []

/-- **A sound state has no violations.** -/
theorem Sound.violations {index : Index ν} {s : Build ν} {changed : Bool}
    (h : s.Sound index changed) : s.violations index = .ok [] := by
  have hlevel : s.levelViolations = [] := if_neg h.level
  rw [Build.violations, groupsOrdered_of_named fun x hx hopen => (h.listed x hx hopen).named]
  show Except.ok _ = _
  rw [hlevel, repeatViolations_eq_nil_iff.mpr h.distinct, groupViolations_eq_nil h.capacity,
    optionViolations_eq_nil h.listed]
  rfl

/-! ## Counting in groups -/

/-- Whether a selection counts towards the limit of a group when a state is checked. -/
def countsIn (source group : Text) (x : Selection ν) : Bool :=
  (x.source.name = source && x.group.isText group) && !x.locked

theorem countIn_eq (s : Build ν) (source group : Text) :
    s.countIn source group = s.selections.countP (countsIn source group) :=
  List.countP_filter

omit [Number ν] in
/-- What counts in a group under the name of a source is in it, if it was made from the source. -/
theorem isIn_of_countsIn {y : Selection ν} {source : SourceId} {id : Text}
    (hkey : y.locked = false → y.source.name = source.name → y.source = source)
    (hcounts : countsIn source.name id y = true) : y.isIn source id = true := by
  simp only [countsIn, Bool.and_eq_true, decide_eq_true_eq, Bool.not_eq_true'] at hcounts
  obtain ⟨⟨hname, htext⟩, hopen⟩ := hcounts
  simp [Selection.isIn, hkey hopen hname, htext]

/-- A selection that is revised in its place counts as before. -/
theorem countIn_revise {s : Build ν} {before after : List (Selection ν)} {x y : Selection ν}
    (hs : s.selections = before ++ x :: after) (hplace : x.SamePlace y) (source group : Text) :
    countIn { s with selections := before ++ y :: after } source group = s.countIn source group := by
  have hsame : countsIn source group y = countsIn source group x := by
    simp [countsIn, hplace.source, hplace.group, hplace.locked]
  rw [countIn_eq, countIn_eq, hs]
  simp [List.countP_append, List.countP_cons, hsame]

/-- **Revising a selection in its place brings no violation about**, as long as it does not get too
many options. -/
theorem violations_revise {s : Build ν} {index : Index ν} {before after : List (Selection ν)}
    {x y : Selection ν} (h : s.violations index = .ok [])
    (hs : s.selections = before ++ x :: after) (hplace : x.SamePlace y)
    (hfits : optionViolation? index y = none) :
    violations { s with selections := before ++ y :: after } index = .ok [] := by
  obtain ⟨hordered, hlevel, hrepeat, hgroups, hoptions⟩ := violations_eq_nil_iff.mp h
  obtain ⟨hkeys, hclash⟩ := groupsOrdered_eq_ok_iff.mp hordered
  have hx : x ∈ s.selections := by rw [hs]; simp
  -- what is open now was open in the same place before
  have hbefore : ∀ z ∈ unlocked { s with selections := before ++ y :: after },
      ∃ w ∈ s.unlocked, w.SamePlace z := by
    intro z hz
    obtain ⟨hz, hopen⟩ := List.mem_filter.mp hz
    rcases eq_or_mem_of_changed hs hz with rfl | hz
    · exact ⟨x, List.mem_filter.mpr ⟨hx, by rw [← hplace.locked]; exact hopen⟩, hplace⟩
    · exact ⟨z, List.mem_filter.mpr ⟨hz, hopen⟩, .refl z⟩
  refine violations_eq_nil_iff.mpr ⟨groupsOrdered_eq_ok_iff.mpr ⟨fun z hz => ?_, fun z hz z' hz' => ?_⟩,
    hlevel, ?_, ?_, ?_⟩
  · obtain ⟨w, hw, hplace⟩ := hbefore z hz
    rw [hplace.group]
    exact hkeys w hw
  · obtain ⟨w, hw, hplace⟩ := hbefore z hz
    obtain ⟨w', hw', hplace'⟩ := hbefore z' hz'
    have hopen := hclash w hw w' hw'
    unfold groupsClash groupName? at hopen ⊢
    rw [hplace.source, hplace.group, hplace'.source, hplace'.group]
    exact hopen
  · rw [repeatViolations_eq_nil_iff] at hrepeat ⊢
    rw [hs] at hrepeat
    simpa [hplace.id] using hrepeat
  · rw [groupViolations_eq_nil_iff] at hgroups ⊢
    intro source id g limit hg hlimit
    rw [countIn_revise hs hplace]
    exact hgroups source id g limit hg hlimit
  · rw [List.filterMap_eq_nil_iff] at hoptions ⊢
    intro z hz
    obtain ⟨hz, hopen⟩ := List.mem_filter.mp hz
    rcases eq_or_mem_of_changed hs hz with rfl | hz
    · exact hfits
    · exact hoptions z (List.mem_filter.mpr ⟨hz, hopen⟩)

/-- Where there is room in a group, it holds less than it may, as long as what counts under the
name of its source is in it. -/
theorem Room.countP_lt {s : Build ν} {item : Item ν} {source : SourceId} {g : Group ν}
    {others : List (Selection ν)} {limit : Nat} (h : s.Room item source (some g) others)
    (hlimit : g.limit = some limit)
    (hin : ∀ y ∈ s.selections, countsIn source.name g.id y = true → y.isIn source g.id = true) :
    others.countP (countsIn source.name g.id) < limit := by
  cases h with
  | free _ hl =>
      rw [hl] at hlimit
      cases hlimit
  | spare _ hl hspare =>
      rw [hl] at hlimit
      obtain rfl := Option.some.inj hlimit
      rw [membersOf, ← List.countP_eq_length_filter] at hspare
      exact Nat.lt_of_le_of_lt (List.countP_mono_left hin) hspare
  | instead _ hl _ =>
      rw [hl] at hlimit
      obtain rfl := Option.some.inj hlimit
      -- all members have made room
      refine Nat.lt_one_iff.mpr (List.countP_eq_zero.mpr fun y hy hcounts => ?_)
      obtain ⟨hmem, hout⟩ := List.mem_filter.mp hy
      rw [hin y hmem hcounts] at hout
      cases hout

/-- Putting an item where there is room keeps every group within its limit. -/
theorem Sound.capacity_put {index : Index ν} {s : Build ν} {changed : Bool} {item : Item ν}
    {x : Selection ν} {g : Option (Group ν)} {others : List (Selection ν)}
    (h : s.Sound index changed) (hkey : x.source = index.keyOf x.source.name)
    (hgroup : index.groupNamed x.source.name x.group = .ok g)
    (hroom : s.Room item x.source g others) {source id : Text} {g' : Group ν} {limit : Nat}
    (hg' : index.groupOf? source id = some g') (hlimit : g'.limit = some limit) :
    (others ++ [x]).countP (countsIn source id) ≤ limit := by
  have hold := h.capacity source id g' limit hg' hlimit
  rw [countIn_eq] at hold
  have hothers : others.countP (countsIn source id) ≤ s.selections.countP (countsIn source id) :=
    hroom.sublist.countP_le
  rw [List.countP_append, List.countP_singleton]
  by_cases hx : countsIn source id x = true
  · rw [if_pos hx]
    simp only [countsIn, Bool.and_eq_true, decide_eq_true_eq, Value.isText_iff] at hx
    obtain ⟨⟨rfl, htext⟩, _⟩ := hx
    -- the item is put into the very group whose members are counted
    rw [htext, Index.groupNamed_text, hg'] at hgroup
    obtain rfl := Except.ok.inj hgroup
    obtain ⟨_, rfl⟩ := index.mem_of_groupOf? hg'
    refine hroom.countP_lt hlimit fun y hy hcounts => isIn_of_countsIn (fun hopen hname => ?_) hcounts
    calc y.source = index.keyOf y.source.name := (h.listed y hy hopen).keyed
      _ = index.keyOf x.source.name := by rw [hname]
      _ = x.source := hkey.symm
  · rw [if_neg hx]
    omega

/-! ## Edits of sound states -/

variable {index : Index ν} {config : Config} {scope : Scope ν} {s s' : Build ν} {changed : Bool}

/-- Taking selections away keeps a state sound. -/
theorem Sound.of_sublist (h : s.Sound index changed)
    (hsub : s'.selections.Sublist s.selections)
    (hlevel : ¬ s'.targetLevel < ((1 : Int) : Level ν)) : s'.Sound index true where
  level := hlevel
  distinct := h.distinct.sublist (hsub.map _)
  listed := fun x hx => h.listed x (hsub.subset hx)
  capacity := fun source id g limit hg hl => by
    have hold := h.capacity source id g limit hg hl
    rw [countIn_eq] at hold ⊢
    exact Nat.le_trans hsub.countP_le hold
  fresh := nofun

theorem Sound.put {item : Item ν} {x : Selection ν} {g : Option (Group ν)}
    {others : List (Selection ν)} (h : s.Sound index changed)
    (hdistinct : ((others ++ [x]).map Selection.id).Nodup) (hx : x.Listed index)
    (hgroup : index.groupNamed x.source.name x.group = .ok g)
    (hroom : s.Room item x.source g others) :
    Sound index { s with selections := others ++ [x] } true where
  level := h.level
  distinct := hdistinct
  listed := fun y hy hopen => by
    rcases hroom.mem_or_eq hy with hy | rfl
    · exact h.listed y hy hopen
    · exact hx
  capacity := fun source id g' limit hg' hl => by
    rw [countIn_eq]
    exact h.capacity_put hx.keyed hgroup hroom hg' hl
  fresh := nofun

theorem Sound.revise {before after : List (Selection ν)} {x y : Selection ν}
    (h : s.Sound index changed) (hs : s.selections = before ++ x :: after)
    (hdistinct : ((before ++ y :: after).map Selection.id).Nodup) (hopen : x.locked = false)
    (hplace : x.SamePlace y)
    (hheld : ∀ item, index.item? x.id = some item → item.Holds x → item.Holds y) :
    Sound index { s with selections := before ++ y :: after } true where
  level := h.level
  distinct := hdistinct
  listed := fun z hz hzopen => by
    rcases eq_or_mem_of_changed hs hz with rfl | hz
    · obtain ⟨hkeyed, hnamed, item, hitem, hholds⟩ := h.listed x (by rw [hs]; simp) hopen
      refine ⟨?_, ?_, item, ?_, hheld item hitem hholds⟩
      · rw [hplace.source]
        exact hkeyed
      · rw [hplace.group]
        exact hnamed
      · rw [hplace.id]
        exact hitem
    · exact h.listed z hz hzopen
  capacity := fun source id g limit hg hl => by
    rw [countIn_revise hs hplace]
    exact h.capacity source id g limit hg hl
  fresh := nofun

/-- **An edit keeps a state sound**, if it selects items of the catalog from sources by their
names and in groups that are null or texts. -/
theorem Sound.edit (h : s.Sound index changed) (hmin : 1 ≤ config.minLevel)
    (hputs : ∀ item x, scope.puts item x → index.item? item.id = some item ∧
      x.source = index.keyOf x.source.name ∧ (x.group = .null ∨ ∃ id, x.group = .text id))
    (hedit : s.Edit index config scope s') : s'.Sound index true := by
  have hdistinct := hedit.nodup h.distinct
  cases hedit with
  | drop hx hopen => exact h.of_sublist List.filter_sublist h.level
  | put _ hid _ hheld hgroup hroom hput =>
      obtain ⟨hitem, hkey, hnamed⟩ := hputs _ _ hput
      exact h.put hdistinct ⟨hkey, hnamed, _, by rw [hid]; exact hitem, hheld⟩ hgroup hroom
  | revise hs hopen hplace hheld => exact h.revise hs hdistinct hopen hplace hheld
  | @aim n _ hleast hmost hsettled =>
      refine h.of_sublist (aimedAt_sublist index s n) ?_
      show ¬ (n : Level ν) < ((1 : Int) : Level ν)
      rw [Level.whole_lt_whole]
      omega
  | fill hsame =>
      refine h.of_sublist hsame.sublist ?_
      rw [hsame.target]
      exact h.level

/-- **Restoring a build that has not been changed leads to a sound state.** -/
theorem Sound.restoration [ExactNumber ν] {restored : Selection ν → Prop} {level : Level ν}
    (h : s.Sound index false) (hmin : 1 ≤ config.minLevel)
    (hr : s.Restoration config restored level s') : s'.Sound index true := by
  obtain ⟨settled, hselections, hnodup, hlocked⟩ := hr.selections
  rw [h.fresh rfl, List.nil_append] at hselections
  -- everything is settled, and what is settled is not looked at
  have hno : ∀ x ∈ s'.selections, x.locked ≠ false := by
    intro x hx hopen
    rw [hselections] at hx
    obtain ⟨y, _, rfl⟩ := hlocked x hx
    cases hopen
  refine ⟨fun hlow => ?_, by rw [hselections]; exact hnodup, fun x hx hopen => ?_,
    fun source id g limit _ _ => ?_, nofun⟩
  · rw [hr.target] at hlow
    exact hr.least (Level.lt_of_lt_of_le hlow hmin)
  · exact absurd hopen (hno x hx)
  · have hzero : s'.countIn source id = 0 := by
      rw [countIn_eq, List.countP_eq_zero]
      intro x hx hcounts
      simp only [countsIn, Bool.and_eq_true, Bool.not_eq_true'] at hcounts
      exact hno x hx hcounts.2
    omega

end Build

end CharacterBuild
