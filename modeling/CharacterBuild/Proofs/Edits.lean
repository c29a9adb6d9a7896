import CharacterBuild.Proofs.Inversion

set_option autoImplicit false

/-! # What a request does to a build

`Build.Edit` lists the changes that a request makes to a build, each with all that was checked
before it was made: a selection that is not settled is dropped or revised, a new one is put into
its group, the level is aimed at, or a field is filled that has nothing to do with the choices.
Every plan of a request makes such an edit (`Plan.select_makes`, `Plan.setField_makes`, …), so
that what all edits keep is kept by every request; no later proof opens a plan.

A build is also changed by restoring it. `Build.Restoration` says what that does to the choices.
-/

namespace CharacterBuild

variable {ν : Type} [Number ν]

/-! ## Putting an item into a group -/

/-- A group takes an item: it lists the item, is open, and its level is not settled. -/
structure Build.Takes (s : Build ν) (item : Item ν) (g : Group ν) : Prop where
  listed : item.id ∈ g.items
  reached : ¬ s.targetLevel < (g.level : Level ν)
  unsettled : s.isSettled g.level = false

/-- The selections that stay when an item is put where it belongs: all of them, or, if the
group holds one item at most, all but its members, none of which is settled. -/
inductive Build.Room (s : Build ν) (item : Item ν) (source : SourceId) :
    Option (Group ν) → List (Selection ν) → Prop where
  | loose : Room s item source none s.selections
  | free {g : Group ν} (h : s.Takes item g) (hl : g.limit = none) :
      Room s item source (some g) s.selections
  | spare {g : Group ν} {limit : Nat} (h : s.Takes item g) (hl : g.limit = some limit)
      (hroom : (s.membersOf source g.id).length < limit) :
      Room s item source (some g) s.selections
  | instead {g : Group ν} (h : s.Takes item g) (hl : g.limit = some 1)
      (hopen : ∀ y ∈ s.membersOf source g.id, y.locked = false) :
      Room s item source (some g) (s.selections.filter fun y => !y.isIn source g.id)

/-- Where there is room for an item, its group takes it. -/
theorem Build.Room.takes {s : Build ν} {item : Item ν} {source : SourceId} {g : Group ν}
    {others : List (Selection ν)} (h : s.Room item source (some g) others) : s.Takes item g := by
  cases h with
  | free htakes _ => exact htakes
  | spare htakes _ _ => exact htakes
  | instead htakes _ _ => exact htakes

theorem Build.Room.sublist {s : Build ν} {item : Item ν} {source : SourceId}
    {g : Option (Group ν)} {others : List (Selection ν)} (h : s.Room item source g others) :
    others.Sublist s.selections := by
  cases h with
  | loose => exact List.Sublist.refl _
  | free => exact List.Sublist.refl _
  | spare => exact List.Sublist.refl _
  | instead => exact List.filter_sublist

theorem Build.Room.mem_or_eq {s : Build ν} {item : Item ν} {source : SourceId}
    {g : Option (Group ν)} {others : List (Selection ν)} (h : s.Room item source g others)
    {x y : Selection ν} (hy : y ∈ others ++ [x]) : y ∈ s.selections ∨ y = x := by
  rcases List.mem_append.mp hy with hy | hy
  · exact Or.inl (h.sublist.subset hy)
  · exact Or.inr (List.mem_singleton.mp hy)

/-- Settled selections stay. -/
theorem Build.Room.filter_locked {s : Build ν} {item : Item ν} {source : SourceId}
    {g : Option (Group ν)} {others : List (Selection ν)} (h : s.Room item source g others) :
    others.filter (·.locked) = s.selections.filter (·.locked) := by
  cases h with
  | loose => rfl
  | free => rfl
  | spare => rfl
  | @instead g _ _ hopen =>
      rw [List.filter_filter]
      refine List.filter_congr fun y hy => ?_
      cases hin : y.isIn source g.id with
      | false => simp
      | true => simp [hopen y (List.mem_filter.mpr ⟨hy, hin⟩)]

/-! ## Edits -/

/-- What stands in a list after one element was changed is the new one or stood there before. -/
theorem eq_or_mem_of_changed {α : Type} {l before after : List α} {a b c : α}
    (hl : l = before ++ a :: after) (hc : c ∈ before ++ b :: after) : c = b ∨ c ∈ l := by
  rw [hl]
  rcases List.mem_append.mp hc with hc | hc
  · exact Or.inr (List.mem_append_left _ hc)
  · rcases List.mem_cons.mp hc with rfl | hc
    · exact Or.inl rfl
    · exact Or.inr (List.mem_append_right _ (List.mem_cons_of_mem _ hc))

/-- The build with another target level. If the level drops, the selections are gone whose
group id stands, in whatever source, for a group above it. -/
def Build.aimedAt (index : Index ν) (s : Build ν) (n : Int) : Build ν :=
  { s with
    targetLevel := n
    selections :=
      if s.targetLevel ≤ (n : Level ν) then s.selections
      else s.selections.filter fun x => !index.opensAboveAnywhere n x.group }

theorem Build.aimedAt_sublist (index : Index ν) (s : Build ν) (n : Int) :
    (s.aimedAt index n).selections.Sublist s.selections := by
  unfold aimedAt
  dsimp only
  split
  · exact List.Sublist.refl _
  · exact List.filter_sublist

/-- The state that a new build starts from. -/
def Build.initial (config : Config) : Build ν := { targetLevel := .whole config.minLevel }

/-- A new build has no selections that a lower level could take away. -/
theorem Build.aimedAt_initial (index : Index ν) (config : Config) (n : Int) :
    (Build.initial config).aimedAt index n = { targetLevel := .whole n } := by
  unfold aimedAt
  split <;> rfl

/-- Two states with the same choices: levels and selections. -/
structure Build.SameChoices (s s' : Build ν) : Prop where
  target : s'.targetLevel = s.targetLevel
  mode : s'.mode = s.mode
  restoredAt : s'.restoredAt = s.restoredAt
  selections : s'.selections = s.selections

theorem Build.SameChoices.sublist {s s' : Build ν} (h : s.SameChoices s') :
    s'.selections.Sublist s.selections := by simp [h.selections]

/-- What a request may bring into a build. -/
structure Scope (ν : Type) where
  /-- The items that it may select, and how. -/
  puts : Item ν → Selection ν → Prop := fun _ _ => False
  /-- The levels that it may aim at. -/
  aims : Int → Prop := fun _ => False

/-- One scope allows all that another one does. -/
structure Scope.Within (a b : Scope ν) : Prop where
  puts : ∀ item x, a.puts item x → b.puts item x
  aims : ∀ n, a.aims n → b.aims n

omit [Number ν] in
theorem Scope.Within.refl (scope : Scope ν) : scope.Within scope :=
  ⟨fun _ _ h => h, fun _ h => h⟩

/-- **A change that a request makes to a build**, within the scope of the request. -/
inductive Build.Edit (index : Index ν) (config : Config) (scope : Scope ν) (s : Build ν) :
    Build ν → Prop where
  | drop {x : Selection ν} (hx : x ∈ s.selections) (hopen : x.locked = false) :
      Edit index config scope s
        { s with selections := s.selections.filter fun y => !(y.id = x.id && y.source = x.source) }
  | put {item : Item ν} {x : Selection ν} {g : Option (Group ν)} {others : List (Selection ν)}
      (hnew : ∀ y ∈ s.selections, y.id ≠ item.id) (hid : x.id = item.id)
      (hopen : x.locked = false) (hheld : item.Holds x)
      (hgroup : index.groupNamed x.source.name x.group = .ok g)
      (hroom : s.Room item x.source g others) (hputs : scope.puts item x) :
      Edit index config scope s { s with selections := others ++ [x] }
  | revise {before after : List (Selection ν)} {x y : Selection ν}
      (hs : s.selections = before ++ x :: after) (hopen : x.locked = false)
      (hplace : x.SamePlace y)
      (hheld : ∀ item, index.item? x.id = some item → item.Holds x → item.Holds y)
      (hcount : y.quantity = x.quantity ∨ ∀ n, y.quantity = some n → 1 ≤ n) :
      Edit index config scope s { s with selections := before ++ y :: after }
  | aim {n : Int} (haims : scope.aims n) (hleast : config.minLevel ≤ n)
      (hmost : n ≤ config.maxLevel) (hsettled : ∀ r, s.settledUpTo = some r → ¬ (n : Level ν) < r) :
      Edit index config scope s (s.aimedAt index n)
  | fill {s' : Build ν} (h : s.SameChoices s') : Edit index config scope s s'

theorem Build.Edit.mono {index : Index ν} {config : Config} {scope scope' : Scope ν}
    {s s' : Build ν} (h : s.Edit index config scope s') (hw : scope.Within scope') :
    s.Edit index config scope' s' := by
  cases h with
  | drop hx hopen => exact .drop hx hopen
  | put hnew hid hopen hheld hgroup hroom hputs =>
      exact .put hnew hid hopen hheld hgroup hroom (hw.puts _ _ hputs)
  | revise hs hopen hplace hheld hcount => exact .revise hs hopen hplace hheld hcount
  | aim haims hleast hmost hsettled => exact .aim (hw.aims _ haims) hleast hmost hsettled
  | fill h => exact .fill h

/-- No edit changes how a build came about. -/
theorem Build.Edit.origin_eq {index : Index ν} {config : Config} {scope : Scope ν}
    {s s' : Build ν} (h : s.Edit index config scope s') :
    s'.mode = s.mode ∧ s'.restoredAt = s.restoredAt := by
  cases h with
  | drop => exact ⟨rfl, rfl⟩
  | put => exact ⟨rfl, rfl⟩
  | revise => exact ⟨rfl, rfl⟩
  | aim => exact ⟨rfl, rfl⟩
  | fill hsame => exact ⟨hsame.mode, hsame.restoredAt⟩

/-- An edit selects no item twice. -/
theorem Build.Edit.nodup {index : Index ν} {config : Config} {scope : Scope ν} {s s' : Build ν}
    (h : s.Edit index config scope s') (hs : (s.selections.map Selection.id).Nodup) :
    (s'.selections.map Selection.id).Nodup := by
  cases h with
  | drop hx hopen => exact hs.sublist (List.filter_sublist.map _)
  | @put item x g others hnew hid hopen hheld hgroup hroom hputs =>
      show ((others ++ [x]).map Selection.id).Nodup
      rw [List.map_append, List.nodup_append]
      refine ⟨hs.sublist (hroom.sublist.map _), by simp, fun a ha b hb hab => ?_⟩
      obtain ⟨y, hy, rfl⟩ := List.mem_map.mp ha
      have hb : b = x.id := by simpa using hb
      exact hnew y (hroom.sublist.subset hy) (by rw [hab, hb, hid])
  | @revise before after x y hsel hopen hplace hheld =>
      have hids : (before ++ y :: after).map Selection.id = s.selections.map Selection.id := by
        rw [hsel]
        simp [hplace.id]
      show ((before ++ y :: after).map Selection.id).Nodup
      rw [hids]
      exact hs
  | aim haims hleast hmost hsettled => exact hs.sublist ((aimedAt_sublist _ _ _).map _)
  | fill hsame =>
      rw [hsame.selections]
      exact hs

/-- **What all selections have after an edit**: what all of them had before, if a selection that is
put into its group has it, and one that is revised in its place keeps it. -/
theorem Build.Edit.forall_mem {index : Index ν} {config : Config} {scope : Scope ν}
    {s s' : Build ν} {P : Selection ν → Prop} (h : s.Edit index config scope s')
    (hs : ∀ x ∈ s.selections, P x)
    (hput : ∀ {item : Item ν} {x : Selection ν} {g : Option (Group ν)}
      {others : List (Selection ν)}, x.id = item.id → x.locked = false → item.Holds x →
      index.groupNamed x.source.name x.group = .ok g → s.Room item x.source g others →
      scope.puts item x → P x)
    (hrevise : ∀ {x y : Selection ν}, P x → x.locked = false → x.SamePlace y →
      (∀ item, index.item? x.id = some item → item.Holds x → item.Holds y) →
      (y.quantity = x.quantity ∨ ∀ n, y.quantity = some n → 1 ≤ n) → P y) :
    ∀ x ∈ s'.selections, P x := by
  cases h with
  | drop hx hopen => exact fun y hy => hs y (List.mem_filter.mp hy).1
  | put hnew hid hopen hheld hgroup hroom hputs =>
      intro y hy
      rcases hroom.mem_or_eq hy with hy | rfl
      · exact hs y hy
      · exact hput hid hopen hheld hgroup hroom hputs
  | @revise before after x y hsel hopen hplace hheld hcount =>
      have hx : x ∈ s.selections := by rw [hsel]; simp
      intro z hz
      rcases eq_or_mem_of_changed hsel hz with rfl | hz
      · exact hrevise (hs x hx) hopen hplace hheld hcount
      · exact hs z hz
  | aim haims hleast hmost hsettled =>
      exact fun y hy => hs y ((aimedAt_sublist index s _).subset hy)
  | fill hsame => exact fun y hy => hs y (hsame.sublist.subset hy)

/-- **A property that lasts for open selections**: whatever is put into its place has it, and what is
revised in its place keeps it. -/
structure Selection.Lasting (index : Index ν) (P : Selection ν → Prop) : Prop where
  put : ∀ {s : Build ν} {item : Item ν} {x : Selection ν} {g : Option (Group ν)}
    {others : List (Selection ν)}, x.id = item.id → item.Holds x →
    index.groupNamed x.source.name x.group = .ok g → s.Room item x.source g others → P x
  revise : ∀ {x y : Selection ν}, P x → x.SamePlace y →
    (y.quantity = x.quantity ∨ ∀ n, y.quantity = some n → 1 ≤ n) → P y

/-- After an edit open selections have what lasts. -/
theorem Selection.Lasting.edit {index : Index ν} {config : Config} {scope : Scope ν}
    {s s' : Build ν} {P : Selection ν → Prop} (hP : Lasting index P)
    (h : ∀ x ∈ s.selections, x.locked = false → P x) (hedit : s.Edit index config scope s') :
    ∀ x ∈ s'.selections, x.locked = false → P x := by
  refine hedit.forall_mem h ?_ ?_
  · intro item x g others hid _ hheld hgroup hroom _ _
    exact hP.put hid hheld hgroup hroom
  · intro x y hx hopen hplace _ hcount _
    exact hP.revise (hx hopen) hplace hcount

/-! ## Selections that are found -/

namespace Build

theorem mem_of_selection? {s : Build ν} {item : Text} {source : Option SourceId}
    {x : Selection ν} (h : s.selection? item source = some x) : x ∈ s.selections :=
  List.mem_of_find?_eq_some h

theorem selection?_id {s : Build ν} {item : Text} {source : Option SourceId} {x : Selection ν}
    (h : s.selection? item source = some x) : x.id = item := by
  have hx := List.find?_some h
  simp only [Selection.isOf, Bool.and_eq_true, decide_eq_true_eq] at hx
  exact hx.1

theorem selection?_none {s : Build ν} {item : Text} (h : s.selection? item none = none) :
    ∀ y ∈ s.selections, y.id ≠ item := by
  intro y hy
  simpa [Selection.isOf] using List.find?_eq_none.mp h y hy

/-- The selection that is found is the one that is changed. -/
theorem modify_of_selection? {s : Build ν} {item : Text} {source : SourceId} {x : Selection ν}
    (h : s.selection? item (some source) = some x) :
    ∃ before after, s.selections = before ++ x :: after ∧
      ∀ change, (s.modify item source change).selections = before ++ change x :: after := by
  obtain ⟨hx, before, after, hs, hbefore⟩ := List.find?_eq_some_iff_append.mp h
  refine ⟨before, after, hs, fun change => ?_⟩
  -- the change goes past the same selections as the search
  have key : ∀ l : List (Selection ν),
      (∀ y ∈ l, (!Selection.isOf item (some source) y) = true) →
      modify.go item source change (l ++ x :: after) = l ++ change x :: after := by
    intro l
    induction l with
    | nil => intro _; simp [modify.go, hx]
    | cons y rest ih =>
        intro hl
        have hy : Selection.isOf item (some source) y = false := by simpa using hl y (by simp)
        simp [modify.go, hy, ih fun z hz => hl z (by simp [hz])]
  show modify.go item source change s.selections = _
  rw [hs]
  exact key before hbefore

/-- What stands in a state in which one selection was changed. -/
theorem mem_modify {s : Build ν} {item : Text} {source : SourceId} {x y : Selection ν}
    {change : Selection ν → Selection ν} (hx : s.selection? item (some source) = some x)
    (hy : y ∈ (s.modify item source change).selections) : y = change x ∨ y ∈ s.selections := by
  obtain ⟨before, after, hs, hmodify⟩ := modify_of_selection? hx
  rw [hmodify] at hy
  exact eq_or_mem_of_changed hs hy

end Build

/-! ## Plans -/

namespace Plan

/-- The state that a plan puts in place, if it does, has a property. -/
def Makes (R : Build ν → Prop) : Plan ν → Prop
  | .keep _ => True
  | .commit change _ => R change.state

theorem Makes.mono {R R' : Build ν → Prop} {p : Plan ν} (h : p.Makes R)
    (hR : ∀ s, R s → R' s) : p.Makes R' := by
  cases p with
  | keep reason => trivial
  | commit change reason => exact hR _ h

variable {index : Index ν} {config : Config} {scope : Scope ν} {state : Build ν}

/-- What a plan makes is what it changes the state to. -/
theorem Makes.of_commits {R : Build ν → Prop} {p : Plan ν}
    (h : ∀ change reason, p = .commit change reason → R change.state) : p.Makes R := by
  cases p with
  | keep reason => trivial
  | commit change reason => exact h change reason rfl

theorem edit_of_remove {x : Selection ν} {change : Change ν} {reason : Option (Reason ν)}
    (hx : x ∈ state.selections) (h : remove state x = .commit change reason) :
    state.Edit index config scope change.state := by
  obtain ⟨hopen, hselects⟩ := remove_commits h
  rw [hselects.state]
  exact .drop hx hopen

theorem SetsOptions.edit {item : Text} {source : SourceId} {x : Selection ν}
    {options : List (Value ν)} {change : Change ν} (h : SetsOptions state item source options change)
    (hfinds : Finds state item source x)
    (hfits : ∀ i, index.item? item = some i → i.FitsOptions x.options → i.FitsOptions options) :
    state.Edit index config scope change.state := by
  obtain ⟨before, after, hs, hmodify⟩ := Build.modify_of_selection? hfinds.found
  rw [h.state, hmodify]
  refine .revise hs hfinds.unlocked ⟨rfl, rfl, rfl, rfl⟩ (fun i hi hheld => ?_) (Or.inl rfl)
  rw [Build.selection?_id hfinds.found] at hi
  exact ⟨hfits i hi hheld.options, hheld.positive, hheld.single⟩

theorem replaceOptions_makes {item : Text} {source : SourceId} {asked : Value ν} {p : Plan ν}
    (h : (replaceOptions index state item source asked).outcome = .ok p) :
    p.Makes (state.Edit index config scope) := by
  refine .of_commits fun change reason hp => ?_
  rw [hp] at h
  obtain ⟨x, options, hfinds, hclean, _, hsets⟩ := replaceOptions_commits h
  refine hsets.edit hfinds fun i hi _ => ?_
  rw [hi] at hclean
  exact Options.clean_fits hclean

theorem takeOption_makes {item : Text} {source : SourceId} {option : Text} :
    (takeOption index state item source option).Makes (state.Edit index config scope) := by
  refine .of_commits fun change reason h => ?_
  obtain ⟨x, i, options, hfinds, hi, htakes, hsets⟩ := takeOption_commits h
  refine hsets.edit hfinds fun j hj hfits => ?_
  rw [hi] at hj
  obtain rfl := Option.some.inj hj
  rcases htakes.taken with ⟨hone, rfl⟩ | ⟨hroom, rfl⟩
  · exact .singleton htakes.offered (by simp [hone])
  · refine hfits.concat htakes.offered (fun hmem => ?_) hroom
    have hnew := htakes.new
    rw [Value.isIn_of_mem hmem] at hnew
    cases hnew

theorem dropOption_makes {item : Text} {source : SourceId} {option : Text} :
    (dropOption state item source option).Makes (state.Edit index config scope) := by
  refine .of_commits fun change reason h => ?_
  obtain ⟨x, hfinds, _, hsets⟩ := dropOption_commits h
  exact hsets.edit hfinds fun i _ hfits => hfits.sublist List.filter_sublist

theorem deselect_makes {item : Text} {source : SourceId} :
    (deselect state item source).Makes (state.Edit index config scope) := by
  refine .of_commits fun change reason h => ?_
  obtain ⟨x, hfinds, hremove⟩ := deselect_commits h
  exact edit_of_remove (Build.mem_of_selection? hfinds.found) hremove

/-- What is revised is held as before, in a quantity that can be held. -/
theorem Requantified.holds {i : Item ν} {changes : Value ν} {x y : Selection ν}
    (h : Requantified (some i) changes x y) (hoptions : y.options = x.options) (hx : i.Holds x) :
    i.Holds y := by
  cases h with
  | kept _ hquantity =>
      exact ⟨hoptions ▸ hx.options, hquantity ▸ hx.positive, hquantity ▸ hx.single⟩
  | asked _ hpositive hquantity =>
      have hheld := holds_heldQuantity hx hpositive
      exact ⟨hoptions ▸ hx.options, hquantity ▸ hheld.positive, hquantity ▸ hheld.single⟩

theorem update_makes {item : Text} {source : SourceId} {changes : Value ν} {p : Plan ν}
    (h : update index state item source changes = .ok p) :
    p.Makes (state.Edit index config scope) := by
  refine .of_commits fun change reason hp => ?_
  rw [hp] at h
  obtain ⟨x, hfinds, hremove | ⟨y, hrevises, hselects⟩⟩ := update_commits h
  · exact edit_of_remove (Build.mem_of_selection? hfinds.found) hremove
  · obtain ⟨before, after, hs, hmodify⟩ := Build.modify_of_selection? hfinds.found
    rw [hselects.state, hmodify]
    refine .revise hs hfinds.unlocked hrevises.place (fun i hi hheld => ?_) ?_
    · rw [Build.selection?_id hfinds.found] at hi
      have hquantity := hrevises.quantity
      rw [hi] at hquantity
      exact hquantity.holds hrevises.options hheld
    · cases hrevises.quantity with
      | kept _ hquantity => exact Or.inl hquantity
      | asked _ hpositive hquantity =>
          refine Or.inr fun n hn => ?_
          rw [hquantity] at hn
          rw [← Option.some.inj hn]
          exact heldQuantity_positive hpositive

/-! ### Selecting -/

/-- What selecting an item from a source in a group may add: a selection of that item from that
source, in the given group or, if none is given, in no group or one with an id. -/
def selectScope (item : Item ν) (source : SourceId) (group : Value ν) : Scope ν where
  puts := fun i x =>
    i = item ∧ x.source = source ∧ (x.group = group ∨ group = .null ∧ ∃ id, x.group = .text id)

omit [Number ν] in
/-- The id that is kept of a group names just that group. -/
theorem groupNamed_of_groupFor {item : Item ν} {source : SourceId} {group kept : Value ν}
    {g : Option (Group ν)} (h : (groupFor index item source group).outcome = .ok (g, kept)) :
    index.groupNamed source.name kept = .ok g ∧
      (kept = group ∨ group = .null ∧ ∃ id, kept = .text id) := by
  unfold groupFor at h
  split at h
  · rename_i hnull
    have hnull := Value.isNull_iff.mp hnull
    split at h
    · rename_i found hfound
      obtain ⟨rfl, rfl⟩ := Prod.mk.inj (Except.ok.inj h)
      refine ⟨?_, Or.inr ⟨hnull, found.id, rfl⟩⟩
      rw [Index.groupNamed_text, index.groupOf?_of_groupListing? hfound]
    · obtain ⟨rfl, rfl⟩ := Prod.mk.inj (Except.ok.inj h)
      exact ⟨index.groupNamed_null _, Or.inl hnull.symm⟩
  · obtain ⟨found, hfound, h⟩ := Traced.outcome_bind_eq_ok.mp h
    obtain ⟨rfl, rfl⟩ := Prod.mk.inj (Except.ok.inj h)
    refine ⟨?_, Or.inl rfl⟩
    unfold Index.group at hfound
    obtain ⟨named, hnamed, hfound⟩ := Traced.outcome_bind_eq_ok.mp hfound
    dsimp only at hfound
    split at hfound
    · obtain ⟨_, _, hfound⟩ := Traced.outcome_bind_eq_ok.mp hfound
      rw [← Except.ok.inj hfound]; exact hnamed
    · rw [← Except.ok.inj hfound]; exact hnamed

theorem room_of_makeRoom {item : Item ν} {source : SourceId} {g : Group ν}
    {others : List (Selection ν)}
    (h : (makeRoom state item source g).outcome = .ok (.ok others)) :
    state.Room item source (some g) others := by
  unfold makeRoom at h
  split at h
  · obtain ⟨_, _, h⟩ := Traced.outcome_bind_eq_ok.mp h
    cases h
  · rename_i hlisted
    split at h
    · cases h
    · rename_i hreached
      split at h
      · cases h
      · rename_i hsettled
        have htakes : state.Takes item g :=
          ⟨by simpa using hlisted, hreached, by simpa using hsettled⟩
        cases hl : g.limit with
        | none =>
            simp only [hl] at h
            rw [← Except.ok.inj (Except.ok.inj h)]
            exact .free htakes hl
        | some limit =>
            simp only [hl] at h
            split at h
            · rename_i hexclusive
              split at h
              · cases h
              · rename_i hopen
                obtain ⟨_, _, h⟩ := Traced.outcome_bind_eq_ok.mp h
                rw [← Except.ok.inj (Except.ok.inj h)]
                -- the members make room for the item
                refine .instead htakes (by simpa [Group.isExclusive] using hexclusive) ?_
                simpa using hopen
            · split at h
              · cases h
              · rename_i hroom
                rw [← Except.ok.inj (Except.ok.inj h)]
                exact .spare htakes hl (by omega)

theorem room_of_roomFor {item : Item ν} {source : SourceId} {g : Option (Group ν)}
    {others : List (Selection ν)}
    (h : (roomFor state item source g).outcome = .ok (.ok others)) :
    state.Room item source g others := by
  cases g with
  | none => exact Except.ok.inj (Except.ok.inj h) ▸ .loose
  | some g => exact room_of_makeRoom h

variable {item : Item ν} {source : SourceId} {group payload : Value ν} {others : List (Selection ν)}
  {x : Selection ν}

/-- What is put into a state is a new selection beside some of the old ones, in a group that holds
it as the item allows. -/
structure Fresh (index : Index ν) (state : Build ν) (item : Item ν) (source : SourceId)
    (others : List (Selection ν)) (x : Selection ν) : Prop where
  place : x.id = item.id ∧ x.source = source ∧ x.locked = false
  held : item.Holds x
  new : ∀ y ∈ others, y.id ≠ x.id
  room : ∃ g, index.groupNamed source.name x.group = .ok g ∧ state.Room item source g others

theorem Puts.fresh (h : Puts index state item source group payload others x) :
    Fresh index state item source others x := by
  obtain ⟨g, hfor, hroom⟩ := h.room
  obtain ⟨reason, hpaid⟩ := h.paid
  obtain ⟨hplace, hheld⟩ := pay_holds hpaid
  have hroom' := room_of_roomFor hroom
  refine ⟨⟨hplace.id, hplace.source, hplace.locked⟩, hheld (holds_new item source x.group),
    fun y hy => ?_, g, (groupNamed_of_groupFor hfor).1, hroom'⟩
  rw [hplace.id]
  exact Build.selection?_none h.new y (hroom'.sublist.subset hy)

/-- A selection that is put into a build is the one that is found of its item. -/
theorem Puts.found (h : Puts index state item source group payload others x) :
    ({ state with selections := others ++ [x] } : Build ν).selection? item.id none = some x := by
  obtain ⟨hid, _⟩ := h.fresh.place
  have hothers : others.find? (Selection.isOf item.id none) = none := by
    refine List.find?_eq_none.mpr fun y hy => ?_
    have hne := h.fresh.new y hy
    rw [hid] at hne
    simpa [Selection.isOf] using hne
  show (others ++ [x]).find? _ = _
  rw [List.find?_append, hothers]
  simp [Selection.isOf, hid]

theorem Puts.edit (h : Puts index state item source group payload others x) :
    state.Edit index config (selectScope item source group)
      { state with selections := others ++ [x] } := by
  obtain ⟨⟨hid, hsource, hopen⟩, hheld, _, g, hgroup, hroom⟩ := h.fresh
  obtain ⟨_, hfor, _⟩ := h.room
  rw [← hsource] at hgroup hroom
  exact .put (Build.selection?_none h.new) hid hopen hheld hgroup hroom
    ⟨rfl, hsource, (groupNamed_of_groupFor hfor).2⟩

/-- **Selecting an item drops it if it is selected, and puts it into its group if not.** -/
theorem select_makes {p : Plan ν}
    (h : (select index state item source group payload).outcome = .ok p) :
    p.Makes (state.Edit index config (selectScope item source group)) := by
  refine .of_commits fun change reason hp => ?_
  rw [hp] at h
  rcases select_commits h with ⟨x, hx, _, hremove⟩ | ⟨others, x, hputs, hselects⟩
  · exact edit_of_remove (Build.mem_of_selection? hx) hremove
  · rw [hselects.state]
    exact hputs.edit

end Plan

end CharacterBuild
