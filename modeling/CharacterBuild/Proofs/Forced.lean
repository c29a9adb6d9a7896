import CharacterBuild.Proofs.Commits
import CharacterBuild.Proofs.Standing

set_option autoImplicit false

/-! # Taking forced items

A choice that offers exactly as many items as are to be chosen leaves no choice, and its items may
be taken all at once (`Session.selectAllForced`). They are selected one after another, each in the
group that the source has under the id of the choice. That need not be the group of the choice: if
an id is used twice, the first group counts, and it may hold one item only. Then a forced item takes
the place of what was selected there (`Selection.OustedBy`), be it by the user or as another forced
item.

Where no exclusive group offers a forced item together with others, as when the ids of the groups
are pairwise different (`Index.forcesAlone_of_nodup`), the forced items are added behind all that
is selected already, and once all are taken, taking them again does nothing
(`Guided.forced_added`).
-/

namespace CharacterBuild

variable {ν : Type} [Number ν]

/-! ## Groups that list what is in them -/

/-- The group of every open selection lists its item, if there is such a group. -/
def Build.Listed (index : Index ν) (s : Build ν) : Prop :=
  ∀ x ∈ s.selections, x.locked = false →
    ∀ g, index.groupNamed x.source.name x.group = .ok (some g) → x.id ∈ g.items

theorem Build.Listed.lasting (index : Index ν) : Selection.Lasting index fun x =>
    ∀ g, index.groupNamed x.source.name x.group = .ok (some g) → x.id ∈ g.items where
  put := by
    intro s item x g others hid _ hgroup hroom g' hg'
    obtain rfl := Except.ok.inj (hgroup.symm.trans hg')
    rw [hid]
    exact hroom.takes.listed
  revise := by
    intro x y hx hplace _ g hg
    rw [hplace.source, hplace.group] at hg
    rw [hplace.id]
    exact hx g hg

/-- In whatever build a session reaches, groups list what is in them. -/
theorem Guided.listed_after {catalog : Catalog ν} {config : Config} {s : Session ν (Call ν)}
    (hs : (newBuild catalog config).outcome = .ok s) (calls : List (Call ν)) :
    (after s calls).state.Listed s.index :=
  (lasting_after (Build.Listed.lasting s.index) hs calls).holds

/-! ## Forced items and their selections -/

/-- A selection of a forced item, as it is taken from a source. -/
structure Selection.TakenFor (key : SourceId) (one : Text × Text) (x : Selection ν) : Prop where
  id : x.id = one.1
  source : x.source = key
  group : x.group = .text one.2
  unlocked : x.locked = false

/-- **An open selection that has to make room for a forced item**: both are offered in the group of
the choice's id, which holds one item only. -/
structure Selection.OustedBy (index : Index ν) (key : SourceId) (one : Text × Text)
    (x : Selection ν) : Prop where
  unlocked : x.locked = false
  source : x.source = key
  group : x.group = .text one.2
  other : x.id ≠ one.1
  shared : ∃ g, index.groupOf? key.name one.2 = some g ∧ g.isExclusive = true ∧
    one.1 ∈ g.items ∧ x.id ∈ g.items

/-- **No exclusive group offers a forced item together with others.** -/
def Index.ForcesAlone (index : Index ν) (source : Text) (forced : List (Text × Text)) : Prop :=
  ∀ one ∈ forced, ∀ g, index.groupOf? source one.2 = some g → g.isExclusive = true →
    one.1 ∈ g.items → ∀ item ∈ g.items, item = one.1

namespace Selection.OustedBy

variable {index : Index ν} {key : SourceId} {one : Text × Text} {x : Selection ν}

omit [Number ν] in
/-- Nothing has to make room for items that are offered alone. -/
theorem not_of_alone {forced : List (Text × Text)} (halone : index.ForcesAlone key.name forced)
    (hone : one ∈ forced) : ¬ x.OustedBy index key one := by
  intro h
  obtain ⟨g, hg, hexclusive, hlisted, hother⟩ := h.shared
  exact h.other (halone one hone g hg hexclusive hlisted x.id hother)

/-- What does not stay when there is room for a forced item has to make room for it. -/
theorem of_room {s : Build ν} {item : Item ν} {choice : Text} {others : List (Selection ν)}
    (hlisted : s.Listed index) (hnew : ∀ y ∈ s.selections, y.id ≠ item.id)
    (hroom : s.Room item key (index.groupOf? key.name choice) others) :
    ∃ stays : Selection ν → Bool, others = s.selections.filter stays ∧
      ∀ y ∈ s.selections, stays y = false → y.OustedBy index key (item.id, choice) := by
  cases hg : index.groupOf? key.name choice with
  | none =>
      rw [hg] at hroom
      cases hroom
      exact ⟨fun _ => true, by simp, nofun⟩
  | some g =>
      rw [hg] at hroom
      obtain ⟨_, rfl⟩ := index.mem_of_groupOf? hg
      rcases hroom.exclusive_or with ⟨_, rfl⟩ | ⟨hexclusive, rfl, hopen⟩
      · exact ⟨fun _ => true, by simp, nofun⟩
      · refine ⟨_, rfl, fun y hy hin => ?_⟩
        have hin : y.isIn key g.id = true := by simpa using hin
        have hunlocked := hopen y (List.mem_filter.mpr ⟨hy, hin⟩)
        simp only [Selection.isIn, Bool.and_eq_true, decide_eq_true_eq, Value.isText_iff] at hin
        obtain ⟨hsource, hgroup⟩ := hin
        refine ⟨hunlocked, hsource, hgroup, hnew y hy, g, hg, hexclusive, hroom.takes.listed, ?_⟩
        apply hlisted y hy hunlocked
        rw [hsource, hgroup, Index.groupNamed_text, hg]

end Selection.OustedBy

/-! ### Ids that are used once -/

namespace Index

variable {index : Index ν} {source : Text}

omit [Number ν] in
/-- Where ids are used once, the index keeps all groups of a source. -/
theorem groups_of_nodup {entry : IndexedSource ν} (hentry : index.entry? source = some entry)
    (hids : (entry.source.allGroups.map Group.id).Nodup) :
    index.groups source = entry.source.allGroups := by
  obtain ⟨s, _, rfl⟩ := index.mem_of_entry? hentry
  unfold groups
  rw [hentry]
  refine firstsBy_eq_self ((List.pairwise_map.mp hids).imp fun hne => ?_)
  simpa using hne

/-- A forced item is offered in a choice that the source unlocks, which holds all its items. -/
theorem exists_choice_of_forced {state : Build ν} {one : Text × Text}
    (h : one ∈ Session.forcedChoices index state source) :
    ∃ entry level choice, index.entry? source = some entry ∧
      Group.ofChoice entry.source.key.name level choice ∈ entry.source.allGroups ∧
      choice.givenLimit = some (choice.items.length : Int) ∧ choice.id = one.2 ∧
      one.1 ∈ choice.items := by
  unfold Session.forcedChoices at h
  obtain ⟨⟨level, unlock⟩, hu, h⟩ := List.mem_flatMap.mp h
  dsimp only at h
  split at h
  · rename_i choice hchoice
    split at h
    · rename_i hforced
      simp only [Bool.and_eq_true, decide_eq_true_eq] at hforced
      obtain ⟨item, hitem, rfl⟩ := List.mem_map.mp h
      unfold unlocks at hu
      split at hu
      · rename_i entry hentry
        obtain ⟨s, _, rfl⟩ := index.mem_of_entry? hentry
        refine ⟨_, level, choice, hentry, ?_, hforced.2, rfl, hitem⟩
        refine List.mem_flatMap.mpr ⟨_, (List.mem_filter.mp hu).1, ?_⟩
        cases unlock with
        | choice c =>
            obtain rfl := Option.some.inj hchoice
            exact List.mem_singleton.mpr rfl
        | reward r => cases hchoice
        | pointBuy p => cases hchoice
      · cases hu
    · cases h
  · cases h

/-- **Where the groups of a source have pairwise different ids**, an exclusive group offers a forced
item alone. -/
theorem forcesAlone_of_nodup
    (hids : ∀ entry, index.entry? source = some entry →
      (entry.source.allGroups.map Group.id).Nodup) (state : Build ν) :
    index.ForcesAlone source (Session.forcedChoices index state source) := by
  intro one hone g hg hexclusive hlisted item hitem
  obtain ⟨entry, level, choice, hentry, hmem, hlimit, hid, hin⟩ := exists_choice_of_forced hone
  -- the group of the choice's id is the choice itself
  rw [← groups_of_nodup hentry (hids entry hentry)] at hmem
  have hfound := index.groupOf?_of_mem hmem
  have hid' : (Group.ofChoice (ν := ν) entry.source.key.name level choice).id = one.2 := hid
  rw [hid', hg] at hfound
  obtain rfl := Option.some.inj hfound
  -- which offers as many items as it holds, and that is one
  have hone : limitOf choice.givenLimit = some 1 := of_decide_eq_true hexclusive
  rw [hlimit, limitOf_eq_some_iff] at hone
  have hlength : choice.items.length = 1 := by
    have := Option.some.inj hone.1
    omega
  obtain ⟨only, honly⟩ := List.length_eq_one_iff.mp hlength
  have hitem : item ∈ choice.items := hitem
  rw [honly, List.mem_singleton] at hitem hin
  rw [hitem, hin]

end Index

/-! ## Taking one forced item -/

namespace Plan

/-- Any item can be paid with the payload of forced items. -/
theorem pay_forcedPayload (config : Config) (item : Item ν) (x : Selection ν) :
    ∃ y reason, (pay item ((Session.forcedPayload config item).orElse (.object [])) x).outcome
      = .ok (y, reason) := by
  unfold Session.forcedPayload
  split
  · refine ⟨{ x with quantity := some (heldQuantity (some item) (max 1 1)).1 },
      (heldQuantity (some item) (max 1 1)).2.or none, ?_⟩
    rfl
  · exact ⟨x, none, rfl⟩

variable {s : Build ν} {item : Item ν} {source : SourceId} {g : Group ν}

/-- What speaks against putting an item into a group. -/
theorem isSome_refusal? : (refusal? s item source g).isSome = (!g.items.contains item.id ||
    (decide (s.targetLevel < (g.level : Level ν)) || s.isSettled g.level) ||
    g.limit.any fun limit => if g.isExclusive then (s.membersOf source g.id).any (·.locked)
      else decide (limit ≤ (s.membersOf source g.id).length)) := by
  unfold refusal?
  by_cases hlisted : item.id ∈ g.items
  · by_cases hlow : s.targetLevel < (g.level : Level ν)
    · simp [hlisted, hlow]
    · by_cases hsettled : s.isSettled g.level = true
      · simp [hlisted, hlow, hsettled]
      · cases hlimit : g.limit with
        | none => simp [hlisted, hlow, hsettled]
        | some limit =>
            by_cases hexclusive : g.isExclusive = true
            · cases hlocked : (s.membersOf source g.id).any (·.locked) <;>
                simp [hlisted, hlow, hsettled, hexclusive, hlocked]
            · by_cases hfull : limit ≤ (s.membersOf source g.id).length <;>
                simp [hlisted, hlow, hsettled, hexclusive, hfull]
  · simp [hlisted]

/-- It still does when more is selected. -/
theorem refusal?_append (added : List (Selection ν)) (h : (refusal? s item source g).isSome = true) :
    (refusal? { s with selections := s.selections ++ added } item source g).isSome = true := by
  have hmembers : Build.membersOf { s with selections := s.selections ++ added } source g.id
      = s.membersOf source g.id ++ added.filter (Selection.isIn source g.id) :=
    List.filter_append ..
  have hsettled : Build.isSettled { s with selections := s.selections ++ added } g.level
      = s.isSettled g.level := rfl
  rw [isSome_refusal?, Bool.or_eq_true] at h ⊢
  rw [hmembers, hsettled]
  refine h.imp id fun hfull => ?_
  -- the members that stood in the way are still there
  obtain ⟨limit, hlimit, hfull⟩ := (Option.any_eq_true ..).mp hfull
  refine (Option.any_eq_true ..).mpr ⟨limit, hlimit, ?_⟩
  split at hfull
  · rename_i hexclusive
    rw [if_pos hexclusive, List.any_append, hfull, Bool.true_or]
  · rename_i hexclusive
    rw [if_neg hexclusive, List.length_append]
    simp only [decide_eq_true_eq] at hfull ⊢
    omega

end Plan

/-- **A forced item that is not taken**: it is unknown, selected already, or refused. -/
inductive Build.LeavesOut (index : Index ν) (key : SourceId) (s : Build ν) (one : Text × Text) :
    Prop where
  | unknown (hitem : index.item? one.1 = none) : LeavesOut index key s one
  | selected (hselected : s.isSelected one.1 = true) : LeavesOut index key s one
  | refused {item : Item ν} {g : Group ν} (hitem : index.item? one.1 = some item)
      (hg : index.groupOf? key.name one.2 = some g)
      (hrefused : (Plan.refusal? s item key g).isSome = true) : LeavesOut index key s one

/-- It is not taken either when more is selected. -/
theorem Build.LeavesOut.append {index : Index ν} {key : SourceId} {s : Build ν}
    {one : Text × Text} (h : s.LeavesOut index key one) (added : List (Selection ν)) :
    LeavesOut index key { s with selections := s.selections ++ added } one := by
  cases h with
  | unknown hitem => exact .unknown hitem
  | selected hselected =>
      refine .selected ?_
      unfold isSelected at hselected ⊢
      rw [List.any_append, hselected, Bool.true_or]
  | refused hitem hg hrefused => exact .refused hitem hg (Plan.refusal?_append added hrefused)

/-- **A forced item is put into a build**: it was not selected, and there is room for it beside
others in the group of the choice's id. -/
structure Build.Forces (index : Index ν) (s : Build ν) (key : SourceId) (one : Text × Text)
    (others : List (Selection ν)) (x : Selection ν) : Prop where
  new : ∀ y ∈ s.selections, y.id ≠ one.1
  taken : x.TakenFor key one
  room : ∃ item : Item ν, index.item? one.1 = some item ∧
    (index.groupOf? key.name one.2).bind (Plan.refusal? s item key) = none ∧
    s.Room item key (index.groupOf? key.name one.2) others

/-- What is left out is not put into a build. -/
theorem Build.LeavesOut.not_forces {index : Index ν} {s : Build ν} {key : SourceId}
    {one : Text × Text} {others : List (Selection ν)} {x : Selection ν}
    (h : s.LeavesOut index key one) : ¬ s.Forces index key one others x := by
  intro hforces
  obtain ⟨item, hitem, hfits, _⟩ := hforces.room
  cases h with
  | unknown hnone =>
      rw [hitem] at hnone
      cases hnone
  | selected hselected =>
      obtain ⟨y, hy, hid⟩ := List.any_eq_true.mp hselected
      exact hforces.new y hy (of_decide_eq_true hid)
  | refused hitem' hg hrefused =>
      rw [hitem] at hitem'
      obtain rfl := Option.some.inj hitem'
      rw [hg, Option.bind_some] at hfits
      rw [hfits] at hrefused
      cases hrefused

/-- Items that are offered alone are put beside everything that is selected. -/
theorem Build.Forces.others_eq {index : Index ν} {s : Build ν} {key : SourceId}
    {one : Text × Text} {others : List (Selection ν)} {x : Selection ν}
    {forced : List (Text × Text)} (h : s.Forces index key one others x) (hlisted : s.Listed index)
    (halone : index.ForcesAlone key.name forced) (hone : one ∈ forced) :
    others = s.selections := by
  obtain ⟨item, hitem, _, hroom⟩ := h.room
  have hid : item.id = one.1 := index.id_of_item? hitem
  obtain ⟨stays, rfl, housted⟩ := Selection.OustedBy.of_room hlisted (by rw [hid]; exact h.new) hroom
  refine List.filter_eq_self.mpr fun y hy => ?_
  rw [← Bool.not_eq_false]
  intro hgone
  have := housted y hy hgone
  rw [hid] at this
  exact this.not_of_alone halone hone

/-- The group of a forced item lists it. -/
theorem Build.Forces.listed {index : Index ν} {s : Build ν} {key : SourceId} {one : Text × Text}
    {others : List (Selection ν)} {x : Selection ν} (h : s.Forces index key one others x)
    (hlisted : s.Listed index) : Build.Listed index { s with selections := others ++ [x] } := by
  obtain ⟨item, hitem, _, hroom⟩ := h.room
  have hid : item.id = one.1 := index.id_of_item? hitem
  intro y hy hunlocked g hg
  rcases hroom.mem_or_eq hy with hy | rfl
  · exact hlisted y hy hunlocked g hg
  · rw [h.taken.source, h.taken.group, Index.groupNamed_text] at hg
    rw [Except.ok.inj hg] at hroom
    rw [h.taken.id, ← hid]
    exact hroom.takes.listed

namespace Session

variable {κ : Type} {run : κ → Action ν κ (Answer ν)} {s : Session ν κ} {key : SourceId}
  {one : Text × Text}

/-- **How taking one forced item turns out.** -/
inductive ForcedTurn (s : Session ν κ) (key : SourceId) (one : Text × Text)
    (t : Turn ν κ (List Text)) : Prop where
  /-- It is not taken. -/
  | left (hout : s.state.LeavesOut s.index key one) (hs : t.session = s) (ho : t.outcome = .ok [])
  /-- It is taken, and a listener may let out a fault. -/
  | taken {others : List (Selection ν)} {x : Selection ν} {changed : Bool}
      (hforces : s.state.Forces s.index key one others x)
      (hs : s.Replaced { s.state with selections := others ++ [x] } changed t.session)
      (ho : t.outcome = .ok [one.1] ∨
        ∃ fault, t.outcome = .error fault ∧ ∃ d ∈ t.deliveries, d.outcome = .error fault)
  /-- The check does not let the new state pass. -/
  | barred {others : List (Selection ν)} {x : Selection ν} {fault : Fault ν}
      (hforces : s.state.Forces s.index key one others x) (hs : t.session = s)
      (ho : t.outcome = .error fault)
      (hbar : s.Barred { s.state with selections := others ++ [x] } fault)

omit [Number ν] in
/-- The pick of a forced item is placed in the group of the choice's id. -/
theorem placed_forced (index : Index ν) (config : Config) (item : Item ν) (choice : Text) :
    Pick.Placed ⟨item, key, .text choice, forcedPayload config item⟩ index
      (index.groupOf? key.name choice) (.text choice) := by
  have hgroup : (index.group key.name (.text choice)).outcome
      = .ok (index.groupOf? key.name choice) :=
    index.group_outcome (index.groupNamed_text key.name choice)
  exact ⟨hgroup, Traced.outcome_bind_eq_ok.mpr ⟨_, hgroup, rfl⟩, Or.inr ⟨choice, rfl⟩⟩

/-- What the plan for a forced item that is not selected comes to. -/
theorem forcedPlan_cases {index : Index ν} (config : Config) {state : Build ν} {item : Item ν}
    (key : SourceId) (choice : Text) (hitem : index.item? item.id = some item)
    (hnew : ∀ y ∈ state.selections, y.id ≠ item.id) :
    let plan := (Plan.select index state item key (.text choice) (forcedPayload config item)).outcome
    (∃ g reason, index.groupOf? key.name choice = some g ∧
      (Plan.refusal? state item key g).isSome = true ∧ plan = .ok (Plan.refuse reason)) ∨
    ∃ others x note reason, state.Forces index key (item.id, choice) others x ∧
      plan = .ok (Plan.selections state (others ++ [x]) note reason) := by
  intro plan
  have hnone : state.selection? item.id none = none := by
    refine List.find?_eq_none.mpr fun y hy => ?_
    simpa [Selection.isOf] using hnew y hy
  let pick : Pick ν := ⟨item, key, .text choice, forcedPayload config item⟩
  have hplan : plan = _ := pick.outcome_select hnone (placed_forced index config item choice)
  cases hrefused : (index.groupOf? key.name choice).bind (Plan.refusal? state item key) with
  | some reason =>
      obtain ⟨g, hg, hreason⟩ := Option.bind_eq_some_iff.mp hrefused
      refine Or.inl ⟨g, reason, hg, by rw [hreason]; rfl, ?_⟩
      rw [hplan]
      dsimp only [pick]
      rw [hrefused]
  | none =>
      obtain ⟨x, reason, hpaid⟩ : ∃ x reason, pick.paid (.text choice) = .ok (x, reason) :=
        Plan.pay_forcedPayload config item _
      obtain ⟨hplace, _⟩ := Plan.pay_holds hpaid
      have hroom := Plan.outcome_roomFor state item key (index.groupOf? key.name choice)
      rw [hrefused] at hroom
      have htaken : x.TakenFor key (item.id, choice) :=
        ⟨hplace.id, hplace.source, hplace.group, hplace.locked⟩
      refine Or.inr ⟨_, x, .selected item.id key.name (.text choice), reason,
        ⟨hnew, htaken, item, hitem, hrefused, Plan.room_of_roomFor hroom⟩, ?_⟩
      rw [hplan]
      dsimp only [pick]
      rw [hrefused]
      dsimp only
      rw [hpaid]
      rfl

theorem selectForced_turn (hrun : ∀ c, (run c).LeavesBuild) (hidle : s.announcing = false) :
    s.ForcedTurn key one (selectForced run key one s) := by
  unfold selectForced
  rw [Action.session_bind]
  cases hitem : s.index.item? one.1 with
  | none => exact .left (.unknown hitem) rfl rfl
  | some item =>
      dsimp only
      have hid : item.id = one.1 := s.index.id_of_item? hitem
      split
      · rename_i hselected
        exact .left (.selected hselected) rfl rfl
      · rename_i hselected
        have hnew : ∀ y ∈ s.state.selections, y.id ≠ item.id := by
          simpa [Build.isSelected, hid] using hselected
        rw [← map_eq_pure_bind]
        rcases forcedPlan_cases s.config key one.2 (s.index.item?_id hitem) hnew with
          ⟨g, reason, hg, hrefused, hplan⟩ | ⟨others, x, note, reason, hforces, hplan⟩
        · have hcarried := select_carried hrun hidle hplan
          rw [Action.map_apply]
          cases hcarried with
          | kept hs _ ho =>
              refine .left (.refused hitem hg hrefused) hs ?_
              dsimp only
              rw [ho]
              rfl
        · rw [hid] at hforces
          have hcarried := select_carried hrun hidle hplan
          rw [Action.map_apply]
          cases hcarried with
          | barred hs _ ho hbar =>
              refine .barred hforces hs ?_ hbar
              dsimp only
              rw [ho]
              rfl
          | made _ hs ho =>
              refine .taken hforces hs (Or.inl ?_)
              dsimp only
              rw [ho]
              rfl
          | broken _ hs ho hd =>
              refine .taken hforces hs (Or.inr ⟨_, ?_, hd⟩)
              dsimp only
              rw [ho]
              rfl

end Session

/-! ## What has to make room -/

/-- **What becomes of a build when forced items are taken**: only what has to make room for one of
them is lost, and nothing but forced items is new. -/
structure Build.Forced (index : Index ν) (key : SourceId) (forced : List (Text × Text))
    (s s' : Build ν) : Prop where
  rest : s' = { s with selections := s'.selections }
  kept : ∀ x ∈ s.selections, x ∈ s'.selections ∨ ∃ one ∈ forced, x.OustedBy index key one
  new : ∀ x ∈ s'.selections, x ∈ s.selections ∨ ∃ one ∈ forced, x.TakenFor key one

namespace Build.Forced

variable {index : Index ν} {config : Config} {key : SourceId} {forced : List (Text × Text)}
  {s s' s'' : Build ν}

/-- Taking one forced item more. -/
theorem tail (h : s.Forced index key forced s') (hlisted : s'.Listed index)
    (hstep : TakesForced index config key forced s' s'') :
    s.Forced index key forced s'' ∧ s''.Listed index := by
  obtain ⟨⟨item, choice, change, reason, hone, hitem, hselected, hplan, rfl⟩, _⟩ := hstep
  have hnew : ∀ y ∈ s'.selections, y.id ≠ item.id := by simpa [isSelected] using hselected
  rcases Session.forcedPlan_cases config key choice hitem hnew with
    ⟨_, _, _, _, hrefused⟩ | ⟨others, x, note, reason, hforces, hput⟩
  · rw [hplan] at hrefused
    cases hrefused
  · rw [hplan] at hput
    obtain ⟨rfl, _⟩ := Plan.commit.inj (Except.ok.inj hput)
    obtain ⟨item', hitem', _, hroom⟩ := hforces.room
    obtain rfl : item = item' := Option.some.inj (hitem.symm.trans hitem')
    obtain ⟨stays, rfl, housted⟩ := Selection.OustedBy.of_room hlisted hnew hroom
    refine ⟨⟨by rw [h.rest], fun y hy => ?_, fun y hy => ?_⟩, hforces.listed hlisted⟩
    · rcases h.kept y hy with hy | hy
      · cases hstays : stays y with
        | true => exact Or.inl (List.mem_append_left _ (List.mem_filter.mpr ⟨hy, hstays⟩))
        | false => exact Or.inr ⟨_, hone, housted y hy hstays⟩
      · exact Or.inr hy
    · rcases hroom.mem_or_eq hy with hy | rfl
      · exact h.new y hy
      · exact Or.inr ⟨_, hone, hforces.taken⟩

/-- Taking any number of forced items. -/
theorem of_takes (hlisted : s.Listed index)
    (h : Relation.ReflTransGen (TakesForced index config key forced) s s') :
    s.Forced index key forced s' := by
  suffices h' : s.Forced index key forced s' ∧ s'.Listed index from h'.1
  induction h with
  | refl => exact ⟨⟨rfl, fun x hx => Or.inl hx, fun x hx => Or.inl hx⟩, hlisted⟩
  | tail _ hstep ih => exact ih.1.tail ih.2 hstep

end Build.Forced

/-! ## Taking all forced items -/

namespace Session

variable {κ : Type} {run : κ → Action ν κ (Answer ν)} {s : Session ν κ} {key : SourceId}
  {one : Text × Text} {list forced : List (Text × Text)}

/-- **Forced items that are added**: the state has them behind all that was selected, in the order
in which they are named in the answer, and then no one is left that could be taken. Only a listener
or the check can stand in the way. -/
structure Adds (s : Session ν κ) (key : SourceId) (list : List (Text × Text))
    (t : Turn ν κ (List Text)) : Prop where
  index : t.session.index = s.index
  idle : t.session.announcing = false
  listed : t.session.state.Listed s.index
  added : ∃ added : List (Selection ν),
    t.session.state = { s.state with selections := s.state.selections ++ added } ∧
    (∀ x ∈ added, ∃ one ∈ list, x.TakenFor key one) ∧
    ∀ ids, t.outcome = .ok ids → ids = added.map Selection.id
  finished : ∀ ids, t.outcome = .ok ids → ∀ one ∈ list, t.session.state.LeavesOut s.index key one
  faulted : ∀ fault, t.outcome = .error fault → (∃ d ∈ t.deliveries, d.outcome = .error fault) ∨
    ∃ x : Selection ν, (∃ one ∈ list, x.TakenFor key one) ∧ t.session.Barred
      { t.session.state with selections := t.session.state.selections ++ [x] } fault

variable {t : Turn ν κ (List Text)}

/-- A turn that changes nothing adds nothing. -/
theorem Adds.of_session_eq (hidle : s.announcing = false) (hlisted : s.state.Listed s.index)
    (hs : t.session = s)
    (hout : ∀ ids, t.outcome = .ok ids →
      ids = [] ∧ ∀ one ∈ list, s.state.LeavesOut s.index key one)
    (hfault : ∀ fault, t.outcome = .error fault →
      ∃ x : Selection ν, (∃ one ∈ list, x.TakenFor key one) ∧
        s.Barred { s.state with selections := s.state.selections ++ [x] } fault) :
    s.Adds key list t where
  index := by rw [hs]
  idle := by rw [hs]; exact hidle
  listed := by rw [hs]; exact hlisted
  added := ⟨[], by rw [hs]; simp, nofun, fun ids hids => (hout ids hids).1⟩
  finished := by rw [hs]; exact fun ids hids => (hout ids hids).2
  faulted := by rw [hs]; exact fun fault ho => Or.inr (hfault fault ho)

/-- Taking one item that is offered alone adds it. -/
theorem selectForced_adds (hrun : ∀ c, (run c).LeavesBuild) (hidle : s.announcing = false)
    (hlisted : s.state.Listed s.index) (halone : s.index.ForcesAlone key.name forced)
    (hone : one ∈ forced) : s.Adds key [one] (selectForced run key one s) := by
  have hturn : s.ForcedTurn key one (selectForced run key one s) := selectForced_turn hrun hidle
  generalize selectForced run key one s = t at hturn
  cases hturn with
  | left hout hs ho =>
      refine .of_session_eq hidle hlisted hs (fun ids hids => ?_) (by rw [ho]; nofun)
      refine ⟨(Except.ok.inj (ho.symm.trans hids)).symm, fun one' hone' => ?_⟩
      rw [List.mem_singleton.mp hone']
      exact hout
  | @taken others x changed hforces hs ho =>
      obtain rfl := hforces.others_eq hlisted halone hone
      refine ⟨hs.index, hs.idle, by rw [hs.state]; exact hforces.listed hlisted,
        ⟨[x], hs.state, ?_, ?_⟩, ?_, ?_⟩
      · intro y hy
        rw [List.mem_singleton.mp hy]
        exact ⟨one, by simp, hforces.taken⟩
      · intro ids hids
        rcases ho with ho | ⟨_, ho, _⟩
        · rw [← Except.ok.inj (ho.symm.trans hids), List.map_singleton, hforces.taken.id]
        · rw [ho] at hids
          cases hids
      · intro _ _ one' hone'
        rw [List.mem_singleton.mp hone', hs.state]
        refine .selected (List.any_eq_true.mpr ⟨x, by simp, ?_⟩)
        simpa using hforces.taken.id
      · intro fault hfault
        rcases ho with ho | ⟨_, ho, hd⟩
        · rw [ho] at hfault
          cases hfault
        · rw [← Except.error.inj (ho.symm.trans hfault)]
          exact Or.inl hd
  | @barred others x fault hforces hs ho hbar =>
      obtain rfl := hforces.others_eq hlisted halone hone
      refine .of_session_eq hidle hlisted hs (by rw [ho]; nofun) fun fault' hfault => ?_
      rw [← Except.error.inj (ho.symm.trans hfault)]
      exact ⟨x, ⟨one, by simp, hforces.taken⟩, hbar⟩

/-- A turn that ends early is one of more items. -/
theorem Adds.of_error {fault : Fault ν} (h : s.Adds key [one] t) (ho : t.outcome = .error fault)
    (hone : one ∈ list) : s.Adds key list t where
  index := h.index
  idle := h.idle
  listed := h.listed
  added := by
    obtain ⟨added, hstate, htaken, hids⟩ := h.added
    refine ⟨added, hstate, fun x hx => ?_, hids⟩
    obtain ⟨one', hone', hx⟩ := htaken x hx
    exact ⟨one, hone, List.mem_singleton.mp hone' ▸ hx⟩
  finished := by rw [ho]; nofun
  faulted := by
    refine fun fault' ho' => (h.faulted fault' ho').imp id ?_
    rintro ⟨x, ⟨one', hone', hx⟩, hbar⟩
    exact ⟨x, ⟨one, hone, List.mem_singleton.mp hone' ▸ hx⟩, hbar⟩

/-- One item after another. -/
theorem Adds.cons {ids : List Text} {t' t'' : Turn ν κ (List Text)} (h : s.Adds key [one] t)
    (ho : t.outcome = .ok ids) (h' : t.session.Adds key list t')
    (hsession : t''.session = t'.session) (hdeliveries : ∀ d ∈ t'.deliveries, d ∈ t''.deliveries)
    (houtcome : t''.outcome = t'.outcome.map (ids ++ ·)) : s.Adds key (one :: list) t'' := by
  have hindex := h'.index
  have hlisted := h'.listed
  have hfinished := h'.finished
  rw [h.index] at hindex hlisted hfinished
  obtain ⟨first, hfirst, htakenFirst, hidsFirst⟩ := h.added
  obtain ⟨added, hadded, htaken, hids⟩ := h'.added
  have hok : ∀ ids'', t''.outcome = .ok ids'' → ∃ ids', t'.outcome = .ok ids' ∧ ids'' = ids ++ ids' := by
    intro ids'' hids''
    rw [houtcome] at hids''
    obtain ⟨ids', hids', heq⟩ := except_map_eq_ok.mp hids''
    exact ⟨ids', hids', heq.symm⟩
  refine ⟨by rw [hsession, hindex], by rw [hsession, h'.idle], by rw [hsession]; exact hlisted,
    ⟨first ++ added, ?_, ?_, ?_⟩, ?_, ?_⟩
  · rw [hsession, hadded, hfirst]
    simp
  · intro x hx
    rcases List.mem_append.mp hx with hx | hx
    · obtain ⟨one', hone, hx⟩ := htakenFirst x hx
      exact ⟨one', List.mem_cons.mpr (Or.inl (List.mem_singleton.mp hone)), hx⟩
    · obtain ⟨one', hone, hx⟩ := htaken x hx
      exact ⟨one', List.mem_cons_of_mem _ hone, hx⟩
  · intro ids'' hids''
    obtain ⟨ids', hids', rfl⟩ := hok ids'' hids''
    rw [hidsFirst ids ho, hids ids' hids', List.map_append]
  · intro ids'' hids'' one' hone
    obtain ⟨ids', hids', _⟩ := hok ids'' hids''
    rw [hsession]
    rcases List.mem_cons.mp hone with rfl | hone
    · -- what was left before is left now, among more selections
      rw [hadded]
      exact (h.finished ids ho one' (by simp)).append added
    · exact hfinished ids' hids' one' hone
  · intro fault hfault
    rw [houtcome] at hfault
    rw [hsession]
    refine (h'.faulted fault (except_map_eq_error.mp hfault)).imp ?_ ?_
    · rintro ⟨d, hd, hfault⟩
      exact ⟨d, hdeliveries d hd, hfault⟩
    · rintro ⟨x, ⟨one', hone, hx⟩, hbar⟩
      exact ⟨x, ⟨one', List.mem_cons_of_mem _ hone, hx⟩, hbar⟩

/-- The ids of one item after another. -/
theorem mapM_selectForced_cons (run : κ → Action ν κ (Answer ν)) (key : SourceId)
    (one : Text × Text) (rest : List (Text × Text)) :
    (List.flatten <$> (one :: rest).mapM (selectForced run key))
      = selectForced run key one >>= fun ids =>
        (ids ++ ·) <$> (List.flatten <$> rest.mapM (selectForced run key)) := by
  simp [List.mapM_cons]

/-- **Taking items that are offered alone adds them**, by induction on the items: each is taken among
those that were added before. -/
theorem mapM_selectForced_adds (hrun : ∀ c, (run c).LeavesBuild) (hidle : s.announcing = false)
    (hlisted : s.state.Listed s.index) (halone : s.index.ForcesAlone key.name forced)
    (hlist : ∀ one ∈ list, one ∈ forced) :
    s.Adds key list ((List.flatten <$> list.mapM (selectForced run key)) s) := by
  induction list generalizing s with
  | nil =>
      refine .of_session_eq hidle hlisted rfl (fun ids hids => ?_) nofun
      exact ⟨(Except.ok.inj hids).symm, nofun⟩
  | cons one rest ih =>
      have hfirst := selectForced_adds hrun hidle hlisted halone (hlist one (by simp))
      rw [mapM_selectForced_cons]
      cases ho : (selectForced run key one s).outcome with
      | error fault =>
          rw [Action.bind_of_error ho, ← ho]
          exact hfirst.of_error ho (by simp)
      | ok ids =>
          rw [Action.bind_of_ok ho]
          have hindex := hfirst.index
          have hrest := ih hfirst.idle (by rw [hindex]; exact hfirst.listed)
            (by rw [hindex]; exact halone) fun one' hone => hlist one' (by simp [hone])
          rw [Action.map_apply]
          exact hfirst.cons ho hrest rfl (fun d hd => List.mem_append_right _ hd) rfl

/-- **Where no item is left that could be taken, nothing happens.** -/
theorem mapM_selectForced_of_leavesOut (hrun : ∀ c, (run c).LeavesBuild)
    (hidle : s.announcing = false) (hout : ∀ one ∈ list, s.state.LeavesOut s.index key one) :
    let t := (List.flatten <$> list.mapM (selectForced run key)) s
    t.session = s ∧ t.outcome = .ok [] := by
  induction list with
  | nil => exact ⟨rfl, rfl⟩
  | cons one rest ih =>
      obtain ⟨hs, ho⟩ : (selectForced run key one s).session = s ∧
          (selectForced run key one s).outcome = .ok [] := by
        have hturn : s.ForcedTurn key one (selectForced run key one s) :=
          selectForced_turn hrun hidle
        cases hturn with
        | left _ hs ho => exact ⟨hs, ho⟩
        | taken hforces _ _ | barred hforces _ _ _ =>
            exact absurd hforces (hout one (by simp)).not_forces
      have hrest := ih fun one' hone => hout one' (by simp [hone])
      rw [mapM_selectForced_cons, Action.bind_of_ok ho, Action.map_apply, hs]
      exact ⟨hrest.1, by dsimp only; rw [hrest.2]; rfl⟩

end Session

namespace Guided

variable {s : Session ν (Call ν)} {source : SourceMention} {key : SourceId}

/-- Taking all forced items is taking one after another. -/
theorem run_selectAllForced (hkey : (source.resolve s.index).outcome = .ok key) :
    let t := (List.flatten <$> (Session.forcedChoices s.index s.state key.name).mapM
      (Session.selectForced Call.runInside key)) s
    let u := (Call.selectAllForced source).run s
    u.session = t.session ∧ u.deliveries = t.deliveries ∧ u.outcome = t.outcome.map .names := by
  intro t u
  have hu : u = (Answer.names <$> (Action.lift (source.resolve s.index) >>=
      Session.selectAllForced Call.runInside)) s := rfl
  have ht : Session.selectAllForced Call.runInside key s = t := by
    unfold Session.selectAllForced
    rw [Action.session_bind, ← map_eq_pure_bind]
  rw [hu, Action.map_apply, Action.lift_bind_of_ok hkey, ht]
  exact ⟨rfl, rfl, rfl⟩

/-- Taking the forced items of a source takes what it can, one after another. -/
theorem forced_of_listed (hidle : s.announcing = false) (hlisted : s.state.Listed s.index)
    (hkey : (source.resolve s.index).outcome = .ok key) :
    s.state.Forced s.index key (Session.forcedChoices s.index s.state key.name)
      ((Call.selectAllForced source).run s).session.state := by
  have hreaches := (Call.selectAllForced source).reaches hidle
  generalize ((Call.selectAllForced source).run s).session.state = state at hreaches
  cases hreaches with
  | kept => exact ⟨rfl, fun x hx => Or.inl hx, fun x hx => Or.inl hx⟩
  | put hcommits _ => cases hcommits
  | forced hkey' htaken =>
      obtain rfl := Except.ok.inj (hkey'.symm.trans hkey)
      exact .of_takes hlisted htaken

/-- Where all forced items are offered alone, they are added. -/
theorem added_of_alone (hidle : s.announcing = false) (hlisted : s.state.Listed s.index)
    (hkey : (source.resolve s.index).outcome = .ok key)
    (halone : s.index.ForcesAlone key.name
      (Session.forcedChoices s.index s.state key.name)) :
    let t := (Call.selectAllForced source).run s
    ∃ added : List (Selection ν),
      t.session.state = { s.state with selections := s.state.selections ++ added } ∧
      (∀ answer, t.outcome = .ok answer → answer = .names (added.map Selection.id) ∧
        let again := (Call.selectAllForced source).run t.session
        again.session = t.session ∧ again.outcome = .ok (.names [])) ∧
      ∀ fault, t.outcome = .error fault → (∃ d ∈ t.deliveries, d.outcome = .error fault) ∨
        ∃ x : Selection ν,
          (∃ one ∈ Session.forcedChoices s.index s.state key.name, x.TakenFor key one) ∧
          t.session.Barred
            { t.session.state with selections := t.session.state.selections ++ [x] } fault := by
  intro t
  obtain ⟨hsession, hdeliveries, houtcome⟩ := run_selectAllForced hkey
  have hadds := Session.mapM_selectForced_adds Call.runInside_leavesBuild hidle hlisted halone
    fun _ hone => hone
  generalize (List.flatten <$> (Session.forcedChoices s.index s.state key.name).mapM
    (Session.selectForced Call.runInside key)) s = taken at *
  obtain ⟨added, hstate, _, hids⟩ := hadds.added
  have hnow : t.session.state = { s.state with selections := s.state.selections ++ added } := by
    rw [hsession]
    exact hstate
  refine ⟨added, hnow, fun answer hanswer => ?_, fun fault hfault => ?_⟩
  · rw [houtcome] at hanswer
    obtain ⟨ids, ho, rfl⟩ := except_map_eq_ok.mp hanswer
    refine ⟨by rw [hids ids ho], ?_⟩
    have hindex : t.session.index = s.index := by rw [hsession, hadds.index]
    have hagain : (source.resolve t.session.index).outcome = .ok key := by
      rw [hindex]
      exact hkey
    -- the levels are the same, and so are the forced items
    have hsame : Session.forcedChoices t.session.index t.session.state key.name
        = Session.forcedChoices s.index s.state key.name := by
      rw [hindex, hnow]
      rfl
    obtain ⟨hsession', _, houtcome'⟩ := run_selectAllForced hagain
    rw [hsame] at hsession' houtcome'
    have hout : ∀ one ∈ Session.forcedChoices s.index s.state key.name,
        t.session.state.LeavesOut t.session.index key one := by
      rw [hindex, hsession]
      exact hadds.finished ids ho
    obtain ⟨hstays, hnone⟩ := Session.mapM_selectForced_of_leavesOut Call.runInside_leavesBuild
      (by rw [hsession]; exact hadds.idle) hout
    rw [hstays] at hsession'
    rw [hnone] at houtcome'
    exact ⟨hsession', houtcome'⟩
  · rw [houtcome] at hfault
    rw [hsession, hdeliveries]
    exact hadds.faulted fault (except_map_eq_error.mp hfault)

/-- **What taking the forced items of a source does**, in whatever build some calls have brought a
session to. What is selected stays as it is, unless it has to make room for a forced item in an
exclusive group that offers both. Where no exclusive group offers a forced item together with
others, all that was selected stays, the items that are named in the answer are selected behind it,
and taking the forced items again does nothing. Only a listener or the check can stand in the
way. -/
theorem forced_added {catalog : Catalog ν} {config : Config} {st : Session ν (Call ν)}
    (hs : (newBuild catalog config).outcome = .ok st) (calls : List (Call ν))
    (hkey : (source.resolve st.index).outcome = .ok key) :
    let s := after st calls
    let forced := Session.forcedChoices st.index s.state key.name
    let t := (Call.selectAllForced source).run s
    s.state.Forced st.index key forced t.session.state ∧
    (st.index.ForcesAlone key.name forced →
      ∃ added : List (Selection ν),
        t.session.state = { s.state with selections := s.state.selections ++ added } ∧
        (∀ answer, t.outcome = .ok answer → answer = .names (added.map Selection.id) ∧
          let again := (Call.selectAllForced source).run t.session
          again.session = t.session ∧ again.outcome = .ok (.names [])) ∧
        ∀ fault, t.outcome = .error fault → (∃ d ∈ t.deliveries, d.outcome = .error fault) ∨
          ∃ x : Selection ν, (∃ one ∈ forced, x.TakenFor key one) ∧ t.session.Barred
            { t.session.state with selections := t.session.state.selections ++ [x] } fault) := by
  intro s
  have hmeets := idle_after hs calls
  have hindex : st.index = s.index := hmeets.index.symm
  have hlisted := listed_after hs calls
  rw [hindex] at hkey hlisted ⊢
  exact ⟨forced_of_listed hmeets.idle hlisted hkey, added_of_alone hmeets.idle hlisted hkey⟩

/-- A source with some choices, and the items `x` and `y`. -/
def forcedCatalog (choices : List Choice) : Catalog Double :=
  ((Catalog.addSource {} { plainSource "A" 1 with tiers := [⟨1, choices.map .choice⟩] }).addItem
    (plainItem "x")).addItem (plainItem "y")

/-- A new build on it. -/
def forcedStart (choices : List Choice) : Session Double (Call Double) where
  index := { catalog := forcedCatalog choices }
  config := { checksState := false }
  state := { targetLevel := .whole 1 }

/-- A choice of one item under an id. -/
def oneOf (id : Text) (items : List Text) : Choice := ⟨id, id, items, some 1, "ability"⟩

/-- The one item of a choice is taken and then stays. Under an id that is used before, it makes
another item leave. -/
theorem forced_added_reusedId :
    let alone := forcedStart [oneOf "g" ["x"]]
    let once := (Call.selectAllForced (.named "A")).run alone
    let reused := forcedStart [oneOf "g" ["x", "y"], oneOf "g" ["x"]]
    let held := after reused [.select (.named "y") (.named "A") (.text "g") .null]
    (once.session.state.selections.map Selection.id = ["x"] ∧
      ((Call.selectAllForced (.named "A")).run once.session).outcome = .ok (.names [])) ∧
    ∃ y ∈ held.state.selections, y.id = "y" ∧
      ∃ one, y.OustedBy reused.index ⟨"A", .primary⟩ one := by
  intro alone once reused held
  have hs : ∀ choices, (newBuild (forcedCatalog choices) { checksState := false }).outcome
      = .ok (forcedStart choices) := fun _ => rfl
  constructor
  · have hkey : ((SourceMention.named "A").resolve alone.index).outcome
        = .ok ⟨"A", .primary⟩ := rfl
    obtain ⟨_, hadds⟩ := forced_added (hs [oneOf "g" ["x"]]) [] hkey
    have hids : (alone.index.entry? "A").all (fun entry =>
        decide (entry.source.allGroups.map Group.id).Nodup) = true := by decide +kernel
    have hunique : ∀ entry, alone.index.entry? "A" = some entry →
        (entry.source.allGroups.map Group.id).Nodup := by
      intro entry hentry
      rw [hentry] at hids
      exact of_decide_eq_true hids
    have halone := Index.forcesAlone_of_nodup hunique alone.state
    obtain ⟨added, hstate, hanswer, _⟩ := hadds halone
    obtain ⟨answer, ho⟩ := except_eq_ok_of_toBool (x := once.outcome) (by decide +kernel)
    exact ⟨by decide +kernel, (hanswer answer ho).2.2⟩
  · have hkey : ((SourceMention.named "A").resolve reused.index).outcome
        = .ok ⟨"A", .primary⟩ := rfl
    obtain ⟨hforced, _⟩ := forced_added (hs [oneOf "g" ["x", "y"], oneOf "g" ["x"]])
      [.select (.named "y") (.named "A") (.text "g") .null] hkey
    obtain ⟨y, hy, hid⟩ : ∃ y ∈ held.state.selections, y.id = "y" := by
      simpa using (by decide +kernel : (held.state.selections.any fun y => y.id = "y") = true)
    have hgone : (((Call.selectAllForced (.named "A")).run held).session.state.selections.all
        fun y => y.id ≠ "y") = true := by decide +kernel
    refine ⟨y, hy, hid, ?_⟩
    rcases hforced.kept y hy with hstays | ⟨one, _, housted⟩
    · simpa [hid] using List.all_eq_true.mp hgone y hstays
    · exact ⟨one, housted⟩

end Guided

end CharacterBuild
