import CharacterBuild.Proofs.Pools
import CharacterBuild.Proofs.Replaying

set_option autoImplicit false

/-! # Moves of a build

`Build.Edit` says what a request does to the choices of a build and leaves the other fields open. For
an invariant that is about these fields as well, or about the group that a selection was put into
without naming one, that is too little. `Build.Move` says more, of calls that select items by their
ids from sources by their names: a request changes the selections and nothing else, each of them in
the place that its item is looked up for; or it sets one field; or it restores a build.

What every move keeps that passes the check is kept by every such call, whatever listeners do
(`Guided.moves_after`).
-/

namespace CharacterBuild

variable {ν : Type} [Number ν]

/-! ## Moves -/

/-- Items of the catalog, from sources under the keys that their names stand for. -/
def Scope.byName (index : Index ν) : Scope ν where
  puts := fun item x => index.item? item.id = some item ∧ x.source = index.keyOf x.source.name
  aims := fun _ => True

/-- Selecting the item of a selection in its group leads to that group and keeps its id. In no group
is thus only what no group of its source lists. -/
def Selection.InPlace (index : Index ν) (x : Selection ν) : Prop :=
  ∃ item g, index.item? x.id = some item ∧
    (Plan.groupFor index item x.source x.group).outcome = .ok (g, x.group)

/-- **What a call by names does to a build.** -/
inductive Build.Move (index : Index ν) (config : Config) (s : Build ν) : Build ν → Prop where
  /-- The selections change and nothing else. -/
  | choose {s' : Build ν} (hedit : s.Edit index config (Scope.byName index) s')
      (honly : s' = { s with selections := s'.selections })
      (hplaces : ∀ x ∈ s'.selections, (∃ y ∈ s.selections, y.SamePlace x) ∨ x.InPlace index) :
      Move index config s s'
  /-- A field is set. -/
  | set {name : Text} {value : Value ν} {s' : Build ν}
      (h : Plan.Sets index config s name value s') : Move index config s s'
  /-- A build is restored. -/
  | restore {restored : Selection ν → Prop} {level : Level ν} {s' : Build ν}
      (h : s.Restoration config restored level s') : Move index config s s'

variable {index : Index ν} {config : Config} {s s' : Build ν}

omit [Number ν] in
theorem Selection.InPlace.of_samePlace {x y : Selection ν} (h : x.InPlace index)
    (hplace : x.SamePlace y) : y.InPlace index := by
  obtain ⟨item, g, hitem, hfor⟩ := h
  refine ⟨item, g, by rw [hplace.id]; exact hitem, ?_⟩
  rw [hplace.source, hplace.group]
  exact hfor

/-- An edit that selects nothing new leaves the selections in their places. -/
theorem Build.Edit.places (h : s.Edit index config {} s') :
    ∀ x ∈ s'.selections, ∃ y ∈ s.selections, y.SamePlace x := by
  cases h with
  | drop hx hopen => exact fun y hy => ⟨y, (List.mem_filter.mp hy).1, .refl y⟩
  | put hnew hid hopen hheld hgroup hroom hputs => exact hputs.elim
  | @revise before after x y hs hopen hplace hheld hcount =>
      intro z hz
      rcases eq_or_mem_of_changed hs hz with rfl | hz
      · exact ⟨x, by rw [hs]; simp, hplace⟩
      · exact ⟨z, hz, .refl z⟩
  | aim haims hleast hmost hsettled => exact haims.elim
  | fill hsame => exact fun y hy => ⟨y, hsame.sublist.subset hy, .refl y⟩

theorem Build.Move.of_edit (h : s.Edit index config {} s')
    (honly : s' = { s with selections := s'.selections }) : s.Move index config s' :=
  .choose (h.mono ⟨fun _ _ h => h.elim, fun _ h => h.elim⟩) honly fun x hx => Or.inl (h.places x hx)

/-- Setting a field is an edit. -/
theorem Plan.Sets.edit {name : Text} {value : Value ν} (h : Sets index config s name value s') :
    s.Edit index config (Scope.byName index) s' := by
  cases h with
  | level _ _ hleast hmost hsettled => exact .aim trivial hleast hmost hsettled
  | attributes => exact .fill ⟨rfl, rfl, rfl, rfl⟩
  | inventory => exact .fill ⟨rfl, rfl, rfl, rfl⟩
  | info => exact .fill ⟨rfl, rfl, rfl, rfl⟩
  | other => exact .fill ⟨rfl, rfl, rfl, rfl⟩

/-- A move is an edit, unless a build is restored by it. -/
theorem Build.Move.edit_or (h : s.Move index config s') :
    s.Edit index config (Scope.byName index) s' ∨ s'.mode = .continuation := by
  cases h with
  | choose hedit => exact Or.inl hedit
  | set h => exact Or.inl h.edit
  | restore h => exact Or.inr h.mode

/-- No move leads back from a build that was restored to one that was created. -/
theorem Build.Move.created (h : s.Move index config s') (hmode : s'.mode = .creation) :
    s.mode = .creation := by
  cases h with
  | choose hedit honly =>
      rw [honly] at hmode
      exact hmode
  | set h => cases h <;> exact hmode
  | restore h =>
      rw [h.mode] at hmode
      cases hmode

/-! ## Plans -/

namespace Plan

variable {state : Build ν} {p : Plan ν}

theorem Makes.and {R R' : Build ν → Prop} (h : p.Makes R) (h' : p.Makes R') :
    p.Makes fun s => R s ∧ R' s := by
  cases p with
  | keep reason => trivial
  | commit change reason => exact ⟨h, h'⟩

/-- A plan that changes the selections and nothing else. -/
def OnlySelections (state : Build ν) (p : Plan ν) : Prop :=
  p.Makes fun s => s = { state with selections := s.selections }

theorem Makes.move (h : p.Makes (state.Edit index config {})) (honly : p.OnlySelections state) :
    p.Makes (state.Move index config) :=
  (h.and honly).mono fun _ h => .of_edit h.1 h.2

/-- A plan whose changes select changes nothing else. -/
theorem onlySelections_of_commits (h : ∀ change reason, p = .commit change reason →
    ∃ xs, change.Selects state xs) : p.OnlySelections state := by
  refine .of_commits fun change reason hp => ?_
  obtain ⟨xs, hselects⟩ := h change reason hp
  rw [hselects.state]

theorem deselect_moves {item : Text} {source : SourceId} :
    (deselect state item source).Makes (state.Move index config) := by
  refine deselect_makes.move (onlySelections_of_commits fun change reason h => ?_)
  obtain ⟨x, _, hremove⟩ := deselect_commits h
  exact ⟨_, (remove_commits hremove).2⟩

theorem replaceOptions_moves {item : Text} {source : SourceId} {asked : Value ν}
    (h : (replaceOptions index state item source asked).outcome = .ok p) :
    p.Makes (state.Move index config) := by
  refine (replaceOptions_makes h).move (onlySelections_of_commits fun change reason hp => ?_)
  rw [hp] at h
  obtain ⟨x, options, _, _, _, hsets⟩ := replaceOptions_commits h
  exact ⟨_, hsets⟩

theorem takeOption_moves {item : Text} {source : SourceId} {option : Text} :
    (takeOption index state item source option).Makes (state.Move index config) := by
  refine takeOption_makes.move (onlySelections_of_commits fun change reason h => ?_)
  obtain ⟨x, i, options, _, _, _, hsets⟩ := takeOption_commits h
  exact ⟨_, hsets⟩

theorem dropOption_moves {item : Text} {source : SourceId} {option : Text} :
    (dropOption state item source option).Makes (state.Move index config) := by
  refine dropOption_makes.move (onlySelections_of_commits fun change reason h => ?_)
  obtain ⟨x, _, _, hsets⟩ := dropOption_commits h
  exact ⟨_, hsets⟩

theorem update_moves {item : Text} {source : SourceId} {changes : Value ν}
    (h : update index state item source changes = .ok p) :
    p.Makes (state.Move index config) := by
  refine (update_makes h).move (onlySelections_of_commits fun change reason hp => ?_)
  rw [hp] at h
  obtain ⟨x, _, hremove | ⟨y, _, hselects⟩⟩ := update_commits h
  · exact ⟨_, (remove_commits hremove).2⟩
  · exact ⟨_, hselects⟩

omit [Number ν] in
/-- The group whose id is kept is found again by that id. -/
theorem groupFor_kept {item : Item ν} {source : SourceId} {group kept : Value ν}
    {g : Option (Group ν)} (h : (groupFor index item source group).outcome = .ok (g, kept)) :
    (groupFor index item source kept).outcome = .ok (g, kept) := by
  by_cases hnull : group.isNull = true
  · have hfor := h
    unfold groupFor at hfor
    rw [if_pos hnull] at hfor
    cases hlisted : index.groupListing? source.name item.id with
    | none =>
        rw [hlisted] at hfor
        obtain ⟨_, rfl⟩ := Prod.mk.inj (Except.ok.inj hfor)
        rw [Value.isNull_iff.mp hnull] at h
        exact h
    | some found =>
        rw [hlisted] at hfor
        obtain ⟨rfl, rfl⟩ := Prod.mk.inj (Except.ok.inj hfor)
        -- the first group that lists the item is the one of its id
        have hnamed : index.groupNamed source.name (.text found.id) = .ok (some found) := by
          rw [index.groupNamed_text, index.groupOf?_of_groupListing? hlisted]
        have hresolved : (Rules.resolveGroup index item source (.text found.id)).outcome
            = .ok (some found) := Rules.resolveGroup_of_named hnamed
        exact Traced.outcome_bind_eq_ok.mpr ⟨_, hresolved, rfl⟩
  · have hfor := h
    unfold groupFor at hfor
    rw [if_neg hnull] at hfor
    obtain ⟨_, _, hfor⟩ := Traced.outcome_bind_eq_ok.mp hfor
    obtain ⟨_, rfl⟩ := Prod.mk.inj (Except.ok.inj hfor)
    exact h

/-- **Selecting an item of the catalog moves the build**: a new selection is in its place. -/
theorem select_moves {item : Item ν} {name : Text} {group payload : Value ν}
    (hitem : index.item? item.id = some item)
    (h : (select index state item (index.keyOf name) group payload).outcome = .ok p) :
    p.Makes (state.Move index config) := by
  refine .of_commits fun change reason hp => ?_
  rw [hp] at h
  rcases select_commits h with ⟨x, hx, _, hremove⟩ | ⟨others, x, hputs, hselects⟩
  · refine .of_edit (edit_of_remove (Build.mem_of_selection? hx) hremove) ?_
    rw [(remove_commits hremove).2.state]
  · rw [hselects.state]
    refine .choose (hputs.edit.mono ⟨?_, fun _ h => h.elim⟩) rfl fun y hy => ?_
    · rintro _ y ⟨rfl, hsource, _⟩
      exact ⟨hitem, by rw [hsource, index.keyOf_name]⟩
    · obtain ⟨⟨hid, hsource, _⟩, _, _, _, _, hroom⟩ := hputs.fresh
      rcases hroom.mem_or_eq hy with hy | rfl
      · exact Or.inl ⟨y, hy, .refl y⟩
      · obtain ⟨g, hfor, _⟩ := hputs.room
        refine Or.inr ⟨item, g, by rw [hid]; exact hitem, ?_⟩
        rw [hsource]
        exact groupFor_kept hfor

theorem setField_moves {name : Text} {value : Value ν}
    (h : (setField index config state name value).outcome = .ok p) :
    p.Makes (state.Move index config) :=
  (setField_sets h).mono fun _ h => .set h

end Plan

/-! ## Calls -/

namespace Guided

/-- A call that names what it selects: an item by its id, a source by its name. -/
def Call.ByName : Call ν → Prop
  | .select item source _ _ => (∃ id, item = .named id) ∧ ∃ name, source = .named name
  | .selectAllForced source => ∃ name, source = .named name
  | _ => True

/-- Sessions in whose states a property holds, whatever listeners do. -/
def statesWith (index : Index ν) (config : Config) (P : Build ν → Prop) : Contract ν where
  index := index
  config := config
  holds := fun s _ => P s

/-- A property that every move keeps whose state passes the check. -/
def KeptByMoves (index : Index ν) (config : Config) (P : Build ν → Prop) : Prop :=
  ∀ s s', P s → s.Move index config s' →
    (config.checksState = true → s'.violations index = .ok []) → P s'

end Guided

namespace Contract.KeepsAt

variable {κ α β : Type} {C : Contract ν} {s : Session ν κ}

theorem map {x : Action ν κ α} (f : α → β) (h : C.KeepsAt s x) : C.KeepsAt s (f <$> x) := by
  rw [map_eq_pure_bind]
  exact .bind h fun a _ hs' => .pure hs' (f a)

theorem mapM {f : α → Action ν κ β} {l : List α} (hs : C.Meets s)
    (hf : ∀ a ∈ l, ∀ s' : Session ν κ, C.Meets s' → C.KeepsAt s' (f a)) :
    C.KeepsAt s (l.mapM f) := by
  induction l generalizing s with
  | nil => exact .pure hs _
  | cons a rest ih =>
      rw [List.mapM_cons]
      refine .bind (hf a (by simp) s hs) fun b _ hs' => ?_
      exact .bind (ih hs' fun c hc => hf c (by simp [hc])) fun _ _ hs'' => .pure hs'' _

end Contract.KeepsAt

namespace Guided

variable {P : Build ν → Prop} {s : Session ν (Call ν)} {α β : Type}

/-- A request keeps a property if its plan moves the build. -/
theorem keepsAt_request (hP : KeptByMoves index config P)
    {plan : Session ν (Call ν) → Build ν → Traced ν (Plan ν)}
    (hs : (statesWith index config P).Meets s)
    (hmoves : ∀ p, (plan s s.state).outcome = .ok p → p.Makes (s.state.Move index config)) :
    (statesWith index config P).KeepsAt s (Session.request Call.runInside plan) := by
  refine fun _ => ⟨?_, fun _ _ => trivial⟩
  have hreplaced : ∀ {state changed s'}, s.Replaced state changed s' →
      s.state.Move index config state → s.Passes state →
      (statesWith index config P).Meets s' := by
    intro state changed s' hr hmove hpass
    refine ⟨hr.index.trans hs.index, hr.config.trans hs.config, hr.idle, ?_⟩
    show P s'.state
    rw [hr.state]
    refine hP _ _ hs.holds hmove fun hchecks => ?_
    have hindex : s.index = index := hs.index
    rw [← hindex]
    exact hpass (by rw [hs.config]; exact hchecks)
  rcases Session.request_carried Call.runInside_leavesBuild plan hs.idle with
    ⟨_, _, hsame, _, _⟩ | ⟨p, hp, hc⟩
  · rw [hsame]
    exact hs
  · have hmakes := hmoves p hp
    cases hc with
    | kept hsame _ _ => rw [hsame]; exact hs
    | barred hsame _ _ _ => rw [hsame]; exact hs
    | made hpass hr _ => exact hreplaced hr hmakes hpass
    | broken hpass hr _ _ => exact hreplaced hr hmakes hpass

theorem keepsAt_ask_bind {question : Session ν (Call ν) → Traced ν α}
    {f : α → Action ν (Call ν) β} (hs : (statesWith index config P).Meets s)
    (hf : ∀ a, (question s).outcome = .ok a → (statesWith index config P).KeepsAt s (f a)) :
    (statesWith index config P).KeepsAt s (ask question >>= f) := by
  unfold ask
  rw [bind_assoc]
  exact .read (.bind (.lift hs fun _ _ => trivial) fun a ha _ => hf a ha)

theorem keepsAt_ask {question : Session ν (Call ν) → Traced ν α}
    (hs : (statesWith index config P).Meets s) :
    (statesWith index config P).KeepsAt s (ask question) :=
  .read (.lift hs fun _ _ => trivial)

theorem keepsAt_select (hP : KeptByMoves index config P)
    (hs : (statesWith index config P).Meets s) {item : Item ν} {name : Text}
    {group payload : Value ν} (hitem : index.item? item.id = some item) :
    (statesWith index config P).KeepsAt s
      (Session.select Call.runInside item (index.keyOf name) group payload) := by
  refine keepsAt_request hP hs fun p hp => ?_
  rw [hs.index] at hp
  exact Plan.select_moves hitem hp

theorem keepsAt_setField (hP : KeptByMoves index config P)
    (hs : (statesWith index config P).Meets s) (name : Text) (value : Value ν) :
    (statesWith index config P).KeepsAt s (Session.setField Call.runInside name value) := by
  refine .bind (.lift hs fun _ _ => trivial) fun _ _ hs' => ?_
  refine keepsAt_request hP hs' fun p hp => ?_
  rw [hs'.index, hs'.config] at hp
  exact Plan.setField_moves hp

theorem keepsAt_guidedSelect (hP : KeptByMoves index config P)
    (hs : (statesWith index config P).Meets s) (id name : Text) (group payload : Value ν) :
    (statesWith index config P).KeepsAt s
      (Guided.select Call.runInside (.named id) (.named name) group payload) := by
  refine keepsAt_ask_bind hs fun found hfound => ?_
  cases found with
  | error reason => exact .pure hs _
  | ok item =>
      rw [hs.index] at hfound
      have hitem := index.item?_id (index.item?_of_resolve_named hfound)
      refine keepsAt_ask_bind hs fun key hkey => keepsAt_ask_bind hs fun verdict _ => ?_
      rw [hs.index, Index.resolve_named] at hkey
      obtain rfl := Except.ok.inj hkey
      cases verdict with
      | disabled reason => exact .bind (.lift hs fun _ _ => trivial) fun _ _ hs' => .pure hs' _
      | enabled => exact keepsAt_select hP hs hitem

theorem keepsAt_guidedUpdate (hP : KeptByMoves index config P)
    (hs : (statesWith index config P).Meets s) (item : Text) (source : SourceMention)
    (changes : Value ν) :
    (statesWith index config P).KeepsAt s (Guided.update Call.runInside item source changes) := by
  refine .bind (.lift hs fun _ _ => trivial) fun _ _ hs => keepsAt_ask_bind hs fun key _ => ?_
  refine keepsAt_ask_bind hs fun verdict _ => ?_
  cases verdict with
  | disabled reason => exact .pure hs _
  | enabled =>
      refine .bind (.lift hs fun _ _ => trivial) fun _ _ hs => keepsAt_request hP hs fun p hp => ?_
      rw [hs.index] at hp
      exact Plan.update_moves hp

theorem keepsAt_selectAllForced (hP : KeptByMoves index config P)
    (hs : (statesWith index config P).Meets s) (name : Text) :
    (statesWith index config P).KeepsAt s
      (withKey (.named name) (Session.selectAllForced Call.runInside)) := by
  refine keepsAt_ask_bind hs fun key hkey => .read ?_
  rw [hs.index, Index.resolve_named] at hkey
  obtain rfl := Except.ok.inj hkey
  refine .bind (.mapM hs fun forced _ s' hs' => .read ?_) fun _ _ hs' => .pure hs' _
  split
  · exact .bind (.lift hs' fun _ _ => trivial) fun _ _ hs'' => .pure hs'' _
  · rename_i item hitem
    split
    · exact .pure hs' _
    · rw [hs'.index] at hitem
      exact .bind (keepsAt_select hP hs' (index.item?_id hitem)) fun _ _ hs'' => .pure hs'' _

theorem keepsAt_guidedRestore (hP : KeptByMoves index config P)
    (hs : (statesWith index config P).Meets s) (selections : List (SavedSelection ν))
    (rest : Restored ν) :
    (statesWith index config P).KeepsAt s (Guided.restore Call.runInside selections rest) := by
  refine keepsAt_ask_bind hs fun saved _ => .read ?_
  split
  · exact .fail hs trivial
  · refine .bind (.lift hs fun _ _ => trivial) fun level hlevel hs => ?_
    refine .bind (keepsAt_request hP hs fun p hp => ?_) fun _ _ hs' => .pure hs' _
    obtain ⟨change, reason, rfl, hmakes⟩ := Plan.restore_makes hlevel hp
    have hconfig : s.config = config := hs.config
    rw [hconfig] at hmakes
    exact .restore hmakes

/-- **A call by names keeps what every move keeps**, whatever listeners do. -/
theorem Call.run_keptByMoves (hP : KeptByMoves index config P)
    (hs : (statesWith index config P).Meets s) {c : Call ν} (hc : c.ByName) :
    (statesWith index config P).KeepsAt s c.run := by
  cases c with
  | select item source group payload =>
      obtain ⟨⟨id, rfl⟩, name, rfl⟩ := hc
      exact .map _ (keepsAt_guidedSelect hP hs id name group payload)
  | deselect item source =>
      refine .map _ (keepsAt_ask_bind hs fun key _ => keepsAt_request hP hs fun p hp => ?_)
      exact Except.ok.inj hp ▸ Plan.deselect_moves
  | update item source changes => exact .map _ (keepsAt_guidedUpdate hP hs item source changes)
  | replaceOptions item source options =>
      refine .map _ (keepsAt_ask_bind hs fun key _ => keepsAt_request hP hs fun p hp => ?_)
      rw [hs.index] at hp
      exact Plan.replaceOptions_moves hp
  | takeOption item source option =>
      refine .map _ (keepsAt_ask_bind hs fun key _ => keepsAt_request hP hs fun p hp => ?_)
      rw [hs.index] at hp
      exact Except.ok.inj hp ▸ Plan.takeOption_moves
  | dropOption item source option =>
      refine .map _ (keepsAt_ask_bind hs fun key _ => keepsAt_request hP hs fun p hp => ?_)
      exact Except.ok.inj hp ▸ Plan.dropOption_moves
  | setField name value => exact .map _ (keepsAt_setField hP hs name value)
  | setLevel level => exact .map _ (keepsAt_setField hP hs _ level)
  | selectAllForced source =>
      obtain ⟨name, rfl⟩ := hc
      exact .map _ (keepsAt_selectAllForced hP hs name)
  | restore selections rest => exact .map _ (keepsAt_guidedRestore hP hs selections rest)
  | judge item source group => exact .map _ (keepsAt_ask hs)
  | judgeQuantity item source group => exact .map _ (keepsAt_ask hs)
  | judgeOption item source option => exact .map _ (keepsAt_ask hs)
  | balance unlock => exact .map _ (keepsAt_ask hs)
  | balanceOf unlock => exact .map _ (keepsAt_ask hs)
  | openPages => exact .map _ (keepsAt_ask hs)
  | isDone page => exact .map _ (keepsAt_ask hs)
  | pageText page => exact .map _ (keepsAt_ask hs)
  | allIssues => exact .map _ (keepsAt_ask hs)
  | report => exact .map _ (keepsAt_ask hs)
  | assemble => exact .map _ (keepsAt_ask hs)
  | finalize => exact .map _ (keepsAt_ask hs)
  | config => exact .map _ (keepsAt_ask hs)
  | sourceId source => exact .map _ (keepsAt_ask hs)
  | contents => exact .map _ fun _ => ⟨hs, fun _ _ => trivial⟩
  | selected => exact .map _ (.read (.pure hs _))
  | subscribe listener steps => exact .map _ (.register hs ⟨rfl, rfl, rfl, rfl, rfl⟩)
  | unsubscribe listener => exact .map _ (.register hs ⟨rfl, rfl, rfl, rfl, rfl⟩)
  | faulty fault => exact .fail hs trivial

/-- **Calls by names keep what every move keeps**, one after another. -/
theorem moves_after (hP : KeptByMoves index config P)
    (hs : (statesWith index config P).Meets s) {calls : List (Call ν)}
    (hcalls : ∀ c ∈ calls, c.ByName) : (statesWith index config P).Meets (after s calls) := by
  induction calls generalizing s with
  | nil => exact hs
  | cons c rest ih =>
      refine ih ?_ fun c' hc' => hcalls c' (by simp [hc'])
      exact (Call.run_keptByMoves hP hs (hcalls c (by simp)) fun _ _ => trivial).1

end Guided

end CharacterBuild
