import CharacterBuild.Proofs.Unchecked

set_option autoImplicit false

/-! # The rules and the requests compared

Whether an item may be selected is looked into twice: the rules judge it, and the request that
selects it goes through the same conditions on its own. Cost aside, the two agree but for one
condition, which the rules do not know: a settled member of an exclusive group does not make room
(`Plan.roomFor_cases`). So a request turns an item down exactly if one of the rules does or such a
member is there, and an item that the rules enable is selected exactly if there is none
(`Guided.select_agrees`).
-/

namespace CharacterBuild

variable {ν : Type} [Number ν]

/-- Whether one of the rules but that of the cost turns an item down. -/
def Rules.turnsDown (index : Index ν) (state : Build ν) (item : Item ν) (source : SourceId)
    (g : Option (Group ν)) : Bool :=
  [ownerVerdict index state item source, memberVerdict g item, roomVerdict state g item source,
    levelVerdict state g item source].any fun verdict => !verdict.isEnabled

/-- Whether an exclusive group has a settled member. -/
def Build.holdsSettledMember (s : Build ν) (source : SourceId) : Option (Group ν) → Bool
  | some g => g.isExclusive && (s.membersOf source g.id).any (·.locked)
  | none => false

variable {index : Index ν} {state : Build ν} {item : Item ν} {source : SourceId}
  {group : Value ν} {g : Option (Group ν)}

/-- An item that is not selected at all is not selected from any one source. -/
theorem Build.selection?_of_none {id : Text} (h : state.selection? id none = none)
    (source : SourceId) : state.selection? id (some source) = none := by
  refine List.find?_eq_none.mpr fun y hy => ?_
  simp [Selection.isOf, selection?_none h y hy]

/-! ## What the rules say -/

namespace Rules

omit [Number ν] in
@[simp] theorem memberVerdict_isEnabled (g : Group ν) :
    (memberVerdict (some g) item).isEnabled = g.items.contains item.id := by
  unfold memberVerdict
  by_cases h : item.id ∈ g.items <;> simp [h, Verdict.isEnabled]

theorem roomVerdict_isEnabled (hnew : state.selection? item.id none = none) (g : Group ν) :
    (roomVerdict state (some g) item source).isEnabled = !(g.limit.any fun limit =>
      !g.isExclusive && decide (limit ≤ (state.membersOf source g.id).length)) := by
  unfold roomVerdict
  rw [Build.selection?_of_none hnew]
  cases hl : g.limit with
  | none => simp [hl, Verdict.isEnabled]
  | some limit =>
      by_cases hfull : limit ≤ (state.membersOf source g.id).length
      · cases h : g.isExclusive <;> simp [h, hl, hfull, Verdict.isEnabled]
      · cases h : g.isExclusive <;> simp [h, hl, hfull, Verdict.isEnabled]

theorem levelVerdict_isEnabled (hnew : state.selection? item.id none = none) (g : Group ν) :
    (levelVerdict state (some g) item source).isEnabled
      = !(decide (state.targetLevel < (g.level : Level ν)) || state.isSettled g.level) := by
  unfold levelVerdict
  rw [Build.selection?_of_none hnew]
  by_cases hlow : state.targetLevel < (g.level : Level ν)
  · simp [hlow, Verdict.isEnabled]
  · cases hsettled : state.isSettled g.level <;> simp [hlow, hsettled, Verdict.isEnabled]

/-- What turns down an item that is not selected yet. -/
theorem turnsDown_some (hnew : state.selection? item.id none = none) (g : Group ν) :
    turnsDown index state item source (some g) = (!g.items.contains item.id ||
      (g.limit.any fun limit =>
        !g.isExclusive && decide (limit ≤ (state.membersOf source g.id).length)) ||
      (decide (state.targetLevel < (g.level : Level ν)) || state.isSettled g.level)) := by
  have howner : (ownerVerdict index state item source).isEnabled = true := by
    unfold ownerVerdict
    rw [hnew]
    rfl
  simp only [turnsDown, List.any_cons, List.any_nil, howner, memberVerdict_isEnabled,
    roomVerdict_isEnabled hnew, levelVerdict_isEnabled hnew, Bool.not_true, Bool.not_not,
    Bool.false_or, Bool.or_false, Bool.or_assoc]

/-- Without a group nothing turns down an item that is not selected yet. -/
theorem turnsDown_none (hnew : state.selection? item.id none = none) :
    turnsDown index state item source none = false := by
  simp [turnsDown, ownerVerdict, hnew, memberVerdict, roomVerdict, levelVerdict,
    Verdict.isEnabled]

omit [Number ν] in
/-- The rules look into a group that is null or a text without a fault. -/
theorem resolveGroup_eq_ok (hgroup : group = .null ∨ ∃ id, group = .text id) :
    ∃ g, (resolveGroup index item source group).outcome = .ok g := by
  rcases hgroup with rfl | ⟨id, rfl⟩
  · exact ⟨_, rfl⟩
  · exact ⟨_, index.group_outcome (index.groupNamed_text source.name id)⟩

/-- An item that is enabled is turned down by none of the rules, that of the cost included. -/
theorem of_judge_enabled (hnew : state.selection? item.id none = none)
    (hg : (resolveGroup index item source group).outcome = .ok g)
    (h : (judge index state item source group).outcome = .ok .enabled) :
    turnsDown index state item source g = false ∧
      (costVerdict index state g item).outcome = .ok .enabled := by
  have howner : ownerVerdict index state item source = .enabled := by
    unfold ownerVerdict
    rw [hnew]
  unfold judge at h
  rw [howner] at h
  obtain ⟨g', hg', h⟩ := Traced.outcome_bind_eq_ok.mp h
  rw [hg] at hg'
  obtain rfl := Except.ok.inj hg'
  cases hmember : memberVerdict g item with
  | disabled reason =>
      rw [hmember] at h
      cases h
  | enabled =>
      cases hroom : roomVerdict state g item source with
      | disabled reason =>
          rw [hmember, hroom] at h
          cases h
      | enabled =>
          rw [hmember, hroom] at h
          obtain ⟨cost, hcost, h⟩ := Traced.outcome_bind_eq_ok.mp h
          cases cost with
          | disabled reason => cases h
          | enabled =>
              have hlevel : levelVerdict state g item source = .enabled := Except.ok.inj h
              refine ⟨?_, hcost⟩
              simp [turnsDown, howner, hmember, hroom, hlevel, Verdict.isEnabled]

omit [Number ν] in
theorem eq_enabled_of_any {x : Except (Fault ν) (Verdict ν)}
    (h : x.toOption.any Verdict.isEnabled = true) : x = .ok .enabled := by
  cases x with
  | error fault => cases h
  | ok verdict =>
      cases verdict with
      | enabled => rfl
      | disabled reason => cases h

end Rules

/-! ## What the request does -/

namespace Plan

omit [Number ν] in
/-- The group that the rules look at is the one that an item is selected in. -/
theorem groupFor_of_resolveGroup
    (h : (Rules.resolveGroup index item source group).outcome = .ok g) :
    ∃ kept, (groupFor index item source group).outcome = .ok (g, kept) := by
  unfold Rules.resolveGroup at h
  unfold groupFor
  split at h
  · rename_i hnull
    rw [if_pos hnull]
    obtain rfl := Except.ok.inj h
    cases index.groupListing? source.name item.id with
    | none => exact ⟨_, rfl⟩
    | some found => exact ⟨_, rfl⟩
  · rename_i hnull
    rw [if_neg hnull]
    exact ⟨group, Traced.outcome_bind_eq_ok.mpr ⟨g, h, rfl⟩⟩

omit [Number ν] in
/-- The group that an item is selected in is the one that the rules look at. -/
theorem resolveGroup_of_groupFor {kept : Value ν}
    (h : (groupFor index item source group).outcome = .ok (g, kept)) :
    (Rules.resolveGroup index item source group).outcome = .ok g := by
  unfold groupFor at h
  unfold Rules.resolveGroup
  split at h
  · rename_i hnull
    rw [if_pos hnull]
    cases hlisted : index.groupListing? source.name item.id with
    | none =>
        rw [hlisted] at h
        obtain ⟨rfl, _⟩ := Prod.mk.inj (Except.ok.inj h)
        rfl
    | some found =>
        rw [hlisted] at h
        obtain ⟨rfl, _⟩ := Prod.mk.inj (Except.ok.inj h)
        rfl
  · rename_i hnull
    rw [if_neg hnull]
    obtain ⟨found, hfound, h⟩ := Traced.outcome_bind_eq_ok.mp h
    obtain ⟨rfl, _⟩ := Prod.mk.inj (Except.ok.inj h)
    exact hfound

omit [Number ν] in
theorem outcome_forM_note {α : Type} (note : α → Note ν) (l : List α) :
    (l.forM fun a => Traced.note (note a) : Traced ν PUnit).outcome = .ok ⟨⟩ := by
  induction l with
  | nil => rfl
  | cons a rest ih => exact Traced.outcome_bind_eq_ok.mpr ⟨⟨⟩, rfl, ih⟩

/-- **There is no room for an item exactly if one of the rules turns it down or its group has a
settled member.** -/
theorem roomFor_cases (index : Index ν) (hnew : state.selection? item.id none = none)
    (g : Option (Group ν)) :
    let barred := Rules.turnsDown index state item source g || state.holdsSettledMember source g
    (barred = true ∧ ∃ reason, (roomFor state item source g).outcome = .ok (.error reason)) ∨
      (barred = false ∧ ∃ others, (roomFor state item source g).outcome = .ok (.ok others)) := by
  intro barred
  cases g with
  | none =>
      refine Or.inr ⟨?_, state.selections, rfl⟩
      simp [barred, Rules.turnsDown_none hnew, Build.holdsSettledMember]
  | some g =>
      have hbarred : barred = (Rules.turnsDown index state item source (some g) ||
        g.isExclusive && (state.membersOf source g.id).any (·.locked)) := rfl
      rw [Rules.turnsDown_some hnew] at hbarred
      rw [hbarred]
      -- the conditions in the order in which the request goes through them
      show (_ ∧ ∃ reason, (makeRoom state item source g).outcome = _) ∨
        (_ ∧ ∃ others, (makeRoom state item source g).outcome = _)
      unfold makeRoom
      by_cases hlisted : g.items.contains item.id = true
      · rw [if_neg (by simpa using hlisted)]
        by_cases hlow : state.targetLevel < (g.level : Level ν)
        · rw [if_pos hlow]
          exact Or.inl ⟨by simp [hlow], _, rfl⟩
        rw [if_neg hlow]
        by_cases hsettled : state.isSettled g.level = true
        · rw [if_pos hsettled]
          exact Or.inl ⟨by simp [hsettled], _, rfl⟩
        rw [if_neg hsettled]
        cases hl : g.limit with
        | none =>
            refine Or.inr ⟨?_, _, rfl⟩
            simpa [Group.isExclusive, hl, hlow, hsettled] using hlisted
        | some limit =>
            dsimp only
            by_cases hexclusive : g.isExclusive = true
            · rw [if_pos hexclusive]
              by_cases hmember : ((state.membersOf source g.id).any fun m => m.locked) = true
              · rw [if_pos hmember]
                exact Or.inl ⟨by rw [hexclusive, hmember]; simp, _, rfl⟩
              · rw [if_neg hmember]
                rw [Bool.not_eq_true] at hmember
                refine Or.inr ⟨?_, _, Traced.outcome_bind_eq_ok.mpr
                  ⟨⟨⟩, outcome_forM_note _ _, rfl⟩⟩
                rw [hexclusive, hmember]
                simpa [hlow, hsettled] using hlisted
            · rw [if_neg hexclusive]
              by_cases hfull : limit ≤ (state.membersOf source g.id).length
              · rw [if_pos hfull]
                exact Or.inl ⟨by simp [hexclusive, hfull], _, rfl⟩
              · rw [if_neg hfull]
                refine Or.inr ⟨?_, _, rfl⟩
                simpa [hexclusive, hlow, hsettled, Nat.lt_of_not_le hfull] using hlisted
      · rw [Bool.not_eq_true] at hlisted
        rw [hlisted]
        exact Or.inl ⟨rfl, _, rfl⟩

/-- Without a payload, an item for which there is room is put at the end of what stays. -/
theorem select_of_new (hnew : state.selection? item.id none = none)
    (hg : (Rules.resolveGroup index item source group).outcome = .ok g) :
    let barred := Rules.turnsDown index state item source g || state.holdsSettledMember source g
    (barred = true ∧ ∃ reason,
      (select index state item source group .null).outcome = .ok (refuse reason)) ∨
    (barred = false ∧ ∃ change,
      (select index state item source group .null).outcome = .ok (.commit change none)) := by
  intro barred
  obtain ⟨kept, hfor⟩ := groupFor_of_resolveGroup hg
  rcases roomFor_cases index hnew g with ⟨hbarred, reason, hroom⟩ | ⟨hbarred, others, hroom⟩
  · refine Or.inl ⟨hbarred, reason, ?_⟩
    unfold select
    refine Traced.outcome_bind_eq_ok.mpr ⟨(g, kept), hfor, ?_⟩
    rw [hnew]
    exact Traced.outcome_bind_eq_ok.mpr ⟨.error reason, hroom, rfl⟩
  · refine Or.inr ⟨hbarred, ?_⟩
    unfold select
    rw [Traced.outcome_bind, hfor, Except.bind]
    dsimp only
    rw [hnew]
    dsimp only
    rw [Traced.outcome_bind, hroom]
    exact ⟨_, rfl⟩

end Plan

/-! ## Sessions -/

/-- The check lets a state without violations pass. -/
theorem Session.not_barred {κ : Type} {s : Session ν κ} {fault : Fault ν}
    (h : state.violations s.index = .ok []) : ¬ s.Barred state fault := by
  rintro ⟨_, hfailed | ⟨problems, hproblems, hne, _⟩⟩
  · rw [h] at hfailed
    cases hfailed
  · rw [h] at hproblems
    exact hne (Except.ok.inj hproblems).symm

namespace Guided

variable {config : Config} {s : Session ν (Call ν)} {key : SourceId}

/-- A request that is not barred puts the new state in place if that passes the check. -/
theorem select_turns_out (hidle : s.announcing = false)
    (hnew : s.state.selection? item.id none = none)
    (hg : (Rules.resolveGroup s.index item key group).outcome = .ok g) :
    let barred := Rules.turnsDown s.index s.state item key g || s.state.holdsSettledMember key g
    let t := Session.select Call.runInside item key group .null s
    (barred = true ∧ ∃ reason, t.outcome = .ok ⟨false, some reason⟩) ∨
    (barred = false ∧ ∃ change,
      (Plan.select s.index s.state item key group .null).outcome = .ok (.commit change none) ∧
      s.Carried t (.commit change none)) := by
  intro barred t
  have hcarried : ∀ {p : Plan ν},
      (Plan.select s.index s.state item key group .null).outcome = .ok p → s.Carried t p :=
    fun hplan => Session.carried_of_plan Call.runInside_leavesBuild hidle hplan
  -- the plan is made in any case
  rcases Plan.select_of_new hnew hg with ⟨hbarred, reason, hplan⟩ | ⟨hbarred, change, hplan⟩
  · cases hcarried hplan with
    | kept _ _ ho => exact Or.inl ⟨hbarred, reason, ho⟩
  · exact Or.inr ⟨hbarred, change, hplan, hcarried hplan⟩

/-- **A request turns an item down exactly if one of the rules does or a settled member is in the
way.** -/
theorem select_refused_iff (hidle : s.announcing = false)
    (hnew : s.state.selection? item.id none = none)
    (hg : (Rules.resolveGroup s.index item key group).outcome = .ok g) :
    (∃ reason, (Session.select Call.runInside item key group .null s).outcome
        = .ok ⟨false, some reason⟩) ↔
      Rules.turnsDown s.index s.state item key g = true ∨
        s.state.holdsSettledMember key g = true := by
  rw [← Bool.or_eq_true]
  rcases select_turns_out hidle hnew hg with ⟨hbarred, hrefused⟩ | ⟨hbarred, change, _, hc⟩
  · exact ⟨fun _ => hbarred, fun _ => hrefused⟩
  · rw [hbarred]
    refine ⟨fun ⟨reason, h⟩ => ?_, nofun⟩
    cases hc.kept_iff.mp h

/-- A call that selects items by their ids from sources by their names, in groups that are null
or texts. -/
def Call.NamesChoices : Call ν → Prop
  | .select item source group payload => (Call.select item source group payload).Regular
  | .selectAllForced source => (Call.selectAllForced source : Call ν).Regular
  | _ => True

omit [Number ν] in
theorem Call.NamesChoices.of_puts {c : Call ν} (h : c.NamesChoices) {x : Selection ν}
    (hputs : (c.scope index).puts item x) :
    index.item? item.id = some item ∧ x.source = index.keyOf x.source.name ∧
      (x.group = .null ∨ ∃ id, x.group = .text id) := by
  cases c with
  | select mention source group payload =>
      have hregular : (Call.select mention source group payload).Regular := h
      exact hregular.of_puts hputs
  | selectAllForced source =>
      have hregular : (Call.selectAllForced source : Call ν).Regular := h
      exact hregular.of_puts hputs
  | _ => exact hputs.elim

/-- The contract of sessions whose listeners let out no fault: the state is sound. -/
def soundStates (index : Index ν) (config : Config) : Contract ν where
  index := index
  config := config
  reacts := fun d => d.outcome = .ok ()
  holds := Build.Sound index

/-- **A guided session is in a sound state** after calls that name what they select. -/
theorem soundStates_after [ExactNumber ν] {catalog : Catalog ν} (hmin : 1 ≤ config.minLevel)
    {s₀ : Session ν (Call ν)} (hs₀ : (newBuild catalog config).outcome = .ok s₀)
    {calls : List (Call ν)} (hcalls : ∀ c ∈ calls, c.NamesChoices)
    (hcalm : ∀ t ∈ turns s₀ calls, ∀ d ∈ t.deliveries, d.outcome = .ok ()) :
    (soundStates s₀.index config).Meets (after s₀ calls) := by
  have hstart := soundContract_newBuild hmin hs₀
  refine (turns_keep (C := soundStates s₀.index config) (.of_all fun _ => trivial)
    (fun c hc => ?_) (fun _ _ _ _ => trivial)
    ⟨hstart.index, hstart.config, hstart.idle, hstart.holds⟩ hcalm).1
  intro s changed s' hs heffect
  have hmade : s'.Sound s₀.index true := by
    cases heffect with
    | edit hedit =>
        exact Build.Sound.edit hs hmin (fun _ _ hputs => (hcalls c hc).of_puts hputs) hedit
    | restore hchanged _ _ hr =>
        subst hchanged
        exact Build.Sound.restoration hs hmin hr
  exact .of_calm (fun _ hcalm => hcalm) hmade

/-- A call that names what it selects, of an item that the rules enable, is the request. -/
theorem run_select_of_enabled {id name : Text} (hitem : s.index.item? id = some item)
    (hnew : s.state.selection? item.id none = none)
    (henabled : (Rules.judge s.index s.state item (s.index.keyOf name) group).outcome
      = .ok .enabled) :
    let t := Session.select Call.runInside item (s.index.keyOf name) group .null s
    let t' := (Call.select (.named id) (.named name) group .null).run s
    t'.deliveries = t.deliveries ∧ t'.outcome = t.outcome.map Answer.result := by
  intro t t'
  have hadmits : (admits s item (s.index.keyOf name) group).outcome = .ok .enabled := by
    unfold admits
    rw [hnew]
    exact henabled
  have ht' : t' = (Answer.result <$>
      Guided.select Call.runInside (.named id) (.named name) group .null) s := rfl
  rw [ht', Action.map_apply]
  unfold Guided.select
  rw [ask_bind_of_ok (s.index.resolve_named_of_item? hitem)]
  dsimp only
  unfold withKey
  rw [ask_bind_of_ok (s.index.resolve_named name)]
  dsimp only
  rw [ask_bind_of_ok hadmits]
  exact ⟨rfl, rfl⟩

omit [Number ν] in
/-- What a request selects of the catalog, from a source under its name. -/
theorem selectScope_listed {name : Text} (hitem : index.item? item.id = some item)
    (hgroup : group = .null ∨ ∃ id, group = .text id) {i : Item ν} {x : Selection ν}
    (hputs : (Plan.selectScope item (index.keyOf name) group).puts i x) :
    index.item? i.id = some i ∧ x.source = index.keyOf x.source.name ∧
      (x.group = .null ∨ ∃ id, x.group = .text id) := by
  obtain ⟨rfl, hsource, hkept⟩ := hputs
  refine ⟨hitem, ?_, ?_⟩
  · rw [hsource, index.keyOf_name]
  · rcases hkept with hkept | ⟨_, hkept⟩
    · rw [hkept]
      exact hgroup
    · exact Or.inr hkept

/-- **The rules and the requests agree, but for settled members.** In every build that a guided
session reaches, selecting an item that is not selected is refused exactly if one of the rules,
cost aside, turns the item down, or its group is exclusive and has a settled member. So what the
rules enable is selected exactly if there is no such member. -/
theorem select_agrees [ExactNumber ν] {catalog : Catalog ν} {s₀ : Session ν (Call ν)}
    (hs₀ : (newBuild catalog config).outcome = .ok s₀) (calls : List (Call ν)) {id : Text}
    (hitem : s₀.index.item? id = some item)
    (hnew : (after s₀ calls).state.selection? id none = none)
    (hgroup : group = .null ∨ ∃ id, group = .text id) (key : SourceId) :
    let s := after s₀ calls
    ∃ g, (Rules.resolveGroup s.index item key group).outcome = .ok g ∧
      ((∃ reason, (Session.select Call.runInside item key group .null s).outcome
          = .ok ⟨false, some reason⟩) ↔
        Rules.turnsDown s.index s.state item key g = true ∨
          s.state.holdsSettledMember key g = true) ∧
      (1 ≤ config.minLevel → (∀ c ∈ calls, c.NamesChoices) →
        (∀ t ∈ turns s₀ calls, ∀ d ∈ t.deliveries, d.outcome = .ok ()) →
        ∀ name, key = s.index.keyOf name →
        let t := (Call.select (.named id) (.named name) group .null).run s
        (∀ d ∈ t.deliveries, d.outcome = .ok ()) →
        (Rules.judge s.index s.state item key group).outcome = .ok .enabled →
        (t.outcome = .ok (.result ⟨true, none⟩) ↔
          s.state.holdsSettledMember key g = false)) := by
  intro s
  have hid := s₀.index.id_of_item? hitem
  have hstart := idle_after hs₀ calls
  have hitem' : s.index.item? item.id = some item := by
    rw [hstart.index]
    exact s₀.index.item?_id hitem
  subst hid
  obtain ⟨g, hg⟩ : ∃ g, (Rules.resolveGroup s.index item key group).outcome = .ok g :=
    Rules.resolveGroup_eq_ok hgroup
  refine ⟨g, hg, select_refused_iff hstart.idle hnew hg, ?_⟩
  rintro hmin hcalls hcalm name rfl t hcalmNow henabled
  obtain ⟨hdeliveries, houtcome⟩ := run_select_of_enabled hitem' hnew henabled
  obtain ⟨hclear, _⟩ := Rules.of_judge_enabled hnew hg henabled
  rcases select_turns_out hstart.idle hnew hg with ⟨hbarred, reason, ho⟩ | ⟨hbarred, change, hp, hc⟩
  · -- the rules do not turn the item down, so there is a settled member
    rw [hclear, Bool.false_or] at hbarred
    rw [houtcome, ho, hbarred]
    exact ⟨nofun, nofun⟩
  · rw [hclear, Bool.false_or] at hbarred
    refine ⟨fun _ => hbarred, fun _ => ?_⟩
    rw [houtcome]
    -- the new state is sound, so it passes the check
    have hsound : s.state.Sound s.index s.changed := by
      rw [hstart.index]
      exact (soundStates_after hmin hs₀ hcalls hcalm).holds
    have hedit : s.state.Edit s.index config
        (Plan.selectScope item (s.index.keyOf name) group) change.state := Plan.select_makes hp
    have hmade : change.state.Sound s.index true :=
      hsound.edit hmin (fun _ _ hputs => selectScope_listed hitem' hgroup hputs) hedit
    cases hc with
    | made _ _ ho => rw [ho]; rfl
    | barred _ _ _ hbar => exact absurd hbar (Session.not_barred hmade.violations)
    | broken _ _ _ hd =>
        obtain ⟨d, hmem, hraised⟩ := hd
        rw [← hdeliveries] at hmem
        rw [hcalmNow d hmem] at hraised
        cases hraised

/-- An item is restored at level 1 in a group that opens at level 5. Once the level is raised, the
rules enable the other item of the group, but selecting it is refused. -/
theorem select_agrees_sharedGroups :
    let saved : SavedSelection Double :=
      .saved (.object [("groupId", .text "g"), ("id", .text "x"), ("source", .text "B")])
    let s := after (sharedStart {}) [.restore [saved] {}, .setLevel (.whole 6)]
    let t := (Call.select (.named "y") (.named "B") (.text "g") .null).run s
    (Rules.judge s.index s.state (plainItem "y") (s.index.keyOf "B") (.text "g")).outcome
        = .ok .enabled ∧
      t.outcome ≠ .ok (.result ⟨true, none⟩) := by
  intro saved s t
  have henabled : (Rules.judge s.index s.state (plainItem "y") (s.index.keyOf "B")
      (.text "g")).outcome = .ok .enabled := Rules.eq_enabled_of_any (by decide +kernel)
  refine ⟨henabled, ?_⟩
  have hitem : (sharedStart {}).index.item? "y" = some (plainItem "y") := rfl
  have hnew : s.state.selection? "y" none = none :=
    Option.isNone_iff_eq_none.mp (by decide +kernel)
  have hgroup : (Value.text "g" : Value Double) = .null ∨
      ∃ id, (Value.text "g" : Value Double) = .text id := Or.inr ⟨"g", rfl⟩
  obtain ⟨g, hg, _, hagree⟩ := select_agrees (newBuild_sharedGroups {})
    [.restore [saved] {}, .setLevel (.whole 6)] hitem hnew hgroup (s.index.keyOf "B")
  have hsettled : s.state.holdsSettledMember (s.index.keyOf "B") g = true := by
    have hall : ((Rules.resolveGroup s.index (plainItem "y") (s.index.keyOf "B")
        (.text "g")).outcome.toOption.all fun g =>
          s.state.holdsSettledMember (s.index.keyOf "B") g) = true := by decide +kernel
    rw [hg] at hall
    exact hall
  have hcalm : ∀ u ∈ turns s [.select (.named "y") (.named "B") (.text "g") .null],
      ∀ d ∈ u.deliveries, d.outcome = .ok () := calm_of_all (by decide +kernel)
  intro hselected
  have hnone := (hagree (by decide) (by simp [Call.NamesChoices]) (calm_of_all (by decide +kernel))
    "B" rfl (hcalm t (List.mem_singleton.mpr rfl)) henabled).mp hselected
  rw [hsettled] at hnone
  cases hnone

end Guided

end CharacterBuild
