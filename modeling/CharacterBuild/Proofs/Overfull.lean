import CharacterBuild.Proofs.Accepted

set_option autoImplicit false

/-! # What is full and what is reported as overfull

Before an item is put into a group, the request counts the members that were made from the very
source that is given, and it goes by the option limit of the item that is given. The check of the
new state counts by the names of sources and goes by the limits in the catalog. So the two need not
agree. `Build.violations_put` lists what the check finds in a state without violations that one
selection was put into, and `Session.select_overfull_iff` concludes when selecting an item ends in
a fault of the check where a refusal would be expected.
-/

namespace CharacterBuild

variable {ν : Type} [Number ν]

/-! ## Lists without repetitions -/

section

variable {α β : Type}

/-- Of pairwise different elements, only one has a value. -/
theorem filterMap_eq_toList {f : α → Option β} {l : List α} {a : α} (hl : l.Nodup) (ha : a ∈ l)
    (hnone : ∀ b ∈ l, b ≠ a → f b = none) : l.filterMap f = (f a).toList := by
  obtain ⟨before, after, rfl⟩ := List.append_of_mem ha
  have hsides : a ∉ before ∧ a ∉ after := by
    rw [List.nodup_append, List.nodup_cons] at hl
    exact ⟨fun h => hl.2.2 a h a (List.mem_cons_self ..) rfl, hl.2.1.1⟩
  have hbefore : before.filterMap f = [] := by
    refine List.filterMap_eq_nil_iff.mpr fun b hb => hnone b (by simp [hb]) ?_
    rintro rfl
    exact hsides.1 hb
  have hafter : after.filterMap f = [] := by
    refine List.filterMap_eq_nil_iff.mpr fun b hb => hnone b (by simp [hb]) ?_
    rintro rfl
    exact hsides.2 hb
  rw [List.filterMap_append, hbefore, List.nil_append]
  cases h : f a with
  | none => rw [List.filterMap_cons_none h, hafter]; rfl
  | some b => rw [List.filterMap_cons_some h, hafter]; rfl

end

namespace Build

/-! ## The violations that one selection brings about -/

/-- The violation of a group that holds too much once a selection is put beside some others. The
members are counted by the name of the source. -/
def groupOverfull? (index : Index ν) (others : List (Selection ν)) (x : Selection ν) :
    Option (Violation ν) :=
  match groupName? x with
  | some (source, id) =>
    match (index.groupOf? source id).bind Group.limit with
    | some limit =>
      let count := others.countP (countsIn source id) + 1
      if limit < count then some (.groupOverfull id source count limit) else none
    | none => none
  | none => none

/-- The violations that putting a selection beside some others brings about. -/
def overfills (index : Index ν) (others : List (Selection ν)) (x : Selection ν) :
    List (Violation ν) :=
  (groupOverfull? index others x).toList ++ (optionViolation? index x).toList

variable {index : Index ν} {s : Build ν} {others : List (Selection ν)} {x : Selection ν}

/-- Whether a selection cannot be put in order with one of some others. -/
def clashes (others : List (Selection ν)) (x : Selection ν) : Bool :=
  others.any fun y => !y.locked && groupsClash x y

omit [Number ν] in
theorem countsIn_eq_true_iff {source id : Text} (hopen : x.locked = false) :
    countsIn source id x = true ↔ groupName? x = some (source, id) := by
  constructor
  · intro h
    simp only [countsIn, Bool.and_eq_true, decide_eq_true_eq, Value.isText_iff] at h
    simp [groupName?, h.1.1, h.1.2]
  · intro h
    unfold groupName? at h
    split at h
    · rename_i htext
      cases h
      simp [countsIn, htext, hopen]
    · cases h

omit [Number ν] in
/-- A group is reported if it was full before the new selection. -/
theorem groupOverfull?_of_full {id : Text} {g : Group ν} {limit : Nat} (htext : x.group = .text id)
    (hg : index.groupOf? x.source.name id = some g) (hlimit : g.limit = some limit)
    (hfull : limit ≤ others.countP (countsIn x.source.name id)) :
    groupOverfull? index others x = some (.groupOverfull id x.source.name
      (others.countP (countsIn x.source.name id) + 1) limit) := by
  simp [groupOverfull?, groupName?, htext, hg, hlimit, Nat.lt_succ_of_le hfull]

omit [Number ν] in
theorem groupOverfull?_eq_none_iff : groupOverfull? index others x = none ↔
    ∀ id g limit, x.group = .text id → index.groupOf? x.source.name id = some g →
      g.limit = some limit → others.countP (countsIn x.source.name id) < limit := by
  constructor
  · intro h id g limit htext hg hlimit
    by_cases hfull : limit ≤ others.countP (countsIn x.source.name id)
    · rw [groupOverfull?_of_full htext hg hlimit hfull] at h
      cases h
    · exact Nat.lt_of_not_le hfull
  · intro h
    unfold groupOverfull? groupName?
    split
    · rename_i source id hname
      split at hname
      · rename_i htext
        cases hname
        split
        · rename_i limit hlimit
          obtain ⟨g, hg, hlimit⟩ := Option.bind_eq_some_iff.mp hlimit
          exact if_neg (by have hroom := h id g limit htext hg hlimit; omega)
        · rfl
      · cases hname
    · rfl

theorem unlocked_put (hopen : x.locked = false) :
    unlocked { s with selections := others ++ [x] }
      = unlocked { s with selections := others } ++ [x] := by
  simp [unlocked, hopen]

/-- The check can put the groups in order unless the new selection cannot be put in order with an
old one. -/
theorem groupsOrdered_put (h : groupsOrdered { s with selections := others } = .ok ())
    (hopen : x.locked = false) (hgroup : x.group = .null ∨ ∃ id, x.group = .text id) :
    groupsOrdered { s with selections := others ++ [x] }
      = if clashes others x then .error .wrongKind else .ok () := by
  obtain ⟨hkeys, hclash⟩ := groupsOrdered_eq_ok_iff.mp h
  have hkey : ∃ a, x.group.key = .ok a := by
    rcases hgroup with hnull | ⟨id, htext⟩
    · exact ⟨.null, by rw [hnull]; rfl⟩
    · exact ⟨.text id, by rw [htext]; rfl⟩
  obtain ⟨keys, hmapM, _⟩ := (mapM_eq_ok_forall_iff (P := fun _ => True)
      (l := unlocked { s with selections := others ++ [x] })
      (f := fun y : Selection ν => y.group.key)).mpr (by
    intro y hy
    rw [unlocked_put hopen] at hy
    rcases List.mem_append.mp hy with hy | hy
    · obtain ⟨a, ha⟩ := hkeys y hy
      exact ⟨a, ha, trivial⟩
    · obtain ⟨a, ha⟩ := hkey
      exact ⟨a, by rw [List.mem_singleton.mp hy, ha], trivial⟩)
  -- a group that is null or a text is in nobody's way, so only the others can be in its way
  have hlast : ∀ y, groupsClash y x = false := by
    intro y
    rcases hgroup with hnull | ⟨id, htext⟩
    · simp [groupsClash, hnull, Value.isNull]
    · simp [groupsClash, groupName?, htext]
  have hany : ((unlocked { s with selections := others ++ [x] }).any fun y =>
      (unlocked { s with selections := others ++ [x] }).any fun z => groupsClash y z)
        = clashes others x := by
    rw [Bool.eq_iff_iff, unlocked_put hopen]
    simp only [List.any_append, List.any_cons, List.any_nil, hlast, Bool.or_false, Bool.or_eq_true]
    have hnone : ((unlocked { s with selections := others }).any fun y =>
        (unlocked { s with selections := others }).any fun z => groupsClash y z) = false := by
      simpa using hclash
    rw [hnone]
    simp [clashes, unlocked]
  unfold groupsOrdered
  rw [hmapM]
  show (if _ then _ else _) = _
  rw [hany]

/-- No group has more members than before but the one that the new selection is in. -/
theorem groupViolations_put (h : groupViolations { s with selections := others } index = [])
    (hopen : x.locked = false) :
    groupViolations { s with selections := others ++ [x] } index
      = (groupOverfull? index others x).toList := by
  rw [groupViolations_eq_nil_iff] at h
  have hcount : ∀ source id, countIn { s with selections := others ++ [x] } source id
      = others.countP (countsIn source id) + if countsIn source id x then 1 else 0 := by
    intro source id
    rw [countIn_eq]
    simp [List.countP_append, List.countP_singleton]
  have hroom : ∀ source id g limit, countsIn source id x = false →
      index.groupOf? source id = some g → g.limit = some limit →
        countIn { s with selections := others ++ [x] } source id ≤ limit := by
    -- a group that the new selection is not in holds what it held
    intro source id g limit hout hg hlimit
    have hle := h source id g limit hg hlimit
    rw [countIn_eq] at hle
    rw [hcount, hout]
    exact hle
  cases hname : groupName? x with
  | none =>
      have hnil : groupOverfull? index others x = none := by
        unfold groupOverfull?
        rw [hname]
      rw [hnil, Option.toList_none]
      refine groupViolations_eq_nil fun source id g limit => hroom source id g limit ?_
      rw [← Bool.not_eq_true, countsIn_eq_true_iff hopen, hname]
      nofun
  | some name =>
      have hin : countsIn name.1 name.2 x = true := (countsIn_eq_true_iff hopen).mpr hname
      have hmem : name ∈ groupNames { s with selections := others ++ [x] } := by
        rw [groupNames, List.mem_eraseDups, List.mem_mergeSort, List.mem_filterMap]
        exact ⟨x, by simp [unlocked, hopen], hname⟩
      have hnodup : (groupNames { s with selections := others ++ [x] }).Nodup := nodup_eraseDups _
      rw [groupViolations, filterMap_eq_toList hnodup hmem]
      · unfold groupOverfull?
        rw [hname]
        dsimp only
        cases (index.groupOf? name.1 name.2).bind Group.limit with
        | none => rfl
        | some limit =>
            dsimp only
            rw [hcount, if_pos hin]
      · rintro ⟨source, id⟩ _ hne
        have hout : countsIn source id x = false := by
          rw [← Bool.not_eq_true, countsIn_eq_true_iff hopen, hname]
          exact fun heq => hne (Option.some.inj heq).symm
        dsimp only
        split
        · rename_i limit hlimit
          obtain ⟨g, hg, hlimit⟩ := Option.bind_eq_some_iff.mp hlimit
          exact if_neg (Nat.not_lt.mpr (hroom source id g limit hout hg hlimit))
        · rfl

/-- **What the check finds once a new selection is put beside some of those of a state without
violations**: its own group with too much in it, and too many options of its own. -/
theorem violations_put (hclean : s.violations index = .ok [])
    (hsub : others.Sublist s.selections) (hnew : ∀ y ∈ others, y.id ≠ x.id)
    (hopen : x.locked = false) (hgroup : x.group = .null ∨ ∃ id, x.group = .text id) :
    violations { s with selections := others ++ [x] } index
      = if clashes others x then .error .wrongKind else .ok (overfills index others x) := by
  have hothers : violations { s with selections := others } index = .ok [] :=
    violations_of_sublist hclean hsub rfl
  obtain ⟨hordered, hlevel, hrepeat, hgroups, hoptions⟩ := violations_eq_nil_iff.mp hothers
  have hlevel' : levelViolations { s with selections := others ++ [x] } = [] := hlevel
  have hrepeat' : repeatViolations { s with selections := others ++ [x] } = [] := by
    rw [repeatViolations_eq_nil_iff] at hrepeat ⊢
    rw [List.map_append, List.nodup_append]
    refine ⟨hrepeat, by simp, fun a ha b hb hab => ?_⟩
    obtain ⟨y, hy, rfl⟩ := List.mem_map.mp ha
    exact hnew y hy (by rw [hab]; simpa using hb)
  have hoptions' : (unlocked { s with selections := others ++ [x] }).filterMap
      (optionViolation? index) = (optionViolation? index x).toList := by
    rw [unlocked_put hopen, List.filterMap_append, hoptions, List.nil_append]
    cases hx : optionViolation? index x <;> simp [hx]
  unfold violations
  rw [groupsOrdered_put hordered hopen hgroup]
  split
  · rfl
  · show Except.ok _ = _
    rw [hlevel', hrepeat', groupViolations_put hgroups hopen, hoptions']
    rfl

end Build

/-! ## Selecting -/

namespace Plan

variable {index : Index ν} {state : Build ν} {item : Item ν} {source : SourceId}
  {group payload : Value ν} {others : List (Selection ν)} {x : Selection ν}

theorem Puts.named (h : Puts index state item source group payload others x)
    (hgroup : group = .null ∨ ∃ id, group = .text id) :
    x.group = .null ∨ ∃ id, x.group = .text id := by
  obtain ⟨g, hfor, _⟩ := h.room
  rcases (groupNamed_of_groupFor hfor).2 with hkept | ⟨_, hkept⟩
  · rw [hkept]
    exact hgroup
  · exact Or.inr hkept

/-- Where there is room for an item, its group holds less than it may, as long as all selections
that count under the name of the source were made from the source. -/
theorem Fresh.overfills_eq_nil (h : Fresh index state item source others x)
    (hkeys : ∀ y ∈ state.selections, y.locked = false → y.source.name = source.name →
      y.source = source)
    (hlimits : ∀ i limit, index.item? item.id = some i → i.optionLimit = some limit →
      ∃ allowed, item.optionLimit = some allowed ∧ allowed ≤ limit) :
    Build.overfills index others x = [] := by
  obtain ⟨hid, hsource, _⟩ := h.place
  have hgroup : Build.groupOverfull? index others x = none := by
    rw [Build.groupOverfull?_eq_none_iff, hsource]
    intro id g limit htext hg hlimit
    obtain ⟨g', hnamed, hroom⟩ := h.room
    rw [htext, Index.groupNamed_text, hg] at hnamed
    obtain rfl := Except.ok.inj hnamed
    obtain ⟨_, rfl⟩ := index.mem_of_groupOf? hg
    exact hroom.countP_lt hlimit fun y hy => Build.isIn_of_countsIn (hkeys y hy)
  have hoptions : Build.optionViolation? index x = none := by
    unfold Build.optionViolation?
    rw [hid]
    split
    · rename_i limit hlimit
      obtain ⟨i, hi, hlimit⟩ := Option.bind_eq_some_iff.mp hlimit
      obtain ⟨allowed, hallowed, hle⟩ := hlimits i limit hi hlimit
      have hheld := h.held.options.bounded allowed hallowed
      exact if_neg (by omega)
    · rfl
  unfold Build.overfills
  rw [hgroup, hoptions]
  rfl

/-- The plan that selects an item is made if there is something to put into the state. -/
theorem select_of_puts (h : Puts index state item source group payload others x) :
    ∃ reason, (select index state item source group payload).outcome
      = .ok (selections state (others ++ [x]) (.selected item.id source.name x.group) reason) := by
  obtain ⟨g, hfor, hroom⟩ := h.room
  obtain ⟨reason, hpaid⟩ := h.paid
  refine ⟨reason, ?_⟩
  unfold select
  rw [Traced.outcome_bind_of_ok hfor]
  dsimp only
  rw [h.new]
  dsimp only
  rw [Traced.outcome_bind_of_ok hroom]
  dsimp only
  rw [Traced.outcome_bind_of_ok hpaid]
  rfl

/-- A plan that takes selections away at most. -/
def OnlyRemoves (state : Build ν) (p : Plan ν) : Prop :=
  p.Makes fun s => s.selections.Sublist state.selections ∧ s.targetLevel = state.targetLevel

theorem remove_onlyRemoves (x : Selection ν) : OnlyRemoves state (remove state x) := by
  unfold remove
  split
  · trivial
  · exact ⟨List.filter_sublist, rfl⟩

theorem reselect_onlyRemoves (g : Option (Group ν)) (existing : Selection ν) :
    ∃ p, (reselect index state item source g existing).outcome = .ok p ∧
      OnlyRemoves state p := by
  unfold reselect
  split
  · exact ⟨_, rfl, trivial⟩
  · split
    · split
      · exact ⟨_, rfl, trivial⟩
      · exact ⟨_, rfl, remove_onlyRemoves existing⟩
    · exact ⟨_, rfl, remove_onlyRemoves existing⟩

/-- **How the plan that selects an item turns out**: it takes away or changes nothing, it puts
something into the state, or it cannot be made because of the payload. -/
theorem select_cases (index : Index ν) (state : Build ν) (item : Item ν) (source : SourceId)
    (payload : Value ν) (hgroup : group = .null ∨ ∃ id, group = .text id) :
    (∃ p, (select index state item source group payload).outcome = .ok p ∧
      OnlyRemoves state p) ∨
    (∃ others x, Puts index state item source group payload others x) ∨
    ∃ fault kept, (select index state item source group payload).outcome = .error fault ∧
      (pay item (payload.orElse (.object []))
        { id := item.id, source := source, group := kept }).outcome = .error fault := by
  obtain ⟨g, hg⟩ : ∃ g, (Rules.resolveGroup index item source group).outcome = .ok g :=
    Rules.resolveGroup_eq_ok hgroup
  obtain ⟨kept, hfor⟩ := groupFor_of_resolveGroup hg
  unfold select
  rw [Traced.outcome_bind_of_ok hfor]
  dsimp only
  cases hx : state.selection? item.id none with
  | some existing => exact Or.inl (reselect_onlyRemoves g existing)
  | none =>
      dsimp only
      have hcases : (∃ reason, (roomFor state item source g).outcome = .ok (.error reason)) ∨
          ∃ others, (roomFor state item source g).outcome = .ok (.ok others) :=
        (roomFor_cases index hx g).imp And.right And.right
      rcases hcases with ⟨reason, hroom⟩ | ⟨others, hroom⟩
      · exact Or.inl ⟨refuse reason, by rw [Traced.outcome_bind_of_ok hroom]; rfl, trivial⟩
      · cases hpay : (pay item (payload.orElse (.object []))
            { id := item.id, source := source, group := kept }).outcome with
        | ok paid =>
            obtain ⟨x, reason⟩ := paid
            have hkept : x.group = kept := (pay_holds hpay).1.group
            exact Or.inr (Or.inl ⟨others, x, hx, ⟨g, by rw [hkept]; exact hfor, hroom⟩,
              reason, by rw [hkept]; exact hpay⟩)
        | error fault =>
            refine Or.inr (Or.inr ⟨fault, kept, ?_, hpay⟩)
            rw [Traced.outcome_bind_of_ok hroom]
            dsimp only
            rw [Traced.outcome_bind, hpay]
            rfl

end Plan

namespace Session

variable {κ : Type} {run : κ → Action ν κ (Answer ν)} {s : Session ν κ} {item : Item ν}
  {source : SourceId} {group payload : Value ν}

/-- Putting a selection into a state without violations passes the check unless it clashes with the
others or overfills something. -/
theorem violations_of_puts {others : List (Selection ν)} {x : Selection ν}
    (hclean : s.state.violations s.index = .ok [])
    (hgroup : group = .null ∨ ∃ id, group = .text id)
    (h : Plan.Puts s.index s.state item source group payload others x) :
    Build.violations { s.state with selections := others ++ [x] } s.index
      = if Build.clashes others x then .error .wrongKind
        else .ok (Build.overfills s.index others x) := by
  have hfresh := h.fresh
  obtain ⟨g, _, hroom⟩ := hfresh.room
  exact Build.violations_put hclean hroom.sublist hfresh.new hfresh.place.2.2 (h.named hgroup)

/-- **How selecting an item turns out in a state without violations.** -/
inductive SelectTurnout (s : Session ν κ) (item : Item ν) (source : SourceId)
    (group payload : Value ν) (t : Turn ν κ (Result ν)) : Prop where
  /-- It is answered, be it by a refusal. -/
  | answered {result : Result ν} (ho : t.outcome = .ok result)
  /-- The payload is malformed, and nothing has happened. -/
  | malformed {fault : Fault ν} {kept : Value ν} (hs : t.session = s)
      (hpay : (Plan.pay item (payload.orElse (.object []))
        { id := item.id, source := source, group := kept }).outcome = .error fault)
      (ho : t.outcome = .error fault)
  /-- The check finds too much in the group or among the options, and nothing has happened. -/
  | overfull {others : List (Selection ν)} {x : Selection ν}
      (hchecks : s.config.checksState = true)
      (hputs : Plan.Puts s.index s.state item source group payload others x)
      (hclash : Build.clashes others x = false)
      (hover : Build.overfills s.index others x ≠ []) (hs : t.session = s)
      (ho : t.outcome = .error (.violated (Build.overfills s.index others x)))
  /-- The check cannot put the groups in order, and nothing has happened. -/
  | clashed {others : List (Selection ν)} {x : Selection ν}
      (hputs : Plan.Puts s.index s.state item source group payload others x)
      (hclash : Build.clashes others x = true) (hs : t.session = s)
      (ho : t.outcome = .error .wrongKind)
  /-- The new state is in place, and a listener lets out a fault. -/
  | broken {fault : Fault ν} (hd : ∃ d ∈ t.deliveries, d.outcome = .error fault)
      (ho : t.outcome = .error fault)

/-- The plan that selects an item is carried out if it can be made. -/
theorem select_carried (hrun : ∀ c, (run c).LeavesBuild) (hidle : s.announcing = false) {p : Plan ν}
    (hplan : (Plan.select s.index s.state item source group payload).outcome = .ok p) :
    s.Carried (select run item source group payload s) p :=
  carried_of_plan hrun hidle hplan

/-- If the plan that selects an item cannot be made, nothing happens. -/
theorem select_faulted (hidle : s.announcing = false) {fault : Fault ν}
    (hplan : (Plan.select s.index s.state item source group payload).outcome = .error fault) :
    (select run item source group payload s).session = s ∧
      (select run item source group payload s).deliveries = [] ∧
      (select run item source group payload s).outcome = .error fault :=
  faulted_of_plan hidle hplan

/-- What is put into the state, carried out. -/
theorem carried_of_puts (hrun : ∀ c, (run c).LeavesBuild) (hidle : s.announcing = false)
    {others : List (Selection ν)} {x : Selection ν}
    (h : Plan.Puts s.index s.state item source group payload others x) :
    ∃ change reason, change.state = { s.state with selections := others ++ [x] } ∧
      s.Carried (select run item source group payload s) (.commit change reason) := by
  obtain ⟨reason, hplan⟩ := Plan.select_of_puts h
  exact ⟨_, reason, rfl, select_carried hrun hidle hplan⟩

/-- A plan that takes selections away at most passes the check. -/
theorem answered_of_onlyRemoves {t : Turn ν κ (Result ν)} {p : Plan ν}
    (hclean : s.state.violations s.index = .ok []) (hp : Plan.OnlyRemoves s.state p)
    (hc : s.Carried t p) : (∃ result, t.outcome = .ok result) ∨
      ∃ fault, t.outcome = .error fault ∧ ∃ d ∈ t.deliveries, d.outcome = .error fault := by
  cases hc with
  | kept _ _ ho => exact Or.inl ⟨_, ho⟩
  | made _ _ ho => exact Or.inl ⟨_, ho⟩
  | broken _ _ ho hd => exact Or.inr ⟨_, ho, hd⟩
  | barred _ _ _ hbar =>
      exact absurd hbar (not_barred (Build.violations_of_sublist hclean hp.1 hp.2))

theorem select_turnout (hrun : ∀ c, (run c).LeavesBuild) (hidle : s.announcing = false)
    (hclean : s.state.violations s.index = .ok [])
    (hgroup : group = .null ∨ ∃ id, group = .text id) :
    s.SelectTurnout item source group payload (select run item source group payload s) := by
  rcases Plan.select_cases s.index s.state item source payload hgroup with
    ⟨p, hplan, hremoves⟩ | ⟨others, x, hputs⟩ | ⟨fault, kept, hplan, hpay⟩
  · rcases answered_of_onlyRemoves hclean hremoves (select_carried hrun hidle hplan) with
      ⟨result, ho⟩ | ⟨fault, ho, hd⟩
    · exact .answered ho
    · exact .broken hd ho
  · obtain ⟨change, reason, hstate, hc⟩ := carried_of_puts hrun hidle hputs
    cases hc with
    | made _ _ ho => exact .answered ho
    | broken _ _ ho hd => exact .broken hd ho
    | barred hs _ ho hbar =>
        have hcheck := violations_of_puts hclean hgroup hputs
        obtain ⟨hchecks, hfailed⟩ := hbar
        rw [hstate, hcheck] at hfailed
        split at hfailed
        · rename_i hclash
          rcases hfailed with hfault | ⟨_, hfault, _⟩
          · cases hfault
            exact .clashed hputs hclash hs ho
          · cases hfault
        · rename_i hclash
          rcases hfailed with hfault | ⟨problems, hfault, hne, rfl⟩
          · cases hfault
          · obtain rfl := Except.ok.inj hfault
            exact .overfull hchecks hputs (by simpa using hclash) hne hs ho
  · obtain ⟨hs, _, ho⟩ := select_faulted hidle hplan
    exact .malformed hs hpay ho

/-- The check finds violations exactly if what is put into the state overfills something. -/
theorem violated_iff_overfills (hrun : ∀ c, (run c).LeavesBuild) (hidle : s.announcing = false)
    (hclean : s.state.violations s.index = .ok [])
    (hgroup : group = .null ∨ ∃ id, group = .text id) (problems : List (Violation ν)) :
    let t := select run item source group payload s
    (t.outcome = .error (.violated problems) ∧ t.deliveries = []) ↔
      s.config.checksState = true ∧ problems ≠ [] ∧ ∃ others x,
        Plan.Puts s.index s.state item source group payload others x ∧
        Build.clashes others x = false ∧ Build.overfills s.index others x = problems := by
  intro t
  have hturnout : s.SelectTurnout item source group payload t :=
    select_turnout hrun hidle hclean hgroup
  refine ⟨fun ⟨ho, hd⟩ => ?_, ?_⟩
  · cases hturnout with
    | answered ho' =>
        rw [ho] at ho'
        cases ho'
    | malformed _ hpay ho' =>
        rw [ho] at ho'
        obtain rfl := Except.error.inj ho'
        exact absurd hpay (Plan.noViolation_pay _ _ _ problems)
    | clashed _ _ _ ho' =>
        rw [ho] at ho'
        cases ho'
    | broken hd' =>
        obtain ⟨d, hmem, _⟩ := hd'
        rw [hd] at hmem
        cases hmem
    | overfull hchecks hputs hclash hover _ ho' =>
        rw [ho] at ho'
        cases ho'
        exact ⟨hchecks, hover, _, _, hputs, hclash, rfl⟩
  · rintro ⟨hchecks, hne, others, x, hputs, hclash, rfl⟩
    have hcheck := violations_of_puts hclean hgroup hputs
    rw [if_neg (by simp [hclash])] at hcheck
    obtain ⟨change, reason, hstate, hc⟩ := carried_of_puts hrun hidle hputs
    rw [← hstate] at hcheck
    cases hc with
    | made hpass _ _ => exact absurd (Except.ok.inj (hcheck.symm.trans (hpass hchecks))) hne
    | broken hpass _ _ _ => exact absurd (Except.ok.inj (hcheck.symm.trans (hpass hchecks))) hne
    | barred _ hd ho hbar =>
        obtain ⟨_, hfailed⟩ := hbar
        rw [hcheck] at hfailed
        rcases hfailed with hfault | ⟨problems, hfault, _, rfl⟩
        · cases hfault
        · obtain rfl := Except.ok.inj hfault
          exact ⟨ho, hd⟩

/-- **Selecting an item is answered, or its payload is malformed, but for what the request counts
differently from the check.** In a state without violations, a request to select an item ends in a
fault of the check exactly if it makes a selection with which, counted by the name of the source,
its group holds more than the catalog allows, or which has more options than the catalog allows;
and the fault lists just these two. So there is no such fault if all selections that count under
that name were made from the given source, and the item allows no more options than the catalog. -/
theorem select_overfull_iff (hrun : ∀ c, (run c).LeavesBuild) (hidle : s.announcing = false)
    (hclean : s.state.violations s.index = .ok [])
    (hgroup : group = .null ∨ ∃ id, group = .text id) :
    let t := select run item source group payload s
    s.SelectTurnout item source group payload t ∧
    (∀ problems, (t.outcome = .error (.violated problems) ∧ t.deliveries = []) ↔
      s.config.checksState = true ∧ problems ≠ [] ∧ ∃ others x,
        Plan.Puts s.index s.state item source group payload others x ∧
        Build.clashes others x = false ∧ Build.overfills s.index others x = problems) ∧
    ((∀ y ∈ s.state.selections, y.locked = false → y.source.name = source.name →
        y.source = source) →
      (∀ i limit, s.index.item? item.id = some i → i.optionLimit = some limit →
        ∃ allowed, item.optionLimit = some allowed ∧ allowed ≤ limit) →
      ∀ problems, ¬ (t.outcome = .error (.violated problems) ∧ t.deliveries = [])) := by
  intro t
  refine ⟨select_turnout hrun hidle hclean hgroup, violated_iff_overfills hrun hidle hclean hgroup,
    fun hkeys hlimits problems hviolated => ?_⟩
  obtain ⟨_, hne, others, x, hputs, _, hover⟩ :=
    (violated_iff_overfills hrun hidle hclean hgroup problems).mp hviolated
  exact hne (hover ▸ hputs.fresh.overfills_eq_nil hkeys hlimits)

/-- The only choice of a source of the small catalog. -/
def plainChoice : Choice := ⟨"g", "g", ["x", "y"], some 1, "ability"⟩

theorem groupNamed_plainSource {index : Index Double} {name : Text} {level : Int}
    (h : (name, plainSource name level) ∈ index.catalog.sources.entries) :
    index.groupNamed name (.text "g") = .ok (some (.ofChoice name level plainChoice)) := by
  rw [index.groupNamed_of_single h rfl]
  rfl

/-- A choice of one item is made from a pillar of the build. Asked for from another kind of source
of that name, the other item is not refused: the group is found empty, and then reported as
overfull. -/
theorem select_overfull_iff_sharedGroups :
    let x : Selection Double := { id := "x", source := ⟨"A", .primary⟩, group := .text "g" }
    let s : Session Double (Guided.Call Double) :=
      { Guided.sharedStart {} with state := { selections := [x] } }
    (select Guided.Call.runInside (plainItem "y") ⟨"A", .independent⟩ (.text "g") .null s).outcome
      = .error (.violated [.groupOverfull "g" "A" 2 1]) := by
  intro x s
  let y : Selection Double := { id := "y", source := ⟨"A", .independent⟩, group := .text "g" }
  have hgroup : (Value.text "g" : Value Double) = .null ∨
      ∃ id, (Value.text "g" : Value Double) = .text id := Or.inr ⟨"g", rfl⟩
  have hclean : s.state.violations s.index = .ok [] := by
    obtain ⟨problems, hproblems, hnil⟩ := except_eq_ok_of_any (p := List.isEmpty)
      (x := s.state.violations s.index) (by decide +kernel)
    rw [hproblems, List.isEmpty_iff.mp hnil]
  have hnamed : s.index.groupNamed "A" (.text "g") = .ok (some (.ofChoice "A" 1 plainChoice)) :=
    groupNamed_plainSource (List.mem_cons_self ..)
  have hfor : (Plan.groupFor s.index (plainItem "y") y.source y.group).outcome
      = .ok (some (.ofChoice "A" 1 plainChoice), y.group) :=
    have hresolved : (Rules.resolveGroup s.index (plainItem "y") y.source y.group).outcome
        = .ok (some (.ofChoice "A" 1 plainChoice)) := Rules.resolveGroup_of_named hnamed
    Traced.outcome_bind_eq_ok.mpr ⟨_, hresolved, rfl⟩
  have hputs : Plan.Puts s.index s.state (plainItem "y") y.source y.group .null [x] y :=
    ⟨rfl, ⟨_, hfor, rfl⟩, _, rfl⟩
  have hover : Build.overfills s.index [x] y = [.groupOverfull "g" "A" 2 1] := by
    unfold Build.overfills
    have hfull : 1 ≤ [x].countP (Build.countsIn y.source.name "g") := by decide
    rw [Build.groupOverfull?_of_full (x := y) rfl (Except.ok.inj hnamed) rfl hfull]
    rfl
  exact (((select_overfull_iff Guided.Call.runInside_leavesBuild rfl hclean hgroup).2.1 _).mpr
    ⟨rfl, by simp, _, _, hputs, rfl, hover⟩).1

end Session

end CharacterBuild
