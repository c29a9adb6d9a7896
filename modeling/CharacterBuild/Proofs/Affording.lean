import CharacterBuild.Proofs.Created
import CharacterBuild.Proofs.Purchases

set_option autoImplicit false

/-! # The next selection of a build

If the selections of a build that was created are made again one by one, nothing but its cost can
keep the next one out (`Build.Created.fits_next`): it is in none of the groups before its time, it
finds room there since the whole list does, and it is not selected yet. Whether it can be paid for
behind the selections before it is `Rules.affordsAfter`, which is asked of a list from the front by
`Rules.affordsInOrder`.
-/

namespace CharacterBuild

variable {ν : Type} [Number ν]

/-! ## Paying in order -/

namespace Rules

/-- Whether the rules find that the item of a selection can be paid for behind other selections. -/
def affordsAfter (index : Index ν) (before : List (Selection ν)) (x : Selection ν) : Bool :=
  match index.item? x.id with
  | some item =>
    let verdict := resolveGroup index item x.source x.group >>= fun g =>
      costVerdict index { selections := before } g item
    verdict.outcome.toOption.any Verdict.isEnabled
  | none => false

/-- Whether each selection of a list can be paid for behind those that stand before it. -/
def affordsInOrder (index : Index ν) : (before rest : List (Selection ν)) → Bool
  | _, [] => true
  | before, x :: rest => affordsAfter index before x && affordsInOrder index (before ++ [x]) rest

variable {index : Index ν} {state : Build ν} {item : Item ν} {source : SourceId}
  {group : Value ν} {g : Option (Group ν)}

theorem affordsAfter_iff {before : List (Selection ν)} {x : Selection ν}
    (hitem : index.item? x.id = some item)
    (hg : (resolveGroup index item x.source x.group).outcome = .ok g) :
    affordsAfter index before x = true ↔
      (costVerdict index { selections := before } g item).outcome = .ok .enabled := by
  unfold affordsAfter
  rw [hitem]
  dsimp only
  rw [Traced.outcome_bind_of_ok hg]
  exact ⟨eq_enabled_of_any, fun h => by rw [h]; rfl⟩

/-- What an item costs does not depend on more than the selections. -/
theorem costVerdict_congr {state' : Build ν} (h : state'.selections = state.selections) :
    costVerdict index state' g item = costVerdict index state g item := by
  unfold costVerdict payable Build.isSelected
  rw [h]

/-- Whether a group, or none, takes no points for its items. -/
def isFree : Option (Group ν) → Bool
  | none => true
  | some g =>
    match g.kind with
    | .choice _ => true
    | .pointBuy _ group => group.effect = .earn

/-- In a group that takes no points there is nothing to pay. -/
theorem costVerdict_of_isFree (hfree : isFree g = true) :
    (costVerdict index state g item).outcome = .ok .enabled := by
  cases g with
  | none => rfl
  | some g =>
      unfold costVerdict
      dsimp only
      split
      · rfl
      · unfold isFree at hfree
        unfold payable
        cases hkind : g.kind with
        | choice choice => rfl
        | pointBuy unlock group =>
            dsimp only at hfree ⊢
            rw [hkind] at hfree
            rw [of_decide_eq_true hfree]
            rfl

/-- **Selections in groups that take no points can be paid for in any order.** -/
theorem affordsInOrder_of_isFree {rest : List (Selection ν)}
    (hfree : ∀ x ∈ rest, ∃ item g, index.item? x.id = some item ∧
      (resolveGroup index item x.source x.group).outcome = .ok g ∧ isFree g = true)
    (before : List (Selection ν)) : affordsInOrder index before rest = true := by
  induction rest generalizing before with
  | nil => rfl
  | cons x rest ih =>
      obtain ⟨item, g, hitem, hg, hnothing⟩ := hfree x (by simp)
      have hfirst : affordsAfter index before x = true :=
        (affordsAfter_iff hitem hg).mpr (costVerdict_of_isFree hnothing)
      have hrest := ih (fun y hy => hfree y (by simp [hy])) (before ++ [x])
      rw [affordsInOrder, hfirst, hrest]
      rfl

/-- For an item that is not turned down otherwise, the verdict is that on its cost. -/
theorem judge_of_fits (hg : (resolveGroup index item source group).outcome = .ok g)
    (hfits : turnsDown index state item source g = false) :
    (judge index state item source group).outcome = (costVerdict index state g item).outcome := by
  have henabled : ∀ v : Verdict ν, v.isEnabled = true → v = .enabled := by
    intro v hv
    cases v with
    | enabled => rfl
    | disabled reason => cases hv
  simp only [turnsDown, List.any_cons, List.any_nil, Bool.or_false, Bool.or_eq_false_iff,
    Bool.not_eq_false'] at hfits
  obtain ⟨howner, hmember, hroom, hlevel⟩ := hfits
  unfold judge
  rw [henabled _ howner]
  dsimp only
  rw [Traced.outcome_bind_of_ok hg, henabled _ hmember, henabled _ hroom, henabled _ hlevel]
  dsimp only [Verdict.andThen]
  rw [Traced.outcome_bind]
  cases (costVerdict index state g item).outcome with
  | error fault => rfl
  | ok verdict => cases verdict <;> rfl

end Rules

/-- **In a group with room to spare nothing has to go**: not even in an exclusive one, which has no
members then. -/
theorem Plan.makeRoom_of_spare {state : Build ν} {item : Item ν} {source : SourceId} {g : Group ν}
    (hlisted : g.items.contains item.id = true)
    (hreached : ¬ state.targetLevel < (g.level : Level ν))
    (hsettled : state.isSettled g.level = false)
    (hspare : ∀ limit, g.limit = some limit → (state.membersOf source g.id).length < limit) :
    (makeRoom state item source g).outcome = .ok (.ok state.selections) := by
  unfold makeRoom
  rw [if_neg (by simpa using hlisted), if_neg hreached, hsettled, if_neg (by simp)]
  cases hlimit : g.limit with
  | none => rfl
  | some limit =>
      have hroom := hspare limit hlimit
      dsimp only
      split
      · rename_i hexclusive
        have hone : limit = 1 := by simpa [Group.isExclusive, hlimit] using hexclusive
        have hnone : state.membersOf source g.id = [] := List.length_eq_zero_iff.mp (by omega)
        have hstay : state.selections.filter (fun y => !y.isIn source g.id)
            = state.selections := by
          refine List.filter_eq_self.mpr fun y hy => ?_
          have hout := List.filter_eq_nil_iff.mp hnone y hy
          simpa using hout
        rw [hnone]
        show Except.ok (Except.ok _) = _
        rw [hstay]
      · rw [if_neg (Nat.not_le.mpr hroom)]
        rfl

/-! ## The next selection of a list -/

namespace Build.Created

variable {index : Index ν} {config : Config} {s state : Build ν} {before rest : List (Selection ν)}
  {x : Selection ν} {item : Item ν} {g : Option (Group ν)}

/-- With only a part of its selections, the state passes the check like the build itself. -/
theorem passes_part (h : s.Created index config) (hne : s ≠ Build.initial config)
    (hsub : state.selections.Sublist s.selections) (htarget : state.targetLevel = s.targetLevel) :
    config.checksState = true → state.violations index = .ok [] :=
  fun hchecks => violations_of_sublist (h.passes hne hchecks) hsub htarget

/-- The item of a selection holds it as it stands in its group. -/
theorem held (h : s.Created index config) (hx : x ∈ s.selections) :
    ∃ item g, index.item? x.id = some item ∧ item.Holds x ∧
      (Plan.groupFor index item x.source x.group).outcome = .ok (g, x.group) := by
  obtain ⟨item, g, hitem, hfor⟩ := h.placed x hx
  obtain ⟨item', hitem', hholds⟩ := (h.steady.selections x hx (h.unlocked x hx)).held
  rw [hitem] at hitem'
  obtain rfl := Option.some.inj hitem'
  exact ⟨item, g, hitem, hholds, hfor⟩

/-- An item is not selected by those before it. -/
theorem new_of_append (h : s.Created index config) (hs : s.selections = before ++ x :: rest) :
    ∀ y ∈ before, y.id ≠ x.id := by
  intro y hy hid
  have hdistinct := h.distinct
  rw [hs, List.map_append, List.nodup_append] at hdistinct
  exact hdistinct.2.2 y.id (List.mem_map_of_mem hy) x.id (by simp) hid

/-- Before a selection there is room for it in its group. -/
theorem spare_of_append (h : s.Created index config) (hs : s.selections = before ++ x :: rest)
    {g : Group ν} {limit : Nat}
    (hfor : (Plan.groupFor index item x.source x.group).outcome = .ok (some g, x.group))
    (hlimit : g.limit = some limit) :
    (before.filter (Selection.isIn x.source g.id)).length < limit := by
  obtain ⟨id, hid, hfound⟩ := index.groupNamed_eq_ok_some (Plan.groupNamed_of_groupFor hfor).1
  obtain ⟨_, rfl⟩ := index.mem_of_groupOf? hfound
  have hin : x.isIn x.source g.id = true := by simp [Selection.isIn, hid]
  have hfits := h.groups x.source g.id g limit hfound hlimit
  rw [membersOf, hs, List.filter_append, List.length_append, List.filter_cons_of_pos hin,
    List.length_cons] at hfits
  omega

/-- **Nothing but its cost keeps the next selection of a list out**, and nothing has to make room
for it. -/
theorem fits_next (h : s.Created index config) (hs : s.selections = before ++ x :: rest)
    (hstate : state = { targetLevel := s.targetLevel, selections := before })
    (hitem : index.item? x.id = some item)
    (hfor : (Plan.groupFor index item x.source x.group).outcome = .ok (g, x.group)) :
    state.selection? item.id none = none ∧
      Rules.turnsDown index state item x.source g = false ∧
      (Plan.roomFor state item x.source g).outcome = .ok (.ok before) := by
  have hid := index.id_of_item? hitem
  have hx : x ∈ s.selections := by rw [hs]; simp
  have hnew : state.selection? item.id none = none := by
    rw [hstate, hid]
    refine List.find?_eq_none.mpr fun y hy => ?_
    simpa [Selection.isOf] using h.new_of_append hs y hy
  refine ⟨hnew, ?_⟩
  cases g with
  | none =>
      refine ⟨Rules.turnsDown_none hnew, ?_⟩
      rw [hstate]
      rfl
  | some g =>
      have hnamed := (Plan.groupNamed_of_groupFor hfor).1
      have hwell := h.steady.selections x hx (h.unlocked x hx)
      have hlisted : g.items.contains item.id = true := by
        rw [hid]
        exact List.elem_eq_true_of_mem (hwell.listed g hnamed)
      have hreached : ¬ state.targetLevel < (g.level : Level ν) := by
        obtain ⟨n, hn⟩ := h.whole
        have hopen := hwell.reached g hnamed
        rw [hn, Level.whole_le_whole] at hopen
        rw [hstate]
        dsimp only
        rw [hn, Level.whole_lt_whole]
        omega
      have hsettled : state.isSettled g.level = false := by
        rw [hstate]
        rfl
      have hspare : ∀ limit, g.limit = some limit →
          (state.membersOf x.source g.id).length < limit := by
        intro limit hlimit
        rw [hstate]
        exact h.spare_of_append hs hfor hlimit
      constructor
      · rw [Rules.turnsDown_some hnew, hlisted, hsettled, decide_eq_false hreached]
        cases hlimit : g.limit with
        | none => rfl
        | some limit => simp [Nat.not_le.mpr (hspare limit hlimit)]
      · show (Plan.makeRoom state item x.source g).outcome = _
        rw [Plan.makeRoom_of_spare hlisted hreached hsettled hspare, hstate]

end Build.Created

end CharacterBuild
