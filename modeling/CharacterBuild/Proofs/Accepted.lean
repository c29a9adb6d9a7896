import CharacterBuild.Proofs.Agreement

set_option autoImplicit false

/-! # What an accepted call has checked

A call that is answered with a change went all the way: the rules let it through, a plan was made
for a new state, and that state is in place. For selecting an item that is not selected, the new
state has the item behind all that stayed (`Guided.select_accepted`, `Plan.put_of_select`); for an
update that leaves the item selected, the selection of it is replaced (`Guided.update_accepted`,
`Plan.revised_of_update`), and if it is now held more often, the rules were asked for that
(`Guided.judged_of_admitsUpdate`).
-/

namespace CharacterBuild

variable {ν : Type} [Number ν]

/-! ## Steps that end in a value -/

section

variable {κ α β : Type} {s : Session ν κ} {b : β}

theorem Action.bind_eq_ok {x : Action ν κ α} {f : α → Action ν κ β}
    (h : ((x >>= f) s).outcome = .ok b) :
    ∃ a, (x s).outcome = .ok a ∧ (f a (x s).session).outcome = .ok b ∧
      ((x >>= f) s).session = (f a (x s).session).session := by
  cases ho : (x s).outcome with
  | ok a =>
      rw [Action.bind_of_ok ho] at h ⊢
      exact ⟨a, rfl, h, rfl⟩
  | error fault =>
      rw [Action.bind_of_error ho] at h
      cases h

/-- What does not touch the session leaves it to the next step. -/
theorem Action.lift_bind_eq_ok {x : Traced ν α} {f : α → Action ν κ β}
    (h : ((Action.lift x >>= f) s).outcome = .ok b) :
    ∃ a, x.outcome = .ok a ∧ (f a s).outcome = .ok b ∧
      ((Action.lift x >>= f) s).session = (f a s).session :=
  Action.bind_eq_ok h

theorem Guided.ask_bind_eq_ok {question : Session ν κ → Traced ν α} {f : α → Action ν κ β}
    (h : ((ask question >>= f) s).outcome = .ok b) :
    ∃ a, (question s).outcome = .ok a ∧ (f a s).outcome = .ok b ∧
      ((ask question >>= f) s).session = (f a s).session := by
  unfold ask at h ⊢
  rw [bind_assoc, Action.session_bind] at h ⊢
  exact Action.lift_bind_eq_ok h

end

theorem Value.orElse_self (v : Value ν) : v.orElse v = v := by
  unfold orElse
  split <;> rfl

variable {index : Index ν} {state : Build ν} {item : Item ν} {source : SourceId}
  {group payload changes : Value ν} {g : Group ν} {reason : Option (Reason ν)}
  {change : Change ν}

/-! ## The rules -/

namespace Rules

omit [Number ν] in
theorem resolveGroup_of_named (h : index.groupNamed source.name group = .ok (some g)) :
    (resolveGroup index item source group).outcome = .ok (some g) := by
  obtain ⟨id, rfl, _⟩ := index.groupNamed_eq_ok_some h
  exact index.group_outcome h

/-- An item that is enabled can be paid for. -/
theorem payable_of_judge (hnew : state.selection? item.id none = none)
    (hg : (resolveGroup index item source group).outcome = .ok (some g))
    (h : (judge index state item source group).outcome = .ok .enabled) :
    (payable index state item g).outcome = .ok .enabled := by
  have hselected : state.isSelected item.id = false := by
    simpa [Build.isSelected] using Build.selection?_none hnew
  obtain ⟨_, hcost⟩ := of_judge_enabled hnew hg h
  unfold costVerdict at hcost
  dsimp only at hcost
  rw [hselected] at hcost
  exact hcost

/-- A selected item of a point pool that may be held once more can be paid for. -/
theorem payable_of_judgeQuantity {x : Selection ν}
    (hx : state.selection? item.id (some source) = some x)
    (hgroup : index.groupNamed source.name x.group = .ok (some g)) (hpoints : g.usesPoints = true)
    (h : (judgeQuantity index state item source x.group).outcome = .ok .enabled) :
    (payable index state item g).outcome = .ok .enabled := by
  unfold judgeQuantity at h
  rw [hx] at h
  dsimp only at h
  split at h
  · cases h
  · split at h
    · cases h
    · rw [Value.orElse_self] at h
      obtain ⟨g', hg', h⟩ := Traced.outcome_bind_eq_ok.mp h
      rw [resolveGroup_of_named hgroup] at hg'
      obtain rfl := Except.ok.inj hg'
      rw [Option.filter_some, if_pos hpoints] at h
      exact h

/-- What can be paid for does not cost more than the pool has. -/
theorem affordable_of_payable {unlock : PointBuy ν} {spending : PointGroup ν}
    (hkind : g.kind = .pointBuy unlock spending) (hspend : spending.effect = .spend)
    (h : (payable index state item g).outcome = .ok .enabled) :
    ∃ balance cost,
      (Balance.ofSelections index.catalog unlock state.selections).outcome = .ok balance ∧
      item.cost spending.costProperty = .ok cost ∧ ¬ balance.current < cost := by
  unfold payable at h
  rw [hkind] at h
  dsimp only at h
  rw [hspend] at h
  obtain ⟨balance, hbalance, h⟩ := Traced.outcome_bind_eq_ok.mp h
  obtain ⟨cost, hcost, h⟩ := Traced.outcome_bind_eq_ok.mp h
  refine ⟨balance, cost, hbalance, hcost, fun hless => ?_⟩
  rw [if_pos hless] at h
  cases h

end Rules

/-! ## The plans -/

/-- What stays when an item is put into a group: an exclusive one is emptied, and no member of it
is settled. -/
theorem Build.Room.exclusive_or {others : List (Selection ν)}
    (h : state.Room item source (some g) others) :
    (g.isExclusive = false ∧ others = state.selections) ∨
    (g.isExclusive = true ∧
      others = (state.selections.filter fun y => !y.isIn source g.id) ∧
      ∀ y ∈ state.membersOf source g.id, y.locked = false) := by
  cases h with
  | free _ hl => exact Or.inl ⟨by simp [Group.isExclusive, hl], rfl⟩
  | @spare _ limit _ hl hroom =>
      by_cases hone : limit = 1
      · -- an exclusive group with room to spare has no members
        have hnone : state.membersOf source g.id = [] := List.length_eq_zero_iff.mp (by omega)
        refine Or.inr ⟨by simp [Group.isExclusive, hl, hone], ?_, by simp [hnone]⟩
        refine (List.filter_eq_self.mpr fun y hy => ?_).symm
        simpa using List.filter_eq_nil_iff.mp hnone y hy
      · exact Or.inl ⟨by simp [Group.isExclusive, hl, hone], rfl⟩
  | instead _ hl hopen => exact Or.inr ⟨by simp [Group.isExclusive, hl], rfl, hopen⟩

namespace Build

theorem selection?_source {id : Text} {x : Selection ν}
    (h : state.selection? id (some source) = some x) : x.source = source := by
  have hx := List.find?_some h
  simp only [Selection.isOf, Bool.and_eq_true, decide_eq_true_eq] at hx
  exact hx.2

/-- A selection that is replaced in its place is found there. -/
theorem selection?_modify {id : Text} {x y : Selection ν}
    (hx : state.selection? id (some source) = some x) (hplace : x.SamePlace y) :
    (state.modify id source fun _ => y).selection? id (some source) = some y := by
  have hy : y.isOf id (some source) = true := by
    simp [Selection.isOf, hplace.id, hplace.source, selection?_id hx, selection?_source hx]
  show (modify.go id source (fun _ => y) state.selections).find? _ = _
  unfold selection? at hx
  revert hx
  induction state.selections with
  | nil =>
      intro hx
      cases hx
  | cons z rest ih =>
      intro hx
      unfold modify.go
      cases hz : z.isOf id (some source) with
      | true => simp [hy]
      | false =>
          rw [List.find?_cons_of_neg (by simp [hz])] at hx
          simpa [hz] using ih hx

end Build

namespace Plan

/-- A selection that gets other options is found with them. -/
theorem SetsOptions.found {id : Text} {x : Selection ν} {options : List (Value ν)}
    {change : Change ν} (h : SetsOptions state id source options change)
    (hx : state.selection? id (some source) = some x) :
    change.state.selection? id (some source) = some { x with options := options } := by
  obtain ⟨before, after, hsplit, hmodify⟩ := Build.modify_of_selection? hx
  rw [h.state, hmodify, ← hmodify fun _ => { x with options := options }]
  exact Build.selection?_modify hx ⟨rfl, rfl, rfl, rfl⟩

/-- An item that is selected anew stands behind all that stays. -/
theorem put_of_select (hnew : state.selection? item.id none = none)
    (hg : (Rules.resolveGroup index item source group).outcome = .ok (some g))
    (h : (select index state item source group payload).outcome = .ok (.commit change reason)) :
    ∃ others x, state.Room item source (some g) others ∧
      change.state = { state with selections := others ++ [x] } ∧
      change.state.selection? item.id none = some x ∧ x.id = item.id ∧
      index.groupNamed source.name x.group = .ok (some g) := by
  obtain ⟨others, x, hputs, hselects⟩ := puts_of_commit hnew h
  obtain ⟨kept, hfor⟩ := groupFor_of_resolveGroup hg
  obtain ⟨g', hfor', hroom⟩ := hputs.room
  rw [hfor] at hfor'
  obtain ⟨rfl, _⟩ := Prod.mk.inj (Except.ok.inj hfor')
  refine ⟨others, x, room_of_roomFor hroom, hselects.state, ?_, hputs.fresh.place.1,
    (groupNamed_of_groupFor (hfor.trans hfor')).1⟩
  rw [hselects.state]
  exact hputs.found

omit [Number ν] in
theorem heldQuantity_le (item : Option (Item ν)) (asked : Int) :
    (heldQuantity item asked).1 ≤ asked := by
  unfold heldQuantity
  split
  · split
    · rename_i hmany
      simp only [Bool.and_eq_true, decide_eq_true_eq] at hmany
      omega
    · exact Int.le_refl asked
  · exact Int.le_refl asked

/-- An update that leaves the item selected replaces its selection; and it is held more often only
if a greater quantity was asked for. -/
theorem revised_of_update {id : Text} {x y : Selection ν}
    (hx : state.selection? id (some source) = some x)
    (h : update index state id source changes = .ok (.commit change reason))
    (hy : change.state.selection? id (some source) = some y) :
    x.SamePlace y ∧
      (∃ before after, state.selections = before ++ x :: after ∧
        change.state.selections = before ++ y :: after) ∧
      (x.count < y.count → ∃ n, askedQuantity changes = .ok (some n) ∧ x.count < n) := by
  have hid := Build.selection?_id hx
  have hsource := Build.selection?_source hx
  obtain ⟨x', hfinds, hremove | ⟨z, hrevises, hselects⟩⟩ := update_commits h
  all_goals obtain rfl : x = x' := Option.some.inj (hx.symm.trans hfinds.found)
  · -- a selection that is removed is not found
    rw [(remove_commits hremove).2.state] at hy
    have hmem := (List.mem_filter.mp (Build.mem_of_selection? hy)).2
    simp [Build.selection?_id hy, Build.selection?_source hy, hid, hsource] at hmem
  · -- what is found afterwards is what was put in place
    rw [hselects.state] at hy
    obtain rfl : z = y :=
      Option.some.inj ((Build.selection?_modify hx hrevises.place).symm.trans hy)
    obtain ⟨before, after, hs, hmodify⟩ := Build.modify_of_selection? hx
    refine ⟨hrevises.place, ⟨before, after, hs, ?_⟩, fun hmore => ?_⟩
    · rw [hselects.state]
      exact hmodify fun _ => z
    · cases hrevises.quantity with
      | kept _ hquantity => simp [Selection.count, hquantity] at hmore
      | @asked n hasked _ hquantity =>
          refine ⟨n, hasked, ?_⟩
          have hcount : z.count = (heldQuantity (index.item? id) n).1 := by
            rw [Selection.count, hquantity]
            rfl
          have hle := heldQuantity_le (index.item? id) n
          omega

end Plan

/-! ## The calls -/

namespace Guided

variable {s : Session ν (Call ν)} {mention : SourceMention} {id : Text}

/-- **An accepted select** of an item that is not selected has passed the rules and carries out
its plan. -/
theorem select_accepted {what : ItemMention ν}
    (hitem : (what.resolve s.index).outcome = .ok (.ok item))
    (hkey : (mention.resolve s.index).outcome = .ok source)
    (hnew : s.state.selection? item.id none = none)
    (h : ((Call.select what mention group payload).run s).outcome
      = .ok (.result ⟨true, reason⟩)) :
    (Rules.judge s.index s.state item source group).outcome = .ok .enabled ∧
    ∃ change, (Plan.select s.index s.state item source group payload).outcome
        = .ok (.commit change reason) ∧
      ((Call.select what mention group payload).run s).session.index = s.index ∧
      ((Call.select what mention group payload).run s).session.state = change.state := by
  have hrun : (Call.select what mention group payload).run s = (Answer.result <$>
      Guided.select Call.runInside what mention group payload) s := rfl
  rw [hrun, Action.map_apply] at h ⊢
  obtain ⟨result, h, hresult⟩ := except_map_eq_ok.mp h
  obtain rfl := Answer.result.inj hresult
  unfold Guided.select at h ⊢
  obtain ⟨found, hfound, h, hsession⟩ := ask_bind_eq_ok h
  rw [hitem] at hfound
  obtain rfl := Except.ok.inj hfound
  rw [hsession]
  dsimp only at h ⊢
  unfold withKey at h ⊢
  obtain ⟨key, hkey', h, hsession⟩ := ask_bind_eq_ok h
  rw [hkey] at hkey'
  obtain rfl := Except.ok.inj hkey'
  rw [hsession]
  dsimp only at h ⊢
  obtain ⟨verdict, hverdict, h, hsession⟩ := ask_bind_eq_ok h
  rw [hsession]
  cases verdict with
  | disabled reason =>
      obtain ⟨_, _, h, _⟩ := Action.lift_bind_eq_ok h
      cases h
  | enabled =>
      unfold admits at hverdict
      rw [hnew] at hverdict
      exact ⟨hverdict, Session.request_accepted Call.runInside_leavesBuild h⟩

/-- **An accepted update** has been let through by the rules and carries out its plan. -/
theorem update_accepted (hkey : (mention.resolve s.index).outcome = .ok source)
    (h : ((Call.update id mention changes).run s).outcome = .ok (.result ⟨true, reason⟩)) :
    (admitsUpdate s id source changes).outcome = .ok .enabled ∧
    ∃ change, Plan.update s.index s.state id source changes = .ok (.commit change reason) ∧
      ((Call.update id mention changes).run s).session.index = s.index ∧
      ((Call.update id mention changes).run s).session.state = change.state := by
  have hrun : (Call.update id mention changes).run s = (Answer.result <$>
      Guided.update Call.runInside id mention changes) s := rfl
  rw [hrun, Action.map_apply] at h ⊢
  obtain ⟨result, h, hresult⟩ := except_map_eq_ok.mp h
  obtain rfl := Answer.result.inj hresult
  unfold Guided.update at h ⊢
  obtain ⟨_, _, h, hsession⟩ := Action.lift_bind_eq_ok h
  rw [hsession]
  unfold withKey at h ⊢
  obtain ⟨key, hkey', h, hsession⟩ := ask_bind_eq_ok h
  rw [hkey] at hkey'
  obtain rfl := Except.ok.inj hkey'
  rw [hsession]
  obtain ⟨verdict, hverdict, h, hsession⟩ := ask_bind_eq_ok h
  rw [hsession]
  cases verdict with
  | disabled reason => cases h
  | enabled =>
      unfold Session.update at h ⊢
      obtain ⟨_, _, h, hsession⟩ := Action.lift_bind_eq_ok h
      rw [hsession]
      exact ⟨hverdict, Session.request_accepted Call.runInside_leavesBuild h⟩

/-- The rules are asked for an update that asks for more of an item. -/
theorem judged_of_admitsUpdate {x : Selection ν} {n : Int} (hitem : s.index.item? id = some item)
    (hx : s.state.selection? id (some source) = some x)
    (hasked : Plan.askedQuantity changes = .ok (some n)) (hmore : x.count < n)
    (h : (admitsUpdate s id source changes).outcome = .ok .enabled) :
    (Rules.judgeQuantity s.index s.state item source x.group).outcome = .ok .enabled := by
  obtain ⟨given, hgiven, hasked⟩ := except_bind_eq_ok.mp hasked
  obtain ⟨given', hgiven', h⟩ := Traced.outcome_bind_eq_ok.mp h
  rw [Traced.outcome_lift, hgiven] at hgiven'
  obtain rfl := Except.ok.inj hgiven'
  cases given with
  | false => cases hasked
  | true =>
      obtain ⟨v, hv, hasked⟩ := except_bind_eq_ok.mp hasked
      obtain ⟨m, hm, hmn⟩ := except_map_eq_ok.mp hasked
      obtain rfl := Option.some.inj hmn
      rw [if_pos rfl, hitem, hx] at h
      obtain ⟨asked, hasked', h⟩ := Traced.outcome_bind_eq_ok.mp h
      rw [Traced.outcome_lift, hv] at hasked'
      obtain rfl := Except.ok.inj (hm.symm.trans hasked')
      rw [if_pos hmore] at h
      exact h

end Guided

end CharacterBuild
