import CharacterBuild.Proofs.Affording
import CharacterBuild.Proofs.PuttingBack

set_option autoImplicit false

/-! # What is charged for an item

Selecting an item in an exclusive group of a pool takes its price off the pool and gives back what
the member has cost that it replaces. The rules look at the pool as it is before either. So they
turn the item down for its cost exactly if the pool would be left with less than is given back
(`Charge.disabled_iff`). Only if nothing is given back, this means with a debt
(`Session.cost_disables_iff`); else an item can be turned down that the exchange would pay for
(`Session.disabled_though_replaced`).
-/

namespace CharacterBuild

/-! ## An item that is selected once -/

section

variable {ν : Type} [Number ν] {index : Index ν} {state : Build ν} {item : Item ν}
  {source : SourceId} {group : Value ν} {g : Group ν}

/-- The selection of an item, once, in a group. -/
def Item.once (item : Item ν) (source : SourceId) (g : Group ν) : Selection ν :=
  { id := item.id, source := source, group := .text g.id, quantity := some 1 }

/-- The payload that asks for an item once. -/
def Value.askOnce : Value ν := .object [("quantity", .whole 1)]

/-- What is selected once an item is put into a group in exchange for the member, if the group is
exclusive. -/
def Build.exchanged (s : Build ν) (item : Item ν) (source : SourceId) (g : Group ν) :
    List (Selection ν) :=
  s.selections.filter (Group.spares source (some g)) ++ [item.once source g]

omit [Number ν] in
/-- The id that is kept of a group is its own. -/
theorem Plan.groupFor_of_some (h : (Rules.resolveGroup index item source group).outcome
    = .ok (some g)) : (groupFor index item source group).outcome = .ok (some g, .text g.id) := by
  obtain ⟨kept, hfor⟩ := groupFor_of_resolveGroup h
  obtain ⟨id, rfl, hg⟩ := index.groupNamed_eq_ok_some (groupNamed_of_groupFor hfor).1
  obtain ⟨_, rfl⟩ := index.mem_of_groupOf? hg
  exact hfor

/-- Of an item that the other rules let pass, only a settled member may keep the group. -/
theorem Plan.refusal?_of_fits (hnew : state.selection? item.id none = none)
    (hfits : Rules.turnsDown index state item source (some g) = false) :
    refusal? state item source g
      = if state.holdsSettledMember source (some g) then some .settled else none := by
  rw [Rules.turnsDown_some hnew] at hfits
  simp only [Bool.or_eq_false_iff, Bool.not_eq_false', decide_eq_false_iff_not] at hfits
  obtain ⟨⟨hlisted, hroom⟩, hreached, hopen⟩ := hfits
  unfold refusal? Build.holdsSettledMember
  rw [hlisted, hopen, if_neg (by simp), if_neg hreached, if_neg (by simp)]
  cases hlimit : g.limit with
  | none => simp [Group.isExclusive, hlimit]
  | some limit =>
      rw [hlimit] at hroom
      cases hexclusive : g.isExclusive with
      | true => simp [hexclusive]
      | false =>
          have hspare : ¬ limit ≤ (state.membersOf source g.id).length := by
            simpa [hexclusive] using hroom
          simp [hexclusive, hspare]

theorem Plan.pay_askOnce (item : Item ν) (source : SourceId) (g : Group ν) :
    (pay item (Value.askOnce.orElse (.object []))
      { id := item.id, source := source, group := .text g.id }).outcome
      = .ok (item.once source g, none) := by
  have hsaid : (item.once source g).IsSaidBy [("quantity", .whole 1)] :=
    ⟨by simp [payloadNames], rfl, rfl, Or.inr ⟨rfl, rfl⟩⟩
  have hheld : item.Holds (item.once source g) := by
    refine ⟨(holds_new item source (.text g.id)).options, ?_, ?_⟩
    · rintro n ⟨⟩
      exact Int.le_refl 1
    · rintro _ n ⟨⟩
      exact Int.le_refl 1
  unfold Value.askOnce
  rw [orElse_object]
  have hpaid := pay_said hsaid hheld rfl rfl
  exact hpaid

/-- **The plan that selects an item once**: unless a settled member keeps the group, the item is put
behind all selections that the group spares. -/
theorem Plan.select_askOnce (hnew : state.selection? item.id none = none)
    (hg : (Rules.resolveGroup index item source group).outcome = .ok (some g))
    (hfits : Rules.turnsDown index state item source (some g) = false) :
    (select index state item source group .askOnce).outcome
      = .ok (if state.holdsSettledMember source (some g) then refuse .settled
        else selections state (state.exchanged item source g)
          (.selected item.id source.name (.text g.id)) none) := by
  let pick : Pick ν := ⟨item, source, group, .askOnce⟩
  have hplaced : pick.Placed index (some g) (.text g.id) :=
    ⟨hg, groupFor_of_some hg, Or.inr ⟨g.id, rfl⟩⟩
  have hpaid : pick.paid (.text g.id) = .ok (item.once source g, none) := pay_askOnce item source g
  have hplan : (select index state item source group .askOnce).outcome = _ :=
    pick.outcome_select hnew hplaced
  rw [hplan, hpaid, Option.bind_some, refusal?_of_fits hnew hfits]
  by_cases hsettled : state.holdsSettledMember source (some g) = true
  · rw [if_pos hsettled, if_pos hsettled]
  · rw [if_neg hsettled, if_neg hsettled]
    rfl

/-- What the rules say to an item, if nothing but its cost is against it. -/
theorem Rules.judge_eq_payable (hnew : state.selection? item.id none = none)
    (hg : (resolveGroup index item source group).outcome = .ok (some g))
    (hfits : turnsDown index state item source (some g) = false) :
    (judge index state item source group).outcome = (payable index state item g).outcome := by
  have hselected : state.isSelected item.id = false := by
    simpa [Build.isSelected] using Build.selection?_none hnew
  rw [judge_of_fits hg hfits]
  unfold costVerdict
  dsimp only
  rw [hselected, if_neg (by simp)]

/-- Whether an item can be paid for out of a pool is told by the balance and the cost. -/
theorem Rules.payable_eq_ok_iff {unlock : PointBuy ν} {spending : PointGroup ν}
    (hkind : g.kind = .pointBuy unlock spending) (hspend : spending.effect = .spend) :
    (∃ verdict, (payable index state item g).outcome = .ok verdict) ↔
      (∃ before,
        (Balance.ofSelections index.catalog unlock state.selections).outcome = .ok before) ∧
      ∃ cost, item.cost spending.costProperty = .ok cost := by
  unfold payable
  rw [hkind]
  dsimp only
  rw [hspend]
  constructor
  · rintro ⟨verdict, h⟩
    obtain ⟨before, hbefore, h⟩ := Traced.outcome_bind_eq_ok.mp h
    obtain ⟨cost, hcost, _⟩ := Traced.outcome_bind_eq_ok.mp h
    exact ⟨⟨before, hbefore⟩, cost, hcost⟩
  · rintro ⟨⟨before, hbefore⟩, cost, hcost⟩
    dsimp only
    rw [Traced.outcome_bind_of_ok hbefore]
    have hlift : (Traced.lift (item.cost spending.costProperty)).outcome = .ok cost := hcost
    rw [Traced.outcome_bind_of_ok hlift]
    split
    · exact ⟨_, rfl⟩
    · exact ⟨_, rfl⟩

end

/-! ## Prices -/

variable {index : Index ℚ} {catalog : Catalog ℚ} {state : Build ℚ} {item : Item ℚ}
  {source : SourceId} {group : Value ℚ} {g : Group ℚ} {unlock : PointBuy ℚ}
  {spending : PointGroup ℚ}

/-- Whether items have a cost in a property depends on the property alone. -/
theorem Item.cost_congr {property : Value ℚ} {cost : Amount ℚ} (h : item.cost property = .ok cost)
    (other : Item ℚ) : ∃ cost', other.cost property = .ok cost' := by
  unfold Item.cost at h ⊢
  split at h
  · rename_i hweight
    rw [if_pos hweight]
    exact ⟨_, rfl⟩
  · rename_i hweight
    rw [if_neg hweight]
    obtain ⟨key, hkey, _⟩ := except_bind_eq_ok.mp h
    rw [hkey]
    cases key <;> exact ⟨_, rfl⟩

/-- **What an item costs can be told exactly if the balance with it can be told.** -/
theorem told_iff (source : SourceId) (hitem : index.item? item.id = some item)
    (hgroup : unlock.group? (.text g.id) = some spending) :
    ((∃ before, (Balance.ofSelections index.catalog unlock state.selections).outcome = .ok before) ∧
        ∃ cost, item.cost spending.costProperty = .ok cost) ↔
      ∃ after, (Balance.ofSelections index.catalog unlock
        (state.exchanged item source g)).outcome = .ok after := by
  rw [Balance.ofSelections_eq_ok_iff, Balance.ofSelections_eq_ok_iff]
  constructor
  · rintro ⟨hprices, cost, hcost⟩ x hx
    rcases List.mem_append.mp hx with hx | hx
    · exact hprices x (List.mem_of_mem_filter hx)
    · obtain rfl := List.mem_singleton.mp hx
      intro group item' hfound hitem'
      obtain rfl := Option.some.inj (hgroup.symm.trans hfound)
      exact item.cost_congr hcost item'
  · intro hprices
    obtain ⟨cost, hcost⟩ : ∃ cost, item.cost spending.costProperty = .ok cost :=
      hprices (item.once source g) (by simp [Build.exchanged]) spending item hgroup hitem
    refine ⟨fun x hx => ?_, cost, hcost⟩
    by_cases hspared : Group.spares source (some g) x = true
    · exact hprices x (List.mem_append_left _ (List.mem_filter.mpr ⟨hx, hspared⟩))
    · -- what is replaced is in the group of the item, and so has its cost in the same property
      simp only [Group.spares, Option.any_some, Selection.isIn, Bool.not_eq_true',
        Bool.not_eq_false, Bool.and_eq_true, Value.isText_iff] at hspared
      intro group item' hfound _
      rw [hspared.2.2] at hfound
      obtain rfl := Option.some.inj (hgroup.symm.trans hfound)
      exact item.cost_congr hcost item'

/-- With the exchange, the pool has what the replaced member has cost, less the price of the
item. -/
theorem sum_gain_exchanged (hgroup : unlock.group? (.text g.id) = some spending)
    (hspend : spending.effect = .spend) :
    ((state.exchanged item source g).map (unlock.gain catalog)).sum
      = (state.selections.map (unlock.gain catalog)).sum + g.refund unlock catalog state source
        - unlock.price catalog (item.once source g) := by
  let kept := state.selections.filter (Group.spares source (some g))
  have hkept : (kept.map (unlock.gain catalog)).sum
      = (state.selections.map (unlock.gain catalog)).sum
        + g.refund unlock catalog state source := sum_gain_spared hgroup hspend source
  have hgain : unlock.gain catalog (item.once source g)
      = -unlock.price catalog (item.once source g) := by
    rw [PointBuy.gain_of_spend hgroup hspend]
    norm_num [Item.once, Selection.count]
  calc ((state.exchanged item source g).map (unlock.gain catalog)).sum
      = (kept.map (unlock.gain catalog)).sum + unlock.gain catalog (item.once source g) := by
        show ((kept ++ [item.once source g]).map (unlock.gain catalog)).sum = _
        rw [List.map_append, List.sum_append, List.map_singleton, List.sum_singleton]
    _ = (state.selections.map (unlock.gain catalog)).sum + g.refund unlock catalog state source
          - unlock.price catalog (item.once source g) := by
        rw [hkept, hgain, sub_eq_add_neg]

/-! ## Charges -/

/-- **What is charged for an item**: what selecting it once does to a pool, if something is given
back for it, and what the rules say to that. -/
structure Charge (before after : Balance ℚ) (price refund : ℚ) (verdict : Verdict ℚ) : Prop where
  paid : after.current.toRat = before.current.toRat + refund - price
  /-- The pool is asked for the price before anything is given back. -/
  verdict : (verdict = .enabled ∧ price ≤ before.current.toRat) ∨
    ∃ cost, verdict = .disabled (.unaffordable cost before.name before.current) ∧
      cost.toRat = price ∧ before.current.toRat < price

namespace Charge

variable {before after : Balance ℚ} {price refund : ℚ} {verdict : Verdict ℚ}

/-- **An item is turned down exactly if less would be left than is given back.** -/
theorem disabled_iff (h : Charge before after price refund verdict) :
    verdict.isEnabled = false ↔ after.current.toRat < refund := by
  rw [h.paid]
  constructor
  · intro hdisabled
    rcases h.verdict with ⟨rfl, _⟩ | ⟨cost, _, _, hless⟩
    · cases hdisabled
    · linarith
  · intro hless
    rcases h.verdict with ⟨_, hle⟩ | ⟨cost, rfl, _⟩
    · linarith
    · rfl

end Charge

/-- Where the rules come to a verdict on the cost of an item, this is what is charged for it. -/
theorem Charge.of_payable (source : SourceId) {verdict : Verdict ℚ}
    (hitem : index.item? item.id = some item)
    (hkind : g.kind = .pointBuy unlock spending) (hspend : spending.effect = .spend)
    (hgroup : unlock.group? (.text g.id) = some spending)
    (h : (Rules.payable index state item g).outcome = .ok verdict) :
    ∃ before after,
      (Balance.ofSelections index.catalog unlock state.selections).outcome = .ok before ∧
      (Balance.ofSelections index.catalog unlock
        (state.exchanged item source g)).outcome = .ok after ∧
      Charge before after (unlock.price index.catalog (item.once source g))
        (g.refund unlock index.catalog state source) verdict := by
  unfold Rules.payable at h
  rw [hkind] at h
  dsimp only at h
  rw [hspend] at h
  obtain ⟨before, hbefore, h⟩ := Traced.outcome_bind_eq_ok.mp h
  obtain ⟨cost, hcost, h⟩ := Traced.outcome_bind_eq_ok.mp h
  obtain ⟨after, hafter⟩ := (told_iff source hitem hgroup).mp
    ⟨⟨before, hbefore⟩, cost, hcost⟩
  have hprice : unlock.price index.catalog (item.once source g) = cost.toRat :=
    PointBuy.price_of_cost hgroup hitem hcost
  refine ⟨before, after, hbefore, hafter, ?_, ?_⟩
  · rw [Balance.current_of_ofSelections hafter, Balance.current_of_ofSelections hbefore,
      sum_gain_exchanged hgroup hspend]
    ring
  · rw [hprice]
    by_cases hless : before.current < cost
    · rw [if_pos hless] at h
      refine Or.inr ⟨cost, (Except.ok.inj h).symm, rfl, ?_⟩
      exact (Amount.lt_iff_toRat _ _).mp hless
    · rw [if_neg hless] at h
      refine Or.inl ⟨(Except.ok.inj h).symm, ?_⟩
      rw [Amount.lt_iff_toRat] at hless
      exact not_lt.mp hless

/-- Without a member that is replaced, nothing is given back. -/
theorem Group.refund_eq_zero
    (h : g.isExclusive = true → state.membersOf source g.id = []) :
    g.refund unlock catalog state source = 0 := by
  unfold refund
  cases hexclusive : g.isExclusive with
  | false => rfl
  | true => simp [h hexclusive]

namespace Session

variable {κ : Type} {run : κ → Action ℚ κ (Answer ℚ)} {s : Session ℚ κ}

/-- **When an item is turned down for its cost.** An item of the catalog that is not selected is
offered in a spending group of a pool, and no other rule is against it. Selecting it once puts it
behind all that the group spares, unless a settled member keeps the group. The rules come to a
verdict exactly if the balance can be told that this leaves. They turn the item down exactly if
the pool then has less than is given back for the member that is replaced, so if none is, exactly if
it has less than nothing. -/
theorem cost_disables_iff (hrun : ∀ c, (run c).LeavesBuild) (hidle : s.announcing = false)
    (hitem : s.index.item? item.id = some item) (hnew : s.state.selection? item.id none = none)
    (hg : (Rules.resolveGroup s.index item source group).outcome = .ok (some g))
    (hkind : g.kind = .pointBuy unlock spending) (hspend : spending.effect = .spend)
    (hfits : Rules.turnsDown s.index s.state item source (some g) = false) :
    let judged := (Rules.judge s.index s.state item source group).outcome
    let exchanged := s.state.exchanged item source g
    let balance := fun selections =>
      (Balance.ofSelections s.index.catalog unlock selections).outcome
    let refund := g.refund unlock s.index.catalog s.state source
    s.Carried (select run item source group .askOnce s)
        (if s.state.holdsSettledMember source (some g) then Plan.refuse .settled
        else Plan.selections s.state exchanged (.selected item.id source.name (.text g.id)) none) ∧
      ((∃ verdict, judged = .ok verdict) ↔ ∃ after, balance exchanged = .ok after) ∧
      (∀ verdict, judged = .ok verdict → ∃ before after,
        balance s.state.selections = .ok before ∧ balance exchanged = .ok after ∧
        Charge before after (unlock.price s.index.catalog (item.once source g)) refund verdict ∧
        (verdict.isEnabled = false ↔ after.current.toRat < refund)) ∧
      ((g.isExclusive = true → s.state.membersOf source g.id = []) → refund = 0) := by
  intro judged exchanged balance refund
  have hnamed := (Plan.groupNamed_of_groupFor (Plan.groupFor_of_some hg)).1
  obtain ⟨hgroup, _⟩ := Index.group?_of_groupNamed hnamed hkind
  have hjudged : judged = (Rules.payable s.index s.state item g).outcome :=
    Rules.judge_eq_payable hnew hg hfits
  refine ⟨?_, ?_, ?_, Group.refund_eq_zero⟩
  · exact select_carried hrun hidle (Plan.select_askOnce hnew hg hfits)
  · show _ ↔ ∃ after, (Balance.ofSelections s.index.catalog unlock
      (s.state.exchanged item source g)).outcome = .ok after
    rw [hjudged, ← told_iff source hitem hgroup]
    exact Rules.payable_eq_ok_iff hkind hspend
  · intro verdict hverdict
    rw [hjudged] at hverdict
    obtain ⟨before, after, hbefore, hafter, hcharge⟩ :=
      Charge.of_payable source hitem hkind hspend hgroup hverdict
    exact ⟨before, after, hbefore, hafter, hcharge, hcharge.disabled_iff⟩

/-- An item that costs two points. -/
def rival (id : Text) : Item ℚ := { (pricedItem id : Item ℚ) with weight := 2 }

/-- A pool of three points that are spent on one of two items, or on a third one. -/
def rivalPoints : PointBuy ℚ where
  id := "pool"
  name := "Pool"
  pool := ⟨"points", "Points", 3⟩
  groups := [⟨"one", "one", ["x", "y"], .spend, .null, some 1⟩,
    ⟨"any", "any", ["z"], .spend, .null, none⟩]

/-- A source with this pool. -/
def rivalSource : Source ℚ :=
  { (pointSource "P" : Source ℚ) with tiers := [⟨1, [.pointBuy rivalPoints]⟩] }

/-- The source and the three items. -/
def rivals : Catalog ℚ :=
  ((Catalog.addSource {} rivalSource).addItem (rival "x") |>.addItem (rival "y")).addItem
    (rival "z")

/-- A new build from it. -/
def rivalStart : Session ℚ (Guided.Call ℚ) where
  index := { catalog := rivals }
  config := {}
  state := { targetLevel := .whole 1 }

/-- The group in which one of the two items replaces the other. -/
def rivalGroup : Group ℚ :=
  .ofPointGroup "P" 1 rivalPoints ⟨"one", "one", ["x", "y"], .spend, .null, some 1⟩

/-- The group of the third item, in which nothing is replaced. -/
def openGroup : Group ℚ :=
  .ofPointGroup "P" 1 rivalPoints ⟨"any", "any", ["z"], .spend, .null, none⟩

theorem groupNamed_rivals : rivalStart.index.groupNamed "P" (.text "one") = .ok (some rivalGroup) ∧
    rivalStart.index.groupNamed "P" (.text "any") = .ok (some openGroup) := by
  have hmem : (("P" : Text), rivalSource) ∈ rivalStart.index.catalog.sources.entries :=
    List.mem_singleton.mpr rfl
  constructor
  · rw [rivalStart.index.groupNamed_of_single hmem rfl]
    rfl
  · rw [rivalStart.index.groupNamed_of_single hmem rfl]
    rfl

/-- The item `x` is selected, and one point is left. The items `y` and `z` cost two, so both are
turned down. With `y` instead of `x` less is left than is given back; with `z` there is a debt. -/
theorem cost_disables_iff_rivals :
    let s := Guided.after rivalStart [.select (.named "x") (.named "P") (.text "one") .null]
    let balance := fun selections =>
      (Balance.ofSelections s.index.catalog rivalPoints selections).outcome
    let key : SourceId := ⟨"P", .primary⟩
    (∃ b, balance (s.state.exchanged (rival "y") key rivalGroup) = .ok b ∧
        b.current.toRat < rivalGroup.refund rivalPoints s.index.catalog s.state key) ∧
      ∃ b, balance (s.state.exchanged (rival "z") key openGroup) = .ok b ∧ b.current.toRat < 0 := by
  intro s balance key
  have hstart : (Guided.newBuild rivals {}).outcome = .ok rivalStart := rfl
  have hmeets := Guided.idle_after hstart
    [.select (.named "x") (.named "P") (.text "one") .null]
  have hindex : s.index = rivalStart.index := hmeets.index
  have hidle : s.announcing = false := hmeets.idle
  obtain ⟨hone, hany⟩ := groupNamed_rivals
  rw [← hindex] at hone hany
  constructor
  · have hfits : Rules.turnsDown s.index s.state (rival "y") key (some rivalGroup) = false := by
      decide +kernel
    have hitem : s.index.item? (rival "y").id = some (rival "y") := by
      rw [hindex]
      rfl
    have hnew : s.state.selection? (rival "y").id none = none :=
      Option.isNone_iff_eq_none.mp (by decide +kernel)
    obtain ⟨_, _, hcharge, _⟩ := cost_disables_iff Guided.Call.runInside_leavesBuild hidle
      hitem hnew (Rules.resolveGroup_of_named hone) rfl rfl hfits
    obtain ⟨verdict, hverdict, hdisabled⟩ := except_eq_ok_of_any (p := fun v => !v.isEnabled)
      (x := (Rules.judge s.index s.state (rival "y") key (.text "one")).outcome)
      (by decide +kernel)
    obtain ⟨_, after, _, hafter, _, hiff⟩ := hcharge verdict hverdict
    exact ⟨after, hafter, hiff.mp (by simpa using hdisabled)⟩
  · have hfits : Rules.turnsDown s.index s.state (rival "z") key (some openGroup) = false := by
      decide +kernel
    have hitem : s.index.item? (rival "z").id = some (rival "z") := by
      rw [hindex]
      rfl
    have hnew : s.state.selection? (rival "z").id none = none :=
      Option.isNone_iff_eq_none.mp (by decide +kernel)
    obtain ⟨_, _, hcharge, hrefund⟩ := cost_disables_iff Guided.Call.runInside_leavesBuild hidle
      hitem hnew (Rules.resolveGroup_of_named hany) rfl rfl hfits
    obtain ⟨verdict, hverdict, hdisabled⟩ := except_eq_ok_of_any (p := fun v => !v.isEnabled)
      (x := (Rules.judge s.index s.state (rival "z") key (.text "any")).outcome)
      (by decide +kernel)
    obtain ⟨_, after, _, hafter, _, hiff⟩ := hcharge verdict hverdict
    rw [hrefund (by decide)] at hiff
    exact ⟨after, hafter, hiff.mp (by simpa using hdisabled)⟩

/-- **An item can be turned down for its cost although the pool could pay for it**, once the member
is gone that it replaces: `y` is asked for in the group of `x`, when one point is left and it costs
two. Selected instead of `x`, it leaves this point. -/
theorem disabled_though_replaced :
    let s := Guided.after rivalStart [.select (.named "x") (.named "P") (.text "one") .null]
    let key : SourceId := ⟨"P", .primary⟩
    let t := select Guided.Call.runInside (rival "y") key (.text "one") .askOnce s
    s.state.violations s.index = .ok [] ∧
      s.index.item? "y" = some (rival "y") ∧ s.state.selection? "y" none = none ∧
      (Rules.resolveGroup s.index (rival "y") key (.text "one")).outcome = .ok (some rivalGroup) ∧
      Rules.turnsDown s.index s.state (rival "y") key (some rivalGroup) = false ∧
      (∃ cost name current, (Rules.judge s.index s.state (rival "y") key (.text "one")).outcome
        = .ok (.disabled (.unaffordable cost name current))) ∧
      t.outcome = .ok ⟨true, none⟩ ∧
      ∃ b, (Guided.balanceOf t.session rivalPoints).outcome = .ok b ∧ b.current.toRat = 1 := by
  intro s key t
  have hstart : (Guided.newBuild rivals {}).outcome = .ok rivalStart := rfl
  have hindex : s.index = rivalStart.index := (Guided.idle_after hstart _).index
  have hclean : s.state.violations s.index = .ok [] := except_eq_ok_nil (by decide +kernel)
  have hnew : s.state.selection? "y" none = none := Option.isNone_iff_eq_none.mp (by decide +kernel)
  have hg : (Rules.resolveGroup s.index (rival "y") key (.text "one")).outcome
      = .ok (some rivalGroup) := by
    rw [hindex]
    exact Rules.resolveGroup_of_named groupNamed_rivals.1
  have hdisabled : ∃ cost name current,
      (Rules.judge s.index s.state (rival "y") key (.text "one")).outcome
        = .ok (.disabled (.unaffordable cost name current)) := by
    let forCost : Verdict ℚ → Bool
      | .disabled (.unaffordable _ _ _) => true
      | _ => false
    obtain ⟨verdict, hverdict, hcost⟩ := except_eq_ok_of_any (p := forCost)
      (x := (Rules.judge s.index s.state (rival "y") key (.text "one")).outcome)
      (by decide +kernel)
    rw [hverdict]
    match verdict, hcost with
    | .disabled (.unaffordable cost name current), _ => exact ⟨cost, name, current, rfl⟩
  have haccepted : t.outcome = .ok ⟨true, none⟩ := Turn.outcome_of_any (by decide +kernel)
  obtain ⟨b, hb, hcurrent⟩ := except_eq_ok_of_any (p := fun b => decide (b.current.toRat = 1))
    (x := (Guided.balanceOf t.session rivalPoints).outcome) (by decide +kernel)
  exact ⟨hclean, by rw [hindex]; rfl, hnew, hg, by decide +kernel, hdisabled, haccepted, b, hb,
    of_decide_eq_true hcurrent⟩

end Session

end CharacterBuild
