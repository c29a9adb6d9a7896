import CharacterBuild.Proofs.Accepted
import CharacterBuild.Proofs.Balance
import CharacterBuild.Proofs.Pools
import Mathlib.Algebra.Order.BigOperators.Group.List
import Mathlib.Tactic.Linarith
import Mathlib.Tactic.Ring

set_option autoImplicit false

/-! # Purchases

An item in a group that spends is paid for out of a pool. The rules let it be selected, or held
more often, if the pool has its price for one piece. How many pieces are taken is said by the
payload of the call, or by the update, and nobody asks for their price again. So a purchase of one
piece never takes more than the pool has, and one of several pieces does so exactly if they cost
more than what is there and what the members give back that make room for the item
(`Guided.purchase_accepted`).

What is given back is never a debt, since whatever is not settled is held at least once
(`Guided.counted_after`). The numbers are exact ones here.
-/

namespace CharacterBuild

/-! ## How often selections are held -/

section

variable {ν : Type} [Number ν] {index : Index ν} {config : Config}

/-- What is not settled is held at least once. -/
def Build.Counted (s : Build ν) : Prop := ∀ x ∈ s.selections, x.locked = false → 1 ≤ x.count

omit [Number ν] in
theorem Selection.one_le_count {x : Selection ν} (h : ∀ n, x.quantity = some n → 1 ≤ n) :
    1 ≤ x.count := by
  unfold count
  cases hq : x.quantity with
  | none => exact Int.le_refl 1
  | some n => exact h n hq

/-- What is put anywhere is held at least once, and is never held less than that. -/
theorem Build.Counted.lasting : Selection.Lasting index fun x => 1 ≤ x.count where
  put := fun _ hheld _ _ => Selection.one_le_count hheld.positive
  revise := by
    intro x y hx _ hcount
    rcases hcount with hsame | hpositive
    · unfold Selection.count at hx ⊢
      rw [hsame]
      exact hx
    · exact Selection.one_le_count hpositive

namespace Guided

/-- The contract of sessions in which what is not settled is held at least once. -/
def countedStates (index : Index ν) (config : Config) : Contract ν where
  index := index
  config := config
  holds := fun s _ => s.Counted

/-- **Whatever is called**, what is not settled is held at least once. -/
theorem counted_after {catalog : Catalog ν} {s₀ : Session ν (Call ν)}
    (hs₀ : (newBuild catalog config).outcome = .ok s₀) (calls : List (Call ν)) :
    (countedStates s₀.index config).Meets (after s₀ calls) :=
  lasting_after Build.Counted.lasting hs₀ calls

end Guided

end

/-! ## What the pool pays -/

/-- What a purchase of some pieces does to a pool, if something is given back for it. -/
structure Purchase (before after : Balance ℚ) (price refund : ℚ) (pieces : Int) : Prop where
  /-- One piece could be paid for. -/
  affordable : price ≤ before.current.toRat
  /-- All pieces are paid for. -/
  paid : after.current.toRat = before.current.toRat + refund - pieces * price
  solvent_iff : 0 ≤ after.current.toRat ↔ pieces * price ≤ before.current.toRat + refund
  solvent_of_single : pieces ≤ 1 → 0 ≤ after.current.toRat

theorem Purchase.of_paid {before after : Balance ℚ} {price refund : ℚ} {pieces : Int}
    (hprice : 0 ≤ price) (hrefund : 0 ≤ refund) (haffordable : price ≤ before.current.toRat)
    (hpaid : after.current.toRat = before.current.toRat + refund - pieces * price) :
    Purchase before after price refund pieces where
  affordable := haffordable
  paid := hpaid
  solvent_iff := by
    rw [hpaid]
    exact sub_nonneg
  solvent_of_single := fun hsingle => by
    have hpieces : (pieces : ℚ) * price ≤ 1 * price :=
      mul_le_mul_of_nonneg_right (by exact_mod_cast hsingle) hprice
    rw [hpaid]
    linarith

variable {index : Index ℚ} {catalog : Catalog ℚ} {state : Build ℚ} {source : SourceId}
  {g : Group ℚ} {unlock : PointBuy ℚ} {spending : PointGroup ℚ} {x y : Selection ℚ}

/-- What the members of a group have cost that make room for another item. -/
def Group.refund (g : Group ℚ) (unlock : PointBuy ℚ) (catalog : Catalog ℚ) (state : Build ℚ)
    (source : SourceId) : ℚ :=
  if g.isExclusive then
    ((state.membersOf source g.id).map fun x => x.count * unlock.price catalog x).sum
  else 0

/-- A group of a pool that is named is found under that name and under its own id. -/
theorem Index.group?_of_groupNamed {group : Value ℚ}
    (h : index.groupNamed source.name group = .ok (some g))
    (hkind : g.kind = .pointBuy unlock spending) :
    unlock.group? group = some spending ∧ unlock.group? (.text g.id) = some spending := by
  obtain ⟨id, rfl, hg⟩ := index.groupNamed_eq_ok_some h
  have hmembers := index.group?_of_groupOf? hg hkind
  refine ⟨?_, hmembers⟩
  rw [← (index.mem_of_groupOf? hg).2]
  exact hmembers

theorem PointBuy.gain_of_spend (hgroup : unlock.group? x.group = some spending)
    (hspend : spending.effect = .spend) :
    unlock.gain catalog x = -(x.count * unlock.price catalog x) := by
  rw [gain_of_group hgroup, hspend]

theorem PointBuy.price_congr (hid : y.id = x.id) (hgroup : y.group = x.group) :
    unlock.price catalog y = unlock.price catalog x := by
  unfold price
  rw [hid, hgroup]

theorem PointBuy.Prices.congr (h : unlock.Prices catalog x) (hid : y.id = x.id)
    (hgroup : y.group = x.group) : unlock.Prices catalog y := by
  unfold Prices
  rw [hid, hgroup]
  exact h

/-- What the members of a spending group have cost is what the pool lacks for them. -/
theorem sum_gain_members (hgroup : unlock.group? (.text g.id) = some spending)
    (hspend : spending.effect = .spend) (source : SourceId) :
    ((state.membersOf source g.id).map (unlock.gain catalog)).sum
      = -((state.membersOf source g.id).map fun x => x.count * unlock.price catalog x).sum := by
  have hgain : (state.membersOf source g.id).map (unlock.gain catalog)
      = ((state.membersOf source g.id).map fun x => x.count * unlock.price catalog x).map
          fun a => -a := by
    rw [List.map_map]
    refine List.map_congr_left fun x hx => ?_
    have hin := (List.mem_filter.mp hx).2
    simp only [Selection.isIn, Bool.and_eq_true, Value.isText_iff] at hin
    exact PointBuy.gain_of_spend (by rw [hin.2]; exact hgroup) hspend
  rw [hgain, List.sum_neg]

/-- Without the members of an exclusive group, the pool has what they have cost. -/
theorem sum_gain_spared (hgroup : unlock.group? (.text g.id) = some spending)
    (hspend : spending.effect = .spend) (source : SourceId) :
    ((state.selections.filter fun x => !(g.isExclusive && x.isIn source g.id)).map
        (unlock.gain catalog)).sum
      = (state.selections.map (unlock.gain catalog)).sum
        + g.refund unlock catalog state source := by
  unfold Group.refund
  cases hexclusive : g.isExclusive with
  | false => simp
  | true =>
      simp only [Bool.true_and, if_true]
      -- members and others make up all selections
      have hsplit := ((List.filter_append_perm (Selection.isIn source g.id) state.selections).map
        (unlock.gain catalog)).sum_eq
      rw [List.map_append, List.sum_append] at hsplit
      have hmembers : ((state.selections.filter (Selection.isIn source g.id)).map
          (unlock.gain catalog)).sum = _ := sum_gain_members hgroup hspend source
      rw [hmembers] at hsplit
      linarith

/-- What makes room for an item gives back what it has cost. -/
theorem Build.Room.sum_gain {item : Item ℚ} {others : List (Selection ℚ)}
    (h : state.Room item source (some g) others)
    (hgroup : unlock.group? (.text g.id) = some spending) (hspend : spending.effect = .spend) :
    (others.map (unlock.gain catalog)).sum = (state.selections.map (unlock.gain catalog)).sum
      + g.refund unlock catalog state source := by
  rw [← sum_gain_spared hgroup hspend source]
  rcases h.exclusive_or with ⟨hexclusive, rfl⟩ | ⟨hexclusive, rfl, _⟩ <;> simp [hexclusive]

theorem Build.Room.refund_nonneg {item : Item ℚ} {others : List (Selection ℚ)}
    (h : state.Room item source (some g) others) (hcosts : catalog.CostsNonneg)
    (hcounted : state.Counted) : 0 ≤ g.refund unlock catalog state source := by
  unfold Group.refund
  rcases h.exclusive_or with ⟨hexclusive, _⟩ | ⟨hexclusive, _, hopen⟩
  · simp [hexclusive]
  · rw [if_pos hexclusive]
    refine List.sum_nonneg fun a ha => ?_
    obtain ⟨y, hy, rfl⟩ := List.mem_map.mp ha
    have hcount := hcounted y (List.mem_filter.mp hy).1 (hopen y hy)
    have hcount : (0 : ℚ) ≤ y.count := by exact_mod_cast (by omega : 0 ≤ y.count)
    exact mul_nonneg hcount (unlock.price_nonneg hcosts y)

/-- What can be paid for has a price, and the pool has it. -/
theorem Rules.price_le_of_payable {item : Item ℚ} (hkind : g.kind = .pointBuy unlock spending)
    (hspend : spending.effect = .spend) (hitem : index.item? x.id = some item)
    (hin : unlock.group? x.group = some spending)
    (h : (payable index state item g).outcome = .ok .enabled) :
    unlock.Prices index.catalog x ∧ ∃ before,
      (Balance.ofSelections index.catalog unlock state.selections).outcome = .ok before ∧
      unlock.price index.catalog x ≤ before.current.toRat := by
  obtain ⟨before, cost, hbefore, hcost, hafford⟩ := affordable_of_payable hkind hspend h
  refine ⟨fun group item' hgroup hitem' => ?_, before, hbefore, ?_⟩
  · rw [hin] at hgroup
    obtain rfl := Option.some.inj hgroup
    obtain rfl := Option.some.inj (hitem.symm.trans hitem')
    exact ⟨cost, hcost⟩
  · rw [PointBuy.price_of_cost hin hitem hcost]
    rw [Amount.lt_iff_toRat] at hafford
    exact not_lt.mp hafford

/-- A change of the selections is a purchase if it changes what they gain like one. -/
theorem purchase_of_sum {selections selections' : List (Selection ℚ)} {before : Balance ℚ}
    {price refund : ℚ} {pieces : Int} (hprice : 0 ≤ price) (hrefund : 0 ≤ refund)
    (hbefore : (Balance.ofSelections catalog unlock selections).outcome = .ok before)
    (hafford : price ≤ before.current.toRat) (hprices : ∀ y ∈ selections', unlock.Prices catalog y)
    (hsum : (selections'.map (unlock.gain catalog)).sum
      = (selections.map (unlock.gain catalog)).sum + refund - pieces * price) :
    ∃ after, (Balance.ofSelections catalog unlock selections').outcome = .ok after ∧
      Purchase before after price refund pieces := by
  obtain ⟨after, hafter⟩ := (Balance.ofSelections_eq_ok_iff _ _ _).mpr hprices
  refine ⟨after, hafter, .of_paid hprice hrefund hafford ?_⟩
  rw [Balance.current_of_ofSelections hafter, Balance.current_of_ofSelections hbefore, hsum]
  ring

/-- Putting an item into a spending group. -/
theorem purchase_put {item : Item ℚ} {others : List (Selection ℚ)} {before : Balance ℚ}
    (hcosts : index.catalog.CostsNonneg) (hcounted : state.Counted)
    (hroom : state.Room item source (some g) others) (hin : unlock.group? x.group = some spending)
    (hmembers : unlock.group? (.text g.id) = some spending) (hspend : spending.effect = .spend)
    (hbefore : (Balance.ofSelections index.catalog unlock state.selections).outcome = .ok before)
    (hx : unlock.Prices index.catalog x)
    (hafford : unlock.price index.catalog x ≤ before.current.toRat) :
    ∃ after,
      (Balance.ofSelections index.catalog unlock (others ++ [x])).outcome = .ok after ∧
      Purchase before after (unlock.price index.catalog x)
        (g.refund unlock index.catalog state source) x.count := by
  have hstay := (Balance.ofSelections_eq_ok_iff _ _ _).mp ⟨before, hbefore⟩
  refine purchase_of_sum (unlock.price_nonneg hcosts x) (hroom.refund_nonneg hcosts hcounted)
    hbefore hafford (fun y hy => ?_) ?_
  · rcases hroom.mem_or_eq hy with hy | rfl
    · exact hstay y hy
    · exact hx
  · rw [List.map_append, List.sum_append, hroom.sum_gain hmembers hspend, List.map_singleton,
      List.sum_singleton, PointBuy.gain_of_spend hin hspend]
    ring

/-- Holding more of an item in a spending group. -/
theorem purchase_revise {front back : List (Selection ℚ)} {before : Balance ℚ}
    (hcosts : index.catalog.CostsNonneg) (hs : state.selections = front ++ x :: back)
    (hplace : x.SamePlace y) (hin : unlock.group? x.group = some spending)
    (hspend : spending.effect = .spend)
    (hbefore : (Balance.ofSelections index.catalog unlock state.selections).outcome = .ok before)
    (hafford : unlock.price index.catalog x ≤ before.current.toRat) :
    ∃ after,
      (Balance.ofSelections index.catalog unlock (front ++ y :: back)).outcome = .ok after ∧
      Purchase before after (unlock.price index.catalog x) 0 (y.count - x.count) := by
  have hstay := (Balance.ofSelections_eq_ok_iff _ _ _).mp ⟨before, hbefore⟩
  have hy : unlock.group? y.group = some spending := by
    rw [hplace.group]
    exact hin
  refine purchase_of_sum (unlock.price_nonneg hcosts x) (le_refl 0) hbefore hafford
    (fun z hz => ?_) ?_
  · rcases eq_or_mem_of_changed hs hz with rfl | hz
    · exact (hstay x (by rw [hs]; simp)).congr hplace.id hplace.group
    · exact hstay z hz
  · rw [hs]
    simp only [List.map_append, List.map_cons, List.sum_append, List.sum_cons]
    rw [PointBuy.gain_of_spend hin hspend, PointBuy.gain_of_spend hy hspend,
      PointBuy.price_congr hplace.id hplace.group]
    push_cast
    ring

namespace Guided

variable {config : Config}

/-- A catalog of one source with a pool of three points, and an item that costs one. -/
def pointCatalog : Catalog ℚ :=
  (Catalog.addSource {} (pointSource "P")).addItem (pricedItem "x")

/-- A new build from this source. -/
def pointStart : Session ℚ (Call ℚ) where
  index := { catalog := pointCatalog }
  config := {}
  state := { targetLevel := .whole 1 }

/-- The group of the pool. -/
def pointsGroup : Group ℚ :=
  .ofPointGroup "P" 1 threePoints ⟨"g", "g", ["x"], .spend, .null, none⟩

theorem groupNamed_pointCatalog :
    pointStart.index.groupNamed "P" (.text "g") = .ok (some pointsGroup) := by
  have hmem : (("P" : Text), (pointSource "P" : Source ℚ)) ∈ pointCatalog.sources.entries :=
    List.mem_singleton.mpr rfl
  rw [pointStart.index.groupNamed_of_single hmem rfl]
  rfl

/-- What is computed from a value that was found. -/
theorem eq_of_map_eq {α β : Type} (f : α → β) {found : Option α} {a : α} {b : β}
    (h : found = some a) (hb : found.map f = some b) : f a = b := by
  subst h
  exact Option.some.inj hb

theorem current_of_balanceOf {s : Session ℚ (Call ℚ)} {b : Balance ℚ} {a : ℚ}
    (h : (balanceOf s unlock).outcome = .ok b)
    (ha : ((balanceOf s unlock).outcome.toOption.map fun b => b.current.toRat) = some a) :
    b.current.toRat = a :=
  eq_of_map_eq (fun b : Balance ℚ => b.current.toRat) (by rw [h]; rfl) ha

/-- **What an accepted purchase does to a pool.** An item of the catalog that is selected anew in
a spending group, or held more often there, has a price that the pool could pay once. All the
pieces that are bought are then taken off the pool, to which is added what the members have cost
that make room for the item. So the pool is not overspent if a single piece is bought, and in
general exactly if it can pay for all of them. -/
theorem purchase_accepted (hcosts : catalog.CostsNonneg) {s₀ : Session ℚ (Call ℚ)}
    (hs₀ : (newBuild catalog config).outcome = .ok s₀) (calls : List (Call ℚ))
    (hkind : g.kind = .pointBuy unlock spending) (hspend : spending.effect = .spend)
    {id : Text} {item : Item ℚ} (hitem : catalog.item? id = some item) (mention : SourceMention)
    (reason : Option (Reason ℚ)) :
    let s := after s₀ calls
    (mention.resolve s.index).outcome = .ok source →
    (∀ what group payload, (what.resolve s.index).outcome = .ok (.ok item) →
      s.state.selection? id none = none →
      (Rules.resolveGroup s.index item source group).outcome = .ok (some g) →
      let t := (Call.select what mention group payload).run s
      t.outcome = .ok (.result ⟨true, reason⟩) →
      ∃ x before after, t.session.state.selection? id none = some x ∧
        (balanceOf s unlock).outcome = .ok before ∧
        (balanceOf t.session unlock).outcome = .ok after ∧
        Purchase before after (unlock.price catalog x) (g.refund unlock catalog s.state source)
          x.count) ∧
    (∀ changes x y, s.state.selection? id (some source) = some x →
      s.index.groupNamed source.name x.group = .ok (some g) →
      let t := (Call.update id mention changes).run s
      t.outcome = .ok (.result ⟨true, reason⟩) →
      t.session.state.selection? id (some source) = some y → x.count < y.count →
      ∃ before after, (balanceOf s unlock).outcome = .ok before ∧
        (balanceOf t.session unlock).outcome = .ok after ∧
        Purchase before after (unlock.price catalog x) 0 (y.count - x.count)) := by
  intro s hkey
  have hstart := counted_after hs₀ calls
  have hcatalog : s.index.catalog = catalog := by
    rw [hstart.index]
    obtain rfl := Except.ok.inj hs₀
    rfl
  subst hcatalog
  have hitem : s.index.item? id = some item := hitem
  obtain rfl := s.index.id_of_item? hitem
  constructor
  · intro what group payload hwhat hnew hg t ht
    obtain ⟨hjudge, change, hplan, hindex, hstate⟩ := select_accepted hwhat hkey hnew ht
    obtain ⟨others, x, hroom, hput, hfound, hid, hgroup⟩ := Plan.put_of_select hnew hg hplan
    -- the new selection and the members that make room for it are in one group of the pool
    obtain ⟨hin, hmembers⟩ := Index.group?_of_groupNamed hgroup hkind
    obtain ⟨hx, before, hbefore, hafford⟩ := Rules.price_le_of_payable hkind hspend
      (hid ▸ hitem) hin (Rules.payable_of_judge hnew hg hjudge)
    obtain ⟨after, hafter, hpurchase⟩ := purchase_put hcosts hstart.holds hroom hin hmembers
      hspend hbefore hx hafford
    refine ⟨x, before, after, by rw [hstate, hfound], hbefore, ?_, hpurchase⟩
    unfold balanceOf
    rw [hindex, hstate, hput]
    exact hafter
  · intro changes x y hx hgroup t ht hy hmore
    obtain ⟨hadmits, change, hplan, hindex, hstate⟩ := update_accepted hkey ht
    rw [hstate] at hy
    obtain ⟨hplace, ⟨front, back, hs, hrevised⟩, hasked⟩ := Plan.revised_of_update hx hplan hy
    obtain ⟨n, hn, hless⟩ := hasked hmore
    have hjudge := judged_of_admitsUpdate hitem hx hn hless hadmits
    have hpoints : g.usesPoints = true := by
      unfold Group.usesPoints
      rw [hkind]
    obtain ⟨hin, _⟩ := Index.group?_of_groupNamed hgroup hkind
    obtain ⟨_, before, hbefore, hafford⟩ := Rules.price_le_of_payable hkind hspend
      (Build.selection?_id hx ▸ hitem) hin
      (Rules.payable_of_judgeQuantity hx hgroup hpoints hjudge)
    obtain ⟨after, hafter, hpurchase⟩ := purchase_revise hcosts hs hplace hin hspend hbefore
      hafford
    refine ⟨before, after, hbefore, ?_, hpurchase⟩
    unfold balanceOf
    rw [hindex, hstate, hrevised]
    exact hafter

/-- Five pieces that cost one point each are sold at once for a pool of three points, whether the
item is selected in that quantity, or first selected once and then updated. -/
theorem purchase_accepted_pointCatalog :
    let five : Value ℚ := .object [("quantity", .whole 5)]
    let s := after pointStart [.select (.named "x") (.named "P") (.text "g") .null]
    let t := (Call.select (.named "x") (.named "P") (.text "g") five).run pointStart
    let u := (Call.update "x" (.named "P") five).run s
    (∃ b, (balanceOf t.session threePoints).outcome = .ok b ∧ b.current.toRat < 0) ∧
      ∃ b, (balanceOf u.session threePoints).outcome = .ok b ∧ b.current.toRat < 0 := by
  intro five s t u
  have hcosts : pointCatalog.CostsNonneg := by decide +kernel
  have hstart : (newBuild pointCatalog {}).outcome = .ok pointStart := rfl
  have hitem : pointCatalog.item? "x" = some (pricedItem "x") := rfl
  constructor
  · obtain ⟨reason, ht⟩ := outcome_of_answersChanged (t := t) (by decide +kernel)
    have hkey : ((SourceMention.named "P").resolve pointStart.index).outcome
        = .ok ⟨"P", .primary⟩ := rfl
    obtain ⟨x, before, b, hx, hbefore, hb, hpurchase⟩ := (purchase_accepted (g := pointsGroup)
      hcosts hstart [] rfl rfl hitem (.named "P") reason hkey).1 (.named "x") (.text "g") five rfl
      rfl (Rules.resolveGroup_of_named groupNamed_pointCatalog) ht
    have hcount : x.count = 5 := eq_of_map_eq Selection.count hx (by decide +kernel)
    have hprice : threePoints.price pointCatalog x = 1 :=
      eq_of_map_eq (threePoints.price pointCatalog) hx (by decide +kernel)
    have hpool : before.current.toRat = 3 := current_of_balanceOf hbefore (by decide +kernel)
    refine ⟨b, hb, ?_⟩
    rw [hpurchase.paid, hcount, hprice, hpool, Group.refund, if_neg (by decide)]
    norm_num
  · obtain ⟨reason, hu⟩ := outcome_of_answersChanged (t := u) (by decide +kernel)
    have hindex : s.index = pointStart.index := (idle_after hstart _).index
    have hkey : ((SourceMention.named "P").resolve s.index).outcome = .ok ⟨"P", .primary⟩ := by
      rw [hindex]
      rfl
    obtain ⟨x, hx⟩ : ∃ x, s.state.selection? "x" (some ⟨"P", .primary⟩) = some x :=
      Option.isSome_iff_exists.mp (by decide +kernel)
    obtain ⟨y, hy⟩ : ∃ y, u.session.state.selection? "x" (some ⟨"P", .primary⟩) = some y :=
      Option.isSome_iff_exists.mp (by decide +kernel)
    have hone : x.count = 1 := eq_of_map_eq Selection.count hx (by decide +kernel)
    have hfive : y.count = 5 := eq_of_map_eq Selection.count hy (by decide +kernel)
    have hprice : threePoints.price pointCatalog x = 1 :=
      eq_of_map_eq (threePoints.price pointCatalog) hx (by decide +kernel)
    have hgroup : x.group = .text "g" := Value.isText_iff.mp
      (eq_of_map_eq (fun x : Selection ℚ => x.group.isText "g") hx (by decide +kernel))
    obtain ⟨before, b, hbefore, hb, hpurchase⟩ := (purchase_accepted (g := pointsGroup) hcosts
      hstart _ rfl rfl hitem (.named "P") reason hkey).2 five x y hx
      (by rw [hgroup, hindex]; exact groupNamed_pointCatalog) hu hy (by omega)
    have hpool : before.current.toRat = 2 := current_of_balanceOf hbefore (by decide +kernel)
    refine ⟨b, hb, ?_⟩
    rw [hpurchase.paid, hone, hfive, hprice, hpool]
    norm_num

end Guided

end CharacterBuild
