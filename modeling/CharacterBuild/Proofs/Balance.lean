import CharacterBuild.Proofs.Rational
import CharacterBuild.Points
import CharacterBuild.Proofs.Groups
import Mathlib.Algebra.BigOperators.Group.List.Basic

set_option autoImplicit false

/-! # Balances in exact numbers

With exact numbers the balance of a pool is what the pool starts with and the sum of what each
selection gains (`Balance.current_of_ofSelections`), and it can be told exactly if every selection
that counts has a cost (`Balance.ofSelections_eq_ok_iff`).
-/

namespace CharacterBuild

theorem Amount.sub?_eq_some (a b : Amount ℚ) :
    ∃ c, a.sub? b = some c ∧ c.toRat = a.toRat - b.toRat :=
  combine_eq_some (fun m n => Int.cast_sub m n) a b

/-! ## What a selection gains -/

/-- What one piece of a selection costs in a pool. -/
def PointBuy.price (unlock : PointBuy ℚ) (catalog : Catalog ℚ) (x : Selection ℚ) : ℚ :=
  match unlock.group? x.group, catalog.item? x.id with
  | some group, some item =>
    match item.cost group.costProperty with
    | .ok cost => cost.toRat
    | .error _ => 0
  | _, _ => 0

/-- What a selection adds to a pool: its price as often as it is held, taken off if its group
spends. -/
def PointBuy.gain (unlock : PointBuy ℚ) (catalog : Catalog ℚ) (x : Selection ℚ) : ℚ :=
  match (unlock.group? x.group).map PointGroup.effect with
  | some .earn => x.count * unlock.price catalog x
  | some .spend => -(x.count * unlock.price catalog x)
  | none => 0

/-- The item of a selection that a pool counts has a cost. -/
def PointBuy.Prices (unlock : PointBuy ℚ) (catalog : Catalog ℚ) (x : Selection ℚ) : Prop :=
  ∀ group item, unlock.group? x.group = some group → catalog.item? x.id = some item →
    ∃ cost, item.cost group.costProperty = .ok cost

/-- No item costs less than nothing. -/
def Catalog.CostsNonneg (catalog : Catalog ℚ) : Prop :=
  ∀ e ∈ catalog.items.entries, 0 ≤ e.2.weight ∧ ∀ p ∈ e.2.properties.entries, 0 ≤ p.2

instance (catalog : Catalog ℚ) : Decidable catalog.CostsNonneg :=
  inferInstanceAs (Decidable (∀ e ∈ catalog.items.entries,
    0 ≤ e.2.weight ∧ ∀ p ∈ e.2.properties.entries, 0 ≤ p.2))

variable {catalog : Catalog ℚ} {unlock : PointBuy ℚ} {x : Selection ℚ}

theorem PointBuy.price_of_cost {group : PointGroup ℚ} {item : Item ℚ} {cost : Amount ℚ}
    (hgroup : unlock.group? x.group = some group) (hitem : catalog.item? x.id = some item)
    (hcost : item.cost group.costProperty = .ok cost) : unlock.price catalog x = cost.toRat := by
  unfold price
  rw [hgroup, hitem]
  dsimp only
  rw [hcost]

theorem PointBuy.gain_of_group {group : PointGroup ℚ}
    (hgroup : unlock.group? x.group = some group) :
    unlock.gain catalog x = match group.effect with
      | .earn => x.count * unlock.price catalog x
      | .spend => -(x.count * unlock.price catalog x) := by
  unfold gain
  rw [hgroup, Option.map_some]
  cases group.effect <;> rfl

theorem Item.cost_nonneg {item : Item ℚ} {property : Value ℚ} {cost : Amount ℚ}
    (hweight : 0 ≤ item.weight) (hproperties : ∀ p ∈ item.properties.entries, 0 ≤ p.2)
    (h : item.cost property = .ok cost) : 0 ≤ cost.toRat := by
  unfold Item.cost at h
  split at h
  · rw [← Except.ok.inj h]
    exact hweight
  · obtain ⟨key, _, h⟩ := except_bind_eq_ok.mp h
    split at h
    · rename_i name _
      rw [← Except.ok.inj h]
      cases hfind : item.properties.find? name with
      | none => simp
      | some amount => exact hproperties _ (Directory.mem_of_find? hfind)
    · rw [← Except.ok.inj h]
      simp

theorem PointBuy.price_nonneg (h : catalog.CostsNonneg) (unlock : PointBuy ℚ)
    (x : Selection ℚ) : 0 ≤ unlock.price catalog x := by
  unfold price
  split
  · rename_i group item _ hitem
    split
    · rename_i cost hcost
      obtain ⟨hweight, hproperties⟩ := h _ (Directory.mem_of_find? hitem)
      exact Item.cost_nonneg hweight hproperties hcost
    · exact le_refl 0
  · exact le_refl 0

/-- A cost is taken as often as a selection is held. -/
theorem Selection.cost_eq_ok {item : Item ℚ} {property : Value ℚ} {cost : Amount ℚ}
    (h : item.cost property = .ok cost) :
    ∃ total, x.cost item property = .ok total ∧ total.toRat = x.count * cost.toRat := by
  obtain ⟨total, htotal, hvalue⟩ := Amount.mul?_eq_some (.whole x.count) cost
  refine ⟨total, ?_, hvalue⟩
  unfold Selection.cost
  rw [h]
  show Amount.orTooLarge (Amount.mul? (.whole x.count) cost) = _
  rw [htotal]
  rfl

namespace Balance

theorem afterSelection_of_prices (h : unlock.Prices catalog x) (current : Amount ℚ) :
    ∃ a, (afterSelection catalog unlock current x).outcome = .ok a ∧
      a.toRat = current.toRat + unlock.gain catalog x := by
  unfold afterSelection
  cases hgroup : unlock.group? x.group with
  | none => exact ⟨current, rfl, by simp [PointBuy.gain, hgroup]⟩
  | some group =>
      rw [PointBuy.gain_of_group hgroup]
      cases hitem : catalog.item? x.id with
      | none =>
          have hprice : unlock.price catalog x = 0 := by simp [PointBuy.price, hgroup, hitem]
          refine ⟨current, rfl, ?_⟩
          rw [hprice]
          cases group.effect <;> simp
      | some item =>
          obtain ⟨cost, hcost⟩ := h group item hgroup hitem
          obtain ⟨total, htotal, hvalue⟩ := Selection.cost_eq_ok (x := x) hcost
          rw [← PointBuy.price_of_cost hgroup hitem hcost] at hvalue
          dsimp only
          rw [Traced.outcome_bind, Traced.outcome_lift, htotal, Except.bind]
          cases group.effect with
          | earn =>
              obtain ⟨a, ha, hsum⟩ := Amount.add?_eq_some current total
              refine ⟨a, ?_, by rw [hsum, hvalue]⟩
              show Amount.orTooLarge (current.add? total) = _
              rw [ha]
              rfl
          | spend =>
              obtain ⟨a, ha, hdifference⟩ := Amount.sub?_eq_some current total
              refine ⟨a, ?_, by rw [hdifference, hvalue, sub_eq_add_neg]⟩
              show Amount.orTooLarge (current.sub? total) = _
              rw [ha]
              rfl

theorem prices_of_afterSelection {current a : Amount ℚ}
    (h : (afterSelection catalog unlock current x).outcome = .ok a) : unlock.Prices catalog x := by
  intro group item hgroup hitem
  unfold afterSelection at h
  rw [hgroup] at h
  dsimp only at h
  rw [hitem] at h
  obtain ⟨total, htotal, _⟩ := Traced.outcome_bind_eq_ok.mp h
  -- the total is made from a cost
  obtain ⟨cost, hcost, _⟩ := except_bind_eq_ok.mp htotal
  exact ⟨cost, hcost⟩

/-- Going through selections that have costs sums what they gain. -/
theorem foldlM_afterSelection {selections : List (Selection ℚ)}
    (h : ∀ x ∈ selections, unlock.Prices catalog x) (current : Amount ℚ) :
    ∃ a, (selections.foldlM (afterSelection catalog unlock) current).outcome = .ok a ∧
      a.toRat = current.toRat + (selections.map (unlock.gain catalog)).sum := by
  induction selections generalizing current with
  | nil => exact ⟨current, rfl, by simp⟩
  | cons x rest ih =>
      obtain ⟨a, ha, hx⟩ := afterSelection_of_prices (h x (by simp)) current
      obtain ⟨b, hb, hrest⟩ := ih (fun y hy => h y (by simp [hy])) a
      refine ⟨b, ?_, ?_⟩
      · rw [List.foldlM_cons]
        exact Traced.outcome_bind_eq_ok.mpr ⟨a, ha, hb⟩
      · rw [hrest, hx, List.map_cons, List.sum_cons, add_assoc]

theorem prices_of_foldlM {selections : List (Selection ℚ)} {current a : Amount ℚ}
    (h : (selections.foldlM (afterSelection catalog unlock) current).outcome = .ok a) :
    ∀ x ∈ selections, unlock.Prices catalog x := by
  induction selections generalizing current with
  | nil => nofun
  | cons x rest ih =>
      rw [List.foldlM_cons] at h
      obtain ⟨b, hb, hrest⟩ := Traced.outcome_bind_eq_ok.mp h
      intro y hy
      rcases List.mem_cons.mp hy with rfl | hy
      · exact prices_of_afterSelection hb
      · exact ih hrest y hy

/-- **A balance can be told exactly if every selection that counts has a cost.** -/
theorem ofSelections_eq_ok_iff (catalog : Catalog ℚ) (unlock : PointBuy ℚ)
    (selections : List (Selection ℚ)) :
    (∃ b, (ofSelections catalog unlock selections).outcome = .ok b) ↔
      ∀ x ∈ selections, unlock.Prices catalog x := by
  constructor
  · rintro ⟨b, h⟩
    obtain ⟨a, ha, _⟩ := Traced.outcome_bind_eq_ok.mp h
    exact prices_of_foldlM ha
  · intro h
    obtain ⟨a, ha, _⟩ := foldlM_afterSelection h (.real unlock.pool.initial)
    exact ⟨_, Traced.outcome_bind_eq_ok.mpr ⟨a, ha, rfl⟩⟩

/-- **A balance is what the pool starts with and what the selections gain.** -/
theorem current_of_ofSelections {selections : List (Selection ℚ)} {b : Balance ℚ}
    (h : (ofSelections catalog unlock selections).outcome = .ok b) :
    b.current.toRat = unlock.pool.initial + (selections.map (unlock.gain catalog)).sum := by
  have hprices := (ofSelections_eq_ok_iff catalog unlock selections).mp ⟨b, h⟩
  obtain ⟨a, ha, hsum⟩ := foldlM_afterSelection hprices (.real unlock.pool.initial)
  obtain ⟨a', ha', hb⟩ := Traced.outcome_bind_eq_ok.mp h
  rw [ha] at ha'
  obtain rfl := Except.ok.inj ha'
  rw [← Except.ok.inj hb]
  exact hsum

end Balance

end CharacterBuild
