import CharacterBuild.Change.Selecting
import CharacterBuild.Proofs.Groups

set_option autoImplicit false

/-! # How an item may be held

An item may be held with options of its own, each once and no more than its limit, and in a
quantity of at least one, of which there is no more than one if the item cannot be stacked
(`Item.Holds`). Whatever a payload or a list of options asks for, what comes out of it is held
like that (`Options.clean_fits`, `Plan.pay_holds`), and its place in the build is the same as
before (`Selection.SamePlace`).
-/

namespace CharacterBuild

variable {ν : Type}

/-- Options of an item, pairwise different and no more than its limit allows. -/
structure Item.FitsOptions (item : Item ν) (options : List (Value ν)) : Prop where
  offered : ∀ o ∈ options, ∃ id ∈ item.optionIds, o = .text id
  distinct : options.Nodup
  bounded : ∀ limit, item.optionLimit = some limit → options.length ≤ limit

/-- A selection that keeps to what its item allows. -/
structure Item.Holds (item : Item ν) (x : Selection ν) : Prop where
  options : item.FitsOptions x.options
  positive : ∀ n, x.quantity = some n → 1 ≤ n
  single : item.stackable = false → ∀ n, x.quantity = some n → n ≤ 1

/-- Two selections of one item from one source in one group, both settled or both not. -/
structure Selection.SamePlace (x y : Selection ν) : Prop where
  id : y.id = x.id
  source : y.source = x.source
  group : y.group = x.group
  locked : y.locked = x.locked

theorem Selection.SamePlace.refl (x : Selection ν) : x.SamePlace x := ⟨rfl, rfl, rfl, rfl⟩

theorem Selection.SamePlace.trans {x y z : Selection ν} (h : x.SamePlace y) (h' : y.SamePlace z) :
    x.SamePlace z :=
  ⟨h'.id.trans h.id, h'.source.trans h.source, h'.group.trans h.group, h'.locked.trans h.locked⟩

namespace Item.FitsOptions

variable {item : Item ν} {options : List (Value ν)}

theorem nil (item : Item ν) : item.FitsOptions [] :=
  ⟨nofun, List.nodup_nil, fun _ _ => Nat.zero_le _⟩

theorem sublist {options' : List (Value ν)} (h : item.FitsOptions options)
    (hs : options'.Sublist options) : item.FitsOptions options' where
  offered := fun o ho => h.offered o (hs.subset ho)
  distinct := h.distinct.sublist hs
  bounded := fun limit hl => Nat.le_trans hs.length_le (h.bounded limit hl)

theorem singleton {id : Text} (hid : id ∈ item.optionIds)
    (hlimit : ∀ limit, item.optionLimit = some limit → 1 ≤ limit) :
    item.FitsOptions [.text id] where
  offered := fun o ho => ⟨id, hid, List.mem_singleton.mp ho⟩
  distinct := by simp
  bounded := hlimit

theorem concat {id : Text} (h : item.FitsOptions options) (hid : id ∈ item.optionIds)
    (hnew : Value.text id ∉ options)
    (hroom : ∀ limit, item.optionLimit = some limit → options.length < limit) :
    item.FitsOptions (options ++ [.text id]) where
  offered := by
    intro o ho
    rcases List.mem_append.mp ho with ho | ho
    · exact h.offered o ho
    · exact ⟨id, hid, List.mem_singleton.mp ho⟩
  distinct := by
    refine List.nodup_append.mpr ⟨h.distinct, by simp, fun a ha b hb => ?_⟩
    rw [List.mem_singleton.mp hb]
    exact fun hab => hnew (hab ▸ ha)
  bounded := fun limit hl => by
    have := hroom limit hl
    simp only [List.length_append, List.length_singleton]
    omega

end Item.FitsOptions

/-! ## Options -/

@[simp] theorem Value.alike_text [Number ν] (s t : Text) :
    (Value.text s : Value ν).alike (.text t) = decide (s = t) := by
  simp [alike, Atom.alike, Atom.same, Atom.coincides]

/-- A text is in a list only if the list has a like of it. -/
theorem Value.isIn_of_mem [Number ν] {s : Text} {l : List (Value ν)} (h : Value.text s ∈ l) :
    (Value.text s).isIn l = true :=
  List.any_eq_true.mpr ⟨_, h, by simp⟩

namespace Options

/-- Whether an item offers an option that a value names. -/
def offers (item : Item ν) : Value ν → Bool
  | .text id => item.optionIds.contains id
  | _ => false

theorem eq_offers_of_isOf {item : Item ν} {o : Value ν} {b : Bool} (h : isOf item o = .ok b) :
    b = offers item o := by
  rcases o with a | l | ms
  · cases a <;> exact (Except.ok.inj h).symm
  · cases h
  · cases h

theorem offers_eq_true {item : Item ν} {o : Value ν} (h : offers item o = true) :
    ∃ id ∈ item.optionIds, o = .text id := by
  unfold offers at h
  split at h
  · rename_i id
    exact ⟨id, by simpa using h, rfl⟩
  · cases h

/-- Of different values, those that an item offers are different texts. -/
theorem nodup_filter_offers [Number ν] (item : Item ν) (asked : List (Value ν)) :
    ((distinct asked).filter (offers item)).Nodup := by
  have hpair := (firstsBy_pairwise Value.alike asked).filter (offers item)
  refine hpair.imp_of_mem fun {a b} ha _ hab heq => ?_
  -- equal values that are offered would be alike, which distinct values are not
  obtain ⟨id, _, rfl⟩ := offers_eq_true (List.mem_filter.mp ha).2
  rw [← heq] at hab
  simp at hab

/-- Options are cut at the limit, and a reason is given if that leaves some out. -/
theorem cut_outcome (item : Item ν) (id : Text) (options : List (Value ν)) : ∃ reason,
    (cut item id options).outcome = .ok (match item.optionLimit with
      | some most => options.take most
      | none => options, reason) ∧
    (reason = none ↔ ∀ most, item.optionLimit = some most → options.length ≤ most) := by
  unfold cut
  cases item.optionLimit with
  | none => exact ⟨none, rfl, by simp⟩
  | some most =>
      dsimp only
      by_cases hmany : most < options.length
      · rw [if_pos hmany]
        exact ⟨_, rfl, by simp [hmany]⟩
      · have hfew : options.length ≤ most := Nat.le_of_not_lt hmany
        rw [if_neg hmany, List.take_of_length_le hfew]
        exact ⟨none, rfl, by simp [hfew]⟩

theorem cut_fits {item : Item ν} {id : Text} {options options' : List (Value ν)}
    {reason : Option (Reason ν)} (hoffered : ∀ o ∈ options, ∃ id ∈ item.optionIds, o = .text id)
    (hdistinct : options.Nodup) (h : (cut item id options).outcome = .ok (options', reason)) :
    item.FitsOptions options' := by
  obtain ⟨reason', hcut, _⟩ := cut_outcome item id options
  rw [hcut] at h
  obtain ⟨rfl, _⟩ := Prod.mk.inj (Except.ok.inj h)
  cases hl : item.optionLimit with
  | none => exact ⟨hoffered, hdistinct, fun limit h => by rw [hl] at h; cases h⟩
  | some limit =>
      -- the first ones are kept
      refine ⟨fun o ho => hoffered o (List.mem_of_mem_take ho),
        hdistinct.sublist (List.take_sublist _ _), fun limit' h => ?_⟩
      rw [hl] at h
      obtain rfl := Option.some.inj h
      exact List.length_take_le _ _

/-- What is kept of some options is what is left of those that the item has. -/
theorem cut_of_clean [Number ν] {item : Item ν} {id : Text} {asked : Value ν}
    {options : List (Value ν)} {reason : Option (Reason ν)}
    (h : (clean (some item) id asked).outcome = .ok (options, reason)) :
    ∃ elements, asked.elements = .ok elements ∧
      (cut item id ((distinct elements).filter (offers item))).outcome
        = .ok (options, reason) := by
  unfold clean at h
  obtain ⟨elements, helements, h⟩ := Traced.outcome_bind_eq_ok.mp h
  obtain ⟨marked, hmarked, h⟩ := Traced.outcome_bind_eq_ok.mp h
  have hm := mapM_mark_eq_ok (fun _ _ _ => eq_offers_of_isOf) hmarked
  refine ⟨elements, helements, ?_⟩
  rw [← filter_marked, ← hm]
  -- the note on unknown options does not matter for what is kept
  dsimp only at h
  split at h
  · obtain ⟨_, _, h⟩ := Traced.outcome_bind_eq_ok.mp h
    exact h
  · exact h

/-- **What is kept of some options fits the item**, whatever was asked for. -/
theorem clean_fits [Number ν] {item : Item ν} {id : Text} {asked : Value ν}
    {options : List (Value ν)} {reason : Option (Reason ν)}
    (h : (clean (some item) id asked).outcome = .ok (options, reason)) :
    item.FitsOptions options := by
  obtain ⟨elements, _, hcut⟩ := cut_of_clean h
  refine cut_fits (fun o ho => offers_eq_true (List.mem_filter.mp ho).2) ?_ hcut
  exact nodup_filter_offers item elements

end Options

/-! ## Payloads -/

namespace Plan

theorem heldQuantity_positive {item : Option (Item ν)} {asked : Int} (h : 1 ≤ asked) :
    1 ≤ (heldQuantity item asked).1 := by
  unfold heldQuantity
  split
  · split
    · exact Int.le_refl 1
    · exact h
  · exact h

theorem heldQuantity_single {item : Item ν} (asked : Int) (h : item.stackable = false) :
    (heldQuantity (some item) asked).1 ≤ 1 := by
  by_cases ha : 1 < asked
  · simp [heldQuantity, h, ha]
  · simp only [heldQuantity, h, ha, decide_false, Bool.and_false, Bool.false_eq_true, if_false]
    omega

/-- A quantity that is held like that keeps a selection within its item. -/
theorem holds_heldQuantity {item : Item ν} {x : Selection ν} {asked : Int} (hx : item.Holds x)
    (h : 1 ≤ asked) :
    item.Holds { x with quantity := some (heldQuantity (some item) asked).1 } where
  options := hx.options
  positive := fun n hn => by
    obtain rfl := Option.some.inj hn
    exact heldQuantity_positive h
  single := fun hs n hn => by
    obtain rfl := Option.some.inj hn
    exact heldQuantity_single asked hs

theorem payQuantity_holds [Number ν] {item : Item ν} {payload : Value ν} {x y : Selection ν}
    {reason : Option (Reason ν)} (h : payQuantity item payload x = .ok (y, reason)) :
    x.SamePlace y ∧ (item.Holds x → item.Holds y) := by
  unfold payQuantity at h
  obtain ⟨given, _, h⟩ := except_bind_eq_ok.mp h
  split at h
  · obtain ⟨v, _, h⟩ := except_bind_eq_ok.mp h
    obtain ⟨asked, _, h⟩ := except_bind_eq_ok.mp h
    obtain ⟨rfl, _⟩ := Prod.mk.inj (Except.ok.inj h)
    exact ⟨⟨rfl, rfl, rfl, rfl⟩, fun hx => holds_heldQuantity hx (Int.le_max_left _ _)⟩
  · obtain ⟨rfl, _⟩ := Prod.mk.inj (Except.ok.inj h)
    exact ⟨.refl _, fun hx => hx⟩

/-- Equipping an item changes nothing else about the selection. -/
theorem eq_of_payEquipped [Number ν] {payload : Value ν} {x y : Selection ν}
    (h : payEquipped payload x = .ok y) : ∃ equipped, y = { x with equipped := equipped } := by
  unfold payEquipped at h
  obtain ⟨given, _, h⟩ := except_bind_eq_ok.mp h
  split at h
  · obtain ⟨v, _, h⟩ := except_bind_eq_ok.mp h
    exact ⟨_, (Except.ok.inj h).symm⟩
  · exact ⟨x.equipped, (Except.ok.inj h).symm⟩

/-- The options of a payload are what is kept of them; without any, those that are there stay. -/
theorem payOptions_sets [Number ν] {item : Item ν} {payload : Value ν} {x y : Selection ν}
    {reason : Option (Reason ν)} (h : (payOptions item payload x).outcome = .ok (y, reason)) :
    ∃ options, y = { x with options := options } ∧
      ((payload.has "selections" = .ok false ∧ options = x.options ∧ reason = none) ∨
        ∃ v, payload.has "selections" = .ok true ∧ payload.member "selections" = .ok v ∧
          (Options.clean (some item) item.id v).outcome = .ok (options, reason)) := by
  unfold payOptions at h
  obtain ⟨given, hgiven, h⟩ := Traced.outcome_bind_eq_ok.mp h
  cases given with
  | true =>
      obtain ⟨v, hv, h⟩ := Traced.outcome_bind_eq_ok.mp h
      obtain ⟨⟨options, cutReason⟩, hclean, h⟩ := Traced.outcome_bind_eq_ok.mp h
      obtain ⟨rfl, rfl⟩ := Prod.mk.inj (Except.ok.inj h)
      exact ⟨options, rfl, Or.inr ⟨v, hgiven, hv, hclean⟩⟩
  | false =>
      obtain ⟨rfl, rfl⟩ := Prod.mk.inj (Except.ok.inj h)
      exact ⟨x.options, rfl, Or.inl ⟨hgiven, rfl, rfl⟩⟩

theorem payOptions_holds [Number ν] {item : Item ν} {payload : Value ν} {x y : Selection ν}
    {reason : Option (Reason ν)} (h : (payOptions item payload x).outcome = .ok (y, reason)) :
    x.SamePlace y ∧ (item.Holds x → item.Holds y) := by
  obtain ⟨options, rfl, ⟨_, rfl, _⟩ | ⟨_, _, _, hclean⟩⟩ := payOptions_sets h
  · exact ⟨.refl _, fun hx => hx⟩
  · exact ⟨⟨rfl, rfl, rfl, rfl⟩, fun hx => ⟨Options.clean_fits hclean, hx.positive, hx.single⟩⟩

/-- A payload is carried out in three parts: the quantity, whether it is equipped, the options. -/
theorem pay_parts [Number ν] {item : Item ν} {payload : Value ν} {x y : Selection ν}
    {reason : Option (Reason ν)} (h : (pay item payload x).outcome = .ok (y, reason)) :
    ∃ x₁ equipped quantityReason optionsReason,
      payQuantity item payload x = .ok (x₁, quantityReason) ∧
      (payOptions item payload { x₁ with equipped := equipped }).outcome
        = .ok (y, optionsReason) ∧ reason = quantityReason.or optionsReason := by
  unfold pay at h
  obtain ⟨unknown, _, h⟩ := Traced.outcome_bind_eq_ok.mp h
  split at h
  · cases h
  · obtain ⟨⟨x₁, r₁⟩, h₁, h⟩ := Traced.outcome_bind_eq_ok.mp h
    obtain ⟨x₂, h₂, h⟩ := Traced.outcome_bind_eq_ok.mp h
    obtain ⟨⟨x₃, r₃⟩, h₃, h⟩ := Traced.outcome_bind_eq_ok.mp h
    obtain ⟨rfl, hreason⟩ := Prod.mk.inj (Except.ok.inj h)
    obtain ⟨equipped, rfl⟩ := eq_of_payEquipped h₂
    exact ⟨x₁, equipped, r₁, r₃, h₁, h₃, hreason.symm⟩

/-- **A payload keeps a selection in its place and within its item.** -/
theorem pay_holds [Number ν] {item : Item ν} {payload : Value ν} {x y : Selection ν}
    {reason : Option (Reason ν)} (h : (pay item payload x).outcome = .ok (y, reason)) :
    x.SamePlace y ∧ (item.Holds x → item.Holds y) := by
  obtain ⟨x₁, equipped, _, _, h₁, h₃, _⟩ := pay_parts h
  obtain ⟨place₁, holds₁⟩ := payQuantity_holds h₁
  obtain ⟨place₃, holds₃⟩ := payOptions_holds h₃
  have place₂ : x₁.SamePlace { x₁ with equipped := equipped } := ⟨rfl, rfl, rfl, rfl⟩
  refine ⟨place₁.trans (place₂.trans place₃), fun hx => holds₃ ?_⟩
  have hx₁ := holds₁ hx
  exact ⟨hx₁.options, hx₁.positive, hx₁.single⟩

/-- A selection that was just made is held as its item allows. -/
theorem holds_new (item : Item ν) (source : SourceId) (group : Value ν) :
    item.Holds { id := item.id, source := source, group := group } :=
  ⟨.nil item, nofun, nofun⟩

end Plan

end CharacterBuild
