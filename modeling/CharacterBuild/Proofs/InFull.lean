import CharacterBuild.Proofs.AllOptions
import CharacterBuild.Proofs.Singles

set_option autoImplicit false

/-! # Requests that are granted in full

A select may ask for a quantity and for options, and options are also asked for on their own. An
answer may give a reason, and then something was left out. The converse does not hold: options that
the item does not have are dropped without a word, and so a quantity below one is raised to one.
`Granted` says exactly what a selection gets of what was asked for, and when there is a reason;
`Granted.in_full_iff` says when an answer without a reason means that all of it was granted.
-/

namespace CharacterBuild

variable {ν : Type} [Number ν]

/-! ## Options -/

namespace Options

variable {item : Option (Item ν)} {i : Item ν} {asked : List (Value ν)}

/-- Of the options that are asked for those that the item has, each once. If the item is unknown,
they are all kept. -/
def known (item : Option (Item ν)) (asked : List (Value ν)) : List (Value ν) :=
  (distinct asked).filter fun o => item.all fun i => offers i o

/-- The limit of the options of an item. -/
def limit (item : Option (Item ν)) : Option Nat := item.bind Item.optionLimit

/-- What is kept of the options that are asked for: as many as the limit allows. -/
def kept (item : Option (Item ν)) (asked : List (Value ν)) : List (Value ν) :=
  match limit item with
  | some most => (known item asked).take most
  | none => known item asked

/-- The options that the item has do not go beyond the limit. -/
def Fit (item : Option (Item ν)) (asked : List (Value ν)) : Prop :=
  ∀ most, limit item = some most → (known item asked).length ≤ most

theorem Fit.kept_eq (h : Fit item asked) : kept item asked = known item asked := by
  unfold kept
  cases hlimit : limit item with
  | none => rfl
  | some most => exact List.take_of_length_le (h most hlimit)

@[simp] theorem kept_nil : kept item ([] : List (Value ν)) = [] := by
  unfold kept
  cases limit item with
  | none => rfl
  | some most => exact List.take_nil

@[simp] theorem fit_nil : Fit item ([] : List (Value ν)) := fun most _ => Nat.zero_le most

/-- Every value of the second list is in the first one, or a like of it is. -/
def Covers (l l' : List (Value ν)) : Prop := ∀ o ∈ l', ∃ k ∈ l, k = o ∨ k.alike o = true

/-- Two lists have the same values. -/
def SameSet (l l' : List (Value ν)) : Prop := Covers l l' ∧ Covers l' l

/-- Distinct values are the same values. -/
theorem distinct_sameSet (asked : List (Value ν)) : SameSet (distinct asked) asked :=
  ⟨fun _ ho => exists_eq_or_alike_firstsBy Value.alike ho,
    fun o ho => ⟨o, mem_of_mem_firstsBy ho, Or.inl rfl⟩⟩

/-- **The options of an item are those that were asked for** if it has all of them. -/
theorem known_sameSet_iff (item : Option (Item ν)) (asked : List (Value ν)) :
    SameSet (known item asked) asked ↔
      ∀ i, item = some i → ∀ o ∈ asked, ∃ id ∈ i.optionIds, o = .text id := by
  constructor
  · rintro ⟨hcovers, _⟩ i rfl o ho
    obtain ⟨k, hk, hko⟩ := hcovers o ho
    have hoffered : offers i k = true := (List.mem_filter.mp hk).2
    obtain ⟨id, hid, rfl⟩ := offers_eq_true hoffered
    rcases hko with rfl | halike
    · exact ⟨id, hid, rfl⟩
    · exact ⟨id, hid, Value.eq_text_of_alike halike⟩
  · intro hall
    have hknown : known item asked = distinct asked := by
      refine List.filter_eq_self.mpr fun o ho => ?_
      cases item with
      | none => rfl
      | some i =>
          obtain ⟨id, hid, rfl⟩ := hall i rfl o (mem_of_mem_firstsBy ho)
          simpa [offers] using hid
    rw [hknown]
    exact distinct_sameSet asked

/-- **What is kept of the options that are asked for**, and when a reason is given. -/
theorem clean_eq_ok {id : Text} {v : Value ν} {options : List (Value ν)}
    {reason : Option (Reason ν)} (h : (clean item id v).outcome = .ok (options, reason)) :
    ∃ asked, v.elements = .ok asked ∧ options = kept item asked ∧
      (reason = none ↔ Fit item asked) := by
  cases item with
  | none =>
      unfold clean at h
      obtain ⟨asked, hasked, h⟩ := Traced.outcome_bind_eq_ok.mp h
      obtain ⟨_, _, h⟩ := Traced.outcome_bind_eq_ok.mp h
      obtain ⟨rfl, rfl⟩ := Prod.mk.inj (Except.ok.inj h)
      have hknown : known none asked = distinct asked := List.filter_eq_self.mpr fun _ _ => rfl
      exact ⟨asked, hasked, by simp [kept, limit, hknown], by simp [Fit, limit]⟩
  | some i =>
      obtain ⟨asked, hasked, hcut⟩ := cut_of_clean h
      obtain ⟨reason', hcut', hreason⟩ := cut_outcome i id (known (some i) asked)
      obtain ⟨rfl, rfl⟩ := Prod.mk.inj (Except.ok.inj (hcut.symm.trans hcut'))
      exact ⟨asked, hasked, rfl, hreason⟩

end Options

/-! ## Quantities -/

namespace Plan

/-- A quantity of an item that can be held, as far as it is known: more than one only of what can be
stacked. -/
def CanHold (item : Option (Item ν)) (n : Int) : Prop :=
  ∀ i, item = some i → i.stackable = true ∨ n ≤ 1

omit [Number ν] in
/-- A quantity that can be held is held, and no reason is given. -/
theorem heldQuantity_of_canHold {item : Option (Item ν)} {n : Int} (h : CanHold item n) :
    heldQuantity item n = (n, none) := by
  cases item with
  | none => rfl
  | some i =>
      unfold heldQuantity
      refine if_neg ?_
      rcases h i rfl with hstackable | hone
      · simp [hstackable]
      · simp [hone]

omit [Number ν] in
/-- A quantity that cannot be held is one, and a reason is given. -/
theorem heldQuantity_of_not_canHold {item : Option (Item ν)} {n : Int} (h : ¬ CanHold item n) :
    heldQuantity item n = (1, some .notStackable) := by
  cases item with
  | none => exact absurd nofun h
  | some i =>
      have hmany : i.stackable = false ∧ 1 < n := by
        simpa [CanHold, not_or] using h
      unfold heldQuantity
      exact if_pos (by simp [hmany.1, hmany.2])

omit [Number ν] in
/-- A reason is given for a quantity exactly if it cannot be held. -/
theorem heldQuantity_reason_eq_none_iff (item : Option (Item ν)) (n : Int) :
    (heldQuantity item n).2 = none ↔ CanHold item n := by
  by_cases h : CanHold item n
  · simp [heldQuantity_of_canHold h, h]
  · simp [heldQuantity_of_not_canHold h, h]

omit [Number ν] in
/-- One can always be held, so raising a quantity to one does not matter to that. -/
theorem canHold_max_iff (item : Option (Item ν)) (n : Int) :
    CanHold item (max 1 n) ↔ CanHold item n := by
  refine forall₂_congr fun i _ => or_congr_right ?_
  omega

/-- The options that a payload asks for, none if it does not mention any. -/
def askedOptions (payload : Value ν) : Except (Fault ν) (List (Value ν)) := do
  if ← payload.has "selections" then (← payload.member "selections").elements
  else .ok []

end Plan

/-! ## What is granted -/

/-- **What a selection gets of the options and the quantity that are asked for.** The options are
those that the item has, each once and up to the limit; the quantity is at least one, and one if the
item cannot be stacked. A reason is given if the limit or the stacking takes something away. -/
structure Granted (item : Option (Item ν)) (asked : List (Value ν)) (wanted : Option Int)
    (x : Selection ν) (reason : Option (Reason ν)) : Prop where
  options : x.options = Options.kept item asked
  quantity : ∀ n, wanted = some n → x.quantity = some (Plan.heldQuantity item (max 1 n)).1
  reason : reason = none ↔ Options.Fit item asked ∧ ∀ n, wanted = some n → Plan.CanHold item n

/-- **When an answer without a reason means that all was granted**: the options are those that were
asked for if the item has all of them, and the quantity is the one that was asked for if that is one
at least. -/
theorem Granted.in_full_iff {item : Option (Item ν)} {asked : List (Value ν)}
    {wanted : Option Int} {x : Selection ν} (h : Granted item asked wanted x none) :
    (Options.SameSet x.options asked ↔
      ∀ i, item = some i → ∀ o ∈ asked, ∃ id ∈ i.optionIds, o = .text id) ∧
    ∀ n, wanted = some n → (x.quantity = some n ↔ 1 ≤ n) := by
  obtain ⟨hfit, hhold⟩ := h.reason.mp rfl
  constructor
  · rw [h.options, hfit.kept_eq]
    exact Options.known_sameSet_iff item asked
  · intro n hn
    have hmost : Plan.CanHold item (max 1 n) := (Plan.canHold_max_iff item n).mpr (hhold n hn)
    rw [h.quantity n hn, Plan.heldQuantity_of_canHold hmost, Option.some.injEq]
    omega

namespace Plan

variable {item : Item ν} {payload : Value ν} {x y : Selection ν} {reason : Option (Reason ν)}

/-- The options of a payload take the place of none. -/
theorem payOptions_eq_ok (hx : x.options = [])
    (h : (payOptions item payload x).outcome = .ok (y, reason)) :
    ∃ asked, askedOptions payload = .ok asked ∧
      y = { x with options := Options.kept (some item) asked } ∧
      (reason = none ↔ Options.Fit (some item) asked) := by
  obtain ⟨options, rfl, hoptions⟩ := payOptions_sets h
  unfold askedOptions
  rcases hoptions with ⟨hnone, rfl, rfl⟩ | ⟨v, hgiven, hv, hclean⟩
  · rw [hnone]
    exact ⟨[], rfl, by rw [Options.kept_nil, ← hx], by simp⟩
  · obtain ⟨asked, hasked, rfl, hreason⟩ := Options.clean_eq_ok hclean
    rw [hgiven]
    refine ⟨asked, ?_, rfl, hreason⟩
    show (payload.member "selections" >>= Value.elements) = _
    rw [hv]
    exact hasked

/-- **What a payload makes of a selection that was just made** is what is granted of it. -/
theorem pay_granted {source : SourceId} {group : Value ν}
    (h : (pay item payload { id := item.id, source := source, group := group }).outcome
      = .ok (y, reason)) :
    ∃ asked wanted, askedOptions payload = .ok asked ∧ askedQuantity payload = .ok wanted ∧
      Granted (some item) asked wanted y reason := by
  obtain ⟨x₁, equipped, _, _, h₁, h₃, rfl⟩ := pay_parts h
  obtain ⟨wanted, hwanted, rfl, rfl⟩ := payQuantity_eq_ok h₁
  obtain ⟨asked, hasked, rfl, hreason⟩ := payOptions_eq_ok rfl h₃
  refine ⟨asked, wanted, hasked, hwanted, rfl, ?_, ?_⟩
  · rintro n rfl
    rfl
  · rw [Option.or_eq_none_iff, hreason, and_comm]
    refine and_congr_right fun _ => ?_
    cases wanted with
    | none => simp
    | some n =>
        simp only [Option.bind_some, Option.some.injEq, forall_eq']
        rw [heldQuantity_reason_eq_none_iff, canHold_max_iff]

end Plan

namespace Session

variable {κ : Type} {run : κ → Action ν κ (Answer ν)} {s : Session ν κ} {source : SourceId}
  {reason : Option (Reason ν)}

/-- **What an accepted select grants** of an item that was not selected. -/
theorem select_granted (hrun : ∀ c, (run c).LeavesBuild) {item : Item ν} {group payload : Value ν}
    (hnew : s.state.selection? item.id none = none)
    (h : (select run item source group payload s).outcome = .ok ⟨true, reason⟩) :
    ∃ x asked wanted,
      (select run item source group payload s).session.state.selection? item.id none = some x ∧
      Plan.askedOptions (payload.orElse (.object [])) = .ok asked ∧
      Plan.askedQuantity (payload.orElse (.object [])) = .ok wanted ∧
      Granted (some item) asked wanted x reason := by
  obtain ⟨_, change, hplan, hs⟩ := replaced_of_accepted hrun h
  obtain ⟨g, others, x, hfor, hroom, hpaid, hselects⟩ := Plan.pays_of_commit hnew hplan
  have hputs : Plan.Puts s.index s.state item source group payload others x :=
    ⟨hnew, ⟨g, hfor, hroom⟩, reason, hpaid⟩
  obtain ⟨asked, wanted, hasked, hwanted, hgranted⟩ := Plan.pay_granted hpaid
  refine ⟨x, asked, wanted, ?_, hasked, hwanted, hgranted⟩
  have hstate : (select run item source group payload s).session.state = change.state := hs.state
  rw [hstate, hselects.state]
  exact hputs.found

/-- **What is granted where the options of a selection are replaced.** -/
theorem replaceOptions_granted (hrun : ∀ c, (run c).LeavesBuild) {id : Text} {options : Value ν}
    (h : (replaceOptions run id source options s).outcome = .ok ⟨true, reason⟩) :
    ∃ x asked,
      (replaceOptions run id source options s).session.state.selection? id (some source) = some x ∧
      options.elements = .ok asked ∧ Granted (s.index.item? id) asked none x reason := by
  obtain ⟨_, change, hplan, hs⟩ := replaced_of_accepted hrun h
  obtain ⟨x, kept, hfinds, hclean, _, hsets⟩ := Plan.replaceOptions_commits hplan
  obtain ⟨asked, hasked, rfl, hreason⟩ := Options.clean_eq_ok hclean
  refine ⟨{ x with options := Options.kept (s.index.item? id) asked }, asked, ?_, hasked, rfl,
    nofun, by simpa using hreason⟩
  have hstate : (replaceOptions run id source options s).session.state = change.state := hs.state
  rw [hstate]
  exact hsets.found hfinds.found

/-- **What is granted of a request that is accepted**, in whatever state. A select of an item that was
not selected, or one that replaces the options of a selection, leaves a selection with what is
granted of the options and the quantity that it asks for, and gives a reason if the limit or the
stacking takes something away. If no reason is given, the options are those that were asked for
exactly if the item has all of them, and the quantity is the one that was asked for exactly if that
is one at least. -/
theorem accepted_granted (hrun : ∀ c, (run c).LeavesBuild) (s : Session ν κ) (source : SourceId)
    (reason : Option (Reason ν)) :
    (∀ (item : Item ν) (group payload : Value ν), s.state.selection? item.id none = none →
      let t := select run item source group payload s
      t.outcome = .ok ⟨true, reason⟩ → ∃ x asked wanted,
        t.session.state.selection? item.id none = some x ∧
        Plan.askedOptions (payload.orElse (.object [])) = .ok asked ∧
        Plan.askedQuantity (payload.orElse (.object [])) = .ok wanted ∧
        Granted (some item) asked wanted x reason ∧
        (reason = none →
          (Options.SameSet x.options asked ↔ ∀ o ∈ asked, ∃ id ∈ item.optionIds, o = .text id) ∧
          ∀ n, wanted = some n → (x.quantity = some n ↔ 1 ≤ n))) ∧
    ∀ (id : Text) (options : Value ν),
      let t := replaceOptions run id source options s
      t.outcome = .ok ⟨true, reason⟩ → ∃ x asked,
        t.session.state.selection? id (some source) = some x ∧
        options.elements = .ok asked ∧
        Granted (s.index.item? id) asked none x reason ∧
        (reason = none → (Options.SameSet x.options asked ↔
          ∀ i, s.index.item? id = some i → ∀ o ∈ asked, ∃ id ∈ i.optionIds, o = .text id)) := by
  constructor
  · intro item group payload hnew t h
    obtain ⟨x, asked, wanted, hfound, hasked, hwanted, hgranted⟩ := select_granted hrun hnew h
    refine ⟨x, asked, wanted, hfound, hasked, hwanted, hgranted, ?_⟩
    rintro rfl
    simpa using hgranted.in_full_iff
  · intro id options t h
    obtain ⟨x, asked, hfound, hasked, hgranted⟩ := replaceOptions_granted hrun h
    refine ⟨x, asked, hfound, hasked, hgranted, ?_⟩
    rintro rfl
    exact hgranted.in_full_iff.1

/-- An item with two options is selected, with a payload that asks for another option beside one of
the two, and for a quantity of zero. -/
def halfKnown : Turn Double (Guided.Call Double) (Result Double) :=
  select Guided.Call.runInside (Guided.twoOptionsItem ["a", "b"]) ⟨"A", .primary⟩ .null
    (.object [("quantity", .whole 0), ("selections", .list [.text "z", .text "a"])])
    (Guided.twoOptionsStart ["a", "b"])

/-- Its options are replaced, again by one that it has and one that it does not have. -/
def halfReplaced : Turn Double (Guided.Call Double) (Result Double) :=
  replaceOptions Guided.Call.runInside "w" ⟨"A", .primary⟩ (.list [.text "z", .text "b"])
    halfKnown.session

/-- Neither is granted in full, and no reason is given. -/
theorem accepted_granted_halfKnown :
    (halfKnown.outcome = .ok ⟨true, none⟩ ∧ ∃ x,
      halfKnown.session.state.selection? "w" none = some x ∧
      ¬ Options.SameSet x.options [.text "z", .text "a"] ∧ x.quantity ≠ some 0) ∧
    halfReplaced.outcome = .ok ⟨true, none⟩ ∧ ∃ x,
      halfReplaced.session.state.selection? "w" (some ⟨"A", .primary⟩) = some x ∧
      ¬ Options.SameSet x.options [.text "z", .text "b"] := by
  have hrun := Guided.Call.runInside_leavesBuild (ν := Double)
  have hunknown : ∀ rest : List (Value Double), ¬ ∀ o ∈ .text "z" :: rest,
      ∃ id ∈ (Guided.twoOptionsItem ["a", "b"]).optionIds, o = .text id := by
    intro rest hall
    obtain ⟨id, hid, heq⟩ := hall _ List.mem_cons_self
    have hz : (Text.ofString "z") = id := by cases heq; rfl
    rw [← hz] at hid
    exact absurd hid (by decide)
  have haccepted : halfKnown.outcome = .ok ⟨true, none⟩ :=
    Turn.outcome_of_any (by decide +kernel)
  constructor
  · obtain ⟨x, asked, wanted, hx, hasked, hwanted, _, hfull⟩ :=
      (accepted_granted hrun (Guided.twoOptionsStart ["a", "b"]) ⟨"A", .primary⟩ none).1
        (Guided.twoOptionsItem ["a", "b"]) .null _ rfl haccepted
    obtain rfl := Except.ok.inj hasked
    obtain rfl := Except.ok.inj hwanted
    obtain ⟨hoptions, hquantity⟩ := hfull rfl
    refine ⟨haccepted, x, hx, fun h => hunknown _ (hoptions.mp h), fun h => ?_⟩
    exact absurd ((hquantity 0 rfl).mp h) (by decide)
  · have hreplaced : halfReplaced.outcome = .ok ⟨true, none⟩ :=
      Turn.outcome_of_any (by decide +kernel)
    obtain ⟨_, _, hindex, _⟩ := request_accepted hrun haccepted
    have hitem : halfKnown.session.index.item? "w" = some (Guided.twoOptionsItem ["a", "b"]) :=
      (congrArg (fun index => index.item? "w") hindex).trans rfl
    obtain ⟨x, asked, hx, hasked, _, hfull⟩ :=
      (accepted_granted hrun halfKnown.session ⟨"A", .primary⟩ none).2 "w" _ hreplaced
    obtain rfl := Except.ok.inj hasked
    exact ⟨hreplaced, x, hx, fun h => hunknown _ ((hfull rfl).mp h _ hitem)⟩

end Session

end CharacterBuild
