import CharacterBuild.Proofs.Holding

set_option autoImplicit false

/-! # What plans change

A plan that changes the selections of a build has passed a chain of checks. What it has found on its
way, and which selections it leaves, is said here once for each request, so that nobody else has to
open the plan: an open selection that was found (`Plan.Finds`) is taken out, gets other options, or
is revised in its place (`Plan.update_commits`); and an item is selected by taking back its
selection from the same source or by putting a new one behind those that stay
(`Plan.select_commits`).
-/

namespace CharacterBuild

variable {ν : Type} [Number ν]

/-- A change of the selections, and of nothing else. -/
structure Change.Selects (change : Change ν) (state : Build ν) (xs : List (Selection ν)) : Prop where
  field : change.field = fieldNames.selections
  state : change.state = { state with selections := xs }

namespace Plan

variable {index : Index ν} {state : Build ν} {item : Text} {source : SourceId}
  {change : Change ν} {reason : Option (Reason ν)}

theorem selections_commits {xs : List (Selection ν)} {note : Note ν} {reason' : Option (Reason ν)}
    (h : selections state xs note reason = .commit change reason') : change.Selects state xs := by
  cases h
  exact ⟨rfl, rfl⟩

/-! ## Open selections -/

/-- **A selection of an item from a source that a request may change**: the first one, if it is not
settled. -/
structure Finds (state : Build ν) (item : Text) (source : SourceId) (x : Selection ν) : Prop where
  found : state.selection? item (some source) = some x
  unlocked : x.locked = false

theorem remove_commits {x : Selection ν} (h : remove state x = .commit change reason) :
    x.locked = false ∧ change.Selects state
      (state.selections.filter fun y => !(y.id = x.id && y.source = x.source)) := by
  unfold remove at h
  split at h
  · cases h
  · rename_i hopen
    exact ⟨by simpa using hopen, selections_commits h⟩

theorem deselect_commits (h : deselect state item source = .commit change reason) :
    ∃ x, Finds state item source x ∧ remove state x = .commit change reason := by
  unfold deselect at h
  split at h
  · cases h
  · rename_i x hx
    exact ⟨x, ⟨hx, (remove_commits h).1⟩, h⟩

/-! ### Options -/

/-- A change that gives a selection of an item from a source other options. -/
def SetsOptions (state : Build ν) (item : Text) (source : SourceId) (options : List (Value ν))
    (change : Change ν) : Prop :=
  change.Selects state
    (state.modify item source fun y => { y with options := options }).selections

/-- What is put in place of the options is what was kept of those asked for. -/
theorem replaceOptions_commits {asked : Value ν}
    (h : (replaceOptions index state item source asked).outcome = .ok (.commit change reason)) :
    ∃ x options, Finds state item source x ∧
      (Options.clean (index.item? item) item asked).outcome = .ok (options, reason) ∧
      Value.alikeItems options x.options = false ∧
      SetsOptions state item source options change := by
  unfold replaceOptions at h
  split at h
  · cases h
  · rename_i x hx
    split at h
    · cases h
    · rename_i hopen
      obtain ⟨⟨options, cut⟩, hclean, h⟩ := Traced.outcome_bind_eq_ok.mp h
      dsimp only at h
      split at h
      · cases h
      · rename_i hdiffer
        cases h
        exact ⟨x, options, ⟨hx, by simpa using hopen⟩, hclean, by simpa using hdiffer, rfl, rfl⟩

/-- **An option is taken beside or instead of others**: the item has it and the selection does not.
If the item may have one option only, it takes the place of the others, and else there is room for
it. -/
structure TakesOption (item : Item ν) (option : Text) (held options : List (Value ν)) : Prop where
  offered : option ∈ item.optionIds
  new : (Value.text option).isIn held = false
  taken : item.optionLimit = some 1 ∧ options = [.text option] ∨
    (∀ limit, item.optionLimit = some limit → held.length < limit) ∧
      options = held ++ [.text option]

theorem takeOption_commits {option : Text}
    (h : takeOption index state item source option = .commit change reason) :
    ∃ x i options, Finds state item source x ∧ index.item? item = some i ∧
      TakesOption i option x.options options ∧ SetsOptions state item source options change := by
  unfold takeOption at h
  split at h
  · rename_i x i hx hi
    split at h
    · cases h
    · rename_i hopen
      split at h
      · cases h
      · rename_i hoffered
        split at h
        · cases h
        · rename_i hnew
          have hfinds : Finds state item source x := ⟨hx, by simpa using hopen⟩
          have hoffered : option ∈ i.optionIds := by simpa using hoffered
          have hnew : (Value.text option).isIn x.options = false := by simpa using hnew
          refine ⟨x, i, ?_⟩
          dsimp only at h
          split at h
          · rename_i limit hlimit
            split at h
            · rename_i hone
              refine ⟨_, hfinds, hi, ⟨hoffered, hnew, Or.inl ⟨?_, rfl⟩⟩, selections_commits h⟩
              rw [hlimit, hone]
            · split at h
              · cases h
              · rename_i hroom
                refine ⟨_, hfinds, hi, ⟨hoffered, hnew, Or.inr ⟨?_, rfl⟩⟩, selections_commits h⟩
                intro limit' hlimit'
                rw [hlimit] at hlimit'
                obtain rfl := Option.some.inj hlimit'
                omega
          · rename_i hlimit
            refine ⟨_, hfinds, hi, ⟨hoffered, hnew, Or.inr ⟨?_, rfl⟩⟩, selections_commits h⟩
            simp [hlimit]
  · cases h

theorem dropOption_commits {option : Text}
    (h : dropOption state item source option = .commit change reason) :
    ∃ x, Finds state item source x ∧ (Value.text option).isIn x.options = true ∧
      SetsOptions state item source (x.options.filter fun o => !o.same (.text option)) change := by
  unfold dropOption at h
  split at h
  · cases h
  · rename_i x hx
    split at h
    · cases h
    · rename_i hheld
      split at h
      · cases h
      · rename_i hopen
        exact ⟨x, ⟨hx, by simpa using hopen⟩, by simpa using hheld, selections_commits h⟩

/-! ### Updates -/

/-- The quantity of a selection after an update: as before, or as much as can be held of the one
that was asked for. -/
inductive Requantified (item : Option (Item ν)) (changes : Value ν) (x y : Selection ν) : Prop where
  | kept (hasked : askedQuantity changes = .ok none) (h : y.quantity = x.quantity)
  | asked {n : Int} (hasked : askedQuantity changes = .ok (some n)) (hpositive : 1 ≤ n)
      (h : y.quantity = some (heldQuantity item n).1)

/-- **A selection that an update revises**: it stays in its place with its options, and is held in
another quantity or equipped otherwise. -/
structure Revises (item : Option (Item ν)) (changes : Value ν) (x y : Selection ν) : Prop where
  place : x.SamePlace y
  options : y.options = x.options
  quantity : Requantified item changes x y
  differs : ¬ (y.quantity = x.quantity ∧ y.equipped = x.equipped)

/-- An update takes an item back or revises its selection in its place. -/
theorem update_commits {changes : Value ν}
    (h : update index state item source changes = .ok (.commit change reason)) :
    ∃ x, Finds state item source x ∧ (remove state x = .commit change reason ∨
      ∃ y, Revises (index.item? item) changes x y ∧
        change.Selects state (state.modify item source fun _ => y).selections) := by
  unfold update at h
  split at h
  · cases h
  · rename_i x hx
    split at h
    · cases h
    · rename_i hopen
      refine ⟨x, ⟨hx, by simpa using hopen⟩, ?_⟩
      obtain ⟨asked, hasked, h⟩ := except_bind_eq_ok.mp h
      split at h
      · -- a quantity below one takes the item back
        exact Or.inl (Except.ok.inj h)
      · rename_i hpositive
        obtain ⟨y, hy, h⟩ := except_bind_eq_ok.mp h
        split at h
        · cases h
        · rename_i hdiffers
          obtain ⟨equipped, hrevised⟩ := eq_of_payEquipped hy
          have hquantity : Requantified (index.item? item) changes x y := by
            rw [hrevised]
            cases asked with
            | none => exact .kept hasked rfl
            | some n => exact .asked hasked (by simp at hpositive; omega) rfl
          refine Or.inr ⟨y, ⟨?_, by rw [hrevised], hquantity, by simpa using hdiffers⟩,
            selections_commits (Except.ok.inj h)⟩
          rw [hrevised]
          exact ⟨rfl, rfl, rfl, rfl⟩

/-! ## Selecting -/

variable {i : Item ν} {group kept payload : Value ν} {g : Option (Group ν)} {x : Selection ν}

/-- What selecting an item that is not selected makes: there is room for it beside the others, and
the payload makes a selection of it. -/
structure Puts (index : Index ν) (state : Build ν) (item : Item ν) (source : SourceId)
    (group payload : Value ν) (others : List (Selection ν)) (x : Selection ν) : Prop where
  new : state.selection? item.id none = none
  room : ∃ g, (groupFor index item source group).outcome = .ok (g, x.group) ∧
    (roomFor state item source g).outcome = .ok (.ok others)
  paid : ∃ reason, (pay item (payload.orElse (.object []))
    { id := item.id, source := source, group := x.group }).outcome = .ok (x, reason)

/-- An item that is selected from a source and selected again from it is kept or taken back. -/
theorem outcome_reselect (index : Index ν) (state : Build ν) (item : Item ν)
    (g : Option (Group ν)) (x : Selection ν) :
    (reselect index state item x.source g x).outcome
      = .ok (if g.any Group.isExclusive && index.policy x.source = .keep then nothing
        else remove state x) := by
  unfold reselect
  rw [if_neg (by simp)]
  cases g with
  | none => simp
  | some g =>
      rw [Option.any_some]
      dsimp only
      split
      · rfl
      · rfl

/-- Selecting an item that is selected. -/
theorem select_of_selected (payload : Value ν) (hx : state.selection? i.id none = some x)
    (hfor : (groupFor index i source group).outcome = .ok (g, kept)) :
    (select index state i source group payload).outcome
      = (reselect index state i source g x).outcome := by
  unfold select
  rw [Traced.outcome_bind_of_ok hfor]
  dsimp only
  rw [hx]

/-- Selecting an item anew puts what the payload makes of it behind what stays; the reason is what
the payload leaves out. -/
theorem pays_of_commit (hnew : state.selection? i.id none = none)
    (h : (select index state i source group payload).outcome = .ok (.commit change reason)) :
    ∃ g others x, (groupFor index i source group).outcome = .ok (g, x.group) ∧
      (roomFor state i source g).outcome = .ok (.ok others) ∧
      (pay i (payload.orElse (.object [])) { id := i.id, source := source, group := x.group }).outcome
        = .ok (x, reason) ∧
      change.Selects state (others ++ [x]) := by
  unfold select at h
  obtain ⟨⟨g, kept⟩, hfor, h⟩ := Traced.outcome_bind_eq_ok.mp h
  dsimp only at h
  rw [hnew] at h
  obtain ⟨room, hroom, h⟩ := Traced.outcome_bind_eq_ok.mp h
  cases room with
  | error reason => cases h
  | ok others =>
      obtain ⟨⟨x, reason'⟩, hpaid, h⟩ := Traced.outcome_bind_eq_ok.mp h
      have hcommit := Except.ok.inj h
      obtain rfl : reason' = reason := by cases hcommit; rfl
      have hgroup : x.group = kept := (pay_holds hpaid).1.group
      rw [← hgroup] at hfor hpaid
      exact ⟨g, others, x, hfor, hroom, hpaid, selections_commits hcommit⟩

/-- What a plan puts into a state that selects an item anew. -/
theorem puts_of_commit (hnew : state.selection? i.id none = none)
    (h : (select index state i source group payload).outcome = .ok (.commit change reason)) :
    ∃ others x, Puts index state i source group payload others x ∧
      change.Selects state (others ++ [x]) := by
  obtain ⟨g, others, x, hfor, hroom, hpaid, hselects⟩ := pays_of_commit hnew h
  exact ⟨others, x, ⟨hnew, ⟨g, hfor, hroom⟩, reason, hpaid⟩, hselects⟩

/-- Selecting an item takes it back from the source that it is selected from, or puts it behind what
stays. -/
theorem select_commits
    (h : (select index state i source group payload).outcome = .ok (.commit change reason)) :
    (∃ x, state.selection? i.id none = some x ∧ x.source = source ∧
      remove state x = .commit change reason) ∨
    ∃ others x, Puts index state i source group payload others x ∧
      change.Selects state (others ++ [x]) := by
  cases hx : state.selection? i.id none with
  | none => exact Or.inr (puts_of_commit hx h)
  | some x =>
      obtain ⟨⟨g, kept⟩, hfor, _⟩ := Traced.outcome_bind_eq_ok.mp h
      rw [select_of_selected payload hx hfor] at h
      by_cases hsource : x.source = source
      · rw [← hsource, outcome_reselect] at h
        split at h
        · cases h
        · exact Or.inl ⟨x, rfl, hsource, Except.ok.inj h⟩
      · -- an item that another source owns stays as it is
        unfold reselect at h
        rw [if_pos hsource] at h
        obtain ⟨_, _, h⟩ := Traced.outcome_bind_eq_ok.mp h
        cases h

end Plan

end CharacterBuild
