import CharacterBuild.Proofs.Commits
import Mathlib.Data.List.Induction

set_option autoImplicit false

/-! # How often plain groups hold an item

Outside the groups of a pool an item is to be held once. The rules see to it when an update asks for
more (`Rules.judgeQuantity_of_plain`), and a forced item is selected once; but the payload of a
select is held against nothing. `Guided.Call.Oversteps` is the select that asks for more of a
stackable item and gets it, and there is no other way to hold more than one in a plain group:
`Guided.singles_iff` says that a run holds single items all the way exactly if no call of it
oversteps.
-/

namespace CharacterBuild

variable {ν : Type} [Number ν]

/-! ## Selections in plain groups -/

/-- A selection that is not settled, and in no group of a pool. -/
structure Selection.IsPlain (index : Index ν) (x : Selection ν) : Prop where
  unlocked : x.locked = false
  plain : ∀ g, index.groupNamed x.source.name x.group = .ok (some g) → g.usesPoints = false

/-- What is not settled is held once, outside the groups of a pool. -/
def Build.HoldsSingles (index : Index ν) (s : Build ν) : Prop :=
  ∀ x ∈ s.selections, x.IsPlain index → x.count = 1

/-- A selection in its place that is held, and held once in a plain group. -/
structure Selection.HeldPlainly (index : Index ν) (x : Selection ν) : Prop where
  place : x.InPlace index
  positive : 1 ≤ x.count
  single : x.IsPlain index → x.count = 1

/-- The same of all selections that are not settled. -/
def Build.HeldPlainly (index : Index ν) (s : Build ν) : Prop :=
  ∀ x ∈ s.selections, x.locked = false → x.HeldPlainly index

variable {index : Index ν} {s s' : Build ν} {x y : Selection ν}

omit [Number ν] in
theorem Selection.IsPlain.of_samePlace (h : y.IsPlain index) (hplace : x.SamePlace y) :
    x.IsPlain index where
  unlocked := hplace.locked ▸ h.unlocked
  plain := by
    have hplain := h.plain
    rw [hplace.source, hplace.group] at hplain
    exact hplain

omit [Number ν] in
/-- What is held in the same place in the same number is held likewise. -/
theorem Selection.HeldPlainly.of_samePlace (h : x.HeldPlainly index) (hplace : x.SamePlace y)
    (hcount : y.count = x.count) : y.HeldPlainly index where
  place := h.place.of_samePlace hplace
  positive := by
    rw [hcount]
    exact h.positive
  single := fun hplain => by
    rw [hcount]
    exact h.single (hplain.of_samePlace hplace)

theorem Build.HeldPlainly.singles (h : s.HeldPlainly index) : s.HoldsSingles index :=
  fun x hx hplain => (h x hx hplain.unlocked).single hplain

theorem Build.HeldPlainly.sublist (h : s.HeldPlainly index)
    (hsub : s'.selections ⊆ s.selections) : s'.HeldPlainly index :=
  fun x hx hopen => h x (hsub hx) hopen

/-- One selection is put in the place of another one, held likewise. -/
theorem Build.HeldPlainly.modify (h : s.HeldPlainly index) {item : Text} {source : SourceId}
    {change : Selection ν → Selection ν} (hx : s.selection? item (some source) = some x)
    (hchange : (change x).HeldPlainly index) :
    (s.modify item source change).HeldPlainly index := by
  intro y hy hopen
  rcases Build.mem_modify hx hy with rfl | hy
  · exact hchange
  · exact h y hy hopen

/-! ## Quantities -/

namespace Plan

variable {item : Item ν} {payload : Value ν} {reason : Option (Reason ν)}

/-- A payload that asks for a quantity gets as much of it as can be held, and one at least; the
reason is that it cannot be held. -/
theorem payQuantity_eq_ok (h : payQuantity item payload x = .ok (y, reason)) :
    ∃ asked, askedQuantity payload = .ok asked ∧
      y = { x with quantity :=
        (asked.map fun n => (heldQuantity (some item) (max 1 n)).1).or x.quantity } ∧
      reason = asked.bind fun n => (heldQuantity (some item) (max 1 n)).2 := by
  unfold payQuantity at h
  unfold askedQuantity
  obtain ⟨given, hgiven, h⟩ := except_bind_eq_ok.mp h
  rw [hgiven]
  cases given with
  | true =>
      obtain ⟨v, hv, h⟩ := except_bind_eq_ok.mp h
      obtain ⟨n, hn, h⟩ := except_bind_eq_ok.mp h
      obtain ⟨rfl, rfl⟩ := Prod.mk.inj (Except.ok.inj h)
      exact ⟨some n, by simp [hv, hn, bind, Except.bind, Except.map], rfl, rfl⟩
  | false =>
      obtain ⟨rfl, rfl⟩ := Prod.mk.inj (Except.ok.inj h)
      exact ⟨none, rfl, rfl, rfl⟩

/-- The rest of the payload does not touch the quantity. -/
theorem pay_quantity (h : (pay item payload x).outcome = .ok (y, reason)) :
    ∃ asked, askedQuantity payload = .ok asked ∧
      y.quantity = (asked.map fun n => (heldQuantity (some item) (max 1 n)).1).or x.quantity := by
  obtain ⟨x₁, equipped, _, _, h₁, h₃, _⟩ := pay_parts h
  obtain ⟨asked, hasked, rfl, _⟩ := payQuantity_eq_ok h₁
  obtain ⟨options, rfl, _⟩ := payOptions_sets h₃
  exact ⟨asked, hasked, rfl⟩

/-- A forced item is asked for once, if a quantity is asked for at all. -/
theorem askedQuantity_forcedPayload (config : Config) (item : Item ν) :
    ∃ asked, askedQuantity ((Session.forcedPayload config item).orElse (.object [])) = .ok asked ∧
      ∀ n, asked = some n → n = 1 := by
  unfold Session.forcedPayload
  split
  · exact ⟨some 1, rfl, fun n h => (Option.some.inj h).symm⟩
  · exact ⟨none, rfl, nofun⟩

end Plan

/-! ## Updates -/

/-- **The rules do not allow more of an item in a plain group.** -/
theorem Rules.judgeQuantity_of_plain {state : Build ν} {item : Item ν} {source : SourceId}
    (hx : state.selection? item.id (some source) = some x) (hheld : x.HeldPlainly index)
    (hitem : index.item? x.id = some item) (hplain : x.IsPlain index) :
    (judgeQuantity index state item source x.group).outcome ≠ .ok .enabled := by
  obtain ⟨item', g, hitem', hfor⟩ := hheld.place
  rw [hitem] at hitem'
  obtain rfl := Option.some.inj hitem'
  have hloose : g.filter Group.usesPoints = none := by
    cases hg : g with
    | none => rfl
    | some found =>
        have hnamed := (Plan.groupNamed_of_groupFor hfor).1
        rw [hg] at hnamed
        rw [Option.filter_some, hplain.plain found hnamed]
        rfl
  have hresolved := Plan.resolveGroup_of_groupFor hfor
  rw [Build.selection?_source hx] at hresolved
  unfold judgeQuantity
  rw [hx]
  dsimp only
  rw [hplain.unlocked, Value.orElse_self]
  split
  · nofun
  · rw [if_neg (by simp), Traced.outcome_bind_of_ok hresolved, hloose]
    dsimp only
    rw [if_pos hheld.positive]
    nofun

/-- **An update that the rules let through** leaves the selection held as it should be. -/
theorem Guided.heldPlainly_of_update {s : Session ν (Call ν)} {item : Text}
    {source : SourceId} {changes : Value ν} (hfinds : Plan.Finds s.state item source x)
    (hheld : x.HeldPlainly s.index) (hadmits : (admitsUpdate s item source changes).outcome
      = .ok .enabled) (hrevises : Plan.Revises (s.index.item? item) changes x y) :
    y.HeldPlainly s.index := by
  have hplace := hrevises.place
  cases hrevises.quantity with
  | kept _ h => exact hheld.of_samePlace hplace (by rw [Selection.count, h, Selection.count])
  | @asked n hasked hpositive h =>
      have hcount : y.count = (Plan.heldQuantity (s.index.item? item) n).1 := by
        rw [Selection.count, h]
        rfl
      have hone : 1 ≤ y.count := hcount ▸ Plan.heldQuantity_positive hpositive
      refine ⟨hheld.place.of_samePlace hplace, hone, fun hplain => ?_⟩
      have hplain := hplain.of_samePlace hplace
      have hsingle := hheld.single hplain
      obtain ⟨definition, _, hitem, _⟩ := hheld.place
      have hid : x.id = item := Build.selection?_id hfinds.found
      have hnamed : s.index.item? item = some definition := by
        rw [← hid]
        exact hitem
      have hfound : s.state.selection? definition.id (some source) = some x := by
        rw [s.index.id_of_item? hnamed]
        exact hfinds.found
      -- for more than one the rules would have been asked
      have hfew : ¬ 1 < n := by
        intro hmany
        have hjudged := judged_of_admitsUpdate hnamed hfinds.found hasked (by omega) hadmits
        exact Rules.judgeQuantity_of_plain hfound hheld hitem hplain hjudged
      have hle := Plan.heldQuantity_le (s.index.item? item) n
      omega

/-! ## Selects -/

namespace Plan

variable {state : Build ν} {item : Item ν} {source : SourceId} {group payload : Value ν}
  {others : List (Selection ν)}

/-- How often a selection that is put into a build is held. -/
theorem Puts.count (h : Puts index state item source group payload others x) :
    ∃ asked, askedQuantity (payload.orElse (.object [])) = .ok asked ∧
      x.count = (asked.map fun n => (heldQuantity (some item) (max 1 n)).1).getD 1 := by
  obtain ⟨reason, hpaid⟩ := h.paid
  obtain ⟨asked, hasked, hquantity⟩ := pay_quantity hpaid
  refine ⟨asked, hasked, ?_⟩
  rw [Selection.count, hquantity, Option.or_none]

/-- **A selection that is put into a build is held as it should be**, unless more of a stackable item
is asked for in a plain group. -/
theorem Puts.heldPlainly (h : Puts index state item source group payload others x)
    (hitem : index.item? item.id = some item)
    (hfew : ∀ n, askedQuantity (payload.orElse (.object [])) = .ok (some n) →
      item.stackable = true → x.IsPlain index → n ≤ 1) : x.HeldPlainly index := by
  obtain ⟨g, hfor, _⟩ := h.room
  obtain ⟨hid, hsource, _⟩ := h.fresh.place
  obtain ⟨asked, hasked, hcount⟩ := h.count
  have hplace : x.InPlace index := by
    refine ⟨item, g, by rw [hid]; exact hitem, ?_⟩
    rw [hsource]
    exact groupFor_kept hfor
  cases asked with
  | none =>
      have hone : x.count = 1 := hcount
      exact ⟨hplace, by omega, fun _ => hone⟩
  | some n =>
      have hheld : x.count = (heldQuantity (some item) (max 1 n)).1 := hcount
      have hpositive : 1 ≤ (heldQuantity (some item) (max 1 n)).1 :=
        heldQuantity_positive (Int.le_max_left 1 n)
      refine ⟨hplace, by omega, fun hplain => ?_⟩
      cases hstackable : item.stackable with
      | true =>
          have hmost := hfew n hasked hstackable hplain
          have hle := heldQuantity_le (some item) (max 1 n)
          omega
      | false =>
          have hle : (heldQuantity (some item) (max 1 n)).1 ≤ 1 :=
            heldQuantity_single (max 1 n) hstackable
          omega

/-- Selecting an item of the catalog keeps all selections held as they should be, unless more of a
stackable item is put into a plain group. -/
theorem heldPlainly_of_select {change : Change ν} {reason : Option (Reason ν)}
    (hstate : state.HeldPlainly index) (hitem : index.item? item.id = some item)
    (hfew : ∀ n x, state.selection? item.id none = none →
      askedQuantity (payload.orElse (.object [])) = .ok (some n) → item.stackable = true →
      change.state.selection? item.id none = some x → x.IsPlain index → n ≤ 1)
    (h : (select index state item source group payload).outcome = .ok (.commit change reason)) :
    change.state.HeldPlainly index := by
  rcases select_commits h with ⟨x, _, _, hremove⟩ | ⟨others, x, hputs, hselects⟩
  · rw [(remove_commits hremove).2.state]
    exact hstate.sublist List.filter_sublist.subset
  · rw [hselects.state] at hfew ⊢
    have hx := hputs.heldPlainly hitem fun n hasked hstackable =>
      hfew n x hputs.new hasked hstackable hputs.found
    obtain ⟨g, _, hroom⟩ := hputs.fresh.room
    intro y hy hopen
    rcases hroom.mem_or_eq hy with hy | rfl
    · exact hstate y hy hopen
    · exact hx

end Plan

/-! ## Runs -/

namespace Guided

/-- A call that selects items of the catalog only, by their ids. -/
def Call.SelectsById (c : Call ν) : Prop :=
  ∀ item source group payload, c = .select item source group payload → ∃ id, item = .named id

/-- **A call that oversteps**: it asks for more than one of a stackable item that is not selected,
and gets it in a plain group. -/
inductive Call.Oversteps (s : Session ν (Call ν)) : Call ν → Prop where
  | select {id : Text} {source : SourceMention} {group payload : Value ν} {item : Item ν} {n : Int}
      {x : Selection ν} (hitem : s.index.item? id = some item) (hstackable : item.stackable = true)
      (hnew : s.state.selection? id none = none)
      (hasked : Plan.askedQuantity (payload.orElse (.object [])) = .ok (some n)) (hmany : 1 < n)
      (hput : ((Call.select (.named id) source group payload).run s).session.state.selection? id none
        = some x) (hplain : x.IsPlain s.index) :
      Oversteps s (.select (.named id) source group payload)

variable {config : Config} {st : Session ν (Call ν)} {c : Call ν}

/-- Setting a field puts no selection into a build. -/
theorem heldPlainly_of_setField {name : Text} {value : Value ν} {change : Change ν}
    {reason : Option (Reason ν)} (hstate : s.HeldPlainly index)
    (h : (Plan.setField index config s name value).outcome = .ok (.commit change reason)) :
    change.state.HeldPlainly index := by
  have hsets : Plan.Sets index config s name value change.state := Plan.setField_sets h
  refine hstate.sublist ?_
  generalize change.state = state at hsets
  cases hsets with
  | level => exact (Build.aimedAt_sublist _ _ _).subset
  | attributes | inventory | info | other => exact List.Subset.refl _

/-- **All that calls put in place is held as it should be**, unless a call oversteps. -/
theorem heldPlainly_kept : KeptByCommits index config
    (fun s c => c.SelectsById ∧ ¬ c.Oversteps s) (Build.HeldPlainly index) where
  commits := by
    intro s c change hmeets hallowed hcommits _ hstate
    obtain ⟨hbyId, hkeeps⟩ := hallowed
    have hindex : s.index = index := hmeets.index
    subst hindex
    have hheld : s.state.HeldPlainly s.index := hmeets.holds
    have hoptions : ∀ {item source x options}, Plan.Finds s.state item source x →
        Plan.SetsOptions s.state item source options change → change.state.HeldPlainly s.index := by
      intro item source x options hfinds hsets
      have hx := hheld x (Build.mem_of_selection? hfinds.found) hfinds.unlocked
      rw [hsets.state]
      exact hheld.modify hfinds.found (hx.of_samePlace ⟨rfl, rfl, rfl, rfl⟩ rfl)
    cases hcommits with
    | @select mention item source key group payload _ _ hitem _ _ hplan =>
        obtain ⟨id, rfl⟩ := hbyId _ _ _ _ rfl
        have hitem := s.index.item?_of_resolve_named hitem
        have hid := s.index.id_of_item? hitem
        refine Plan.heldPlainly_of_select hheld (s.index.item?_id hitem) ?_ hplan
        intro n x hnew hasked hstackable hput hplain
        refine Int.not_lt.mp fun hmany => hkeeps ?_
        rw [hid] at hnew hput
        exact .select hitem hstackable hnew hasked hmany (by rw [hstate]; exact hput) hplain
    | deselect _ hplan =>
        obtain ⟨x, _, hremove⟩ := Plan.deselect_commits hplan
        rw [(Plan.remove_commits hremove).2.state]
        exact hheld.sublist List.filter_sublist.subset
    | update _ hadmits hplan =>
        obtain ⟨x, hfinds, hremove | ⟨y, hrevises, hselects⟩⟩ := Plan.update_commits hplan
        · rw [(Plan.remove_commits hremove).2.state]
          exact hheld.sublist List.filter_sublist.subset
        · have hx := hheld x (Build.mem_of_selection? hfinds.found) hfinds.unlocked
          rw [hselects.state]
          exact hheld.modify hfinds.found (heldPlainly_of_update hfinds hx hadmits hrevises)
    | replaceOptions _ hplan =>
        obtain ⟨x, options, hfinds, _, _, hsets⟩ := Plan.replaceOptions_commits hplan
        exact hoptions hfinds hsets
    | takeOption _ hplan =>
        obtain ⟨x, i, options, hfinds, _, _, hsets⟩ := Plan.takeOption_commits hplan
        exact hoptions hfinds hsets
    | dropOption _ hplan =>
        obtain ⟨x, hfinds, _, hsets⟩ := Plan.dropOption_commits hplan
        exact hoptions hfinds hsets
    | setField hplan => exact heldPlainly_of_setField hheld hplan
    | setLevel hplan => exact heldPlainly_of_setField hheld hplan
    | restore _ _ hlevel hplan =>
        obtain ⟨change', reason', heq, hrestored⟩ := Plan.restore_makes hlevel hplan
        obtain ⟨rfl, _⟩ := Plan.commit.inj heq
        obtain ⟨settled, hselections, _, hlocked⟩ := hrestored.selections
        intro x hx hopen
        rw [hselections] at hx
        rcases List.mem_append.mp hx with hx | hx
        · exact hheld x hx hopen
        · -- what is restored is settled
          obtain ⟨y, _, rfl⟩ := hlocked x hx
          cases hopen
  forced := by
    intro source forced state state' hstate htaken
    obtain ⟨⟨item, choice, change, reason, _, hitem, _, hplan, rfl⟩, _⟩ := htaken
    refine Plan.heldPlainly_of_select hstate hitem ?_ hplan
    intro n x _ hasked _ _ _
    obtain ⟨asked, hforced, hone⟩ := Plan.askedQuantity_forcedPayload config item
    rw [hasked] at hforced
    exact Int.le_of_eq (hone n (Except.ok.inj hforced).symm)

/-- A call that oversteps makes the build hold as many as it asks for. -/
theorem Call.Oversteps.holdsMore (hidle : st.announcing = false) (h : c.Oversteps st) :
    ¬ (c.run st).session.state.HoldsSingles st.index := by
  cases h with
  | @select id source group payload item n x hitem hstackable hnew hasked hmany hput hplain =>
      have hreaches := (Call.select (.named id) source group payload).reaches hidle
      intro hsingles
      have hone := hsingles x (Build.mem_of_selection? hput) hplain
      generalize (Call.run _ st).session.state = state at hreaches hput
      cases hreaches with
      | kept =>
          rw [hnew] at hput
          cases hput
      | put hcommits _ =>
          cases hcommits with
          | select hmention _ _ hplan =>
              have hmention := st.index.item?_of_resolve_named hmention
              rw [hitem] at hmention
              obtain rfl := Option.some.inj hmention
              rw [← st.index.id_of_item? hitem] at hnew hput
              rcases Plan.select_commits hplan with ⟨_, hfound, _⟩ | ⟨others, x', hputs, hselects⟩
              · rw [hnew] at hfound
                cases hfound
              · rw [hselects.state, hputs.found] at hput
                obtain rfl := Option.some.inj hput
                -- a stackable item is held as often as it is asked for
                obtain ⟨asked, hasked', hcount⟩ := hputs.count
                rw [hasked] at hasked'
                obtain rfl := Except.ok.inj hasked'
                have hheld : x'.count = max 1 n := by
                  rw [hcount]
                  simp [Plan.heldQuantity, hstackable]
                omega

/-- The session after one call more. -/
theorem after_concat (s : Session ν (Call ν)) (calls : List (Call ν)) (c : Call ν) :
    after s (calls ++ [c]) = (c.run (after s calls)).session := by
  simp [after, List.foldl_append]

/-- **Plain groups hold single items exactly as long as no call oversteps**: on a new build, with
items named by their ids, whatever else is called and whatever listeners do. -/
theorem singles_iff {catalog : Catalog ν} (hs : (newBuild catalog config).outcome = .ok st)
    {calls : List (Call ν)} (hcalls : ∀ c ∈ calls, c.SelectsById) :
    (∀ before, before <+: calls → (after st before).state.HoldsSingles st.index) ↔
      ∀ before c, before ++ [c] <+: calls → ¬ c.Oversteps (after st before) := by
  constructor
  · intro hsingles before c hinitial hoversteps
    have hmeets := idle_after hs before
    have hmore := hoversteps.holdsMore hmeets.idle
    rw [hmeets.index, ← after_concat] at hmore
    exact hmore (hsingles _ hinitial)
  · intro hnone
    -- by induction on what was called before, all is held as it should be
    have hheld : ∀ before, before <+: calls →
        (statesWith st.index config (Build.HeldPlainly st.index)).Meets (after st before) := by
      intro before
      induction before using List.reverseRecOn with
      | nil =>
          intro _
          obtain rfl := Except.ok.inj hs
          exact ⟨rfl, rfl, rfl, nofun⟩
      | append_singleton before c ih =>
          intro hinitial
          have hearlier : before <+: calls := (List.prefix_append before [c]).trans hinitial
          have hc : c ∈ calls := hinitial.subset (by simp)
          rw [after_concat]
          exact heldPlainly_kept.run (ih hearlier) ⟨hcalls c hc, hnone before c hinitial⟩
    exact fun before hinitial => (hheld before hinitial).holds.singles

/-- A source that offers an item in a plain group, which may be held more than once. -/
def stackedChoice : Catalog Double :=
  (Catalog.addSource {} (plainSource "A" 1)).addItem { plainItem "x" with stackable := true }

/-- A new build on it. -/
def stackedStart : Session Double (Call Double) where
  index := { catalog := stackedChoice }
  config := { checksState := false }
  state := { targetLevel := .whole 1 }

/-- The item is selected with a payload. -/
def stackedSelect (payload : Value Double) : Call Double :=
  .select (.named "x") (.named "A") .null payload

/-- Selected without a payload it is held once; selected five times it is held five times. -/
theorem singles_iff_stackedChoice :
    (∀ before, before <+: [stackedSelect .null] →
      (after stackedStart before).state.HoldsSingles stackedStart.index) ∧
    ¬ ∀ before, before <+: [stackedSelect (.object [("quantity", .whole 5)])] →
      (after stackedStart before).state.HoldsSingles stackedStart.index := by
  have hs : (newBuild stackedChoice { checksState := false }).outcome = .ok stackedStart := rfl
  have hcalls : ∀ payload, ∀ c ∈ [stackedSelect payload], c.SelectsById := by
    intro payload c hc item source group payload' heq
    rw [List.mem_singleton.mp hc] at heq
    cases heq
    exact ⟨"x", rfl⟩
  constructor
  · refine (singles_iff hs (hcalls _)).mpr fun before c hinitial hoversteps => ?_
    obtain rfl : c = stackedSelect .null := List.mem_singleton.mp (hinitial.subset (by simp))
    -- no quantity is asked for
    cases hoversteps with
    | select _ _ _ hasked _ _ _ => cases hasked
  · intro hsingles
    refine (singles_iff hs (hcalls _)).mp hsingles [] _ List.prefix_rfl ?_
    obtain ⟨item, hitem, hstackable⟩ : ∃ item, stackedStart.index.item? "x" = some item ∧
        item.stackable = true := (Option.any_eq_true ..).mp (by decide +kernel)
    obtain ⟨x, hput, hplace⟩ : ∃ x, ((stackedSelect (.object [("quantity", .whole 5)])).run
        stackedStart).session.state.selection? "x" none = some x ∧
        (!x.locked && decide (x.source.name = "A") && x.group.isText "g") = true :=
      (Option.any_eq_true ..).mp (by decide +kernel)
    simp only [Bool.and_eq_true, Bool.not_eq_true', decide_eq_true_eq, Value.isText_iff] at hplace
    obtain ⟨⟨hopen, hsource⟩, hgroup⟩ := hplace
    refine .select (n := 5) hitem hstackable (Option.isNone_iff_eq_none.mp (by decide +kernel)) rfl
      (by decide) hput ⟨hopen, fun g hg => ?_⟩
    have hall : ((stackedStart.index.groupOf? "A" "g").all fun g => !g.usesPoints) = true := by
      decide +kernel
    rw [hsource, hgroup, Index.groupNamed_text] at hg
    have hfound : stackedStart.index.groupOf? "A" "g" = some g := Except.ok.inj hg
    rw [hfound] at hall
    exact (Bool.not_eq_true' _).mp hall

end Guided

end CharacterBuild
