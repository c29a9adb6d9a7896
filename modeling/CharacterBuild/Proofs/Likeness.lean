import CharacterBuild.Proofs.Levels
import CharacterBuild.Proofs.Scale

set_option autoImplicit false

/-! # Builds that are equal as data

Two builds are alike when all their parts are equal as data: numbers by their size, objects
whatever the order of their members. A request compares only what it is about to change, and each
in its own way: the length of a list, a quantity, the options, a level, a directory. What it finds
to differ makes the whole new state differ from the one before (`Plan.Alters`); that is shown here
plan by plan.
-/

namespace CharacterBuild

variable {ν : Type} [Number ν]

/-! ## Likeness -/

/-- Equality of levels as data. -/
def Level.alike (a b : Level ν) : Bool := a.toValue.alike b.toValue

/-- Equality of selections as data. -/
def Selection.alike (x y : Selection ν) : Bool :=
  x.id = y.id && x.source = y.source && x.group.alike y.group &&
    Value.alikeItems x.options y.options && x.quantity = y.quantity && x.equipped = y.equipped &&
    x.locked = y.locked

/-- Equality of builds as data. -/
def Build.alike (s s' : Build ν) : Bool :=
  s.targetLevel.alike s'.targetLevel && s.mode = s'.mode &&
    s.restoredAt.toList.isEqv s'.restoredAt.toList Level.alike &&
    s.selections.isEqv s'.selections Selection.alike &&
    s.attributes.same Value.alike s'.attributes && Plan.sameInventory s.inventory s'.inventory &&
    s.info.same Value.alike s'.info && s.fields.same Value.alike s'.fields

/-- A whole level that is not the same as another one is not like it. -/
theorem Level.not_alike_of_not_same {l : Level ν} {n : Int} (h : ¬ l.same n = true) :
    (whole n).alike l = false := by
  have hswap : ∀ a : Amount ν, (Amount.whole n).same a = a.same (.whole n) := by
    intro a
    unfold Amount.same
    rw [compare_whole_swap]
    cases a.compare (.whole n) with
    | none => rfl
    | some o => cases o <;> rfl
  rw [Bool.not_eq_true] at h
  have hsame : (Amount.whole n).same l.amount = false := by
    rw [hswap]
    exact h
  unfold alike Value.alike
  cases l <;> simpa [toValue, Atom.alike, Atom.same, Atom.coincides, Atom.amount?,
    Amount.coincides, amount] using hsame

/-- A value that is not itself what is not a number. -/
def Value.IsComparable (v : Value ν) : Prop := ∀ a b, v = .atom a → a.coincides b = false

/-- The levels of alike builds are alike. -/
theorem Build.not_alike_of_targetLevel {s s' : Build ν}
    (h : s.targetLevel.alike s'.targetLevel = false) : s.alike s' = false := by
  simp [alike, h]

/-- A comparable value that is not the same as another one is not like it. -/
theorem Value.IsComparable.not_alike_of_not_same {v w : Value ν} (hv : v.IsComparable)
    (h : v.same w = false) : v.alike w = false := by
  rcases v with a | l | ms
  · rcases w with b | l' | ms'
    · have hsame : a.same b = false := h
      simp [alike, Atom.alike, hsame, hv a b rfl]
    · simp [alike]
    · simp [alike]
  · exact h
  · exact h

/-- A directory with a value that the other one does not have under its key. -/
theorem Directory.not_same_of_find? {κ β γ : Type} [BEq κ] [LawfulBEq κ] {same : β → γ → Bool}
    {d : Directory κ β} {d' : Directory κ γ} {k : κ} {v : β} (hv : d.find? k = some v)
    (h : ∀ v', d'.find? k = some v' → same v v' = false) : d.same same d' = false := by
  rw [← Bool.not_eq_true]
  intro hsame
  have hentry := List.all_eq_true.mp (Bool.and_eq_true_iff.mp hsame).2 (k, v) (mem_of_find? hv)
  cases hv' : d'.find? k with
  | none => simp [hv'] at hentry
  | some v' => simp [hv', h v' hv'] at hentry

theorem Build.not_alike_of_fields {s s' : Build ν}
    (h : s.fields.same Value.alike s'.fields = false) : s.alike s' = false := by
  simp [alike, h]

theorem Build.not_alike_of_selections {s s' : Build ν}
    (h : s.selections.isEqv s'.selections Selection.alike = false) : s.alike s' = false := by
  simp [alike, h]

/-! ## Lists that are equal element by element -/

theorem map_eq_of_isEqv {α β : Type} {p : α → α → Bool} {f : α → β} {l l' : List α}
    (hp : ∀ a b, p a b = true → f a = f b) (h : l.isEqv l' p = true) : l.map f = l'.map f := by
  induction l generalizing l' with
  | nil =>
      cases l' with
      | nil => rfl
      | cons b rest' => cases h
  | cons a rest ih =>
      cases l' with
      | nil => cases h
      | cons b rest' =>
          obtain ⟨hab, hrest⟩ := Bool.and_eq_true_iff.mp h
          rw [List.map_cons, List.map_cons, hp a b hab, ih hrest]

theorem rel_of_isEqv_append {α : Type} {p : α → α → Bool} {before after after' : List α} {a b : α}
    (h : (before ++ a :: after).isEqv (before ++ b :: after') p = true) : p a b = true := by
  induction before with
  | nil => exact (Bool.and_eq_true_iff.mp h).1
  | cons c rest ih => exact ih (Bool.and_eq_true_iff.mp h).2

theorem Selection.id_of_alike {x y : Selection ν} (h : x.alike y = true) : x.id = y.id := by
  simp only [alike, Bool.and_eq_true, decide_eq_true_eq] at h
  exact h.1.1.1.1.1.1

/-- Two lists that name the same items in the same order differ in no length. -/
theorem Selection.not_isEqv_of_ids {l l' : List (Selection ν)}
    (h : l.map Selection.id ≠ l'.map Selection.id) : l.isEqv l' Selection.alike = false := by
  rw [← Bool.not_eq_true]
  exact fun heqv => h (map_eq_of_isEqv (fun _ _ => Selection.id_of_alike) heqv)

theorem Value.length_of_alikeItems {l l' : List (Value ν)} (h : alikeItems l l' = true) :
    l.length = l'.length := by
  induction l generalizing l' with
  | nil =>
      cases l' with
      | nil => rfl
      | cons b rest' => simp [alikeItems] at h
  | cons a rest ih =>
      cases l' with
      | nil => simp [alikeItems] at h
      | cons b rest' =>
          rw [alikeItems, Bool.and_eq_true] at h
          rw [List.length_cons, List.length_cons, ih h.2]

theorem Value.not_alikeItems_of_length {l l' : List (Value ν)} (h : l.length ≠ l'.length) :
    alikeItems l l' = false := by
  rw [← Bool.not_eq_true]
  exact fun halike => h (length_of_alikeItems halike)

/-- A value that is like none of some is not all of them. -/
theorem Value.not_alikeItems_singleton {v : Value ν} {l : List (Value ν)}
    (h : v.isIn l = false) : alikeItems [v] l = false := by
  cases l with
  | nil => simp [alikeItems]
  | cons w rest =>
      have hw : v.alike w = false := by
        simp only [isIn, List.any_cons, Bool.or_eq_false_iff] at h
        exact h.1
      simp [alikeItems, hw]

/-- Only the text itself is like a text. -/
theorem Value.eq_text_of_alike {s : Text} {v : Value ν} (h : (text s).alike v = true) :
    v = text s := by
  rcases v with a | l | ms
  · rw [alike] at h
    cases a <;> simp_all [Atom.alike, Atom.same, Atom.coincides, Atom.amount?]
  · simp [alike] at h
  · simp [alike] at h

/-! ## Plans that alter the build -/

/-- A plan that changes a build at all changes the given field, and makes a state that is not like
the one before. -/
def Plan.Alters (field : Text) (s : Build ν) : Plan ν → Prop
  | .keep _ => True
  | .commit change _ => change.field = field ∧ change.state.alike s = false

namespace Plan

variable {index : Index ν} {config : Config} {state : Build ν}

/-- What a plan alters is what it changes. -/
theorem Alters.of_commits {field : Text} {p : Plan ν}
    (h : ∀ change reason, p = .commit change reason →
      change.field = field ∧ change.state.alike state = false) : p.Alters field state := by
  cases p with
  | keep reason => trivial
  | commit change reason => exact h change reason rfl

variable {change : Change ν} {reason : Option (Reason ν)} {x : Selection ν}

/-- New selections alter a build if they are not like the old ones. -/
theorem alters_of_selects {xs : List (Selection ν)} (hselects : change.Selects state xs)
    (h : xs.isEqv state.selections Selection.alike = false) :
    change.field = fieldNames.selections ∧ change.state.alike state = false := by
  refine ⟨hselects.field, ?_⟩
  rw [hselects.state]
  exact Build.not_alike_of_selections h

theorem alters_of_remove (hx : x ∈ state.selections) (h : remove state x = .commit change reason) :
    change.field = fieldNames.selections ∧ change.state.alike state = false := by
  refine alters_of_selects (remove_commits h).2 (Selection.not_isEqv_of_ids fun hids => ?_)
  -- the selection itself is gone, so there are fewer than before
  have hfewer : (state.selections.filter fun y => !(y.id = x.id && y.source = x.source)).length
      < state.selections.length :=
    List.length_filter_lt_length_iff_exists.mpr ⟨x, hx, by simp⟩
  have hlength := congrArg List.length hids
  rw [List.length_map, List.length_map] at hlength
  omega

variable {item : Text} {source : SourceId}

/-- Putting another selection in the place of one that it is not like. -/
theorem alters_of_modify {y : Selection ν} {f : Selection ν → Selection ν}
    (hfinds : Finds state item source x)
    (hselects : change.Selects state (state.modify item source f).selections) (hy : f x = y)
    (h : y.alike x = false) :
    change.field = fieldNames.selections ∧ change.state.alike state = false := by
  obtain ⟨before, after, hs, hmodify⟩ := Build.modify_of_selection? hfinds.found
  refine alters_of_selects hselects ?_
  rw [hmodify, hy, hs, ← Bool.not_eq_true]
  intro heqv
  rw [rel_of_isEqv_append heqv] at h
  cases h

theorem alters_of_options {options : List (Value ν)} (hfinds : Finds state item source x)
    (hsets : SetsOptions state item source options change)
    (h : Value.alikeItems options x.options = false) :
    change.field = fieldNames.selections ∧ change.state.alike state = false :=
  alters_of_modify hfinds hsets rfl (by simp [Selection.alike, h])

theorem replaceOptions_alters {asked : Value ν} {p : Plan ν}
    (h : (replaceOptions index state item source asked).outcome = .ok p) :
    p.Alters fieldNames.selections state := by
  refine .of_commits fun change reason hp => ?_
  rw [hp] at h
  obtain ⟨x, options, hfinds, _, hdiffer, hsets⟩ := replaceOptions_commits h
  exact alters_of_options hfinds hsets hdiffer

theorem takeOption_alters {option : Text} :
    (takeOption index state item source option).Alters fieldNames.selections state := by
  refine .of_commits fun change reason h => ?_
  obtain ⟨x, i, options, hfinds, _, htakes, hsets⟩ := takeOption_commits h
  refine alters_of_options hfinds hsets ?_
  rcases htakes.taken with ⟨_, rfl⟩ | ⟨_, rfl⟩
  · exact Value.not_alikeItems_singleton htakes.new
  · -- one option more than before
    exact Value.not_alikeItems_of_length (by simp)

theorem dropOption_alters {option : Text} :
    (dropOption state item source option).Alters fieldNames.selections state := by
  refine .of_commits fun change reason h => ?_
  obtain ⟨x, hfinds, hheld, hsets⟩ := dropOption_commits h
  refine alters_of_options hfinds hsets (Value.not_alikeItems_of_length ?_)
  obtain ⟨o, ho, halike⟩ := List.any_eq_true.mp hheld
  obtain rfl := Value.eq_text_of_alike halike
  -- the option itself is gone, so there are fewer than before
  have hfewer : (x.options.filter fun o => !o.same (.text option)).length < x.options.length :=
    List.length_filter_lt_length_iff_exists.mpr
      ⟨.text option, ho, by simp [Value.same, Atom.same]⟩
  omega

theorem deselect_alters : (deselect state item source).Alters fieldNames.selections state := by
  refine .of_commits fun change reason h => ?_
  obtain ⟨x, hfinds, hremove⟩ := deselect_commits h
  exact alters_of_remove (Build.mem_of_selection? hfinds.found) hremove

theorem update_alters {changes : Value ν} {p : Plan ν}
    (h : update index state item source changes = .ok p) :
    p.Alters fieldNames.selections state := by
  refine .of_commits fun change reason hp => ?_
  rw [hp] at h
  obtain ⟨x, hfinds, hremove | ⟨y, hrevises, hselects⟩⟩ := update_commits h
  · exact alters_of_remove (Build.mem_of_selection? hfinds.found) hremove
  · refine alters_of_modify hfinds hselects rfl ?_
    -- the quantity differs, or else whether the item is equipped
    by_cases hquantity : y.quantity = x.quantity
    · have hequipped : ¬ y.equipped = x.equipped := fun h => hrevises.differs ⟨hquantity, h⟩
      simp [Selection.alike, hequipped]
    · simp [Selection.alike, hquantity]

/-- **Selecting an item alters the build**, whatever makes room for the item. -/
theorem select_alters {item : Item ν} {group payload : Value ν} {p : Plan ν}
    (h : (select index state item source group payload).outcome = .ok p) :
    p.Alters fieldNames.selections state := by
  refine .of_commits fun change reason hp => ?_
  rw [hp] at h
  rcases select_commits h with ⟨x, hx, _, hremove⟩ | ⟨others, x, hputs, hselects⟩
  · exact alters_of_remove (Build.mem_of_selection? hx) hremove
  · refine alters_of_selects hselects (Selection.not_isEqv_of_ids fun hids => ?_)
    -- the item is a new one, so the items are others than before
    have hmem : x.id ∈ (others ++ [x]).map Selection.id := by simp
    rw [hids] at hmem
    obtain ⟨y, hy, hid⟩ := List.mem_map.mp hmem
    exact Build.selection?_none hputs.new y hy (hid.trans hputs.fresh.place.1)

/-! ### Setting fields -/

theorem setLevel_alters {value : Value ν} {p : Plan ν}
    (h : (setLevel index config state value).outcome = .ok p) :
    p.Alters fieldNames.targetLevel state := by
  unfold setLevel at h
  split at h
  · rename_i n
    split at h
    · exact Except.ok.inj h ▸ trivial
    · split at h
      · exact Except.ok.inj h ▸ trivial
      · split at h
        · exact Except.ok.inj h ▸ trivial
        · rename_i hdiffer
          obtain ⟨⟨removed, pruned⟩, hprune, h⟩ := Traced.outcome_bind_eq_ok.mp h
          rw [← Except.ok.inj h]
          refine ⟨rfl, Build.not_alike_of_targetLevel ?_⟩
          have haimed : pruned = state.aimedAt index n := Build.prune_eq hprune
          show pruned.targetLevel.alike state.targetLevel = false
          rw [haimed]
          exact Level.not_alike_of_not_same hdiffer
  · cases h

theorem setOther_alters {name : Text} {value : Value ν} (hvalue : value.IsComparable) :
    (setOther state name value).Alters name state := by
  unfold setOther
  split
  · trivial
  · rename_i hdiffer
    refine ⟨rfl, Build.not_alike_of_fields ?_⟩
    refine Directory.not_same_of_find? (Directory.find?_insert_self _ _ _) fun held hheld => ?_
    rw [hheld, Option.any_some, Bool.not_eq_true] at hdiffer
    exact hvalue.not_alike_of_not_same hdiffer

/-- **Setting a field alters the build**, if the field is the target level or the value can be
compared with the one that the field holds. -/
theorem setField_alters {name : Text} {value : Value ν} {p : Plan ν}
    (hvalue : name = fieldNames.targetLevel ∨ value.IsComparable)
    (h : (setField index config state name value).outcome = .ok p) : p.Alters name state := by
  unfold setField at h
  split at h
  · rename_i hname
    rw [hname]
    exact setLevel_alters h
  · rename_i hlevel
    split at h
    · rename_i hname
      obtain ⟨attributes, _, h⟩ := except_bind_eq_ok.mp h
      split at h
      · exact Except.ok.inj h ▸ trivial
      · rename_i hdiffer
        rw [← Except.ok.inj h, hname]
        exact ⟨rfl, by simp [Build.alike, hdiffer]⟩
    · split at h
      · rename_i hname
        obtain ⟨raws, _, h⟩ := Traced.outcome_bind_eq_ok.mp h
        obtain ⟨inventory, _, h⟩ := Traced.outcome_bind_eq_ok.mp h
        split at h
        · exact Except.ok.inj h ▸ trivial
        · rename_i hdiffer
          rw [← Except.ok.inj h, hname]
          exact ⟨rfl, by simp [Build.alike, hdiffer]⟩
      · split at h
        · rename_i hname
          obtain ⟨info, _, h⟩ := except_bind_eq_ok.mp h
          split at h
          · exact Except.ok.inj h ▸ trivial
          · rename_i hdiffer
            rw [← Except.ok.inj h, hname]
            exact ⟨rfl, by simp [Build.alike, hdiffer]⟩
        · exact Except.ok.inj h ▸ setOther_alters (hvalue.resolve_left hlevel)

end Plan

end CharacterBuild
