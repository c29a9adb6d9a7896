import CharacterBuild.Proofs.Moves
import CharacterBuild.Proofs.WellFormed

set_option autoImplicit false

/-! # Builds that were created

A build that was created from nothing by calls by names could have been made by selecting the items
of its list in a row, as far as the rules have to do with anything but points: no item stands there
twice, each stands in the group that it is selected in, is held as the catalog allows and is not
settled, no group holds more than it may, and the target level is a whole one in range. Its
attributes and its information are under texts. All of this is `Build.Created`; every move keeps it
(`Build.Created.move`), so every call by names does, for as long as no build is restored
(`Guided.created_after`).

The state also passes the check whenever states are checked, unless it is still the one that the
build has started from, which nobody has checked.
-/

namespace CharacterBuild

variable {ν : Type} [Number ν]

/-- No group holds more than it may, counted by the keys of sources. -/
def Build.FitsGroups (index : Index ν) (s : Build ν) : Prop :=
  ∀ source id g limit, index.groupOf? source.name id = some g → g.limit = some limit →
    (s.membersOf source id).length ≤ limit

/-- **A build that was created from nothing.** -/
structure Build.Created (index : Index ν) (config : Config) (s : Build ν) : Prop where
  steady : s.Steady index config true
  whole : ∃ n : Int, s.targetLevel = .whole n
  keyed : s.Keyed index
  distinct : (s.selections.map Selection.id).Nodup
  unlocked : ∀ x ∈ s.selections, x.locked = false
  placed : ∀ x ∈ s.selections, x.InPlace index
  groups : s.FitsGroups index
  attributes : ∀ e ∈ s.attributes.entries, ∃ name, e.1 = .text name
  info : ∀ e ∈ s.info.entries, ∃ name v, e = (.text name, .text v)
  passes : s ≠ Build.initial config → config.checksState = true → s.violations index = .ok []

namespace Build

variable {index : Index ν} {config : Config} {s s' : Build ν}

/-! ## Groups within their limits -/

theorem FitsGroups.of_sublist (h : s.FitsGroups index)
    (hsub : s'.selections.Sublist s.selections) : s'.FitsGroups index :=
  fun source id g limit hg hlimit =>
    Nat.le_trans (hsub.filter _).length_le (h source id g limit hg hlimit)

/-- Where there is room in a group, it has fewer members left than it may have. -/
theorem Room.members_lt {item : Item ν} {source : SourceId} {g : Group ν}
    {others : List (Selection ν)} {limit : Nat} (h : s.Room item source (some g) others)
    (hlimit : g.limit = some limit) :
    (others.filter (Selection.isIn source g.id)).length < limit := by
  cases h with
  | free _ hl =>
      rw [hl] at hlimit
      cases hlimit
  | spare _ hl hspare =>
      rw [hl] at hlimit
      obtain rfl := Option.some.inj hlimit
      exact hspare
  | instead _ hl _ =>
      rw [hl] at hlimit
      obtain rfl := Option.some.inj hlimit
      -- all members are gone
      rw [List.filter_filter, Nat.lt_one_iff, List.length_eq_zero_iff, List.filter_eq_nil_iff]
      intro y _
      simp

omit [Number ν] in
/-- A new selection is one more in the group that it is in. -/
theorem length_filter_put {others : List (Selection ν)} {x : Selection ν} (source : SourceId)
    (id : Text) : ((others ++ [x]).filter (Selection.isIn source id)).length
      = (others.filter (Selection.isIn source id)).length + if x.isIn source id then 1 else 0 := by
  rw [← List.countP_eq_length_filter, ← List.countP_eq_length_filter, List.countP_append,
    List.countP_singleton]

theorem FitsGroups.put {item : Item ν} {x : Selection ν} {g : Option (Group ν)}
    {others : List (Selection ν)} (h : s.FitsGroups index)
    (hgroup : index.groupNamed x.source.name x.group = .ok g)
    (hroom : s.Room item x.source g others) :
    FitsGroups index { s with selections := others ++ [x] } := by
  intro source id g' limit hg' hlimit
  show ((others ++ [x]).filter (Selection.isIn source id)).length ≤ limit
  have hold : (others.filter (Selection.isIn source id)).length ≤ limit :=
    Nat.le_trans (hroom.sublist.filter _).length_le (h source id g' limit hg' hlimit)
  rw [length_filter_put]
  by_cases hx : x.isIn source id = true
  · rw [if_pos hx]
    simp only [Selection.isIn, Bool.and_eq_true, decide_eq_true_eq, Value.isText_iff] at hx
    obtain ⟨rfl, htext⟩ := hx
    -- the item is put into the very group whose members are counted
    rw [htext, Index.groupNamed_text, hg'] at hgroup
    obtain rfl := Except.ok.inj hgroup
    obtain ⟨_, rfl⟩ := index.mem_of_groupOf? hg'
    exact hroom.members_lt hlimit
  · rw [if_neg hx]
    exact hold

/-- A selection that is replaced in its place leaves as many in every group. -/
theorem length_membersOf_revise {before after : List (Selection ν)} {x y : Selection ν}
    (hs : s.selections = before ++ x :: after) (hplace : x.SamePlace y) (source : SourceId)
    (id : Text) :
    (membersOf { s with selections := before ++ y :: after } source id).length
      = (s.membersOf source id).length := by
  have hsame : y.isIn source id = x.isIn source id := by
    simp [Selection.isIn, hplace.source, hplace.group]
  unfold membersOf
  rw [← List.countP_eq_length_filter, ← List.countP_eq_length_filter, hs]
  simp [List.countP_append, List.countP_cons, hsame]

theorem FitsGroups.revise {before after : List (Selection ν)} {x y : Selection ν}
    (h : s.FitsGroups index) (hs : s.selections = before ++ x :: after) (hplace : x.SamePlace y) :
    FitsGroups index { s with selections := before ++ y :: after } := by
  intro source id g limit hg hlimit
  rw [length_membersOf_revise hs hplace]
  exact h source id g limit hg hlimit

theorem FitsGroups.edit {scope : Scope ν} (h : s.FitsGroups index)
    (hedit : s.Edit index config scope s') : s'.FitsGroups index := by
  cases hedit with
  | drop hx hopen => exact h.of_sublist List.filter_sublist
  | put hnew hid hopen hheld hgroup hroom hputs => exact h.put hgroup hroom
  | revise hs hopen hplace hheld hcount => exact h.revise hs hplace
  | aim haims hleast hmost hsettled => exact h.of_sublist (aimedAt_sublist index s _)
  | fill hsame => exact h.of_sublist hsame.sublist

/-! ## Moves -/

/-- An edit selects nothing that is settled. -/
theorem Edit.unlocked {scope : Scope ν} (h : s.Edit index config scope s')
    (hs : ∀ x ∈ s.selections, x.locked = false) : ∀ x ∈ s'.selections, x.locked = false := by
  refine h.forall_mem hs ?_ ?_
  · intro item x g others _ hopen _ _ _ _
    exact hopen
  · intro x y hopen _ hplace _ _
    exact hplace.locked.trans hopen

/-- An edit aims at a whole level or leaves the one that there is. -/
theorem Edit.whole {scope : Scope ν} (h : s.Edit index config scope s')
    (hs : ∃ n : Int, s.targetLevel = .whole n) : ∃ n : Int, s'.targetLevel = .whole n := by
  cases h with
  | drop => exact hs
  | put => exact hs
  | revise => exact hs
  | aim => exact ⟨_, rfl⟩
  | fill hsame => rw [hsame.target]; exact hs

/-- A move leaves or puts every selection in its place that is not settled. -/
theorem Move.placed (h : s.Move index config s')
    (hs : ∀ x ∈ s.selections, x.locked = false → x.InPlace index) :
    ∀ x ∈ s'.selections, x.locked = false → x.InPlace index := by
  cases h with
  | choose hedit honly hplaces =>
      intro x hx hopen
      rcases hplaces x hx with ⟨y, hy, hplace⟩ | hx
      · exact (hs y hy (hplace.locked.symm.trans hopen)).of_samePlace hplace
      · exact hx
  | set h =>
      cases h with
      | level => exact fun x hx => hs x ((aimedAt_sublist index s _).subset hx)
      | attributes => exact hs
      | inventory => exact hs
      | info => exact hs
      | other => exact hs
  | restore h =>
      obtain ⟨settled, hselections, _, hlocked⟩ := h.selections
      intro x hx hopen
      rw [hselections] at hx
      rcases List.mem_append.mp hx with hx | hx
      · exact hs x hx hopen
      · -- what is restored is settled
        obtain ⟨y, _, rfl⟩ := hlocked x hx
        cases hopen

end Build

/-! ## Names -/

theorem Directory.forall_mem_put {κ β : Type} [BEq κ] {P : κ × β → Prop} {k : κ} {v : β}
    {l : List (κ × β)} (hl : ∀ e ∈ l, P e) (hk : P (k, v)) (hvalue : ∀ e ∈ l, P (e.1, v)) :
    ∀ e ∈ put k v l, P e := by
  induction l with
  | nil =>
      intro e he
      rw [List.mem_singleton.mp he]
      exact hk
  | cons a rest ih =>
      intro e he
      unfold put at he
      split at he
      · rcases List.mem_cons.mp he with rfl | he
        · exact hvalue a (by simp)
        · exact hl e (by simp [he])
      · rcases List.mem_cons.mp he with rfl | he
        · exact hl _ (by simp)
        · exact ih (fun e he => hl e (by simp [he])) (fun e he => hvalue e (by simp [he])) e he

/-- The entries of a directory that is read by texts. -/
theorem Plan.entries_textKeyed {raw : Value ν} {ofValue : Value ν → Value ν}
    {d : Directory (Atom ν) (Value ν)} (h : textKeyed raw ofValue = .ok d) :
    ∀ e ∈ d.entries, ∃ name v, e = (.text name, ofValue v) := by
  obtain ⟨pairs, _, h⟩ := except_bind_eq_ok.mp h
  obtain rfl := Except.ok.inj h
  have key : ∀ (l : List (Atom ν × Value ν)) (d : Directory (Atom ν) (Value ν)),
      (∀ e ∈ l, ∃ name v, e = (.text name, ofValue v)) →
      (∀ e ∈ d.entries, ∃ name v, e = (.text name, ofValue v)) →
      ∀ e ∈ (l.foldl (fun d e => d.insert e.1 e.2) d).entries,
        ∃ name v, e = (.text name, ofValue v) := by
    intro l
    induction l with
    | nil => exact fun d _ hd => hd
    | cons a rest ih =>
        intro d hl hd
        obtain ⟨name, v, rfl⟩ := hl a (by simp)
        refine ih _ (fun e he => hl e (by simp [he])) ?_
        refine Directory.forall_mem_put hd ⟨name, v, rfl⟩ fun e he => ?_
        obtain ⟨name', _, rfl⟩ := hd e he
        exact ⟨name', v, rfl⟩
  refine key _ _ (fun e he => ?_) nofun
  obtain ⟨a, _, rfl⟩ := List.mem_map.mp he
  exact ⟨_, _, rfl⟩

namespace Build

variable {index : Index ν} {config : Config} {s s' : Build ν}

/-- A move leaves the attributes and the information under texts, unless a build is restored. -/
theorem Move.named (h : s.Move index config s') (hmode : s'.mode = .creation)
    (hattributes : ∀ e ∈ s.attributes.entries, ∃ name, e.1 = .text name)
    (hinfo : ∀ e ∈ s.info.entries, ∃ name v, e = (.text name, .text v)) :
    (∀ e ∈ s'.attributes.entries, ∃ name, e.1 = .text name) ∧
      ∀ e ∈ s'.info.entries, ∃ name v, e = (.text name, .text v) := by
  cases h with
  | choose hedit honly hplaces =>
      rw [honly]
      exact ⟨hattributes, hinfo⟩
  | set h =>
      cases h with
      | level => exact ⟨hattributes, hinfo⟩
      | attributes _ hd =>
          refine ⟨fun e he => ?_, hinfo⟩
          obtain ⟨name, _, rfl⟩ := Plan.entries_textKeyed hd e he
          exact ⟨name, rfl⟩
      | inventory => exact ⟨hattributes, hinfo⟩
      | info _ hd =>
          refine ⟨hattributes, fun e he => ?_⟩
          obtain ⟨name, v, rfl⟩ := Plan.entries_textKeyed hd e he
          exact ⟨name, v.str, rfl⟩
      | other => exact ⟨hattributes, hinfo⟩
  | restore h =>
      rw [h.mode] at hmode
      cases hmode

/-- **A move from a build that was created leads to another one**, unless a build is restored. -/
theorem Created.move (h : s.Created index config) (hmove : s.Move index config s')
    (hmode : s'.mode = .creation)
    (hpass : config.checksState = true → s'.violations index = .ok []) :
    s'.Created index config := by
  have hedit : s.Edit index config (Scope.byName index) s' := by
    refine hmove.edit_or.resolve_right fun hrestored => ?_
    rw [hrestored] at hmode
    cases hmode
  have hitems : ∀ item x, (Scope.byName index).puts item x → index.item? item.id = some item :=
    fun _ _ hputs => hputs.1
  have hkeys : ∀ item x, (Scope.byName index).puts item x →
      x.source = index.keyOf x.source.name := fun _ _ hputs => hputs.2
  obtain ⟨hattributes, hinfo⟩ := hmove.named hmode h.attributes h.info
  exact {
    steady := h.steady.edit hitems hedit
    whole := hedit.whole h.whole
    keyed := h.keyed.edit hkeys hedit
    distinct := hedit.nodup h.distinct
    unlocked := hedit.unlocked h.unlocked
    placed := fun x hx =>
      hmove.placed (fun y hy _ => h.placed y hy) x hx (hedit.unlocked h.unlocked x hx)
    groups := h.groups.edit hedit
    attributes := hattributes
    info := hinfo
    passes := fun _ => hpass }

theorem Created.initial (hrange : config.minLevel ≤ config.maxLevel) :
    (initial config : Build ν).Created index config where
  steady := {
    least := Level.whole_le_whole.mpr (Int.le_refl _)
    most := Level.whole_le_whole.mpr hrange
    restored := nofun
    selections := nofun
    target := ⟨_, Level.isAt_whole _⟩
    settled := nofun
    fresh := nofun }
  whole := ⟨_, rfl⟩
  keyed := nofun
  distinct := List.nodup_nil
  unlocked := nofun
  placed := nofun
  groups := fun _ _ _ _ _ _ => Nat.zero_le _
  attributes := nofun
  info := nofun
  passes := fun h => absurd rfl h

end Build

namespace Guided

/-- **Every build that calls by names reach has been created like that**, unless it was
restored. -/
theorem created_after {catalog : Catalog ν} {config : Config}
    (hrange : config.minLevel ≤ config.maxLevel) {s : Session ν (Call ν)}
    (hs : (newBuild catalog config).outcome = .ok s) {calls : List (Call ν)}
    (hcalls : ∀ c ∈ calls, c.ByName) (hmode : (after s calls).state.mode = .creation) :
    (after s calls).state.Created s.index config := by
  have hmoves : (statesWith s.index config fun build =>
      build.mode = .creation → build.Created s.index config).Meets (after s calls) := by
    refine moves_after ?_ ?_ hcalls
    · intro build build' hcreated hmove hpass hmode
      exact (hcreated (hmove.created hmode)).move hmove hmode hpass
    · obtain rfl := Except.ok.inj hs
      exact ⟨rfl, rfl, rfl, fun _ => Build.Created.initial hrange⟩
  exact hmoves.holds hmode

end Guided

end CharacterBuild
