import CharacterBuild.Change.Restoring
import CharacterBuild.Proofs.Edits

set_option autoImplicit false

/-! # Levels, fields and restoring

What setting a field does to a build (`Plan.setField_makes`): only the target level has to do
with the choices. If it drops, the selections are pruned by the ids of their groups alone
(`Build.prune_eq`). The second part is about restoring a build. `Build.Restoration` says what
that does to the choices: the build is continued at the level it was restored at, and its
selections are settled ones, each item once.
-/

namespace CharacterBuild

variable {ν : Type} [Number ν]

/-! ## Pruning -/

namespace Build

theorem eq_opensAboveAnywhere_of_isStale {index : Index ν} {level : Level ν} {x : Selection ν}
    {b : Bool} (h : isStale (index.idsAbove level) x = .ok b) :
    b = index.opensAboveAnywhere level x.group := by
  unfold isStale at h
  obtain ⟨a, ha, h⟩ := except_bind_eq_ok.mp h
  -- a group id that can be a key is an atom
  have hgroup : x.group = .atom a := by
    unfold Value.key at ha
    split at ha
    · rename_i heq
      rw [heq, Except.ok.inj ha]
    · cases ha
  rw [hgroup]
  split at h
  · rw [← Except.ok.inj h]
    exact index.contains_idsAbove level _
  · rename_i hnot
    rw [← Except.ok.inj h]
    refine (index.opensAboveAnywhere_of_not_text level fun id hid => ?_).symm
    exact hnot id (Value.atom.inj hid)

/-- If no group opens above a level, no id stands for such a group. -/
theorem opensAboveAnywhere_of_isEmpty {index : Index ν} {level : Level ν}
    (h : (index.idsAbove level).isEmpty = true) (group : Value ν) :
    index.opensAboveAnywhere level group = false := by
  by_cases ht : ∃ id, group = .text id
  · obtain ⟨id, rfl⟩ := ht
    rw [← index.contains_idsAbove, List.isEmpty_iff.mp h]
    rfl
  · exact index.opensAboveAnywhere_of_not_text level fun id hid => ht ⟨id, hid⟩

/-- **A drop of the level removes the selections whose group id stands, in whatever source, for
a group above the new level.** Nothing else changes, and a level that does not drop removes
nothing. -/
theorem prune_eq {s s' : Build ν} {index : Index ν} {old : Level ν} {removed : List (Selection ν)}
    (h : (s.prune index old).outcome = .ok (removed, s')) :
    s' = { s with
      selections :=
        if old ≤ s.targetLevel then s.selections
        else s.selections.filter fun x => !index.opensAboveAnywhere s.targetLevel x.group } := by
  unfold prune at h
  split at h
  · rename_i hrises
    obtain ⟨_, rfl⟩ := Prod.mk.inj (Except.ok.inj h)
    rw [if_pos hrises]
  · rename_i hdrops
    dsimp only at h
    rw [if_neg hdrops]
    split at h
    · rename_i hempty
      obtain ⟨_, rfl⟩ := Prod.mk.inj (Except.ok.inj h)
      have hall : (s.selections.filter fun x => !index.opensAboveAnywhere s.targetLevel x.group)
          = s.selections :=
        List.filter_eq_self.mpr fun x _ => by simp [opensAboveAnywhere_of_isEmpty hempty]
      rw [hall]
    -- each selection is marked as stale or not, and the marked ones are taken out
    · obtain ⟨marked, hmarked, h⟩ := Traced.outcome_bind_eq_ok.mp h
      have hm := mapM_mark_eq_ok (fun _ _ _ => eq_opensAboveAnywhere_of_isStale) hmarked
      have hkept : s' = { s with selections := (split marked).2 } := by
        split at h
        · obtain ⟨_, _, h⟩ := Traced.outcome_bind_eq_ok.mp h
          exact (Prod.mk.inj (Except.ok.inj h)).2.symm
        · exact (Prod.mk.inj (Except.ok.inj h)).2.symm
      have hsplit : (split marked).2
          = s.selections.filter fun x => !index.opensAboveAnywhere s.targetLevel x.group := by
        rw [hm]
        exact filter_unmarked _ _
      rw [hkept, hsplit]

end Build

/-! ## Setting fields -/

namespace Plan

variable {index : Index ν} {config : Config} {scope : Scope ν} {state : Build ν}

/-- A target level that is set lies in the range of levels and not below a settled one. -/
theorem setLevel_commits {value : Value ν} {change : Change ν} {reason : Option (Reason ν)}
    (h : (setLevel index config state value).outcome = .ok (.commit change reason)) :
    ∃ n : Int, value = .whole n ∧ reason = none ∧ config.minLevel ≤ n ∧ n ≤ config.maxLevel ∧
      (∀ r, state.settledUpTo = some r → ¬ (n : Level ν) < r) ∧
      change.state = state.aimedAt index n := by
  unfold setLevel at h
  split at h
  · rename_i n
    split at h
    · cases h
    · rename_i hrange
      split at h
      · cases h
      · rename_i hsettled
        split at h
        · cases h
        · obtain ⟨⟨removed, pruned⟩, hprune, h⟩ := Traced.outcome_bind_eq_ok.mp h
          obtain ⟨rfl, rfl⟩ := Plan.commit.inj (Except.ok.inj h)
          simp only [Bool.or_eq_true, decide_eq_true_eq, not_or, Int.not_lt] at hrange
          refine ⟨n, rfl, rfl, hrange.1, hrange.2, fun r hr hlt => ?_, Build.prune_eq hprune⟩
          rw [hr] at hsettled
          simp [hlt] at hsettled
  · cases h

/-- A target level is turned down if it is out of range or below a settled one. Otherwise it is
kept only if it is the one that is aimed at. -/
theorem setLevel_keeps {value : Value ν} {reason : Option (Reason ν)}
    (h : (setLevel index config state value).outcome = .ok (.keep reason)) :
    ∃ n : Int, value = .whole n ∧
      ((n < config.minLevel ∨ config.maxLevel < n) ∧
          reason = some (.levelOutside config.minLevel config.maxLevel n) ∨
        config.minLevel ≤ n ∧ n ≤ config.maxLevel ∧
          ((∃ r, state.settledUpTo = some r ∧ (n : Level ν) < r ∧
              reason = some (.levelBelow r)) ∨
            state.targetLevel.same n = true ∧ reason = none)) := by
  unfold setLevel at h
  split at h
  · rename_i n
    split at h
    · rename_i hrange
      simp only [Bool.or_eq_true, decide_eq_true_eq] at hrange
      exact ⟨n, rfl, Or.inl ⟨hrange, (Plan.keep.inj (Except.ok.inj h)).symm⟩⟩
    · rename_i hrange
      simp only [Bool.or_eq_true, decide_eq_true_eq, not_or, Int.not_lt] at hrange
      refine ⟨n, rfl, Or.inr ⟨hrange.1, hrange.2, ?_⟩⟩
      split at h
      · rename_i r hsettled
        obtain ⟨hr, hbelow⟩ := Option.filter_eq_some_iff.mp hsettled
        exact Or.inl ⟨r, hr, of_decide_eq_true hbelow, (Plan.keep.inj (Except.ok.inj h)).symm⟩
      · split at h
        · rename_i hsame
          exact Or.inr ⟨hsame, (Plan.keep.inj (Except.ok.inj h)).symm⟩
        · obtain ⟨_, _, h⟩ := Traced.outcome_bind_eq_ok.mp h
          cases h
  · cases h

/-- What setting a field does to a build. -/
inductive Sets (index : Index ν) (config : Config) (s : Build ν) (name : Text) (value : Value ν) :
    Build ν → Prop where
  | level {n : Int} (hname : name = fieldNames.targetLevel) (hvalue : value = .whole n)
      (hleast : config.minLevel ≤ n) (hmost : n ≤ config.maxLevel)
      (hsettled : ∀ r, s.settledUpTo = some r → ¬ (n : Level ν) < r) :
      Sets index config s name value (s.aimedAt index n)
  | attributes {d : Directory (Atom ν) (Value ν)} (hname : name = fieldNames.attributes)
      (hd : textKeyed value (fun v => v) = .ok d) :
      Sets index config s name value { s with attributes := d }
  | inventory {raws : List (Value ν)} {lines : List (InventoryLine ν)}
      (hname : name = fieldNames.inventory) (hraws : value.elements = .ok raws)
      (hlines : (InventoryLine.readAll raws).outcome = .ok lines) :
      Sets index config s name value { s with inventory := lines }
  | info {d : Directory (Atom ν) (Value ν)} (hname : name = fieldNames.info)
      (hd : textKeyed value (fun v => .text v.str) = .ok d) :
      Sets index config s name value { s with info := d }
  | other {fields : Directory Text (Value ν)} (hname : name ≠ fieldNames.targetLevel) :
      Sets index config s name value { s with fields := fields }

/-- **Setting a field** sets what is read of the value, or nothing. -/
theorem setField_sets {name : Text} {value : Value ν} {p : Plan ν}
    (h : (setField index config state name value).outcome = .ok p) :
    p.Makes (Sets index config state name value) := by
  unfold setField at h
  split at h
  · rename_i hname
    cases p with
    | keep reason => trivial
    | commit change reason =>
        obtain ⟨n, hn, _, hleast, hmost, hsettled, hstate⟩ := setLevel_commits h
        show Sets index config state name value change.state
        rw [hstate]
        exact .level hname hn hleast hmost hsettled
  · rename_i hlevel
    split at h
    · rename_i hname
      obtain ⟨attributes, hd, h⟩ := except_bind_eq_ok.mp h
      split at h
      · exact Except.ok.inj h ▸ trivial
      · rw [← Except.ok.inj h]
        exact .attributes hname hd
    · split at h
      · rename_i hname
        obtain ⟨raws, hraws, h⟩ := Traced.outcome_bind_eq_ok.mp h
        obtain ⟨inventory, hlines, h⟩ := Traced.outcome_bind_eq_ok.mp h
        split at h
        · exact Except.ok.inj h ▸ trivial
        · rw [← Except.ok.inj h]
          exact .inventory hname hraws hlines
      · split at h
        · rename_i hname
          obtain ⟨info, hd, h⟩ := except_bind_eq_ok.mp h
          split at h
          · exact Except.ok.inj h ▸ trivial
          · rw [← Except.ok.inj h]
            exact .info hname hd
        · rw [← Except.ok.inj h]
          unfold setOther
          split
          · trivial
          · exact .other hlevel

/-- Setting anything but the level leaves all choices as they are. -/
theorem Sets.sameChoices {name : Text} {value : Value ν} {s s' : Build ν}
    (h : Sets index config s name value s') (hname : name ≠ fieldNames.targetLevel) :
    s.SameChoices s' := by
  cases h with
  | level hlevel => exact absurd hlevel hname
  | attributes => exact ⟨rfl, rfl, rfl, rfl⟩
  | inventory => exact ⟨rfl, rfl, rfl, rfl⟩
  | info => exact ⟨rfl, rfl, rfl, rfl⟩
  | other => exact ⟨rfl, rfl, rfl, rfl⟩

/-- **Setting a field aims at a level or leaves all choices as they are.** -/
theorem setField_makes {name : Text} {value : Value ν} {p : Plan ν}
    (haims : name = fieldNames.targetLevel → ∀ n, value = .whole n → scope.aims n)
    (h : (setField index config state name value).outcome = .ok p) :
    p.Makes (state.Edit index config scope) := by
  refine (setField_sets h).mono fun s' hsets => ?_
  by_cases hname : name = fieldNames.targetLevel
  · cases hsets with
    | level _ hvalue hleast hmost hsettled =>
        exact .aim (haims hname _ hvalue) hleast hmost hsettled
    | attributes hname' => exact absurd (hname.symm.trans hname') (by decide)
    | inventory hname' => exact absurd (hname.symm.trans hname') (by decide)
    | info hname' => exact absurd (hname.symm.trans hname') (by decide)
    | other hname' => exact absurd hname hname'
  · exact .fill (hsets.sameChoices hname)

end Plan

/-! ## Restoring -/

/-- What restoring a build at a level does to its choices. The restored selections follow those
that the build has already. -/
structure Build.Restoration (config : Config) (restored : Selection ν → Prop) (level : Level ν)
    (s s' : Build ν) : Prop where
  least : ¬ level < (config.minLevel : Level ν)
  most : ¬ (config.maxLevel : Level ν) < level
  mode : s'.mode = .continuation
  restoredAt : s'.restoredAt = some level
  target : s'.targetLevel = level
  selections : ∃ settled : List (Selection ν), s'.selections = s.selections ++ settled ∧
    (settled.map Selection.id).Nodup ∧
    ∀ x ∈ settled, ∃ y, restored y ∧ x = { y with locked := true }

/-- All that is restored is settled, so open selections keep what they have. -/
theorem Build.Restoration.open_all {config : Config} {restored : Selection ν → Prop}
    {level : Level ν} {s s' : Build ν} {P : Selection ν → Prop}
    (hr : s.Restoration config restored level s')
    (h : ∀ x ∈ s.selections, x.locked = false → P x) :
    ∀ x ∈ s'.selections, x.locked = false → P x := by
  obtain ⟨settled, hselections, _, hlocked⟩ := hr.selections
  intro x hx hopen
  rw [hselections] at hx
  rcases List.mem_append.mp hx with hx | hx
  · exact h x hx hopen
  · obtain ⟨y, _, rfl⟩ := hlocked x hx
    cases hopen

namespace Plan

omit [Number ν] in
/-- Of the selections to restore, the first one of each item is settled. -/
theorem settle_spec {seen : List Text} {saved settled : List (Selection ν)}
    (h : (settle seen saved).outcome = .ok settled) :
    (settled.map Selection.id).Nodup ∧ (∀ x ∈ settled, x.id ∉ seen) ∧
      ∀ x ∈ settled, ∃ y ∈ saved, x = { y with locked := true } := by
  induction saved generalizing seen settled with
  | nil =>
      rw [← Except.ok.inj h]
      exact ⟨List.nodup_nil, nofun, nofun⟩
  | cons a rest ih =>
      unfold settle at h
      split at h
      · obtain ⟨_, _, h⟩ := Traced.outcome_bind_eq_ok.mp h
        obtain ⟨hnodup, hunseen, hfrom⟩ := ih h
        -- seen before: it is left out
        refine ⟨hnodup, hunseen, fun x hx => ?_⟩
        obtain ⟨y, hy, hxy⟩ := hfrom x hx
        exact ⟨y, List.mem_cons_of_mem _ hy, hxy⟩
      · rename_i hnew
        have hnew : a.id ∉ seen := by simpa using hnew
        obtain ⟨others, hothers, h⟩ := Traced.outcome_bind_eq_ok.mp h
        rw [← Except.ok.inj h]
        obtain ⟨hnodup, hunseen, hfrom⟩ := ih hothers
        refine ⟨?_, fun x hx => ?_, fun x hx => ?_⟩
        -- what follows was settled with this item among the seen ones
        · rw [List.map_cons, List.nodup_cons]
          refine ⟨fun hmem => ?_, hnodup⟩
          obtain ⟨x, hx, hid⟩ := List.mem_map.mp hmem
          exact hunseen x hx (by simp [hid])
        · rcases List.mem_cons.mp hx with rfl | hx
          · exact hnew
          · exact fun hmem => hunseen x hx (List.mem_cons_of_mem _ hmem)
        · rcases List.mem_cons.mp hx with rfl | hx
          · exact ⟨a, by simp, rfl⟩
          · obtain ⟨y, hy, hxy⟩ := hfrom x hx
            exact ⟨y, List.mem_cons_of_mem _ hy, hxy⟩

theorem restoredLevel_spec {config : Config} {value : Value ν} {level : Level ν}
    (h : restoredLevel config value = .ok level) :
    Level.ofValue? value = some level ∧ ¬ level < (config.minLevel : Level ν) ∧
      ¬ (config.maxLevel : Level ν) < level := by
  unfold restoredLevel at h
  split at h
  · cases h
  · rename_i l hl
    split at h
    · cases h
    · rename_i hrange
      obtain rfl := Except.ok.inj h
      simp only [Bool.or_eq_true, decide_eq_true_eq, not_or] at hrange
      exact ⟨hl, hrange⟩

/-- **Restoring a build settles what is restored, at a level within the range.** -/
theorem restore_makes {config : Config} {state : Build ν} {value : Value ν} {level : Level ν}
    {saved : List (Selection ν)} {r : Restored ν} {p : Plan ν}
    (hlevel : restoredLevel config value = .ok level)
    (h : (restore state level saved r).outcome = .ok p) :
    ∃ change reason, p = .commit change reason ∧
      state.Restoration config (· ∈ saved) level change.state := by
  unfold restore at h
  obtain ⟨settled, hsettle, h⟩ := Traced.outcome_bind_eq_ok.mp h
  obtain ⟨attributes, _, h⟩ := Traced.outcome_bind_eq_ok.mp h
  obtain ⟨raws, _, h⟩ := Traced.outcome_bind_eq_ok.mp h
  obtain ⟨inventory, _, h⟩ := Traced.outcome_bind_eq_ok.mp h
  obtain ⟨info, _, h⟩ := Traced.outcome_bind_eq_ok.mp h
  obtain ⟨_, hleast, hmost⟩ := restoredLevel_spec hlevel
  obtain ⟨hnodup, _, hfrom⟩ := settle_spec hsettle
  exact ⟨_, _, (Except.ok.inj h).symm,
    ⟨hleast, hmost, rfl, rfl, rfl, settled, rfl, hnodup, hfrom⟩⟩

end Plan

end CharacterBuild
