import CharacterBuild.Proofs.Silence

set_option autoImplicit false

/-! # Resuming a build

A new build is resumed from saved selections, at a level in range that passes the check. What it
comes to is said by `Guided.settles_restore`: a build that is continued at this level, with the
first selection of each item, all of them settled. Settled selections count towards no limit, so
such a build passes the check as soon as its level is at least one (`Build.violations_of_settled`).

Nothing is lost on the way. A selection is read as it was saved, only open, if its source has the
key that the catalog has under its name and its options are texts (`Selection.reread_of_declared`);
and where no item comes twice, all of them are settled (`Plan.settle_of_nodup`).
-/

namespace CharacterBuild

variable {ν : Type} [Number ν]

/-! ## Reading selections -/

namespace Selection

variable {index : Index ν} {x : Selection ν}

/-- What a saved selection is read as. -/
def reread (index : Index ν) (x : Selection ν) : Selection ν :=
  { x with
    source := index.keyOf x.source.name
    options := x.options.map fun o => .text o.str
    locked := false }

/-- A selection from the source that the catalog has under its name, with options that are
texts. -/
structure Declared (index : Index ν) (x : Selection ν) : Prop where
  keyed : x.source = index.keyOf x.source.name
  options : ∀ o ∈ x.options, ∃ t, o = .text t

/-- Such a selection is read as it was saved, but it is open. -/
theorem reread_of_declared (h : x.Declared index) :
    x.reread index = { x with locked := false } := by
  have hoptions : (x.options.map fun o => (.text o.str : Value ν)) = x.options := by
    refine (List.map_congr_left fun o ho => ?_).trans (List.map_id _)
    obtain ⟨t, rfl⟩ := h.options o ho
    rfl
  unfold reread
  rw [hoptions, ← h.keyed]

/-- **A saved selection can always be read.** -/
theorem read_saved (index : Index ν) (x : Selection ν) :
    (read index.catalog (.object x.saved)).outcome = .ok (some (x.reread index)) := by
  have hraw : (do .ok (← (Value.object x.saved).member "id",
      ← (Value.object x.saved).member "source", ← (Value.object x.saved).members) :
      Except (Fault ν) (Value ν × Value ν × Members ν))
        = .ok (.text x.id, .text x.source.name, x.saved) := by
    have hid : (Value.object x.saved).member "id" = .ok (.text x.id) := by
      unfold Value.member
      dsimp only
      rw [x.lookup_saved (v := some (.text x.id)) (by simp [parts])]
    have hsource : (Value.object x.saved).member "source" = .ok (.text x.source.name) := by
      unfold Value.member
      dsimp only
      rw [x.lookup_saved (v := some (.text x.source.name)) (by simp [parts])]
    rw [hid, hsource]
    rfl
  have hquantity : (Value.memberOrNull "quantity" x.saved).toWhole? = .ok x.quantity := by
    unfold Value.memberOrNull
    rw [x.lookup_saved (v := x.quantity.map .whole) (by simp [parts])]
    cases x.quantity <;> rfl
  have hequipped : (Value.memberOrNull "equipped" x.saved).toFlag? = x.equipped := by
    unfold Value.memberOrNull
    rw [x.lookup_saved (v := x.equipped.map .bool) (by simp [parts])]
    cases x.equipped <;> rfl
  have hoptions : ((Value.memberOrNull "selections" x.saved).texts).map .text
      = x.options.map fun o => (.text o.str : Value ν) := by
    unfold Value.memberOrNull
    rw [x.lookup_saved (v := if x.options.isEmpty then none else some (.list x.options))
      (by simp [parts])]
    cases x.options with
    | nil => rfl
    | cons o rest =>
        show ((o :: rest).map Value.str).map Value.text = _
        rw [List.map_map]
        rfl
  unfold read
  rw [hraw]
  dsimp only
  rw [hoptions, hequipped, x.memberOrNull_saved_group, hquantity]
  -- the key that is looked up is the one that the name stands for
  have hread : ∀ key, key = index.keyOf x.source.name →
      (((fun quantity => some
        ({ id := x.id, source := key, group := x.group,
           options := x.options.map fun o => .text o.str, quantity := quantity,
           equipped := x.equipped } : Selection ν)) <$>
        (Traced.lift (.ok x.quantity) : Traced ν (Option Int))).orSkip fun fault => do
          Traced.note (.selectionQuantityBad x.id fault)
          pure none).outcome = .ok (some (x.reread index)) := by
    rintro _ rfl
    exact Traced.outcome_orSkip_of_ok rfl
  have hfound : index.source? x.source.name = index.catalog.source? x.source.name := rfl
  split
  · rename_i definition h
    refine hread definition.key ?_
    unfold Index.keyOf
    rw [hfound, show index.catalog.source? x.source.name = some definition from h]
  · rename_i h
    refine hread ⟨x.source.name, .primary⟩ ?_
    unfold Index.keyOf
    rw [hfound, show index.catalog.source? x.source.name = none from h]

end Selection

/-- The saved forms of some selections can all be read. -/
theorem SavedSelection.resolveAll_saved (index : Index ν) (selections : List (Selection ν)) :
    (resolveAll index.catalog (selections.map fun x => .saved (.object x.saved))).outcome
      = .ok (selections.map (Selection.reread index)) := by
  induction selections with
  | nil => rfl
  | cons x rest ih =>
      rw [List.map_cons, resolveAll, Traced.outcome_bind_of_ok (x.read_saved index),
        Traced.outcome_bind_of_ok ih]
      rfl

/-! ## Settling selections -/

namespace Plan

omit [Number ν] in
/-- Settling selections always ends in a value. -/
theorem exists_settle (seen : List Text) (saved : List (Selection ν)) :
    ∃ settled, (settle seen saved).outcome = .ok settled := by
  induction saved generalizing seen with
  | nil => exact ⟨[], rfl⟩
  | cons x rest ih =>
      unfold settle
      split
      · exact ih seen
      · obtain ⟨settled, hsettled⟩ := ih (x.id :: seen)
        exact ⟨_, Traced.outcome_bind_eq_ok.mpr ⟨settled, hsettled, rfl⟩⟩

omit [Number ν] in
/-- **Where no item comes twice, all selections are settled**, in their order. -/
theorem settle_of_nodup {seen : List Text} {saved : List (Selection ν)}
    (hnodup : (saved.map Selection.id).Nodup) (hnew : ∀ x ∈ saved, x.id ∉ seen) :
    (settle seen saved).outcome = .ok (saved.map fun x => { x with locked := true }) := by
  induction saved generalizing seen with
  | nil => rfl
  | cons x rest ih =>
      rw [List.map_cons, List.nodup_cons] at hnodup
      have hrest : ∀ y ∈ rest, y.id ∉ x.id :: seen := by
        intro y hy hmem
        rcases List.mem_cons.mp hmem with heq | hmem
        · exact hnodup.1 (List.mem_map.mpr ⟨y, hy, heq⟩)
        · exact hnew y (by simp [hy]) hmem
      unfold settle
      rw [if_neg (by simpa using hnew x (by simp)),
        Traced.outcome_bind_of_ok (ih hnodup.2 hrest)]
      rfl

end Plan

/-- **Where everything is settled, no limit is broken**: if no item comes twice, only the level of
a build can be wrong. -/
theorem Build.violations_of_settled {s : Build ν} (index : Index ν)
    (hdistinct : (s.selections.map Selection.id).Nodup)
    (hsettled : ∀ x ∈ s.selections, x.locked = true) :
    s.violations index = .ok s.levelViolations := by
  have hnone : s.unlocked = [] :=
    List.filter_eq_nil_iff.mpr fun x hx => by simp [hsettled x hx]
  have hordered : s.groupsOrdered = .ok () := by
    rw [groupsOrdered_eq_ok_iff, hnone]
    exact ⟨nofun, nofun⟩
  have hgroups : s.groupViolations index = [] := by
    refine groupViolations_eq_nil fun source id g limit _ _ => ?_
    rw [countIn, hnone]
    exact Nat.zero_le limit
  rw [violations, hordered, repeatViolations_eq_nil_iff.mpr hdistinct, hgroups, hnone]
  show Except.ok (s.levelViolations ++ [] ++ [] ++ []) = _
  rw [List.append_nil, List.append_nil, List.append_nil]

/-! ## Restoring a new build -/

/-- What is restored beside the selections can be read. -/
structure Restored.Reads (r : Restored ν) (attributes : Directory (Atom ν) (Value ν))
    (inventory : List (InventoryLine ν)) (info : Directory (Atom ν) (Value ν)) : Prop where
  attributes : Plan.directoryOf r.attributes = .ok attributes
  inventory : ∃ lines, (r.inventory.orElse (.list [])).elements = .ok lines ∧
    (InventoryLine.readAll lines).outcome = .ok inventory
  info : Plan.directoryOf r.info = .ok info

/-- The build that is continued at a level. -/
def Build.resumed (level : Level ν) (settled : List (Selection ν))
    (attributes : Directory (Atom ν) (Value ν)) (inventory : List (InventoryLine ν))
    (info : Directory (Atom ν) (Value ν)) : Build ν where
  targetLevel := level
  mode := .continuation
  restoredAt := some level
  selections := settled
  attributes := attributes
  inventory := inventory
  info := info

section

variable {config : Config} {r : Restored ν} {attributes : Directory (Atom ν) (Value ν)}
  {inventory : List (InventoryLine ν)} {info : Directory (Atom ν) (Value ν)} {level : Level ν}
  {saved settled : List (Selection ν)}

/-- Restoring a new build plans one change, whose state can only have too low a level. -/
theorem Plan.restore_commits (index : Index ν) (config : Config) (level : Level ν)
    (hreads : r.Reads attributes inventory info)
    (hsettle : (settle [] saved).outcome = .ok settled) :
    let resumed := Build.resumed level settled attributes inventory info
    (∃ change, (restore (Build.initial config) level saved r).outcome = .ok (.commit change none) ∧
      change.state = resumed) ∧
    resumed.violations index
      = .ok (if level < ((1 : Int) : Level ν) then [.levelTooLow level] else []) := by
  intro resumed
  obtain ⟨lines, hlines, hinventory⟩ := hreads.inventory
  constructor
  · unfold restore
    rw [Traced.outcome_bind_of_ok hsettle, Traced.outcome_bind_of_ok (a := attributes)
      hreads.attributes, Traced.outcome_bind_of_ok (a := lines) hlines,
      Traced.outcome_bind_of_ok hinventory, Traced.outcome_bind_of_ok (a := info) hreads.info]
    exact ⟨_, rfl, rfl⟩
  · obtain ⟨hnodup, _, hfrom⟩ := settle_spec hsettle
    refine Build.violations_of_settled index hnodup fun x hx => ?_
    obtain ⟨y, _, rfl⟩ := hfrom x hx
    rfl

namespace Guided

variable {selections : List (SavedSelection ν)}

/-- A build that is not changed yet is restored by a request, if what is to be restored can be
read. -/
theorem restore_run {s : Session ν (Call ν)} (hfresh : s.changed = false)
    (hsaved : (SavedSelection.resolveAll s.index.catalog selections).outcome = .ok saved)
    (hlevel : Plan.restoredLevel s.config r.level = .ok level) :
    let t := Session.request Call.runInside (fun _ state => Plan.restore state level saved r) s
    ((Call.restore selections r).run s).session = t.session ∧
      ((Call.restore selections r).run s).outcome = t.outcome.map fun _ => .nothing := by
  intro t
  have hrun : (Call.restore selections r).run s
      = ((fun _ => Answer.nothing) <$> restore Call.runInside selections r) s := rfl
  rw [hrun, Action.map_apply]
  unfold restore
  rw [ask_bind_of_ok hsaved]
  unfold Session.restore
  rw [Action.session_bind, if_neg (by simp [hfresh]), Action.lift_bind_of_ok hlevel,
    Action.bind_apply]
  cases t.outcome with
  | ok result => exact ⟨rfl, rfl⟩
  | error fault => exact ⟨rfl, rfl⟩

variable {catalog : Catalog ν} {s : Session ν (Call ν)}
  (hs : (newBuild catalog config).outcome = .ok s)
  (hsaved : (SavedSelection.resolveAll s.index.catalog selections).outcome = .ok saved)
  (hsettle : (Plan.settle [] saved).outcome = .ok settled)
  (hlevel : Plan.restoredLevel config r.level = .ok level)
  (hreads : r.Reads attributes inventory info)

include hs

/-- A new build stands silently on its first state, and no change is counted. -/
theorem silent_newBuild :
    Session.Silent s.index config (Build.initial config) s ∧ s.changed = false := by
  obtain rfl := Except.ok.inj hs
  exact ⟨⟨rfl, rfl, rfl, rfl, rfl⟩, rfl⟩

include hsaved hsettle hlevel hreads

/-- **A new build is resumed from what was saved**, at a level in range that passes the check. -/
theorem settles_restore (hpass : config.checksState = true → ¬ level < ((1 : Int) : Level ν)) :
    Session.Settles s.index config (Call.restore selections r).run s .nothing
      (Build.resumed level settled attributes inventory info) := by
  obtain ⟨hsilent, hfresh⟩ := silent_newBuild hs
  obtain ⟨⟨change, hplan, hstate⟩, hviolations⟩ :=
    Plan.restore_commits s.index config level hreads hsettle
  have hleads : Plan.Leads s.index config (Build.initial config)
      (Build.resumed level settled attributes inventory info) (.commit change none) :=
    ⟨rfl, hstate.symm, fun hchecks => by rw [hviolations, if_neg (hpass hchecks)]⟩
  obtain ⟨changed, hdone⟩ := hsilent.request Call.runInside
    (fun _ state => Plan.restore state level saved r) (by rw [hsilent.state]; exact hplan) hleads
  obtain ⟨hsession, houtcome⟩ := restore_run hfresh hsaved (by rw [hsilent.config]; exact hlevel)
  exact ⟨by rw [houtcome, hdone.outcome]; rfl, by rw [hsession]; exact hdone.silent⟩

/-- **At a level below one it is not resumed** where states are checked, even if the level is in
range; the check finds nothing but the level. -/
theorem restore_below_one (hchecks : config.checksState = true)
    (hlow : level < ((1 : Int) : Level ν)) :
    ((Call.restore selections r).run s).session = s ∧
      ((Call.restore selections r).run s).outcome = .error (.violated [.levelTooLow level]) := by
  obtain ⟨hsilent, hfresh⟩ := silent_newBuild hs
  obtain ⟨⟨change, hplan, hstate⟩, hviolations⟩ :=
    Plan.restore_commits s.index config level hreads hsettle
  rw [if_pos hlow] at hviolations
  obtain ⟨hsession, houtcome⟩ := restore_run hfresh hsaved (by rw [hsilent.config]; exact hlevel)
  rw [hsession, houtcome]
  have hcarried : s.Carried (Session.request Call.runInside
      (fun _ state => Plan.restore state level saved r) s) (.commit change none) :=
    Session.carried_of_plan Call.runInside_leavesBuild hsilent.idle
      (by rw [hsilent.state]; exact hplan)
  have hstops : ¬ s.Passes change.state := by
    intro hpass
    have hnone := hpass (by rw [hsilent.config]; exact hchecks)
    rw [hstate, hviolations] at hnone
    cases hnone
  cases hcarried with
  | made hpass => exact absurd hpass hstops
  | broken hpass => exact absurd hpass hstops
  | barred hsame _ ho hbar =>
      refine ⟨hsame, ?_⟩
      rw [ho]
      rcases hbar.failed with hfault | ⟨problems, hproblems, _, rfl⟩
      · rw [hstate, hviolations] at hfault
        cases hfault
      · rw [hstate, hviolations] at hproblems
        rw [← Except.ok.inj hproblems]
        rfl

end Guided

end

end CharacterBuild
