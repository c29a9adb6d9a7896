import CharacterBuild.Proofs.Affording
import CharacterBuild.Proofs.Silence

set_option autoImplicit false

/-! # A saved build replayed

The file of a build lists its selections in the order in which they stand, and replaying selects
them again in that order. What the rules ask of them was asked before, when the build was made, and
holds of every front part of the list as well; all but the points, for the order in which the items
were paid need not be the one in which they stand. So the build is made again, with nothing
refused, exactly if every selection can be paid for behind those that stand before it
(`Replay.rebuilds`).
-/

namespace CharacterBuild

variable {ν : Type} [Number ν]

/-! ## The selections of a file -/

namespace Replay

open Guided (Call ask)

variable {index : Index ν} {config : Config} {build state : Build ν} {s : Session ν (Call ν)}
  {before rest : List (Selection ν)} {x : Selection ν} {item : Item ν} {g : Option (Group ν)}

/-- Selecting the item of the next selection, with its payload, adds that selection. -/
theorem plan_next (h : build.Created index config) (hs : build.selections = before ++ x :: rest)
    (hstate : state = { targetLevel := build.targetLevel, selections := before })
    (hitem : index.item? x.id = some item) (hholds : item.Holds x)
    (hfor : (Plan.groupFor index item x.source x.group).outcome = .ok (g, x.group)) :
    ∃ p, (Plan.select index state item x.source x.group
        (if x.payload.isEmpty then .null else .object x.payload)).outcome = .ok p ∧
      p.Leads index config state
        { targetLevel := build.targetLevel, selections := before ++ [x] } := by
  have hx : x ∈ build.selections := by rw [hs]; simp
  obtain ⟨hnew, _, hroom⟩ := h.fits_next hs hstate hitem hfor
  have hpay := Plan.pay_payload hholds (index.id_of_item? hitem).symm (h.unlocked x hx)
  unfold Plan.select
  rw [Traced.outcome_bind_of_ok hfor]
  dsimp only
  rw [hnew]
  dsimp only
  rw [Traced.outcome_bind_of_ok hroom]
  dsimp only
  rw [Plan.payload_orElse, Traced.outcome_bind_of_ok hpay]
  refine ⟨_, rfl, rfl, by rw [hstate], ?_⟩
  have hmore : build ≠ Build.initial config := by
    rintro rfl
    cases hx
  refine h.passes_part hmore ?_ rfl
  show (before ++ [x]).Sublist build.selections
  rw [hs]
  exact (List.singleton_sublist.mpr (by simp)).append_left before

/-- What the rules say to the next selection is what they say to its cost. -/
theorem admits_next (h : build.Created index config) (hs : build.selections = before ++ x :: rest)
    (hsilent : Session.Silent index config
      { targetLevel := build.targetLevel, selections := before } s)
    (hitem : index.item? x.id = some item)
    (hfor : (Plan.groupFor index item x.source x.group).outcome = .ok (g, x.group)) :
    (Guided.admits s item x.source x.group).outcome
      = (Rules.costVerdict index { selections := before } g item).outcome := by
  have hg := Plan.resolveGroup_of_groupFor hfor
  obtain ⟨hnew, hfits, _⟩ := h.fits_next hs hsilent.state hitem hfor
  have hselections : s.state.selections = ({ selections := before } : Build ν).selections := by
    rw [hsilent.state]
  unfold Guided.admits
  rw [hnew, hsilent.index]
  dsimp only
  rw [Rules.judge_of_fits hg hfits, Rules.costVerdict_congr hselections]

/-- **The next selection of a saved build is made again if it can be paid for, and is refused if
not.** -/
theorem select_next (h : build.Created index config) (hs : build.selections = before ++ x :: rest)
    (hsilent : Session.Silent index config
      { targetLevel := build.targetLevel, selections := before } s) (what : Text) :
    let action := Guided.select Call.runInside (.named x.id) (.named x.source.name) x.group
      (if x.payload.isEmpty then .null else .object x.payload)
    (Rules.affordsAfter index before x = true →
      ∃ changed, Session.Settles index config action s ⟨changed, none⟩
        { targetLevel := build.targetLevel, selections := before ++ [x] }) ∧
    ∀ result, (action s).outcome = .ok result → refusal what result = [] →
      Rules.affordsAfter index before x = true := by
  intro action
  have hx : x ∈ build.selections := by rw [hs]; simp
  obtain ⟨item, g, hitem, hholds, hfor⟩ := h.held hx
  have hadmits := admits_next h hs hsilent hitem hfor
  rw [Rules.affordsAfter_iff hitem (Plan.resolveGroup_of_groupFor hfor)]
  have hfound : (((ItemMention.named x.id).resolve s.index).outcome : Except (Fault ν) _)
      = .ok (.ok item) := by
    rw [hsilent.index]
    exact index.resolve_named_of_item? hitem
  have hnamed : ((SourceMention.named x.source.name).resolve s.index).outcome
      = (.ok x.source : Except (Fault ν) _) := by
    rw [Index.resolve_named, hsilent.index, ← h.keyed x hx]
  constructor
  · intro haffords
    obtain ⟨p, hp, hleads⟩ := plan_next h hs hsilent.state hitem hholds hfor
    rw [hsilent.state] at hleads
    obtain ⟨changed, hdone⟩ := hsilent.request Call.runInside
      (fun s state => Plan.select s.index state item x.source x.group
        (if x.payload.isEmpty then .null else .object x.payload))
      (by rw [hsilent.index]; exact hp) hleads
    exact ⟨changed, Guided.select_of_admitted hfound hnamed (hadmits.trans haffords) hdone⟩
  · intro result hresult hline
    rcases Guided.admitted_or_refused hfound hnamed hresult with hadmitted | ⟨reason, rfl⟩
    · exact hadmits.symm.trans hadmitted
    · cases hline

/-- The same for its entry in the file. -/
theorem selectOne_next (h : build.Created index config)
    (hs : build.selections = before ++ x :: rest)
    (hsilent : Session.Silent index config
      { targetLevel := build.targetLevel, selections := before } s) :
    (Rules.affordsAfter index before x = true →
      Session.Settles index config (selectOne (.object x.saved)) s []
        { targetLevel := build.targetLevel, selections := before ++ [x] }) ∧
    ((selectOne (.object x.saved) s).outcome = .ok [] →
      Rules.affordsAfter index before x = true) := by
  obtain ⟨hmade, hrefused⟩ := select_next h hs hsilent (x.id ++ " (" ++ x.source.name ++ ")")
  have hread : (Traced.lift (Entry.read (.object x.saved)) : Traced ν _).outcome = .ok _ :=
    Entry.read_saved x
  rw [selectOne_eq]
  constructor
  · intro haffords
    obtain ⟨changed, hdone⟩ := hmade haffords
    refine .lift_bind hread (hdone.bind ?_)
    have hline : refusal (x.id ++ " (" ++ x.source.name ++ ")") (⟨changed, none⟩ : Result ν)
        = [] := by
      cases changed <;> rfl
    rw [hline]
    exact .pure hdone.silent []
  · intro hline
    rw [Action.lift_bind_of_ok hread, ← map_eq_pure_bind, Action.map_apply] at hline
    obtain ⟨result, hresult, hline⟩ := except_map_eq_ok.mp hline
    exact hrefused result hresult hline

/-- **The selections of a file are made again if each can be paid for behind those before it.** -/
theorem selections_made (h : build.Created index config) (hs : build.selections = before ++ rest)
    (hsilent : Session.Silent index config
      { targetLevel := build.targetLevel, selections := before } s)
    (haffords : Rules.affordsInOrder index before rest = true) :
    ∃ lines, lines.flatten = [] ∧ Session.Settles index config
      ((rest.map fun x => .object x.saved).mapM selectOne) s lines
      { targetLevel := build.targetLevel, selections := build.selections } := by
  induction rest generalizing before s with
  | nil =>
      rw [List.append_nil] at hs
      rw [← hs] at hsilent
      exact ⟨[], rfl, .pure hsilent []⟩
  | cons x rest ih =>
      rw [Rules.affordsInOrder, Bool.and_eq_true] at haffords
      have hone := (selectOne_next h hs hsilent).1 haffords.1
      obtain ⟨lines, hlines, hothers⟩ := ih (by rw [hs]; simp) hone.silent haffords.2
      refine ⟨[] :: lines, hlines, ?_⟩
      rw [List.map_cons, List.mapM_cons]
      exact hone.bind (hothers.bind (.pure hothers.silent _))

/-- If none of the selections of a file is refused, each can be paid for behind those before it. -/
theorem affordsInOrder_of_made (h : build.Created index config)
    (hs : build.selections = before ++ rest)
    (hsilent : Session.Silent index config
      { targetLevel := build.targetLevel, selections := before } s) {lines : List (List Text)}
    (hmade : (((rest.map fun x => .object x.saved).mapM selectOne) s).outcome = .ok lines)
    (hlines : lines.flatten = []) : Rules.affordsInOrder index before rest = true := by
  induction rest generalizing before s lines with
  | nil => rfl
  | cons x rest ih =>
      rw [List.map_cons, List.mapM_cons] at hmade
      obtain ⟨line, hline, hmade, _⟩ := Action.bind_eq_ok hmade
      rw [← map_eq_pure_bind, Action.map_apply] at hmade
      obtain ⟨others, hothers, rfl⟩ := except_map_eq_ok.mp hmade
      rw [List.flatten_cons, List.append_eq_nil_iff] at hlines
      obtain ⟨rfl, hlines⟩ := hlines
      obtain ⟨hmake, haffords⟩ := selectOne_next h hs hsilent
      have hfirst := haffords hline
      have hrest := ih (by rw [hs]; simp) (hmake hfirst).silent hothers hlines
      rw [Rules.affordsInOrder, hfirst, hrest]
      rfl

end Replay

/-! ## The file of a build -/

/-- The file of a build that was created from nothing. -/
def Build.file (build : Build ν) : Members ν :=
  [("targetLevel", build.targetLevel.toValue),
   ("selections", .list (build.selections.map fun x => .object x.saved)),
   ("attributes", .object build.attributes.named),
   ("inventory", .list (build.inventory.map fun e => .object e.saved)),
   ("info", .object build.info.named)]

theorem Build.elementsOf_selections_file (build : Build ν) :
    Value.elementsOf "selections" build.file
      = .ok (build.selections.map fun x => .object x.saved) := by
  have hlist : ∀ l : List (Value ν), (Value.list l).orElse (.list []) = .list l := by
    intro l
    cases l <;> rfl
  show ((Value.list (build.selections.map fun x => .object x.saved)).orElse (.list [])).elements = _
  rw [hlist]
  rfl

/-- What the file of a build tells of it. -/
def Build.inFile (build : Build ν) : Build ν where
  targetLevel := build.targetLevel
  selections := build.selections
  attributes := build.attributes
  inventory := build.inventory
  info := build.info

namespace Replay

open Guided (Call)

variable {index : Index ν} {config : Config} {build state state' : Build ν}
  {s : Session ν (Call ν)}

/-- The level of the file of a build is aimed for without a word. -/
theorem aim_file (h : build.Created index config)
    (hsilent : Session.Silent index config (Build.initial config) s) :
    Session.Settles index config (aim build.file) s [] { targetLevel := build.targetLevel } := by
  obtain ⟨n, hn⟩ := h.whole
  have hleast : config.minLevel ≤ n := by
    have hleast := h.steady.least
    rw [hn, Level.whole_le_whole] at hleast
    exact hleast
  have hmost : n ≤ config.maxLevel := by
    have hmost := h.steady.most
    rw [hn, Level.whole_le_whole] at hmost
    exact hmost
  have hpass : n ≠ config.minLevel → config.checksState = true →
      ({ targetLevel := .whole n } : Build ν).violations index = .ok [] := by
    intro hne
    refine h.passes_part (fun hinitial => ?_) (List.nil_sublist _) hn.symm
    rw [hinitial] at hn
    exact hne (Level.whole.inj hn).symm
  have hplan : ∃ p, (Plan.setField index config (Build.initial config) fieldNames.targetLevel
      (.whole n)).outcome = .ok p ∧
        p.Leads index config (Build.initial config) { targetLevel := .whole n } :=
    Plan.setLevel_initial hleast hmost hpass
  obtain ⟨changed, hdone⟩ := hsilent.setField Call.runInside (by decide) hplan
  have hlevel : Value.memberOrNull "targetLevel" build.file = .whole n := by
    show build.targetLevel.toValue = _
    rw [hn]
    rfl
  unfold aim
  rw [hlevel, hn]
  exact .lift_bind (a := n) rfl (hdone.bind (.pure hdone.silent []))

/-- A field of a file is set where its plan leads. -/
theorem setNamed_settles {file : Members ν} {name : Text} {value : Value ν}
    (hlookup : Value.lookup name file = some value)
    (hname : fieldNames.guarded.contains name = false)
    (hsilent : Session.Silent index config state s)
    (hplan : ∃ p, (Plan.setField index config state name value).outcome = .ok p ∧
      p.Leads index config state state') :
    Session.Settles index config (setNamed file name) s () state' := by
  obtain ⟨changed, hdone⟩ := hsilent.setField Call.runInside hname hplan
  unfold setNamed
  rw [hlookup]
  exact hdone.map fun _ => ()

/-- The other fields of the file of a build are set as they were. -/
theorem fields_file (h : build.Created index config)
    (hquantities : ∀ e ∈ build.inventory, e.quantity ≠ 0)
    (hsilent : Session.Silent index config
      { targetLevel := build.targetLevel, selections := build.selections } s) :
    Session.Settles index config (fieldsOfFile.forM (setNamed build.file)) s () build.inFile := by
  -- a field that holds something was set, and then the build was checked
  have hpass : ∀ state : Build ν, build ≠ Build.initial config →
      state.selections = build.selections → state.targetLevel = build.targetLevel →
      config.checksState = true → state.violations index = .ok [] := by
    intro state hne hselections htarget
    exact h.passes_part hne (by rw [hselections]) htarget
  have hattributes : Session.Settles index config (setNamed build.file fieldNames.attributes) s ()
      { targetLevel := build.targetLevel, selections := build.selections,
        attributes := build.attributes } := by
    refine setNamed_settles rfl (by decide) hsilent ?_
    refine Plan.setField_attributes h.attributes rfl fun hsome => hpass _ ?_ rfl rfl
    rintro rfl
    exact hsome rfl
  have hinventory : Session.Settles index config (setNamed build.file fieldNames.inventory)
      (setNamed build.file fieldNames.attributes s).session ()
      { targetLevel := build.targetLevel, selections := build.selections,
        attributes := build.attributes, inventory := build.inventory } := by
    refine setNamed_settles rfl (by decide) hattributes.silent ?_
    refine Plan.setField_inventory hquantities rfl fun hsome => hpass _ ?_ rfl rfl
    rintro rfl
    exact hsome rfl
  have hinfo : Session.Settles index config (setNamed build.file fieldNames.info)
      (setNamed build.file fieldNames.inventory
        (setNamed build.file fieldNames.attributes s).session).session () build.inFile := by
    refine setNamed_settles rfl (by decide) hinventory.silent ?_
    refine Plan.setField_info h.info rfl fun hsome => hpass _ ?_ rfl rfl
    rintro rfl
    exact hsome rfl
  exact hattributes.bind (hinventory.bind (hinfo.bind (.pure hinfo.silent ())))

/-- **A build is made again from its file if each of its selections can be paid for** behind those
before it. -/
theorem replay_made (h : build.Created index config)
    (hquantities : ∀ e ∈ build.inventory, e.quantity ≠ 0)
    (hfresh : Session.Silent index config (Build.initial config) s)
    (haffords : Rules.affordsInOrder index [] build.selections = true) :
    Session.Settles index config (replay build.file) s [] build.inFile := by
  have haimed := aim_file h hfresh
  obtain ⟨lines, hlines, hselected⟩ := selections_made h rfl haimed.silent haffords
  have hall : Session.Settles index config (selectAll "selections" build.file)
      (aim build.file s).session []
      { targetLevel := build.targetLevel, selections := build.selections } := by
    refine .lift_bind build.elementsOf_selections_file (hselected.bind ?_)
    rw [hlines]
    exact .pure hselected.silent []
  have hfields := fields_file h hquantities hall.silent
  exact haimed.bind (hall.bind (hfields.bind (.pure hfields.silent [])))

/-- If nothing of the file of a build is refused, each of its selections can be paid for behind
those before it. -/
theorem affordsInOrder_of_replay (h : build.Created index config)
    (hfresh : Session.Silent index config (Build.initial config) s)
    (hdone : (replay build.file s).outcome = .ok []) :
    Rules.affordsInOrder index [] build.selections = true := by
  have hfile : replay build.file s = (do
      let aimed ← aim build.file
      let selected ← selectAll "selections" build.file
      fieldsOfFile.forM (setNamed build.file)
      pure (aimed ++ selected) : GuidedAction ν (List Text)) s := rfl
  rw [hfile] at hdone
  obtain ⟨aimed, _, hdone, _⟩ := Action.bind_eq_ok hdone
  obtain ⟨selected, hselected, hdone, _⟩ := Action.bind_eq_ok hdone
  obtain ⟨_, _, hdone, _⟩ := Action.bind_eq_ok hdone
  obtain ⟨_, rfl⟩ := List.append_eq_nil_iff.mp (Except.ok.inj hdone)
  unfold selectAll at hselected
  rw [Action.lift_bind_of_ok build.elementsOf_selections_file, ← map_eq_pure_bind,
    Action.map_apply] at hselected
  obtain ⟨lines, hlines, hnone⟩ := except_map_eq_ok.mp hselected
  exact affordsInOrder_of_made h rfl (aim_file h hfresh).silent hlines hnone

/-- **A build that was created from nothing is made again from its file** exactly if each of its
selections can be paid for behind those before it. The calls that made it are by names, and no
line of its inventory has the quantity zero. -/
theorem rebuilds {catalog : Catalog ν} {config : Config}
    (hrange : config.minLevel ≤ config.maxLevel) {s : Session ν (Call ν)}
    (hs : (Guided.newBuild catalog config).outcome = .ok s) {calls : List (Call ν)}
    (hcalls : ∀ c ∈ calls, c.ByName) :
    let build := (Guided.after s calls).state
    let replayed := replay build.file s
    build.mode = .creation → (∀ e ∈ build.inventory, e.quantity ≠ 0) →
      (replayed.outcome = .ok [] ↔ Rules.affordsInOrder s.index [] build.selections = true) ∧
      (replayed.outcome = .ok [] → replayed.session.state = build.inFile) := by
  intro build replayed hmode hquantities
  have h : build.Created s.index config := Guided.created_after hrange hs hcalls hmode
  have hfresh : Session.Silent s.index config (Build.initial config) s := by
    obtain rfl := Except.ok.inj hs
    exact ⟨rfl, rfl, rfl, rfl, rfl⟩
  have hmade := replay_made h hquantities hfresh
  have haffords := affordsInOrder_of_replay h hfresh
  constructor
  · exact ⟨haffords, fun hall => (hmade hall).outcome⟩
  · exact fun hdone => (hmade (haffords hdone)).silent.state

/-- A build with a selection that is held twice, an attribute, a line of the inventory and a name
comes back from its file. -/
theorem rebuilds_pointCatalog :
    let calls : List (Call ℚ) := [
      .setLevel (.whole 3),
      .select (.named "x") (.named "P") .null (.object [("quantity", .whole 2)]),
      .setField "attributes" (.object [("str", .whole 4)]),
      .setField "inventory" (.list [.object [("id", .text "rope"), ("quantity", .whole 5)]]),
      .setField "info" (.object [("name", .text "N")])]
    let build := (Guided.after Guided.pointStart calls).state
    let replayed := replay build.file Guided.pointStart
    build.selections.map Selection.count = [2] ∧ build.inventory.map InventoryLine.quantity = [5] ∧
      replayed.outcome = .ok [] ∧ replayed.session.state = build.inFile := by
  intro calls build replayed
  have hcalls : ∀ c ∈ calls, c.ByName := by
    simp [calls, Call.ByName]
  have hrange : ({} : Config).minLevel ≤ ({} : Config).maxLevel := by decide
  have hstart : (Guided.newBuild Guided.pointCatalog {}).outcome = .ok Guided.pointStart := rfl
  obtain ⟨hiff, hstate⟩ := rebuilds hrange hstart hcalls (by decide +kernel) (by decide +kernel)
  have hdone : replayed.outcome = .ok [] := hiff.mpr (by decide +kernel)
  exact ⟨by decide +kernel, by decide +kernel, hdone, hstate hdone⟩

/-- A build comes back from its file. -/
def ComesBack (s : Session ν (Call ν)) (build : Build ν) : Prop :=
  (replay build.file s).outcome = .ok [] ∧ (replay build.file s).session.state = build.inFile

/-- **A build that is in no group that takes points comes back from its file.** -/
theorem comesBack_of_isFree (h : build.Created index config)
    (hquantities : ∀ e ∈ build.inventory, e.quantity ≠ 0)
    (hfresh : Session.Silent index config (Build.initial config) s)
    (hfree : ∀ x ∈ build.selections, ∀ item g, index.item? x.id = some item →
      (Rules.resolveGroup index item x.source x.group).outcome = .ok g →
        Rules.isFree g = true) : ComesBack s build := by
  have haffords : Rules.affordsInOrder index [] build.selections = true := by
    refine Rules.affordsInOrder_of_isFree (fun x hx => ?_) []
    obtain ⟨item, g, hitem, _, hfor⟩ := h.held hx
    have hg := Plan.resolveGroup_of_groupFor hfor
    exact ⟨item, g, hitem, hg, hfree x hx item g hitem hg⟩
  have hmade := replay_made h hquantities hfresh haffords
  exact ⟨hmade.outcome, hmade.silent.state⟩

/-! ## Builds that are not made again -/

/-- A source with an empty pool: the item `e` gives a point, the item `s` takes one. -/
def earningSource : Source ℚ where
  key := ⟨"P", .primary⟩
  name := "P"
  description := ""
  tiers := [⟨1, [.pointBuy {
    id := "pool"
    name := "Pool"
    pool := ⟨"points", "Points", 0⟩
    groups := [⟨"earn", "Earn", ["e"], .earn, .null, none⟩,
      ⟨"spend", "Spend", ["s"], .spend, .null, none⟩] }]⟩]
  repeatPolicy := none

/-- The catalog of this source. -/
def earningCatalog : Catalog ℚ :=
  ((Catalog.addSource {} earningSource).addItem (pricedItem "e")).addItem (pricedItem "s")

/-- A new build in which no name is asked for, and states are not checked. -/
def unnamedStart (catalog : Catalog ℚ) (minLevel maxLevel : Int) : Session ℚ (Call ℚ) where
  index := { catalog := catalog }
  config := {
    minLevel := minLevel
    maxLevel := maxLevel
    checksState := false
    requiresName := false }
  state := { targetLevel := .whole minLevel }

/-- A build that was created from nothing by calls by names, and that lacks nothing. -/
def Finished (s : Session ν (Call ν)) (calls : List (Call ν)) : Prop :=
  (Guided.newBuild s.index.catalog s.config).outcome = .ok s ∧ (∀ c ∈ calls, c.ByName) ∧
    (Guided.after s calls).state.mode = .creation ∧
    (Completeness.allIssues s.index s.config (Guided.after s calls).state).outcome = .ok []

/-- **A build that lacks nothing need not come back from its file**: not if an item that gives
points was selected again after one that takes them, nor if a line of the inventory has the
quantity zero, which is read as one, nor if no level is in range. -/
theorem finished_not_comesBack :
    let select (id : Text) : Call ℚ := .select (.named id) (.named "P") .null .null
    let earning := unnamedStart earningCatalog 1 10
    let earned := [select "e", select "s", .deselect "e" (.named "P"), select "e"]
    let carrying := unnamedStart {} 1 10
    let carried : List (Call ℚ) := [.setField "inventory"
      (.list [.object [("id", .text "rope"), ("quantity", .text "0")]])]
    let bounded := unnamedStart {} 2 1
    (Finished earning earned ∧ ¬ ComesBack earning (Guided.after earning earned).state) ∧
    (Finished carrying carried ∧ ¬ ComesBack carrying (Guided.after carrying carried).state) ∧
    (Finished bounded [] ∧ ¬ ComesBack bounded bounded.state) := by
  intro select earning earned carrying carried bounded
  have hempty : ∀ {α : Type} {x : Except (Fault ℚ) (List α)},
      x.toOption.any List.isEmpty = true → x = .ok [] := by
    intro α x h
    obtain ⟨l, hx, hl⟩ := except_eq_ok_of_any h
    rw [hx, List.isEmpty_iff.mp hl]
  have hlines : ∀ {x : Except (Fault ℚ) (List Text)},
      x.toOption.any List.isEmpty = false → x ≠ .ok [] := by
    rintro x h rfl
    cases h
  refine ⟨⟨⟨rfl, ?_, ?_, hempty ?_⟩, fun h => hlines ?_ h.1⟩,
    ⟨⟨rfl, ?_, ?_, hempty ?_⟩, fun h => ?_⟩, ⟨⟨rfl, nofun, rfl, hempty ?_⟩, fun h => hlines ?_ h.1⟩⟩
  · simp [earned, select, Call.ByName]
  · decide +kernel
  · decide +kernel
  · decide +kernel
  · simp [carried, Call.ByName]
  · decide +kernel
  · decide +kernel
  · have hquantities := congrArg (fun s => s.inventory.map InventoryLine.quantity) h.2
    revert hquantities
    decide +kernel
  · decide +kernel
  · decide +kernel

end Replay

end CharacterBuild
