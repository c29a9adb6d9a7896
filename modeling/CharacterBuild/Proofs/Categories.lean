import CharacterBuild.Proofs.Ends
import CharacterBuild.Proofs.Resumed
import Mathlib.Data.List.Nodup

set_option autoImplicit false

/-! # The categories of a record

What a record says of the build that it was made of (`Record.records_of_assemble`): for each
category but the inventory it lists the saved forms of the selections that belong there, in the
order of the build. A category depends on the item alone, so where no item is selected twice, each
of these selections stands in the lists once (`Build.countP_inCategory`), and the lists, one after
another, name no item twice (`Build.nodup_categorised`). A new build that is resumed from them has
the very selections again, all of them settled (`Record.selections_kept`).

A level in range is not enough for that: where states are checked, a build cannot be resumed below
level one, though the levels of a configuration may start there (`Record.kept_not_resumed`).
-/

namespace CharacterBuild

variable {ν : Type} [Number ν]

namespace Category

/-- The categories that list selections, in the order of the record. -/
def listed : List Category := [abilities, perks, flaws, communities, relationships]

theorem mem_listed_iff {c : Category} : c ∈ listed ↔ c ≠ .inventory := by
  cases c <;> decide

end Category

/-! ## Selections by their categories -/

omit [Number ν] in
/-- The category of a selection depends on its item alone. -/
theorem Record.categoryOf?_congr {catalog : Catalog ν} {x y : Selection ν} (h : x.id = y.id) :
    categoryOf? catalog x = categoryOf? catalog y := by
  unfold categoryOf?
  rw [h]

/-- The item that a saved form is of, if it is the given one. -/
def Record.isFor (item : Text) (line : Members ν) : Bool :=
  (Value.lookup "id" line).any fun v => v.isText item

omit [Number ν] in
theorem Record.countP_isFor (item : Text) (selections : List (Selection ν)) :
    (selections.map Selection.saved).countP (isFor item)
      = selections.countP fun x => x.id = item := by
  rw [List.countP_map]
  refine List.countP_congr fun x _ => ?_
  have hid : Value.lookup "id" x.saved = some (.text x.id) :=
    x.lookup_saved (by simp [Selection.parts])
  simp [isFor, hid]

namespace Build

/-- The selections of a build that belong to a category. -/
def inCategory (catalog : Catalog ν) (s : Build ν) (c : Category) : List (Selection ν) :=
  s.selections.filter fun x => Record.categoryOf? catalog x = some c

/-- The selections of a build that belong to a category but the inventory, one category after
another. -/
def categorised (catalog : Catalog ν) (s : Build ν) : List (Selection ν) :=
  Category.listed.flatMap (s.inCategory catalog)

variable {catalog : Catalog ν} {s : Build ν}

/-- **Where no item is selected twice, a selection belongs to its category once**, and to no
other. -/
theorem countP_inCategory (hids : (s.selections.map Selection.id).Nodup) {x : Selection ν}
    (hx : x ∈ s.selections) {c : Category} (hc : Record.categoryOf? catalog x = some c)
    (c' : Category) :
    (s.inCategory catalog c').countP (fun y => y.id = x.id) = if c' = c then 1 else 0 := by
  have hsame : ∀ y : Selection ν, y.id = x.id → Record.categoryOf? catalog y = some c :=
    fun y hy => (Record.categoryOf?_congr hy).trans hc
  unfold inCategory
  rw [List.countP_filter]
  split
  · rename_i hcc
    have hone : (s.selections.map Selection.id).count x.id = 1 :=
      List.count_eq_one_of_mem hids (List.mem_map_of_mem hx)
    rw [List.count, List.countP_map] at hone
    rw [← hone]
    refine List.countP_congr fun y _ => ?_
    simp only [Bool.and_eq_true, decide_eq_true_eq, Function.comp_apply, beq_iff_eq]
    exact ⟨fun h => h.1, fun h => ⟨h, hcc ▸ hsame y h⟩⟩
  · rename_i hcc
    refine List.countP_eq_zero.mpr fun y _ => ?_
    simp only [Bool.and_eq_true, decide_eq_true_eq, not_and]
    intro hy hc'
    rw [hsame y hy] at hc'
    exact hcc (Option.some.inj hc').symm

theorem nodup_categorised (hids : (s.selections.map Selection.id).Nodup) :
    ((s.categorised catalog).map Selection.id).Nodup := by
  unfold categorised
  rw [List.map_flatMap, List.nodup_flatMap]
  refine ⟨fun c _ => hids.sublist (List.filter_sublist.map _), ?_⟩
  have hdistinct : Category.listed.Pairwise (· ≠ ·) := by decide
  refine hdistinct.imp fun {c c'} hne => ?_
  -- an item has one category
  intro id hid hid'
  obtain ⟨x, hx, rfl⟩ := List.mem_map.mp hid
  obtain ⟨y, hy, hyx⟩ := List.mem_map.mp hid'
  have hxc := (List.mem_filter.mp hx).2
  have hyc := (List.mem_filter.mp hy).2
  rw [decide_eq_true_eq] at hxc hyc
  rw [Record.categoryOf?_congr hyx, hxc] at hyc
  exact hne (Option.some.inj hyc)

theorem mem_selections_of_categorised {x : Selection ν} (hx : x ∈ s.categorised catalog) :
    x ∈ s.selections := by
  obtain ⟨c, _, hx⟩ := List.mem_flatMap.mp hx
  exact (List.mem_filter.mp hx).1

end Build

/-! ## What a record says of its build -/

namespace Record

/-- The record of a build: what it lists, what the rewards give, and what it takes over. -/
structure Records (index : Index ν) (state : Build ν) (b : Record ν) : Prop where
  level : b.level = state.targetLevel
  entries : ∀ c, c ≠ .inventory →
    b.entries c = (state.inCategory index.catalog c).map Selection.saved
  inventory : (Inventory.merge index.catalog (state.inventory.map InventoryLine.saved ++
    (state.inCategory index.catalog .inventory).map Selection.saved)).outcome
      = .ok (b.entries .inventory)
  sums : rewardSums index state.targetLevel = .ok (b.attributeBonuses, b.healthBonus)
  attributes : raisedAttributes state.attributes b.attributeBonuses = .ok b.attributes
  info : b.info = state.info

variable {index : Index ν} {state : Build ν} {b : Record ν}

theorem records_of_assemble (h : (assemble index state).outcome = .ok b) :
    b.Records index state := by
  unfold assemble at h
  obtain ⟨_, _, h⟩ := Traced.outcome_bind_eq_ok.mp h
  obtain ⟨inventory, hinventory, h⟩ := Traced.outcome_bind_eq_ok.mp h
  obtain ⟨⟨bonuses, health⟩, hsums, h⟩ := Traced.outcome_bind_eq_ok.mp h
  obtain ⟨attributes, hattributes, h⟩ := Traced.outcome_bind_eq_ok.mp h
  obtain ⟨_, _, h⟩ := Traced.outcome_bind_eq_ok.mp h
  obtain rfl := Except.ok.inj h
  exact ⟨rfl, fun c hc => if_neg hc, hinventory, hsums, hattributes, rfl⟩

/-- The saved forms that a record lists, one category after another. -/
def listed (b : Record ν) : List (Members ν) := Category.listed.flatMap b.entries

theorem Records.listed_eq (h : b.Records index state) :
    b.listed = (state.categorised index.catalog).map Selection.saved := by
  unfold listed Build.categorised
  rw [List.map_flatMap]
  exact List.flatMap_congr fun c hc => h.entries c (Category.mem_listed_iff.mp hc)

/-- The lists of a record are read as the selections that they are of. -/
theorem Records.resolveAll_listed (h : b.Records index state) :
    (SavedSelection.resolveAll index.catalog
      (b.listed.map fun e => .saved (.object e))).outcome
        = .ok ((state.categorised index.catalog).map (Selection.reread index)) := by
  rw [h.listed_eq, List.map_map]
  exact SavedSelection.resolveAll_saved index _

/-! ## Resuming from a record -/

/-- The selections of a record are settled as they were saved. -/
theorem settle_listed (hids : (state.selections.map Selection.id).Nodup)
    (hdeclared : ∀ x ∈ state.selections, x.Declared index) :
    (Plan.settle [] ((state.categorised index.catalog).map (Selection.reread index))).outcome
      = .ok ((state.categorised index.catalog).map fun x => { x with locked := true }) := by
  have hread : (state.categorised index.catalog).map (Selection.reread index)
      = (state.categorised index.catalog).map fun x => { x with locked := false } :=
    List.map_congr_left fun x hx =>
      Selection.reread_of_declared (hdeclared x (Build.mem_selections_of_categorised hx))
  rw [hread, Plan.settle_of_nodup _ fun _ _ => List.not_mem_nil, List.map_map]
  · rfl
  · rw [List.map_map]
    exact Build.nodup_categorised hids

/-- **A record keeps the selections of a build.** It can be made exactly if the attributes that are
raised can be, and then it lists the saved forms of the selections of each category in the order of
the build, each once and in no other list; the inventory is merged from nothing else. Each saved
form is read as the selection that it is of, only open. And a new build that is restored from the
lists, at a level in range that passes the check, has exactly these selections, one category after
another and all of them settled. -/
theorem selections_kept (hzero : (Number.ofInt? 0 : Option ν).isSome = true)
    {catalog : Catalog ν} {config : Config} {s : Session ν (Guided.Call ν)}
    (hs : (Guided.newBuild catalog config).outcome = .ok s) {state : Build ν}
    (hids : (state.selections.map Selection.id).Nodup)
    (hdeclared : ∀ x ∈ state.selections, x.Declared s.index) :
    (Ends (assemble s.index state).outcome ↔
      ∀ name ∈ raisedNames s.index state.targetLevel, Raisable state.attributes name) ∧
    ∀ b, (assemble s.index state).outcome = .ok b →
      (∀ c, c ≠ .inventory →
        b.entries c = (state.inCategory catalog c).map Selection.saved) ∧
      (∀ x ∈ state.selections, ∀ c, c ≠ .inventory → categoryOf? catalog x = some c →
        ∀ c', c' ≠ .inventory →
          (b.entries c').countP (isFor x.id) = if c' = c then 1 else 0) ∧
      (Inventory.merge catalog (state.inventory.map InventoryLine.saved ++
        (state.inCategory catalog .inventory).map Selection.saved)).outcome
          = .ok (b.entries .inventory) ∧
      (∀ x ∈ state.selections, (Selection.read catalog (.object x.saved)).outcome
        = .ok (some { x with locked := false })) ∧
      ∀ (r : Restored ν) level attributes inventory info,
        Plan.restoredLevel config r.level = .ok level →
        (config.checksState = true → ¬ level < ((1 : Int) : Level ν)) →
        r.Reads attributes inventory info →
        Session.Settles s.index config
          (Guided.Call.restore (b.listed.map fun e => .saved (.object e)) r).run s .nothing
          (Build.resumed level
            ((state.categorised catalog).map fun x => { x with locked := true })
            attributes inventory info) := by
  have hcatalog : s.index.catalog = catalog := by
    obtain rfl := Except.ok.inj hs
    rfl
  rw [← hcatalog]
  refine ⟨ends_assemble_iff hzero, fun b hb => ?_⟩
  have hrecords := records_of_assemble hb
  refine ⟨hrecords.entries, fun x hx c _ hcategory c' hc' => ?_, hrecords.inventory,
    fun x hx => ?_, fun r level attributes inventory info hlevel hpass hreads => ?_⟩
  · rw [hrecords.entries c' hc', countP_isFor]
    exact Build.countP_inCategory hids hx hcategory c'
  · rw [Selection.read_saved, Selection.reread_of_declared (hdeclared x hx)]
  · exact Guided.settles_restore hs hrecords.resolveAll_listed (settle_listed hids hdeclared)
      hlevel hreads hpass

/-! ## Two types of items -/

/-- The two sources with a perk `p` beside the items that they offer. -/
def mixedTypes : Catalog Double := sharedGroups.addItem { plainItem "p" with itemType := "perk" }

/-- A new build from them. -/
def mixedStart (config : Config) : Session Double (Guided.Call Double) :=
  { Guided.sharedStart config with index := { catalog := mixedTypes } }

theorem newBuild_mixedTypes (config : Config) :
    (Guided.newBuild mixedTypes config).outcome = .ok (mixedStart config) := rfl

/-- A build with the perk and, after it, an ability. -/
def mixedBuild : Build Double where
  selections := [{ id := "p", source := ⟨"B", .primary⟩, quantity := some 2 },
    { id := "x", source := ⟨"A", .primary⟩, group := .text "g", equipped := some true }]

theorem declared_mixedBuild (config : Config) :
    ∀ x ∈ mixedBuild.selections, x.Declared (mixedStart config).index := by
  intro x hx
  rcases List.mem_cons.mp hx with rfl | hx
  · exact ⟨rfl, nofun⟩
  · rw [List.mem_singleton.mp hx]
    exact ⟨rfl, nofun⟩

theorem ends_assemble_mixedBuild (config : Config) :
    Ends (assemble (mixedStart config).index mixedBuild).outcome := by
  have hnone : raisedNames ({ catalog := mixedTypes } : Index Double) (.whole 1) = [] := by
    decide +kernel
  rw [ends_assemble_iff isSome_ofInt?_zero]
  intro name hname
  rw [show raisedNames (mixedStart config).index mixedBuild.targetLevel = [] from hnone] at hname
  cases hname

theorem selections_kept_mixedTypes :
    (mixedBuild.categorised mixedTypes).map Selection.id = ["x", "p"] ∧
    ∃ b, (assemble (mixedStart {}).index mixedBuild).outcome = .ok b ∧
      (b.entries .perks).countP (isFor "p") = 1 ∧
      (b.entries .abilities).countP (isFor "p") = 0 ∧
      Session.Settles (mixedStart {}).index {}
        (Guided.Call.restore (b.listed.map fun e => .saved (.object e)) {}).run (mixedStart {})
        .nothing
        (Build.resumed (.whole 1)
          ((mixedBuild.categorised mixedTypes).map fun x => { x with locked := true })
          .empty [] .empty) := by
  obtain ⟨b, hb⟩ := ends_assemble_mixedBuild {}
  have hids : (mixedBuild.selections.map Selection.id).Nodup := by decide
  obtain ⟨_, hkept⟩ := selections_kept isSome_ofInt?_zero (newBuild_mixedTypes {}) hids
    (declared_mixedBuild {})
  obtain ⟨_, honce, _, _, hresumed⟩ := hkept b hb
  have hperk := honce _ List.mem_cons_self .perks (by decide) (by decide +kernel)
  have hsettles := hresumed {} (.whole 1) .empty [] .empty rfl (fun _ => by decide +kernel)
    ⟨rfl, ⟨[], rfl, rfl⟩, rfl⟩
  exact ⟨by decide +kernel, b, hb, hperk .perks (by decide), hperk .abilities (by decide), hsettles⟩

/-- Where levels start at zero, that level is in range, and the record is not resumed at it. -/
theorem kept_not_resumed :
    let config : Config := { minLevel := 0 }
    ∃ b, (assemble (mixedStart config).index mixedBuild).outcome = .ok b ∧
      Plan.restoredLevel config (.whole 0 : Value Double) = .ok (.whole 0) ∧
      ((Guided.Call.restore (b.listed.map fun e => .saved (.object e))
        { level := .whole 0 }).run (mixedStart config)).outcome
          = .error (.violated [.levelTooLow (.whole 0)]) := by
  intro config
  obtain ⟨b, hb⟩ := ends_assemble_mixedBuild config
  have hlevel : Plan.restoredLevel config (.whole 0 : Value Double) = .ok (.whole 0) := rfl
  have hreads : Restored.Reads ({ level := .whole 0 } : Restored Double) .empty [] .empty :=
    ⟨rfl, ⟨[], rfl, rfl⟩, rfl⟩
  refine ⟨b, hb, hlevel, (Guided.restore_below_one (newBuild_mixedTypes config)
    (records_of_assemble hb).resolveAll_listed
    (settle_listed (by decide) (declared_mixedBuild config)) hlevel hreads rfl ?_).2⟩
  decide +kernel

end Record

end CharacterBuild
