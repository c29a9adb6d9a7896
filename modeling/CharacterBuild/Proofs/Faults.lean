import CharacterBuild.Proofs.Groups
import CharacterBuild.Session.Guided

set_option autoImplicit false

/-! # Which faults a request may end in

Reading a value, asking the rules and making a plan may fail, since values can be of any shape;
but none of them looks for violations, so none of them blames the state for one (`NoViolation`).
The lemmas follow the functions from the readers of values up to the plans of requests. The
fault of a state with violations is thus left to the check of a new state alone.
-/

namespace CharacterBuild

variable {ν : Type} [Number ν]

omit [Number ν] in
theorem NoViolation.error {α : Type} {fault : Fault ν}
    (h : ∀ problems, fault ≠ .violated problems) : NoViolation (.error fault : Except (Fault ν) α) :=
  fun problems heq => h problems (Except.error.inj heq)

/-! ## Reading values -/

namespace Value

omit [Number ν] in
theorem noViolation_key (v : Value ν) : NoViolation v.key := by
  unfold key
  split
  · exact .ok _
  · exact .error nofun

omit [Number ν] in
theorem noViolation_member (name : Text) (v : Value ν) : NoViolation (v.member name) := by
  unfold member
  split
  · split
    · exact .ok _
    · exact .error nofun
  · exact .error nofun

omit [Number ν] in
theorem noViolation_elements (v : Value ν) : NoViolation v.elements := by
  unfold elements
  split
  · exact .ok _
  · exact .ok _
  · exact .ok _
  · exact .error nofun

theorem noViolation_toWhole (v : Value ν) : NoViolation v.toWhole := by
  unfold toWhole
  split
  · exact .ok _
  · split
    · exact .ok _
    · exact .error nofun
    · exact .error nofun
  · exact .ok _
  · split
    · exact .ok _
    · exact .error nofun
  · exact .error nofun

theorem noViolation_toWhole? (v : Value ν) : NoViolation v.toWhole? := by
  unfold toWhole?
  split
  · exact .ok _
  · exact .ok _
  · exact (noViolation_toWhole _).map _

theorem noViolation_has (name : Text) (v : Value ν) : NoViolation (v.has name) := by
  unfold has
  split
  · exact .ok _
  · exact .ok _
  · exact .ok _
  · exact .error nofun

theorem noViolation_distinctKeys (v : Value ν) : NoViolation v.distinctKeys :=
  (noViolation_elements v).bind fun _ =>
    (NoViolation.mapM noViolation_key _).bind fun _ => .ok _

omit [Number ν] in
theorem noViolation_pairs (v : Value ν) : NoViolation v.pairs := by
  have hpair : ∀ w : Value ν, NoViolation w.pair := by
    intro w
    refine (noViolation_elements w).bind fun elements => ?_
    split
    · exact (noViolation_key _).bind fun _ => .ok _
    · exact .error nofun
  unfold pairs
  split
  · exact .ok _
  · exact (noViolation_elements _).bind fun _ => .mapM hpair _

end Value

theorem Plan.noViolation_unknownKeys (known : List Text) (raw : Value ν) :
    NoViolation (Plan.unknownKeys known raw) := by
  refine (Value.noViolation_distinctKeys raw).bind fun keys => ?_
  unfold Atom.sort
  split
  · exact .ok _
  · exact .error nofun

omit [Number ν] in
theorem Index.noViolation_groupNamed (index : Index ν) (source : Text) (group : Value ν) :
    NoViolation (index.groupNamed source group) := by
  refine (Value.noViolation_key group).bind fun a => ?_
  split
  · exact .ok _
  · exact .ok _

omit [Number ν] in
theorem Index.noViolation_group (index : Index ν) (source : Text) (group : Value ν) :
    NoViolation (index.group source group).outcome := by
  refine .traced_bind (index.noViolation_groupNamed source group) fun found => ?_
  dsimp only
  split
  · exact .traced_bind (.ok _) fun _ => .ok _
  · exact .ok _

theorem Item.noViolation_cost (item : Item ν) (property : Value ν) :
    NoViolation (item.cost property) := by
  unfold cost
  split
  · exact .ok _
  · refine (Value.noViolation_key property).bind fun a => ?_
    split
    · exact .ok _
    · exact .ok _

theorem InventoryLine.noViolation_readAll (raws : List (Value ν)) :
    NoViolation (InventoryLine.readAll raws).outcome := by
  refine .traced_bind (.traced_mapM (fun raw => ?_) raws) fun _ => .ok _
  unfold read
  split
  · split
    · exact .traced_bind (.ok _) fun _ => .ok _
    · refine .traced_orSkip (.traced_map _ (Value.noViolation_toWhole _)) fun fault => ?_
      exact .traced_bind (.ok _) fun _ => .ok _
  · exact .traced_bind (.ok _) fun _ => .ok _

theorem Selection.noViolation_read (catalog : Catalog ν) (raw : Value ν) :
    NoViolation (Selection.read catalog raw).outcome := by
  -- a quantity that cannot be read is noted, and the entry is skipped over
  have hquantity : ∀ (v : Value ν) (build : Option Int → Option (Selection ν))
      (note : Fault ν → Note ν),
      NoViolation ((build <$> Traced.lift v.toWhole?).orSkip fun fault => do
        Traced.note (note fault)
        pure none).outcome := by
    intro v build note
    refine .traced_orSkip (.traced_map _ (Value.noViolation_toWhole? v)) fun fault => ?_
    exact .traced_bind (.ok _) fun _ => .ok _
  unfold Selection.read
  split
  · exact .traced_bind (.ok _) fun _ => .ok _
  · dsimp only
    split
    · exact .traced_bind (.ok _) fun _ => hquantity _ _ _
    · exact .traced_bind (.ok _) fun _ => .traced_bind (.ok _) fun _ => hquantity _ _ _

theorem SavedSelection.noViolation_resolveAll (catalog : Catalog ν)
    (selections : List (SavedSelection ν)) :
    NoViolation (resolveAll catalog selections).outcome := by
  induction selections with
  | nil => exact .ok _
  | cons x rest ih =>
      cases x with
      | given x => exact .traced_map _ ih
      | saved raw =>
          exact .traced_bind (Selection.noViolation_read catalog raw) fun _ =>
            .traced_bind ih fun _ => .ok _

omit [Number ν] in
theorem SourceMention.noViolation_resolve (index : Index ν) (source : SourceMention) :
    NoViolation (source.resolve index).outcome := by
  cases source with
  | given key => exact .ok _
  | named name =>
      rw [resolve, Index.sourceId_outcome]
      exact .ok _

omit [Number ν] in
theorem ItemMention.noViolation_resolve (index : Index ν) (item : ItemMention ν) :
    NoViolation (item.resolve index).outcome := by
  cases item with
  | given item => exact .ok _
  | named id =>
      unfold resolve
      dsimp only
      split
      · exact .ok _
      · exact .traced_bind (.ok _) fun _ => .ok _

/-- A state that cannot be checked is not blamed either: its violations are a result, no fault. -/
theorem Build.noViolation_violations (s : Build ν) (index : Index ν) :
    NoViolation (s.violations index) := by
  have hordered : NoViolation s.groupsOrdered := by
    have hkey : ∀ x : Selection ν, NoViolation x.group.key :=
      fun x => Value.noViolation_key x.group
    have hkeys : NoViolation (s.unlocked.mapM fun x => x.group.key) := .mapM hkey _
    refine hkeys.bind fun _ => ?_
    split
    · exact .error nofun
    · exact .ok _
  exact hordered.bind fun _ => .ok _

/-! ## The rules -/

omit [Number ν] in
theorem Amount.noViolation_orTooLarge (a : Option (Amount ν)) :
    NoViolation (Amount.orTooLarge a) := by
  unfold orTooLarge
  split
  · exact .ok _
  · exact .error nofun

theorem Balance.noViolation_ofSelections (catalog : Catalog ν) (unlock : PointBuy ν)
    (selections : List (Selection ν)) :
    NoViolation (Balance.ofSelections catalog unlock selections).outcome := by
  refine .traced_bind (.traced_foldlM (fun current s => ?_) selections _) fun _ => .ok _
  unfold afterSelection
  split
  · exact .ok _
  · split
    · exact .traced_bind (.ok _) fun _ => .ok _
    -- costs are looked up and multiplied; both may fail, but not for a violation
    · have hcost : ∀ (item : Item ν) property, NoViolation (s.cost item property) :=
        fun item property => (item.noViolation_cost property).bind fun _ =>
          Amount.noViolation_orTooLarge _
      refine .traced_bind (hcost _ _) fun cost => ?_
      split
      · exact Amount.noViolation_orTooLarge _
      · exact Amount.noViolation_orTooLarge _

namespace Rules

omit [Number ν] in
theorem noViolation_resolveGroup (index : Index ν) (item : Item ν) (source : SourceId)
    (group : Value ν) : NoViolation (resolveGroup index item source group).outcome := by
  unfold resolveGroup
  split
  · exact .ok _
  · exact index.noViolation_group _ _

theorem noViolation_payable (index : Index ν) (state : Build ν) (item : Item ν) (g : Group ν) :
    NoViolation (payable index state item g).outcome := by
  unfold payable
  split
  · exact .ok _
  · split
    · exact .ok _
    · refine .traced_bind (Balance.noViolation_ofSelections _ _ _) fun balance => ?_
      refine .traced_bind (item.noViolation_cost _) fun cost => ?_
      split
      · exact .ok _
      · exact .ok _

theorem noViolation_judge (index : Index ν) (state : Build ν) (item : Item ν)
    (source : SourceId) (group : Value ν) :
    NoViolation (judge index state item source group).outcome := by
  unfold judge
  split
  · exact .ok _
  · refine .traced_bind (noViolation_resolveGroup _ _ _ _) fun g => ?_
    split
    · exact .ok _
    · have hcost : NoViolation (costVerdict index state g item).outcome := by
        unfold costVerdict
        split
        · split
          · exact .ok _
          · exact noViolation_payable _ _ _ _
        · exact .ok _
      exact .traced_bind hcost fun _ => .ok _

theorem noViolation_judgeQuantity (index : Index ν) (state : Build ν) (item : Item ν)
    (source : SourceId) (group : Value ν) :
    NoViolation (judgeQuantity index state item source group).outcome := by
  unfold judgeQuantity
  split
  · exact noViolation_judge _ _ _ _ _
  · split
    · exact .ok _
    · split
      · exact .ok _
      · refine .traced_bind (noViolation_resolveGroup _ _ _ _) fun g => ?_
        split
        · exact noViolation_payable _ _ _ _
        · exact .ok _

end Rules

/-! ## Plans -/

namespace Plan

theorem noViolation_clean (item : Option (Item ν)) (id : Text) (asked : Value ν) :
    NoViolation (Options.clean item id asked).outcome := by
  -- cutting the options down to the limit only takes notes
  have hcut : ∀ (item : Item ν) options, NoViolation (Options.cut item id options).outcome := by
    intro item options
    unfold Options.cut
    split
    · split
      · exact .traced_bind (.ok _) fun _ => .ok _
      · exact .ok _
    · exact .ok _
  refine .traced_bind (Value.noViolation_elements asked) fun elements => ?_
  cases item with
  | none => exact .traced_bind (.ok _) fun _ => .ok _
  | some item =>
      -- an option is compared with those of the item by its key
      have hisOf : ∀ o : Value ν, NoViolation (Options.isOf item o) := by
        intro o
        refine (Value.noViolation_key o).bind fun a => ?_
        split
        · exact .ok _
        · exact .ok _
      refine .traced_bind (.mapM (fun o => (hisOf o).bind fun _ => .ok _) _) fun marked => ?_
      dsimp only
      split
      · exact .traced_bind (.ok _) fun _ => hcut _ _
      · exact hcut _ _

theorem noViolation_payEquipped (payload : Value ν) (x : Selection ν) :
    NoViolation (payEquipped payload x) := by
  refine (Value.noViolation_has _ _).bind fun given => ?_
  split
  · exact (Value.noViolation_member _ _).bind fun _ => .ok _
  · exact .ok _

theorem noViolation_pay (item : Item ν) (payload : Value ν) (x : Selection ν) :
    NoViolation (pay item payload x).outcome := by
  have hquantity : ∀ x : Selection ν, NoViolation (payQuantity item payload x) := by
    intro x
    refine (Value.noViolation_has _ _).bind fun given => ?_
    split
    · exact (Value.noViolation_member _ _).bind fun v =>
        (Value.noViolation_toWhole v).bind fun _ => .ok _
    · exact .ok _
  have hoptions : ∀ x : Selection ν, NoViolation (payOptions item payload x).outcome := by
    intro x
    refine .traced_bind (Value.noViolation_has _ _) fun given => ?_
    split
    · exact .traced_bind (Value.noViolation_member _ _) fun asked =>
        .traced_bind (noViolation_clean _ _ asked) fun _ => .ok _
    · exact .ok _
  refine .traced_bind (noViolation_unknownKeys _ _) fun unknown => ?_
  split
  · exact .error nofun
  · exact .traced_bind (hquantity x) fun y =>
      .traced_bind (noViolation_payEquipped payload y.1) fun z =>
        .traced_bind (hoptions z) fun _ => .ok _

omit [Number ν] in
theorem noViolation_forM_note {α : Type} (note : α → Note ν) (l : List α) :
    NoViolation (l.forM fun a => Traced.note (note a)).outcome := by
  induction l with
  | nil => exact .ok _
  | cons a rest ih => exact .traced_bind (.ok _) fun _ => ih

theorem noViolation_roomFor (state : Build ν) (item : Item ν) (source : SourceId)
    (g : Option (Group ν)) : NoViolation (roomFor state item source g).outcome := by
  cases g with
  | none => exact .ok _
  | some g =>
      show NoViolation (makeRoom state item source g).outcome
      unfold makeRoom
      split
      · exact .traced_bind (.ok _) fun _ => .ok _
      · split
        · exact .ok _
        · split
          · exact .ok _
          · dsimp only
            split
            · exact .ok _
            · split
              · split
                · exact .ok _
                · exact .traced_bind (noViolation_forM_note _ _) fun _ => .ok _
              · split
                · exact .ok _
                · exact .ok _

theorem noViolation_select (index : Index ν) (state : Build ν) (item : Item ν)
    (source : SourceId) (group payload : Value ν) :
    NoViolation (select index state item source group payload).outcome := by
  have hgroup : NoViolation (groupFor index item source group).outcome := by
    unfold groupFor
    split
    · split
      · exact .ok _
      · exact .ok _
    · exact .traced_bind (index.noViolation_group _ _) fun _ => .ok _
  have hreselect : ∀ g (x : Selection ν),
      NoViolation (reselect index state item source g x).outcome := by
    intro g x
    unfold reselect
    split
    · exact .traced_bind (.ok _) fun _ => .ok _
    · split
      · split
        · exact .traced_bind (.ok _) fun _ => .ok _
        · exact .ok _
      · exact .ok _
  refine .traced_bind hgroup fun g => ?_
  dsimp only
  split
  · exact hreselect _ _
  · refine .traced_bind (noViolation_roomFor _ _ _ _) fun room => ?_
    split
    · exact .ok _
    · exact .traced_bind (noViolation_pay _ _ _) fun _ => .ok _

theorem noViolation_replaceOptions (index : Index ν) (state : Build ν) (item : Text)
    (source : SourceId) (asked : Value ν) :
    NoViolation (replaceOptions index state item source asked).outcome := by
  unfold replaceOptions
  split
  · exact .ok _
  · split
    · exact .ok _
    · refine .traced_bind (noViolation_clean _ _ _) fun cleaned => ?_
      dsimp only
      split
      · exact .ok _
      · exact .ok _

theorem noViolation_checkChanges (changes : Value ν) : NoViolation (checkChanges changes) := by
  refine (noViolation_unknownKeys _ _).bind fun unknown => ?_
  split
  · exact .ok _
  · exact .error nofun

theorem noViolation_update (index : Index ν) (state : Build ν) (item : Text)
    (source : SourceId) (changes : Value ν) :
    NoViolation (update index state item source changes) := by
  have hasked : NoViolation (askedQuantity changes) := by
    refine (Value.noViolation_has _ _).bind fun given => ?_
    split
    · exact (Value.noViolation_member _ _).bind fun v => (Value.noViolation_toWhole v).map _
    · exact .ok _
  unfold update
  split
  · exact .ok _
  · split
    · exact .ok _
    · refine hasked.bind fun asked => ?_
      split
      · exact .ok _
      · refine (noViolation_payEquipped _ _).bind fun y => ?_
        split
        · exact .ok _
        · exact .ok _

omit [Number ν] in
theorem noViolation_checkField (name : Text) :
    NoViolation (checkField name : Except (Fault ν) Unit) := by
  unfold checkField
  split
  · exact .error nofun
  · exact .ok _

theorem noViolation_setLevel (index : Index ν) (config : Config) (state : Build ν)
    (value : Value ν) : NoViolation (setLevel index config state value).outcome := by
  have hprune : ∀ (s : Build ν) old, NoViolation (s.prune index old).outcome := by
    intro s old
    have hstale : ∀ stale (x : Selection ν), NoViolation (Build.isStale stale x) := by
      intro stale x
      refine (Value.noViolation_key _).bind fun a => ?_
      split
      · exact .ok _
      · exact .ok _
    unfold Build.prune
    split
    · exact .ok _
    · dsimp only
      split
      · exact .ok _
      · refine .traced_bind (.mapM (fun x => (hstale _ x).bind fun _ => .ok _) _)
          fun marked => ?_
        split
        · exact .traced_bind (.ok _) fun _ => .ok _
        · exact .ok _
  unfold setLevel
  split
  · split
    · exact .ok _
    · split
      · exact .ok _
      · split
        · exact .ok _
        · exact .traced_bind (hprune _ _) fun _ => .ok _
  · exact .error nofun

theorem noViolation_textKeyed (raw : Value ν) (ofValue : Value ν → Value ν) :
    NoViolation (textKeyed raw ofValue) :=
  (Value.noViolation_pairs raw).bind fun _ => .ok _

theorem noViolation_setField (index : Index ν) (config : Config) (state : Build ν) (name : Text)
    (value : Value ν) : NoViolation (setField index config state name value).outcome := by
  unfold setField
  split
  · exact noViolation_setLevel _ _ _ _
  · split
    · refine (noViolation_textKeyed _ _).bind fun attributes => ?_
      split
      · exact .ok _
      · exact .ok _
    · split
      · refine .traced_bind (Value.noViolation_elements _) fun raws => ?_
        refine .traced_bind (InventoryLine.noViolation_readAll _) fun inventory => ?_
        split
        · exact .ok _
        · exact .ok _
      · split
        · refine (noViolation_textKeyed _ _).bind fun info => ?_
          split
          · exact .ok _
          · exact .ok _
        · exact .ok _

theorem noViolation_restoredLevel (config : Config) (level : Value ν) :
    NoViolation (restoredLevel config level) := by
  unfold restoredLevel
  split
  · exact .error nofun
  · split
    · exact .error nofun
    · exact .ok _

theorem noViolation_restore (state : Build ν) (level : Level ν) (saved : List (Selection ν))
    (r : Restored ν) : NoViolation (restore state level saved r).outcome := by
  -- settling takes notes on repeated items, and cannot fail
  have hsettle : ∀ (saved : List (Selection ν)) seen,
      NoViolation (settle seen saved).outcome := by
    intro saved
    induction saved with
    | nil => exact fun seen => .ok _
    | cons x rest ih =>
        intro seen
        unfold settle
        split
        · exact .traced_bind (.ok _) fun _ => ih _
        · exact .traced_bind (ih _) fun _ => .ok _
  have hdirectory : ∀ raw : Value ν, NoViolation (directoryOf raw) :=
    fun raw => (Value.noViolation_pairs _).bind fun _ => .ok _
  refine .traced_bind (hsettle saved []) fun settled => ?_
  refine .traced_bind (hdirectory _) fun attributes => ?_
  refine .traced_bind (Value.noViolation_elements _) fun lines => ?_
  refine .traced_bind (InventoryLine.noViolation_readAll lines) fun inventory => ?_
  exact .traced_bind (hdirectory _) fun _ => .ok _

end Plan

end CharacterBuild
