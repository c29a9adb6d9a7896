import CharacterBuild.Proofs.Commits
import CharacterBuild.Proofs.ReadBack
import CharacterBuild.Proofs.SelfLike

set_option autoImplicit false

/-! # Saving the inventory and setting it again

A saved line of the inventory is read as it was, unless its quantity is zero: a zero counts as left
out when it is read, and what is left out is one. Lines of quantity zero do come about, since what
counts as true need not stay so once it is read as a whole number: the text `0`, or a fraction below
one. So the inventory that a session holds can be saved and set again without a change exactly if no
quantity that it was given reads as zero (`Guided.inventory_kept`).
-/

namespace CharacterBuild

variable {ν : Type} [Number ν]

/-! ## Lines -/

/-- A value that counts as true but stands for the whole number zero. -/
def Value.ReadsAsZero (v : Value ν) : Prop := v.isTrue = true ∧ v.toWhole = .ok 0

namespace InventoryLine

variable {raw : Value ν} {e : InventoryLine ν} {lines : List (InventoryLine ν)}

/-- Where a line comes from that can be read. -/
theorem parts_of_read (h : (read raw).outcome = .ok (some e)) : ∃ ms, raw = .object ms ∧
    ((Value.memberOrNull "quantity" ms).orElse (.whole 1)).toWhole = .ok e.quantity ∧
    e.source = Value.memberOrNull "source" ms := by
  unfold read at h
  split at h
  · rename_i ms
    split at h
    · cases h
    · dsimp only at h
      rcases Traced.outcome_orSkip_eq_ok h with h | ⟨fault, h⟩
      · rw [Traced.outcome_map, Traced.outcome_lift] at h
        obtain ⟨quantity, hquantity, hline⟩ := except_map_eq_ok.mp h
        obtain rfl := Option.some.inj hline
        exact ⟨ms, rfl, hquantity, rfl⟩
      · cases h
  · cases h

/-- A line of quantity zero is read from a quantity that reads as zero. -/
theorem quantity_eq_zero_iff {ms : Members ν} (h : (read (.object ms)).outcome = .ok (some e)) :
    e.quantity = 0 ↔ (Value.memberOrNull "quantity" ms).ReadsAsZero := by
  obtain ⟨_, heq, hquantity, _⟩ := parts_of_read h
  obtain rfl := Value.object.inj heq
  unfold Value.ReadsAsZero Value.orElse at *
  by_cases htrue : (Value.memberOrNull "quantity" ms).isTrue = true
  · rw [if_pos htrue] at hquantity
    rw [hquantity, Except.ok.injEq]
    exact ⟨fun hzero => ⟨htrue, hzero⟩, And.right⟩
  · -- what counts as left out is one
    rw [if_neg htrue] at hquantity
    have hone : e.quantity = 1 := (Except.ok.inj hquantity).symm
    exact ⟨fun hzero => by omega, fun hzero => absurd hzero.1 htrue⟩

/-- The lines that are read of some values are each read of one of them. -/
theorem read_of_mem_readAll {raws : List (Value ν)} (h : (readAll raws).outcome = .ok lines)
    (he : e ∈ lines) : ∃ raw ∈ raws, (read raw).outcome = .ok (some e) := by
  unfold readAll at h
  obtain ⟨found, hfound, hlines⟩ := Traced.outcome_bind_eq_ok.mp h
  obtain rfl := Except.ok.inj hlines
  rw [Traced.outcome_mapM] at hfound
  obtain ⟨_, hmem, rfl⟩ := List.mem_filterMap.mp he
  exact exists_of_mapM_eq_ok hfound hmem

/-- Lines are the same as they are read again exactly if no quantity is zero. -/
theorem sameInventory_reread_iff (h : ∀ e ∈ lines, e.source.alike e.source = true) :
    Plan.sameInventory (lines.map reread) lines = true ↔ ∀ e ∈ lines, e.quantity ≠ 0 := by
  induction lines with
  | nil => simp [Plan.sameInventory]
  | cons e rest ih =>
      have hone : e.reread.same e = true ↔ e.quantity ≠ 0 := by
        by_cases hzero : e.quantity = 0
        · simp [reread, same, hzero]
        · rw [reread_eq_self hzero]
          simp [same, hzero, h e (List.mem_cons_self ..)]
      rw [List.map_cons, Plan.sameInventory, Bool.and_eq_true, hone,
        ih fun e he => h e (List.mem_cons_of_mem _ he), List.forall_mem_cons]

end InventoryLine

namespace Plan

/-- **Setting the inventory as it was saved** changes nothing exactly if no quantity is zero. -/
theorem setField_saved (index : Index ν) (config : Config) {state : Build ν}
    (h : ∀ e ∈ state.inventory, e.source.alike e.source = true) :
    ∃ p, (setField index config state fieldNames.inventory
        (.list (state.inventory.map fun e => .object e.saved))).outcome = .ok p ∧
      (p = nothing ↔ ∀ e ∈ state.inventory, e.quantity ≠ 0) := by
  unfold setField
  rw [if_neg (by decide), if_neg (by decide), if_pos rfl]
  unfold setInventory
  rw [Traced.outcome_bind_of_ok (a := state.inventory.map fun e => .object e.saved) rfl,
    Traced.outcome_bind_of_ok (InventoryLine.readAll_saved_eq state.inventory),
    ← InventoryLine.sameInventory_reread_iff h]
  by_cases hsame : sameInventory (state.inventory.map InventoryLine.reread) state.inventory = true
  · rw [if_pos hsame]
    exact ⟨_, rfl, iff_of_true rfl hsame⟩
  · rw [if_neg hsame]
    exact ⟨_, rfl, iff_of_false nofun hsame⟩

/-- The inventory that a build is restored with. -/
theorem inventory_of_restore {state : Build ν} {level : Level ν} {saved : List (Selection ν)}
    {r : Restored ν} {change : Change ν} {reason : Option (Reason ν)}
    (h : (restore state level saved r).outcome = .ok (.commit change reason)) :
    ∃ raws, (r.inventory.orElse (.list [])).elements = .ok raws ∧
      (InventoryLine.readAll raws).outcome = .ok change.state.inventory := by
  unfold restore at h
  obtain ⟨settled, _, h⟩ := Traced.outcome_bind_eq_ok.mp h
  obtain ⟨attributes, _, h⟩ := Traced.outcome_bind_eq_ok.mp h
  obtain ⟨raws, hraws, h⟩ := Traced.outcome_bind_eq_ok.mp h
  obtain ⟨inventory, hinventory, h⟩ := Traced.outcome_bind_eq_ok.mp h
  obtain ⟨info, _, h⟩ := Traced.outcome_bind_eq_ok.mp h
  obtain ⟨rfl, _⟩ := Plan.commit.inj (Except.ok.inj h)
  exact ⟨raws, hraws, hinventory⟩

/-- Selecting an item leaves the inventory alone. -/
theorem inventory_of_select {index : Index ν} {state : Build ν} {item : Item ν} {source : SourceId}
    {group payload : Value ν} {change : Change ν} {reason : Option (Reason ν)}
    (h : (select index state item source group payload).outcome = .ok (.commit change reason)) :
    change.state.inventory = state.inventory := by
  rcases select_commits h with ⟨x, _, _, hremove⟩ | ⟨others, x, _, hselects⟩
  · rw [(remove_commits hremove).2.state]
  · rw [hselects.state]

end Plan

/-! ## Runs -/

namespace Guided

/-- A call gives a value as a line of the inventory. -/
inductive Call.Gives : Call ν → Value ν → Prop where
  | setField {value raw : Value ν} {raws : List (Value ν)} (hraws : value.elements = .ok raws)
      (hraw : raw ∈ raws) : Gives (.setField fieldNames.inventory value) raw
  | restore {selections : List (SavedSelection ν)} {rest : Restored ν} {raw : Value ν}
      {raws : List (Value ν)} (hraws : (rest.inventory.orElse (.list [])).elements = .ok raws)
      (hraw : raw ∈ raws) : Gives (.restore selections rest) raw

/-- Every line of the inventory is read of a value of some kind. -/
def LinesFrom (given : Value ν → Prop) (s : Build ν) : Prop :=
  ∀ e ∈ s.inventory, ∃ raw, given raw ∧ (InventoryLine.read raw).outcome = .ok (some e)

variable {index : Index ν} {config : Config} {given : Value ν → Prop}

theorem linesFrom_of_setField {s : Build ν} {name : Text} {value : Value ν} {change : Change ν}
    {reason : Option (Reason ν)} (hs : LinesFrom given s)
    (hgiven : ∀ raw, (Call.setField name value).Gives raw → given raw)
    (h : (Plan.setField index config s name value).outcome = .ok (.commit change reason)) :
    LinesFrom given change.state := by
  have hsets : Plan.Sets index config s name value change.state := Plan.setField_sets h
  generalize change.state = state at hsets
  cases hsets with
  | level | attributes | info | other => exact hs
  | @inventory raws lines hname hraws hlines =>
      subst hname
      intro e he
      obtain ⟨raw, hraw, hread⟩ := InventoryLine.read_of_mem_readAll hlines he
      exact ⟨raw, hgiven raw (.setField hraws hraw), hread⟩

/-- **The lines of the inventory come from the calls** that set it or restore a build. -/
theorem linesFrom_kept : KeptByCommits index config (fun _ c => ∀ raw, c.Gives raw → given raw)
    (LinesFrom given) where
  commits := by
    intro s c change hmeets hgiven hcommits _ _
    have hheld : LinesFrom given s.state := hmeets.holds
    have hselects : change.state.inventory = s.state.inventory → LinesFrom given change.state := by
      intro hsame
      unfold LinesFrom
      rw [hsame]
      exact hheld
    cases hcommits with
    | select _ _ _ hplan => exact hselects (Plan.inventory_of_select hplan)
    | deselect _ hplan =>
        obtain ⟨x, _, hremove⟩ := Plan.deselect_commits hplan
        exact hselects (by rw [(Plan.remove_commits hremove).2.state])
    | update _ _ hplan =>
        obtain ⟨x, _, hremove | ⟨y, _, hchanges⟩⟩ := Plan.update_commits hplan
        · exact hselects (by rw [(Plan.remove_commits hremove).2.state])
        · exact hselects (by rw [hchanges.state])
    | replaceOptions _ hplan =>
        obtain ⟨x, options, _, _, _, hsets⟩ := Plan.replaceOptions_commits hplan
        exact hselects (by rw [hsets.state])
    | takeOption _ hplan =>
        obtain ⟨x, i, options, _, _, _, hsets⟩ := Plan.takeOption_commits hplan
        exact hselects (by rw [hsets.state])
    | dropOption _ hplan =>
        obtain ⟨x, _, _, hsets⟩ := Plan.dropOption_commits hplan
        exact hselects (by rw [hsets.state])
    | setField hplan => exact linesFrom_of_setField hheld hgiven hplan
    | setLevel hplan =>
        refine linesFrom_of_setField hheld (fun raw hgives => ?_) hplan
        -- the level is not the inventory
        generalize hname : fieldNames.targetLevel = name at hgives
        cases hgives with
        | setField => exact absurd hname (by decide)
    | restore _ _ _ hplan =>
        obtain ⟨raws, hraws, hlines⟩ := Plan.inventory_of_restore hplan
        intro e he
        obtain ⟨raw, hraw, hread⟩ := InventoryLine.read_of_mem_readAll hlines he
        exact ⟨raw, hgiven raw (.restore hraws hraw), hread⟩
  forced := by
    intro source forced state state' hstate htaken
    obtain ⟨⟨item, choice, change, reason, _, _, _, hplan, rfl⟩, _⟩ := htaken
    unfold LinesFrom
    rw [Plan.inventory_of_select hplan]
    exact hstate

/-- Setting the inventory as it was saved leaves an idle session as it is, with nothing to tell,
exactly if no quantity is zero. -/
theorem set_saved_iff {s : Session ν (Call ν)} (hidle : s.announcing = false)
    (h : ∀ e ∈ s.state.inventory, e.source.alike e.source = true) :
    let t := (Call.setField fieldNames.inventory
      (.list (s.state.inventory.map fun e => .object e.saved))).run s
    (t.outcome = .ok (.result ⟨false, none⟩) ∧ t.session = s ∧ t.deliveries = []) ↔
      ∀ e ∈ s.state.inventory, e.quantity ≠ 0 := by
  intro t
  obtain ⟨p, hp, hnothing⟩ := Plan.setField_saved s.index s.config h
  let u := Session.request Call.runInside (fun s' state =>
    Plan.setField s'.index s'.config state fieldNames.inventory
      (.list (s.state.inventory.map fun e => .object e.saved))) s
  have hcarried : s.Carried u p := Session.carried_of_plan Call.runInside_leavesBuild hidle hp
  have ht : t = ⟨u.session, u.notes, u.deliveries, u.outcome.map Answer.result⟩ :=
    run_setField fieldNames.inventory (if_neg (by decide)) _ s
  rw [← hnothing, ht]
  constructor
  · rintro ⟨hout, -, -⟩
    obtain ⟨result, ho, hresult⟩ := except_map_eq_ok.mp hout
    obtain rfl := Answer.result.inj hresult
    exact hcarried.kept_iff.mp ho
  · rintro rfl
    cases hcarried with
    | kept hs hd ho => exact ⟨except_map_eq_ok.mpr ⟨_, ho, rfl⟩, hs, hd⟩

/-- **What of the inventory survives saving.** A saved line is read as it was, but for a quantity of
zero, which is read as one. Setting the inventory as it was saved leaves everything as it is exactly
if no quantity is zero. Each line was read of a value that a call gave, and its quantity is zero
exactly if the quantity that was given counts as true but reads as zero. -/
theorem inventory_kept [SelfLike ν] {catalog : Catalog ν} {config : Config}
    {s₀ : Session ν (Call ν)} (hs : (newBuild catalog config).outcome = .ok s₀)
    (calls : List (Call ν)) (hnames : ∀ c ∈ calls, ∀ raw, c.Gives raw → raw.NamesDiffer) :
    let s := after s₀ calls
    let t := (Call.setField fieldNames.inventory
      (.list (s.state.inventory.map fun e => .object e.saved))).run s
    (∀ e ∈ s.state.inventory, (InventoryLine.read (.object e.saved)).outcome
      = .ok (some { e with quantity := if e.quantity = 0 then 1 else e.quantity })) ∧
    ((t.outcome = .ok (.result ⟨false, none⟩) ∧ t.session = s ∧ t.deliveries = []) ↔
      ∀ e ∈ s.state.inventory, e.quantity ≠ 0) ∧
    ∀ e ∈ s.state.inventory, ∃ c ∈ calls, ∃ ms, c.Gives (.object ms) ∧
      (InventoryLine.read (.object ms)).outcome = .ok (some e) ∧
      (e.quantity = 0 ↔ (Value.memberOrNull "quantity" ms).ReadsAsZero) := by
  intro s t
  have hlines : LinesFrom (fun raw => ∃ c ∈ calls, c.Gives raw) s.state := by
    obtain rfl := Except.ok.inj hs
    refine (holds_after linesFrom_kept ⟨rfl, rfl, rfl, fun _ he => (List.not_mem_nil he).elim⟩
      ?_).holds
    exact fun c hc _ raw hgives => ⟨c, hc, hgives⟩
  have hparts : ∀ e ∈ s.state.inventory, ∃ c ∈ calls, ∃ ms, c.Gives (.object ms) ∧
      (InventoryLine.read (.object ms)).outcome = .ok (some e) := by
    intro e he
    obtain ⟨raw, ⟨c, hc, hgives⟩, hread⟩ := hlines e he
    obtain ⟨ms, rfl, _⟩ := InventoryLine.parts_of_read hread
    exact ⟨c, hc, ms, hgives, hread⟩
  refine ⟨fun e _ => InventoryLine.read_saved e, set_saved_iff (idle_after hs calls).idle ?_, ?_⟩
  · -- the source of a line is a member of a value that was given
    intro e he
    obtain ⟨c, hc, ms, hgives, hread⟩ := hparts e he
    obtain ⟨_, heq, _, hsource⟩ := InventoryLine.parts_of_read hread
    obtain rfl := Value.object.inj heq
    rw [hsource]
    exact Value.alike_self (Value.namesDiffer_memberOrNull (hnames c hc _ hgives) _)
  · intro e he
    obtain ⟨c, hc, ms, hgives, hread⟩ := hparts e he
    exact ⟨c, hc, ms, hgives, hread, InventoryLine.quantity_eq_zero_iff hread⟩

/-- A rope and a torch, where the quantity of the torch is the text of a zero. -/
def zeroText : List (Members Double) :=
  [[("id", .text "rope"), ("quantity", .whole 5)], [("id", .text "torch"), ("quantity", .text "0")]]

/-- The torches that were given as the text of a zero are none, until the inventory is set again as
it was saved: then there is one. -/
theorem inventory_kept_zeroText :
    let s := after (sharedStart {}) [.setField fieldNames.inventory (.list (zeroText.map .object))]
    let t := (Call.setField fieldNames.inventory
      (.list (s.state.inventory.map fun e => .object e.saved))).run s
    (s.state.inventory.map fun e => e.quantity) = [5, 0] ∧
    ¬ (t.outcome = .ok (.result ⟨false, none⟩) ∧ t.session = s ∧ t.deliveries = []) ∧
    (t.session.state.inventory.map fun e => e.quantity) = [5, 1] := by
  intro s t
  have hquantities : (s.state.inventory.map fun e => e.quantity) = [5, 0] := by decide +kernel
  refine ⟨hquantities, ?_, by decide +kernel⟩
  have hflat : ∀ ms ∈ zeroText,
      (ms.map Prod.fst).Nodup ∧ ∀ m ∈ ms, ∃ a : Atom Double, m.2 = .atom a := by
    rw [zeroText, List.forall_mem_cons, List.forall_mem_singleton]
    refine ⟨⟨by decide, ?_⟩, by decide, ?_⟩ <;>
      rw [List.forall_mem_cons, List.forall_mem_singleton] <;> exact ⟨⟨_, rfl⟩, _, rfl⟩
  have hnames : ∀ c ∈ [Call.setField fieldNames.inventory (.list (zeroText.map .object))],
      ∀ raw : Value Double, c.Gives raw → raw.NamesDiffer := by
    intro c hc raw hgives
    obtain rfl := List.mem_singleton.mp hc
    cases hgives with
    | setField hraws hraw =>
        obtain rfl := Except.ok.inj hraws
        obtain ⟨ms, hms, rfl⟩ := List.mem_map.mp hraw
        obtain ⟨hdiffer, hatoms⟩ := hflat ms hms
        refine .object hdiffer fun m hm => ?_
        obtain ⟨a, ha⟩ := hatoms m hm
        rw [ha]
        exact .atom a
  obtain ⟨_, hiff, _⟩ := inventory_kept (newBuild_sharedGroups {}) _ hnames
  rw [hiff]
  intro hnever
  have hzero : (0 : Int) ∈ s.state.inventory.map fun e => e.quantity := by simp [hquantities]
  obtain ⟨e, he, hquantity⟩ := List.mem_map.mp hzero
  exact hnever e he hquantity

end Guided

end CharacterBuild
