import CharacterBuild.Proofs.ReadBack
import CharacterBuild.Proofs.Standing
import CharacterBuild.Proofs.TakingBack

set_option autoImplicit false

/-! # Putting items back

An item that was taken back can be selected again: from the same source, in the group that is kept
with its selection, with a payload that says how it was held. In a build that calls by names have
reached there is room for it (`Plan.roomFor_without`), the payload makes the selection as it was
(`Plan.select_without`), and the build passes the check, since it has the same selections in
another order (`Build.Reordered.violations`). So the selection stands at the end of the list, and
all else is as before (`Guided.deselected_returns`).
-/

namespace CharacterBuild

variable {ν : Type} [Number ν]

/-! ## The order of selections -/

/-- **The check does not look at the order of the selections.** -/
theorem Build.Reordered.violations {s s' : Build ν} {index : Index ν} (h : s.Reordered s')
    (hclean : s.violations index = .ok []) : s'.violations index = .ok [] := by
  obtain ⟨hordered, hlevel, hrepeat, hgroups, hoptions⟩ := violations_eq_nil_iff.mp hclean
  have hunlocked : s.unlocked.Perm s'.unlocked := h.perm.filter _
  refine violations_eq_nil_iff.mpr ⟨?_, ?_, ?_, ?_, ?_⟩
  · obtain ⟨hkeys, hclash⟩ := groupsOrdered_eq_ok_iff.mp hordered
    apply groupsOrdered_eq_ok_iff.mpr
    constructor
    · exact fun x hx => hkeys x (hunlocked.mem_iff.mpr hx)
    · intro x hx y hy
      exact hclash x (hunlocked.mem_iff.mpr hx) y (hunlocked.mem_iff.mpr hy)
  · rw [h.rest]
    exact hlevel
  · rw [repeatViolations_eq_nil_iff] at hrepeat ⊢
    exact (h.perm.map _).nodup_iff.mp hrepeat
  · rw [groupViolations_eq_nil_iff] at hgroups ⊢
    intro source id g limit hg hlimit
    have hcount : s'.countIn source id = s.countIn source id := (hunlocked.countP_eq _).symm
    rw [hcount]
    exact hgroups source id g limit hg hlimit
  · rw [List.filterMap_eq_nil_iff] at hoptions ⊢
    exact fun x hx => hoptions x (hunlocked.mem_iff.mpr hx)

/-! ## Room for what was taken back -/

namespace Plan

variable {index : Index ν} {s : Build ν} {item : Item ν} {x : Selection ν}
  {before after : List (Selection ν)} {g : Option (Group ν)} {ms : Members ν}

/-- There is no reason against an item that was taken back: its group has one member less. -/
theorem refusal?_without {found : Group ν} (hs : s.selections = before ++ x :: after)
    (hstands : x.Stands index s) (hitem : index.item? x.id = some item)
    (hnamed : index.groupNamed x.source.name x.group = .ok (some found)) :
    let without : Build ν := { s with selections := before ++ after }
    refusal? without item x.source found = none ∧
      (found.isExclusive = true → without.membersOf x.source found.id = []) := by
  intro without
  have htakes := hstands.taken item found hitem hnamed
  have hfewer : (s.membersOf x.source found.id).length
      = (without.membersOf x.source found.id).length + 1 := by
    obtain ⟨id, htext, hof⟩ := index.groupNamed_eq_ok_some hnamed
    obtain ⟨_, rfl⟩ := index.mem_of_groupOf? hof
    have hx : x.isIn x.source found.id = true := by simp [Selection.isIn, htext]
    unfold Build.membersOf
    rw [← List.countP_eq_length_filter, ← List.countP_eq_length_filter, hs]
    simp only [without, List.countP_append, List.countP_cons, hx, if_true]
    omega
  have hexclusive : found.isExclusive = true → without.membersOf x.source found.id = [] := by
    intro hone
    have hlimit : found.limit = some 1 := by simpa [Group.isExclusive] using hone
    have hroom := hstands.room found 1 hnamed hlimit
    apply List.length_eq_zero_iff.mp
    omega
  refine ⟨?_, hexclusive⟩
  have hlow : ¬ without.targetLevel < (found.level : Level ν) := htakes.reached
  have hsettled : without.isSettled found.level = false := htakes.unsettled
  unfold refusal?
  rw [if_neg (by simpa using htakes.listed), if_neg hlow, if_neg (by simp [hsettled])]
  cases hlimit : found.limit with
  | none => rfl
  | some limit =>
      dsimp only
      by_cases hone : found.isExclusive = true
      · rw [if_pos hone, hexclusive hone]
        rfl
      · have hroom := hstands.room found limit hnamed hlimit
        rw [if_neg hone, if_neg (by omega)]

/-- **There is room for an item that was taken back**, and nobody makes it. -/
theorem roomFor_without (hs : s.selections = before ++ x :: after) (hstands : x.Stands index s)
    (hitem : index.item? x.id = some item)
    (hnamed : index.groupNamed x.source.name x.group = .ok g) :
    (roomFor { s with selections := before ++ after } item x.source g).outcome
      = .ok (.ok (before ++ after)) := by
  rw [outcome_roomFor]
  cases g with
  | none =>
      have hall : (before ++ after).filter (Group.spares x.source none) = before ++ after :=
        List.filter_eq_self.mpr fun _ _ => rfl
      show Except.ok (Except.ok ((before ++ after).filter _)) = _
      rw [hall]
  | some found =>
      obtain ⟨hnone, hempty⟩ := refusal?_without hs hstands hitem hnamed
      have hall : (before ++ after).filter (Group.spares x.source (some found))
          = before ++ after := by
        by_cases hone : found.isExclusive = true
        · apply List.filter_eq_self.mpr
          intro y hy
          have hout := List.filter_eq_nil_iff.mp (hempty hone) y hy
          simp [Group.spares, hout]
        · exact spares_of_not_exclusive (by simpa using hone) _
      rw [Option.bind_some, hnone]
      dsimp only
      rw [hall]

/-- **An item that was taken back is selected as it was**, with no reason to tell. -/
theorem select_without (hs : s.selections = before ++ x :: after)
    (hdistinct : (s.selections.map Selection.id).Nodup) (hopen : x.locked = false)
    (hstands : x.Stands index s) (hitem : index.item? x.id = some item)
    (hfor : (groupFor index item x.source x.group).outcome = .ok (g, x.group))
    (hms : x.IsSaidBy ms) :
    let without : Build ν := { s with selections := before ++ after }
    (select index without item x.source x.group (.object ms)).outcome
      = .ok (selections without (before ++ after ++ [x])
        (.selected item.id x.source.name x.group) none) := by
  intro without
  have hid : item.id = x.id := index.id_of_item? hitem
  have hnew : without.selection? item.id none = none := by
    apply List.find?_eq_none.mpr
    intro y hy
    have hne : y.id ≠ x.id := by
      rw [hs] at hdistinct
      exact Build.id_ne_of_others hdistinct y hy
    simp [Selection.isOf, hid, hne]
  have hnamed := (groupNamed_of_groupFor hfor).1
  unfold select
  rw [Traced.outcome_bind_of_ok hfor]
  dsimp only
  rw [hnew]
  dsimp only
  rw [Traced.outcome_bind_of_ok (roomFor_without hs hstands hitem hnamed)]
  dsimp only
  rw [orElse_object, Traced.outcome_bind_of_ok
    (pay_said hms (hstands.held item hitem) hid.symm hopen)]
  rfl

end Plan

/-! ## Taking back and selecting again -/

namespace Session

variable {κ : Type} {run : κ → Action ν κ (Answer ν)} {s : Session ν κ} {item : Item ν}
  {x : Selection ν} {before after : List (Selection ν)} {g : Option (Group ν)} {ms : Members ν}

/-- An item is taken back from a state that passes the check and selected again. -/
theorem deselect_select (hrun : ∀ c, (run c).LeavesBuild) (hidle : s.announcing = false)
    (hpass : s.Passes s.state) (hs : s.state.selections = before ++ x :: after)
    (hdistinct : (s.state.selections.map Selection.id).Nodup) (hopen : x.locked = false)
    (hstands : x.Stands s.index s.state) (hitem : s.index.item? x.id = some item)
    (hfor : (Plan.groupFor s.index item x.source x.group).outcome = .ok (g, x.group))
    (hms : x.IsSaidBy ms) :
    let t := deselect run x.id x.source s
    let u := select run item x.source x.group (.object ms) t.session
    u.session.state = { s.state with selections := before ++ after ++ [x] } ∧
      (t.outcome = .ok ⟨true, none⟩ ∨ ∃ d ∈ t.deliveries, ∃ fault, d.outcome = .error fault) ∧
      (u.outcome = .ok ⟨true, none⟩ ∨ ∃ d ∈ u.deliveries, ∃ fault, d.outcome = .error fault) := by
  intro t u
  have hmem : x ∈ s.state.selections := by
    rw [hs]
    exact List.mem_append_right _ (List.mem_cons_self ..)
  have hdeselect : Plan.deselect s.state x.id x.source
      = Plan.selections s.state (before ++ after) (.deselected x.id x.source.name) none := by
    rw [Plan.deselect_of_mem hdistinct hmem, Plan.remove_of_open hs hdistinct hopen]
  -- taken back: the state is one that selections were taken away from
  have htaken : s.Carried t (Plan.selections s.state (before ++ after)
      (.deselected x.id x.source.name) none) :=
    carried_of_plan hrun hidle (congrArg Except.ok hdeselect)
  have hwithout : s.Passes { s.state with selections := before ++ after } := by
    intro hchecks
    refine Build.violations_of_sublist (hpass hchecks) ?_ rfl
    rw [hs]
    exact List.Sublist.append_left (List.sublist_cons_self x after) before
  obtain ⟨⟨_, ht⟩, hanswer⟩ := htaken.of_passes hwithout
  -- selected again: the state has the selections of before in another order
  have hselect := Plan.select_without hs hdistinct hopen hstands hitem hfor hms
  have hput : t.session.Carried u (Plan.selections { s.state with selections := before ++ after }
      (before ++ after ++ [x]) (.selected item.id x.source.name x.group) none) := by
    apply select_carried hrun ht.idle
    rw [ht.index, ht.state]
    exact hselect
  have hreordered : s.state.Reordered
      { s.state with selections := before ++ after ++ [x] } := by
    refine ⟨rfl, ?_⟩
    show s.state.selections.Perm (before ++ after ++ [x])
    rw [hs]
    exact List.perm_middle.trans (List.perm_append_singleton x (before ++ after)).symm
  have hagain : t.session.Passes { s.state with selections := before ++ after ++ [x] } := by
    intro hchecks
    rw [ht.config] at hchecks
    rw [ht.index]
    exact hreordered.violations (hpass hchecks)
  obtain ⟨⟨_, hu⟩, hanswer'⟩ := hput.of_passes hagain
  exact ⟨hu.state, hanswer, hanswer'⟩

end Session

namespace Guided

variable {config : Config} {catalog : Catalog ν} {s₀ : Session ν (Call ν)} {x : Selection ν}
  {before after : List (Selection ν)} {ms : Members ν}

/-- **A deselected item can always be put back.** Calls by names have reached a build, and no
listener has let out a fault. A selection of it that is not settled is taken back, and its item is
selected again from the same source, in the group that is kept with the selection, with a payload
that says how it was held. Both requests are accepted with no reason to tell, unless a listener lets
out a fault now; and the build is as before, but for the selection, which has moved to the end. -/
theorem deselected_returns [ExactNumber ν] (hs₀ : (newBuild catalog config).outcome = .ok s₀)
    {calls : List (Call ν)} (hcalls : ∀ c ∈ calls, c.ByName)
    (hcalm : ∀ t ∈ turns s₀ calls, ∀ d ∈ t.deliveries, d.outcome = .ok ())
    (hx : (Guided.after s₀ calls).state.selections = before ++ x :: after)
    (hopen : x.locked = false) (hms : x.IsSaidBy ms) :
    let s := Guided.after s₀ calls
    let t := Session.deselect Call.runInside x.id x.source s
    ∃ item, s.index.item? x.id = some item ∧
      let u := Session.select Call.runInside item x.source x.group (.object ms) t.session
      u.session.state = { s.state with selections := before ++ after ++ [x] } ∧
        ((∀ d ∈ t.deliveries ++ u.deliveries, d.outcome = .ok ()) →
          t.outcome = .ok ⟨true, none⟩ ∧ u.outcome = .ok ⟨true, none⟩) := by
  intro s t
  have hstart := idle_after hs₀ calls
  have hstanding := (standing_after hs₀ hcalls hcalm).holds
  obtain ⟨hplaced, hpasses⟩ := placed_after hs₀ hcalls
  have hmem : x ∈ s.state.selections := by
    rw [hx]
    exact List.mem_append_right _ (List.mem_cons_self ..)
  obtain ⟨item, g, hitem, hfor⟩ := hplaced x hmem hopen
  have hindex : s.index = s₀.index := hstart.index
  have hpass : s.Passes s.state := by
    intro hchecks
    have hconfig : s.config = config := hstart.config
    rw [hconfig] at hchecks
    rw [hindex]
    exact hpasses hchecks (List.ne_nil_of_mem hmem)
  rw [← hindex] at hitem hfor
  obtain ⟨hstate, ht, hu⟩ := Session.deselect_select Call.runInside_leavesBuild hstart.idle hpass hx
    hstanding.distinct hopen (hindex ▸ hstanding.stands x hmem hopen) hitem hfor hms
  refine ⟨item, hitem, hstate, fun hquiet => ⟨ht.resolve_right ?_, hu.resolve_right ?_⟩⟩
  · rintro ⟨d, hd, fault, hfault⟩
    rw [hquiet d (List.mem_append_left _ hd)] at hfault
    cases hfault
  · rintro ⟨d, hd, fault, hfault⟩
    rw [hquiet d (List.mem_append_right _ hd)] at hfault
    cases hfault

/-- Of two items, the first one is taken back and selected again. -/
theorem deselected_returns_sharedGroups :
    let s := Guided.after (sharedStart { checksState := false })
      [.setLevel (.whole 6), .select (.named "y") (.named "B") (.text "g") .null,
        .select (.named "x") (.named "A") .null .null]
    ∃ x z, s.state.selections = [x, z] ∧
      let t := Session.deselect Call.runInside x.id x.source s
      let u := Session.select Call.runInside (plainItem "y") x.source x.group (.object x.payload)
        t.session
      t.outcome = .ok ⟨true, none⟩ ∧ u.outcome = .ok ⟨true, none⟩ ∧
        u.session.state.selections = [z, x] := by
  intro s
  have hcalm : ∀ t ∈ turns (sharedStart { checksState := false })
      [.setLevel (.whole 6), .select (.named "y") (.named "B") (.text "g") .null,
        .select (.named "x") (.named "A") .null .null],
      ∀ d ∈ t.deliveries, d.outcome = .ok () := calm_of_all (by decide +kernel)
  have hidle : s.announcing = false := by decide +kernel
  have hnobody : s.registrations = [] := by decide +kernel
  have hmap : s.state.selections.map (fun x => (x.id, x.locked))
      = [(Text.ofString "y", false), (Text.ofString "x", false)] := by decide +kernel
  obtain ⟨x, rest, hs, hx, hrest⟩ := List.map_eq_cons_iff.mp hmap
  obtain ⟨z, last, rfl, _, hlast⟩ := List.map_eq_cons_iff.mp hrest
  obtain rfl := List.map_eq_nil_iff.mp hlast
  obtain ⟨hid, hopen⟩ := Prod.mk.inj hx
  have hsplit : s.state.selections = [] ++ x :: [z] := hs
  obtain ⟨item, hitem, hstate, hanswers⟩ := deselected_returns
    (newBuild_sharedGroups { checksState := false }) (by simp [Call.ByName]) hcalm hsplit hopen
    x.isSaidBy_payload
  obtain rfl : plainItem "y" = item := by
    have hcatalog : s.index = (sharedStart { checksState := false }).index :=
      (idle_after (newBuild_sharedGroups { checksState := false }) _).index
    rw [hcatalog, hid] at hitem
    exact Option.some.inj hitem
  -- nobody listens, so both requests are answered
  have ht := Session.request_unheard Call.runInside_leavesBuild
    (fun _ state => pure (Plan.deselect state x.id x.source)) hidle hnobody
  have hu := Session.request_unheard Call.runInside_leavesBuild
    (fun s state => Plan.select s.index state (plainItem "y") x.source x.group (.object x.payload))
    (Session.request_idle Call.runInside_leavesBuild
      (fun _ state => pure (Plan.deselect state x.id x.source)) hidle) ht.2
  obtain ⟨ht', hu'⟩ := hanswers fun d hd => by
    rcases List.mem_append.mp hd with hd | hd
    · exact absurd hd (List.eq_nil_iff_forall_not_mem.mp ht.1 d)
    · exact absurd hd (List.eq_nil_iff_forall_not_mem.mp hu.1 d)
  exact ⟨x, z, hs, ht', hu', congrArg Build.selections hstate⟩

end Guided

end CharacterBuild
