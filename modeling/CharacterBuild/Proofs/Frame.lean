import CharacterBuild.Proofs.Commits
import CharacterBuild.Session.Unguided

set_option autoImplicit false

/-! # What a request for a selection leaves alone

The requests for one selection, of an item from a source, go about it in different ways: the
selection is taken out, changed in its place, or put behind the others. `Build.TouchedAt` says what
all of them leave alone: everything but the selections, and of these all that are not of the item
from the source. Only an item that is put into an exclusive group makes others go, the former
members of the group (`Plan.select_puts_touched`). `Unguided.selections_spared` concludes for
every call, however it ends.
-/

namespace CharacterBuild

variable {ν : Type} [Number ν]

/-! ## States -/

namespace Build

/-- The selections besides those of an item from a source. -/
def besides (s : Build ν) (item : Text) (source : SourceId) : List (Selection ν) :=
  s.selections.filter fun x => !x.isOf item (some source)

/-- A state that differs from another one in the selections alone, and which of these, besides the
ones of an item from a source, has just the given ones. -/
structure TouchedAt (s : Build ν) (item : Text) (source : SourceId) (kept : List (Selection ν))
    (s' : Build ν) : Prop where
  rest : s' = { s with selections := s'.selections }
  besides : s'.besides item source = kept

variable {s : Build ν} {item : Text} {source : SourceId}

/-- Nothing is touched when selections of the item from the source are taken out. -/
theorem touchedAt_filter {keep : Selection ν → Bool}
    (hkeep : ∀ x, x.isOf item (some source) = false → keep x = true) :
    s.TouchedAt item source (s.besides item source)
      { s with selections := s.selections.filter keep } := by
  refine ⟨rfl, ?_⟩
  show (s.selections.filter keep).filter _ = s.selections.filter _
  rw [List.filter_filter]
  apply List.filter_congr
  intro x _
  cases hx : x.isOf item (some source) with
  | true => simp
  | false => simp [hkeep x hx]

/-- Nothing is touched when the selection of the item from the source is changed in its place. -/
theorem touchedAt_modify {change : Selection ν → Selection ν}
    (hchange : ∀ x, x.isOf item (some source) = true →
      (change x).isOf item (some source) = true) :
    s.TouchedAt item source (s.besides item source) (s.modify item source change) := by
  refine ⟨rfl, ?_⟩
  show (modify.go item source change s.selections).filter _ = s.selections.filter _
  induction s.selections with
  | nil => rfl
  | cons x rest ih =>
      unfold modify.go
      cases hx : x.isOf item (some source) with
      | true =>
          rw [if_pos rfl, List.filter_cons_of_neg (by simp [hchange x hx]),
            List.filter_cons_of_neg (by simp [hx])]
      | false =>
          rw [if_neg (by simp), List.filter_cons_of_pos (by simp [hx]),
            List.filter_cons_of_pos (by simp [hx]), ih]

/-- A selection of the item from the source is put behind those that stay. -/
theorem touchedAt_put {x : Selection ν} (hx : x.isOf item (some source) = true)
    (keep : Selection ν → Bool) :
    s.TouchedAt item source ((s.besides item source).filter keep)
      { s with selections := s.selections.filter keep ++ [x] } := by
  refine ⟨rfl, ?_⟩
  show (s.selections.filter keep ++ [x]).filter _ = (s.selections.filter _).filter keep
  rw [List.filter_append, List.filter_cons_of_neg (by simp [hx]), List.filter_nil,
    List.append_nil, List.filter_comm]

end Build

/-! ## Plans -/

namespace Plan

variable {index : Index ν} {state : Build ν} {item : Text} {source : SourceId} {p : Plan ν}

/-- A plan that leaves alone all that is not of an item from a source. -/
def Spares (state : Build ν) (item : Text) (source : SourceId) (p : Plan ν) : Prop :=
  p.Makes (state.TouchedAt item source (state.besides item source))

theorem touchedAt_of_remove {x : Selection ν} {change : Change ν} {reason : Option (Reason ν)}
    (hx : x.isOf item (some source) = true) (h : remove state x = .commit change reason) :
    state.TouchedAt item source (state.besides item source) change.state := by
  simp only [Selection.isOf, Bool.and_eq_true, decide_eq_true_eq] at hx
  rw [(remove_commits h).2.state]
  refine Build.touchedAt_filter fun y hy => ?_
  simp only [Selection.isOf] at hy
  rw [hx.1, hx.2, hy]
  rfl

theorem SetsOptions.touchedAt {options : List (Value ν)} {change : Change ν}
    (h : SetsOptions state item source options change) :
    state.TouchedAt item source (state.besides item source) change.state := by
  rw [h.state]
  exact Build.touchedAt_modify fun _ hx => hx

theorem deselect_spares : (deselect state item source).Spares state item source := by
  refine .of_commits fun change reason h => ?_
  obtain ⟨x, hfinds, hremove⟩ := deselect_commits h
  exact touchedAt_of_remove (List.find?_some hfinds.found) hremove

theorem replaceOptions_spares {asked : Value ν}
    (h : (replaceOptions index state item source asked).outcome = .ok p) :
    p.Spares state item source := by
  refine .of_commits fun change reason hp => ?_
  rw [hp] at h
  obtain ⟨x, options, _, _, _, hsets⟩ := replaceOptions_commits h
  exact hsets.touchedAt

theorem takeOption_spares {option : Text} :
    (takeOption index state item source option).Spares state item source := by
  refine .of_commits fun change reason h => ?_
  obtain ⟨x, i, options, _, _, _, hsets⟩ := takeOption_commits h
  exact hsets.touchedAt

theorem dropOption_spares {option : Text} :
    (dropOption state item source option).Spares state item source := by
  refine .of_commits fun change reason h => ?_
  obtain ⟨x, _, _, hsets⟩ := dropOption_commits h
  exact hsets.touchedAt

theorem update_spares {changes : Value ν} (h : update index state item source changes = .ok p) :
    p.Spares state item source := by
  refine .of_commits fun change reason hp => ?_
  rw [hp] at h
  obtain ⟨x, hfinds, hremove | ⟨y, hrevises, hselects⟩⟩ := update_commits h
  · exact touchedAt_of_remove (List.find?_some hfinds.found) hremove
  · rw [hselects.state]
    refine Build.touchedAt_modify fun _ _ => ?_
    have hx : x.isOf item (some source) = true := List.find?_some hfinds.found
    simpa [Selection.isOf, hrevises.place.id, hrevises.place.source] using hx

/-! ### Selecting -/

variable {i : Item ν} {group payload kept : Value ν} {g : Option (Group ν)}

/-- Selecting an item that is selected takes back its selection from the same source at most. -/
theorem select_selected_spares {existing : Selection ν}
    (hx : state.selection? i.id none = some existing)
    (h : (select index state i source group payload).outcome = .ok p) :
    p.Spares state i.id source := by
  refine .of_commits fun change reason hp => ?_
  rw [hp] at h
  rcases select_commits h with ⟨x, hfound, hsource, hremove⟩ | ⟨_, _, hputs, _⟩
  · refine touchedAt_of_remove ?_ hremove
    simp [Selection.isOf, Build.selection?_id hfound, hsource]
  · have hnew := hputs.new
    rw [hx] at hnew
    cases hnew

/-- **An item that is put into a group** makes the members of the group go, if the group is
exclusive, and touches nothing else. -/
theorem select_puts_touched (hnew : state.selection? i.id none = none)
    (hfor : (groupFor index i source group).outcome = .ok (g, kept))
    (h : (select index state i source group payload).outcome = .ok p) :
    p.Makes (state.TouchedAt i.id source
      ((state.besides i.id source).filter (Group.spares source g))) := by
  refine .of_commits fun change reason hp => ?_
  rw [hp] at h
  obtain ⟨others, x, hputs, hselects⟩ := puts_of_commit hnew h
  obtain ⟨g', hfor', hroom⟩ := hputs.room
  rw [hfor] at hfor'
  obtain ⟨rfl, _⟩ := Prod.mk.inj (Except.ok.inj hfor')
  -- what stays is what the group spares
  have hothers : others = state.selections.filter (Group.spares source g) := by
    rw [outcome_roomFor] at hroom
    have hroom := Except.ok.inj hroom
    split at hroom
    · cases hroom
    · exact (Except.ok.inj hroom).symm
  obtain ⟨hid, hsource, _⟩ := hputs.fresh.place
  have hx : x.isOf i.id (some source) = true := by simp [Selection.isOf, hid, hsource]
  rw [hselects.state, hothers]
  exact Build.touchedAt_put hx _

end Plan

/-! ## Calls -/

/-- A turn in which a new state was put in place: the call is answered with a change, or a
listener that was told of the change lets out a fault. -/
def Turn.Accepted {κ : Type} (t : Turn ν κ (Answer ν)) : Prop :=
  (∃ reason, t.outcome = .ok (.result ⟨true, reason⟩)) ∨
    ∃ d ∈ t.deliveries, ∃ fault, d.outcome = .error fault

theorem Turn.Accepted.of_answer {κ : Type} {t : Turn ν κ (Answer ν)}
    (h : (t.outcome.toOption.any fun | .result r => r.changed | _ => false) = true) :
    t.Accepted := by
  obtain ⟨answer, ho, hchanged⟩ := except_eq_ok_of_any h
  cases answer with
  | result r => exact Or.inl ⟨r.reason, by rw [ho, ← hchanged]⟩
  | _ => cases hchanged

/-- A turn that leaves the state as it was, or is accepted and leads to a state with a property. -/
def Turn.Leads {κ : Type} (s : Session ν κ) (R : Build ν → Prop) (t : Turn ν κ (Answer ν)) : Prop :=
  (¬ t.Accepted ∧ t.session.state = s.state) ∨ (t.Accepted ∧ R t.session.state)

/-- A turn that does not touch the session leads nowhere. -/
theorem Turn.Leads.of_kept {κ : Type} {s : Session ν κ} {R : Build ν → Prop}
    {t : Turn ν κ (Answer ν)} (hs : t.session = s) (hd : t.deliveries = [])
    (ho : ∀ reason, t.outcome ≠ .ok (.result ⟨true, reason⟩)) : t.Leads s R := by
  refine Or.inl ⟨?_, by rw [hs]⟩
  rintro (⟨reason, h⟩ | ⟨d, h, _⟩)
  · exact ho reason h
  · rw [hd] at h
    cases h

/-- **A request leads to the state that its plan makes**, or leaves the state as it was. -/
theorem Session.request_leads {κ : Type} {run : κ → Action ν κ (Answer ν)}
    (hrun : ∀ c, (run c).LeavesBuild) {plan : Session ν κ → Build ν → Traced ν (Plan ν)}
    {s : Session ν κ} {R : Build ν → Prop}
    (hmakes : ∀ p, (plan s s.state).outcome = .ok p → p.Makes R) :
    ((Answer.result <$> request run plan) s).Leads s R := by
  rw [Action.map_apply]
  cases hidle : s.announcing with
  | true =>
      rw [request_busy hidle]
      exact .of_kept rfl rfl nofun
  | false =>
      rcases request_carried hrun plan hidle with ⟨fault, _, hs, hd, ho⟩ | ⟨p, hp, hc⟩
      · exact .of_kept hs hd (by simp [ho, Except.map])
      · cases hc with
        | kept hs hd ho => exact .of_kept hs hd (by simp [ho, Except.map])
        | barred hs hd ho _ => exact .of_kept hs hd (by simp [ho, Except.map])
        | made _ hs ho =>
            refine Or.inr ⟨Or.inl ⟨_, by rw [ho]; rfl⟩, ?_⟩
            exact hs.state.symm ▸ hmakes _ hp
        | broken _ hs _ hd =>
            obtain ⟨d, hmem, hfault⟩ := hd
            exact Or.inr ⟨Or.inr ⟨d, hmem, _, hfault⟩, hs.state.symm ▸ hmakes _ hp⟩

/-! ### While listeners are told -/

namespace Action.LeavesBuild

variable {κ α β : Type}

theorem map {x : Action ν κ α} (f : α → β) (h : x.LeavesBuild) : (f <$> x).LeavesBuild := by
  rw [map_eq_pure_bind]
  exact h.bind fun _ => .pure _

theorem mapM {f : α → Action ν κ β} (hf : ∀ a, (f a).LeavesBuild) (l : List α) :
    (l.mapM f).LeavesBuild := by
  induction l with
  | nil => exact .pure _
  | cons a rest ih =>
      rw [List.mapM_cons]
      exact (hf a).bind fun _ => ih.bind fun _ => .pure _

theorem lift (x : Traced ν α) : (Action.lift x : Action ν κ α).LeavesBuild :=
  of_session_eq fun _ => rfl

theorem fail (fault : Fault ν) : (Action.fail fault : Action ν κ α).LeavesBuild :=
  of_session_eq fun _ => rfl

theorem request {run : κ → Action ν κ (Answer ν)}
    (plan : Session ν κ → Build ν → Traced ν (Plan ν)) :
    (Session.request run plan).LeavesBuild := fun s hs => by
  rw [Session.request_busy hs]
  exact .refl s

end Action.LeavesBuild

namespace Unguided

/-- Whatever is called while listeners are told, the build stays as it is. -/
theorem Call.runWith_leavesBuild (run : Call ν → Action ν (Call ν) (Answer ν)) (c : Call ν) :
    (c.runWith run).LeavesBuild := by
  cases c with
  | select item source group payload => exact .map _ (.request _)
  | deselect item source => exact .map _ (.request _)
  | update item source changes => exact .map _ (.bind (.lift _) fun _ => .request _)
  | replaceOptions item source options => exact .map _ (.request _)
  | takeOption item source option => exact .map _ (.request _)
  | dropOption item source option => exact .map _ (.request _)
  | setField name value => exact .map _ (.bind (.lift _) fun _ => .request _)
  | selectAllForced source =>
      refine .map _ (.bind .session fun s => .bind (.mapM (fun forced => ?_) _) fun _ => .pure _)
      refine .bind .session fun s' => ?_
      split
      · exact .bind (.lift _) fun _ => .pure _
      · split
        · exact .pure _
        · exact .bind (.request _) fun _ => .pure _
  | restore selections rest =>
      refine .map _ (.bind .session fun s => ?_)
      split
      · exact .fail _
      · exact .bind (.lift _) fun _ => .bind (.request _) fun _ => .pure _
  | replace field state =>
      refine .map _ fun s hs => ?_
      unfold Session.replace
      rw [Action.session_bind, if_pos hs]
      exact .refl s
  | selected => exact .map _ (.bind .session fun _ => .pure _)
  | subscribe listener steps => exact .map _ fun s _ => ⟨rfl, rfl, rfl, rfl, rfl⟩
  | unsubscribe listener => exact .map _ fun s _ => ⟨rfl, rfl, rfl, rfl, rfl⟩
  | faulty fault => exact .fail fault

/-! ### Requests for one selection -/

/-- The item and the source of the selection that a call asks about. -/
def Call.selection? : Call ν → Option (Text × SourceId)
  | select item source _ _ => some (item.id, source)
  | deselect item source => some (item, source)
  | update item source _ => some (item, source)
  | replaceOptions item source _ => some (item, source)
  | takeOption item source _ => some (item, source)
  | dropOption item source _ => some (item, source)
  | _ => none

/-- The group that a call puts an item into which is not selected. -/
def Call.entered? (s : Session ν (Call ν)) : Call ν → Option (Group ν)
  | select i source group _ =>
    match s.state.selection? i.id none, (Plan.groupFor s.index i source group).outcome with
    | none, .ok (g, _) => g
    | _, _ => none
  | _ => none

/-- The selections that stay when a call is accepted: those besides the one that it asks about,
less those that have to make room for it. -/
def Call.kept (s : Session ν (Call ν)) (c : Call ν) (item : Text) (source : SourceId) :
    List (Selection ν) :=
  (s.state.besides item source).filter (Group.spares source (c.entered? s))

variable {s : Session ν (Call ν)} {c : Call ν} {item : Text} {source : SourceId} {p : Plan ν}

/-- A call that enters no group makes nobody go. -/
theorem makes_kept_of_spares (hnone : c.entered? s = none) (h : p.Spares s.state item source) :
    p.Makes (s.state.TouchedAt item source (c.kept s item source)) := by
  have hkept : c.kept s item source = s.state.besides item source := by
    unfold Call.kept
    rw [hnone]
    exact List.filter_eq_self.mpr fun _ _ => rfl
  rw [hkept]
  exact h

theorem makes_kept_of_select {i : Item ν} {group payload : Value ν}
    (h : (Plan.select s.index s.state i source group payload).outcome = .ok p) :
    p.Makes (s.state.TouchedAt i.id source
      ((Call.select i source group payload).kept s i.id source)) := by
  cases hx : s.state.selection? i.id none with
  | some existing =>
      refine makes_kept_of_spares ?_ (Plan.select_selected_spares hx h)
      simp [Call.entered?, hx]
  | none =>
      obtain ⟨⟨g, kept⟩, hfor, _⟩ := Traced.outcome_bind_eq_ok.mp h
      have hentered : (Call.select i source group payload).entered? s = g := by
        simp [Call.entered?, hx, hfor]
      unfold Call.kept
      rw [hentered]
      exact Plan.select_puts_touched hx hfor h

/-- **Every request for one selection**, if it is accepted, leads to a state that differs in the
selections alone and keeps those that it has to keep. -/
theorem Call.run_leads (hc : c.selection? = some (item, source)) :
    (c.run s).Leads s (s.state.TouchedAt item source (c.kept s item source)) := by
  have hrun : ∀ c : Call ν, c.runInside.LeavesBuild := Call.runWith_leavesBuild _
  cases c with
  | select i source' group payload =>
      obtain ⟨rfl, rfl⟩ := Prod.mk.inj (Option.some.inj hc)
      exact Session.request_leads hrun fun p hp => makes_kept_of_select hp
  | deselect item' source' =>
      obtain ⟨rfl, rfl⟩ := Prod.mk.inj (Option.some.inj hc)
      exact Session.request_leads hrun fun p hp =>
        makes_kept_of_spares rfl (Except.ok.inj hp ▸ Plan.deselect_spares)
  | update item' source' changes =>
      obtain ⟨rfl, rfl⟩ := Prod.mk.inj (Option.some.inj hc)
      show ((Answer.result <$> Session.update Call.runInside item' source' changes) s).Leads s _
      unfold Session.update
      rw [map_bind]
      cases hnames : Plan.checkChanges changes with
      | error fault =>
          -- unknown names are found before anything is asked
          rw [Action.lift_bind_of_error rfl]
          exact .of_kept rfl rfl nofun
      | ok u =>
          rw [Action.lift_bind_of_ok (a := u) rfl]
          show ((Answer.result <$> Session.request Call.runInside fun s state =>
            Traced.lift (Plan.update s.index state item' source' changes)) s).Leads s _
          exact Session.request_leads hrun fun p hp =>
            makes_kept_of_spares rfl (Plan.update_spares hp)
  | replaceOptions item' source' options =>
      obtain ⟨rfl, rfl⟩ := Prod.mk.inj (Option.some.inj hc)
      exact Session.request_leads hrun fun p hp =>
        makes_kept_of_spares rfl (Plan.replaceOptions_spares hp)
  | takeOption item' source' option =>
      obtain ⟨rfl, rfl⟩ := Prod.mk.inj (Option.some.inj hc)
      exact Session.request_leads hrun fun p hp =>
        makes_kept_of_spares rfl (Except.ok.inj hp ▸ Plan.takeOption_spares)
  | dropOption item' source' option =>
      obtain ⟨rfl, rfl⟩ := Prod.mk.inj (Option.some.inj hc)
      exact Session.request_leads hrun fun p hp =>
        makes_kept_of_spares rfl (Except.ok.inj hp ▸ Plan.dropOption_spares)
  | _ => cases hc

/-- **A request for a selection touches nothing else**, however it ends and whatever listeners do:
of the state only the selections may differ, and those that are not of the item from the source are
the same in the same order, except that an accepted select of an item that was not selected makes
just the members of its group go, if the group is exclusive. -/
theorem selections_spared (hc : c.selection? = some (item, source)) (s : Session ν (Call ν)) :
    let t := c.run s
    let now := t.session.state
    now = { s.state with selections := now.selections } ∧
    (∀ g, t.Accepted → c.entered? s = some g → g.isExclusive = true →
      now.besides item source
        = (s.state.besides item source).filter fun x => !x.isIn source g.id) ∧
    ((¬ t.Accepted ∨ ∀ g, c.entered? s = some g → g.isExclusive = false) →
      now.besides item source = s.state.besides item source) := by
  intro t now
  rcases Call.run_leads (s := s) hc with ⟨hno, hstate⟩ | ⟨hyes, htouched⟩
  · -- not accepted: the state is as it was
    have hnow : now = s.state := hstate
    rw [hnow]
    exact ⟨rfl, fun g haccepted => absurd haccepted hno, fun _ => rfl⟩
  · refine ⟨htouched.rest, fun g _ hg hexclusive => ?_, fun hspared => ?_⟩
    · rw [htouched.besides, Call.kept, hg, Group.spares_of_exclusive hexclusive]
    · have hloose := hspared.resolve_left fun hno => hno hyes
      rw [htouched.besides, Call.kept]
      cases hg : c.entered? s with
      | none => exact List.filter_eq_self.mpr fun _ _ => rfl
      | some g => exact Plan.spares_of_not_exclusive (hloose g hg) _

/-- The item `x` is selected in the exclusive group of a source, and `z` from the same source in no
group. -/
def memberState : Build Double where
  selections := [{ id := "x", source := ⟨"A", .primary⟩, group := .text "g" },
    { id := "z", source := ⟨"A", .primary⟩ }]

/-- The item `y` is put into the group, where it takes the place of `x`; and `z` stays. -/
theorem selections_spared_sharedGroups :
    let c : Call Double := .select (plainItem "y") ⟨"A", .primary⟩ (.text "g") .null
    let s := start { catalog := sharedGroups } { checksState := false } memberState
    let now := (c.run s).session.state
    c.selection? = some (("y" : Text), ⟨"A", .primary⟩) ∧ (c.run s).Accepted ∧
    (∃ g, c.entered? s = some g ∧ g.isExclusive = true ∧
      now.besides "y" ⟨"A", .primary⟩ = (memberState.besides "y" ⟨"A", .primary⟩).filter fun x =>
        !x.isIn ⟨"A", .primary⟩ g.id) ∧
    now.selections.map Selection.id = [("z" : Text), "y"] := by
  intro c s now
  have haccepted : (c.run s).Accepted := .of_answer (by decide +kernel)
  obtain ⟨g, hg, hexclusive⟩ : ∃ g, c.entered? s = some g ∧ g.isExclusive = true :=
    (Option.any_eq_true ..).mp (by decide +kernel)
  obtain ⟨_, hexchanged, _⟩ := selections_spared (c := c) rfl s
  exact ⟨rfl, haccepted, ⟨g, hg, hexclusive, hexchanged g haccepted hg hexclusive⟩,
    by decide +kernel⟩

end Unguided

end CharacterBuild
