import CharacterBuild.Proofs.Calls

set_option autoImplicit false

/-! # Lowering the level

Lowering the level removes selections by the bare ids of their groups: a selection goes if *any*
source has a group of that id above the new level. `Guided.setLevel_accepted` says so, and when
this differs from going by the groups of the sources themselves.
-/

namespace CharacterBuild

variable {ν : Type} [Number ν]

/-! ## One call -/

theorem filter_eq_filter_iff {α : Type} {p q : α → Bool} {l : List α} :
    l.filter p = l.filter q ↔ ∀ a ∈ l, p a = q a := by
  refine ⟨fun h a ha => ?_, List.filter_congr⟩
  have hmem : a ∈ l.filter p ↔ a ∈ l.filter q := by rw [h]
  rw [List.mem_filter, List.mem_filter] at hmem
  rw [Bool.eq_iff_iff]
  exact ⟨fun hp => (hmem.mp ⟨ha, hp⟩).2, fun hq => (hmem.mpr ⟨ha, hq⟩).2⟩

namespace Guided

/-- Setting a field of a known name is its request: there is nothing to refuse before. -/
theorem run_setField (name : Text) (hname : (Plan.checkField name : Except (Fault ν) Unit) = .ok ())
    (value : Value ν) (s : Session ν (Call ν)) :
    let t := Session.request Call.runInside
      (fun s state => Plan.setField s.index s.config state name value) s
    (Call.setField name value).run s
      = ⟨t.session, t.notes, t.deliveries, t.outcome.map Answer.result⟩ := by
  show (Answer.result <$> Session.setField Call.runInside name value) s = _
  rw [Action.map_apply]
  unfold Session.setField
  rw [Action.lift_bind_of_ok (a := ()) hname]
  rfl

/-- A call that sets the level has nothing to ask before the request. -/
theorem run_setLevel (level : Value ν) (s : Session ν (Call ν)) :
    let t := Session.request Call.runInside
      (fun s state => Plan.setField s.index s.config state fieldNames.targetLevel level) s
    (Call.setLevel level).run s
      = ⟨t.session, t.notes, t.deliveries, t.outcome.map Answer.result⟩ :=
  run_setField fieldNames.targetLevel (if_neg (by decide)) level s

/-- An accepted level is aimed at. -/
theorem state_of_setLevel_accepted {s : Session ν (Call ν)} {n : Int}
    {reason : Option (Reason ν)}
    (h : ((Call.setLevel (.whole n)).run s).outcome = .ok (.result ⟨true, reason⟩)) :
    ((Call.setLevel (.whole n)).run s).session.state = s.state.aimedAt s.index n := by
  rw [run_setLevel] at h ⊢
  obtain ⟨result, ho, hresult⟩ := except_map_eq_ok.mp h
  obtain rfl := Answer.result.inj hresult
  obtain ⟨change, hp, _, hstate⟩ := Session.request_accepted Call.runInside_leavesBuild ho
  rw [Plan.setField, if_pos rfl] at hp
  obtain ⟨m, hm, _, _, _, _, hlevel⟩ := Plan.setLevel_commits hp
  -- the plan was made for the very level that is set
  obtain rfl : n = m := by simpa using hm
  exact hstate.trans hlevel

/-- Whether a call was answered with a change. -/
def answersChanged (t : Turn ν (Call ν) (Answer ν)) : Bool :=
  match t.outcome with
  | .ok (.result r) => r.changed
  | _ => false

theorem outcome_of_answersChanged {t : Turn ν (Call ν) (Answer ν)} (h : answersChanged t = true) :
    ∃ reason, t.outcome = .ok (.result ⟨true, reason⟩) := by
  unfold answersChanged at h
  split at h
  · rename_i r hr
    obtain ⟨changed, reason⟩ := r
    obtain rfl : changed = true := h
    exact ⟨reason, hr⟩
  · cases h

/-- **What a level that is set removes.** If the level is lowered, the selections go by whose
group id some source has a group above the new level; these are the ones whose own groups open
above it exactly if no selection goes for the sake of another source's group. Raising the level
removes nothing. -/
theorem setLevel_accepted {s : Session ν (Call ν)} {n : Int} {reason : Option (Reason ν)}
    (h : ((Call.setLevel (.whole n)).run s).outcome = .ok (.result ⟨true, reason⟩)) :
    let s' := ((Call.setLevel (.whole n)).run s).session.state
    (s.state.targetLevel ≤ (n : Level ν) → s' = { s.state with targetLevel := n }) ∧
    (¬ s.state.targetLevel ≤ (n : Level ν) →
      s' = { s.state with
        targetLevel := n
        selections := s.state.selections.filter fun x =>
          !s.index.opensAboveAnywhere n x.group } ∧
      (s'.selections = (s.state.selections.filter fun x =>
          !s.index.opensAbove n x.source.name x.group) ↔
        ∀ x ∈ s.state.selections, s.index.opensAboveAnywhere n x.group = true →
          s.index.opensAbove n x.source.name x.group = true)) := by
  intro s'
  have hs' : s' = s.state.aimedAt s.index n := state_of_setLevel_accepted h
  constructor
  · intro hraise
    rw [hs', Build.aimedAt, if_pos hraise]
  · intro hlower
    rw [Build.aimedAt, if_neg hlower] at hs'
    refine ⟨hs', ?_⟩
    rw [hs']
    rw [filter_eq_filter_iff]
    -- the group of the source itself is one of those that any source has
    refine forall_congr' fun x => forall_congr' fun _ => ?_
    constructor
    · intro hsame habove
      rw [habove] at hsame
      simpa using hsame.symm
    · intro honly
      cases habove : s.index.opensAbove (n : Level ν) x.source.name x.group with
      | true => rw [s.index.opensAboveAnywhere_of_opensAbove habove]
      | false =>
          cases hany : s.index.opensAboveAnywhere (n : Level ν) x.group with
          | false => rfl
          | true =>
              rw [honly hany] at habove
              cases habove

/-- Two sources share the id of a group: what was selected at level 1 goes when the level is
lowered from 6 to 2, though its own group stays open. -/
theorem setLevel_accepted_sharedGroups :
    let s := after (sharedStart {})
      [.setLevel (.whole 6), .select (.named "x") (.named "A") .null .null]
    let s' := ((Call.setLevel (.whole 2)).run s).session.state
    s'.selections ≠ s.state.selections.filter fun x =>
      !s.index.opensAbove (2 : Int) x.source.name x.group := by
  intro s s' hsame
  obtain ⟨reason, h⟩ := outcome_of_answersChanged (t := (Call.setLevel (.whole 2)).run s)
    (by decide +kernel)
  have honly := ((setLevel_accepted h).2 (by decide +kernel)).2.mp hsame
  revert honly
  decide +kernel

end Guided

end CharacterBuild
