import CharacterBuild.Proofs.Calls
import CharacterBuild.Proofs.Likeness
import CharacterBuild.Proofs.Lowering
import CharacterBuild.Proofs.News

set_option autoImplicit false

/-! # Requests change all or nothing, and tell of it once

A request for one change either leaves the session as it was and tells nobody, or it puts a
state in place that is not like the one before and tells every registration once, in order, of
the one field that it changes (`Session.Turnout`). Whatever is asked or computed before the
request leaves no trace in the session, so the same holds of the calls that make such a request
(`Guided.run_atomic`).

That each registration is told just once is `Session.Told`: nothing that a listener does while
it is told makes any news of its own.
-/

namespace CharacterBuild

variable {ν κ α β : Type} [Number ν]

namespace Session

variable {run : κ → Action ν κ (Answer ν)}

/-! ## How a request turns out -/

/-- **How a request to change a field turns out**: it touches nothing, or it makes a change and
tells of it, or else a listener lets out a fault. -/
inductive Turnout (field : Text) (s : Session ν κ) (t : Turn ν κ (Result ν)) : Prop where
  | untouched (hs : t.session = s) (hd : t.deliveries = [])
      (ho : ∀ result, t.outcome = .ok result → result.changed = false)
  | changed {reason : Option (Reason ν)} (ho : t.outcome = .ok ⟨true, reason⟩)
      (hstate : t.session.state.alike s.state = false)
      (htold : t.deliveries.map (fun d => (d.listener, d.field))
        = s.registrations.map fun listener => (listener, field))
  | broken {d : Delivery ν} (hd : d ∈ t.deliveries) (ho : d.outcome ≠ .ok ())

/-- Notes make no difference. -/
theorem Turnout.of_eq {field : Text} {s : Session ν κ} {t t' : Turn ν κ (Result ν)}
    (h : Turnout field s t) (hsession : t'.session = t.session)
    (hdeliveries : t'.deliveries = t.deliveries) (houtcome : t'.outcome = t.outcome) :
    Turnout field s t' := by
  cases h with
  | untouched hs hd ho =>
      exact .untouched (hsession.trans hs) (hdeliveries.trans hd) (by rw [houtcome]; exact ho)
  | changed ho hstate htold =>
      exact .changed (houtcome.trans ho) (by rw [hsession]; exact hstate)
        (by rw [hdeliveries]; exact htold)
  | broken hd ho => exact .broken (by rw [hdeliveries]; exact hd) ho

/-- A fault that comes up before anything is done. -/
theorem Turnout.of_error {field : Text} {s : Session ν κ} {t : Turn ν κ (Result ν)}
    {fault : Fault ν} (hs : t.session = s) (hd : t.deliveries = [])
    (ho : t.outcome = .error fault) : Turnout field s t :=
  .untouched hs hd fun result h => by
    rw [ho] at h
    cases h

/-- **A request turns out so if its plan alters the build.** -/
theorem request_turnout (hrun : ∀ c, (run c).LeavesBuild) (hquiet : ∀ c, (run c).Quiet)
    {field : Text} {plan : Session ν κ → Build ν → Traced ν (Plan ν)} {s : Session ν κ}
    (halters : ∀ p, (plan s s.state).outcome = .ok p → p.Alters field s.state) :
    Turnout field s (request run plan s) := by
  cases request_handled hrun hquiet plan s with
  | failed hs hd ho => exact .of_error hs hd ho
  | kept _ hs hd ho =>
      refine .untouched hs hd fun result h => ?_
      rw [ho] at h
      rw [← Except.ok.inj h]
  | @announced change reason outcome hp hnews ho =>
      obtain ⟨rfl, hstate⟩ := halters _ hp
      cases outcome with
      | ok u =>
          exact .changed ho (by rw [hnews.replaced.state]; exact hstate) hnews.told.listeners_eq
      | error fault =>
          obtain ⟨d, hmem, hraised⟩ := hnews.told.exists_of_error
          exact .broken hmem (by rw [hraised]; nofun)

end Session

/-! ## Calls -/

namespace Guided

open Session (Turnout)

variable {c : Call ν} {s : Session ν (Call ν)}

namespace Call

/-- While listeners are told of a change, no part of a call delivers news. -/
theorem Part.quiet {run : Call ν → Action ν (Call ν) (Answer ν)} {x : Action ν (Call ν) α}
    (h : Part run c s x) (hs : s.announcing = true) : (x s).deliveries = [] := by
  induction h with
  | pure a => rfl
  | lift h => rfl
  | fail h => rfl
  | register hsame hchecks => rfl
  | read hchecks h ih =>
      rw [Action.session_bind]
      exact ih hs
  | @bind α β s x f hx hf ihx ihf =>
      cases ho : (x s).outcome with
      | ok a =>
          rw [Action.bind_of_ok ho]
          show (x s).deliveries ++ _ = []
          rw [ihx hs, ihf a ho ((hx.sameBuild hs).announcing.trans hs)]
          rfl
      | error fault =>
          rw [Action.bind_of_error ho]
          exact ihx hs
  | request hchecks hplan hmakes => rw [Session.request_busy hs]

theorem runInside_quiet (c : Call ν) : c.runInside.Quiet :=
  fun s hs => (part (fun _ => .of_session_eq fun _ => rfl) c s).quiet hs

/-- The field that a call changes, if it asks for one change of the build. -/
def field? : Call ν → Option Text
  | select .. | deselect .. | update .. | replaceOptions .. | takeOption .. | dropOption .. =>
    some fieldNames.selections
  | setField name _ => some name
  | setLevel _ => some fieldNames.targetLevel
  | _ => none

end Call

section

variable {field : Text}

/-- A question that comes before makes no difference, unless it ends in a fault. -/
theorem turnout_ask_bind {question : Session ν (Call ν) → Traced ν α}
    {f : α → Action ν (Call ν) (Result ν)}
    (h : ∀ a, (question s).outcome = .ok a → Turnout field s (f a s)) :
    Turnout field s ((ask question >>= f) s) := by
  cases ho : (question s).outcome with
  | ok a =>
      rw [ask_bind_of_ok ho]
      exact (h a ho).of_eq rfl rfl rfl
  | error fault =>
      rw [ask_bind_of_error ho]
      exact .of_error rfl rfl rfl

theorem turnout_lift_bind {x : Traced ν α} {f : α → Action ν (Call ν) (Result ν)}
    (h : ∀ a, x.outcome = .ok a → Turnout field s (f a s)) :
    Turnout field s ((Action.lift x >>= f) s) := by
  cases ho : x.outcome with
  | ok a =>
      rw [Action.lift_bind_of_ok ho]
      exact (h a ho).of_eq rfl rfl rfl
  | error fault =>
      rw [Action.lift_bind_of_error ho]
      exact .of_error rfl rfl rfl

theorem turnout_withKey {source : SourceMention}
    {request : SourceId → Action ν (Call ν) (Result ν)}
    (h : ∀ key, Turnout field s (request key s)) : Turnout field s (withKey source request s) :=
  turnout_ask_bind fun key _ => h key

/-- A refusal by the rules. -/
theorem turnout_refused (reason : Option (Reason ν)) :
    Turnout field s ((pure ⟨false, reason⟩ : Action ν (Call ν) (Result ν)) s) :=
  .untouched rfl rfl fun _ h => by rw [← Except.ok.inj h]

theorem turnout_request {plan : Session ν (Call ν) → Build ν → Traced ν (Plan ν)}
    (h : ∀ p, (plan s s.state).outcome = .ok p → p.Alters field s.state) :
    Turnout field s (Session.request Call.runInside plan s) :=
  Session.request_turnout Call.runInside_leavesBuild Call.runInside_quiet h

theorem turnout_select {item : ItemMention ν} {source : SourceMention} {group payload : Value ν} :
    Turnout fieldNames.selections s
      (Guided.select Call.runInside item source group payload s) := by
  refine turnout_ask_bind fun found _ => ?_
  cases found with
  | error reason => exact turnout_refused _
  | ok i =>
      refine turnout_withKey fun key => turnout_ask_bind fun verdict _ => ?_
      cases verdict with
      | disabled reason => exact turnout_lift_bind fun _ _ => turnout_refused _
      | enabled => exact turnout_request fun _ => Plan.select_alters

theorem turnout_update {item : Text} {source : SourceMention} {changes : Value ν} :
    Turnout fieldNames.selections s (Guided.update Call.runInside item source changes s) := by
  refine turnout_lift_bind fun _ _ => turnout_withKey fun key => ?_
  refine turnout_ask_bind fun verdict _ => ?_
  cases verdict with
  | disabled reason => exact turnout_refused _
  | enabled =>
      exact turnout_lift_bind fun _ _ => turnout_request fun _ => Plan.update_alters

theorem turnout_setField {name : Text} {value : Value ν}
    (hvalue : name = fieldNames.targetLevel ∨ value.IsComparable) :
    Turnout name s (Session.setField Call.runInside name value s) :=
  turnout_lift_bind fun _ _ => turnout_request fun _ => Plan.setField_alters hvalue

/-- The turn of a call that answers with the result of a request. -/
theorem atomic_of_turnout {x : Action ν (Call ν) (Result ν)} (h : Turnout field s (x s))
    (hcalm : ∀ d ∈ ((Answer.result <$> x) s).deliveries, d.outcome = .ok ()) :
    let t := (Answer.result <$> x) s
    (answersChanged t = false → t.session = s ∧ t.deliveries = []) ∧
    (answersChanged t = true → t.session.state.alike s.state = false ∧
      t.deliveries.map (fun d => (d.listener, d.field))
        = s.registrations.map fun listener => (listener, field)) := by
  intro t
  have ht : t = ⟨(x s).session, (x s).notes, (x s).deliveries,
      (x s).outcome.map Answer.result⟩ := Action.map_apply _ _ _
  cases h with
  | untouched hs hd ho =>
      have hno : answersChanged t = false := by
        rw [ht]
        unfold answersChanged
        cases hx : (x s).outcome with
        | ok result => exact ho result hx
        | error fault => rfl
      rw [hno, ht]
      exact ⟨fun _ => ⟨hs, hd⟩, nofun⟩
  | changed ho hstate htold =>
      have hyes : answersChanged t = true := by
        rw [ht, ho]
        rfl
      rw [hyes, ht]
      exact ⟨nofun, fun _ => ⟨hstate, htold⟩⟩
  | @broken d hd ho =>
      refine absurd (hcalm d ?_) ho
      rw [Action.map_apply]
      exact hd

end

/-- **Calls that ask for a change make all of it or nothing.** A call that is refused or ends in a
fault leaves the session as it was and tells no listener. One that is answered with a change leads
to a state that is not like the one before, and each registration is told once, in order, of the
field that the call changes. -/
theorem run_atomic {field : Text} (hfield : c.field? = some field)
    (hvalue : ∀ name value, c = .setField name value → value.IsComparable)
    (hcalm : ∀ d ∈ (c.run s).deliveries, d.outcome = .ok ()) :
    let t := c.run s
    (answersChanged t = false → t.session = s ∧ t.deliveries = []) ∧
    (answersChanged t = true → t.session.state.alike s.state = false ∧
      t.deliveries.map (fun d => (d.listener, d.field))
        = s.registrations.map fun listener => (listener, field)) := by
  cases c with
  | select item source group payload =>
      obtain rfl := Option.some.inj hfield
      exact atomic_of_turnout turnout_select hcalm
  | deselect item source =>
      obtain rfl := Option.some.inj hfield
      refine atomic_of_turnout (turnout_withKey fun key => turnout_request fun p hp => ?_) hcalm
      exact Except.ok.inj hp ▸ Plan.deselect_alters
  | update item source changes =>
      obtain rfl := Option.some.inj hfield
      exact atomic_of_turnout turnout_update hcalm
  | replaceOptions item source options =>
      obtain rfl := Option.some.inj hfield
      refine atomic_of_turnout (turnout_withKey fun key => turnout_request fun p hp => ?_) hcalm
      exact Plan.replaceOptions_alters hp
  | takeOption item source option =>
      obtain rfl := Option.some.inj hfield
      refine atomic_of_turnout (turnout_withKey fun key => turnout_request fun p hp => ?_) hcalm
      exact Except.ok.inj hp ▸ Plan.takeOption_alters
  | dropOption item source option =>
      obtain rfl := Option.some.inj hfield
      refine atomic_of_turnout (turnout_withKey fun key => turnout_request fun p hp => ?_) hcalm
      exact Except.ok.inj hp ▸ Plan.dropOption_alters
  | setField name value =>
      obtain rfl := Option.some.inj hfield
      exact atomic_of_turnout (turnout_setField (.inr (hvalue name value rfl))) hcalm
  | setLevel level =>
      obtain rfl := Option.some.inj hfield
      exact atomic_of_turnout (turnout_setField (.inl rfl)) hcalm
  | _ => cases hfield

/-- A field is set while one listener is registered twice and another one once. -/
theorem run_atomic_sharedGroups :
    let s := after (sharedStart {})
      [.subscribe "log" [⟨.selected, false⟩], .subscribe "view" [], .subscribe "log" []]
    let t := (Call.setField "notes" (.list [.text "brave"])).run s
    t.session.state.alike s.state = false ∧
      t.deliveries.map (fun d => (d.listener, d.field))
        = ([("log", "notes"), ("view", "notes"), ("log", "notes")] : List (Text × Text)) := by
  intro s t
  have hcalms : ∀ u ∈ turns s [.setField "notes" (.list [.text "brave"])],
      ∀ d ∈ u.deliveries, d.outcome = .ok () := calm_of_all (by decide +kernel)
  have hcalm : ∀ d ∈ t.deliveries, d.outcome = .ok () :=
    hcalms t (List.mem_singleton.mpr rfl)
  have hvalue : (Value.list [.text "brave"] : Value Double).IsComparable := nofun
  refine (run_atomic (c := .setField "notes" (.list [.text "brave"])) (s := s) rfl ?_ hcalm).2 ?_
  · rintro name value h
    cases h
    exact hvalue
  · decide +kernel

end Guided

end CharacterBuild
