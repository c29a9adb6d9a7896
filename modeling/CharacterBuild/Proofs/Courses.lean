import CharacterBuild.Proofs.Atomicity

set_option autoImplicit false

/-! # The course of a call

A call puts states in place one after another, most calls one at most. `Guided.Call.Course` lists
them: each is an effect of the call, each is announced to the listeners that are registered at the
time (`Session.Announced`), and the first fault that a listener lets out ends the call, with the
state that was announced in place. Beside that a call touches nothing but registrations.

That every call takes such a course, in whatever session it is made, is an induction over its
parts, of which only requests are to be looked at (`Guided.Call.Part.course`).
-/

namespace CharacterBuild

variable {ν : Type} [Number ν]

namespace Guided

/-! ## Sessions at their start -/

/-- A session at its start, on a new build or on a given state. -/
inductive Starts : Session ν (Call ν) → Prop where
  | newBuild {catalog : Catalog ν} {config : Config} {s : Session ν (Call ν)}
      (h : (newBuild catalog config).outcome = .ok s) : Starts s
  | ofState {state : Build ν} {catalog : Catalog ν} {config : Config} {s : Session ν (Call ν)}
      (h : (ofState state catalog config).outcome = .ok s) : Starts s

/-- A session on a given state starts with it, and the state is free of violations. -/
theorem of_ofState {state : Build ν} {catalog : Catalog ν} {config : Config}
    {s : Session ν (Call ν)} (h : (ofState state catalog config).outcome = .ok s) :
    s = { index := { catalog := catalog }, config := config, state := state } ∧
      state.violations s.index = .ok [] := by
  unfold Guided.ofState at h
  obtain ⟨fresh, hfresh, h⟩ := Traced.outcome_bind_eq_ok.mp h
  obtain rfl := Except.ok.inj hfresh
  obtain ⟨problems, hproblems, h⟩ := Traced.outcome_bind_eq_ok.mp h
  split at h
  · rename_i hnone
    obtain rfl := Except.ok.inj h
    rw [List.isEmpty_iff.mp hnone] at hproblems
    exact ⟨rfl, hproblems⟩
  · cases h

/-- At its start a session is idle, and no request has changed its build. -/
theorem Starts.idle_unchanged {s : Session ν (Call ν)} (hs : Starts s) :
    s.announcing = false ∧ s.changed = false := by
  cases hs with
  | newBuild h =>
      obtain rfl := Except.ok.inj h
      exact ⟨rfl, rfl⟩
  | ofState h =>
      obtain ⟨rfl, _⟩ := of_ofState h
      exact ⟨rfl, rfl⟩

/-- A session on a state that is free of violations can start. -/
theorem Starts.of_violations {state : Build ν} {catalog : Catalog ν} {config : Config}
    (h : state.violations { catalog := catalog } = .ok []) :
    Starts { index := { catalog := catalog }, config := config, state := state } := by
  refine .ofState (show (Guided.ofState state catalog config).outcome = .ok _ from ?_)
  unfold Guided.ofState
  rw [Traced.outcome_bind_of_ok rfl, Traced.outcome_bind_of_ok h]
  rfl

/-- Whatever is called, no announcement is left unfinished. -/
theorem Starts.idle_after {s : Session ν (Call ν)} (hs : Starts s) (calls : List (Call ν)) :
    (after s calls).announcing = false :=
  (idle_after_of_idle hs.idle_unchanged.1 calls).idle

namespace Call

/-! ## The states that a call puts in place -/

/-- **The course of a call** from one session to another: the states it puts in place with the
news of each, up to a fault that a listener lets out. -/
inductive Course (c : Call ν) : Session ν (Call ν) → List (Delivery ν) →
    Except (Fault ν) Unit → Session ν (Call ν) → Prop where
  | done {s : Session ν (Call ν)} : Course c s [] (.ok ()) s
  | register {s s' s'' : Session ν (Call ν)} {ds : List (Delivery ν)}
      {outcome : Except (Fault ν) Unit} (hsame : s.SameBuild s')
      (hrest : Course c s' ds outcome s'') : Course c s ds outcome s''
  | change {s s' s'' : Session ν (Call ν)} {field : Text} {state : Build ν}
      {ds ds' : List (Delivery ν)} {outcome : Except (Fault ν) Unit}
      (heffect : c.Effect s.index s.config s.changed s.state state)
      (hnews : s.Announced runInside field state ds (.ok ()) s')
      (hrest : Course c s' ds' outcome s'') : Course c s (ds ++ ds') outcome s''
  | broken {s s' : Session ν (Call ν)} {field : Text} {state : Build ν}
      {ds : List (Delivery ν)} {fault : Fault ν}
      (heffect : c.Effect s.index s.config s.changed s.state state)
      (hnews : s.Announced runInside field state ds (.error fault) s') :
      Course c s ds (.error fault) s'

namespace Course

variable {c : Call ν} {s s' s'' : Session ν (Call ν)} {ds ds' : List (Delivery ν)}
  {outcome : Except (Fault ν) Unit}

/-- A course that no listener breaks off is continued by another one. -/
theorem trans (h : Course c s ds (.ok ()) s') (h' : Course c s' ds' outcome s'') :
    Course c s (ds ++ ds') outcome s'' := by
  generalize hok : (Except.ok () : Except (Fault ν) Unit) = first at h
  induction h with
  | done => exact h'
  | register hsame hrest ih => exact .register hsame (ih h' hok)
  | change heffect hnews hrest ih =>
      rw [List.append_assoc]
      exact .change heffect hnews (ih h' hok)
  | broken heffect hnews => cases hok

/-- However a course ends, no announcement is left unfinished. -/
theorem idle (h : Course c s ds outcome s') (hidle : s.announcing = false) :
    s'.announcing = false := by
  induction h with
  | done => exact hidle
  | register hsame hrest ih => exact ih (hsame.announcing.trans hidle)
  | change heffect hnews hrest ih => exact ih hnews.replaced.idle
  | broken heffect hnews => exact hnews.replaced.idle

end Course

/-- **Every part of a call takes a course**, and a fault that a listener lets out is its fault. -/
theorem Part.course {c : Call ν} {α : Type} {s : Session ν (Call ν)} {x : Action ν (Call ν) α}
    (h : c.Part runInside s x) (hidle : s.announcing = false) :
    ∃ outcome, c.Course s (x s).deliveries outcome (x s).session ∧
      ∀ fault, outcome = .error fault → (x s).outcome = .error fault := by
  induction h with
  | pure a => exact ⟨.ok (), .done, nofun⟩
  | lift h => exact ⟨.ok (), .done, nofun⟩
  | fail h => exact ⟨.ok (), .done, nofun⟩
  | register hsame hchecks => exact ⟨.ok (), .register hsame .done, nofun⟩
  | read hchecks h ih =>
      rw [Action.session_bind]
      exact ih hidle
  | @bind α β s x f hx hf ihx ihf =>
      obtain ⟨first, hcourse, hfirst⟩ := ihx hidle
      cases ho : (x s).outcome with
      | ok a =>
          rw [Action.bind_of_ok ho]
          obtain ⟨outcome, hrest, hraised⟩ := ihf a ho (hcourse.idle hidle)
          cases first with
          | ok u => exact ⟨outcome, hcourse.trans hrest, hraised⟩
          | error fault =>
              -- a part that a listener breaks off does not end in a value
              rw [hfirst fault rfl] at ho
              cases ho
      | error fault =>
          rw [Action.bind_of_error ho]
          refine ⟨first, hcourse, fun fault' h => ?_⟩
          rw [Except.error.inj (ho.symm.trans (hfirst fault' h))]
  | @request s plan hchecks hplan hmakes =>
      cases Session.request_handled runInside_leavesBuild runInside_quiet plan s with
      | failed hs hd _ =>
          rw [hs, hd]
          exact ⟨.ok (), .done, nofun⟩
      | kept _ hs hd _ =>
          rw [hs, hd]
          exact ⟨.ok (), .done, nofun⟩
      | @announced change reason outcome hp hnews ho =>
          have heffect := hmakes _ hp
          refine ⟨outcome, ?_, fun fault hfault => by rw [ho, hfault]; rfl⟩
          cases outcome with
          | ok u =>
              rw [← List.append_nil (Session.request runInside plan s).deliveries]
              exact .change heffect hnews .done
          | error fault => exact .broken heffect hnews

/-! ## Restoring a build -/

/-- **How restoring a build turns out**: it is refused and touches nothing, or, if no change was
counted before, it puts the restored state in place and tells of it. -/
inductive Restores (s : Session ν (Call ν)) (t : Turn ν (Call ν) (Answer ν)) : Prop where
  | refused {fault : Fault ν} (hs : t.session = s) (ho : t.outcome = .error fault)
  | announced {saved : List (Selection ν)} {level : Level ν} {change : Change ν}
      {outcome : Except (Fault ν) Unit} (hchanged : s.changed = false)
      (hstate : s.state.Restoration s.config (· ∈ saved) level change.state)
      (hnews : s.Announced runInside change.field change.state t.deliveries outcome t.session)
      (ho : t.outcome = outcome.map fun _ => .nothing)

/-- A restoration is a request, but for the guard and the level it is made for. -/
theorem restores (selections : List (SavedSelection ν)) (rest : Restored ν)
    (s : Session ν (Call ν)) : Restores s ((restore selections rest).run s) := by
  have hrun : (restore selections rest).run s
      = ((fun _ => Answer.nothing) <$> Guided.restore runInside selections rest) s := rfl
  rw [hrun, Action.map_apply]
  unfold Guided.restore
  cases hsaved : (SavedSelection.resolveAll s.index.catalog selections).outcome with
  | error fault =>
      rw [ask_bind_of_error hsaved]
      exact .refused rfl rfl
  | ok saved =>
      rw [ask_bind_of_ok hsaved]
      unfold Session.restore
      rw [Action.session_bind]
      by_cases hchanged : s.changed = true
      · rw [if_pos hchanged]
        exact .refused rfl rfl
      · rw [if_neg hchanged]
        cases hlevel : Plan.restoredLevel s.config rest.level with
        | error fault =>
            rw [Action.lift_bind_of_error rfl]
            exact .refused rfl rfl
        | ok level =>
            rw [Action.lift_bind_of_ok (a := level) rfl, ← map_eq_pure_bind, Action.map_apply]
            cases Session.request_handled runInside_leavesBuild runInside_quiet
                (fun _ state => Plan.restore state level saved rest) s with
            | failed hs _ ho => exact .refused hs (by rw [ho]; rfl)
            | kept hp _ _ _ =>
                -- a restoration never keeps the build as it is
                obtain ⟨_, _, heq, _⟩ := Plan.restore_makes hlevel hp
                cases heq
            | @announced change reason outcome hp hnews ho =>
                obtain ⟨_, _, heq, hstate⟩ := Plan.restore_makes hlevel hp
                obtain ⟨rfl, rfl⟩ := Plan.commit.inj heq
                refine .announced (by simpa using hchanged) hstate hnews ?_
                rw [ho]
                cases outcome <;> rfl

end Call

/-! ## What listeners find -/

/-- **Every listener finds the one state that was put in place.** Whatever was called before, a
call puts states in place one after another, each an effect of the call. Whoever is registered is
told of each, finds it, has its own calls answered in it, and can neither change it nor tell
others; and it stays in place, with no announcement unfinished, even if a listener lets out a
fault, which then is the fault of the call. -/
theorem run_announces {s : Session ν (Call ν)} (hs : Starts s) (calls : List (Call ν))
    (c : Call ν) :
    let before := after s calls
    let t := c.run before
    (∃ outcome, c.Course before t.deliveries outcome t.session ∧
      ∀ fault, outcome = .error fault → t.outcome = .error fault) ∧
    before.announcing = false ∧ t.session.announcing = false := by
  intro before t
  have hidle := hs.idle_after calls
  obtain ⟨outcome, hcourse, hraised⟩ :=
    (Call.part Call.runInside_leavesBuild c before).course hidle
  exact ⟨⟨outcome, hcourse, hraised⟩, hidle, hcourse.idle hidle⟩

/-- A listener tries in vain to set a level of its own, and asks what is selected; the next one
lets out a fault. Both find the level that was set, and it stays. -/
theorem run_announces_sharedGroups :
    let before := after (sharedStart {})
      [.subscribe "meddler" [⟨.setLevel (.whole 3), true⟩, ⟨.selected, false⟩],
        .subscribe "breaker" [⟨.faulty .notAnObject, false⟩], .subscribe "last" []]
    let t := (Call.setLevel (.whole 6)).run before
    ((∃ outcome, (Call.setLevel (.whole 6)).Course before t.deliveries outcome t.session ∧
        ∀ fault, outcome = .error fault → t.outcome = .error fault) ∧
      before.announcing = false ∧ t.session.announcing = false) ∧
    (t.deliveries.map fun d => (d.listener, d.state.targetLevel.same (.whole 6),
        d.answers.map fun answer => answer.toBool))
      = ([("meddler", true, [false, true]), ("breaker", true, [false])] :
        List (Text × Bool × List Bool)) ∧
    t.session.state.targetLevel.same (.whole 6) = true ∧ t.outcome.toBool = false := by
  intro before t
  refine ⟨run_announces (.newBuild (newBuild_sharedGroups {})) _ _, ?_⟩
  decide +kernel

end Guided

end CharacterBuild
