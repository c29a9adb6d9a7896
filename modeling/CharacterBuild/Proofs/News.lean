import CharacterBuild.Proofs.Dispatch

set_option autoImplicit false

/-! # What listeners find

Listeners are programs of their own: told of a change, they ask and request whatever they like of
the same session. All of them find the one state that the change has put in place. `Session.Told`
says so of an announcement: listener after listener hears of the state (`Session.Hears`), each
call of a reaction is made and answered in it and leaves it as it is, nobody is told of the calls,
and a fault that a listener lets out is the end. `Session.Announced` adds what becomes of the
session: however the announcement ends, the new state stays and the session is idle again.

`Session.Handled` says how a request turns out by the plan that was made for it: it fails or keeps
the build and touches nothing, or it puts the new state of the plan in place and announces it.
-/

namespace CharacterBuild

variable {ν κ α β : Type} [Number ν]

/-! ## No news while listeners are told -/

/-- An action that delivers no news while listeners are told of a change. -/
def Action.Quiet (x : Action ν κ α) : Prop :=
  ∀ s : Session ν κ, s.announcing = true → (x s).deliveries = []

namespace Action.Quiet

theorem of_deliveries_eq {x : Action ν κ α} (h : ∀ s, (x s).deliveries = []) : x.Quiet :=
  fun s _ => h s

theorem bind {x : Action ν κ α} {f : α → Action ν κ β} (hbuild : x.LeavesBuild) (hx : x.Quiet)
    (hf : ∀ a, (f a).Quiet) : (x >>= f).Quiet := by
  intro s hs
  cases ho : (x s).outcome with
  | ok a =>
      rw [bind_of_ok ho]
      show (x s).deliveries ++ _ = []
      rw [hx s hs, hf a _ ((hbuild s hs).announcing.trans hs)]
      rfl
  | error fault =>
      rw [bind_of_error ho]
      exact hx s hs

end Action.Quiet

namespace Session

variable {run : κ → Action ν κ (Answer ν)}

theorem react_quiet (hrun : ∀ c, (run c).LeavesBuild) (hquiet : ∀ c, (run c).Quiet)
    (steps : List (Step κ)) : (react run steps).Quiet := by
  induction steps with
  | nil => exact .of_deliveries_eq fun _ => rfl
  | cons step rest ih =>
      unfold react
      refine .bind (hrun step.call).attempt (hquiet step.call) fun answer => ?_
      split
      · exact .of_deliveries_eq fun _ => rfl
      · exact .bind (react_leavesBuild hrun rest) ih fun _ => .of_deliveries_eq fun _ => rfl

/-! ## What a listener hears -/

variable {field : Text}

/-- A call that is made and answered while listeners are told: it finds the build as it is and
leaves it so, and no listener is told of it. -/
def Answers (run : κ → Action ν κ (Answer ν)) (s : Session ν κ) (c : κ)
    (answer : Except (Fault ν) (Answer ν)) : Prop :=
  ∃ s' : Session ν κ, s.SameBuild s' ∧ (run c s').outcome = answer ∧
    s'.SameBuild (run c s').session ∧ (run c s').deliveries = []

/-- **What a listener hears of a change** in a session that announces: it is told of the state
that is in place, and so are the answers to all calls of its reaction. -/
structure Hears (run : κ → Action ν κ (Answer ν)) (s : Session ν κ) (field : Text)
    (d : Delivery ν) : Prop where
  field : d.field = field
  state : d.state = s.state
  /-- The answers are those to the calls of the listener's reaction, as far as it went. -/
  reaction : ∃ s' : Session ν κ, s.SameBuild s' ∧
    (react run (s'.reaction d.listener) s').outcome = .ok (d.answers, d.outcome) ∧
    ∀ answer ∈ d.answers, ∃ step ∈ s'.reaction d.listener, s.Answers run step.call answer

/-- **Listeners are told one after another**, up to the first one that lets out a fault. -/
inductive Told (run : κ → Action ν κ (Answer ν)) (s : Session ν κ) (field : Text) :
    List Text → List (Delivery ν) → Except (Fault ν) Unit → Prop where
  | all : Told run s field [] [] (.ok ())
  | next {d : Delivery ν} {rest : List Text} {ds : List (Delivery ν)}
      {outcome : Except (Fault ν) Unit} (h : s.Hears run field d) (ho : d.outcome = .ok ())
      (hrest : Told run s field rest ds outcome) :
      Told run s field (d.listener :: rest) (d :: ds) outcome
  | broken {d : Delivery ν} {rest : List Text} {fault : Fault ν} (h : s.Hears run field d)
      (ho : d.outcome = .error fault) :
      Told run s field (d.listener :: rest) [d] (.error fault)

theorem Answers.of_sameBuild {s s' : Session ν κ} {c : κ} {answer : Except (Fault ν) (Answer ν)}
    (hsame : s.SameBuild s') (h : s'.Answers run c answer) : s.Answers run c answer := by
  obtain ⟨u, hu, h⟩ := h
  exact ⟨u, hsame.trans hu, h⟩

theorem Hears.of_sameBuild {s s' : Session ν κ} {d : Delivery ν} (hsame : s.SameBuild s')
    (h : s'.Hears run field d) : s.Hears run field d := by
  obtain ⟨u, hu, hreact, heach⟩ := h.reaction
  refine ⟨h.field, h.state.trans hsame.state, u, hsame.trans hu, hreact, fun answer ha => ?_⟩
  obtain ⟨step, hstep, hanswer⟩ := heach answer ha
  exact ⟨step, hstep, hanswer.of_sameBuild hsame⟩

theorem Told.of_sameBuild {s s' : Session ν κ} {listeners : List Text} {ds : List (Delivery ν)}
    {outcome : Except (Fault ν) Unit} (hsame : s.SameBuild s')
    (h : s'.Told run field listeners ds outcome) : s.Told run field listeners ds outcome := by
  induction h with
  | all => exact .all
  | next h ho hrest ih => exact .next (h.of_sameBuild hsame) ho ih
  | broken h ho => exact .broken (h.of_sameBuild hsame) ho

/-- If nobody lets out a fault, all are told, each once and in order. -/
theorem Told.listeners_eq {s : Session ν κ} {listeners : List Text} {ds : List (Delivery ν)}
    (h : s.Told run field listeners ds (.ok ())) :
    ds.map (fun d => (d.listener, d.field)) = listeners.map fun listener => (listener, field) := by
  generalize hok : (Except.ok () : Except (Fault ν) Unit) = outcome at h
  induction h with
  | all => rfl
  | next h ho hrest ih => rw [List.map_cons, List.map_cons, h.field, ih hok]
  | broken h ho => cases hok

/-- The fault of an announcement is one that is let out. -/
theorem Told.exists_of_error {s : Session ν κ} {listeners : List Text} {ds : List (Delivery ν)}
    {fault : Fault ν} (h : s.Told run field listeners ds (.error fault)) :
    ∃ d ∈ ds, d.outcome = .error fault := by
  generalize hfault : (Except.error fault : Except (Fault ν) Unit) = outcome at h
  induction h with
  | all => cases hfault
  | next h ho hrest ih =>
      obtain ⟨d, hd, hraised⟩ := ih hfault
      exact ⟨d, List.mem_cons_of_mem _ hd, hraised⟩
  | broken h ho =>
      obtain rfl := Except.error.inj hfault
      exact ⟨_, List.mem_singleton.mpr rfl, ho⟩

section

variable (hrun : ∀ c, (run c).LeavesBuild) (hquiet : ∀ c, (run c).Quiet)

include hrun hquiet

/-- Every answer that a listener gets is one to a call of its reaction. -/
theorem answers_of_react {steps : List (Step κ)} {s : Session ν κ} (hs : s.announcing = true)
    {answers : List (Except (Fault ν) (Answer ν))} {outcome : Except (Fault ν) Unit}
    (h : (react run steps s).outcome = .ok (answers, outcome)) :
    ∀ answer ∈ answers, ∃ step ∈ steps, s.Answers run step.call answer := by
  induction steps generalizing s answers with
  | nil =>
      cases h
      exact fun answer ha => nomatch ha
  | cons step rest ih =>
      have hsame := hrun step.call s hs
      have hfirst : s.Answers run step.call (run step.call s).outcome :=
        ⟨s, .refl s, rfl, hsame, hquiet step.call s hs⟩
      by_cases hgo : step.tolerant = true ∨ ∃ a, (run step.call s).outcome = .ok a
      · rw [react_cons hgo] at h
        obtain ⟨⟨answers', outcome'⟩, hrest, heq⟩ := except_map_eq_ok.mp h
        obtain ⟨rfl, rfl⟩ := Prod.mk.inj heq
        intro answer ha
        rcases List.mem_cons.mp ha with rfl | ha
        · exact ⟨step, by simp, hfirst⟩
        · -- the rest of the reaction runs on the same build
          obtain ⟨step', hstep', hanswer⟩ := ih (hsame.announcing.trans hs) hrest answer ha
          exact ⟨step', by simp [hstep'], hanswer.of_sameBuild hsame⟩
      · rw [not_or, Bool.not_eq_true] at hgo
        cases ho : (run step.call s).outcome with
        | ok a => exact absurd ⟨a, ho⟩ hgo.2
        | error fault =>
            rw [react_cons_of_error ho hgo.1] at h
            obtain ⟨rfl, rfl⟩ := Prod.mk.inj (Except.ok.inj h)
            intro answer ha
            rw [List.mem_singleton.mp ha, ← ho]
            exact ⟨step, by simp, hfirst⟩

/-- **Telling listeners is telling one after another of the same state.** -/
theorem tell_told {listeners : List Text} {s : Session ν κ} (hs : s.announcing = true) :
    let t := tell run field listeners s
    s.Told run field listeners t.deliveries t.outcome := by
  induction listeners generalizing s with
  | nil => exact .all
  | cons listener rest ih =>
      obtain ⟨⟨answers, outcome⟩, hr⟩ := react_outcome run (s.reaction listener) s
      have hhears : s.Hears run field ⟨listener, field, s.state, answers, outcome⟩ :=
        ⟨rfl, rfl, s, .refl s, hr, answers_of_react hrun hquiet hs hr⟩
      have hnone := react_quiet hrun hquiet (s.reaction listener) s hs
      rw [tell_cons hr]
      cases outcome with
      | error fault =>
          dsimp only
          rw [hnone, List.nil_append]
          exact .broken hhears rfl
      | ok u =>
          have hsame := react_leavesBuild hrun (s.reaction listener) s hs
          dsimp only
          rw [hnone, List.nil_append]
          exact .next hhears rfl ((ih (hsame.announcing.trans hs)).of_sameBuild hsame)

end

/-! ## What becomes of a session that announces -/

/-- **A new state and the news of it**: the state is put in place, those who are registered are
told of it, and however that ends, the state stays and the session is idle. -/
structure Announced (run : κ → Action ν κ (Answer ν)) (s : Session ν κ) (field : Text)
    (state : Build ν) (ds : List (Delivery ν)) (outcome : Except (Fault ν) Unit)
    (s' : Session ν κ) : Prop where
  passes : s.Passes state
  told : { s with state := state, announcing := true }.Told run field s.registrations ds outcome
  /-- The change counts unless a listener lets out a fault. -/
  replaced : s.Replaced state (outcome.isOk || s.changed) s'

/-- **How a request turns out** by the plan that was made for it: it fails or keeps the build as
it is, and then touches nothing, or it puts the new state of the plan in place and tells of it. -/
inductive Handled (run : κ → Action ν κ (Answer ν)) (s : Session ν κ)
    (plan : Except (Fault ν) (Plan ν)) (t : Turn ν κ (Result ν)) : Prop where
  | failed {fault : Fault ν} (hs : t.session = s) (hd : t.deliveries = [])
      (ho : t.outcome = .error fault)
  | kept {reason : Option (Reason ν)} (hplan : plan = .ok (.keep reason)) (hs : t.session = s)
      (hd : t.deliveries = []) (ho : t.outcome = .ok ⟨false, reason⟩)
  | announced {change : Change ν} {reason : Option (Reason ν)} {outcome : Except (Fault ν) Unit}
      (hplan : plan = .ok (.commit change reason))
      (hnews : s.Announced run change.field change.state t.deliveries outcome t.session)
      (ho : t.outcome = outcome.map fun _ => ⟨true, reason⟩)

section

variable (hrun : ∀ c, (run c).LeavesBuild) (hquiet : ∀ c, (run c).Quiet)

include hrun hquiet

/-- A state that passes the check is put in place, and whoever is registered is told of it. -/
theorem carryOut_told {change : Change ν} (reason : Option (Reason ν)) {s : Session ν κ}
    (hidle : s.announcing = false) (hpass : s.Passes change.state) :
    let t := carryOut run (.commit change reason) s
    ∃ outcome, { s with state := change.state, announcing := true }.Told run change.field
      s.registrations t.deliveries outcome ∧ t.outcome = outcome.map fun _ => ⟨true, reason⟩ := by
  intro t
  have ht : t = carryOut run (.commit change reason) s := rfl
  have htell : { s with state := change.state, announcing := true }.Told run change.field
      s.registrations (replace run change.field change.state s).deliveries
      (replace run change.field change.state s).outcome := by
    rw [replace_of_idle change.field change.state hidle]
    exact tell_told hrun hquiet rfl
  rw [carryOut_of_passes hpass] at ht
  rw [ht]
  dsimp only
  cases ho : (replace run change.field change.state s).outcome with
  | ok u =>
      rw [ho] at htell
      exact ⟨.ok (), htell, rfl⟩
  | error fault =>
      rw [ho] at htell
      exact ⟨.error fault, htell, rfl⟩

theorem carryOut_handled (p : Plan ν) {s : Session ν κ} (hidle : s.announcing = false) :
    s.Handled run (.ok p) (carryOut run p s) := by
  cases carryOut_carried hrun hidle (p := p) with
  | kept hs hd ho => exact .kept rfl hs hd ho
  | barred hs hd ho _ => exact .failed hs hd ho
  | @made change reason hpass hs ho =>
      obtain ⟨outcome, htold, houtcome⟩ := carryOut_told hrun hquiet reason hidle hpass
      cases outcome with
      | ok u => exact .announced rfl ⟨hpass, htold, hs⟩ houtcome
      | error fault =>
          rw [ho] at houtcome
          cases houtcome
  | @broken change reason fault hpass hs ho hd =>
      obtain ⟨outcome, htold, houtcome⟩ := carryOut_told hrun hquiet reason hidle hpass
      cases outcome with
      | ok u =>
          rw [ho] at houtcome
          cases houtcome
      | error fault' => exact .announced rfl ⟨hpass, htold, hs⟩ houtcome

theorem request_handled (plan : Session ν κ → Build ν → Traced ν (Plan ν)) (s : Session ν κ) :
    s.Handled run (plan s s.state).outcome (request run plan s) := by
  cases hidle : s.announcing with
  | true =>
      rw [request_busy hidle]
      exact .failed rfl rfl rfl
  | false =>
      rw [request_of_idle plan hidle]
      cases hp : (plan s s.state).outcome with
      | error fault =>
          rw [Action.lift_bind_of_error hp]
          exact .failed rfl rfl rfl
      | ok p =>
          rw [Action.lift_bind_of_ok hp]
          cases carryOut_handled hrun hquiet p hidle with
          | failed hs hd ho => exact .failed hs hd ho
          | kept hplan hs hd ho => exact .kept hplan hs hd ho
          | announced hplan hnews ho => exact .announced hplan hnews ho

end

end Session

end CharacterBuild
