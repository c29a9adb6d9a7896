import CharacterBuild.Session.Announcing
import CharacterBuild.Proofs.Outcome

set_option autoImplicit false

/-! # Requests and the listeners they tell

While listeners are told of a change, nothing that they do can touch the build: every request
ends in the fault `busy` (`Session.request_busy`), and all the rest reads the build or concerns
the registrations. `Action.LeavesBuild` says so of an action and is closed under all ways of
putting actions together. With this a request can be read off from its plan alone
(`Session.request_carried`): it keeps the build, or is barred by the check, or puts the new state
in place; and then it is broken off only by a fault that some listener lets out.
-/

namespace CharacterBuild

variable {ν κ α β : Type} [Number ν]

/-! ## Turns of composed actions -/

namespace Action

theorem bind_apply (x : Action ν κ α) (f : α → Action ν κ β) (s : Session ν κ) :
    (x >>= f) s = match (x s).outcome with
      | .ok a => ⟨(f a (x s).session).session, (x s).notes ++ (f a (x s).session).notes,
          (x s).deliveries ++ (f a (x s).session).deliveries, (f a (x s).session).outcome⟩
      | .error fault => ⟨(x s).session, (x s).notes, (x s).deliveries, .error fault⟩ := rfl

theorem bind_of_ok {x : Action ν κ α} {f : α → Action ν κ β} {s : Session ν κ} {a : α}
    (h : (x s).outcome = .ok a) :
    (x >>= f) s = ⟨(f a (x s).session).session, (x s).notes ++ (f a (x s).session).notes,
      (x s).deliveries ++ (f a (x s).session).deliveries, (f a (x s).session).outcome⟩ := by
  rw [bind_apply, h]

theorem bind_of_error {x : Action ν κ α} {f : α → Action ν κ β} {s : Session ν κ}
    {fault : Fault ν} (h : (x s).outcome = .error fault) :
    (x >>= f) s = ⟨(x s).session, (x s).notes, (x s).deliveries, .error fault⟩ := by
  rw [bind_apply, h]

theorem lift_bind_of_ok {x : Traced ν α} {f : α → Action ν κ β} {s : Session ν κ} {a : α}
    (h : x.outcome = .ok a) :
    (lift x >>= f) s
      = ⟨(f a s).session, x.notes ++ (f a s).notes, (f a s).deliveries, (f a s).outcome⟩ := by
  have hx : (lift x : Action ν κ α) s = ⟨s, x.notes, [], .ok a⟩ := by rw [← h]; rfl
  rw [bind_of_ok (a := a) (by rw [hx]), hx]
  rfl

theorem lift_bind_of_error {x : Traced ν α} {f : α → Action ν κ β} {s : Session ν κ}
    {fault : Fault ν} (h : x.outcome = .error fault) :
    (lift x >>= f) s = ⟨s, x.notes, [], .error fault⟩ :=
  bind_of_error (x := lift x) h

/-- Two actions of which none ends in a fault, one after the other. -/
theorem ends_bind {x : Action ν κ α} {f : α → Action ν κ β}
    (hx : ∀ s, ∃ a, (x s).outcome = .ok a) (hf : ∀ a s, ∃ b, (f a s).outcome = .ok b) :
    ∀ s, ∃ b, ((x >>= f) s).outcome = .ok b := by
  intro s
  obtain ⟨a, ha⟩ := hx s
  obtain ⟨b, hb⟩ := hf a (x s).session
  exact ⟨b, by rw [bind_of_ok ha]; exact hb⟩

/-- Mapping the value of an action changes nothing else about its turn. -/
theorem map_apply (f : α → β) (x : Action ν κ α) (s : Session ν κ) :
    (f <$> x) s = ⟨(x s).session, (x s).notes, (x s).deliveries, (x s).outcome.map f⟩ := by
  rw [map_eq_pure_bind, bind_apply]
  cases (x s).outcome with
  | ok a => simp [pure, Action.pure, Except.map]
  | error fault => rfl

/-- Reading the session before going on. -/
@[simp] theorem session_bind (f : Session ν κ → Action ν κ α) (s : Session ν κ) :
    (session >>= f) s = f s s := by
  rw [bind_of_ok (a := s) rfl]
  simp [session]

end Action

/-! ## What leaves the build alone -/

/-- Two sessions on the same build; listeners may have come and gone. -/
structure Session.SameBuild (s s' : Session ν κ) : Prop where
  index : s'.index = s.index
  config : s'.config = s.config
  state : s'.state = s.state
  changed : s'.changed = s.changed
  announcing : s'.announcing = s.announcing

theorem Session.SameBuild.refl (s : Session ν κ) : s.SameBuild s := ⟨rfl, rfl, rfl, rfl, rfl⟩

theorem Session.SameBuild.trans {s s' s'' : Session ν κ} (h : s.SameBuild s')
    (h' : s'.SameBuild s'') : s.SameBuild s'' :=
  ⟨h'.index.trans h.index, h'.config.trans h.config, h'.state.trans h.state,
    h'.changed.trans h.changed, h'.announcing.trans h.announcing⟩

/-- An action that does not touch the build while listeners are told of a change. -/
def Action.LeavesBuild (x : Action ν κ α) : Prop :=
  ∀ s : Session ν κ, s.announcing = true → s.SameBuild (x s).session

namespace Action.LeavesBuild

theorem of_session_eq {x : Action ν κ α} (h : ∀ s, (x s).session = s) : x.LeavesBuild :=
  fun s _ => by rw [h]; exact .refl s

theorem pure (a : α) : (Pure.pure a : Action ν κ α).LeavesBuild := of_session_eq fun _ => rfl

theorem session : (Action.session : Action ν κ (Session ν κ)).LeavesBuild :=
  of_session_eq fun _ => rfl

theorem deliver (d : Delivery ν) : (Action.deliver d : Action ν κ Unit).LeavesBuild :=
  of_session_eq fun _ => rfl

theorem resume (outcome : Except (Fault ν) α) :
    (Action.resume outcome : Action ν κ α).LeavesBuild := of_session_eq fun _ => rfl

theorem attempt {x : Action ν κ α} (h : x.LeavesBuild) : x.attempt.LeavesBuild := h

theorem bind {x : Action ν κ α} {f : α → Action ν κ β} (hx : x.LeavesBuild)
    (hf : ∀ a, (f a).LeavesBuild) : (x >>= f).LeavesBuild := by
  intro s hs
  have hsame := hx s hs
  cases ho : (x s).outcome with
  | ok a =>
      rw [bind_of_ok ho]
      exact hsame.trans (hf a _ (hsame.announcing.trans hs))
  | error fault =>
      rw [bind_of_error ho]
      exact hsame

end Action.LeavesBuild

namespace Session

/-- No request is carried out while listeners are told of a change. -/
theorem request_busy {run : κ → Action ν κ (Answer ν)}
    {plan : Session ν κ → Build ν → Traced ν (Plan ν)} {s : Session ν κ}
    (h : s.announcing = true) : request run plan s = ⟨s, [], [], .error .busy⟩ := by
  have hbegin : begin s = ⟨s, [], [], .error .busy⟩ := by
    unfold begin
    rw [Action.session_bind, if_pos h]
    rfl
  unfold request
  rw [Action.bind_of_error (x := begin) (by rw [hbegin]), hbegin]

/-! ## Telling listeners -/

variable {run : κ → Action ν κ (Answer ν)}

theorem react_leavesBuild (hrun : ∀ c, (run c).LeavesBuild) (steps : List (Step κ)) :
    (react run steps).LeavesBuild := by
  induction steps with
  | nil => exact .pure _
  | cons step rest ih =>
      unfold react
      refine (hrun step.call).attempt.bind fun answer => ?_
      split
      · exact .pure _
      · exact ih.bind fun _ => .pure _

theorem tell_leavesBuild (hrun : ∀ c, (run c).LeavesBuild) (field : Text)
    (listeners : List Text) : (tell run field listeners).LeavesBuild := by
  induction listeners with
  | nil => exact .pure _
  | cons listener rest ih =>
      unfold tell
      refine Action.LeavesBuild.session.bind fun s => ?_
      refine (react_leavesBuild hrun _).bind fun reacted => ?_
      exact (Action.LeavesBuild.deliver _).bind fun _ =>
        (Action.LeavesBuild.resume _).bind fun _ => ih

/-- A fault of a step that is not tolerated ends the reaction. -/
theorem react_cons_of_error {step : Step κ} {rest : List (Step κ)} {s : Session ν κ}
    {fault : Fault ν} (h : (run step.call s).outcome = .error fault)
    (hstep : step.tolerant = false) :
    let t := run step.call s
    react run (step :: rest) s
      = ⟨t.session, t.notes, t.deliveries, .ok ([.error fault], .error fault)⟩ := by
  rw [react, Action.bind_of_ok rfl]
  simp [Action.attempt, h, hstep, pure, Action.pure]

/-- Otherwise the reaction goes on. -/
theorem react_cons {step : Step κ} {rest : List (Step κ)} {s : Session ν κ}
    (h : step.tolerant = true ∨ ∃ a, (run step.call s).outcome = .ok a) :
    let t := run step.call s
    let u := react run rest t.session
    react run (step :: rest) s = ⟨u.session, t.notes ++ u.notes, t.deliveries ++ u.deliveries,
      u.outcome.map fun r => (t.outcome :: r.1, r.2)⟩ := by
  intro t u
  have hgo : ∀ (answer : Except (Fault ν) (Answer ν)) (s' : Session ν κ),
      (react run rest >>= fun r => (pure (answer :: r.1, r.2) : Action ν κ _)) s'
        = ⟨(react run rest s').session, (react run rest s').notes, (react run rest s').deliveries,
          (react run rest s').outcome.map fun r => (answer :: r.1, r.2)⟩ := by
    intro answer s'
    rw [← map_eq_pure_bind, Action.map_apply]
  -- an attempt ends in the outcome of the call as a value, be it a fault
  have hattempt : (run step.call).attempt s = ⟨t.session, t.notes, t.deliveries, .ok t.outcome⟩ :=
    rfl
  rw [react, Action.bind_of_ok (by rw [hattempt]), hattempt]
  cases ho : t.outcome with
  | ok a => simp only [hgo, u]
  | error fault =>
      have htolerant : step.tolerant = true := by
        rcases h with h | ⟨a, h⟩
        · exact h
        · have hne : (run step.call s).outcome = .error fault := ho
          rw [hne] at h
          cases h
      rw [htolerant]
      simp only [hgo, u]

/-- A reaction keeps its faults, it never ends in one. -/
theorem react_outcome (run : κ → Action ν κ (Answer ν)) (steps : List (Step κ)) :
    ∀ s : Session ν κ, ∃ reacted, (react run steps s).outcome = .ok reacted := by
  induction steps with
  | nil => exact fun s => ⟨_, rfl⟩
  | cons step rest ih =>
      unfold react
      refine Action.ends_bind (fun s => ⟨_, rfl⟩) fun answer => ?_
      cases answer with
      | ok answer => exact Action.ends_bind ih fun _ s => ⟨_, rfl⟩
      | error fault =>
          cases step.tolerant with
          | true => exact Action.ends_bind ih fun _ s => ⟨_, rfl⟩
          | false => exact fun s => ⟨_, rfl⟩

/-- A listener is told after the other; the first fault that one lets out is the last. -/
theorem tell_cons {field listener : Text} {rest : List Text} {s : Session ν κ}
    {answers : List (Except (Fault ν) (Answer ν))} {outcome : Except (Fault ν) Unit}
    (h : (react run (s.reaction listener) s).outcome = .ok (answers, outcome)) :
    let t := react run (s.reaction listener) s
    let d : Delivery ν := ⟨listener, field, s.state, answers, outcome⟩
    tell run field (listener :: rest) s = match outcome with
      | .ok () =>
        let u := tell run field rest t.session
        ⟨u.session, t.notes ++ u.notes, t.deliveries ++ d :: u.deliveries, u.outcome⟩
      | .error fault => ⟨t.session, t.notes, t.deliveries ++ [d], .error fault⟩ := by
  intro t d
  have hdeliver : ∀ s' : Session ν κ, Action.deliver d s' = ⟨s', [], [d], .ok ()⟩ := fun _ => rfl
  -- the reaction is delivered as news, then its outcome is resumed
  rw [tell, Action.session_bind, Action.bind_of_ok h]
  dsimp only
  rw [Action.bind_of_ok (x := Action.deliver d) rfl, hdeliver]
  cases outcome with
  | error fault =>
      rw [Action.bind_of_error (x := Action.resume _) rfl]
      simp [Action.resume, t]
  | ok u =>
      rw [Action.bind_of_ok (x := Action.resume _) rfl]
      simp [Action.resume, t]

/-- A fault that ends the telling is one that some listener lets out. -/
theorem fault_of_tell {field : Text} {listeners : List Text} {s : Session ν κ} {fault : Fault ν}
    (h : (tell run field listeners s).outcome = .error fault) :
    ∃ d ∈ (tell run field listeners s).deliveries, d.outcome = .error fault := by
  induction listeners generalizing s with
  | nil => cases h
  | cons listener rest ih =>
      obtain ⟨⟨answers, outcome⟩, hr⟩ := react_outcome run (s.reaction listener) s
      rw [tell_cons hr] at h ⊢
      cases outcome with
      | error fault' =>
          obtain rfl := Except.error.inj h
          -- this listener lets out the fault, so its own news is the last
          exact ⟨_, List.mem_append_right _ (List.mem_singleton.mpr rfl), rfl⟩
      | ok u =>
          obtain ⟨d, hd, ho⟩ := ih h
          exact ⟨d, List.mem_append_right _ (List.mem_cons_of_mem _ hd), ho⟩

/-! ## Carrying out a plan -/

/-- A session after its state was replaced. -/
structure Replaced (s : Session ν κ) (state : Build ν) (changed : Bool) (s' : Session ν κ) :
    Prop where
  index : s'.index = s.index
  config : s'.config = s.config
  state : s'.state = state
  changed : s'.changed = changed
  idle : s'.announcing = false

/-- Replacing the state of an idle session is telling its listeners in a session that announces. -/
theorem replace_of_idle (field : Text) (state : Build ν) {s : Session ν κ}
    (hidle : s.announcing = false) :
    let told := tell run field s.registrations { s with state := state, announcing := true }
    replace run field state s = ⟨{ told.session with announcing := false }, told.notes,
      told.deliveries, told.outcome⟩ := by
  intro told
  unfold replace
  rw [Action.session_bind, if_neg (by simp [hidle]), Action.bind_of_ok rfl,
    Action.bind_of_ok rfl, Action.bind_of_ok rfl]
  simp [Action.modify, Action.attempt, Action.resume, told]

/-- Replacing the state of an idle session puts it in place, whatever listeners do. -/
theorem replace_replaced (hrun : ∀ c, (run c).LeavesBuild) (field : Text) (state : Build ν)
    {s : Session ν κ} (hidle : s.announcing = false) :
    let t := replace run field state s
    s.Replaced state s.changed t.session ∧
      (t.outcome = .ok () ∨ ∃ fault, t.outcome = .error fault ∧
        ∃ d ∈ t.deliveries, d.outcome = .error fault) := by
  intro t
  -- the listeners are told in a session that is announcing, which they leave as it is
  let during : Session ν κ := { s with state := state, announcing := true }
  let told := tell run field s.registrations during
  have ht : t = ⟨{ told.session with announcing := false }, told.notes, told.deliveries,
      told.outcome⟩ := replace_of_idle field state hidle
  have hsame : during.SameBuild told.session := tell_leavesBuild hrun field _ during rfl
  refine ⟨?_, ?_⟩
  · rw [ht]
    exact ⟨hsame.index, hsame.config, hsame.state, hsame.changed, rfl⟩
  · rw [ht]
    cases ho : told.outcome with
    | ok u => exact Or.inl rfl
    | error fault => exact Or.inr ⟨fault, rfl, fault_of_tell ho⟩

/-- A check that is made and fails: the new state has violations, or cannot be checked. -/
structure Barred (s : Session ν κ) (state : Build ν) (fault : Fault ν) : Prop where
  checks : s.config.checksState = true
  failed : state.violations s.index = .error fault ∨
    ∃ problems, state.violations s.index = .ok problems ∧ problems ≠ [] ∧
      fault = .violated problems

/-- A check that is passed, or not made. -/
def Passes (s : Session ν κ) (state : Build ν) : Prop :=
  s.config.checksState = true → state.violations s.index = .ok []

/-- **How a plan turns out in an idle session.** -/
inductive Carried (s : Session ν κ) (t : Turn ν κ (Result ν)) : Plan ν → Prop where
  /-- The build stays as it is. -/
  | kept {reason : Option (Reason ν)} (hs : t.session = s) (hd : t.deliveries = [])
      (ho : t.outcome = .ok ⟨false, reason⟩) : Carried s t (.keep reason)
  /-- The check does not let the new state pass. -/
  | barred {change : Change ν} {reason : Option (Reason ν)} {fault : Fault ν}
      (hs : t.session = s) (hd : t.deliveries = []) (ho : t.outcome = .error fault)
      (hbar : s.Barred change.state fault) : Carried s t (.commit change reason)
  /-- The new state is in place and all listeners are told. -/
  | made {change : Change ν} {reason : Option (Reason ν)}
      (hpass : s.Passes change.state) (hs : s.Replaced change.state true t.session)
      (ho : t.outcome = .ok ⟨true, reason⟩) : Carried s t (.commit change reason)
  /-- The new state is in place, and a listener lets out a fault. -/
  | broken {change : Change ν} {reason : Option (Reason ν)} {fault : Fault ν}
      (hpass : s.Passes change.state) (hs : s.Replaced change.state s.changed t.session)
      (ho : t.outcome = .error fault) (hd : ∃ d ∈ t.deliveries, d.outcome = .error fault) :
      Carried s t (.commit change reason)

/-- It turns out that nothing has changed exactly if that is the plan. -/
theorem Carried.kept_iff {s : Session ν κ} {t : Turn ν κ (Result ν)} {p : Plan ν}
    {reason : Option (Reason ν)} (h : s.Carried t p) :
    t.outcome = .ok ⟨false, reason⟩ ↔ p = .keep reason := by
  cases h with
  | kept _ _ ho => simp [ho]
  | barred _ _ ho _ => simp [ho]
  | made _ _ ho => simp [ho]
  | broken _ _ ho _ => simp [ho]

/-- A new state that passes the check, or is not checked, is put in place. -/
theorem carryOut_of_passes {change : Change ν} {reason : Option (Reason ν)} {s : Session ν κ}
    (hpass : s.Passes change.state) :
    let t := replace run change.field change.state s
    carryOut run (.commit change reason) s = match t.outcome with
      | .ok () => ⟨{ t.session with changed := true }, t.notes ++ [change.note], t.deliveries,
          .ok ⟨true, reason⟩⟩
      | .error fault => ⟨t.session, t.notes, t.deliveries, .error fault⟩ := by
  intro t
  have hcheck : (if s.config.checksState then change.state.violations s.index else .ok [])
      = .ok [] := by
    split
    · exact hpass ‹_›
    · rfl
  unfold carryOut
  dsimp only
  rw [Action.session_bind, hcheck, Action.lift_bind_of_ok (a := []) rfl,
    if_neg (by simp)]
  cases ho : t.outcome with
  | error fault =>
      rw [Action.bind_of_error ho]
      rfl
  | ok u =>
      rw [Action.bind_of_ok ho, Action.bind_of_ok rfl, Action.lift_bind_of_ok (a := ()) rfl]
      simp [Action.modify, Traced.note, Traced.lift, pure, Action.pure, t]

theorem carryOut_carried (hrun : ∀ c, (run c).LeavesBuild) {p : Plan ν} {s : Session ν κ}
    (hidle : s.announcing = false) : s.Carried (carryOut run p s) p := by
  cases p with
  | keep reason => exact .kept rfl rfl rfl
  | commit change reason =>
      by_cases hpass : s.Passes change.state
      · obtain ⟨hreplaced, ho⟩ := replace_replaced hrun change.field change.state hidle
        rw [carryOut_of_passes hpass]
        rcases ho with ho | ⟨fault, ho, hd⟩
        · rw [ho]
          exact .made hpass ⟨hreplaced.index, hreplaced.config, hreplaced.state, rfl,
            hreplaced.idle⟩ rfl
        · rw [ho]
          exact .broken hpass hreplaced rfl hd
      · obtain ⟨hchecks, hfailed⟩ := Classical.not_imp.mp hpass
        unfold carryOut
        dsimp only
        rw [Action.session_bind, if_pos hchecks]
        cases hcheck : change.state.violations s.index with
        | error fault =>
            rw [Action.lift_bind_of_error rfl]
            exact .barred rfl rfl rfl ⟨hchecks, Or.inl hcheck⟩
        | ok problems =>
            have hproblems : problems ≠ [] := fun hnil => hfailed (by rw [hcheck, hnil])
            rw [Action.lift_bind_of_ok (a := problems) rfl, if_pos (by simpa using hproblems)]
            exact .barred rfl rfl rfl ⟨hchecks, Or.inr ⟨problems, hcheck, hproblems, rfl⟩⟩

/-- A request of an idle session makes a plan from its state and carries it out. -/
theorem request_of_idle (plan : Session ν κ → Build ν → Traced ν (Plan ν)) {s : Session ν κ}
    (hidle : s.announcing = false) :
    request run plan s = (Action.lift (plan s s.state) >>= carryOut run) s := by
  have hbegin : begin s = ⟨s, [], [], .ok s.state⟩ := by
    unfold begin
    rw [Action.session_bind, if_neg (by simp [hidle])]
    rfl
  unfold request
  rw [Action.bind_of_ok (a := s.state) (by rw [hbegin]), hbegin]
  rw [Action.session_bind]
  simp

section

variable {plan : Session ν κ → Build ν → Traced ν (Plan ν)} {s : Session ν κ}

/-- A plan that can be made is carried out. -/
theorem carried_of_plan (hrun : ∀ c, (run c).LeavesBuild) (hidle : s.announcing = false)
    {p : Plan ν} (hplan : (plan s s.state).outcome = .ok p) : s.Carried (request run plan s) p := by
  rw [request_of_idle plan hidle, Action.lift_bind_of_ok hplan]
  cases carryOut_carried hrun (p := p) hidle with
  | kept hs hd ho => exact .kept hs hd ho
  | barred hs hd ho hbar => exact .barred hs hd ho hbar
  | made hpass hs ho => exact .made hpass hs ho
  | broken hpass hs ho hd => exact .broken hpass hs ho hd

/-- If its plan cannot be made, a request does nothing. -/
theorem faulted_of_plan (hidle : s.announcing = false) {fault : Fault ν}
    (hplan : (plan s s.state).outcome = .error fault) :
    (request run plan s).session = s ∧ (request run plan s).deliveries = [] ∧
      (request run plan s).outcome = .error fault := by
  rw [request_of_idle plan hidle, Action.lift_bind_of_error hplan]
  exact ⟨rfl, rfl, rfl⟩

/-- **A request is its plan carried out**, if the plan can be made. -/
theorem request_carried (hrun : ∀ c, (run c).LeavesBuild)
    (plan : Session ν κ → Build ν → Traced ν (Plan ν)) (hidle : s.announcing = false) :
    (∃ fault, (plan s s.state).outcome = .error fault ∧
      (request run plan s).session = s ∧ (request run plan s).deliveries = [] ∧
      (request run plan s).outcome = .error fault) ∨
    ∃ p, (plan s s.state).outcome = .ok p ∧ s.Carried (request run plan s) p := by
  cases hplan : (plan s s.state).outcome with
  | error fault => exact Or.inl ⟨fault, rfl, faulted_of_plan hidle hplan⟩
  | ok p => exact Or.inr ⟨p, rfl, carried_of_plan hrun hidle hplan⟩

/-- **A request that is answered** has made a plan, and the answer gives its reason: either the plan
was to keep the build, and nothing has changed, or the new state is in place, in a session that is
idle again. -/
theorem request_answered (hrun : ∀ c, (run c).LeavesBuild) {result : Result ν}
    (h : (request run plan s).outcome = .ok result) :
    s.announcing = false ∧
      ((plan s s.state).outcome = .ok (.keep result.reason) ∧ result.changed = false ∧
          (request run plan s).session = s ∨
        ∃ change, (plan s s.state).outcome = .ok (.commit change result.reason) ∧
          result.changed = true ∧ s.Replaced change.state true (request run plan s).session) := by
  cases hidle : s.announcing with
  | true =>
      rw [request_busy hidle] at h
      cases h
  | false =>
      refine ⟨rfl, ?_⟩
      rcases request_carried hrun plan hidle with ⟨fault, _, _, _, ho⟩ | ⟨p, hp, hc⟩
      · rw [ho] at h
        cases h
      cases hc with
      | barred _ _ ho _ | broken _ _ ho _ =>
          rw [ho] at h
          cases h
      | kept hs _ ho =>
          rw [ho] at h
          obtain rfl := Except.ok.inj h
          exact Or.inl ⟨hp, rfl, hs⟩
      | made _ hs ho =>
          rw [ho] at h
          obtain rfl := Except.ok.inj h
          exact Or.inr ⟨_, hp, rfl, hs⟩

/-- **What a request was accepted for is in place**, in a session that is idle again. -/
theorem replaced_of_accepted (hrun : ∀ c, (run c).LeavesBuild) {reason : Option (Reason ν)}
    (h : (request run plan s).outcome = .ok ⟨true, reason⟩) :
    s.announcing = false ∧ ∃ change, (plan s s.state).outcome = .ok (.commit change reason) ∧
      s.Replaced change.state true (request run plan s).session := by
  obtain ⟨hidle, ⟨_, hsame, _⟩ | ⟨change, hplan, _, hs⟩⟩ := request_answered hrun h
  · cases hsame
  · exact ⟨hidle, change, hplan, hs⟩

/-- A request that is accepted has made a plan for a new state and put that in place. -/
theorem request_accepted (hrun : ∀ c, (run c).LeavesBuild) {reason : Option (Reason ν)}
    (h : (request run plan s).outcome = .ok ⟨true, reason⟩) :
    ∃ change, (plan s s.state).outcome = .ok (.commit change reason) ∧
      (request run plan s).session.index = s.index ∧
      (request run plan s).session.state = change.state := by
  obtain ⟨_, change, hplan, hs⟩ := replaced_of_accepted hrun h
  exact ⟨change, hplan, hs.index, hs.state⟩

end

end Session

/-- An answer that can be computed to say that a change was made, without a reason. -/
theorem Turn.outcome_of_any {κ : Type} {t : Turn ν κ (Result ν)}
    (h : (t.outcome.toOption.any fun r => r.changed && r.reason.isNone) = true) :
    t.outcome = .ok ⟨true, none⟩ := by
  obtain ⟨⟨changed, reason⟩, ho, hresult⟩ := except_eq_ok_of_any h
  simp only [Bool.and_eq_true, Option.isNone_iff_eq_none] at hresult
  rw [ho, hresult.1, hresult.2]

end CharacterBuild
