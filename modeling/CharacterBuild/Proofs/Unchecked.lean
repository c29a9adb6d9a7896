import CharacterBuild.Proofs.Checking

set_option autoImplicit false

/-! # Sessions with and without the check

A guided session on a new build never runs into the check of its states: they stay sound, so there
are no violations to be found (`Guided.violations_after`). Hence it does not matter whether
the check is made. The second half of this file shows this by running each call twice, in a session
and in the same session with the check switched on or off (`Session.withChecks`): the two turns
lead to the same session, but for the check, and have the same outcome (`Action.BlindAt`).
Listeners may tell the two apart only by asking for the configuration.
-/

namespace CharacterBuild

variable {ν κ α β : Type} [Number ν]

/-! ## Blind actions -/

/-- An action that does the same whether states are checked or not. -/
structure Action.BlindAt (b : Bool) (s : Session ν κ) (x : Action ν κ α) : Prop where
  session : (x (s.withChecks b)).session = (x s).session.withChecks b
  outcome : (x (s.withChecks b)).outcome = (x s).outcome

namespace Action.BlindAt

variable {b : Bool} {s : Session ν κ}

theorem pure (a : α) : BlindAt b s (Pure.pure a : Action ν κ α) := ⟨rfl, rfl⟩

theorem lift (x : Traced ν α) : BlindAt b s (Action.lift x : Action ν κ α) := ⟨rfl, rfl⟩

theorem fail (fault : Fault ν) : BlindAt b s (Action.fail fault : Action ν κ α) := ⟨rfl, rfl⟩

theorem bind {x : Action ν κ α} {f : α → Action ν κ β} (hx : x.BlindAt b s)
    (hf : ∀ a, (x s).outcome = .ok a → (f a).BlindAt b (x s).session) :
    (x >>= f).BlindAt b s := by
  cases ho : (x s).outcome with
  | ok a =>
      have ho' := hx.outcome.trans ho
      obtain ⟨hsession, houtcome⟩ := hf a ho
      rw [← hx.session] at hsession houtcome
      exact ⟨by rw [bind_of_ok ho, bind_of_ok ho']; exact hsession,
        by rw [bind_of_ok ho, bind_of_ok ho']; exact houtcome⟩
  | error fault =>
      have ho' := hx.outcome.trans ho
      exact ⟨by rw [bind_of_error ho, bind_of_error ho']; exact hx.session,
        by rw [bind_of_error ho, bind_of_error ho']⟩

/-- Going on with the session as it stands, if its check does not matter. -/
theorem read {f : Session ν κ → Action ν κ α} (hsame : f (s.withChecks b) = f s)
    (hf : (f s).BlindAt b s) : (Action.session >>= f).BlindAt b s := by
  refine ⟨?_, ?_⟩
  · rw [session_bind, session_bind, hsame]
    exact hf.session
  · rw [session_bind, session_bind, hsame]
    exact hf.outcome

end Action.BlindAt

/-- An action that leads to the same session and to the same fault, if to one, whether states are
checked or not; its value may show the difference. -/
structure Action.NearlyBlindAt (b : Bool) (s : Session ν κ) (x : Action ν κ α) : Prop where
  session : (x (s.withChecks b)).session = (x s).session.withChecks b
  ends : (x (s.withChecks b)).outcome.map (fun _ => ()) = (x s).outcome.map fun _ => ()

theorem Action.BlindAt.nearly {b : Bool} {s : Session ν κ} {x : Action ν κ α}
    (h : x.BlindAt b s) : x.NearlyBlindAt b s :=
  ⟨h.session, by rw [h.outcome]⟩

/-! ## Telling listeners -/

namespace Session

variable {b : Bool} {run : κ → Action ν κ (Answer ν)}

theorem request_blindAt_of_announcing {s : Session ν κ} (h : s.announcing = true)
    (plan : Session ν κ → Build ν → Traced ν (Plan ν)) : (request run plan).BlindAt b s := by
  have h' : (s.withChecks b).announcing = true := h
  exact ⟨by rw [request_busy h, request_busy h'], by rw [request_busy h, request_busy h']⟩

/-- A reaction leads to the same session and ends in the same way; its answers may differ. -/
theorem react_withChecks (hrun : ∀ c, (run c).LeavesBuild)
    (hblind : ∀ c s, s.announcing = true → (run c).NearlyBlindAt b s) (steps : List (Step κ)) :
    ∀ s : Session ν κ, s.announcing = true →
      (react run steps (s.withChecks b)).session = (react run steps s).session.withChecks b ∧
      (react run steps (s.withChecks b)).outcome.map Prod.snd
        = (react run steps s).outcome.map Prod.snd := by
  induction steps with
  | nil => exact fun s _ => ⟨rfl, rfl⟩
  | cons step rest ih =>
      intro s hs
      obtain ⟨hsession, hends⟩ := hblind step.call s hs
      have hnext : (run step.call s).session.announcing = true :=
        (hrun step.call s hs).announcing.trans hs
      obtain ⟨ihsession, ihends⟩ := ih _ hnext
      rw [← hsession] at ihsession ihends
      -- what follows a step that is answered or tolerated is the same by induction
      have hgo : ∀ answer answer' : Except (Fault ν) (Answer ν),
          ((react run rest (run step.call (s.withChecks b)).session).outcome.map
            fun r => (answer' :: r.1, r.2)).map Prod.snd
          = ((react run rest (run step.call s).session).outcome.map
            fun r => (answer :: r.1, r.2)).map Prod.snd := by
        intro answer answer'
        obtain ⟨r, hr⟩ := react_outcome run rest (run step.call s).session
        obtain ⟨r', hr'⟩ := react_outcome run rest (run step.call (s.withChecks b)).session
        rw [hr, hr'] at ihends ⊢
        exact ihends
      cases ho : (run step.call s).outcome with
      | ok a =>
          rw [ho] at hends
          obtain ⟨a', ho', _⟩ := except_map_eq_ok.mp hends
          rw [react_cons (Or.inr ⟨a, ho⟩), react_cons (Or.inr ⟨a', ho'⟩)]
          exact ⟨ihsession, hgo _ _⟩
      | error fault =>
          have ho' : (run step.call (s.withChecks b)).outcome = .error fault := by
            rw [ho] at hends
            cases h : (run step.call (s.withChecks b)).outcome with
            | ok a => rw [h] at hends; cases hends
            | error fault' => rw [h] at hends; cases hends; rfl
          by_cases htolerant : step.tolerant = true
          · rw [react_cons (Or.inl htolerant), react_cons (Or.inl htolerant)]
            exact ⟨ihsession, hgo _ _⟩
          · have hstep : step.tolerant = false := by simpa using htolerant
            rw [react_cons_of_error ho hstep, react_cons_of_error ho' hstep]
            exact ⟨hsession, rfl⟩

theorem tell_blindAt (hrun : ∀ c, (run c).LeavesBuild)
    (hblind : ∀ c s, s.announcing = true → (run c).NearlyBlindAt b s) (field : Text)
    (listeners : List Text) :
    ∀ s : Session ν κ, s.announcing = true → (tell run field listeners).BlindAt b s := by
  induction listeners with
  | nil => exact fun s _ => .pure _
  | cons listener rest ih =>
      intro s hs
      obtain ⟨⟨answers, outcome⟩, hr⟩ := react_outcome run (s.reaction listener) s
      obtain ⟨⟨answers', outcome'⟩, hr'⟩ :=
        react_outcome run ((s.withChecks b).reaction listener) (s.withChecks b)
      obtain ⟨hsession, hends⟩ := react_withChecks hrun hblind (s.reaction listener) s hs
      have hr'' : (react run (s.reaction listener) (s.withChecks b)).outcome
          = .ok (answers', outcome') := hr'
      rw [hr, hr''] at hends
      obtain rfl : outcome' = outcome := Except.ok.inj hends
      have hnext : (react run (s.reaction listener) s).session.announcing = true :=
        (react_leavesBuild hrun _ s hs).announcing.trans hs
      obtain ⟨ihsession, ihoutcome⟩ := ih _ hnext
      rw [← hsession] at ihsession ihoutcome
      refine ⟨?_, ?_⟩
      · rw [tell_cons hr, tell_cons hr']
        cases outcome' with
        | ok u => exact ihsession
        | error fault => exact hsession
      · rw [tell_cons hr, tell_cons hr']
        cases outcome' with
        | ok u => exact ihoutcome
        | error fault => rfl

/-! ## Requests -/

theorem replace_blindAt (hrun : ∀ c, (run c).LeavesBuild)
    (hblind : ∀ c s, s.announcing = true → (run c).NearlyBlindAt b s) (field : Text)
    (state : Build ν) {s : Session ν κ} (hidle : s.announcing = false) :
    (replace run field state).BlindAt b s := by
  refine .read rfl ?_
  rw [if_neg (by simp [hidle])]
  -- both sessions tell the same listeners in the same order
  let during : Session ν κ := { s with state := state, announcing := true }
  have htell : (tell run field s.registrations).BlindAt b during :=
    tell_blindAt hrun hblind field s.registrations during rfl
  have hmodify : ∀ (f : Session ν κ → Session ν κ) (s' : Session ν κ),
      f (s'.withChecks b) = (f s').withChecks b → (Action.modify f).BlindAt b s' :=
    fun f s' h => ⟨h, rfl⟩
  refine (hmodify _ s rfl).bind fun _ _ => ?_
  have hattempt : (tell run field s.registrations).attempt.BlindAt b during :=
    ⟨htell.session, by rw [Action.attempt, Action.attempt, htell.outcome]⟩
  refine hattempt.bind fun outcome _ => ?_
  exact (hmodify _ _ rfl).bind fun _ _ => ⟨rfl, rfl⟩

/-- A plan is carried out alike if the state that it makes passes the check. -/
theorem carryOut_blindAt (hrun : ∀ c, (run c).LeavesBuild)
    (hblind : ∀ c s, s.announcing = true → (run c).NearlyBlindAt b s) {s : Session ν κ}
    (hidle : s.announcing = false) {p : Plan ν}
    (hp : p.Makes fun state => state.violations s.index = .ok []) :
    (carryOut run p).BlindAt b s := by
  cases p with
  | keep reason => exact .pure _
  | commit change reason =>
      have hp : change.state.violations s.index = .ok [] := hp
      -- a check that is passed finds as much as one that is not made
      have hnone : ∀ checks : Bool,
          (if checks then change.state.violations s.index else .ok []) = .ok [] := by
        intro checks
        cases checks
        · rfl
        · exact hp
      unfold carryOut
      dsimp only
      refine .read ?_ ?_
      · have hsame := hnone (s.withChecks b).config.checksState
        have hsame' := hnone s.config.checksState
        have hindex : (s.withChecks b).index = s.index := rfl
        rw [hindex, hsame, hsame']
      · rw [hnone]
        refine (Action.BlindAt.lift _).bind fun problems _ => ?_
        split
        · exact .fail _
        · refine (replace_blindAt hrun hblind _ _ hidle).bind fun _ _ => ?_
          have hmodify : (Action.modify fun s => { s with changed := true } :
              Action ν κ Unit).BlindAt b (replace run change.field change.state s).session :=
            ⟨rfl, rfl⟩
          exact hmodify.bind fun _ _ => (Action.BlindAt.lift _).bind fun _ _ => .pure _

/-- **A request is carried out alike** if the state that its plan makes passes the check. -/
theorem request_blindAt (hrun : ∀ c, (run c).LeavesBuild)
    (hblind : ∀ c s, s.announcing = true → (run c).NearlyBlindAt b s) {s : Session ν κ}
    {plan : Session ν κ → Build ν → Traced ν (Plan ν)} (hidle : s.announcing = false)
    (hsame : plan (s.withChecks b) = plan s)
    (hp : ∀ p, (plan s s.state).outcome = .ok p →
      p.Makes fun state => state.violations s.index = .ok []) :
    (request run plan).BlindAt b s := by
  have hbegin : (begin : Action ν κ (Build ν)) s = ⟨s, [], [], .ok s.state⟩ := by
    unfold begin
    rw [Action.session_bind, if_neg (by simp [hidle])]
    rfl
  -- an idle session hands out its state, checked or not
  have hblind' : (begin : Action ν κ (Build ν)).BlindAt b s := by
    refine .read rfl ?_
    rw [if_neg (by simp [hidle])]
    exact .pure _
  unfold request
  refine hblind'.bind fun state hstate => ?_
  rw [hbegin] at hstate ⊢
  obtain rfl := Except.ok.inj hstate
  refine .read (by rw [hsame]) ?_
  refine (Action.BlindAt.lift _).bind fun p hplan => ?_
  exact carryOut_blindAt hrun hblind hidle (hp p hplan)

end Session

/-! ## Calls -/

namespace Guided

variable {b : Bool} {c : Call ν}

/-- Every part of a call is blind if its requests are; `P` is what the sessions have in common
in which the parts are run. -/
theorem Call.Part.blindAt {run : Call ν → Action ν (Call ν) (Answer ν)} (hc : c.asksConfig = false)
    {P : Session ν (Call ν) → Prop} {Q : Delivery ν → Prop}
    (hnext : ∀ {α : Type} {s : Session ν (Call ν)} {x : Action ν (Call ν) α}, c.Part run s x →
      P s → (∀ d ∈ (x s).deliveries, Q d) → P (x s).session)
    (hrequest : ∀ (s : Session ν (Call ν)) plan, P s → (∀ b, plan (s.withChecks b) = plan s) →
      (∀ p, (plan s s.state).outcome = .ok p →
        p.Makes (c.Effect s.index s.config s.changed s.state)) →
      (Session.request run plan).BlindAt b s)
    {α : Type} {s : Session ν (Call ν)} {x : Action ν (Call ν) α} (h : c.Part run s x) (hs : P s)
    (hd : ∀ d ∈ (x s).deliveries, Q d) : x.BlindAt b s := by
  induction h with
  | pure a => exact .pure a
  | lift h => exact .lift _
  | fail h => exact .fail _
  | register hsame hchecks => exact ⟨hchecks b, rfl⟩
  | read hchecks h ih =>
      rw [Action.session_bind] at hd
      rcases hchecks with hasks | hchecks
      · rw [hc] at hasks
        cases hasks
      · exact .read (hchecks b) (ih hs hd)
  | @bind α β s x f hx hf ihx ihf =>
      have hdx : ∀ d ∈ (x s).deliveries, Q d := by
        intro d hmem
        cases ho : (x s).outcome with
        | ok a =>
            rw [Action.bind_of_ok ho] at hd
            exact hd d (List.mem_append_left _ hmem)
        | error fault =>
            rw [Action.bind_of_error ho] at hd
            exact hd d hmem
      refine .bind (ihx hs hdx) fun a ho => ihf a ho (hnext hx hs hdx) fun d hmem => ?_
      rw [Action.bind_of_ok ho] at hd
      exact hd d (List.mem_append_right _ hmem)
  | @request s plan hchecks hplan hmakes => exact hrequest s plan hs hchecks hmakes

/-- While listeners are told of a change, a call of a listener does the same with and without the
check; only the configuration shows the difference. -/
theorem Call.runInside_nearlyBlindAt (c : Call ν) {s : Session ν (Call ν)}
    (hs : s.announcing = true) : c.runInside.NearlyBlindAt b s := by
  have hrun : ∀ c' : Call ν, (fun _ => pure .nothing : Call ν → Action ν (Call ν) (Answer ν)) c'
      |>.LeavesBuild := fun c' => .of_session_eq fun _ => rfl
  have hpart := Call.part hrun c s
  by_cases hc : c.asksConfig = true
  -- the configuration is answered by both, though with different answers
  · cases c with
    | config => exact ⟨rfl, rfl⟩
    | _ => cases hc
  · refine (hpart.blindAt (by simpa using hc) (P := fun s => s.announcing = true)
      (Q := fun _ => True) ?_ ?_ hs fun _ _ => trivial).nearly
    · exact fun h hs _ => (h.sameBuild hs).announcing.trans hs
    · exact fun s plan hs _ _ => Session.request_blindAt_of_announcing hs plan

/-- A call does the same with and without the check, if its states pass. -/
theorem Call.run_blindAt {C : Contract ν} (hfair : C.Fair) (hallows : C.Allows c)
    (hc : c.isRequest = true) (hpass : ∀ s, C.holds s true → s.violations C.index = .ok [])
    {s : Session ν (Call ν)} (hs : C.Meets s) (hd : ∀ d ∈ (c.run s).deliveries, C.reacts d) :
    c.run.BlindAt b s := by
  have hasks : c.asksConfig = false := by
    cases c with
    | config => cases hc
    | _ => rfl
  refine (Call.part Call.runInside_leavesBuild c s).blindAt hasks (P := C.Meets) (Q := C.reacts)
    ?_ ?_ hs hd
  · exact fun h hs hd => (h.keepsAt hfair hallows (Call.faults_of_isRequest hc) hs hd).1
  · intro s plan hs hchecks hmakes
    refine Session.request_blindAt Call.runInside_leavesBuild
      (fun c s => Call.runInside_nearlyBlindAt c) hs.idle (hchecks b) fun p hp => ?_
    rw [hs.index]
    rw [hs.index, hs.config] at hmakes
    exact (hmakes p hp).mono fun s' h => hpass s' (hallows _ _ _ hs.holds h).made

/-- What a caller sees of a turn: the state that it leads to and its outcome. -/
def seen (t : Turn ν (Call ν) (Answer ν)) : Build ν × Except (Fault ν) (Answer ν) :=
  (t.session.state, t.outcome)

/-- Calls do the same with and without the check, one after another. -/
theorem turns_withChecks {C : Contract ν} (hfair : C.Fair)
    (hpass : ∀ s, C.holds s true → s.violations C.index = .ok []) {calls : List (Call ν)}
    (hallows : ∀ c ∈ calls, C.Allows c) (hcalls : ∀ c ∈ calls, c.isRequest = true)
    {s : Session ν (Call ν)} (hs : C.Meets s)
    (hreacts : ∀ t ∈ turns s calls, ∀ d ∈ t.deliveries, C.reacts d) :
    (turns (s.withChecks b) calls).map seen = (turns s calls).map seen := by
  induction calls generalizing s with
  | nil => rfl
  | cons c rest ih =>
      have hd : ∀ d ∈ (c.run s).deliveries, C.reacts d := hreacts _ (by simp [turns])
      have hrequest : c.isRequest = true := hcalls c (by simp)
      obtain ⟨hsession, houtcome⟩ : c.run.BlindAt b s :=
        Call.run_blindAt hfair (hallows c (by simp)) hrequest hpass hs hd
      have hnext : C.Meets (c.run s).session :=
        (Call.run_keeps hfair (hallows c (by simp)) (Call.faults_of_isRequest hrequest) hs hd).1
      have hrest := ih (fun c' h => hallows c' (by simp [h])) (fun c' h => hcalls c' (by simp [h]))
        hnext fun t ht => hreacts t (by simp [turns, ht])
      simp only [turns, List.map_cons, List.cons.injEq]
      rw [hsession]
      refine ⟨?_, hrest⟩
      rw [seen, seen, hsession, houtcome]
      rfl

/-! ## Guided sessions never run into the check -/

variable {index : Index ν} {config : Config}

/-- A request that selects items by their ids from sources by their names, in groups that are
null or texts. -/
def Call.Regular : Call ν → Prop
  | .select item source group _ => (∃ id, item = .named id) ∧ (∃ name, source = .named name) ∧
      (group = .null ∨ ∃ id, group = .text id)
  | .selectAllForced source => ∃ name, source = .named name
  | c => c.isRequest = true

omit [Number ν] in
theorem Call.Regular.isRequest (h : c.Regular) : c.isRequest = true := by
  cases c with
  | select => rfl
  | selectAllForced => rfl
  | _ => exact h

omit [Number ν] in
/-- What a regular request may select is an item of the catalog, from the source that the catalog
has under its name, in a group that is null or a text. -/
theorem Call.Regular.of_puts (h : c.Regular) {item : Item ν} {x : Selection ν}
    (hputs : (c.scope index).puts item x) :
    index.item? item.id = some item ∧ x.source = index.keyOf x.source.name ∧
      (x.group = .null ∨ ∃ id, x.group = .text id) := by
  have hsource : ∀ name key, ((SourceMention.named name).resolve index).outcome = .ok key →
      x.source = key → x.source = index.keyOf x.source.name := by
    intro name key hkey hx
    rw [Index.resolve_named] at hkey
    obtain rfl := Except.ok.inj hkey
    rw [hx]
    exact congrArg index.keyOf (index.keyOf_name name).symm
  refine ⟨c.item?_of_puts ?_ hputs, ?_⟩
  · rintro mention source group payload rfl
    exact h.1
  · cases c with
    | select mention source group payload =>
        obtain ⟨_, ⟨name, rfl⟩, hgroup⟩ := h
        obtain ⟨key, _, hkey, _, hx, hkept⟩ := hputs
        refine ⟨hsource name key hkey hx, ?_⟩
        rcases hkept with hkept | ⟨_, hkept⟩
        · rw [hkept]
          exact hgroup
        · exact Or.inr hkept
    | selectAllForced source =>
        obtain ⟨name, rfl⟩ := h
        obtain ⟨key, _, group, hkey, _, _, hx, hkept⟩ := hputs
        refine ⟨hsource name key hkey hx, ?_⟩
        rcases hkept with hkept | ⟨_, hkept⟩
        · exact Or.inr ⟨group, hkept⟩
        · exact Or.inr hkept
    | _ => exact hputs.elim

/-- The contract of sessions whose listeners let out no fault: the state is sound, and no request
blames it for a violation. -/
def soundContract (index : Index ν) (config : Config) : Contract ν where
  index := index
  config := config
  reacts := fun d => d.outcome = .ok ()
  holds := Build.Sound index
  faults := fun fault => ∀ problems, fault ≠ .violated problems

theorem soundContract_fair : (soundContract index config).Fair where
  plain := fun _ h => h
  listener := fun d fault hcalm hraised => by
    have hcalm : d.outcome = .ok () := hcalm
    rw [hcalm] at hraised
    cases hraised
  checked := fun _ s problems hs hproblems hne => by
    have hs : s.Sound index true := hs
    have hnone : s.violations index = .ok problems := hproblems
    rw [hs.violations] at hnone
    exact absurd (Except.ok.inj hnone).symm hne

theorem soundContract_allows [ExactNumber ν] (hmin : 1 ≤ config.minLevel) (hc : c.Regular) :
    (soundContract index config).Allows c := by
  intro s changed s' hs heffect
  have hmade : s'.Sound index true := by
    cases heffect with
    | edit hedit => exact Build.Sound.edit hs hmin (fun item x hputs => hc.of_puts hputs) hedit
    | restore hchanged _ _ hr =>
        subst hchanged
        exact Build.Sound.restoration hs hmin hr
  exact .of_calm (fun _ hcalm => hcalm) hmade

/-- A new build is sound. -/
theorem soundContract_newBuild {catalog : Catalog ν} (hmin : 1 ≤ config.minLevel)
    {s : Session ν (Call ν)} (hs : (newBuild catalog config).outcome = .ok s) :
    (soundContract s.index config).Meets s := by
  obtain rfl := Except.ok.inj hs
  refine ⟨rfl, rfl, rfl, ⟨?_, List.nodup_nil, nofun, fun _ _ _ _ _ _ => ?_, fun _ => rfl⟩⟩
  · show ¬ (config.minLevel : Level ν) < ((1 : Int) : Level ν)
    rw [Level.whole_lt_whole]
    omega
  · exact Nat.zero_le _

/-- **A guided session never runs into the check of its states.** After every call the state is
free of violations, and no call blames it for one; so with the check switched on or off the same
calls lead to the same states and have the same outcomes. -/
theorem violations_after [ExactNumber ν] {catalog : Catalog ν} {config : Config}
    (hmin : 1 ≤ config.minLevel) {s : Session ν (Call ν)}
    (hs : (newBuild catalog config).outcome = .ok s) {calls : List (Call ν)}
    (hcalls : ∀ c ∈ calls, c.Regular)
    (hcalm : ∀ t ∈ turns s calls, ∀ d ∈ t.deliveries, d.outcome = .ok ()) :
    (∀ t ∈ turns s calls, t.session.state.violations s.index = .ok [] ∧
      ∀ problems, t.outcome ≠ .error (.violated problems)) ∧
    ∀ b s', (newBuild catalog { config with checksState := b }).outcome = .ok s' →
      (turns s' calls).map seen = (turns s calls).map seen := by
  have hmeets := soundContract_newBuild hmin hs
  have hallows : ∀ c ∈ calls, (soundContract s.index config).Allows c :=
    fun c hc => soundContract_allows hmin (hcalls c hc)
  have hrequests : ∀ c ∈ calls, c.isRequest = true := fun c hc => (hcalls c hc).isRequest
  constructor
  · intro t ht
    obtain ⟨hafter, hfaults⟩ := (turns_keep soundContract_fair hallows
      (fun c hc => Call.faults_of_isRequest (hrequests c hc)) hmeets hcalm).2 t ht
    exact ⟨hafter.holds.violations, fun problems hfault => hfaults _ hfault problems rfl⟩
  · intro b s' hs'
    obtain rfl : s' = s.withChecks b := by
      obtain rfl := Except.ok.inj hs
      exact (Except.ok.inj hs').symm
    exact turns_withChecks soundContract_fair (fun s h => Build.Sound.violations h) hallows
      hrequests hmeets hcalm

theorem violations_after_sharedGroups :
    let s := sharedStart { checksState := false }
    (∀ t ∈ turns s sharedCalls, t.session.state.violations s.index = .ok []) ∧
      (turns (sharedStart {}) sharedCalls).map seen = (turns s sharedCalls).map seen := by
  intro s
  have hcalls : ∀ c ∈ sharedCalls, c.Regular := by
    simp [sharedCalls, Call.Regular, Call.isRequest]
  have hcalm : ∀ t ∈ turns s sharedCalls, ∀ d ∈ t.deliveries, d.outcome = .ok () :=
    calm_of_all (by decide +kernel)
  obtain ⟨hnone, hsame⟩ := violations_after (by decide)
    (newBuild_sharedGroups { checksState := false }) hcalls hcalm
  exact ⟨fun t ht => (hnone t ht).1, hsame true _ (newBuild_sharedGroups {})⟩

end Guided

end CharacterBuild
