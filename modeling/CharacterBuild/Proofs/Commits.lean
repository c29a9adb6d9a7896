import CharacterBuild.Proofs.Moves
import CharacterBuild.Proofs.TakingBack
import Mathlib.Logic.Relation

set_option autoImplicit false

/-! # What a call puts in place

`Guided.Call.Effect` forgets how a call came to the state that it leads to: what the rules said, and
which plan was made. Where that matters, `Guided.Call.Commits` has it all: the change that the
request of a call makes, with everything that was asked and resolved before. A call leaves the state
as it is, or puts such a change in place that passes the check, or takes forced items one after
another (`Guided.Call.reaches`). So what the single changes keep is kept by any number of calls,
whatever listeners do (`Guided.holds_after`).
-/

namespace CharacterBuild

variable {ν : Type} [Number ν]

namespace Session

variable {κ : Type} {run : κ → Action ν κ (Answer ν)} {s : Session ν κ}

/-- A request of an idle session leaves the session as it is or puts the state of its plan in
place. -/
theorem request_puts (hrun : ∀ c, (run c).LeavesBuild)
    (plan : Session ν κ → Build ν → Traced ν (Plan ν)) (hidle : s.announcing = false) :
    (request run plan s).session = s ∨
    ∃ change reason changed, (plan s s.state).outcome = .ok (.commit change reason) ∧
      s.Passes change.state ∧ s.Replaced change.state changed (request run plan s).session := by
  rcases request_carried hrun plan hidle with ⟨_, _, hs, _⟩ | ⟨p, hp, hc⟩
  · exact Or.inl hs
  · cases hc with
    | kept hs _ _ | barred hs _ _ _ => exact Or.inl hs
    | made hpass hs _ | broken hpass hs _ _ => exact Or.inr ⟨_, _, _, hp, hpass, hs⟩

end Session

/-! ## Forced items -/

/-- One of some forced items is selected, in the group of its choice. -/
structure Build.TakesForced (index : Index ν) (config : Config) (source : SourceId)
    (forced : List (Text × Text)) (s s' : Build ν) : Prop where
  taken : ∃ item choice change reason, (item.id, choice) ∈ forced ∧
    index.item? item.id = some item ∧ s.isSelected item.id = false ∧
    (Plan.select index s item source (.text choice)
      (Session.forcedPayload config item)).outcome = .ok (.commit change reason) ∧
    s' = change.state
  passes : config.checksState = true → s'.violations index = .ok []

namespace Guided

variable {α β : Type} {s : Session ν (Call ν)} {c : Call ν}

/-! ## Calls of one request -/

/-- **The change that the request of a call makes**, with what was resolved and asked before. -/
inductive Call.Commits (s : Session ν (Call ν)) : Call ν → Change ν → Prop where
  | select {mention : ItemMention ν} {item : Item ν} {source : SourceMention} {key : SourceId}
      {group payload : Value ν} {change : Change ν} {reason : Option (Reason ν)}
      (hitem : (mention.resolve s.index).outcome = .ok (.ok item))
      (hkey : (source.resolve s.index).outcome = .ok key)
      (hadmits : (admits s item key group).outcome = .ok .enabled)
      (hplan : (Plan.select s.index s.state item key group payload).outcome
        = .ok (.commit change reason)) :
      Commits s (.select mention source group payload) change
  | deselect {item : Text} {source : SourceMention} {key : SourceId} {change : Change ν}
      {reason : Option (Reason ν)} (hkey : (source.resolve s.index).outcome = .ok key)
      (hplan : Plan.deselect s.state item key = .commit change reason) :
      Commits s (.deselect item source) change
  | update {item : Text} {source : SourceMention} {key : SourceId} {changes : Value ν}
      {change : Change ν} {reason : Option (Reason ν)}
      (hkey : (source.resolve s.index).outcome = .ok key)
      (hadmits : (admitsUpdate s item key changes).outcome = .ok .enabled)
      (hplan : Plan.update s.index s.state item key changes = .ok (.commit change reason)) :
      Commits s (.update item source changes) change
  | replaceOptions {item : Text} {source : SourceMention} {key : SourceId} {options : Value ν}
      {change : Change ν} {reason : Option (Reason ν)}
      (hkey : (source.resolve s.index).outcome = .ok key)
      (hplan : (Plan.replaceOptions s.index s.state item key options).outcome
        = .ok (.commit change reason)) :
      Commits s (.replaceOptions item source options) change
  | takeOption {item option : Text} {source : SourceMention} {key : SourceId} {change : Change ν}
      {reason : Option (Reason ν)} (hkey : (source.resolve s.index).outcome = .ok key)
      (hplan : Plan.takeOption s.index s.state item key option = .commit change reason) :
      Commits s (.takeOption item source option) change
  | dropOption {item option : Text} {source : SourceMention} {key : SourceId} {change : Change ν}
      {reason : Option (Reason ν)} (hkey : (source.resolve s.index).outcome = .ok key)
      (hplan : Plan.dropOption s.state item key option = .commit change reason) :
      Commits s (.dropOption item source option) change
  | setField {name : Text} {value : Value ν} {change : Change ν} {reason : Option (Reason ν)}
      (hplan : (Plan.setField s.index s.config s.state name value).outcome
        = .ok (.commit change reason)) :
      Commits s (.setField name value) change
  | setLevel {value : Value ν} {change : Change ν} {reason : Option (Reason ν)}
      (hplan : (Plan.setField s.index s.config s.state fieldNames.targetLevel value).outcome
        = .ok (.commit change reason)) :
      Commits s (.setLevel value) change
  | restore {selections : List (SavedSelection ν)} {rest : Restored ν} {saved : List (Selection ν)}
      {level : Level ν} {change : Change ν} {reason : Option (Reason ν)}
      (hchanged : s.changed = false)
      (hsaved : (SavedSelection.resolveAll s.index.catalog selections).outcome = .ok saved)
      (hlevel : Plan.restoredLevel s.config rest.level = .ok level)
      (hplan : (Plan.restore s.state level saved rest).outcome = .ok (.commit change reason)) :
      Commits s (.restore selections rest) change

/-- **The states that a call may lead to** from a session. -/
inductive Call.Reaches (s : Session ν (Call ν)) : Call ν → Build ν → Prop where
  /-- The state stays. -/
  | kept (c : Call ν) : Reaches s c s.state
  /-- A change is put in place. -/
  | put {c : Call ν} {change : Change ν} (h : c.Commits s change) (hpass : s.Passes change.state) :
      Reaches s c change.state
  /-- Forced items are taken, one after another. -/
  | forced {source : SourceMention} {key : SourceId} {state : Build ν}
      (hkey : (source.resolve s.index).outcome = .ok key)
      (h : Relation.ReflTransGen (Build.TakesForced s.index s.config key
        (Session.forcedChoices s.index s.state key.name)) s.state state) :
      Reaches s (.selectAllForced source) state

/-! ### Actions that lead there -/

/-- An action that leads from a session to a state that a call may lead to. -/
def Call.Arrives (c : Call ν) (s : Session ν (Call ν)) (x : Action ν (Call ν) α) : Prop :=
  c.Reaches s (x s).session.state

namespace Call.Arrives

/-- An action that leaves the state alone. -/
theorem of_state_eq {x : Action ν (Call ν) α} (h : (x s).session.state = s.state) :
    c.Arrives s x := by
  unfold Arrives
  rw [h]
  exact .kept c

theorem map {x : Action ν (Call ν) α} (f : α → β) (h : c.Arrives s x) : c.Arrives s (f <$> x) := by
  unfold Arrives
  rw [Action.map_apply]
  exact h

theorem lift_bind {x : Traced ν α} {f : α → Action ν (Call ν) β}
    (hf : ∀ a, x.outcome = .ok a → c.Arrives s (f a)) : c.Arrives s (Action.lift x >>= f) := by
  unfold Arrives
  cases ho : x.outcome with
  | ok a =>
      rw [Action.lift_bind_of_ok ho]
      exact hf a ho
  | error fault =>
      rw [Action.lift_bind_of_error ho]
      exact .kept c

theorem ask_bind {question : Session ν (Call ν) → Traced ν α} {f : α → Action ν (Call ν) β}
    (hf : ∀ a, (question s).outcome = .ok a → c.Arrives s (f a)) :
    c.Arrives s (ask question >>= f) := by
  unfold Arrives ask
  rw [bind_assoc, Action.session_bind]
  exact lift_bind hf

/-- A request whose plan makes a change of the call. -/
theorem request (hidle : s.announcing = false)
    {plan : Session ν (Call ν) → Build ν → Traced ν (Plan ν)}
    (hcommits : ∀ change reason, (plan s s.state).outcome = .ok (.commit change reason) →
      c.Commits s change) : c.Arrives s (Session.request runInside plan) := by
  unfold Arrives
  rcases Session.request_puts runInside_leavesBuild plan hidle with h | ⟨_, _, _, hplan, hpass, h⟩
  · rw [h]
    exact .kept c
  · rw [h.state]
    exact .put (hcommits _ _ hplan) hpass

/-- Afterwards nothing is done that touches the state. -/
theorem bind_pure {x : Action ν (Call ν) α} {b : α → β} (h : c.Arrives s x) :
    c.Arrives s (x >>= fun a => Pure.pure (b a)) := by
  rw [← map_eq_pure_bind]
  exact h.map b

end Call.Arrives

/-! ### The requests -/

theorem arrives_select (hidle : s.announcing = false) {mention : ItemMention ν}
    {source : SourceMention} {group payload : Value ν} :
    (Call.select mention source group payload).Arrives s
      (Guided.select Call.runInside mention source group payload) := by
  refine .ask_bind fun found hfound => ?_
  cases found with
  | error reason => exact .of_state_eq rfl
  | ok item =>
      refine .ask_bind fun key hkey => .ask_bind fun verdict hverdict => ?_
      cases verdict with
      | disabled reason => exact .of_state_eq rfl
      | enabled =>
          exact .request hidle fun _ _ hplan => .select hfound hkey hverdict hplan

theorem arrives_update (hidle : s.announcing = false) {item : Text} {source : SourceMention}
    {changes : Value ν} :
    (Call.update item source changes).Arrives s
      (Guided.update Call.runInside item source changes) := by
  refine .lift_bind fun _ _ => .ask_bind fun key hkey => .ask_bind fun verdict hverdict => ?_
  cases verdict with
  | disabled reason => exact .of_state_eq rfl
  | enabled =>
      exact .lift_bind fun _ _ => .request hidle fun _ _ hplan => .update hkey hverdict hplan

theorem arrives_restore (hidle : s.announcing = false) {selections : List (SavedSelection ν)}
    {rest : Restored ν} :
    (Call.restore selections rest).Arrives s (Guided.restore Call.runInside selections rest) := by
  refine .ask_bind fun saved hsaved => ?_
  show Call.Reaches s _ (Session.restore Call.runInside saved rest s).session.state
  unfold Session.restore
  rw [Action.session_bind]
  split
  · exact .kept _
  · rename_i hchanged
    refine Call.Arrives.lift_bind fun level hlevel => .bind_pure (.request hidle ?_)
    exact fun _ _ hplan => .restore (by simpa using hchanged) hsaved hlevel hplan

/-! ### Taking forced items -/

/-- An idle session on the catalog of another one, in a state that was reached by taking some forced
items. -/
structure TookForced (s : Session ν (Call ν)) (source : SourceId) (forced : List (Text × Text))
    (s' : Session ν (Call ν)) : Prop where
  index : s'.index = s.index
  config : s'.config = s.config
  idle : s'.announcing = false
  taken : Relation.ReflTransGen (Build.TakesForced s.index s.config source forced) s.state s'.state

variable {source : SourceId} {forced : List (Text × Text)} {s' : Session ν (Call ν)}

/-- Selecting one forced item leads on. -/
theorem TookForced.select (h : TookForced s source forced s') {one : Text × Text}
    (hone : one ∈ forced) :
    TookForced s source forced (Session.selectForced Call.runInside source one s').session := by
  unfold Session.selectForced
  rw [Action.session_bind]
  cases hitem : s'.index.item? one.1 with
  | none => exact h
  | some item =>
      dsimp only
      have hid : item.id = one.1 := s'.index.id_of_item? hitem
      split
      · exact h
      · rename_i hselected
        rw [← map_eq_pure_bind, Action.map_apply]
        dsimp only
        unfold Session.select
        rcases Session.request_puts Call.runInside_leavesBuild
            (fun s state => Plan.select s.index state item source (.text one.2)
              (Session.forcedPayload s'.config item)) h.idle with
          hsame | ⟨change, reason, _, hplan, hpass, hs⟩
        · rw [hsame]
          exact h
        · refine ⟨hs.index.trans h.index, hs.config.trans h.config, hs.idle, h.taken.tail ?_⟩
          rw [hs.state]
          refine ⟨⟨item, one.2, change, reason, by rw [hid]; exact hone, ?_, ?_, ?_, rfl⟩, ?_⟩
          · rw [← h.index, hid]
            exact hitem
          · rw [hid]
            simpa using hselected
          · rw [← h.index, ← h.config]
            exact hplan
          · rw [← h.index, ← h.config]
            exact hpass

theorem TookForced.mapM (h : TookForced s source forced s') {list : List (Text × Text)}
    (hlist : ∀ one ∈ list, one ∈ forced) :
    TookForced s source forced
      (list.mapM (Session.selectForced Call.runInside source) s').session := by
  induction list generalizing s' with
  | nil => exact h
  | cons one rest ih =>
      rw [List.mapM_cons]
      have hone := h.select (hlist one (by simp))
      cases ho : (Session.selectForced Call.runInside source one s').outcome with
      | error fault =>
          rw [Action.bind_of_error ho]
          exact hone
      | ok ids =>
          rw [Action.bind_of_ok ho]
          dsimp only
          rw [← map_eq_pure_bind, Action.map_apply]
          exact ih hone fun other hother => hlist other (by simp [hother])

theorem arrives_selectAllForced (hidle : s.announcing = false) {mention : SourceMention} :
    (Call.selectAllForced mention).Arrives s
      (withKey mention (Session.selectAllForced Call.runInside)) := by
  refine .ask_bind fun key hkey => ?_
  show Call.Reaches s _ (Session.selectAllForced Call.runInside key s).session.state
  unfold Session.selectAllForced
  rw [Action.session_bind, ← map_eq_pure_bind, Action.map_apply]
  have hstart : TookForced s key (Session.forcedChoices s.index s.state key.name) s :=
    ⟨rfl, rfl, hidle, .refl⟩
  exact .forced hkey (hstart.mapM fun _ h => h).taken

/-! ### All calls -/

/-- **A call of an idle session** leads to one of the states that it may lead to. -/
theorem Call.reaches (hidle : s.announcing = false) (c : Call ν) :
    c.Reaches s (c.run s).session.state := by
  show c.Arrives s c.run
  cases c with
  | select item source group payload => exact .map _ (arrives_select hidle)
  | deselect item source =>
      refine .map _ (.ask_bind fun key hkey => .request hidle fun _ _ hplan => ?_)
      exact .deselect hkey (Except.ok.inj hplan)
  | update item source changes => exact .map _ (arrives_update hidle)
  | replaceOptions item source options =>
      exact .map _ (.ask_bind fun key hkey => .request hidle fun _ _ hplan =>
        .replaceOptions hkey hplan)
  | takeOption item source option =>
      refine .map _ (.ask_bind fun key hkey => .request hidle fun _ _ hplan => ?_)
      exact .takeOption hkey (Except.ok.inj hplan)
  | dropOption item source option =>
      refine .map _ (.ask_bind fun key hkey => .request hidle fun _ _ hplan => ?_)
      exact .dropOption hkey (Except.ok.inj hplan)
  | setField name value =>
      exact .map _ (.lift_bind fun _ _ => .request hidle fun _ _ hplan => .setField hplan)
  | setLevel level =>
      exact .map _ (.lift_bind fun _ _ => .request hidle fun _ _ hplan => .setLevel hplan)
  | selectAllForced source => exact .map _ (arrives_selectAllForced hidle)
  | restore selections rest => exact .map _ (arrives_restore hidle)
  | judge item source group => exact .map _ (.of_state_eq rfl)
  | judgeQuantity item source group => exact .map _ (.of_state_eq rfl)
  | judgeOption item source option => exact .map _ (.of_state_eq rfl)
  | balance unlock => exact .map _ (.of_state_eq rfl)
  | balanceOf unlock => exact .map _ (.of_state_eq rfl)
  | openPages => exact .map _ (.of_state_eq rfl)
  | isDone page => exact .map _ (.of_state_eq rfl)
  | pageText page => exact .map _ (.of_state_eq rfl)
  | allIssues => exact .map _ (.of_state_eq rfl)
  | report => exact .map _ (.of_state_eq rfl)
  | assemble => exact .map _ (.of_state_eq rfl)
  | finalize => exact .map _ (.of_state_eq rfl)
  | config => exact .map _ (.of_state_eq rfl)
  | sourceId source => exact .map _ (.of_state_eq rfl)
  | contents => exact .map _ (.of_state_eq rfl)
  | selected => exact .map _ (.of_state_eq rfl)
  | subscribe listener steps => exact .map _ (.of_state_eq rfl)
  | unsubscribe listener => exact .map _ (.of_state_eq rfl)
  | faulty fault => exact .of_state_eq rfl

/-! ## What is kept -/

/-- A property that is kept by what calls put in place. -/
structure KeptByCommits (index : Index ν) (config : Config)
    (allowed : Session ν (Call ν) → Call ν → Prop) (P : Build ν → Prop) : Prop where
  commits : ∀ {s : Session ν (Call ν)} {c : Call ν} {change : Change ν},
    (statesWith index config P).Meets s → allowed s c → c.Commits s change →
    s.Passes change.state → (c.run s).session.state = change.state → P change.state
  forced : ∀ {source : SourceId} {forced : List (Text × Text)} {state state' : Build ν},
    P state → Build.TakesForced index config source forced state state' → P state'

variable {index : Index ν} {config : Config} {allowed : Session ν (Call ν) → Call ν → Prop}
  {P : Build ν → Prop}

/-- What is kept at each step holds after taking any number of forced items. -/
theorem KeptByCommits.takesForced (hP : KeptByCommits index config allowed P) {source : SourceId}
    {forced : List (Text × Text)} {state state' : Build ν} (hstate : P state)
    (h : Relation.ReflTransGen (Build.TakesForced index config source forced) state state') :
    P state' := by
  induction h with
  | refl => exact hstate
  | tail _ hstep ih => exact hP.forced ih hstep

/-- One call keeps such a property. -/
theorem KeptByCommits.run (hP : KeptByCommits index config allowed P)
    (h : (statesWith index config P).Meets s) (hc : allowed s c) :
    (statesWith index config P).Meets (c.run s).session := by
  have hmeets := idle_after_of_idle h.idle [c]
  refine ⟨hmeets.index.trans h.index, hmeets.config.trans h.config, hmeets.idle, ?_⟩
  have hreaches := c.reaches h.idle
  show P (c.run s).session.state
  generalize hstate : (c.run s).session.state = state at hreaches
  cases hreaches with
  | kept => exact h.holds
  | put hcommits hpass => exact hP.commits h hc hcommits hpass hstate
  | forced hkey htaken =>
      rw [h.index, h.config] at htaken
      exact hP.takesForced h.holds htaken

/-- **What every change keeps that calls put in place holds after any number of calls**, whatever
listeners do. -/
theorem holds_after (hP : KeptByCommits index config allowed P)
    (h : (statesWith index config P).Meets s) {calls : List (Call ν)}
    (hcalls : ∀ c ∈ calls, ∀ s, allowed s c) : (statesWith index config P).Meets (after s calls) := by
  induction calls generalizing s with
  | nil => exact h
  | cons c rest ih =>
      exact ih (hP.run h (hcalls c (by simp) s)) fun c' hc' => hcalls c' (by simp [hc'])

end Guided

end CharacterBuild
