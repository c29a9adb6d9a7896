import CharacterBuild.Number.Double
import CharacterBuild.Proofs.Contracts
import CharacterBuild.Proofs.Levels
import CharacterBuild.Session.GuidedCall

set_option autoImplicit false

/-! # Calls of guided sessions

What a call may do to the state of a build is an edit within the scope of the call, or else, if
the build has not been changed before, the restoration that the call asks for
(`Guided.Call.Effect`). `Guided.Call.Part` lists what the action of a call is made of: reading
the session, computing, and requests with such an effect. That every call is made of nothing else
is shown once (`Guided.Call.part`); what holds of all calls is then an induction over the parts.

A contract that allows the effects of a call is kept by the call (`Guided.Call.run_keeps`), and
one that allows those of all calls is kept by any number of them, one after another
(`Guided.turns_keep`). So an invariant of guided sessions is shown by going through the effects,
of which there are few, and never through the calls.

At the end stands a small catalog whose sources share the id of a group, for runs that can be
evaluated.
-/

namespace CharacterBuild

variable {ν : Type} [Number ν]

/-- The session with the check of its states switched on or off. -/
def Session.withChecks {κ : Type} (s : Session ν κ) (b : Bool) : Session ν κ :=
  { s with config := { s.config with checksState := b } }

namespace Guided

/-! ## Questions -/

section

variable {κ α β : Type}

theorem ask_bind_of_ok {question : Session ν κ → Traced ν α} {f : α → Action ν κ β}
    {s : Session ν κ} {a : α} (h : (question s).outcome = .ok a) :
    (ask question >>= f) s = ⟨(f a s).session, (question s).notes ++ (f a s).notes,
      (f a s).deliveries, (f a s).outcome⟩ := by
  unfold ask
  rw [bind_assoc, Action.session_bind, Action.lift_bind_of_ok h]

theorem ask_bind_of_error {question : Session ν κ → Traced ν α} {f : α → Action ν κ β}
    {s : Session ν κ} {fault : Fault ν} (h : (question s).outcome = .error fault) :
    (ask question >>= f) s = ⟨s, (question s).notes, [], .error fault⟩ := by
  unfold ask
  rw [bind_assoc, Action.session_bind, Action.lift_bind_of_error h]

theorem noViolation_admits (s : Session ν κ) (item : Item ν) (key : SourceId)
    (group : Value ν) : NoViolation (admits s item key group).outcome := by
  unfold admits
  split
  · exact .ok _
  · exact Rules.noViolation_judge _ _ _ _ _

theorem noViolation_admitsUpdate (s : Session ν κ) (item : Text) (key : SourceId)
    (changes : Value ν) : NoViolation (admitsUpdate s item key changes).outcome := by
  refine .traced_bind (Value.noViolation_has _ _) fun given => ?_
  split
  · split
    · refine .traced_bind ?_ fun asked => ?_
      · exact (Value.noViolation_member _ _).bind fun v => Value.noViolation_toWhole v
      · split
        · exact Rules.noViolation_judgeQuantity _ _ _ _ _
        · exact .ok _
    · exact .ok _
  · exact .ok _

omit [Number ν] in
theorem noViolation_changesOf (changes : Value ν) : NoViolation (changesOf changes) := by
  unfold changesOf
  split
  · split
    · exact .error nofun
    · exact .ok _
  · exact .error nofun

end

/-! ## What a call may do -/

namespace Call

/-- What a call may bring into a build. -/
def scope (index : Index ν) : Call ν → Scope ν
  | select item source group _ => {
      puts := fun i x => ∃ key, (item.resolve index).outcome = .ok (.ok i) ∧
        (source.resolve index).outcome = .ok key ∧ (Plan.selectScope i key group).puts i x }
  | selectAllForced source => {
      puts := fun i x => ∃ key id group, (source.resolve index).outcome = .ok key ∧
        index.item? id = some i ∧ (Plan.selectScope i key (.text group)).puts i x }
  | setField name value => { aims := fun n => name = fieldNames.targetLevel ∧ value = .whole n }
  | setLevel value => { aims := fun n => value = .whole n }
  | _ => {}

omit [Number ν] in
/-- What a call may select is in the catalog, if items are selected by their ids. -/
theorem item?_of_puts {index : Index ν} {c : Call ν} {i : Item ν} {x : Selection ν}
    (hnamed : ∀ item source group payload, c = .select item source group payload →
      ∃ id, item = .named id)
    (h : (c.scope index).puts i x) : index.item? i.id = some i := by
  cases c with
  | select item source group payload =>
      obtain ⟨id, rfl⟩ := hnamed _ _ _ _ rfl
      obtain ⟨_, hitem, _, _⟩ := h
      exact index.item?_id (index.item?_of_resolve_named hitem)
  | selectAllForced source =>
      obtain ⟨_, _, _, _, hitem, _⟩ := h
      exact index.item?_id hitem
  | _ => exact h.elim

/-- Whether a call asks for a change of the build or of the listeners. -/
def isRequest : Call ν → Bool
  | select .. | deselect .. | update .. | replaceOptions .. | takeOption .. | dropOption ..
  | setField .. | setLevel .. | selectAllForced .. | restore .. | subscribe ..
  | unsubscribe .. => true
  | _ => false

/-- Whether a call asks for the configuration. -/
def asksConfig : Call ν → Bool
  | config => true
  | _ => false

/-- **What a call may do to the state of a build**: edit it, or restore it if it has not been
changed before. -/
inductive Effect (index : Index ν) (config : Config) (changed : Bool) (s : Build ν) :
    Call ν → Build ν → Prop where
  | edit {c : Call ν} {s' : Build ν} (h : s.Edit index config (c.scope index) s') :
      Effect index config changed s c s'
  | restore {selections : List (SavedSelection ν)} {rest : Restored ν}
      {saved : List (Selection ν)} {level : Level ν} {s' : Build ν} (hchanged : changed = false)
      (hsaved : (SavedSelection.resolveAll index.catalog selections).outcome = .ok saved)
      (hlevel : Level.ofValue? rest.level = some level)
      (h : s.Restoration config (· ∈ saved) level s') :
      Effect index config changed s (.restore selections rest) s'

/-- **What the action of a call is made of**, if listeners run their calls by `run`. The only
thing that depends on whether states are checked is the answer to a call that asks for the
configuration; and only a question may blame a state for a violation. -/
inductive Part (run : Call ν → Action ν (Call ν) (Answer ν)) (c : Call ν) :
    {α : Type} → Session ν (Call ν) → Action ν (Call ν) α → Prop where
  | pure {α : Type} {s : Session ν (Call ν)} (a : α) : Part run c s (Pure.pure a)
  | lift {α : Type} {s : Session ν (Call ν)} {x : Traced ν α}
      (h : c.isRequest = false ∨ NoViolation x.outcome) : Part run c s (Action.lift x)
  | fail {α : Type} {s : Session ν (Call ν)} {fault : Fault ν}
      (h : c.isRequest = false ∨ ∀ problems, fault ≠ .violated problems) :
      Part run c s (Action.fail fault : Action ν (Call ν) α)
  | register {s : Session ν (Call ν)} {f : Session ν (Call ν) → Session ν (Call ν)}
      (hsame : s.SameBuild (f s)) (hchecks : ∀ b, f (s.withChecks b) = (f s).withChecks b) :
      Part run c s (Action.modify f)
  | read {α : Type} {s : Session ν (Call ν)} {f : Session ν (Call ν) → Action ν (Call ν) α}
      (hchecks : c.asksConfig = true ∨ ∀ b, f (s.withChecks b) = f s)
      (h : Part run c s (f s)) : Part run c s (Action.session >>= f)
  | bind {α β : Type} {s : Session ν (Call ν)} {x : Action ν (Call ν) α}
      {f : α → Action ν (Call ν) β} (hx : Part run c s x)
      (hf : ∀ a, (x s).outcome = .ok a → Part run c (x s).session (f a)) :
      Part run c s (x >>= f)
  | request {s : Session ν (Call ν)}
      {plan : Session ν (Call ν) → Build ν → Traced ν (Plan ν)}
      (hchecks : ∀ b, plan (s.withChecks b) = plan s)
      (hplan : NoViolation (plan s s.state).outcome)
      (hmakes : ∀ p, (plan s s.state).outcome = .ok p →
        p.Makes (Effect s.index s.config s.changed s.state c)) :
      Part run c s (Session.request run plan)

namespace Part

variable {run : Call ν → Action ν (Call ν) (Answer ν)} {c : Call ν} {s : Session ν (Call ν)}
  {α β : Type}

theorem map {x : Action ν (Call ν) α} (f : α → β) (h : Part run c s x) :
    Part run c s (f <$> x) := by
  rw [map_eq_pure_bind]
  exact .bind h fun a _ => .pure (f a)

theorem ask {question : Session ν (Call ν) → Traced ν α}
    (hchecks : c.asksConfig = true ∨ ∀ b, question (s.withChecks b) = question s)
    (h : c.isRequest = false ∨ NoViolation (question s).outcome) :
    Part run c s (Guided.ask question) :=
  .read (hchecks.imp_right fun hsame b => by rw [hsame b]) (.lift h)

/-- No part of a call leaves the catalog. -/
theorem index_eq (hrun : ∀ c, (run c).LeavesBuild) {x : Action ν (Call ν) α}
    (h : Part run c s x) : (x s).session.index = s.index := by
  induction h with
  | pure a => rfl
  | lift h => rfl
  | fail h => rfl
  | register hsame hchecks => exact hsame.index
  | read hchecks h ih =>
      rw [Action.session_bind]
      exact ih
  | @bind α β s x f hx hf ihx ihf =>
      cases ho : (x s).outcome with
      | ok a =>
          rw [Action.bind_of_ok ho]
          exact (ihf a ho).trans ihx
      | error fault =>
          rw [Action.bind_of_error ho]
          exact ihx
  | @request s plan hchecks hplan hmakes =>
      cases hidle : s.announcing with
      | true => rw [Session.request_busy hidle]
      | false =>
          rcases Session.request_carried hrun plan hidle with
            ⟨fault, _, hsame, _, _⟩ | ⟨p, _, hc⟩
          · rw [hsame]
          · cases hc with
            | kept hsame _ _ => rw [hsame]
            | barred hsame _ _ _ => rw [hsame]
            | made _ hr _ => exact hr.index
            | broken _ hr _ _ => exact hr.index

theorem mapM (hrun : ∀ c, (run c).LeavesBuild) {f : α → Action ν (Call ν) β} {l : List α}
    (hf : ∀ a ∈ l, ∀ s' : Session ν (Call ν), s'.index = s.index → Part run c s' (f a)) :
    Part run c s (l.mapM f) := by
  induction l generalizing s with
  | nil => exact .pure _
  | cons a rest ih =>
      rw [List.mapM_cons]
      have ha := hf a (by simp) s rfl
      refine .bind ha fun _ _ => .bind (ih fun b hb s' hs' => ?_) fun _ _ => .pure _
      exact hf b (by simp [hb]) s' (hs'.trans (ha.index_eq hrun))

/-- While listeners are told of a change, no part of a call touches the build. -/
theorem sameBuild {x : Action ν (Call ν) α} (h : Part run c s x) (hs : s.announcing = true) :
    s.SameBuild (x s).session := by
  induction h with
  | pure a => exact .refl _
  | lift h => exact .refl _
  | fail h => exact .refl _
  | register hsame hchecks => exact hsame
  | read hchecks h ih =>
      rw [Action.session_bind]
      exact ih hs
  | @bind α β s x f hx hf ihx ihf =>
      have hsame := ihx hs
      cases ho : (x s).outcome with
      | ok a =>
          rw [Action.bind_of_ok ho]
          exact hsame.trans (ihf a ho (hsame.announcing.trans hs))
      | error fault =>
          rw [Action.bind_of_error ho]
          exact hsame
  | request hchecks hplan hmakes =>
      rw [Session.request_busy hs]
      exact .refl _

end Part

/-! ## The parts of each call -/

section

variable {run : Call ν → Action ν (Call ν) (Answer ν)} {c : Call ν} {s : Session ν (Call ν)}
  {α : Type}

/-- A question and what follows it, in the same session. -/
theorem part_ask_bind {β : Type} {question : Session ν (Call ν) → Traced ν α}
    {f : α → Action ν (Call ν) β} (hchecks : ∀ b, question (s.withChecks b) = question s)
    (h : NoViolation (question s).outcome)
    (hf : ∀ a, (question s).outcome = .ok a → Part run c s (f a)) :
    Part run c s (ask question >>= f) := by
  unfold ask
  rw [bind_assoc]
  exact .read (.inr fun b => by rw [hchecks b]) (.bind (.lift (.inr h)) hf)

theorem part_withKey {source : SourceMention} {request : SourceId → Action ν (Call ν) α}
    (h : ∀ key, (source.resolve s.index).outcome = .ok key → Part run c s (request key)) :
    Part run c s (withKey source request) :=
  part_ask_bind (fun _ => rfl) (source.noViolation_resolve s.index) h

/-- A computation that blames no state, and what follows it. -/
theorem part_lift_bind {β : Type} {x : Except (Fault ν) α} {f : α → Action ν (Call ν) β}
    (h : NoViolation x) (hf : ∀ a, x = .ok a → Part run c s (f a)) :
    Part run c s (Action.lift (Traced.lift x) >>= f) :=
  .bind (.lift (.inr h)) hf

/-- A request that edits the build within the scope of a call. -/
theorem part_request {scope : Scope ν} (hw : scope.Within (c.scope s.index))
    {plan : Session ν (Call ν) → Build ν → Traced ν (Plan ν)}
    (hchecks : ∀ b, plan (s.withChecks b) = plan s)
    (hplan : NoViolation (plan s s.state).outcome)
    (hmakes : ∀ p, (plan s s.state).outcome = .ok p →
      p.Makes (s.state.Edit s.index s.config scope)) :
    Part run c s (Session.request run plan) :=
  .request hchecks hplan fun p hp => (hmakes p hp).mono fun _ h => .edit (h.mono hw)

theorem part_select {item : Item ν} {key : SourceId} {group payload : Value ν}
    (hw : (Plan.selectScope item key group).Within (c.scope s.index)) :
    Part run c s (Session.select run item key group payload) :=
  part_request hw (fun _ => rfl) (Plan.noViolation_select _ _ _ _ _ _) fun _ =>
    Plan.select_makes

theorem part_setField {name : Text} {value : Value ν}
    (haims : name = fieldNames.targetLevel → ∀ n, value = .whole n → (c.scope s.index).aims n) :
    Part run c s (Session.setField run name value) := by
  refine part_lift_bind (Plan.noViolation_checkField name) fun _ _ => ?_
  exact part_request (.refl _) (fun _ => rfl) (Plan.noViolation_setField _ _ _ _ _) fun _ =>
    Plan.setField_makes haims

theorem part_guidedSelect {item : ItemMention ν} {source : SourceMention}
    {group payload : Value ν} :
    Part run (.select item source group payload) s
      (Guided.select run item source group payload) := by
  refine part_ask_bind (fun _ => rfl) (item.noViolation_resolve s.index) fun found hfound => ?_
  cases found with
  | error reason => exact .pure _
  | ok i =>
      refine part_withKey fun key hkey => ?_
      refine part_ask_bind (fun _ => rfl) (noViolation_admits s i key group) fun verdict _ => ?_
      cases verdict with
      | disabled reason => exact .bind (.lift (.inr (.ok _))) fun _ _ => .pure _
      | enabled =>
          -- what the select puts is within the scope of the call by the item and the key found here
          refine part_select ⟨fun i' x hx => ?_, fun _ h => h.elim⟩
          obtain rfl : i' = i := hx.1
          exact ⟨key, hfound, hkey, hx⟩

theorem part_guidedUpdate {item : Text} {source : SourceMention} {changes : Value ν} :
    Part run (.update item source changes) s (Guided.update run item source changes) := by
  refine part_lift_bind (noViolation_changesOf changes) fun _ _ => part_withKey fun key _ => ?_
  refine part_ask_bind (fun _ => rfl) (noViolation_admitsUpdate s item key changes)
    fun verdict _ => ?_
  cases verdict with
  | disabled reason => exact .pure _
  | enabled =>
      refine part_lift_bind (Plan.noViolation_checkChanges changes) fun _ _ => ?_
      exact part_request (.refl _) (fun _ => rfl) (Plan.noViolation_update _ _ _ _ _) fun _ =>
        Plan.update_makes

theorem part_selectAllForced (hrun : ∀ c, (run c).LeavesBuild) {source : SourceMention} :
    Part run (.selectAllForced source) s (withKey source (Session.selectAllForced run)) := by
  refine part_withKey fun key hkey => .read (.inr fun _ => rfl) ?_
  refine .bind (.mapM hrun fun forced _ s' hs' => .read (.inr fun _ => rfl) ?_) fun _ _ => .pure _
  split
  · exact .bind (.lift (.inr (.ok _))) fun _ _ => .pure _
  · rename_i item hitem
    split
    · exact .pure _
    · refine .bind (part_select ⟨fun i x hx => ?_, fun _ h => h.elim⟩) fun _ _ => .pure _
      obtain rfl : i = item := hx.1
      exact ⟨key, forced.1, forced.2, hs' ▸ hkey, hitem, hx⟩

theorem part_guidedRestore {selections : List (SavedSelection ν)} {rest : Restored ν} :
    Part run (.restore selections rest) s (Guided.restore run selections rest) := by
  refine part_ask_bind (fun _ => rfl) (SavedSelection.noViolation_resolveAll _ _)
    fun saved hsaved => .read (.inr fun _ => rfl) ?_
  split
  · exact .fail (.inr nofun)
  · rename_i hchanged
    refine part_lift_bind (Plan.noViolation_restoredLevel _ _) fun level hlevel => ?_
    refine .bind (.request (fun _ => rfl) (Plan.noViolation_restore _ _ _ _) fun p hp => ?_)
      fun _ _ => .pure _
    obtain ⟨change, reason, rfl, hmakes⟩ := Plan.restore_makes hlevel hp
    obtain ⟨hof, _, _⟩ := Plan.restoredLevel_spec hlevel
    exact .restore (by simpa using hchanged) hsaved hof hmakes

end

/-- **Every call is made of such parts.** -/
theorem part {run : Call ν → Action ν (Call ν) (Answer ν)} (hrun : ∀ c, (run c).LeavesBuild)
    (c : Call ν) (s : Session ν (Call ν)) : c.Part run s (c.runWith run) := by
  cases c with
  | select item source group payload => exact .map _ part_guidedSelect
  | deselect item source =>
      refine .map _ (part_withKey fun key _ => ?_)
      exact part_request (.refl _) (fun _ => rfl) (.ok _) fun p hp =>
        Except.ok.inj hp ▸ Plan.deselect_makes
  | update item source changes => exact .map _ part_guidedUpdate
  | replaceOptions item source options =>
      refine .map _ (part_withKey fun key _ => ?_)
      exact part_request (.refl _) (fun _ => rfl) (Plan.noViolation_replaceOptions _ _ _ _ _)
        fun p hp => Plan.replaceOptions_makes hp
  | takeOption item source option =>
      refine .map _ (part_withKey fun key _ => ?_)
      exact part_request (.refl _) (fun _ => rfl) (.ok _) fun p hp =>
        Except.ok.inj hp ▸ Plan.takeOption_makes
  | dropOption item source option =>
      refine .map _ (part_withKey fun key _ => ?_)
      exact part_request (.refl _) (fun _ => rfl) (.ok _) fun p hp =>
        Except.ok.inj hp ▸ Plan.dropOption_makes
  | setField name value => exact .map _ (part_setField fun hname n hn => ⟨hname, hn⟩)
  | setLevel level => exact .map _ (part_setField fun _ n hn => hn)
  | selectAllForced source => exact .map _ (part_selectAllForced hrun)
  | restore selections rest => exact .map _ part_guidedRestore
  | judge item source group => exact .map _ (.ask (.inr fun _ => rfl) (.inl rfl))
  | judgeQuantity item source group => exact .map _ (.ask (.inr fun _ => rfl) (.inl rfl))
  | judgeOption item source option => exact .map _ (.ask (.inr fun _ => rfl) (.inl rfl))
  | balance unlock => exact .map _ (.ask (.inr fun _ => rfl) (.inl rfl))
  | balanceOf unlock => exact .map _ (.ask (.inr fun _ => rfl) (.inl rfl))
  | openPages => exact .map _ (.ask (.inr fun _ => rfl) (.inl rfl))
  | isDone page => exact .map _ (.ask (.inr fun _ => rfl) (.inl rfl))
  | pageText page => exact .map _ (.ask (.inr fun _ => rfl) (.inl rfl))
  | allIssues => exact .map _ (.ask (.inr fun _ => rfl) (.inl rfl))
  | report => exact .map _ (.ask (.inr fun _ => rfl) (.inl rfl))
  | assemble => exact .map _ (.ask (.inr fun _ => rfl) (.inl rfl))
  | finalize => exact .map _ (.ask (.inr fun _ => rfl) (.inl rfl))
  | config => exact .map _ (.ask (.inl rfl) (.inl rfl))
  | sourceId source => exact .map _ (.ask (.inr fun _ => rfl) (.inl rfl))
  | contents =>
      rw [runWith, map_eq_pure_bind]
      exact .read (.inr fun _ => rfl) (.pure _)
  | selected => exact .map _ (.read (.inr fun _ => rfl) (.pure _))
  | subscribe listener steps =>
      exact .map _ (.register ⟨rfl, rfl, rfl, rfl, rfl⟩ fun _ => rfl)
  | unsubscribe listener =>
      exact .map _ (.register ⟨rfl, rfl, rfl, rfl, rfl⟩ fun _ => rfl)
  | faulty fault => exact .fail (.inl rfl)

/-- **No call of a listener touches the build.** -/
theorem runInside_leavesBuild (c : Call ν) : c.runInside.LeavesBuild :=
  fun s hs => (part (fun _ => .of_session_eq fun _ => rfl) c s).sameBuild hs

end Call

end Guided

/-! ## Contracts and calls -/

/-- A contract allows a call if it accepts the states that the call may lead to. -/
def Contract.Allows (C : Contract ν) (c : Guided.Call ν) : Prop :=
  ∀ s changed s', C.holds s changed → c.Effect C.index C.config changed s s' →
    C.Accepts changed s'

namespace Guided

variable {C : Contract ν}

/-- A request is no question. -/
theorem Call.faults_of_isRequest {c : Call ν} (hc : c.isRequest = true)
    (hno : c.isRequest = false) (fault : Fault ν) : C.faults fault := by
  rw [hc] at hno
  cases hno

/-- Every part of a call keeps a contract that allows the call. -/
theorem Call.Part.keepsAt (hfair : C.Fair) {c : Call ν} (hallows : C.Allows c)
    (hquestion : c.isRequest = false → ∀ fault, C.faults fault) {α : Type}
    {s : Session ν (Call ν)} {x : Action ν (Call ν) α} (h : c.Part Call.runInside s x)
    (hs : C.Meets s) : C.KeepsAt s x := by
  have hplain : ∀ fault : Fault ν,
      (c.isRequest = false ∨ ∀ problems, fault ≠ .violated problems) → C.faults fault := by
    rintro fault (hc | hfault)
    · exact hquestion hc fault
    · exact hfair.plain fault hfault
  induction h with
  | pure a => exact .pure hs a
  | lift h =>
      refine .lift hs fun fault hfault => hplain fault (h.imp_right fun hnone problems heq => ?_)
      exact hnone problems (by rw [hfault, heq])
  | fail h => exact .fail hs (hplain _ h)
  | register hsame hchecks => exact .register hs hsame
  | read hchecks h ih => exact .read (ih hs)
  | bind hx hf ihx ihf => exact .bind (ihx hs) fun a ho hs' => ihf a ho hs'
  | @request s plan hchecks hplan hmakes =>
      refine .request hfair hs Call.runInside_leavesBuild hplan fun p hp => ?_
      -- the plan makes an effect of the call, which the contract allows
      rw [hs.index, hs.config] at hmakes
      exact (hmakes p hp).mono fun s' h => hallows _ _ _ hs.holds h

/-- **A call keeps every contract that allows it.** A question may end in any fault. -/
theorem Call.run_keeps (hfair : C.Fair) {c : Call ν} (hallows : C.Allows c)
    (hquestion : c.isRequest = false → ∀ fault, C.faults fault) {s : Session ν (Call ν)}
    (hs : C.Meets s) : C.KeepsAt s c.run :=
  (Call.part Call.runInside_leavesBuild c s).keepsAt hfair hallows hquestion hs

/-! ## One call after another -/

/-- The turns of some calls, one after another. -/
def turns : Session ν (Call ν) → List (Call ν) → List (Turn ν (Call ν) (Answer ν))
  | _, [] => []
  | s, c :: rest => c.run s :: turns (c.run s).session rest

/-- The session after some calls. -/
def after (s : Session ν (Call ν)) (calls : List (Call ν)) : Session ν (Call ν) :=
  calls.foldl (fun s c => (c.run s).session) s

/-- **Calls keep every contract that allows them all**, at each turn. -/
theorem turns_keep (hfair : C.Fair) {calls : List (Call ν)} (hallows : ∀ c ∈ calls, C.Allows c)
    (hquestion : ∀ c ∈ calls, c.isRequest = false → ∀ fault, C.faults fault)
    {s : Session ν (Call ν)} (hs : C.Meets s)
    (hreacts : ∀ t ∈ turns s calls, ∀ d ∈ t.deliveries, C.reacts d) :
    C.Meets (after s calls) ∧ ∀ t ∈ turns s calls, C.Meets t.session ∧
      ∀ fault, t.outcome = .error fault → C.faults fault := by
  induction calls generalizing s with
  | nil => exact ⟨hs, fun t ht => by simp [turns] at ht⟩
  | cons c rest ih =>
      have hc := Call.run_keeps hfair (hallows c (by simp)) (hquestion c (by simp)) hs
        (hreacts _ (by simp [turns]))
      obtain ⟨hafter, hturns⟩ := ih (fun c' h => hallows c' (by simp [h]))
        (fun c' h => hquestion c' (by simp [h])) hc.1
        fun t ht => hreacts t (by simp [turns, ht])
      refine ⟨hafter, fun t ht => ?_⟩
      rcases List.mem_cons.mp ht with rfl | ht
      · exact hc
      · exact hturns t ht

/-- Whatever is called, an idle session stays idle on its catalog. -/
theorem idle_after_of_idle {s : Session ν (Call ν)} (hidle : s.announcing = false)
    (calls : List (Call ν)) :
    ({ index := s.index, config := s.config, holds := fun _ _ => True } : Contract ν).Meets
      (after s calls) := by
  refine (turns_keep (.of_all fun _ => trivial) (fun c _ => fun _ _ _ _ _ => ?_)
    (fun _ _ _ _ => trivial) ⟨rfl, rfl, hidle, trivial⟩ fun _ _ _ _ => trivial).1
  exact ⟨trivial, fun _ _ _ _ => trivial⟩

/-- Whatever is called, a session on a new build stays idle on its catalog. -/
theorem idle_after {catalog : Catalog ν} {config : Config} {s : Session ν (Call ν)}
    (hs : (newBuild catalog config).outcome = .ok s) (calls : List (Call ν)) :
    ({ index := s.index, config := config, holds := fun _ _ => True } : Contract ν).Meets
      (after s calls) := by
  obtain rfl := Except.ok.inj hs
  exact idle_after_of_idle rfl calls

/-- **Whatever is called, open selections have what lasts.** -/
theorem lasting_after {catalog : Catalog ν} {config : Config} {s : Session ν (Call ν)}
    {P : Selection ν → Prop} (hP : Selection.Lasting s.index P)
    (hs : (newBuild catalog config).outcome = .ok s) (calls : List (Call ν)) :
    ({ index := s.index, config := config,
       holds := fun state _ => ∀ x ∈ state.selections, x.locked = false → P x } :
      Contract ν).Meets (after s calls) := by
  refine (turns_keep (.of_all fun _ => trivial) (fun c _ state changed state' h heffect => ?_)
    (fun _ _ _ _ => trivial) ?_ fun _ _ _ _ => trivial).1
  · suffices h' : ∀ x ∈ state'.selections, x.locked = false → P x from ⟨h', fun _ _ _ _ => h'⟩
    cases heffect with
    | edit hedit => exact hP.edit h hedit
    | restore _ _ _ hr => exact hr.open_all h
  · obtain rfl := Except.ok.inj hs
    exact ⟨rfl, rfl, rfl, nofun⟩

/-- Listeners let out no fault if none is found in the turns. -/
theorem calm_of_all {s : Session ν (Call ν)} {calls : List (Call ν)}
    (h : ((turns s calls).all fun t => t.deliveries.all fun d => d.outcome.toBool) = true) :
    ∀ t ∈ turns s calls, ∀ d ∈ t.deliveries, d.outcome = .ok () := by
  intro t ht d hd
  obtain ⟨_, ho⟩ := except_eq_ok_of_toBool (List.all_eq_true.mp (List.all_eq_true.mp h t ht) d hd)
  exact ho

end Guided

/-! ## A small catalog -/

/-- An item without options, held once. -/
def plainItem (id : Text) : Item Double where
  id := id
  itemType := "ability"
  name := id
  description := ""
  weight := Number.ofNumeral (.decimal false 0 0)
  stackable := false
  options := []
  givenLimit := none
  properties := .empty

/-- A source that offers one of the items `x` and `y` from a level on, in a group `g`. -/
def plainSource (name : Text) (level : Int) : Source Double where
  key := ⟨name, .primary⟩
  name := name
  description := ""
  tiers := [⟨level, [.choice ⟨"g", "g", ["x", "y"], some 1, "ability"⟩]⟩]
  repeatPolicy := none

/-- Two sources with groups of one id, which open at the levels 1 and 5. -/
def sharedGroups : Catalog Double :=
  (((Catalog.addSource {} (plainSource "A" 1)).addSource (plainSource "B" 5)).addItem
    (plainItem "x")).addItem (plainItem "y")

namespace Guided

/-- A new build from these two sources. -/
def sharedStart (config : Config) : Session Double (Call Double) where
  index := { catalog := sharedGroups }
  config := config
  state := { targetLevel := .whole config.minLevel }

theorem newBuild_sharedGroups (config : Config) :
    (newBuild sharedGroups config).outcome = .ok (sharedStart config) := rfl

/-- A build is restored with an item of the one group, an item of the other one is selected, and
the level is lowered, while a listener looks on. -/
def sharedCalls : List (Call Double) :=
  [.subscribe "log" [⟨.selected, false⟩],
    .restore [.saved (.object [("groupId", .text "g"), ("id", .text "x"),
      ("source", .text "A")])] {},
    .setLevel (.whole 6), .select (.named "y") (.named "B") (.text "g") .null,
    .setLevel (.whole 5)]

end Guided

end CharacterBuild
