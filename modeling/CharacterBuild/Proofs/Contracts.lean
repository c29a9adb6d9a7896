import CharacterBuild.Proofs.Dispatch
import CharacterBuild.Proofs.Edits
import CharacterBuild.Proofs.Faults

set_option autoImplicit false

/-! # Contracts of sessions

A `Contract` says what holds of the state of a session between two calls, given how listeners
react, and which faults may come up. An action keeps it (`Contract.KeepsAt`) if it leads from a
session that meets it to another one. The property is closed under all ways of putting actions
together, so that only requests are left to be looked at; and a request keeps a contract if the
contract accepts the state that its plan makes (`Contract.KeepsAt.request`).
-/

namespace CharacterBuild

variable {ν κ α β : Type} [Number ν]

/-- What is promised about idle sessions on one catalog. -/
structure Contract (ν : Type) [Number ν] where
  index : Index ν
  config : Config
  /-- How listeners react. -/
  reacts : Delivery ν → Prop := fun _ => True
  /-- What holds of the state, and of whether a request has changed the build before. -/
  holds : Build ν → Bool → Prop
  /-- The faults that may come up. -/
  faults : Fault ν → Prop := fun _ => True

namespace Contract

variable {C : Contract ν}

/-- An idle session on the catalog of a contract in a state that fulfils it. -/
structure Meets (C : Contract ν) (s : Session ν κ) : Prop where
  index : s.index = C.index
  config : s.config = C.config
  idle : s.announcing = false
  holds : C.holds s.state s.changed

/-- A new state that a contract allows. If the reaction of a listener may end in a fault, it is
also allowed before the change is counted. -/
structure Accepts (C : Contract ν) (changed : Bool) (s : Build ν) : Prop where
  made : C.holds s true
  broken : ∀ d fault, C.reacts d → d.outcome = .error fault → C.holds s changed

/-- If listeners let out no fault, what holds of the new state is all there is to show. -/
theorem Accepts.of_calm (hcalm : ∀ d, C.reacts d → d.outcome = .ok ()) {changed : Bool}
    {s : Build ν} (h : C.holds s true) : C.Accepts changed s where
  made := h
  broken := fun d fault hd hraised => by
    rw [hcalm d hd] at hraised
    cases hraised

/-- The faults that come up beside the check, of readers and of listeners, are among those of
the contract; and so is the fault of a state that the contract lets through to the check. -/
structure Fair (C : Contract ν) : Prop where
  plain : ∀ fault, (∀ problems, fault ≠ .violated problems) → C.faults fault
  listener : ∀ d fault, C.reacts d → d.outcome = .error fault → C.faults fault
  checked : C.config.checksState = true → ∀ s problems, C.holds s true →
    s.violations C.index = .ok problems → problems ≠ [] → C.faults (.violated problems)

/-- A contract that does not restrict faults. -/
theorem Fair.of_all (h : ∀ fault, C.faults fault) : C.Fair :=
  ⟨fun fault _ => h fault, fun _ fault _ _ => h fault, fun _ _ _ _ _ _ => h _⟩

theorem Fair.of_noViolation (hfair : C.Fair) {x : Except (Fault ν) α} (hx : NoViolation x)
    {fault : Fault ν} (h : x = .error fault) : C.faults fault :=
  hfair.plain fault fun problems heq => hx problems (by rw [h, heq])

/-- An action that leads from a session to one that meets the contract, unless a listener
reacts in another way. -/
def KeepsAt (C : Contract ν) (s : Session ν κ) (x : Action ν κ α) : Prop :=
  (∀ d ∈ (x s).deliveries, C.reacts d) →
    C.Meets (x s).session ∧ ∀ fault, (x s).outcome = .error fault → C.faults fault

theorem KeepsAt.read {s : Session ν κ} {f : Session ν κ → Action ν κ α}
    (h : C.KeepsAt s (f s)) : C.KeepsAt s (Action.session >>= f) := by
  unfold KeepsAt
  rw [Action.session_bind]
  exact h

theorem KeepsAt.bind {s : Session ν κ} {x : Action ν κ α} {f : α → Action ν κ β}
    (hx : C.KeepsAt s x)
    (hf : ∀ a, (x s).outcome = .ok a → C.Meets (x s).session →
      C.KeepsAt (x s).session (f a)) : C.KeepsAt s (x >>= f) := by
  intro hd
  cases ho : (x s).outcome with
  | ok a =>
      rw [Action.bind_of_ok ho] at hd ⊢
      obtain ⟨hs', _⟩ := hx fun d hmem => hd d (List.mem_append_left _ hmem)
      exact hf a ho hs' fun d hmem => hd d (List.mem_append_right _ hmem)
  | error fault =>
      rw [Action.bind_of_error ho] at hd ⊢
      obtain ⟨hs', hfault⟩ := hx hd
      refine ⟨hs', fun fault' h => ?_⟩
      obtain rfl := Except.error.inj h
      exact hfault fault ho

theorem KeepsAt.pure {s : Session ν κ} (hs : C.Meets s) (a : α) :
    C.KeepsAt s (Pure.pure a : Action ν κ α) :=
  fun _ => ⟨hs, fun _ h => by cases h⟩

theorem KeepsAt.lift {s : Session ν κ} (hs : C.Meets s) {x : Traced ν α}
    (h : ∀ fault, x.outcome = .error fault → C.faults fault) :
    C.KeepsAt s (Action.lift x : Action ν κ α) :=
  fun _ => ⟨hs, h⟩

theorem KeepsAt.fail {s : Session ν κ} (hs : C.Meets s) {fault : Fault ν} (h : C.faults fault) :
    C.KeepsAt s (Action.fail fault : Action ν κ α) :=
  fun _ => ⟨hs, fun _ heq => Except.error.inj heq ▸ h⟩

/-- What only concerns the registrations. -/
theorem KeepsAt.register {s : Session ν κ} (hs : C.Meets s) {f : Session ν κ → Session ν κ}
    (h : s.SameBuild (f s)) : C.KeepsAt s (Action.modify f) := by
  refine fun _ => ⟨⟨h.index.trans hs.index, h.config.trans hs.config,
    h.announcing.trans hs.idle, ?_⟩, fun _ heq => by cases heq⟩
  show C.holds (f s).state (f s).changed
  rw [h.state, h.changed]
  exact hs.holds

/-- A session that meets a contract still does after a plan, if the contract accepts what the
plan makes. -/
theorem Meets.carried (hfair : C.Fair) {s : Session ν κ} {t : Turn ν κ (Result ν)} {p : Plan ν}
    (hs : C.Meets s) (hp : p.Makes (C.Accepts s.changed)) (hc : s.Carried t p)
    (hd : ∀ d ∈ t.deliveries, C.reacts d) :
    C.Meets t.session ∧ ∀ fault, t.outcome = .error fault → C.faults fault := by
  have hreplaced : ∀ {state changed s'}, s.Replaced state changed s' →
      C.holds state changed → C.Meets s' := by
    intro state changed s' hr hholds
    refine ⟨hr.index.trans hs.index, hr.config.trans hs.config, hr.idle, ?_⟩
    rw [hr.state, hr.changed]
    exact hholds
  cases hc with
  | kept hsame _ ho =>
      rw [hsame]
      exact ⟨hs, fun fault h => by rw [ho] at h; cases h⟩
  | barred hsame _ ho hbar =>
      rw [hsame]
      refine ⟨hs, fun fault h => ?_⟩
      rw [ho] at h
      obtain rfl := Except.error.inj h
      rcases hbar.failed with hf | ⟨problems, hproblems, hne, rfl⟩
      · refine hfair.plain _ fun problems heq => ?_
        -- a state that cannot be checked is not blamed for a violation
        rw [heq] at hf
        exact Build.noViolation_violations _ _ problems hf
      · rw [hs.index] at hproblems
        exact hfair.checked (hs.config ▸ hbar.checks) _ _ hp.made hproblems hne
  | made _ hr ho =>
      exact ⟨hreplaced hr hp.made, fun fault h => by rw [ho] at h; cases h⟩
  | @broken _ _ fault _ hr ho hraised =>
      obtain ⟨d, hmem, hraise⟩ := hraised
      refine ⟨hreplaced hr (hp.broken d fault (hd d hmem) hraise), fun fault' h => ?_⟩
      rw [ho] at h
      obtain rfl := Except.error.inj h
      exact hfair.listener d fault (hd d hmem) hraise

/-- **A request keeps a contract that accepts what its plan makes.** -/
theorem KeepsAt.request (hfair : C.Fair) {run : κ → Action ν κ (Answer ν)}
    {plan : Session ν κ → Build ν → Traced ν (Plan ν)} {s : Session ν κ} (hs : C.Meets s)
    (hrun : ∀ c, (run c).LeavesBuild) (hplan : NoViolation (plan s s.state).outcome)
    (hmakes : ∀ p, (plan s s.state).outcome = .ok p → p.Makes (C.Accepts s.changed)) :
    C.KeepsAt s (Session.request run plan) := by
  intro hd
  rcases Session.request_carried hrun plan hs.idle with
    ⟨fault, hfault, hsame, _, ho⟩ | ⟨p, hp, hc⟩
  · rw [hsame]
    refine ⟨hs, fun fault' h => ?_⟩
    rw [ho] at h
    obtain rfl := Except.error.inj h
    exact hfair.of_noViolation hplan hfault
  · exact hs.carried hfair (hmakes p hp) hc hd

end Contract

end CharacterBuild
