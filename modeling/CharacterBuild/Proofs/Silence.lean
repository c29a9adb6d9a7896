import CharacterBuild.Proofs.Created
import CharacterBuild.Proofs.ReadBack

set_option autoImplicit false

/-! # Requests that nobody hears

In a session without listeners a request goes where its plan leads (`Session.Silent.request`), and
what it comes to can be said as a whole: the value that it ends in and the state that it leaves
(`Session.Settles`). Steps of this kind are put together like the actions themselves. Setting the
fields of a new build to what was saved are such steps.
-/

namespace CharacterBuild

variable {ν : Type} [Number ν]

/-! ## Sessions that nobody listens to -/

/-- A plan that keeps a state or leads to another one, which passes the check, with no reason to
tell. -/
def Plan.Leads (index : Index ν) (config : Config) (state state' : Build ν) : Plan ν → Prop
  | .keep reason => reason = none ∧ state' = state
  | .commit change reason => reason = none ∧ state' = change.state ∧
      (config.checksState = true → state'.violations index = .ok [])

namespace Session

variable {κ α β : Type} {index : Index ν} {config : Config} {state state' : Build ν}
  {s : Session ν κ} {run : κ → Action ν κ (Answer ν)} {a : α} {b : β}

/-- A session that stands idle on a state, with nobody registered. -/
structure Silent (index : Index ν) (config : Config) (state : Build ν) (s : Session ν κ) :
    Prop where
  index : s.index = index
  config : s.config = config
  idle : s.announcing = false
  nobody : s.registrations = []
  state : s.state = state

/-- An action ends in a value and leaves a session that stands silently on a state. -/
structure Settles (index : Index ν) (config : Config) (x : Action ν κ α) (s : Session ν κ) (a : α)
    (state : Build ν) : Prop where
  outcome : (x s).outcome = .ok a
  silent : Silent index config state (x s).session

namespace Settles

theorem pure (hs : Silent index config state s) (a : α) :
    Settles index config (Pure.pure a : Action ν κ α) s a state := ⟨rfl, hs⟩

theorem bind {x : Action ν κ α} {f : α → Action ν κ β} (hx : Settles index config x s a state)
    (hf : Settles index config (f a) (x s).session b state') :
    Settles index config (x >>= f) s b state' := by
  have hbind := Action.bind_of_ok (f := f) hx.outcome
  exact ⟨by rw [hbind]; exact hf.outcome, by rw [hbind]; exact hf.silent⟩

theorem lift_bind {x : Traced ν α} {f : α → Action ν κ β} (h : x.outcome = .ok a)
    (hf : Settles index config (f a) s b state) :
    Settles index config (Action.lift x >>= f) s b state := by
  have hlift := Action.lift_bind_of_ok (f := f) (s := s) h
  exact ⟨by rw [hlift]; exact hf.outcome, by rw [hlift]; exact hf.silent⟩

theorem ask_bind {question : Session ν κ → Traced ν α} {f : α → Action ν κ β}
    (h : (question s).outcome = .ok a) (hf : Settles index config (f a) s b state) :
    Settles index config (Guided.ask question >>= f) s b state := by
  have hask := Guided.ask_bind_of_ok (f := f) h
  exact ⟨by rw [hask]; exact hf.outcome, by rw [hask]; exact hf.silent⟩

theorem map {x : Action ν κ α} (f : α → β) (hx : Settles index config x s a state) :
    Settles index config (f <$> x) s (f a) state := by
  rw [map_eq_pure_bind]
  exact hx.bind (.pure hx.silent _)

end Settles

/-- **Where nobody listens, a request goes where its plan leads.** -/
theorem Silent.request (h : Silent index config state s) (run : κ → Action ν κ (Answer ν))
    (plan : Session ν κ → Build ν → Traced ν (Plan ν)) {p : Plan ν}
    (hplan : (plan s s.state).outcome = .ok p)
    (hp : p.Leads index config state state') :
    ∃ changed, Settles index config (Session.request run plan) s ⟨changed, none⟩ state' := by
  have hrequest : Session.request run plan s = _ := request_of_idle plan h.idle
  rw [Action.lift_bind_of_ok hplan] at hrequest
  cases p with
  | keep reason =>
      obtain ⟨rfl, rfl⟩ := hp
      exact ⟨false, by rw [hrequest]; rfl, by rw [hrequest]; exact h⟩
  | commit change reason =>
      obtain ⟨rfl, rfl, hpass⟩ := hp
      have hpasses : s.Passes change.state := by
        unfold Passes
        rw [h.config, h.index]
        exact hpass
      rw [carryOut_of_passes hpasses, replace_of_idle _ _ h.idle, h.nobody] at hrequest
      exact ⟨true, by rw [hrequest]; rfl,
        by rw [hrequest]; exact ⟨h.index, h.config, rfl, rfl, rfl⟩⟩

theorem Silent.setField (h : Silent index config state s) (run : κ → Action ν κ (Answer ν))
    {name : Text} {value : Value ν} (hname : fieldNames.guarded.contains name = false)
    (hplan : ∃ p, (Plan.setField index config state name value).outcome = .ok p ∧
      p.Leads index config state state') :
    ∃ changed, Settles index config (Session.setField run name value) s ⟨changed, none⟩
      state' := by
  have hcheck : Plan.checkField name = (.ok () : Except (Fault ν) Unit) :=
    if_neg (by rw [hname]; simp)
  obtain ⟨p, hplan, hp⟩ := hplan
  obtain ⟨changed, hdone⟩ := h.request run
    (fun s state => Plan.setField s.index s.config state name value)
    (by rw [h.index, h.config, h.state]; exact hplan) hp
  exact ⟨changed, .lift_bind (a := ()) hcheck hdone⟩

end Session

/-! ## Setting fields -/

theorem Directory.same_empty {κ β γ : Type} [BEq κ] (sameValue : β → γ → Bool)
    (d : Directory κ β) : d.same sameValue .empty = d.entries.isEmpty := by
  unfold same size
  cases h : d.entries <;> simp [empty]

namespace Plan

variable {index : Index ν} {config : Config} {state : Build ν}

/-- A new build is aimed at a level in range, which is the one it starts from or a new one. -/
theorem setLevel_initial {n : Int} (hleast : config.minLevel ≤ n) (hmost : n ≤ config.maxLevel)
    (hpass : n ≠ config.minLevel → config.checksState = true →
      ({ targetLevel := .whole n } : Build ν).violations index = .ok []) :
    ∃ p, (setLevel index config (Build.initial config) (.whole n)).outcome = .ok p ∧
      p.Leads index config (Build.initial config) { targetLevel := .whole n } := by
  have hrange : ¬ (decide (n < config.minLevel) || decide (config.maxLevel < n)) = true := by
    simp only [Bool.or_eq_true, decide_eq_true_eq, not_or]
    omega
  unfold setLevel
  dsimp only
  rw [if_neg hrange]
  show ∃ p, (if ((.whole config.minLevel : Level ν).same n) = true then _ else _ :
    Traced ν (Plan ν)).outcome = .ok p ∧ _
  by_cases hsame : config.minLevel = n
  · rw [if_pos (by simp [hsame]), ← hsame]
    exact ⟨.keep none, rfl, rfl, rfl⟩
  · rw [if_neg (by simp [hsame])]
    -- there is nothing to prune
    have hprune : (Build.prune ({ targetLevel := .whole n } : Build ν) index
        (.whole config.minLevel)).outcome = .ok ([], { targetLevel := .whole n }) := by
      unfold Build.prune
      split
      · rfl
      · dsimp only
        split <;> rfl
    refine ⟨_, Traced.outcome_bind_eq_ok.mpr ⟨_, hprune, rfl⟩, rfl, rfl, ?_⟩
    exact hpass fun heq => hsame heq.symm

/-- Attributes are set as they were saved. -/
theorem setField_attributes {d : Directory (Atom ν) (Value ν)}
    (hkeys : ∀ e ∈ d.entries, ∃ name, e.1 = .text name) (hnone : state.attributes = .empty)
    (hpass : d.entries ≠ [] → config.checksState = true →
      ({ state with attributes := d } : Build ν).violations index = .ok []) :
    ∃ p, (setField index config state fieldNames.attributes (.object d.named)).outcome = .ok p ∧
      p.Leads index config state { state with attributes := d } := by
  unfold setField
  rw [if_neg (by decide), if_pos rfl, Traced.outcome_lift]
  unfold setAttributes
  have hread : textKeyed (.object d.named) (fun v => v) = .ok d :=
    textKeyed_named hkeys fun _ _ => rfl
  rw [hread]
  show ∃ p, (if d.same Value.alike state.attributes = true then _ else _ :
    Except (Fault ν) (Plan ν)) = .ok p ∧ _
  rw [hnone, Directory.same_empty]
  by_cases hd : d.entries = []
  · rw [if_pos (by rw [hd]; rfl)]
    refine ⟨.keep none, rfl, rfl, ?_⟩
    have hempty : d = .empty := Directory.eq_of_entries hd
    rw [hempty, ← hnone]
  · rw [if_neg (by simpa using hd)]
    exact ⟨_, rfl, rfl, rfl, hpass hd⟩

/-- The information is set as it was saved. -/
theorem setField_info {d : Directory (Atom ν) (Value ν)}
    (htexts : ∀ e ∈ d.entries, ∃ name v, e = (.text name, .text v)) (hnone : state.info = .empty)
    (hpass : d.entries ≠ [] → config.checksState = true →
      ({ state with info := d } : Build ν).violations index = .ok []) :
    ∃ p, (setField index config state fieldNames.info (.object d.named)).outcome = .ok p ∧
      p.Leads index config state { state with info := d } := by
  have hread : textKeyed (.object d.named) (fun v => .text v.str) = .ok d := by
    refine textKeyed_named (fun e he => ?_) fun e he => ?_
    · obtain ⟨name, v, rfl⟩ := htexts e he
      exact ⟨name, rfl⟩
    · obtain ⟨name, v, rfl⟩ := htexts e he
      rfl
  unfold setField
  rw [if_neg (by decide), if_neg (by decide), if_neg (by decide), if_pos rfl, Traced.outcome_lift]
  unfold setInfo
  rw [hread]
  show ∃ p, (if d.same Value.alike state.info = true then _ else _ :
    Except (Fault ν) (Plan ν)) = .ok p ∧ _
  rw [hnone, Directory.same_empty]
  by_cases hd : d.entries = []
  · rw [if_pos (by rw [hd]; rfl)]
    refine ⟨.keep none, rfl, rfl, ?_⟩
    have hempty : d = .empty := Directory.eq_of_entries hd
    rw [hempty, ← hnone]
  · rw [if_neg (by simpa using hd)]
    exact ⟨_, rfl, rfl, rfl, hpass hd⟩

/-- The inventory is set as it was saved. -/
theorem setField_inventory {lines : List (InventoryLine ν)}
    (hquantities : ∀ e ∈ lines, e.quantity ≠ 0) (hnone : state.inventory = [])
    (hpass : lines ≠ [] → config.checksState = true →
      ({ state with inventory := lines } : Build ν).violations index = .ok []) :
    ∃ p, (setField index config state fieldNames.inventory
        (.list (lines.map fun e => .object e.saved))).outcome = .ok p ∧
      p.Leads index config state { state with inventory := lines } := by
  unfold setField
  rw [if_neg (by decide), if_neg (by decide), if_pos rfl]
  unfold setInventory
  rw [Traced.outcome_bind_of_ok (a := lines.map fun e => .object e.saved) rfl,
    Traced.outcome_bind_of_ok (InventoryLine.readAll_saved hquantities), hnone]
  cases lines with
  | nil =>
      refine ⟨.keep none, rfl, rfl, ?_⟩
      rw [← hnone]
  | cons e rest => exact ⟨_, rfl, rfl, rfl, hpass (List.cons_ne_nil _ _)⟩

end Plan

/-! ## Asking the rules first -/

namespace Guided

variable {κ : Type} {index : Index ν} {config : Config} {state : Build ν} {s : Session ν κ}
  {run : κ → Action ν κ (Answer ν)} {what : ItemMention ν} {mention : SourceMention}
  {item : Item ν} {source : SourceId} {group payload : Value ν}

/-- A request for an item that the rules admit is carried out. -/
theorem select_of_admitted (hitem : (what.resolve s.index).outcome = .ok (.ok item))
    (hkey : (mention.resolve s.index).outcome = .ok source)
    (hadmits : (admits s item source group).outcome = .ok .enabled) {result : Result ν}
    (h : Session.Settles index config (Session.select run item source group payload) s result
      state) :
    Session.Settles index config (select run what mention group payload) s result state := by
  unfold select
  refine .ask_bind hitem ?_
  unfold withKey
  exact .ask_bind hkey (.ask_bind hadmits h)

/-- A request is for an item that the rules admit, or it is refused for a reason. -/
theorem admitted_or_refused (hitem : (what.resolve s.index).outcome = .ok (.ok item))
    (hkey : (mention.resolve s.index).outcome = .ok source) {result : Result ν}
    (h : (select run what mention group payload s).outcome = .ok result) :
    (admits s item source group).outcome = .ok .enabled ∨
      ∃ reason, result = ⟨false, some reason⟩ := by
  unfold select at h
  obtain ⟨found, hfound, h, _⟩ := ask_bind_eq_ok h
  rw [hitem] at hfound
  obtain rfl := Except.ok.inj hfound
  dsimp only at h
  unfold withKey at h
  obtain ⟨key, hkey', h, _⟩ := ask_bind_eq_ok h
  rw [hkey] at hkey'
  obtain rfl := Except.ok.inj hkey'
  obtain ⟨verdict, hverdict, h, _⟩ := ask_bind_eq_ok h
  cases verdict with
  | enabled => exact .inl hverdict
  | disabled reason =>
      obtain ⟨_, _, h, _⟩ := Action.lift_bind_eq_ok h
      exact .inr ⟨reason, (Except.ok.inj h).symm⟩

end Guided

end CharacterBuild
