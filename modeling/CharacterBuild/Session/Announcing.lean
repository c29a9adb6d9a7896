import CharacterBuild.Session.Basic

set_option autoImplicit false

/-! # Announcing changes

Every change of a build replaces its state as a whole, and then each registration is told once,
in the order in which they were made, of the field that changed. While listeners are told, the
build cannot be changed again: a listener that tries gets a fault. A fault that a listener lets
out ends the announcement and is the fault of the change, but the new state stays.
-/

namespace CharacterBuild

variable {ν κ : Type} [Number ν]

namespace Session

/-- How a listener reacts; a name without a reaction hears the news and does nothing. -/
def reaction (s : Session ν κ) (listener : Text) : List (Step κ) :=
  (s.reactions.find? listener).getD []

/-- Register a listener. Its reaction is fixed by its first registration. -/
def subscribe (listener : Text) (steps : List (Step κ)) : Action ν κ Unit :=
  Action.modify fun s =>
    { s with
      registrations := s.registrations ++ [listener]
      reactions :=
        if s.reactions.contains listener then s.reactions else s.reactions.insert listener steps }

/-- End the first registration of a listener, if there is one. -/
def unsubscribe (listener : Text) : Action ν κ Unit :=
  Action.modify fun s => { s with registrations := s.registrations.erase listener }

/-- Run the steps of a reaction. The answers are kept, and so is the fault that ends it. -/
def react (run : κ → Action ν κ (Answer ν)) :
    List (Step κ) → Action ν κ (List (Except (Fault ν) (Answer ν)) × Except (Fault ν) Unit)
  | [] => pure ([], .ok ())
  | step :: rest => do
    let answer ← (run step.call).attempt
    match answer, step.tolerant with
    | .error fault, false => pure ([answer], .error fault)
    | _, _ => do
      let (answers, outcome) ← react run rest
      pure (answer :: answers, outcome)

/-- Tell listeners one after another that a field changed. -/
def tell (run : κ → Action ν κ (Answer ν)) (field : Text) : List Text → Action ν κ Unit
  | [] => pure ()
  | listener :: rest => do
    let s ← Action.session
    let (answers, outcome) ← react run (s.reaction listener)
    Action.deliver ⟨listener, field, s.state, answers, outcome⟩
    Action.resume outcome
    tell run field rest

/-- Replace the state and tell the listeners that are registered now. -/
def replace (run : κ → Action ν κ (Answer ν)) (field : Text) (state : Build ν) :
    Action ν κ Unit := do
  let s ← Action.session
  if s.announcing then Action.fail (.fieldBusy field)
  else do
    Action.modify fun s => { s with state := state, announcing := true }
    let outcome ← (tell run field s.registrations).attempt
    Action.modify fun s => { s with announcing := false }
    Action.resume outcome

/-- The state that a request starts from; while listeners are told there is none. -/
def begin : Action ν κ (Build ν) := do
  let s ← Action.session
  if s.announcing then Action.fail .busy else pure s.state

/-- Carry out a plan. A new state is checked first, if the configuration says so. -/
def carryOut (run : κ → Action ν κ (Answer ν)) : Plan ν → Action ν κ (Result ν)
  | .keep reason => pure ⟨false, reason⟩
  | .commit change reason => do
    let s ← Action.session
    let problems ← Action.lift (Traced.lift
      (if s.config.checksState then change.state.violations s.index else .ok []))
    if !problems.isEmpty then Action.fail (.violated problems)
    else do
      replace run change.field change.state
      Action.modify fun s => { s with changed := true }
      Action.lift (Traced.note change.note)
      pure ⟨true, reason⟩

/-- Make a plan from the state of the build and carry it out. -/
def request (run : κ → Action ν κ (Answer ν))
    (plan : Session ν κ → Build ν → Traced ν (Plan ν)) : Action ν κ (Result ν) := do
  let state ← begin
  let s ← Action.session
  let p ← Action.lift (plan s state)
  carryOut run p

end Session

end CharacterBuild
