import CharacterBuild.Change.Restoring
import CharacterBuild.Change.Selecting
import CharacterBuild.Completeness
import CharacterBuild.Record
import CharacterBuild.Rules

set_option autoImplicit false

/-! # Sessions

A session holds a build while it is worked on, together with the listeners that are told of
every change. A listener reacts with calls of its own, so a session is over a type of calls.
An action runs in a session: it may change the session, takes notes, delivers news to
listeners, and ends in a value or a fault. What an action did before a fault stays done.
-/

namespace CharacterBuild

/-- One call of a listener's reaction. -/
structure Step (κ : Type) where
  call : κ
  /-- Whether the listener goes on after a fault of the call. -/
  tolerant : Bool

/-- What a call is answered with. -/
inductive Answer (ν : Type) [Number ν] where
  /-- Nothing is to be said. -/
  | nothing
  | result (result : Result ν)
  | verdict (verdict : Verdict ν)
  | names (names : List Text)
  | balance (balance : Option (Balance ν))
  | flag (flag : Bool)
  | text (text : Text)
  | issues (issues : List (Issue ν))
  | build (build : Record ν)
  /-- The finished build, or what it lacks. -/
  | finished (outcome : Except Text (Record ν))
  | config (config : Config)
  | source (key : SourceId)
  /-- The names of the sources and the ids of the items. -/
  | contents (sources items : List Text)

/-- News of a change, as one listener received it. -/
structure Delivery (ν : Type) [Number ν] where
  listener : Text
  /-- The field that changed. -/
  field : Text
  /-- The state of the build as the listener found it. -/
  state : Build ν
  /-- The answers to the calls of the listener's reaction. -/
  answers : List (Except (Fault ν) (Answer ν))
  /-- How the reaction ended; a fault is let out to the one who made the change. -/
  outcome : Except (Fault ν) Unit

/-- A build that is worked on. -/
structure Session (ν κ : Type) [Number ν] where
  index : Index ν
  config : Config
  state : Build ν := {}
  /-- Whether a request has changed the build before. -/
  changed : Bool := false
  /-- The listeners in the order of their registrations, each as often as it is registered. -/
  registrations : List Text := []
  /-- Whether listeners are being told of a change. -/
  announcing : Bool := false
  /-- How each listener reacts. -/
  reactions : Directory Text (List (Step κ)) := .empty

/-- What an action has done. -/
structure Turn (ν κ : Type) [Number ν] (α : Type) where
  session : Session ν κ
  notes : List (Note ν)
  deliveries : List (Delivery ν)
  outcome : Except (Fault ν) α

/-- Something that is done in a session. -/
def Action (ν κ : Type) [Number ν] (α : Type) : Type := Session ν κ → Turn ν κ α

namespace Action

variable {ν κ α β : Type} [Number ν]

/-- End in a value. -/
protected def pure (a : α) : Action ν κ α := fun s => ⟨s, [], [], .ok a⟩

/-- One action after another; a fault of the first ends both. -/
protected def bind (x : Action ν κ α) (f : α → Action ν κ β) : Action ν κ β := fun s =>
  let t := x s
  match t.outcome with
  | .ok a =>
    let u := f a t.session
    ⟨u.session, t.notes ++ u.notes, t.deliveries ++ u.deliveries, u.outcome⟩
  | .error fault => ⟨t.session, t.notes, t.deliveries, .error fault⟩

instance : Monad (Action ν κ) where
  pure := Action.pure
  bind := Action.bind

instance : LawfulMonad (Action ν κ) := LawfulMonad.mk' (Action ν κ)
  (fun x => by
    funext s
    simp only [Functor.map, Action.bind]
    rcases x s with ⟨session, notes, deliveries, outcome⟩
    cases outcome <;> simp [Action.pure])
  (fun a f => by funext s; simp [Bind.bind, Pure.pure, Action.bind, Action.pure])
  (fun x f g => by
    funext s
    simp only [Bind.bind, Action.bind]
    rcases x s with ⟨session, notes, deliveries, outcome⟩
    cases outcome with
    | error fault => simp
    | ok a =>
      dsimp only
      rcases f a session with ⟨session', notes', deliveries', outcome'⟩
      cases outcome' <;> simp)

/-- The session as it stands. -/
def session : Action ν κ (Session ν κ) := fun s => ⟨s, [], [], .ok s⟩

/-- Change the session. -/
def modify (f : Session ν κ → Session ν κ) : Action ν κ Unit := fun s => ⟨f s, [], [], .ok ()⟩

/-- Do what does not touch the session. -/
def lift (x : Traced ν α) : Action ν κ α := fun s => ⟨s, x.notes, [], x.outcome⟩

/-- Give up with a fault. -/
def fail (fault : Fault ν) : Action ν κ α := fun s => ⟨s, [], [], .error fault⟩

/-- Record news that a listener received. -/
def deliver (d : Delivery ν) : Action ν κ Unit := fun s => ⟨s, [], [d], .ok ()⟩

/-- Do something and take its fault as a value. -/
def attempt (x : Action ν κ α) : Action ν κ (Except (Fault ν) α) := fun s =>
  ⟨(x s).session, (x s).notes, (x s).deliveries, .ok (x s).outcome⟩

instance : MonadLift (Traced ν) (Action ν κ) := ⟨lift⟩

/-- End with a value or a fault that was taken before. -/
def resume (outcome : Except (Fault ν) α) : Action ν κ α := fun s => ⟨s, [], [], outcome⟩

end Action

end CharacterBuild
