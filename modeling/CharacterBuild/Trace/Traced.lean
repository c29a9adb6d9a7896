import CharacterBuild.Trace.Note

set_option autoImplicit false

/-! # Traced computations

A traced computation ends in a value or a fault and leaves the notes it took on the way. Notes
never influence the outcome: the outcome of a sequence of steps is the sequence of their
outcomes, so a statement about outcomes need not mention notes.
-/

namespace CharacterBuild

/-- A value or a fault, with the notes taken on the way to it. -/
structure Traced (ν α : Type) where
  /-- The notes in the order in which they were taken. -/
  notes : List (Note ν)
  /-- The value, or why there is none. -/
  outcome : Except (Fault ν) α

namespace Traced

variable {ν α β : Type}

/-- The computation of a value that takes no notes. -/
protected def pure (a : α) : Traced ν α := ⟨[], .ok a⟩

/-- One computation after another; a fault of the first is the fault of both. -/
protected def bind (x : Traced ν α) (f : α → Traced ν β) : Traced ν β :=
  match x.outcome with
  | .ok a => ⟨x.notes ++ (f a).notes, (f a).outcome⟩
  | .error fault => ⟨x.notes, .error fault⟩

instance : Monad (Traced ν) where
  pure := Traced.pure
  bind := Traced.bind

instance : LawfulMonad (Traced ν) := LawfulMonad.mk' (Traced ν)
  (fun x => by
    rcases x with ⟨notes, outcome⟩
    cases outcome <;> simp [Functor.map, Traced.bind, Traced.pure])
  (fun a f => by simp [Bind.bind, Pure.pure, Traced.bind, Traced.pure])
  (fun x f g => by
    rcases x with ⟨notes, outcome⟩
    cases outcome with
    | error fault => simp [Bind.bind, Traced.bind]
    | ok a =>
      simp only [Bind.bind, Traced.bind]
      cases (f a).outcome <;> simp)

/-- Take a note. -/
def note (n : Note ν) : Traced ν Unit := ⟨[n], .ok ()⟩

/-- Give up with a fault. -/
def fail (fault : Fault ν) : Traced ν α := ⟨[], .error fault⟩

/-- A computation that takes no notes. -/
def lift (x : Except (Fault ν) α) : Traced ν α := ⟨[], x⟩

instance : MonadLift (Except (Fault ν)) (Traced ν) := ⟨lift⟩

/-- The value of a computation, or of another one that is told the fault, if it is one that a
reader skips. -/
def orSkip (x : Traced ν α) (onFault : Fault ν → Traced ν α) : Traced ν α :=
  match x.outcome with
  | .ok _ => x
  | .error fault =>
    if fault.isSkipped then ⟨x.notes ++ (onFault fault).notes, (onFault fault).outcome⟩ else x

@[simp] theorem outcome_pure (a : α) : (pure a : Traced ν α).outcome = .ok a := rfl

@[simp] theorem outcome_note (n : Note ν) : (note n).outcome = .ok () := rfl

@[simp] theorem outcome_fail (fault : Fault ν) :
    (fail fault : Traced ν α).outcome = .error fault := rfl

@[simp] theorem outcome_lift (x : Except (Fault ν) α) : (lift x).outcome = x := rfl

/-- The outcome of a sequence of steps is the sequence of their outcomes. -/
@[simp] theorem outcome_bind (x : Traced ν α) (f : α → Traced ν β) :
    (x >>= f).outcome = x.outcome.bind fun a => (f a).outcome := by
  show (Traced.bind x f).outcome = _
  unfold Traced.bind
  cases x.outcome <;> rfl

end Traced

end CharacterBuild
