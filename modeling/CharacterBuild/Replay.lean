import CharacterBuild.Session.GuidedCall

set_option autoImplicit false

/-! # Replaying a build file

A build file is replayed in a guided session on a new build. If it names the level at which
the build was restored, its selections are settled ones, and the new selections are made on top
of them after the target level was raised. Otherwise all its selections are made one by one, and
then its attributes, its inventory and its information are set. What the rules refuse is
reported and left out.
-/

namespace CharacterBuild

namespace Replay

variable {ν : Type} [Number ν]

/-- The members of a saved selection that are passed on as its payload. -/
def payloadOf (raw : Value ν) : Except (Fault ν) (Members ν) := do
  let found ← Plan.payloadNames.mapM fun name => do
    if ← raw.has name then .ok (some (name, ← raw.member name)) else .ok none
  .ok (found.filterMap fun m => m)

/-- The report on a request, if it was refused for a reason. -/
def refusal (what : Text) (result : Result ν) : List Text :=
  match result.changed, result.reason with
  | false, some reason => [what ++ ": " ++ reason.text]
  | _, _ => []

/-- Make one selection of a file. -/
def selectOne (raw : Value ν) : GuidedAction ν (List Text) := do
  let payload ← Action.lift (Traced.lift (payloadOf raw))
  let id ← Action.lift (Traced.lift (raw.member "id"))
  let source ← Action.lift (Traced.lift (raw.member "source"))
  let ms ← Action.lift (Traced.lift raw.members)
  let result ← Guided.select Guided.Call.runInside (.named id.str) (.named source.str)
    (Value.memberOrNull "groupId" ms) (if payload.isEmpty then .null else .object payload)
  pure (refusal (id.str ++ " (" ++ source.str ++ ")") result)

/-- Make the selections of a member of a file in order. -/
def selectAll (name : Text) (file : Members ν) : GuidedAction ν (List Text) := do
  let raws ← Action.lift (Traced.lift (Value.elementsOf name file))
  pure (← raws.mapM selectOne).flatten

/-- Aim for the level that a file names, if it names one. -/
def aim (file : Members ν) : GuidedAction ν (List Text) := do
  let target := Value.memberOrNull "targetLevel" file
  if target.isNull then pure []
  else
    let level ← Action.lift (Traced.lift target.toWhole)
    let result ← Session.setField Guided.Call.runInside fieldNames.targetLevel (.whole level)
    pure (match result.reason with
      | some reason => ["target level: " ++ reason.text]
      | none => [])

/-- Restore the build of a file at the level it names. -/
def restore (file : Members ν) (level : Value ν) : GuidedAction ν Unit := do
  let level ← Action.lift (Traced.lift level.toWhole)
  let raws ← Action.lift (Traced.lift (Value.elementsOf "selections" file))
  Guided.restore Guided.Call.runInside (raws.map .saved) {
    attributes := Value.memberOrNull "attributes" file
    inventory := Value.memberOrNull "inventory" file
    info := Value.memberOrNull "info" file
    level := .whole level }

/-- Set a field that a file names, if it names it. -/
def setNamed (file : Members ν) (name : Text) : GuidedAction ν Unit :=
  match Value.lookup name file with
  | some v => (fun _ => ()) <$> Session.setField Guided.Call.runInside name v
  | none => pure ()

/-- The fields that a file of a new build may set. -/
def fieldsOfFile : List Text := [fieldNames.attributes, fieldNames.inventory, fieldNames.info]

/-- Replay a build file; the answer lists what was refused. -/
def replay (file : Members ν) : GuidedAction ν (List Text) :=
  match Value.lookup "originalLevel" file with
  | some level => do
    restore file level
    let aimed ← aim file
    let selected ← selectAll "newSelections" file
    pure (aimed ++ selected)
  | none => do
    let aimed ← aim file
    let selected ← selectAll "selections" file
    fieldsOfFile.forM (setNamed file)
    pure (aimed ++ selected)

end Replay

end CharacterBuild
