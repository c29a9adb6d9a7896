import CharacterBuild.Json.Reader
import CharacterBuild.Json.Writer
import CharacterBuild.Replay

set_option autoImplicit false

/-! # Reporting on a build file

A build file is replayed against a file of definitions, and a report says whether the build is
complete, what was refused and what it lacks. The report is written as text for people, or as a
document with the record of the finished build.
-/

namespace CharacterBuild

/-- The files of a report, by their names and contents. -/
structure Files where
  definitionsName : String
  definitions : String
  buildName : String
  build : String

/-- A report, written out. -/
structure Report where
  /-- Whether the build is complete. -/
  complete : Bool
  text : Text
  deriving DecidableEq, Repr

namespace Report

variable {ν : Type} [Number ν]

/-- The report once it is printed. A text with half a surrogate pair in it cannot be put out. -/
def printed (report : Report) : Except (Fault ν) Report :=
  if report.text.canPrint then .ok report else .error .unreadable

/-- The exit code of a program that has made a report and printed it: zero if the build is complete,
one if it is not or if a fault came up on the way. -/
def exitCode {ν : Type} : Except (Fault ν) Report → UInt32
  | .ok report => if report.complete then 0 else 1
  | .error _ => 1

/-- The members of the object that a file holds. -/
def load (name content : String) : Except (Fault ν) (Members ν) :=
  match Json.read content with
  | .ok (.object ms) => .ok ms
  | .ok _ => .error (.documentNotObject name)
  | .error .malformed => .error .malformedDocument
  | .error .numeralTooLong => .error .unreadable

/-- One thing that is missing, as a value. -/
def issueValue (i : Issue ν) : Value ν :=
  .object [("page", .text i.page), ("level", (i.level.map Value.whole).getD .null),
    ("category", .text i.lack.category), ("message", .text i.lack.message)]

/-- What the report says, as a value. -/
def content (rejected : List Text) (finished : Except Text (Record ν)) (issues : List (Issue ν)) :
    Value ν :=
  let (complete, build, report) : Bool × Value ν × Value ν :=
    match finished with
    | .ok build => (true, build.toValue Json.nameOfKey, .null)
    | .error report => (false, .null, .text report)
  .object
    [("complete", .bool complete), ("rejected", .list (rejected.map .text)),
     ("issues", .list (issues.map issueValue)), ("build", build), ("report", report)]

/-- The report as a document. -/
def document (rejected : List Text) (finished : Except Text (Record ν)) :
    GuidedAction ν Text := do
  let issues ← Guided.ask fun s => Completeness.allIssues s.index s.config s.state
  let v := content rejected finished issues
  if Json.canWrite v then pure (Json.write .indented 0 v)
  else Action.lift (Traced.fail .unreadable)

/-- The line on a page. -/
def pageLine (page : Text) : GuidedAction ν Text := do
  let complete ← Guided.ask fun s => Completeness.isDone s.index s.config s.state page
  pure ("  " ++ page ++ ": " ++ (if complete then "complete" else "incomplete"))

/-- What the report says of the state of the build. -/
def overview (state : Build ν) : List Text :=
  ["mode: " ++ state.mode.name,
   "target level: " ++ state.targetLevel.toValue.str,
   "selections: " ++ toString state.selections.length]

/-- What was refused, below a heading; nothing if nothing was. -/
def refusals (rejected : List Text) : List Text :=
  if rejected.isEmpty then [] else "rejected:" :: rejected.map fun r => "  - " ++ r

/-- What the build lacks, below a heading; nothing if it lacks nothing. -/
def lacks (report : Text) : List Text :=
  if report.isEmpty then [] else ["", "Please complete the following:", report]

/-- The report as text. -/
def plain (rejected : List Text) : GuidedAction ν Text := do
  let s ← Action.session
  let pages ← (Completeness.openPages s.index s.state).mapM pageLine
  let report ← Guided.ask fun s => Completeness.report s.index s.config s.state
  let heading : Text := "pages:"
  pure (Text.join "\n"
    (overview s.state ++ refusals rejected ++ heading :: pages ++ lacks report))

/-- Replay a build file and report on it. -/
def replayed (asDocument : Bool) (build : Members ν) : GuidedAction ν Report := do
  let rejected ← Replay.replay build
  let finished ← Guided.ask Guided.finalize
  let complete := finished.isOk
  let text ← if asDocument then document rejected finished else plain rejected
  pure ⟨complete, text⟩

/-- Take what an action comes to in a session, and leave the session. -/
def inSession {κ α : Type} (s : Session ν κ) (x : Action ν κ α) : Traced ν α :=
  ⟨(x s).notes, (x s).outcome⟩

/-- The report on a build file against a file of definitions. -/
def ofFiles (asDocument : Bool) (files : Files) : Traced ν Report := do
  let definitions ← Traced.lift (load files.definitionsName files.definitions)
  let build ← Traced.lift (load files.buildName files.build)
  let catalog ← Catalog.read (.object definitions)
  let config ← Traced.lift
    (Config.read ((Value.memberOrNull "config" definitions).orElse (.object [])))
  let session ← Guided.newBuild catalog config
  inSession session (replayed asDocument build)

end Report

end CharacterBuild
