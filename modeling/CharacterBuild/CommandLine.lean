import CharacterBuild.Report

set_option autoImplicit false

/-! # The command line

The words of a command line name the file of definitions and the file of a build. Further words
ask for the report as a document, and for every note to be logged instead of the warnings alone.
The words may stand in any order; of a word that is repeated the last one counts.
-/

namespace CharacterBuild

/-- What a command line asks for. -/
structure CommandLine where
  definitions : String
  build : String
  /-- Whether the report is written as a document. -/
  asDocument : Bool
  /-- Whether every note is logged. -/
  verbose : Bool
  deriving DecidableEq, Repr

/-- Why a command line asks for nothing. -/
inductive UsageFault where
  /-- A word has no meaning. -/
  | unknownWord (word : String)
  /-- No file follows a word that has to be followed by one. -/
  | fileMissing (word : String)
  /-- A word that names a file is not among the words. -/
  | wordMissing (word : String)
  deriving DecidableEq, Repr

/-- The words of a command line. -/
def UsageFault.usage : String := "usage: --definitions FILE --build FILE [--json] [--verbose]"

/-- The message of a fault, below the words that are understood. -/
def UsageFault.message (fault : UsageFault) : String :=
  usage ++ "\nerror: " ++ match fault with
    | unknownWord word => "unknown word " ++ word
    | fileMissing word => word ++ " needs a file"
    | wordMissing word => word ++ " is missing"

namespace CommandLine

/-- What some words of a command line have said. -/
structure Said where
  definitions : Option String := none
  build : Option String := none
  asDocument : Bool := false
  verbose : Bool := false

/-- What the words say after what has been said. -/
def Said.hear : Said → List String → Except UsageFault Said
  | said, [] => .ok said
  | said, "--json" :: rest => hear { said with asDocument := true } rest
  | said, "--verbose" :: rest => hear { said with verbose := true } rest
  | said, "--definitions" :: file :: rest => hear { said with definitions := some file } rest
  | said, "--build" :: file :: rest => hear { said with build := some file } rest
  | _, [word] =>
    if word = "--definitions" || word = "--build" then .error (.fileMissing word)
    else .error (.unknownWord word)
  | _, word :: _ => .error (.unknownWord word)

/-- What the words of a command line ask for. -/
def read (words : List String) : Except UsageFault CommandLine := do
  let said ← Said.hear {} words
  match said.definitions, said.build with
  | some definitions, some build =>
    .ok ⟨definitions, build, said.asDocument, said.verbose⟩
  | none, _ => .error (.wordMissing "--definitions")
  | some _, none => .error (.wordMissing "--build")

variable {ν : Type} [Number ν]

/-- The lines that are logged of some notes. -/
def log (line : CommandLine) (notes : List (Note ν)) : List Text :=
  let threshold := if line.verbose then Severity.debug else Severity.warning
  (notes.filter fun n => threshold.rank ≤ n.severity.rank).map fun n =>
    "[" ++ n.severity.name ++ "] " ++ n.message Fault.phrase

/-- The files that a command line names, by their contents. -/
def files (line : CommandLine) (definitions build : String) : Files :=
  ⟨line.definitions, definitions, line.build, build⟩

/-- The report on two files, by their contents. -/
def report (line : CommandLine) (definitions build : String) : Traced ν Report :=
  Report.ofFiles line.asDocument (line.files definitions build)

/-- The report on two files, once it is printed. -/
def printed (line : CommandLine) (definitions build : String) : Traced ν Report := do
  let report ← line.report definitions build
  Traced.lift report.printed

end CommandLine

end CharacterBuild
