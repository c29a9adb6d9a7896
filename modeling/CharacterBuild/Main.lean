import CharacterBuild.CommandLine
import CharacterBuild.Number.Double

set_option autoImplicit false

/-! # The program

Reads the two files that the command line names, logs to the error stream, and prints the
report. The exit code is zero if the build is complete, one if it is not or cannot be judged,
and two if the command line is not understood.
-/

namespace CharacterBuild

/-- Carry out a command line; the answer is the exit code. -/
def CommandLine.run (line : CommandLine) : IO UInt32 := do
  let definitions ← IO.FS.readFile line.definitions
  let build ← IO.FS.readFile line.build
  let traced : Traced Double Report := line.printed definitions build
  for entry in line.log traced.notes do
    IO.eprintln (toString entry)
  match traced.outcome with
  | .ok report => IO.println (toString report.text)
  | .error fault => IO.eprintln (toString fault.phrase)
  pure (Report.exitCode traced.outcome)

end CharacterBuild

open CharacterBuild in
/-- Carry out the command line that the words make. -/
def main (words : List String) : IO UInt32 :=
  match CommandLine.read words with
  | .ok line => line.run
  | .error fault => do
    IO.eprintln fault.message
    pure 2
