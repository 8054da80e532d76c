/-
The checker as a program: arguments and lines go in, the lines of a session come out. What is said
is decided in `Check`; here files are read and lines are printed.
-/
import RecordFilter.Check.Session

namespace RecordFilter
namespace Check

def fileText (name : String) : IO (Option String) := do
  match ← (IO.FS.readFile name).toBaseIO with
  | .ok text => return some text
  | .error _ => return none

def printLines (lines : List Line) : IO Unit := do
  for line in lines do
    IO.println line.text

partial def answerLines (session : Session) (input : IO.FS.Stream) : IO Unit := do
  let line ← input.getLine
  if line ≠ "" then
    printLines (session.answer line.toList)
    answerLines session input

def filesOf (arguments : List String) : List String :=
  match readArguments arguments with
  | .ok (.run settings) => settings.schema.toList
  | _ => []

def runSession (arguments : List String) : IO UInt32 := do
  let texts ← (filesOf arguments).mapM fun name => return (name, ← fileText name)
  match start (fun name => (texts.lookup name).join) arguments with
  | .done line =>
      printLines [line]
      return 0
  | .failed failure =>
      IO.eprintln failure.message
      return failure.exitCode
  | .opened session lines =>
      printLines lines
      match ← (answerLines session (← IO.getStdin)).toBaseIO with
      | .ok () => return 0
      | .error e =>
          IO.eprintln ("Error reading input: " ++ toString e)
          return 1

end Check
end RecordFilter

/-- Reads conditions from standard input and prints their filters. -/
def main (arguments : List String) : IO UInt32 :=
  RecordFilter.Check.runSession arguments
