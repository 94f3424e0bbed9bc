import BraceExpansion.CommandLine.Run

/-!
# The program

Reads the words on the command line and the file they name, and writes what `Invocation.run` says.
-/

open BraceExpansion

/-- Why the system could not read a file. -/
def faultOf : IO.Error → FileFault
  | .noFileOrDirectory .. => .missing
  | .permissionDenied _ code details => .other (details ++ " (os error " ++ toString code ++ ")")
  | .inappropriateType _ code details => .other (details ++ " (os error " ++ toString code ++ ")")
  | e => .other e.toString

/-- The contents of a file. -/
def readContents (path : String) : IO (Except FileFault Bytes) := do
  try
    let contents ← IO.FS.readBinFile path
    return .ok contents.data.toList
  catch e =>
    return .error (faultOf e)

/-- The outcome of an invocation, with the file it names. -/
def perform (i : Invocation) : IO Outcome := do
  match i.file with
  | none => return i.run fun _ => .ok []
  | some path =>
    let contents ← readContents path
    return i.run fun _ => contents

/-- Does what the words on the command line ask for. -/
def main (words : List String) : IO UInt32 := do
  let outcome ← match Invocation.ofWords? words with
    | none => pure .misused
    | some i => perform i
  (← IO.getStderr).putStr outcome.errors
  (← IO.getStdout).write ⟨outcome.output⟩
  return outcome.code
