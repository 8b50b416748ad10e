import ShaderIR.CommandLine.Run

/-!
The command line program.
-/

namespace ShaderIR.CommandLine

def readText (path : String) : IO (Option String) := do
  try
    return some (← IO.FS.readFile path)
  catch _ => return none

def readAll (paths : List String) : IO (List (String × String)) :=
  paths.filterMapM fun path => do
    return (← readText path).map (path, ·)

def writeContent (path : String) (content : Content) : IO Bool := do
  try
    match content with
    | .text s => IO.FS.writeFile path s
    | .binary words => IO.FS.writeBinFile path ⟨(Spirv.bytesOfWords words).toArray⟩
    return true
  catch _ => return false

/-- Writes files up to the first one that cannot be written. -/
def writeAll : List (String × Content) → IO (Option Failure)
  | [] => return none
  | (path, content) :: rest => do
    if ← writeContent path content then writeAll rest else return some (.write path)

def reportFailure (failure : Failure) : IO UInt32 := do
  IO.eprintln ("Error: " ++ failure.message)
  return 1

def runProgram (args : List String) : IO UInt32 := do
  match Options.parse args with
  | .error _ =>
    IO.eprintln ("usage: [--target NAME] [--output PATH] [--config PATH] [--opt-level 0..3]"
      ++ " [--validation LEVEL] [--emit-ir] [--dry-run] [--verbose] INPUT")
    return 2
  | .ok options =>
    let files ← readAll (options.input :: options.config.toList)
    let outcome := run options fun path => (files.find? (·.1 == path)).map (·.2)
    outcome.messages.forM (IO.eprintln ·)
    let written ← writeAll outcome.files
    IO.print outcome.printed
    match outcome.failure, written with
    | some failure, _ | none, some failure => reportFailure failure
    | none, none => return 0

end ShaderIR.CommandLine

def main (args : List String) : IO UInt32 := ShaderIR.CommandLine.runProgram args
