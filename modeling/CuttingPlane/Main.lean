import CuttingPlane.CommandLine.Answer

/-!
# The program

Reads the arguments and the input file, and prints the answer.
-/

open CuttingPlane CuttingPlane.CommandLine

def readText? (path : String) : IO (Option String) := do
  try
    return some (← IO.FS.readFile path)
  catch _ =>
    return none

def printAnswer (answer : Answer) : IO UInt32 := do
  let errors ← IO.getStderr
  for line in answer.log do
    errors.putStrLn ("[" ++ line.severity.name ++ "] " ++ line.text)
  IO.print answer.output
  unless answer.report.isEmpty do
    errors.putStrLn answer.report
  return answer.code.toUInt32

def main (arguments : List String) : IO UInt32 := do
  match ({} : Settings).read arguments with
  | .error refusal => printAnswer refusal.answer
  | .ok settings =>
    let contents ← match settings.input with
      | none => pure none
      | some path => readText? path
    printAnswer (settings.answer contents)
