import CallScript.Console

/-!
# The command line

With the path of a file as its argument the command runs the program in it. Without one it holds a
session with standard input, and shows the answer to each line before it reads the next.
-/

namespace CallScript.Console

/-- A bound on evaluation that no machine reaches. -/
def unreachableBound : Nat := 10 ^ 18

def giveUp : IO UInt32 := do
  (← IO.getStderr).putStrLn "Evaluation has reached its bound"
  return 1

def deliver (report : Report) : IO UInt32 := do
  (← IO.getStdout).putStr report.output
  (← IO.getStderr).putStr report.errors
  return report.status.toUInt32

def readFile? (path : String) : IO (Option ByteArray) := do
  try
    return some (← IO.FS.readBinFile path)
  catch _ =>
    return none

/-- Answers the lines of an input until one quits or none is left. -/
partial def converse (input output : IO.FS.Stream) (session : Session) : IO UInt32 := do
  let line ← input.getLine
  match if line.isEmpty then .quit else Request.ofLine (edited line) with
  | .quit =>
    output.putStr (unlines farewell)
    return 0
  | request =>
    match session.answer unreachableBound request with
    | none => giveUp
    | some (next, lines) =>
      output.putStr (unlines lines)
      output.flush
      converse input output next

end CallScript.Console

open CallScript.Console in
/-- Runs the file that the first argument names, or else a session. -/
def main (args : List String) : IO UInt32 := do
  match args with
  | path :: _ =>
    match runFile unreachableBound path (← readFile? path) with
    | none => giveUp
    | some report => deliver report
  | [] =>
    let output ← IO.getStdout
    output.putStr (unlines banner)
    output.flush
    converse (← IO.getStdin) output .start
