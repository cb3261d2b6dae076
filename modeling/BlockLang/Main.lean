import BlockLang.Command

/-!
# The program

Reads arguments, files and lines, and prints what the command says.
-/

namespace BlockLang.Program

/-- Prints events. -/
def printEvents (color : Bool) (events : List Event) : IO Unit := do
  let out ← IO.getStdout
  out.putStr (String.join (events.map (Event.render color)))
  out.flush

/-- What can be read under a path. -/
def readContent (path : String) : IO FileContent := do
  try
    return .bytes (← IO.FS.readBinFile path)
  catch _ =>
    return .unreadable

/-- Prints an outcome and gives the exit code. -/
def conclude (color : Bool) (outcome : Outcome) : IO UInt32 := do
  printEvents color outcome.log
  (← IO.getStderr).putStr outcome.complaint
  match outcome.ending with
  | .exit code => return code.toNat.toUInt32
  | .passes _ => return 1

/-- The shell without what it has printed. -/
def withoutLog (sh : Shell) : Shell :=
  { sh with session := { sh.session with console := { sh.session.console with log := [] } } }

/-- Prompts for lines and answers them until the shell stops. -/
partial def interact (color : Bool) (sh : Shell) : IO UInt32 := do
  printEvents color (sh.print (.prompt sh.prompt.display)).session.console.log
  let line ← (← IO.getStdin).getLine
  let line := if line.isEmpty then "EOF" else line
  match (withoutLog sh).command line with
  | (.goesOn, sh) | (.ignored, sh) => interact color sh
  | (reply, sh) => conclude color (Command.closeShell reply sh)

end BlockLang.Program

open BlockLang in
/-- Runs the command. -/
def main (arguments : List String) : IO UInt32 := do
  let color ← (← IO.getStdout).isTty
  match Request.ofArguments arguments with
  | .run none grouping trace => Program.interact color (Command.openShell grouping trace)
  | .run (some path) grouping trace =>
    Program.conclude color (Command.runFile path (← Program.readContent path) grouping trace)
  | _ => Program.conclude color (Command.run arguments (fun _ => .unreadable) [])
