import BlockLang.Command.Arguments
import BlockLang.Shell

/-!
# The command

The command runs a file, or the shell when no file is named.  A file is run as a
whole: it is read and parsed, then its statements are evaluated, and only when all
of them have values are those of its expressions printed.
-/

namespace BlockLang

/-- How the command ends: with an exit code, or with something that it does not settle. -/
inductive Ending where
  | exit (code : Int)
  | passes (x : Raised)
  deriving Repr, DecidableEq

/-- What the command does: what it prints, what it prints on the error channel, and how it
ends. -/
structure Outcome where
  log : List Event := []
  complaint : String := ""
  ending : Ending
  deriving Repr, DecidableEq

namespace Command

/-- How the command is used, in one line. -/
def usage : String :=
  "usage: kial [-h] [--infix] [--trace] [file]\n"

/-- How the command is used. -/
def helpText : String :=
  usage ++ "\n"
    ++ "positional arguments:\n"
    ++ "  file        file to interpret and run (if empty, goes to command-line mode)\n\n"
    ++ "options:\n"
    ++ "  -h, --help  show this help message and exit\n"
    ++ "  --infix     disable operator precedence: operations group to the right\n"
    ++ "  --trace     print tokens, trees and values as they are made"

/-- The complaint about arguments that cannot be understood. -/
def misuseText (message : String) : String :=
  usage ++ "kial: error: " ++ message ++ "\n"

/-- The ending that something settled by the console comes to. -/
def endingOf : Verdict → Ending
  | .suppressed => .exit 0
  | .exits => .exit 1
  | .passes (.exited code) => .exit (code.getD 0)
  | .passes x => .passes x

/-- Settles something that ended the work early. -/
def settle (console : Console) (x : Raised) : Outcome :=
  let (verdict, console) := console.settle x
  { log := console.log, ending := endingOf verdict }

/-- Reads and runs a file, and prints the values of its expressions. -/
def fileWork (content : FileContent) : SessionM Unit := do
  Session.load false content
  Session.run
  let values := (← get).values true
  Session.onConsole (fun c => values.foldl (fun c v => c.print (.value v)) c)

/-- **Runs a file.** -/
def runFile (path : String) (content : FileContent) (grouping : Grouping) (trace : Bool) : Outcome :=
  let session := Session.create { trace } path false grouping
  match StepM.runFrom (fileWork content) session with
  | (.ok (), session) => { log := session.console.log, ending := .exit 0 }
  | (.error e, session) => settle session.console e.raised

/-- A shell that has said its first words. -/
def openShell (grouping : Grouping) (trace : Bool) : Shell :=
  (Shell.start { trace } grouping).print (.text Shell.intro)

/-- The outcome of a shell that has come to its end. -/
def closeShell (reply : Reply) (sh : Shell) : Outcome :=
  let console := sh.session.console
  match reply with
  | .goesOn | .ignored | .stops => { log := console.log, ending := .exit 0 }
  | .exits => { log := console.log, ending := .exit 1 }
  | .passes x => settle console x

/-- **Runs the shell** on the given lines. -/
def runShell (lines : List String) (grouping : Grouping) (trace : Bool) : Outcome :=
  let (reply, sh) := (openShell grouping trace).loop lines
  closeShell reply sh

/-- **The command**, given its arguments, the files that it can read, and the lines of its
input. -/
def run (arguments : List String) (read : String → FileContent) (lines : List String) : Outcome :=
  match Request.ofArguments arguments with
  | .help => { log := [.text helpText], ending := .exit 0 }
  | .misuse message => { complaint := misuseText message, ending := .exit 2 }
  | .run (some path) grouping trace => runFile path (read path) grouping trace
  | .run none grouping trace => runShell lines grouping trace

end Command

end BlockLang
