import BlockLang.Session

/-!
# The shell

The shell reads lines and answers each with a value or an error.  A line that leaves
a block open is kept, and the next line is put behind it; the prompt shows that more
is expected.  A few words alone on a line are commands of the shell.
-/

namespace BlockLang

/-- What the shell asks with: for a new text, or for more of one. -/
inductive Prompt where
  | primary
  | secondary
  deriving Repr, DecidableEq

namespace Prompt

/-- The text of a prompt. -/
def display : Prompt → String
  | primary => "> "
  | secondary => ". "

end Prompt

/-- A shell: its session, the text that is yet to be completed, the number of lines so far, and
the prompt. -/
structure Shell where
  session : Session
  partialText : String := ""
  lineNum : Nat := 0
  prompt : Prompt := .primary
  deriving Repr

/-- What a line comes to: the shell goes on, an empty line was ignored, the shell stops, the
program exits, or something unexpected is passed on. -/
inductive Reply where
  | goesOn
  | ignored
  | stops
  | exits
  | passes (x : Raised)
  deriving Repr, DecidableEq

namespace Shell

/-- The first words of the shell. -/
def intro : String :=
  "kial interpreter :: Python backend\nType '?' or 'help' for more information."

/-- What `help` says. -/
def helpText : String :=
  "Welcome to the kial interpreter!\n\n"
    ++ "kial is a small expression language with bindings, arithmetic, strings and \n"
    ++ "nested blocks. Every line is evaluated and its value printed; bindings \n"
    ++ "persist for the rest of the session.\n\n"
    ++ "Try it out by typing 'let a = 2;'. This will bind 2 to the name 'a'. Next, \n"
    ++ "try typing '" ++ String.ofList ['{'] ++ " let a = 3; a * 10 " ++ String.ofList ['}']
    ++ "'. This will give 30, while 'a' on its own \n"
    ++ "still gives 2."

/-- A shell on a fresh interactive session. -/
def start (console : Console) (grouping : Grouping) : Shell :=
  { session := .create console SessionError.interactivePath true grouping }

/-- Prints something. -/
def print (sh : Shell) (e : Event) : Shell :=
  { sh with session := { sh.session with console := sh.session.console.print e } }

/-- Adds and runs a text, and prints the last value. -/
def execute (text : String) (num : Int) : SessionM Unit := do
  Session.add text num
  Session.run
  if (← get).results.isEmpty then return ()
  else
    let value ← Session.pop
    Session.onConsole (fun c => c.print (.value value))

/-- Settles the outcome of a piece of work with the console. -/
def settle (sh : Shell) (outcome : Except SessionError Unit) (session : Session) : Reply × Shell :=
  match outcome with
  | .ok () => (.goesOn, { sh with session })
  | .error e =>
    let (verdict, console) := session.console.settle e.raised
    let sh := { sh with session := { session with console } }
    match verdict with
    | .suppressed => (.goesOn, sh)
    | .exits => (.exits, sh)
    | .passes x => (.passes x, sh)

/-- **Takes in a line of source.**  Gives the text that the line completes, if it completes one
that is not blank; a text that leaves a block open is kept. -/
def absorb (sh : Shell) (line : String) : Option String × Shell :=
  let (text, continues) := Chunk.readLine (sh.partialText ++ line)
  let lineNum := sh.lineNum + 1
  if continues then
    (none, { sh with partialText := text ++ "\n", lineNum, prompt := .secondary })
  else
    (if text = "" then none else some text,
      { sh with partialText := "", lineNum, prompt := .primary })

/-- **A line of source.**  The text that it completes is run. -/
def feed (sh : Shell) (line : String) : Reply × Shell :=
  match sh.absorb line with
  | (none, sh) => (.goesOn, sh)
  | (some text, sh) =>
    let (outcome, session) := StepM.runFrom (execute text sh.lineNum) sh.session
    sh.settle outcome session

/-- The characters of a command's name. -/
def isCommandChar (c : Char) : Bool :=
  c.isAlphanum || c = '_'

/-- `?` in front of a line is short for `help`. -/
def expandHelp (line : String) : String :=
  match line.toList with
  | '?' :: rest => "help " ++ String.ofList rest
  | _ => line

/-- **A line at the prompt.**  Blanks around it are dropped, and an empty line is ignored.  `help`,
`exit` and `EOF` are commands when they come first; with something behind them, `help` and `exit`
are names in a line of source. -/
def command (sh : Shell) (line : String) : Reply × Shell :=
  let line := Text.trim line
  if line = "" then (.ignored, sh)
  else
    let line := expandHelp line
    let word := String.ofList (line.toList.takeWhile isCommandChar)
    let alone := Text.trim (String.ofList (line.toList.dropWhile isCommandChar)) = ""
    if word = "help" then
      if alone then (.goesOn, sh.print (.text helpText)) else sh.feed line
    else if word = "exit" then
      if alone then (.stops, sh) else sh.feed line
    else if word = "EOF" then (.stops, sh.print (.text ""))
    else sh.feed line

/-- **The loop.**  Prompts for each line in turn until one stops the shell; where the lines end,
the line `EOF` is taken to follow. -/
def loop (sh : Shell) : List String → Reply × Shell
  | [] => (sh.print (.prompt sh.prompt.display)).command "EOF"
  | line :: lines =>
    match (sh.print (.prompt sh.prompt.display)).command line with
    | (.goesOn, sh) | (.ignored, sh) => sh.loop lines
    | reply => reply

end Shell

end BlockLang
