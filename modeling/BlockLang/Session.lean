import BlockLang.Directory
import BlockLang.Eval
import BlockLang.Parser.Grammar
import BlockLang.Session.Chunk
import BlockLang.Session.Error
import BlockLang.Text.Lines
import BlockLang.Tree.Printer

/-!
# Sessions

A session runs source text against one root frame, so that names persist from one
text to the next.  Text is added first, which parses it and puts its statements
under its line number; running evaluates what is pending, in the order in which it
was added, and collects the values.

A text that does not parse is not pending.  A statement without a value ends the
run: its line is done with, and the lines after it stay pending.
-/

namespace BlockLang

/-- A parsed text that is yet to be run. -/
structure Pending where
  num : Int
  text : String
  stmts : List Tree
  deriving Repr

namespace Pending

/-- Puts a text among others; a line number that is there already keeps its place. -/
def put (p : Pending) : List Pending → List Pending
  | [] => [p]
  | q :: rest => if q.num = p.num then p :: rest else q :: put p rest

end Pending

/-- A session: the console, the path that its texts come from, how operations group, the scopes,
what is pending, and the statements evaluated so far with their values, the last at the end. -/
structure Session where
  console : Console
  path : String
  grouping : Grouping
  scopes : Scopes := .root
  pending : List Pending := []
  results : List (Tree × Value) := []
  deriving Repr

/-- A step of a session that may stop. -/
abbrev SessionM := StepM SessionError Session

namespace Session

/-- A change of the console. -/
def onConsole (f : Console → Console) : SessionM Unit :=
  modify fun s => { s with console := f s.console }

/-- The tokens of a text as a trace shows them, in the order in which they are parsed. -/
def shownTokens (text : String) (grouping : Grouping) : String :=
  let tokens := (TokenStream.ofSource text grouping).all
  " ".intercalate ((tokens.filter (fun t => !t.isWhitespace && t.kind != .eof)).map Token.display)

/-- Whether a block ends with a binding, so that its value is the unit. -/
def endsWithBinding (stmts : List Tree) : Bool :=
  stmts.getLast?.any Tree.isBinding

/-- The warning about a block that ends with a binding. -/
def bindingWarning (stmts : List Tree) : Report :=
  .remark [.plain "'", .snippet (Tree.block stmts).source,
    .plain "' ends with a binding, so its value is ()"]

/-- Traces a statement, and warns of the blocks in it that end with a binding. -/
def announce (stmt : Tree) (c : Console) : Console :=
  (stmt.blocks.filter endsWithBinding).foldl (fun c stmts => c.warn (bindingWarning stmts))
    (c.registerStep "tree" stmt.source)

/-- **Adds a text** under a line number.  It is parsed now and evaluated when the session runs. -/
def add (text : String) (num : Int) : SessionM Unit := do
  let s ← get
  onConsole (fun c => c.registerLine s.path text num)
  onConsole (fun c => c.registerStep "tokens" (shownTokens text s.grouping))
  match parseProgram text s.grouping with
  | .error fault => throw (.parse fault)
  | .ok stmts =>
    onConsole (fun c => stmts.foldl (fun c stmt => announce stmt c) c)
    modify fun s => { s with pending := Pending.put { num, text, stmts } s.pending }
    onConsole (fun c => c.removeLine s.path)

/-- Evaluates one statement in the root frame. -/
def runStatement (stmt : Tree) : SessionM Unit := do
  let (outcome, scopes) := StepM.runFrom (Eval.evaluate 0 stmt) (← get).scopes
  modify fun s => { s with scopes }
  match outcome with
  | .error fault => throw (.eval fault)
  | .ok value =>
    onConsole (fun c => c.registerStep "value" value.display)
    modify fun s => { s with results := s.results ++ [(stmt, value)] }

/-- Evaluates statements in order, up to the first without a value. -/
def runStatements : List Tree → SessionM Unit
  | [] => return ()
  | stmt :: stmts => do
    runStatement stmt
    runStatements stmts

/-- Runs one pending text.  It is no longer pending afterwards, however it ends. -/
def runText (p : Pending) : SessionM Unit := do
  let path := (← get).path
  onConsole (fun c => c.registerLine path p.text p.num)
  let outcome : Except SessionError Unit ←
    tryCatch (do return .ok (← runStatements p.stmts)) (fun e => return .error e)
  modify fun s => { s with pending := s.pending.filter (fun q => q.num != p.num) }
  match outcome with
  | .error e => throw e
  | .ok () => onConsole (fun c => c.removeLine path)

/-- Runs texts in order, up to the first that stops. -/
def runTexts : List Pending → SessionM Unit
  | [] => return ()
  | p :: ps => do
    runText p
    runTexts ps

/-- **Runs everything that is pending**, in the order in which it was added. -/
def run : SessionM Unit := do
  runTexts (← get).pending

/-- The values so far; with `exprsOnly` those of expressions alone. -/
def values (s : Session) (exprsOnly : Bool) : List Value :=
  (s.results.filter (fun (stmt, _) => !exprsOnly || stmt.isExpression)).map Prod.snd

/-- Takes the last value away and gives it. -/
def pop : SessionM Value := do
  let s ← get
  match s.results.getLast? with
  | none => throw .noResult
  | some (_, value) =>
    set { s with results := s.results.dropLast }
    return value

/-- Adds the chunks of a file. -/
def addChunks : List Chunk → SessionM Unit
  | [] => return ()
  | chunk :: chunks => do
    add chunk.text chunk.num
    addChunks chunks

/-- A session that has yet to be opened.  In an interactive session no error ends the program. -/
def create (console : Console) (path : String) (interactive : Bool) (grouping : Grouping) : Session :=
  let console := console.registerFile path
  { console := if interactive then { console with fatal := false } else console, path, grouping }

/-- **Opens a session**: reads the file that its path names and adds its chunks.  The interactive
path names no file, and only an interactive session may have it. -/
def load (interactive : Bool) (content : FileContent) : SessionM Unit := do
  let path := (← get).path
  if path = SessionError.interactivePath then
    if interactive then return () else throw .reservedPath
  else if path.toList.contains '\x00' then throw .nullInPath
  else
    match content with
    | .unreadable => throw (.unreadable path)
    | .bytes data =>
      match Text.decodeUtf8 data with
      | .error fault => throw (.notText fault)
      | .ok text => addChunks (Chunk.ofLines (Text.lines text))

end Session

end BlockLang
