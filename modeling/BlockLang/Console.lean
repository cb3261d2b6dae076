import BlockLang.Report
import BlockLang.Value

/-!
# The console

The console is where the user is told things.  It knows which files are being
worked on and which line of each, so that a report can say where it comes from; it
counts the errors; and it keeps everything that was printed, as a list of events.
`Event.render` gives the text of an event, with colour or without.

`Console.settle` decides what becomes of whatever ends a piece of work early: an
error of the language is reported, and the work is given up or the program exits;
anything unexpected is reported as an error of the program's own and passed on.
-/

namespace BlockLang

/-- A file, and the line of it that is being worked on with the line's number. -/
structure Site where
  path : String
  line : Option (String × Int) := none
  deriving Repr, DecidableEq

/-- Something printed. -/
inductive Event where
  | step (label content : String)
  | warning (location : String) (report : Report)
  | error (sites : List Site) (report : Report)
  | value (v : Value)
  | text (s : String)
  | prompt (s : String)
  deriving Repr, DecidableEq

namespace Event

/-- A text with blanks in front of it up to a width. -/
def alignRight (width : Nat) (s : String) : String :=
  Text.copies ((width : Int) - s.length) ' ' ++ s

/-- The caret line of a report and a line end, if it is shown. -/
def caretLine (color : Bool) (hue : Hue) (r : Report) : String :=
  if r.showsCaret then r.diagnose color hue ++ "\n" else ""

/-- The lines that are being worked on, each under its file and number; a line without text is
left out. -/
def siteLines (sites : List Site) : List String :=
  sites.filterMap fun site =>
    match site.line with
    | some (line, num) =>
      if line = "" then none
      else some ("  File '" ++ site.path ++ "', line " ++ toString num ++ ":\n    " ++ line ++ "\n")
    | none => none

/-- Where an error comes from.  More than one line makes a traceback. -/
def traceback (sites : List Site) : String :=
  let lines := siteLines sites
  (if 1 < lines.length then "Traceback:\n" else "") ++ String.join lines

/-- The text of an event. -/
def render (color : Bool) : Event → String
  | step label content =>
    paint color .bold (some .cyan) (alignRight 6 label ++ " ") ++ paint color .dark none content
      ++ "\n"
  | warning location r =>
    paint color .bold none location ++ paint color .bold (some .magenta) "warning: "
      ++ r.render color ++ "\n" ++ caretLine color .magenta r
  | error sites r =>
    traceback sites
      ++ (if r.internal then paint color .bold (some .red) "[internal] " else "")
      ++ paint color .bold (some .red) (if r.fatal then "fatal error: " else "error: ")
      ++ r.render color ++ "\n" ++ caretLine color .red r
  | value v => v.display ++ "\n"
  | text s => s ++ "\n"
  | prompt s => s

end Event

/-- The console: whether an error ends the program, whether steps are traced, the files being
worked on in the order of their registration, the number of errors, and what was printed. -/
structure Console where
  fatal : Bool := true
  trace : Bool := false
  sites : List Site := []
  errors : Nat := 0
  log : List Event := []
  deriving Repr, DecidableEq

/-- What ends a piece of work early: an error of the language, an interrupt, a nesting that is too
deep, an exit, or something unexpected of some kind. -/
inductive Raised where
  | reported (r : Report)
  | interrupted
  | tooDeep
  | exited (code : Option Int)
  | unexpected (kind text : String)
  deriving Repr, DecidableEq

/-- What becomes of it: the work is given up, the program exits, or it is passed on. -/
inductive Verdict where
  | suppressed
  | exits
  | passes (x : Raised)
  deriving Repr, DecidableEq

namespace Console

/-- Prints something. -/
def print (c : Console) (e : Event) : Console :=
  { c with log := c.log ++ [e] }

/-- Puts a site among others; a path that is there already keeps its place. -/
def setSite (site : Site) : List Site → List Site
  | [] => [site]
  | s :: rest => if s.path = site.path then site :: rest else s :: setSite site rest

/-- Registers a file with no line of it being worked on. -/
def registerFile (c : Console) (path : String) : Console :=
  { c with sites := setSite { path } c.sites }

/-- Registers the line of a file that is being worked on. -/
def registerLine (c : Console) (path line : String) (num : Int) : Console :=
  { c with sites := setSite { path, line := some (line, num) } c.sites }

/-- Says that a line of a file is done with. -/
def removeLine (c : Console) (path : String) : Console :=
  c.registerFile path

/-- Prints a step, if steps are traced. -/
def registerStep (c : Console) (label text : String) : Console :=
  if c.trace then c.print (.step label text) else c

/-- The file and line that was registered last, in front of a colon. -/
def location (c : Console) : String :=
  let found := c.sites.reverse.findSome? fun site =>
    site.line.map fun (_, num) => site.path ++ ":" ++ toString num ++ ": "
  found.getD ""

/-- Prints a warning. -/
def warn (c : Console) (r : Report) : Console :=
  c.print (.warning c.location r)

/-- Forgets the lines that are being worked on, and keeps the files. -/
def clearLines (c : Console) : Console :=
  { c with sites := c.sites.map fun site => { path := site.path } }

/-- **Reports an error.**  Says whether the program exits for it; if not, the lines that were being
worked on are forgotten. -/
def report (c : Console) (r : Report) : Bool × Console :=
  let c := { c.print (.error c.sites r) with errors := c.errors + 1 }
  if c.fatal then (true, c) else (false, c.clearLines)

/-- The report of what ends a piece of work early, if there is one. -/
def reportOf : Raised → Option Report
  | .reported r => some r
  | .interrupted => some (.saying [.plain "keyboard interrupt"])
  | .tooDeep =>
    some (.saying [.plain "maximum recursion depth exceeded (are blocks nested too deeply?)"])
  | .exited _ => none
  | .unexpected kind text =>
    some { Report.saying [.plain "unknown error: '", .snippet (kind ++ ": " ++ text), .plain "'"]
      with internal := true }

/-- Whether something is passed on after it was reported. -/
def passesOn : Raised → Bool
  | .exited _ | .unexpected .. => true
  | _ => false

/-- **Settles what ended a piece of work early.** -/
def settle (c : Console) (x : Raised) : Verdict × Console :=
  match reportOf x with
  | none => (.passes x, c)
  | some r =>
    match c.report r with
    | (true, c) => (.exits, c)
    | (false, c) => (if passesOn x then .passes x else .suppressed, c)

/-- The text of everything printed. -/
def transcript (c : Console) (color : Bool) : String :=
  String.join (c.log.map (Event.render color))

end Console

end BlockLang
