import BlockLang.Report.Style
import BlockLang.Text.Slice

/-!
# Reports

A report is what the user is told when something goes wrong: a message in which the
snippets of the user's own text are set apart, and the subject, the snippet at
fault, with the part of it that a caret line points at.
-/

namespace BlockLang

/-- A piece of a message: the program's words, or a snippet of the user's. -/
inductive Piece where
  | plain (s : String)
  | snippet (s : String)
  deriving Repr, DecidableEq

namespace Piece

/-- The text of a piece. -/
def content : Piece → String
  | plain s | snippet s => s

/-- A piece as it is shown. -/
def render (color : Bool) : Piece → String
  | plain s => s
  | snippet s => paint color .bold none s

end Piece

/-- What the user is told: the message, the subject with the part from `start` up to `stop` at
fault, whether a caret line may point there, whether the fault is the program's own, and whether
it is beyond repair. -/
structure Report where
  pieces : List Piece
  subject : String := ""
  start : Int := 0
  stop : Int := subject.length
  caret : Bool := true
  internal : Bool := false
  fatal : Bool := false
  deriving Repr, DecidableEq

namespace Report

/-- The first snippet of a message, or nothing. -/
def firstSnippet (pieces : List Piece) : String :=
  (pieces.findSome? (fun
    | .plain _ => none
    | .snippet s => some s)).getD ""

/-- A report whose subject is the first snippet of its message. -/
def saying (pieces : List Piece) : Report :=
  { pieces, subject := firstSnippet pieces }

/-- A report that points at nothing. -/
def remark (pieces : List Piece) : Report :=
  { saying pieces with caret := false }

/-- The report with the part at fault from `start` up to `stop`; a `stop` of `-1` is the end of the
subject. -/
def spanning (r : Report) (start stop : Int) : Report :=
  { r with start, stop := if stop = -1 then r.subject.length else stop }

/-- The message as bare text. -/
def message (r : Report) : String :=
  String.join (r.pieces.map Piece.content)

/-- The message as it is shown. -/
def render (color : Bool) (r : Report) : String :=
  String.join (r.pieces.map (Piece.render color))

/-- **The caret line.**  The subject with the part at fault set apart, and a line that points at
it.  At least one place is pointed at. -/
def diagnose (color : Bool) (hue : Hue) (r : Report) : String :=
  let stop := max r.stop (r.start + 1)
  "  " ++ Text.sliceTo r.subject r.start
    ++ paint color .bold hue (Text.slice r.subject r.start stop)
    ++ Text.sliceFrom r.subject stop ++ "\n"
    ++ "  " ++ Text.copies r.start ' '
    ++ paint color .bold hue ("^" ++ Text.copies (stop - r.start - 1) '~')

/-- Whether the caret line is shown: there is a subject to point at, the report allows it, and the
fault is the user's. -/
def showsCaret (r : Report) : Bool :=
  !r.internal && r.subject != "" && r.caret

end Report

end BlockLang
