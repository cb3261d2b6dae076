import BlockLang.Parser.Failure
import BlockLang.Report.Template
import BlockLang.Step
import BlockLang.Token.Stream

/-!
# The parser's cursor

A parser moves a cursor over a token stream.  It either succeeds or refuses the
input, and what it did to the cursor stays done in both cases: only `attempt` and
`optional` move the cursor back.  Every failure on the way is recorded, whether the
parser recovers from it or not, so that in the end the one that got furthest can be
reported.

The primitives here take tokens one at a time.  `takeOne` and `tag` leave the cursor
where it was when they refuse, blanks included.
-/

namespace BlockLang

/-- A place in a token stream, how operations group in it, and the failures recorded so far, the
last in front. -/
structure Cursor where
  stream : TokenStream
  grouping : Grouping
  failures : List Failure := []
  deriving Repr, DecidableEq

namespace Cursor

/-- A cursor at the start of a source. -/
def ofSource (source : String) (grouping : Grouping) : Cursor :=
  { stream := .ofSource source grouping, grouping }

/-- The failure that got furthest. -/
def furthest (c : Cursor) : Option Failure :=
  Failure.furthest c.failures

end Cursor

/-- Why a parser stops: it refuses the input, a number has more digits than are read, a failure
is to be recorded under a template that makes no message, the cursor is to be moved to a place it
has not seen, an expression has no place to go back to, or the bound on the parser's steps is
reached. -/
inductive Fault where
  | refused (e : ParseError)
  | digitLimit (digits : Nat)
  | badTemplate (fault : TemplateFault)
  | invalidMark (mark : Int)
  | lostPlace
  | outOfSteps
  deriving Repr, DecidableEq

/-- The largest count of digits that is read as a number. -/
def maxDigits : Nat :=
  4300

namespace Fault

/-- Why a parser stops, as text. -/
def message : Fault → String
  | refused e => e.message
  | digitLimit digits =>
    "Exceeds the limit (" ++ toString maxDigits ++ " digits) for integer string conversion: value has "
      ++ toString digits ++ " digits; use sys.set_int_max_str_digits() to increase the limit"
  | badTemplate fault => fault.message
  | invalidMark mark => TokenStream.refusedMessage mark
  | lostPlace => "no place to go back to"
  | outOfSteps => "out of steps"

/-- The kind that a fault is reported under where it is unexpected. -/
def kind : Fault → String
  | badTemplate fault => fault.kind
  | _ => "ValueError"

end Fault

/-- A parser: a step on the cursor that may stop. -/
abbrev ParseM := StepM Fault Cursor

namespace Parser

/-- An operation on the stream under the cursor. -/
def onStream {α : Type} (f : TokenStream → α × TokenStream) : ParseM α :=
  modifyGet fun ⟨stream, grouping, failures⟩ =>
    match f stream with
    | (a, stream) => (a, ⟨stream, grouping, failures⟩)

/-- The index of the next token. -/
def position : ParseM Nat := do
  return (← get).stream.pos

/-- A bound on the number of tokens in the stream. -/
def capacity : ParseM Nat := do
  return (← get).stream.capacity

/-- The next token, or the next that is no blank. -/
def peekNext (skipBlanks : Bool := true) : ParseM (Option Token) :=
  onStream (fun s => if skipBlanks then s.peekSignificant else s.peek 0)

/-- Steps over the next token. -/
def advance : ParseM (Option Token) :=
  onStream TokenStream.next

/-- Moves back to a place already seen. -/
def rewind (mark : Nat) : ParseM Unit := do
  let c ← get
  match c.stream.reset mark with
  | some stream => set { c with stream }
  | none => throw (.invalidMark mark)

/-- Records a failure at a given token, or at the next one. -/
def record (problem : Problem) (at? : Option Int) : ParseM Failure := do
  let here ← position
  let failure : Failure := { problem, position := at?.getD here }
  modify fun c => { c with failures := failure :: c.failures }
  return failure

/-- Records a failure and refuses the input. -/
def reject {α : Type} (problem : Problem) (at? : Option Int := none) : ParseM α := do
  throw (.refused (.failed (← record problem at?)))

/-- Takes tokens while they satisfy `p`, at most `fuel` of them. -/
def takeSome (p : Token → Bool) : Nat → ParseM (List Token)
  | 0 => return []
  | fuel + 1 => do
    match ← peekNext false with
    | none => return []
    | some t =>
      if p t then
        let _ ← advance
        return t :: (← takeSome p fuel)
      else return []

/-- Takes tokens while they satisfy `p`. -/
def takeWhile (p : Token → Bool) : ParseM (List Token) := do
  takeSome p ((← capacity) + 1)

/-- Takes the blanks that come next. -/
def takeBlanks : ParseM (List Token) :=
  takeWhile Token.isWhitespace

/-- **One token.**  Takes the next token if it satisfies `p`, after the blanks in front of it.
Otherwise it refuses, at the token that it found, and takes nothing. -/
def takeOne (p : Token → Bool) (want : Expectation) (skipBlanks : Bool := true) : ParseM Token := do
  let mark ← position
  if skipBlanks then
    let _ ← takeBlanks
  let found ← peekNext false
  match found.filter p with
  | some t =>
    let _ ← advance
    return t
  | none =>
    let here ← position
    rewind mark
    reject (.expected want (found.map Token.kind)) (some here)

/-- Takes the next token if it is of the given kind. -/
def tag (kind : TokenKind) (skipBlanks : Bool := true) : ParseM Token :=
  takeOne (fun t => t.kind = kind) (.kind kind) skipBlanks

/-- Takes a name. -/
def identifier : ParseM Token :=
  tag .ident

/-- Runs a parser, and moves back to where it started if it refuses. -/
def attempt {α : Type} (p : ParseM α) : ParseM α := do
  let mark ← position
  tryCatch p fun
    | .refused e => do
      rewind mark
      throw (.refused e)
    | fault => throw fault

/-- Runs a parser as `attempt` does, and takes its error for an answer. -/
def trial {α : Type} (p : ParseM α) : ParseM (Except ParseError α) :=
  tryCatch (do return .ok (← attempt p)) fun
    | .refused e => return .error e
    | fault => throw fault

/-- Runs a parser as `attempt` does, and takes its refusal for an absence. -/
def optional {α : Type} (p : ParseM α) : ParseM (Option α) := do
  match ← trial p with
  | .ok a => return some a
  | .error _ => return none

/-- Whether only blanks and the end mark are left. -/
def atEnd : ParseM Bool := do
  match ← peekNext with
  | none => return true
  | some t => return t.kind = .eof

/-- **The error to report.**  Of the given errors and the furthest failure recorded at `start` or
later, the one that got furthest; of those, the one that comes first. -/
def bestError (e : ParseError) (others : List ParseError) (start : Nat) : ParseM ParseError := do
  let recorded := (← get).furthest.filter (fun f => (start : Int) ≤ f.position)
  return e.furthestOf (others ++ (recorded.map ParseError.failed).toList)

end Parser

end BlockLang
