import BlockLang.Report
import BlockLang.Text.Quoted

/-!
# Templates

A message may come from a template.  In it `{}` stands for the next snippet, `{0}`
and `{1}` for a snippet by number, and `{{` and `}}` for single braces.

A template is filled from the left, and the first part of it that cannot be filled is
its fault: a brace that belongs to nothing, a number past the last snippet, or a
name, since snippets have none.  Holes with and without numbers do not go together:
the first hole decides which of the two a template has.
-/

namespace BlockLang

/-- Why a template makes no message. -/
inductive TemplateFault where
  | noSnippet (number : Nat)
  | noSubject
  | noName (name : String)
  | numberAfterBare
  | bareAfterNumber
  | numberTooLarge
  | loneOpening
  | loneClosing
  | openingInHole
  | unclosedHole
  deriving Repr, DecidableEq

namespace TemplateFault

/-- The complaint about a template. -/
def message : TemplateFault → String
  | noSnippet n => "Replacement index " ++ toString n ++ " out of range for positional args tuple"
  | noSubject => "list index out of range"
  | noName name => Text.quoted name
  | numberAfterBare =>
    "cannot switch from automatic field numbering to manual field specification"
  | bareAfterNumber =>
    "cannot switch from manual field specification to automatic field numbering"
  | numberTooLarge => "Too many decimal digits in format string"
  | loneOpening => "Single '" ++ String.ofList ['{'] ++ "' encountered in format string"
  | loneClosing => "Single '" ++ String.ofList ['}'] ++ "' encountered in format string"
  | openingInHole => "unexpected '" ++ String.ofList ['{'] ++ "' in field name"
  | unclosedHole => "expected '" ++ String.ofList ['}'] ++ "' before end of string"

/-- The kind that an unexpected fault is reported under. -/
def kind : TemplateFault → String
  | noSnippet _ | noSubject => "IndexError"
  | noName _ => "KeyError"
  | numberAfterBare | bareAfterNumber | numberTooLarge
  | loneOpening | loneClosing | openingInHole | unclosedHole => "ValueError"

end TemplateFault

/-- What a hole asks for: the next snippet, the snippet of a number, or something by name. -/
inductive HoleLabel where
  | bare
  | number (n : Nat)
  | name (s : String)
  deriving Repr, DecidableEq

namespace HoleLabel

/-- The number that decimal digits stand for. -/
def value (digits : List Char) : Nat :=
  digits.foldl (fun n d => 10 * n + (d.toNat - '0'.toNat)) 0

/-- What a hole with the given characters in it asks for. -/
def ofChars (cs : List Char) : HoleLabel :=
  if cs.isEmpty then bare
  else if cs.all Char.isDigit then number (value cs)
  else name (String.ofList cs)

end HoleLabel

/-- A part of a template: a character, a hole, or a place where the template is at fault. -/
inductive TemplatePart where
  | char (c : Char)
  | hole (label : HoleLabel)
  | fault (f : TemplateFault)
  deriving Repr, DecidableEq

namespace Template

/-- **The parts of a template**, up to its first fault.  `inside` holds the characters read since a
brace opened a hole. -/
def parts (inside : Option (List Char)) : List Char → List TemplatePart
  | [] => if inside.isSome then [.fault .unclosedHole] else []
  | c :: rest =>
    match inside with
    | some label =>
      if c = '}' then .hole (.ofChars label) :: parts none rest
      else if c = '{' then [.fault .openingInHole]
      else parts (some (label ++ [c])) rest
    | none =>
      if c = '{' then
        match rest with
        | [] => [.fault .loneOpening]
        | d :: rest =>
          if d = '{' then .char c :: parts none rest
          else parts (some []) (d :: rest)
      else if c = '}' then
        match rest with
        | d :: rest => if d = '}' then .char c :: parts none rest else [.fault .loneClosing]
        | [] => [.fault .loneClosing]
      else .char c :: parts none rest

/-- How the holes of a template are numbered: that is open before the first hole; holes without
numbers count on from the last one; and holes with numbers say it themselves. -/
inductive Numbering where
  | undecided
  | counting (next : Nat)
  | explicit
  deriving Repr, DecidableEq

/-- The largest number that a hole may have. -/
def greatestNumber : Nat :=
  9223372036854775807

/-- The number of the snippet that a hole asks for, and the numbering of the holes after it. -/
def Numbering.take : Numbering → HoleLabel → Except TemplateFault (Nat × Numbering)
  | _, .name s => throw (.noName s)
  | numbering, .number n =>
    if greatestNumber < n then throw .numberTooLarge
    else
      match numbering with
      | counting _ => throw .numberAfterBare
      | undecided | explicit => return (n, explicit)
  | undecided, .bare => return (0, counting 1)
  | counting next, .bare => return (next, counting (next + 1))
  | explicit, .bare => throw .bareAfterNumber

/-- The pieces of a template with its holes filled. -/
def fill (snippets : List String) : Numbering → List TemplatePart → Except TemplateFault (List Piece)
  | _, [] => return []
  | _, .fault f :: _ => throw f
  | numbering, .char c :: rest => do
    return .plain (String.singleton c) :: (← fill snippets numbering rest)
  | numbering, .hole label :: rest => do
    let (n, numbering) ← numbering.take label
    match snippets[n]? with
    | none => throw (.noSnippet n)
    | some s => return .snippet s :: (← fill snippets numbering rest)

end Template

/-- **A report from a template** and its snippets, the first of which is the subject. -/
def Report.ofTemplate (template : String) (snippets : List String) : Except TemplateFault Report := do
  let pieces ← Template.fill snippets .undecided (Template.parts none template.toList)
  match snippets with
  | [] => throw .noSubject
  | subject :: _ => return { pieces, subject }

/-- The kinds of reports. -/
inductive ReportKind where
  | general
  | parsing
  | evaluation
  | zeroDivision
  deriving Repr, DecidableEq

namespace ReportKind

/-- Whether reports of a kind point at their subject, unless they say otherwise. -/
def pointsByDefault : ReportKind → Bool
  | general | parsing => true
  | evaluation | zeroDivision => false

/-- Whether reports of a kind are beyond repair. -/
def isFatal : ReportKind → Bool
  | zeroDivision => true
  | _ => false

end ReportKind

/-- A report in the making.  Without snippets there is a single empty one. -/
structure Draft where
  kind : ReportKind := .general
  template : String
  snippets : Option (List String) := none
  start : Int := 0
  stop : Int := -1
  caret : Option Bool := none
  internal : Bool := false
  deriving Repr, DecidableEq

/-- The report that a draft describes. -/
def Draft.report (d : Draft) : Except TemplateFault Report := do
  let r ← Report.ofTemplate d.template (d.snippets.getD [""])
  return { r.spanning d.start d.stop with
    caret := d.caret.getD d.kind.pointsByDefault
    internal := d.internal
    fatal := d.kind.isFatal }

end BlockLang
