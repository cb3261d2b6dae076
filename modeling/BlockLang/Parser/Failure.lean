import BlockLang.Report
import BlockLang.Token

/-!
# Parse failures

A failure says what the parser found wrong and at which token.  A statement that no
alternative of the grammar fits is malformed, and its cause is the failure that got
furthest into the tokens.
-/

namespace BlockLang

/-- What the parser was looking for: a kind of token, or something it names by a phrase. -/
inductive Expectation where
  | kind (k : TokenKind)
  | phrase (s : String)
  deriving Repr, DecidableEq

namespace Expectation

/-- The expectation as messages name it. -/
def describe : Expectation → String
  | kind k => k.describe
  | phrase s => s

end Expectation

/-- What the parser found wrong. -/
inductive Problem where
  | expected (want : Expectation) (found : Option TokenKind)
  | unterminatedString (text : String)
  | numberTooLarge (text : String)
  | unsupportedOperator (text : String) (kind : TokenKind)
  | missingOperand (sign : String) (kind : TokenKind)
  | custom (report : Report)
  deriving Repr, DecidableEq

namespace Problem

/-- The problem as the user is told of it. -/
def report : Problem → Report
  | expected want none =>
    .remark [.plain "expected ", .snippet want.describe, .plain ", got none"]
  | expected want (some found) =>
    .remark [.plain "expected ", .snippet want.describe, .plain ", got ", .snippet found.describe]
  | unterminatedString text => .saying [.plain "unterminated string literal ", .snippet text]
  | numberTooLarge text =>
    .saying [.plain "number literal ", .snippet text, .plain " out of range"]
  | unsupportedOperator text _ => .saying [.plain "unsupported operator ", .snippet text]
  | missingOperand sign _ =>
    .saying [.plain "operator ", .snippet sign, .plain " is missing an operand"]
  | custom report => report

/-- What was looked for, where the problem is that something else was found. -/
def wanted : Problem → Option Expectation
  | expected want _ => some want
  | _ => none

/-- The kind of the token at fault, where there is one. -/
def found : Problem → Option TokenKind
  | expected _ found => found
  | unsupportedOperator _ kind | missingOperand _ kind => some kind
  | _ => none

end Problem

/-- A problem and the index of the token that it was found at. -/
structure Failure where
  problem : Problem
  position : Int
  deriving Repr, DecidableEq

/-- **The furthest failure** of a list that has the last failure in front: of those that got
furthest, the one that came first. -/
def Failure.furthest : List Failure → Option Failure
  | [] => none
  | last :: earlier =>
    match furthest earlier with
    | none => some last
    | some best => some (if best.position < last.position then last else best)

/-- Why a text is refused: a failure, or a malformed statement with its cause. -/
inductive ParseError where
  | failed (failure : Failure)
  | malformed (cause : ParseError)
  deriving Repr, DecidableEq

namespace ParseError

/-- The failure at the bottom of an error. -/
def failure : ParseError → Failure
  | failed f => f
  | malformed cause => cause.failure

/-- The index of the token at fault. -/
def position (e : ParseError) : Int :=
  e.failure.position

/-- What was looked for. -/
def wanted (e : ParseError) : Option Expectation :=
  e.failure.problem.wanted

/-- The kind of the token at fault. -/
def found (e : ParseError) : Option TokenKind :=
  e.failure.problem.found

/-- The error that this one was made from. -/
def cause? : ParseError → Option ParseError
  | failed _ => none
  | malformed cause => some cause

/-- The error as the user is told of it. -/
def report : ParseError → Report
  | failed f => f.problem.report
  | malformed cause => .remark [.plain "malformed statement: ", .snippet cause.report.message]

/-- The message as bare text. -/
def message (e : ParseError) : String :=
  e.report.message

/-- Of an error and others, the one that got furthest; of those, the one that comes first. -/
def furthestOf : ParseError → List ParseError → ParseError
  | best, [] => best
  | best, e :: rest => furthestOf (if best.position < e.position then e else best) rest

end ParseError

end BlockLang
