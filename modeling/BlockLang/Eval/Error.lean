import BlockLang.Report
import BlockLang.Scopes
import BlockLang.Tree

/-!
# Evaluation errors

Why a tree has no value, and what the user is told of it.
-/

namespace BlockLang

/-- Why a tree has no value: a name without a binding, an operation that its operands do not have,
a result out of range, a division by zero, or an object that is no part of the language. -/
inductive EvalError where
  | unbound (name : String)
  | unsupported (left : Value) (op : Operator) (right : Value)
  | overflow (left : Int) (op : Operator) (right : Int)
  | divisionByZero (left right : Int)
  | notEvaluable (kind : String)
  deriving Repr, DecidableEq

namespace EvalError

/-- A message about an operation and its operands. -/
def aboutOperation (lead left op right : String) : Report :=
  .remark [.plain lead, .snippet left, .plain " ", .snippet op, .plain " ", .snippet right]

/-- The error as the user is told of it.  Only a division by zero is beyond repair. -/
def report : EvalError → Report
  | unbound x => .remark [.plain "binding does not exist: ", .snippet x]
  | unsupported l op r => aboutOperation "unsupported operation: " l.display op.sign r.display
  | overflow l op r => aboutOperation "integer overflow: " (toString l) op.sign (toString r)
  | divisionByZero l r =>
    { Report.remark [.plain "division by zero: ", .snippet (toString l), .plain " / ",
        .snippet (toString r)] with fatal := true }
  | notEvaluable kind =>
    { Report.saying [.plain "cannot evaluate '", .plain kind, .plain "'"] with internal := true }

/-- The message as bare text. -/
def message (e : EvalError) : String :=
  e.report.message

end EvalError

/-- Why evaluation stops: an error of the program that is run, or scopes that are not as they
should be. -/
inductive EvalFault where
  | error (e : EvalError)
  | scope (fault : ScopeFault)
  deriving Repr, DecidableEq

end BlockLang
