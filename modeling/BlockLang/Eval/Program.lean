import BlockLang.Eval
import BlockLang.Parser.Grammar

/-!
# Running a source

A source is parsed as a whole and then evaluated statement by statement in the root
frame, up to the first statement without a value.  A source that does not parse
changes nothing.
-/

namespace BlockLang

/-- Why a source is not run to its end. -/
inductive ProgramFault where
  | parse (fault : Fault)
  | eval (fault : EvalFault)
  deriving Repr, DecidableEq

/-- What a source comes to: the values of its statements, why it was not run to its end if it was
not, and the scopes afterwards. -/
structure ProgramRun where
  values : List Value
  fault : Option ProgramFault
  scopes : Scopes
  deriving Repr, DecidableEq

namespace ProgramRun

/-- Evaluates statements in order, up to the first without a value. -/
def ofStatements (s : Scopes) : List Tree → ProgramRun
  | [] => { values := [], fault := none, scopes := s }
  | stmt :: stmts =>
    match StepM.runFrom (Eval.evaluate 0 stmt) s with
    | (.error fault, s) => { values := [], fault := some (.eval fault), scopes := s }
    | (.ok v, s) =>
      let rest := ofStatements s stmts
      { rest with values := v :: rest.values }

/-- Runs a source. -/
def ofSource (s : Scopes) (grouping : Grouping) (source : String) : ProgramRun :=
  match parseProgram source grouping with
  | .error fault => { values := [], fault := some (.parse fault), scopes := s }
  | .ok stmts => ofStatements s stmts

end ProgramRun

end BlockLang
