import BlockLang.Parser.Grammar

/-!
# Parser scripts

A script is a parser as data: the primitives, the constructs of the grammar, and
their combination in sequence, with `attempt` and with `optional`.  `Step.run` turns
one into a parser.
-/

namespace BlockLang.Parser

/-- A class of tokens. -/
inductive TokenClass where
  | kinds (ks : List TokenKind)
  | operand
  | operator
  deriving Repr, DecidableEq

/-- Whether a token is of a class. -/
def TokenClass.holds : TokenClass → Token → Bool
  | kinds ks, t => ks.contains t.kind
  | operand, t => t.isOperand
  | operator, t => t.isOperator

/-- The constructs of the grammar that give a tree. -/
inductive Construct where
  | literal
  | usage
  | block
  | atom
  | chainExpr
  | foldExpr
  | expr
  | binding
  | assignment
  | exprStatement
  | statement
  deriving Repr, DecidableEq

/-- The parser of a construct. -/
def Construct.parser : Construct → ParseM Tree
  | literal => Parser.literal
  | usage => Parser.usage
  | block => Parser.block Parser.statement
  | atom => Parser.atom Parser.statement
  | chainExpr => Parser.chainExpr Parser.statement
  | foldExpr => Parser.foldExpr Parser.statement
  | expr => Parser.expr Parser.statement
  | binding => Parser.binding Parser.statement
  | assignment => Parser.assignment Parser.statement
  | exprStatement => Parser.exprStatement Parser.statement
  | statement => Parser.statement

/-- One step of a script. -/
inductive Step where
  | tag (kind : TokenKind) (skipBlanks : Bool)
  | takeOne (cls : TokenClass) (want : Expectation)
  | takeWhile (cls : TokenClass)
  | takeBlanks
  | identifier
  | peekNext (skipBlanks : Bool)
  | advance
  | atEnd
  | record (template : String) (position : Option Int)
  | operator
  | construct (c : Construct)
  | sequence (steps : List Step)
  | attempt (steps : List Step)
  | optional (steps : List Step)
  deriving Repr

/-- What a step answers. -/
inductive Answer where
  | token (t : Option Token)
  | tokens (ts : List Token)
  | flag (b : Bool)
  | message (s : String)
  | operator (op : Operator)
  | tree (t : Tree)
  | absent
  | several (answers : List Answer)
  deriving Repr

mutual

/-- The parser of a step. -/
def Step.run : Step → ParseM Answer
  | .tag kind skipBlanks => do return .token (some (← Parser.tag kind skipBlanks))
  | .takeOne cls want => do return .token (some (← Parser.takeOne cls.holds want))
  | .takeWhile cls => do return .tokens (← Parser.takeWhile cls.holds)
  | .takeBlanks => do return .tokens (← Parser.takeBlanks)
  | .identifier => do return .token (some (← Parser.identifier))
  | .peekNext skipBlanks => do return .token (← Parser.peekNext skipBlanks)
  | .advance => do return .token (← Parser.advance)
  | .atEnd => do return .flag (← Parser.atEnd)
  | .record template position => do
    match Report.ofTemplate template [""] with
    | .error fault => throw (.badTemplate fault)
    | .ok report =>
      return .message (← Parser.record (.custom report) position).problem.report.message
  | .operator => do return .operator (← Parser.operator)
  | .construct c => do return .tree (← c.parser)
  | .sequence steps => do return .several (← runSteps steps)
  | .attempt steps => do return .several (← Parser.attempt (runSteps steps))
  | .optional steps => do
    match ← Parser.optional (runSteps steps) with
    | some answers => return .several answers
    | none => return .absent

/-- The parser of a list of steps, which stops at the first that does not succeed. -/
def runSteps : List Step → ParseM (List Answer)
  | [] => return []
  | step :: steps => do
    let answer ← step.run
    return answer :: (← runSteps steps)

end

end BlockLang.Parser
