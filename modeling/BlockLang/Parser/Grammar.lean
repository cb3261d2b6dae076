import BlockLang.Parser.Cursor
import BlockLang.Tree
import BlockLang.Value

/-!
# The grammar

One parser for each construct of the language.  A statement is a binding, an
assignment or an expression, tried in that order from the same place; if none of
them fits, the failure that got furthest is the cause of the error.

Expressions are read in two ways.  Where operators group by precedence, the stream
has them behind their operands, and `foldExpr` folds a run of operands and operators
with a stack.  Otherwise `chainExpr` reads `<atom> <op> <expr>`, which groups to the
right.

Blocks hold statements, and statements hold blocks.  The parsers here take the
statement parser as an argument, and `statementAt` ties the knot: its argument
bounds the depth of blocks.
-/

namespace BlockLang

namespace Parser

/-- The number that digits stand for. -/
def numeral (digits : String) : Nat :=
  digits.toList.foldl (fun n d => 10 * n + (d.toNat - '0'.toNat)) 0

/-- Whether a string token has its closing quote. -/
def isTerminated (text : String) : Bool :=
  2 ≤ text.length && text.toList.getLast? == some '"'

/-- What stands between the quotes of a string token. -/
def unquote (text : String) : String :=
  String.ofList (text.toList.drop 1).dropLast

/-- Whether a kind of token is a literal. -/
def isLiteral (k : TokenKind) : Bool :=
  k = .string || k = .number

/-- A number or a string. -/
def literal : ParseM Tree := do
  let found ← peekNext
  match found.filter (fun t => isLiteral t.kind) with
  | none => reject (.expected (.phrase "literal") (found.map Token.kind))
  | some t =>
    let start ← position
    let t ← tag t.kind
    if t.kind = .string then
      if isTerminated t.text then return .text (unquote t.text)
      else reject (.unterminatedString t.text) (some start)
    else if maxDigits < t.text.length then
      throw (.digitLimit t.text.length)
    else if greatestNumber < numeral t.text then
      reject (.numberTooLarge t.text) (some start)
    else
      return .number (numeral t.text)

/-- The use of a name. -/
def usage : ParseM Tree := do
  return .name (← identifier).text

/-- The statements of a block, up to the first that does not fit. -/
def blockItems (statement : ParseM Tree) : Nat → ParseM (List Tree)
  | 0 => throw .outOfSteps
  | fuel + 1 => do
    match ← peekNext with
    | none => return []
    | some t =>
      if t.kind = .closeBrace || t.kind = .eof then return []
      else
        match ← optional statement with
        | none => return []
        | some stmt => return stmt :: (← blockItems statement fuel)

/-- Takes the brace that closes a block.  If something else stands there, the failure that got
furthest since `start` says why. -/
def closeBlock (start : Nat) : ParseM Unit := do
  match ← trial (tag .closeBrace) with
  | .ok _ => return ()
  | .error e => throw (.refused (← bestError e [] start))

/-- Statements between braces. -/
def block (statement : ParseM Tree) : ParseM Tree := do
  let _ ← tag .openBrace
  let start ← position
  let stmts ← blockItems statement ((← capacity) + 1)
  closeBlock start
  return .block stmts

/-- A literal, a name or a block. -/
def atom (statement : ParseM Tree) : ParseM Tree := do
  let found ← peekNext
  match found.map Token.kind with
  | some .string | some .number => literal
  | some .ident => usage
  | some .openBrace => block statement
  | kind => reject (.expected (.phrase "expression") kind)

/-- An operator. -/
def operator : ParseM Operator := do
  let found ← peekNext
  match found.filter Token.isOperator with
  | none => reject (.expected (.phrase "operator") (found.map Token.kind))
  | some t =>
    match Operator.ofKind? t.kind with
    | none => reject (.unsupportedOperator t.text t.kind)
    | some op =>
      let _ ← tag t.kind
      return op

/-- An expression with its operators between their operands, grouped to the right. -/
def chainItems (statement : ParseM Tree) : Nat → ParseM Tree
  | 0 => throw .outOfSteps
  | fuel + 1 => do
    let left ← atom statement
    let found ← peekNext
    if found.any Token.isOperator then
      let op ← operator
      let right ← chainItems statement fuel
      return .operation left right op
    else return left

/-- An expression with its operators between their operands, grouped to the right. -/
def chainExpr (statement : ParseM Tree) : ParseM Tree := do
  chainItems statement ((← capacity) + 1)

/-- A stack of operands, the last in front, and the place where it last held exactly one, with
that one. -/
structure Folded where
  stack : List Tree := []
  single : Option (Nat × Tree) := none

/-- Notes the place if the stack holds exactly one expression. -/
def Folded.settle (stack : List Tree) (single : Option (Nat × Tree)) : ParseM Folded := do
  match stack with
  | [e] => return { stack, single := some (← position, e) }
  | _ => return { stack, single }

/-- Whether the next tokens begin a new statement where an operand could stand. -/
def startsStatement (stack : List Tree) : ParseM Bool := do
  if stack.isEmpty then return false else onStream TokenStream.startsAssignment

/-- Folds operands and operators until a token comes that is neither, or a new statement begins. -/
def foldItems (statement : ParseM Tree) : Nat → Folded → ParseM Folded
  | 0, _ => throw .outOfSteps
  | fuel + 1, folded => do
    match ← peekNext with
    | none => return folded
    | some t =>
      if t.isOperand || t.kind = .openBrace then
        if ← startsStatement folded.stack then return folded
        else
          let e ← attempt (atom statement)
          foldItems statement fuel (← Folded.settle (e :: folded.stack) folded.single)
      else if t.isOperator then
        let start ← position
        let op ← operator
        match folded.stack with
        | right :: left :: rest =>
          foldItems statement fuel
            (← Folded.settle (.operation left right op :: rest) folded.single)
        | _ => reject (.missingOperand op.sign t.kind) (some start)
      else return folded

/-- **An expression with its operators behind their operands.**  If more than one expression is
left on the stack, the parser moves back to where there was exactly one, so that the others are
read as statements of their own. -/
def foldExpr (statement : ParseM Tree) : ParseM Tree := do
  let folded ← foldItems statement ((← capacity) + 1) {}
  match folded.stack with
  | [] => reject (.expected (.phrase "expression") ((← peekNext).map Token.kind))
  | [e] => return e
  | _ =>
    match folded.single with
    | none => throw .lostPlace
    | some (mark, e) =>
      rewind mark
      return e

/-- An expression, read as the cursor's grouping asks. -/
def expr (statement : ParseM Tree) : ParseM Tree := do
  match (← get).grouping with
  | .byPrecedence => foldExpr statement
  | .rightward => chainExpr statement

/-- `let <name> ;` or `let <name> = <expr> ;`. -/
def binding (statement : ParseM Tree) : ParseM Tree := do
  let _ ← tag .letWord
  let name ← identifier
  let found ← peekNext
  if found.any (fun t => t.kind = .semi) then
    let _ ← tag .semi
    return .declaration name.text
  else
    let _ ← tag .equals
    let value ← expr statement
    let _ ← tag .semi
    return .initialization name.text value

/-- `<name> = <expr> ;`. -/
def assignment (statement : ParseM Tree) : ParseM Tree := do
  let name ← identifier
  let _ ← tag .equals
  let value ← expr statement
  let _ ← tag .semi
  return .assignment name.text value

/-- An expression, with `;` after it or not. -/
def exprStatement (statement : ParseM Tree) : ParseM Tree := do
  let e ← expr statement
  let _ ← optional (tag .semi)
  return e

/-- Runs parsers from the same place until one succeeds; otherwise gives their errors. -/
def firstOf : List (ParseM Tree) → ParseM (Except (List ParseError) Tree)
  | [] => return .error []
  | p :: ps => do
    match ← trial p with
    | .ok t => return .ok t
    | .error e =>
      match ← firstOf ps with
      | .ok t => return .ok t
      | .error es => return .error (e :: es)

/-- **A statement**: a binding, an assignment or an expression, tried in that order.  An
assignment is tried only where `<name> =` comes next.  That a binding lacks its `let` is the least
useful error, so it comes last among equals. -/
def statementWith (statement : ParseM Tree) : ParseM Tree := do
  let start ← position
  let assigns ← onStream TokenStream.startsAssignment
  match ← trial (binding statement) with
  | .ok t => return t
  | .error bindingError =>
    let others := if assigns then [assignment statement, exprStatement statement]
      else [exprStatement statement]
    match ← firstOf others with
    | .ok t => return t
    | .error errors =>
      let best ←
        match errors with
        | [] => bestError bindingError [] start
        | e :: es => bestError e (es ++ [bindingError]) start
      throw (.refused (.malformed best))

/-- A statement with at most `depth` blocks inside each other, less one. -/
def statementAt : Nat → ParseM Tree
  | 0 => throw .outOfSteps
  | depth + 1 => statementWith (statementAt depth)

/-- A statement. -/
def statement : ParseM Tree := do
  statementAt ((← capacity) + 1)

/-- Statements up to the end of the input.  Each starts with no failures recorded. -/
def statements : Nat → ParseM (List Tree)
  | 0 => throw .outOfSteps
  | fuel + 1 => do
    if ← atEnd then return []
    else
      modify fun c => { c with failures := [] }
      let stmt ← statement
      return stmt :: (← statements fuel)

/-- A whole program. -/
def program : ParseM (List Tree) := do
  statements ((← capacity) + 1)

end Parser

/-- The first statement of a source.  What follows it is left alone. -/
def parse (source : String) (grouping : Grouping) : Except Fault Tree :=
  (StepM.runFrom Parser.statement (.ofSource source grouping)).1

/-- The statements of a source. -/
def parseProgram (source : String) (grouping : Grouping) : Except Fault (List Tree) :=
  (StepM.runFrom Parser.program (.ofSource source grouping)).1

end BlockLang
