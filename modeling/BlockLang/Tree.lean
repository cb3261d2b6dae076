import BlockLang.Token.Resolver

/-!
# Trees

The tree of a statement:

    statement   ::= declaration | initialization | assignment | expression
    declaration ::= let name ;
    initialization ::= let name = expression ;
    assignment  ::= name = expression ;
    expression  ::= number | text | name | block | expression op expression
    block       ::= { statement* }

One type holds statements and expressions, since a block holds both; `Tree.isStatement`
says which trees the grammar has.  A `foreign` leaf stands for an object that is no
part of the language: it can be put into a tree, but not evaluated.
-/

namespace BlockLang

/-- The four operations. -/
inductive Operator where
  | add
  | sub
  | mul
  | div
  deriving Repr, DecidableEq, Inhabited

namespace Operator

/-- The sign of an operation. -/
def sign : Operator → String
  | add => "+"
  | sub => "-"
  | mul => "*"
  | div => "/"

/-- The operation that a kind of token stands for.  `%` is an operator without one. -/
def ofKind? : TokenKind → Option Operator
  | .plus => some add
  | .minus => some sub
  | .star => some mul
  | .slash => some div
  | _ => none

/-- How tightly an operation binds. -/
def precedence : Operator → Nat
  | add | sub => 1
  | mul | div => 2

/-- An operation binds as tightly as the token that stands for it. -/
theorem precedence?_eq_of_ofKind? {k : TokenKind} {op : Operator} (h : ofKind? k = some op) :
    k.precedence? = some op.precedence := by
  cases k <;> simp_all [ofKind?] <;> subst h <;> rfl

end Operator

/-- A statement, an expression, or a foreign object of some kind. -/
inductive Tree where
  | number (value : Int)
  | text (value : String)
  | name (name : String)
  | operation (left right : Tree) (op : Operator)
  | block (stmts : List Tree)
  | declaration (name : String)
  | initialization (name : String) (value : Tree)
  | assignment (name : String) (value : Tree)
  | foreign (kind : String)
  deriving Repr, Inhabited

namespace Tree

/-- Whether a tree is an expression, going by its root. -/
def isExpression : Tree → Bool
  | number _ | text _ | name _ | operation .. | block _ => true
  | _ => false

/-- Whether a tree binds or assigns a name. -/
def isBinding : Tree → Bool
  | declaration _ | initialization .. | assignment .. => true
  | _ => false

mutual

/-- Whether a tree is one of the grammar's: operands and values are expressions, and nothing in it
is foreign. -/
def isStatement : Tree → Bool
  | number _ | text _ | name _ | declaration _ => true
  | operation l r _ => l.isExpression && l.isStatement && r.isExpression && r.isStatement
  | block stmts => areStatements stmts
  | initialization _ value | assignment _ value => value.isExpression && value.isStatement
  | foreign _ => false

/-- Whether every tree of a list is one of the grammar's. -/
def areStatements : List Tree → Bool
  | [] => true
  | t :: ts => t.isStatement && areStatements ts

end

mutual

/-- **The blocks of a tree**, each before those inside it, from left to right. -/
def blocks : Tree → List (List Tree)
  | block stmts => stmts :: blocksIn stmts
  | operation l r _ => l.blocks ++ r.blocks
  | initialization _ value | assignment _ value => value.blocks
  | number _ | text _ | name _ | declaration _ | foreign _ => []

/-- The blocks of the trees of a list. -/
def blocksIn : List Tree → List (List Tree)
  | [] => []
  | t :: ts => t.blocks ++ blocksIn ts

end

mutual

/-- Whether a foreign object is in a tree. -/
def hasForeign : Tree → Bool
  | foreign _ => true
  | operation l r _ => l.hasForeign || r.hasForeign
  | block stmts => anyForeign stmts
  | initialization _ value | assignment _ value => value.hasForeign
  | number _ | text _ | name _ | declaration _ => false

/-- Whether a foreign object is in a tree of a list. -/
def anyForeign : List Tree → Bool
  | [] => false
  | t :: ts => t.hasForeign || anyForeign ts

end

end Tree

end BlockLang
