import BlockLang.Text.Quoted
import BlockLang.Tree

/-!
# Trees as text

`Tree.source` writes a tree on one line, much as it is written in a source, with
every operation in parentheses.  `Tree.outline` writes it with one field after the
other and each subtree on lines of its own, indented under its parent.
-/

namespace BlockLang.Tree

mutual

/-- A tree on one line. -/
def source : Tree → String
  | number n => toString n
  | text s => "\"" ++ s ++ "\""
  | name x => x
  | operation l r op => "(" ++ l.source ++ " " ++ op.sign ++ " " ++ r.source ++ ")"
  | block [] => String.ofList ['{', '}']
  | block (t :: ts) =>
    String.ofList ['{', ' '] ++ t.source ++ sourcesAfter ts ++ String.ofList [' ', '}']
  | declaration x => "let " ++ x ++ ";"
  | initialization x v => "let " ++ x ++ " = " ++ v.source ++ ";"
  | assignment x v => x ++ " = " ++ v.source ++ ";"
  | foreign kind => "<" ++ kind ++ ">"

/-- The trees of a list on one line, each after a space. -/
def sourcesAfter : List Tree → String
  | [] => ""
  | t :: ts => " " ++ t.source ++ sourcesAfter ts

end

/-- The blanks in front of a line at some depth; a depth below zero has none. -/
def indentation (depth : Int) : String :=
  String.ofList (List.replicate (4 * depth.toNat) ' ')

mutual

/-- A tree with each subtree on lines of its own, one step deeper than its parent. -/
def outline (depth : Int) : Tree → String
  | number n => indentation depth ++ "NumberLiteral(value=" ++ toString n ++ ")"
  | text s => indentation depth ++ "StringLiteral(text=" ++ Text.quoted s ++ ")"
  | name x => indentation depth ++ "BindingUsage(name=" ++ Text.quoted x ++ ")"
  | operation l r op =>
    indentation depth ++ "Operation(left=\n" ++ l.outline (depth + 1) ++ ", right=\n"
      ++ r.outline (depth + 1) ++ ", op=" ++ op.sign ++ ")"
  | block [] => indentation depth ++ "Block(stmts=[])"
  | block (t :: ts) =>
    indentation depth ++ "Block(stmts=[\n" ++ t.outline (depth + 1) ++ outlinesAfter (depth + 1) ts
      ++ "\n" ++ indentation depth ++ "])"
  | declaration x => indentation depth ++ "Declaration(name=" ++ Text.quoted x ++ ")"
  | initialization x v =>
    indentation depth ++ "Initialization(name=" ++ Text.quoted x ++ ", value=\n"
      ++ v.outline (depth + 1) ++ ")"
  | assignment x v =>
    indentation depth ++ "Assignment(name=" ++ Text.quoted x ++ ", value=\n"
      ++ v.outline (depth + 1) ++ ")"
  | foreign kind => indentation depth ++ "<" ++ kind ++ ">"

/-- The trees of a list at some depth, each after a comma and a line end. -/
def outlinesAfter (depth : Int) : List Tree → String
  | [] => ""
  | t :: ts => ",\n" ++ t.outline depth ++ outlinesAfter depth ts

end

end BlockLang.Tree
