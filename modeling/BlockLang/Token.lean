/-!
# Tokens

A token is a classified piece of source text.  Its kind says what it is to the
parser, and its text is the exact piece of source, so that the texts of a source's
tokens, laid end to end, are the source again.
-/

namespace BlockLang

/-- What a piece of source is. -/
inductive TokenKind where
  | ident
  | number
  | string
  | letWord
  | openParen
  | closeParen
  | openBrace
  | closeBrace
  | openBracket
  | closeBracket
  | semi
  | equals
  | plus
  | minus
  | star
  | slash
  | percent
  | whitespace
  | eof
  | unknown
  deriving Repr, DecidableEq, Inhabited

namespace TokenKind

/-- The kind as messages name it. -/
def describe : TokenKind → String
  | ident => "identifier"
  | number => "numeric literal"
  | string => "string literal"
  | letWord => "let"
  | openParen => "("
  | closeParen => ")"
  | openBrace => String.ofList ['{']
  | closeBrace => String.ofList ['}']
  | openBracket => "["
  | closeBracket => "]"
  | semi => ";"
  | equals => "="
  | plus => "+"
  | minus => "-"
  | star => "*"
  | slash => "/"
  | percent => "%"
  | whitespace => "whitespace"
  | eof => "end of input"
  | unknown => "unknown"

/-- The kind's constant name in capitals. -/
def label : TokenKind → String
  | ident => "IDENT"
  | number => "NUMBER"
  | string => "STRING"
  | letWord => "LET"
  | openParen => "OPEN_PAREN"
  | closeParen => "CLOSE_PAREN"
  | openBrace => "OPEN_BRACE"
  | closeBrace => "CLOSE_BRACE"
  | openBracket => "OPEN_BRACKET"
  | closeBracket => "CLOSE_BRACKET"
  | semi => "SEMI"
  | equals => "EQUALS"
  | plus => "PLUS"
  | minus => "MINUS"
  | star => "STAR"
  | slash => "SLASH"
  | percent => "PERCENT"
  | whitespace => "WHITESPACE"
  | eof => "EOF"
  | unknown => "UNKNOWN"

/-- Every kind once. -/
def all : List TokenKind :=
  [ident, number, string, letWord, openParen, closeParen, openBrace, closeBrace, openBracket,
   closeBracket, semi, equals, plus, minus, star, slash, percent, whitespace, eof, unknown]

/-- The kind with a given label. -/
def ofLabel? (s : String) : Option TokenKind :=
  all.find? (fun k => k.label == s)

/-- Whether a kind stands for a value by itself. -/
def isOperand : TokenKind → Bool
  | number | ident | string => true
  | _ => false

/-- Whether a kind joins two operands. -/
def isOperator : TokenKind → Bool
  | plus | minus | star | slash | percent => true
  | _ => false

/-- The kind of a punctuation character. -/
def ofPunctuation? (c : Char) : Option TokenKind :=
  match c with
  | '(' => some openParen
  | ')' => some closeParen
  | '{' => some openBrace
  | '}' => some closeBrace
  | '[' => some openBracket
  | ']' => some closeBracket
  | ';' => some semi
  | '=' => some equals
  | '+' => some plus
  | '-' => some minus
  | '*' => some star
  | '/' => some slash
  | '%' => some percent
  | _ => none

end TokenKind

/-- A classified piece of source text, with the number of source characters that it covers. -/
structure Token where
  kind : TokenKind
  text : String
  length : Nat := text.length
  deriving Repr, DecidableEq, Inhabited

namespace Token

/-- The token of a kind that covers its text. -/
def of (kind : TokenKind) (text : String) : Token :=
  { kind, text }

/-- Whether a token stands for a value by itself. -/
def isOperand (t : Token) : Bool :=
  t.kind.isOperand

/-- Whether a token joins two operands. -/
def isOperator (t : Token) : Bool :=
  t.kind.isOperator

/-- Whether a token is a run of blanks. -/
def isWhitespace (t : Token) : Bool :=
  t.kind = .whitespace

/-- The token as a trace shows it: its text, or a word where the text is invisible. -/
def display (t : Token) : String :=
  match t.kind with
  | .whitespace => "WHITESPACE"
  | .eof => "EOF"
  | _ => t.text

/-- The mark after the last token of a source. -/
def endMark : Token :=
  { kind := .eof, text := "", length := 0 }

end Token

end BlockLang
