/-!
# Emphasis on a terminal

A piece of text is set apart by its weight and, if it carries a mood, by a hue.
Without colour the text stands bare.
-/

namespace BlockLang

/-- The hues of messages: errors are red, warnings magenta, steps of a trace cyan. -/
inductive Hue where
  | red
  | magenta
  | cyan
  deriving Repr, DecidableEq

/-- The weights of text. -/
inductive Weight where
  | bold
  | dark
  deriving Repr, DecidableEq

namespace Hue

/-- The number of a hue in an escape sequence. -/
def code : Hue → String
  | red => "31"
  | magenta => "35"
  | cyan => "36"

end Hue

namespace Weight

/-- The number of a weight in an escape sequence. -/
def code : Weight → String
  | bold => "1"
  | dark => "2"

end Weight

/-- The escape sequence of a number. -/
def escapeSequence (code : String) : String :=
  "\x1b[" ++ code ++ "m"

/-- A text with emphasis, when `color` asks for it.  The empty text is wrapped like any other. -/
def paint (color : Bool) (weight : Weight) (hue : Option Hue) (s : String) : String :=
  if color then
    escapeSequence weight.code ++ (hue.elim "" (fun h => escapeSequence h.code)) ++ s
      ++ escapeSequence "0"
  else s

end BlockLang
