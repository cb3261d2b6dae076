/-!
# Lines of a text

A line ends at a line feed, at a carriage return, or at the two together.  What
follows the last line end is a line too unless it is empty.
-/

namespace BlockLang.Text

/-- The lines of a text without their ends; `line` holds what was read of the current one, the
last character in front. -/
def linesFrom : List Char → List Char → List String
  | [], [] => []
  | line, [] => [String.ofList line.reverse]
  | line, '\r' :: '\n' :: rest => String.ofList line.reverse :: linesFrom [] rest
  | line, '\r' :: rest => String.ofList line.reverse :: linesFrom [] rest
  | line, '\n' :: rest => String.ofList line.reverse :: linesFrom [] rest
  | line, c :: rest => linesFrom (c :: line) rest

/-- The lines of a text without their ends. -/
def lines (s : String) : List String :=
  linesFrom [] s.toList

end BlockLang.Text
