import BlockLang.Text.CodeRange

/-!
# Blank characters and trimming

A character is blank when it separates words without being part of one: the
controls tab to carriage return, the four information separators, the space, the
next-line control, and the space separators of the wider code space.  The
zero-width characters are not blank.

Trimming takes blanks from the ends of a text: `trimEnd` from its end, `trim` from
both ends.
-/

namespace BlockLang.Text

/-- The blank characters. -/
def blankRanges : CodeRanges :=
  [(0x9, 0xd), (0x1c, 0x20), (0x85, 0x85), (0xa0, 0xa0), (0x1680, 0x1680), (0x2000, 0x200a),
   (0x2028, 0x2029), (0x202f, 0x202f), (0x205f, 0x205f), (0x3000, 0x3000)]

/-- Whether a character is blank. -/
def isBlank (c : Char) : Bool :=
  blankRanges.covers c.toNat

theorem increasing_blankRanges : blankRanges.increasing 0 = true := by decide

/-- The characters without the blanks at the end. -/
def trimEndChars (cs : List Char) : List Char :=
  (cs.reverse.dropWhile isBlank).reverse

/-- A text without the blanks at its end. -/
def trimEnd (s : String) : String :=
  String.ofList (trimEndChars s.toList)

/-- A text without the blanks at either end. -/
def trim (s : String) : String :=
  String.ofList (trimEndChars (s.toList.dropWhile isBlank))

end BlockLang.Text
