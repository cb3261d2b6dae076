import BlockLang.Text.Printable

/-!
# Quoted texts

A text is shown between quotes on one line, so that its ends and its invisible
characters can be seen.  The quote is `'`, or `"` when the text holds a `'` and no
`"`.  Inside, the quote itself, the backslash and the line controls are written
with a backslash; any other character that is not printable is written by number,
in the shortest of the three forms `\xNN`, `\uNNNN` and `\UNNNNNNNN` that holds it.
-/

namespace BlockLang.Text

/-- The lower-case hexadecimal digits of `n`, with zeros in front up to `width` digits. -/
def hex (width n : Nat) : String :=
  let digits := Nat.toDigits 16 n
  String.ofList (List.replicate (width - digits.length) '0' ++ digits)

/-- A character by its number, in the shortest form that holds it. -/
def escapeByNumber (c : Char) : String :=
  let n := c.toNat
  if n < 0x100 then "\\x" ++ hex 2 n
  else if n < 0x10000 then "\\u" ++ hex 4 n
  else "\\U" ++ hex 8 n

/-- A character as it stands between two copies of `quote`. -/
def escapeIn (quote c : Char) : String :=
  if c = quote || c = '\\' then String.ofList ['\\', c]
  else if c = '\n' then "\\n"
  else if c = '\r' then "\\r"
  else if c = '\t' then "\\t"
  else if isPrintable c then String.singleton c
  else escapeByNumber c

/-- The quote that a text is shown in. -/
def quoteFor (cs : List Char) : Char :=
  if cs.contains '\'' && !cs.contains '"' then '"' else '\''

/-- A text between quotes. -/
def quoted (s : String) : String :=
  let cs := s.toList
  let quote := quoteFor cs
  String.singleton quote ++ String.join (cs.map (escapeIn quote)) ++ String.singleton quote

end BlockLang.Text
