import BlockLang.Token.Lexer

/-!
# Chunks

A source is cut into chunks, pieces that can be parsed on their own.  A line begins
a chunk, and as long as a chunk leaves a brace open the next line belongs to it too.
Blanks at the end of each line are dropped, and a line that is blank begins no
chunk.
-/

namespace BlockLang

/-- Lines that belong together, and the number of the first. -/
structure Chunk where
  text : String
  num : Int
  deriving Repr, DecidableEq

namespace Chunk

/-- Whether a text leaves a brace open, so that the next line belongs to it. -/
def needsMore (text : String) : Bool :=
  0 < openBraces text

/-- A line without the blanks at its end, and whether the next line belongs to it. -/
def readLine (line : String) : String × Bool :=
  let text := Text.trimEnd line
  (text, needsMore text)

/-- **Adds a line** to the chunks, of which the last is in front: to the last chunk if it
continues, and as a new chunk otherwise.  Gives the text that the line became part of. -/
def addLine (chunks : List Chunk) (continues : Bool) (line : String) (num : Int) :
    String × List Chunk :=
  let line := Text.trimEnd line
  match continues, chunks with
  | true, last :: earlier =>
    let text := last.text ++ "\n" ++ line
    (text, { last with text } :: earlier)
  | _, _ => if line = "" then (line, chunks) else (line, { text := line, num } :: chunks)

/-- Adds lines, numbered from `num` on. -/
def addLines (chunks : List Chunk) (continues : Bool) (num : Int) : List String → List Chunk
  | [] => chunks
  | line :: lines =>
    let (text, chunks) := addLine chunks continues line num
    addLines chunks (needsMore text) (num + 1) lines

/-- The chunks of a list of lines, in order. -/
def ofLines (lines : List String) : List Chunk :=
  (addLines [] false 1 lines).reverse

end Chunk

end BlockLang
