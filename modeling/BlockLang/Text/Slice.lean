/-!
# Slices

A slice of a text runs from one index up to another.  An index counts characters
from the front; a negative one counts from the end; and an index past either end
stands for that end.
-/

namespace BlockLang.Text

/-- The place in a text of `n` characters that an index stands for. -/
def place (n : Nat) (i : Int) : Nat :=
  if i < 0 then (n + i).toNat else min i.toNat n

/-- The characters from index `a` up to index `b`. -/
def slice (s : String) (a b : Int) : String :=
  let n := s.length
  String.ofList ((s.toList.take (place n b)).drop (place n a))

/-- The characters up to index `b`. -/
def sliceTo (s : String) (b : Int) : String :=
  String.ofList (s.toList.take (place s.length b))

/-- The characters from index `a` on. -/
def sliceFrom (s : String) (a : Int) : String :=
  String.ofList (s.toList.drop (place s.length a))

/-- `n` copies of a character, none when `n` is negative. -/
def copies (n : Int) (c : Char) : String :=
  String.ofList (List.replicate n.toNat c)

end BlockLang.Text
