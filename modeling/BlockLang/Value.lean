/-!
# Values

What evaluation gives: a number, a text, or the unit, which is the value of a
statement that has nothing to say.  Numbers that a program writes or calculates fit
into 32 bits, one of them for the sign.
-/

namespace BlockLang

/-- The least number of 32 bits. -/
def leastNumber : Int :=
  -2147483648

/-- The greatest number of 32 bits. -/
def greatestNumber : Int :=
  2147483647

/-- The value of an evaluated tree. -/
inductive Value where
  | number (n : Int)
  | text (s : String)
  | unit
  deriving Repr, DecidableEq, Inhabited

namespace Value

/-- A value as it is printed. -/
def display : Value → String
  | number n => toString n
  | text s => "\"" ++ s ++ "\""
  | unit => "()"

end Value

end BlockLang
