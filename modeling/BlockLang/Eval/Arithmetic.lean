import BlockLang.Eval.Error

/-!
# Arithmetic

The four operations on numbers.  Results are exact, and a result that does not fit
into 32 bits is an error.  Division goes toward zero.
-/

namespace BlockLang

/-- **Division toward zero**: the magnitudes are divided, and the quotient is negative when the
signs differ.  There is no quotient by zero. -/
def divide? (l r : Int) : Option Int :=
  if r = 0 then none
  else
    let q : Int := (l.natAbs / r.natAbs : Nat)
    some (if decide (l < 0) = decide (r < 0) then q else -q)

/-- A result that is in range. -/
def checked (l : Int) (op : Operator) (r result : Int) : Except EvalError Int :=
  if leastNumber ≤ result ∧ result ≤ greatestNumber then .ok result
  else .error (.overflow l op r)

/-- An operation on two numbers. -/
def calculate (op : Operator) (l r : Int) : Except EvalError Int :=
  match op with
  | .add => checked l op r (l + r)
  | .sub => checked l op r (l - r)
  | .mul => checked l op r (l * r)
  | .div =>
    match divide? l r with
    | none => .error (.divisionByZero l r)
    | some q => checked l op r q

end BlockLang
