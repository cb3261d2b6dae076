import BlockLang.Token

/-!
# Operators after their operands

A resolver puts the operators of a token sequence behind their operands, so that
`10 + 20 * 5` comes out as `10 20 5 * +`.  An operator is held until one that binds
no tighter, or the end of the run, calls for it.  Operands and blanks pass at once;
any other token passes after the held operators.

Braces nest.  An opening brace passes and is held as a barrier: operators below it
wait for the block to close, so `1 + { 2 }` comes out as `1 { 2 } +`.

`shift` is one step on the stack of held tokens, `resolve` runs it over a whole
list, and `Resolver` runs it on demand,

    next r  gives the head of  r.toList  and a resolver for its tail.
-/

namespace BlockLang

namespace TokenKind

/-- How tightly a kind binds.  The parentheses have a rank of their own. -/
def precedence? : TokenKind → Option Nat
  | openParen | closeParen => some 3
  | star | slash | percent => some 2
  | plus | minus => some 1
  | _ => none

end TokenKind

/-- The complaint about a token that has no rank among operators. -/
def TokenKind.unrankedMessage (k : TokenKind) : String :=
  "<TokenKind." ++ k.label ++ ": '" ++ k.describe ++ "'> does not have operator precedence"

namespace Resolver

/-- Whether a held token is a barrier, that is an opening brace. -/
def isBarrier (t : Token) : Bool :=
  t.kind = .openBrace

/-- Whether a held token goes out before an operator of rank `p` is held. -/
def yieldsTo (p : Nat) (t : Token) : Bool :=
  !isBarrier t && (t.kind.precedence?.any (p ≤ ·))

/-- **Holding an operator.**  Those held above it that bind at least as tightly go out first, so
equal ranks group to the left.  The stack of held tokens has its top in front. -/
def hold (p : Nat) (t : Token) (held : List Token) : List Token × List Token :=
  (held.takeWhile (yieldsTo p), t :: held.dropWhile (yieldsTo p))

/-- The held operators above the innermost barrier. -/
def aboveBarrier (held : List Token) : List Token :=
  held.takeWhile (fun t => !isBarrier t)

/-- The held tokens from the innermost barrier down. -/
def fromBarrier (held : List Token) : List Token :=
  held.dropWhile (fun t => !isBarrier t)

/-- Every held operator, the barriers left out. -/
def operators (held : List Token) : List Token :=
  held.filter (fun t => !isBarrier t)

/-- **One step.**  What goes out when a token comes in, and the tokens held afterwards. -/
def shift (held : List Token) (t : Token) : List Token × List Token :=
  match t.kind with
  | .number | .ident | .string | .whitespace => ([t], held)
  | .plus | .minus => hold 1 t held
  | .star | .slash | .percent => hold 2 t held
  | .openBrace => ([t], t :: held)
  | .closeBrace => (aboveBarrier held ++ [t], (fromBarrier held).drop 1)
  | .eof => (operators held ++ [t], [])
  | _ => (aboveBarrier held ++ [t], fromBarrier held)

/-- The ranks that a step holds operators under are their precedences. -/
theorem shift_eq_hold {t : Token} {p : Nat} (h : t.isOperator = true) (hp : t.kind.precedence? = some p)
    (held : List Token) : shift held t = hold p t held := by
  obtain ⟨k, s⟩ := t
  cases k <;> simp_all [Token.isOperator, TokenKind.isOperator, TokenKind.precedence?, shift]

/-- What comes out of a whole list while `held` is held at its start. -/
def resolveFrom : List Token → List Token → List Token
  | held, [] => operators held
  | held, t :: ts => (shift held t).1 ++ resolveFrom (shift held t).2 ts

end Resolver

/-- A token list with every operator behind its operands. -/
def resolve (ts : List Token) : List Token :=
  Resolver.resolveFrom [] ts

/-- A resolution under way: the tokens still to come in, those ready to go out, and those held,
the last held in front. -/
structure Resolver where
  pending : List Token
  output : List Token := []
  held : List Token := []
  deriving Repr, DecidableEq

namespace Resolver

/-- Everything that is still to come out. -/
def toList (r : Resolver) : List Token :=
  r.output ++ resolveFrom r.held r.pending

/-- Lets one token in. -/
def feed (r : Resolver) (t : Token) : Resolver :=
  { r with output := r.output ++ (shift r.held t).1, held := (shift r.held t).2 }

/-- Holds a token as an operator, or says which kind has no rank. -/
def handleOperator (r : Resolver) (t : Token) : Except TokenKind Resolver :=
  match t.kind.precedence? with
  | none => .error t.kind
  | some p => .ok { r with output := r.output ++ (hold p t r.held).1, held := (hold p t r.held).2 }

/-- Lets the operators above the innermost barrier out. -/
def flush (r : Resolver) : Resolver :=
  { r with output := r.output ++ aboveBarrier r.held, held := fromBarrier r.held }

/-- Lets every held operator out and forgets the barriers. -/
def flushAll (r : Resolver) : Resolver :=
  { r with output := r.output ++ operators r.held, held := [] }

/-- The next token out of the given parts, letting tokens in until one is ready. -/
def nextFrom : List Token → List Token → List Token → Option Token × Resolver
  | pending, t :: output, held => (some t, { pending, output, held })
  | t :: pending, [], held => nextFrom pending (shift held t).1 (shift held t).2
  | [], [], held =>
    match operators held with
    | [] => (none, { pending := [] })
    | t :: output => (some t, { pending := [], output })

/-- **The next token.**  Tokens are let in only until one is ready to go out. -/
def next (r : Resolver) : Option Token × Resolver :=
  nextFrom r.pending r.output r.held

theorem nextFrom_eq (pending output held : List Token) :
    (nextFrom pending output held).1 = (output ++ resolveFrom held pending).head?
      ∧ (nextFrom pending output held).2.toList = (output ++ resolveFrom held pending).tail := by
  induction pending generalizing output held with
  | nil =>
    cases output with
    | cons t output => simp [nextFrom, toList]
    | nil =>
      simp only [nextFrom, resolveFrom, List.nil_append]
      cases h : operators held with
      | nil => simp [toList, resolveFrom, operators]
      | cons t output => simp [toList, resolveFrom, operators]
  | cons p pending ih =>
    cases output with
    | cons t output => simp [nextFrom, toList]
    | nil =>
      simp only [nextFrom, resolveFrom, List.nil_append]
      exact ih _ _

/-- **On demand is in order.**  The next token is the first that is still to come out. -/
theorem fst_next (r : Resolver) : r.next.1 = r.toList.head? :=
  (nextFrom_eq ..).1

/-- After the next token, the rest is still to come out. -/
theorem toList_snd_next (r : Resolver) : r.next.2.toList = r.toList.tail :=
  (nextFrom_eq ..).2

end Resolver

end BlockLang
