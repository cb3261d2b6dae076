import BlockLang.Index
import BlockLang.Text.Slice
import BlockLang.Token.Stream

/-!
# Calls on a token stream

The operations of a stream as data, so that a run of them is a list: `Call.run`
carries one out and gives its answer with the stream afterwards.

A depth is counted from the place of the stream.  A negative one asks for no token that
is still to be pulled, and leads back into the buffer; and a place before the front of
the buffer is counted from its end.
-/

namespace BlockLang.TokenStream

/-- One operation on a stream. -/
inductive Call where
  | fill (n : Int)
  | read (n : Int)
  | peek (n : Int)
  | next
  | rest
  | mark
  | reset (place : Int)
  | significant (n : Int)
  | startsWith (kinds : List TokenKind)
  | startsWithLet
  | startsDeclaration
  | startsInitialization
  | startsAssignment
  deriving Repr, DecidableEq

/-- What an operation answers. -/
inductive Answer where
  | done
  | token (t : Option Token)
  | tokens (ts : List Token)
  | place (n : Nat)
  | kinds (ks : List TokenKind)
  | flag (b : Bool)
  | refused (place : Int)
  | notBuffered (fault : IndexFault)
  deriving Repr, DecidableEq

/-- The tokens from the place of the stream up to an index of the buffer. -/
def readUpTo (s : TokenStream) (i : Int) : List Token :=
  (s.buffer.toList.take (Text.place s.buffer.size i)).drop s.pos

/-- The token at an index of the buffer. -/
def lookBack (s : TokenStream) (i : Int) : Answer :=
  match Index.place s.buffer.size i with
  | .ok n => .token s.buffer[n]?
  | .error fault => .notBuffered fault

/-- Carries out one operation. -/
def Call.run (s : TokenStream) : Call → Answer × TokenStream
  | fill n => (.done, s.fill n.toNat)
  | read n => if 0 ≤ n then (s.read n.toNat).map .tokens id else (.tokens (s.readUpTo (s.pos + n)), s)
  | peek n => if 0 ≤ n then (s.peek n.toNat).map .token id else (s.lookBack (s.pos + n), s)
  | next => s.next.map .token id
  | rest => s.rest.map .tokens id
  | mark => (.place s.pos, s)
  | reset place =>
    match s.reset place with
    | some s => (.done, s)
    | none => (.refused place, s)
  | significant n => (s.significant n.toNat).map .kinds id
  | startsWith kinds => (s.startsWith kinds).map .flag id
  | startsWithLet => s.startsWithLet.map .flag id
  | startsDeclaration => s.startsDeclaration.map .flag id
  | startsInitialization => s.startsInitialization.map .flag id
  | startsAssignment => s.startsAssignment.map .flag id

end BlockLang.TokenStream
