import BlockLang.Proofs.Phrase

/-!
# Grouping by rank

The grouping by precedence of what is written, on phrases rather than on tokens.  A
`Yard` has the expressions read so far in a run of expressions, the last in front, and
the operators that wait for their right operand.  `Phrase.feed` lets an expression in,
atom by atom, and `Passage.regroupFrom` lets in a whole passage: a `let`, a `;` or the end
of the passage settles the yard, and what it held become statements of their own.

An expression without `;` does not settle the yard.  The operators that it left waiting
are there when the next expression comes in, and may take it for an operand:

    1 + 2 3  is regrouped as  1  2 + 3.
-/

namespace BlockLang

/-- Expressions and waiting operators, the last of each in front. -/
structure Yard where
  operands : List Phrase := []
  held : List Operator := []

namespace Yard

/-- One more expression. -/
def push (y : Yard) (e : Phrase) : Yard :=
  { y with operands := e :: y.operands }

/-- The last two expressions joined. -/
def operate (op : Operator) : List Phrase → List Phrase
  | r :: l :: rest => .operation l op r :: rest
  | operands => operands

/-- The waiting operators that bind at least as tightly as `p` take their operands, up to the
first that does not. -/
def releaseFrom (p : Nat) : List Phrase → List Operator → Yard
  | operands, [] => { operands, held := [] }
  | operands, op :: held =>
    if p ≤ op.precedence then releaseFrom p (operate op operands) held
    else { operands, held := op :: held }

def release (p : Nat) (y : Yard) : Yard :=
  releaseFrom p y.operands y.held

/-- One more operator waits, after those that it calls for have taken their operands. -/
def hold (op : Operator) (y : Yard) : Yard :=
  { operands := (y.release op.precedence).operands,
    held := op :: (y.release op.precedence).held }

/-- The expressions when no operator waits any more. -/
def settled (y : Yard) : List Phrase :=
  (y.release 0).operands

/-- The same yard on top of other expressions. -/
def above (y : Yard) (under : List Phrase) : Yard :=
  { y with operands := y.operands ++ under }

end Yard

namespace Passage

/-- A stack of expressions as statements without `;`, in front of others. -/
def ofStack : List Phrase → Passage → Passage
  | [], rest => rest
  | e :: operands, rest => ofStack operands (bare e rest)

/-- A stack of expressions as statements, the last of them with `;`. -/
def closeTop : List Phrase → Passage → Passage
  | [], rest => rest
  | e :: operands, rest => ofStack operands (closed e rest)

end Passage

mutual

/-- **Lets an expression in**, atom by atom. -/
@[simp] def Phrase.feed : Phrase → Yard → Yard
  | .leaf t e h, y => y.push (.leaf t e h)
  | .operation l op r, y => r.feed ((l.feed y).hold op)
  | .block body, y => y.push (.block (body.regroupFrom {}))

/-- **Lets a passage in.**  The expressions in the yard become statements. -/
@[simp] def Passage.regroupFrom : Passage → Yard → Passage
  | .done, y => .ofStack y.settled .done
  | .declaration name rest, y => .ofStack y.settled (.declaration name (rest.regroupFrom {}))
  | .initialization name e rest, y =>
    .ofStack y.settled
      (.initialization name ((e.feed {}).settled.headD e) (rest.regroupFrom {}))
  | .assignment name e rest, y =>
    .ofStack y.settled (.assignment name ((e.feed {}).settled.headD e) (rest.regroupFrom {}))
  | .closed e rest, y => .closeTop (e.feed y).settled (rest.regroupFrom {})
  | .bare e rest, y => rest.regroupFrom (e.feed y)

end

/-- An expression with its operations grouped by rank. -/
def Phrase.regroup (e : Phrase) : Phrase :=
  (e.feed {}).settled.headD e

/-- A passage with its operations grouped by rank. -/
def Passage.regroup (b : Passage) : Passage :=
  b.regroupFrom {}

/-! ### How much is in a yard -/

namespace Yard

variable {y : Yard} {n : Nat}

/-- The yard has `n` expressions more than operators. -/
def Carries (y : Yard) (n : Nat) : Prop :=
  y.operands.length = y.held.length + n

/-- The yard has `n` expressions more than operators, and if there are none then it is empty, as
between two statements. -/
structure AtRest (y : Yard) (n : Nat) : Prop where
  carries : y.Carries n
  held_nil : n = 0 → y.held = []

theorem carries_empty : Carries {} 0 := rfl

theorem atRest_empty : AtRest {} 0 := ⟨rfl, fun _ => rfl⟩

theorem Carries.push (h : y.Carries n) (e : Phrase) : (y.push e).Carries (n + 1) := by
  have h : y.operands.length = y.held.length + n := h
  show (e :: y.operands).length = y.held.length + (n + 1)
  rw [List.length_cons, h, Nat.add_assoc]

theorem length_operate (op : Operator) (operands : List Phrase) (h : 2 ≤ operands.length) :
    (operate op operands).length + 1 = operands.length := by
  match operands, h with
  | _ :: _ :: _, _ => rfl

theorem carries_releaseFrom (p : Nat) {held : List Operator} {operands : List Phrase}
    (h : operands.length = held.length + (n + 1)) :
    (releaseFrom p operands held).Carries (n + 1) := by
  induction held generalizing operands with
  | nil => exact h
  | cons op held ih =>
    rw [List.length_cons] at h
    by_cases hp : p ≤ op.precedence
    · have hlen := length_operate op operands (by omega)
      rw [releaseFrom, if_pos hp]
      exact ih (by omega)
    · rw [releaseFrom, if_neg hp]
      exact h

/-- Operators that take their operands leave as many expressions as there were. -/
theorem Carries.release (h : y.Carries (n + 1)) (p : Nat) : (y.release p).Carries (n + 1) :=
  carries_releaseFrom p h

theorem Carries.hold (h : y.Carries (n + 1)) (op : Operator) : (y.hold op).Carries n := by
  have hlen : (y.release op.precedence).operands.length
      = (y.release op.precedence).held.length + (n + 1) := h.release op.precedence
  show (y.release op.precedence).operands.length
    = (op :: (y.release op.precedence).held).length + n
  rw [hlen, List.length_cons]
  omega

theorem held_releaseFrom_zero (held : List Operator) (operands : List Phrase) :
    (releaseFrom 0 operands held).held = [] := by
  induction held generalizing operands with
  | nil => rfl
  | cons op held ih =>
    rw [releaseFrom, if_pos (Nat.zero_le _)]
    exact ih _

theorem AtRest.length_settled (h : y.AtRest n) : y.settled.length = n := by
  cases n with
  | zero =>
    have hheld := h.held_nil rfl
    have hlen := h.carries
    rw [Carries, hheld] at hlen
    rw [settled, release, hheld]
    exact hlen
  | succ n =>
    have hlen := h.carries.release 0
    rw [Carries, release, held_releaseFrom_zero] at hlen
    rw [settled, release, hlen]
    exact Nat.zero_add _

end Yard

/-- **An expression that comes in is one more.** -/
theorem Phrase.carries_feed : ∀ (e : Phrase) {y : Yard} {n : Nat}, y.Carries n →
    (e.feed y).Carries (n + 1)
  | .leaf .., _, _, h => by
    rw [Phrase.feed]
    exact h.push _
  | .block _, _, _, h => by
    rw [Phrase.feed]
    exact h.push _
  | .operation l op r, _, _, h => by
    rw [Phrase.feed]
    exact r.carries_feed ((l.carries_feed h).hold op)

theorem Phrase.atRest_feed (e : Phrase) {y : Yard} {n : Nat} (h : y.Carries n) :
    (e.feed y).AtRest (n + 1) :=
  ⟨e.carries_feed h, fun h => absurd h (Nat.succ_ne_zero n)⟩

theorem Phrase.settled_feed (e : Phrase) : (e.feed {}).settled = [e.regroup] := by
  obtain ⟨e', h⟩ := List.length_eq_one_iff.1 (e.atRest_feed Yard.carries_empty).length_settled
  rw [regroup, h]
  rfl

/-- An operator waits after an expression that is an operation, or if one waited before it. -/
theorem Phrase.isEmpty_held_feed : ∀ (e : Phrase) {y : Yard},
    (!(e.feed y).held.isEmpty) = (!y.held.isEmpty || e.isOperation)
  | .leaf .., y => by
    rw [Phrase.feed]
    exact (Bool.or_false _).symm
  | .block _, y => by
    rw [Phrase.feed]
    exact (Bool.or_false _).symm
  | .operation l op r, y => by
    rw [Phrase.feed, r.isEmpty_held_feed]
    simp [Yard.hold, Phrase.isOperation]

/-! ### What is below is left alone -/

namespace Yard

variable {y : Yard} {n : Nat}

theorem operate_append (op : Operator) {operands : List Phrase} (h : 2 ≤ operands.length)
    (under : List Phrase) : operate op (operands ++ under) = operate op operands ++ under := by
  match operands, h with
  | _ :: _ :: _, _ => rfl

theorem releaseFrom_append (p : Nat) (under : List Phrase) {held : List Operator}
    {operands : List Phrase} (h : operands.length = held.length + (n + 1)) :
    releaseFrom p (operands ++ under) held = (releaseFrom p operands held).above under := by
  induction held generalizing operands with
  | nil => rfl
  | cons op held ih =>
    rw [List.length_cons] at h
    by_cases hp : p ≤ op.precedence
    · have hlen := length_operate op operands (by omega)
      rw [releaseFrom, releaseFrom, if_pos hp, if_pos hp, operate_append op (by omega),
        ih (by omega)]
    · rw [releaseFrom, releaseFrom, if_neg hp, if_neg hp]
      rfl

theorem Carries.release_above (h : y.Carries (n + 1)) (p : Nat) (under : List Phrase) :
    (y.above under).release p = (y.release p).above under :=
  releaseFrom_append p under h

theorem Carries.hold_above (h : y.Carries (n + 1)) (op : Operator) (under : List Phrase) :
    (y.above under).hold op = (y.hold op).above under := by
  unfold Yard.hold
  rw [h.release_above]
  rfl

theorem AtRest.settled_above (h : y.AtRest n) (under : List Phrase) :
    (y.above under).settled = y.settled ++ under := by
  cases n with
  | zero =>
    have hheld := h.held_nil rfl
    simp only [settled, release, above, hheld, releaseFrom]
  | succ n =>
    rw [settled, h.carries.release_above]
    rfl

end Yard

/-- **Frame.**  An expression that comes in changes nothing below what the yard carries. -/
theorem Phrase.feed_above (under : List Phrase) : ∀ (e : Phrase) {y : Yard} {n : Nat}, y.Carries n →
    e.feed (y.above under) = (e.feed y).above under
  | .leaf .., _, _, _ => by
    rw [Phrase.feed, Phrase.feed]
    rfl
  | .block _, _, _, _ => by
    rw [Phrase.feed, Phrase.feed]
    rfl
  | .operation l op r, _, _, h => by
    have hl := l.carries_feed h
    rw [Phrase.feed, Phrase.feed, l.feed_above under h, hl.hold_above, r.feed_above under (hl.hold op)]

namespace Passage

theorem ofStack_append (operands under : List Phrase) (rest : Passage) :
    ofStack (operands ++ under) rest = ofStack under (ofStack operands rest) := by
  induction operands generalizing rest with
  | nil => rfl
  | cons e operands ih => rw [List.cons_append, ofStack, ofStack, ih]

/-- Whether a passage begins with an expression. -/
def beginsWithExpression : Passage → Bool
  | closed .. | bare .. => true
  | _ => false

/-- Whether a passage is set off from what comes before: it begins with `let`, or there is none. -/
def isSetOff : Passage → Bool
  | done | declaration .. | initialization .. => true
  | _ => false

theorem closeTop_append (under : List Phrase) (rest : Passage) {operands : List Phrase}
    (h : operands ≠ []) :
    closeTop (operands ++ under) rest = ofStack under (closeTop operands rest) := by
  cases operands with
  | nil => exact absurd rfl h
  | cons e operands => rw [List.cons_append, closeTop, closeTop, ofStack_append]

/-- **Frame.**  What is below the yard at a statement's start comes out first, as it is. -/
theorem regroupFrom_above (under : List Phrase) : ∀ (b : Passage) {y : Yard} {n : Nat},
    y.Carries n → (n = 0 → b.beginsWithExpression = false → y.held = []) →
    b.regroupFrom (y.above under) = ofStack under (b.regroupFrom y)
  | done, _, _, h, hheld => by
    rw [regroupFrom, regroupFrom, Yard.AtRest.settled_above ⟨h, fun hn => hheld hn rfl⟩,
      ofStack_append]
  | declaration _ _, _, _, h, hheld => by
    rw [regroupFrom, regroupFrom, Yard.AtRest.settled_above ⟨h, fun hn => hheld hn rfl⟩,
      ofStack_append]
  | initialization _ _ _, _, _, h, hheld => by
    rw [regroupFrom, regroupFrom, Yard.AtRest.settled_above ⟨h, fun hn => hheld hn rfl⟩,
      ofStack_append]
  | assignment _ _ _, _, _, h, hheld => by
    rw [regroupFrom, regroupFrom, Yard.AtRest.settled_above ⟨h, fun hn => hheld hn rfl⟩,
      ofStack_append]
  | closed e rest, y, n, h, _ => by
    have hfeed := e.atRest_feed h
    have hne : (e.feed y).settled ≠ [] := by
      intro hnil
      have hlen := hfeed.length_settled
      rw [hnil] at hlen
      exact absurd hlen (Nat.succ_ne_zero n).symm
    rw [regroupFrom, regroupFrom, e.feed_above under h, hfeed.settled_above, closeTop_append _ _ hne]
  | bare e rest, _, n, h, _ => by
    rw [regroupFrom, regroupFrom, e.feed_above under h]
    exact regroupFrom_above under rest (e.carries_feed h) (fun hn => absurd hn (Nat.succ_ne_zero n))

theorem regroupFrom_assignment (name : String) (e : Phrase) (rest : Passage) (y : Yard) :
    (assignment name e rest).regroupFrom y
      = ofStack y.settled (assignment name e.regroup rest.regroup) := by
  rw [regroupFrom]
  rfl

theorem regroupFrom_closed (e : Phrase) (rest : Passage) (y : Yard) :
    (closed e rest).regroupFrom y = closeTop (e.feed y).settled rest.regroup := by
  rw [regroupFrom]
  rfl

theorem regroupFrom_of_isSetOff {b : Passage} (h : b.isSetOff = true) (y : Yard) :
    b.regroupFrom y = ofStack y.settled b.regroup := by
  cases b with
  | done => rw [regroup, regroupFrom, regroupFrom]; rfl
  | declaration => rw [regroup, regroupFrom, regroupFrom]; rfl
  | initialization => rw [regroup, regroupFrom, regroupFrom]; rfl
  | assignment => exact absurd h Bool.false_ne_true
  | closed => exact absurd h Bool.false_ne_true
  | bare => exact absurd h Bool.false_ne_true

@[simp] theorem regroup_done : done.regroup = done := by
  rw [regroup, regroupFrom]
  rfl

@[simp] theorem regroup_declaration (name : String) (rest : Passage) :
    (declaration name rest).regroup = declaration name rest.regroup := by
  rw [regroup, regroupFrom]
  rfl

@[simp] theorem regroup_initialization (name : String) (e : Phrase) (rest : Passage) :
    (initialization name e rest).regroup = initialization name e.regroup rest.regroup := by
  rw [regroup, regroupFrom]
  rfl

@[simp] theorem regroup_assignment (name : String) (e : Phrase) (rest : Passage) :
    (assignment name e rest).regroup = assignment name e.regroup rest.regroup :=
  regroupFrom_assignment name e rest {}

@[simp] theorem regroup_closed (e : Phrase) (rest : Passage) :
    (closed e rest).regroup = closed e.regroup rest.regroup := by
  rw [regroup, regroupFrom_closed, e.settled_feed]
  rfl

/-- **An expression without `;` is regrouped by itself** if it is no operation or what follows is
set off from it. -/
theorem regroup_bare {e : Phrase} {rest : Passage}
    (h : e.isOperation = false ∨ rest.isSetOff = true) :
    (bare e rest).regroup = bare e.regroup rest.regroup := by
  rw [regroup, regroupFrom]
  rcases h with h | h
  · have hfeed : e.feed {} = ({} : Yard).above [e.regroup] := by
      cases e with
      | operation => exact absurd h (by simp)
      | leaf => rw [Phrase.regroup, Phrase.feed]; rfl
      | block => rw [Phrase.regroup, Phrase.feed]; rfl
    rw [hfeed, regroupFrom_above _ _ Yard.carries_empty (fun _ _ => rfl)]
    rfl
  · rw [regroupFrom_of_isSetOff h, e.settled_feed]
    rfl

theorem trees_ofStack (operands : List Phrase) (rest : Passage) :
    (ofStack operands rest).trees = (operands.map Phrase.tree).reverse ++ rest.trees := by
  induction operands generalizing rest with
  | nil => rfl
  | cons e operands ih =>
    rw [ofStack, ih, trees]
    simp

theorem tokens_ofStack (p : Placement) (operands : List Phrase) (rest : Passage) :
    (ofStack operands rest).tokens p = stackTokens p operands ++ rest.tokens p := by
  induction operands generalizing rest with
  | nil => rfl
  | cons e operands ih => rw [ofStack, ih, tokens, stackTokens, List.append_assoc]

end Passage

/-! ### Atoms stay in order -/

/-- The atoms of a stack of expressions, those of the last at the end. -/
def stackAtoms : List Phrase → List Phrase
  | [] => []
  | e :: rest => stackAtoms rest ++ e.atoms

theorem stackAtoms_append (operands under : List Phrase) :
    stackAtoms (operands ++ under) = stackAtoms under ++ stackAtoms operands := by
  induction operands with
  | nil => exact (List.append_nil _).symm
  | cons e operands ih => rw [List.cons_append, stackAtoms, stackAtoms, ih, List.append_assoc]

theorem stackAtoms_operate (op : Operator) :
    ∀ operands : List Phrase, stackAtoms (Yard.operate op operands) = stackAtoms operands
  | [] => rfl
  | [_] => rfl
  | r :: l :: rest => by
    rw [Yard.operate, stackAtoms, Phrase.atoms, stackAtoms, stackAtoms, List.append_assoc]

theorem stackAtoms_releaseFrom (p : Nat) (held : List Operator) (operands : List Phrase) :
    stackAtoms (Yard.releaseFrom p operands held).operands = stackAtoms operands := by
  induction held generalizing operands with
  | nil => rfl
  | cons op held ih =>
    by_cases hp : p ≤ op.precedence
    · rw [Yard.releaseFrom, if_pos hp, ih, stackAtoms_operate]
    · rw [Yard.releaseFrom, if_neg hp]

/-- **Atoms come in and stay in order**, each regrouped by itself. -/
theorem Phrase.stackAtoms_feed : ∀ (e : Phrase) (y : Yard),
    stackAtoms (e.feed y).operands = stackAtoms y.operands ++ e.atoms.map Phrase.regroup
  | .leaf .., y => by rw [Phrase.feed]; rfl
  | .block body, y => by rw [Phrase.feed]; rfl
  | .operation l op r, y => by
    have hhold : stackAtoms ((l.feed y).hold op).operands = stackAtoms (l.feed y).operands :=
      stackAtoms_releaseFrom op.precedence _ _
    rw [Phrase.feed, r.stackAtoms_feed, hhold, l.stackAtoms_feed, Phrase.atoms, List.map_append,
      List.append_assoc]

theorem Phrase.atoms_regroup (e : Phrase) : e.regroup.atoms = e.atoms.map Phrase.regroup := by
  calc e.regroup.atoms
      = stackAtoms (e.feed {}).settled := by rw [e.settled_feed]; rfl
    _ = stackAtoms (e.feed {}).operands := stackAtoms_releaseFrom 0 _ _
    _ = e.atoms.map Phrase.regroup := e.stackAtoms_feed {}

end BlockLang
