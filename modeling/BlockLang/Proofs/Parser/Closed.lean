import BlockLang.Parser.Script

/-!
# Properties that the whole grammar has

Some properties of parsers are kept by every way of putting parsers together, whatever
the parsers do: that the limit on digits is not what stops them, or that no failure is
forgotten.  `Closed P` lists what there is to show of such a property `P`, namely that
the primitives have it and that `>>=` and `tryCatch` keep it.  The grammar follows from
that, one construct after the other: a construct has `P` if the parser of statements
that it is given has `P`, and so `statementAt` has it at every depth.
-/

namespace BlockLang

namespace Parser

/-- The alternatives that are left where a binding does not fit. -/
theorem eq_of_mem_others {stmt p : ParseM Tree} {assigns : Bool}
    (h : p ∈ (if assigns = true then [assignment stmt, exprStatement stmt]
      else [exprStatement stmt])) : p = assignment stmt ∨ p = exprStatement stmt := by
  cases assigns with
  | true => simpa using h
  | false => exact .inr (List.mem_singleton.1 h)

/-- **Kept by the combinators.**  The primitives have the property `P`, a literal has it, and what
is put together from parsers that have it has it too. -/
structure Closed (P : {α : Type} → ParseM α → Prop) : Prop where
  of_pure : ∀ {α : Type} (a : α), P (pure a : ParseM α)
  of_bind : ∀ {α β : Type} {p : ParseM α} {f : α → ParseM β}, P p → (∀ a, P (f a)) → P (p >>= f)
  of_throw : ∀ {α : Type} {fault : Fault}, (∀ n, fault ≠ .digitLimit n) →
    P (throw fault : ParseM α)
  of_tryCatch : ∀ {α : Type} {p : ParseM α} {h : Fault → ParseM α}, P p →
    (∀ e, P (h (.refused e))) → (∀ fault, (∀ e, fault ≠ .refused e) → h fault = throw fault) →
    P (MonadExcept.tryCatch p h)
  of_get : P (get : ParseM Cursor)
  of_peekNext : P peekNext
  of_startsAssignment : P (onStream TokenStream.startsAssignment)
  of_rewind : ∀ mark : Nat, P (rewind mark)
  of_reject : ∀ {α : Type} (problem : Problem) (at? : Option Int),
    P (reject problem at? : ParseM α)
  of_tag : ∀ k : TokenKind, P (tag k)
  of_literal : P literal

namespace Closed

variable {P : {α : Type} → ParseM α → Prop} {α : Type} {p q : ParseM α} {stmt : ParseM Tree}

/-! ### Ways of putting parsers together -/

theorem of_ite (_ : Closed P) {b : Prop} [Decidable b] (hp : P p) (hq : P q) :
    P (if b then p else q) := by
  split
  · exact hp
  · exact hq

theorem of_refuse (h : Closed P) (e : ParseError) : P (throw (.refused e) : ParseM α) :=
  h.of_throw (fun _ => Fault.noConfusion)

theorem of_outOfSteps (h : Closed P) : P (throw .outOfSteps : ParseM α) :=
  h.of_throw (fun _ => Fault.noConfusion)

theorem of_position (h : Closed P) : P position :=
  h.of_bind h.of_get (fun _ => h.of_pure _)

theorem of_capacity (h : Closed P) : P capacity :=
  h.of_bind h.of_get (fun _ => h.of_pure _)

theorem of_bestError (h : Closed P) (e : ParseError) (others : List ParseError) (start : Nat) :
    P (bestError e others start) :=
  h.of_bind h.of_get (fun _ => h.of_pure _)

theorem of_attempt (h : Closed P) (hp : P p) : P (Parser.attempt p) := by
  unfold Parser.attempt
  refine h.of_bind h.of_position (fun mark => h.of_tryCatch hp (fun e => ?_) (fun fault hne => ?_))
  · exact h.of_bind (h.of_rewind mark) (fun _ => h.of_refuse e)
  · cases fault with
    | refused e => exact absurd rfl (hne e)
    | _ => rfl

theorem of_trial (h : Closed P) (hp : P p) : P (Parser.trial p) := by
  unfold Parser.trial
  have htried := h.of_bind (h.of_attempt hp)
    (fun a => h.of_pure (Except.ok a : Except ParseError α))
  refine h.of_tryCatch htried (fun e => h.of_pure _) (fun fault hne => ?_)
  cases fault with
  | refused e => exact absurd rfl (hne e)
  | _ => rfl

theorem of_optional (h : Closed P) (hp : P p) : P (Parser.optional p) := by
  unfold Parser.optional
  refine h.of_bind (h.of_trial hp) (fun r => ?_)
  cases r with
  | ok a => exact h.of_pure _
  | error e => exact h.of_pure _

/-! ### The grammar -/

theorem of_atEnd (h : Closed P) : P atEnd := by
  unfold atEnd
  refine h.of_bind h.of_peekNext (fun found => ?_)
  cases found with
  | none => exact h.of_pure _
  | some t => exact h.of_pure _

theorem of_usage (h : Closed P) : P usage :=
  h.of_bind (h.of_tag .ident) (fun _ => h.of_pure _)

theorem of_operator (h : Closed P) : P operator := by
  unfold operator
  refine h.of_bind h.of_peekNext (fun found => ?_)
  cases found.filter Token.isOperator with
  | none => exact h.of_reject _ _
  | some t =>
    dsimp only
    cases Operator.ofKind? t.kind with
    | none => exact h.of_reject _ _
    | some op => exact h.of_bind (h.of_tag _) (fun _ => h.of_pure _)

theorem of_blockItems (h : Closed P) (hstmt : P stmt) (fuel : Nat) :
    P (blockItems stmt fuel) := by
  induction fuel with
  | zero => exact h.of_outOfSteps
  | succ fuel ih =>
    unfold blockItems
    refine h.of_bind h.of_peekNext (fun found => ?_)
    cases found with
    | none => exact h.of_pure _
    | some t =>
      refine h.of_ite (h.of_pure _) (h.of_bind (h.of_optional hstmt) (fun r => ?_))
      cases r with
      | none => exact h.of_pure _
      | some _ => exact h.of_bind ih (fun _ => h.of_pure _)

theorem of_closeBlock (h : Closed P) (start : Nat) : P (closeBlock start) := by
  unfold closeBlock
  refine h.of_bind (h.of_trial (h.of_tag _)) (fun r => ?_)
  cases r with
  | ok => exact h.of_pure _
  | error e => exact h.of_bind (h.of_bestError e [] start) h.of_refuse

theorem of_block (h : Closed P) (hstmt : P stmt) : P (block stmt) := by
  refine h.of_bind (h.of_tag _) (fun _ => h.of_bind h.of_position (fun start => ?_))
  refine h.of_bind h.of_capacity (fun n => h.of_bind (h.of_blockItems hstmt (n + 1)) (fun _ => ?_))
  exact h.of_bind (h.of_closeBlock start) (fun _ => h.of_pure _)

theorem of_atom (h : Closed P) (hstmt : P stmt) : P (atom stmt) := by
  unfold atom
  refine h.of_bind h.of_peekNext (fun found => ?_)
  split
  · exact h.of_literal
  · exact h.of_literal
  · exact h.of_usage
  · exact h.of_block hstmt
  · exact h.of_reject _ _

theorem of_chainItems (h : Closed P) (hstmt : P stmt) (fuel : Nat) :
    P (chainItems stmt fuel) := by
  induction fuel with
  | zero => exact h.of_outOfSteps
  | succ fuel ih =>
    unfold chainItems
    refine h.of_bind (h.of_atom hstmt) (fun left => h.of_bind h.of_peekNext (fun found => ?_))
    refine h.of_ite (h.of_bind h.of_operator (fun op => ?_)) (h.of_pure _)
    exact h.of_bind ih (fun right => h.of_pure _)

theorem of_chainExpr (h : Closed P) (hstmt : P stmt) : P (chainExpr stmt) :=
  h.of_bind h.of_capacity (fun n => h.of_chainItems hstmt (n + 1))

theorem of_settle (h : Closed P) (stack : List Tree) (single : Option (Nat × Tree)) :
    P (Folded.settle stack single) := by
  unfold Folded.settle
  split
  · exact h.of_bind h.of_position (fun _ => h.of_pure _)
  · exact h.of_pure _

theorem of_foldItems (h : Closed P) (hstmt : P stmt) (fuel : Nat) (folded : Folded) :
    P (foldItems stmt fuel folded) := by
  induction fuel generalizing folded with
  | zero => exact h.of_outOfSteps
  | succ fuel ih =>
    unfold foldItems
    refine h.of_bind h.of_peekNext (fun found => ?_)
    cases found with
    | none => exact h.of_pure _
    | some t =>
      refine h.of_ite ?_ (h.of_ite ?_ (h.of_pure _))
      · have hstarts : P (startsStatement folded.stack) :=
          h.of_ite (h.of_pure _) h.of_startsAssignment
        refine h.of_bind hstarts (fun b => h.of_ite (h.of_pure _) ?_)
        refine h.of_bind (h.of_attempt (h.of_atom hstmt)) (fun e => ?_)
        exact h.of_bind (h.of_settle _ _) ih
      · refine h.of_bind h.of_position (fun start => h.of_bind h.of_operator (fun op => ?_))
        split
        · exact h.of_bind (h.of_settle _ _) ih
        · exact h.of_reject _ _

theorem of_foldExpr (h : Closed P) (hstmt : P stmt) : P (foldExpr stmt) := by
  unfold foldExpr
  refine h.of_bind h.of_capacity (fun n => ?_)
  refine h.of_bind (h.of_foldItems hstmt (n + 1) {}) (fun folded => ?_)
  split
  · exact h.of_bind h.of_peekNext (fun _ => h.of_reject _ _)
  · exact h.of_pure _
  · split
    · exact h.of_throw (fun _ => Fault.noConfusion)
    · exact h.of_bind (h.of_rewind _) (fun _ => h.of_pure _)

theorem of_expr (h : Closed P) (hstmt : P stmt) : P (expr stmt) := by
  refine h.of_bind h.of_get (fun c => ?_)
  cases c.grouping with
  | byPrecedence => exact h.of_foldExpr hstmt
  | rightward => exact h.of_chainExpr hstmt

theorem of_value (h : Closed P) (hstmt : P stmt) (make : Tree → Tree) :
    P (do
      let _ ← tag .equals
      let value ← expr stmt
      let _ ← tag .semi
      return make value) := by
  refine h.of_bind (h.of_tag _) (fun _ => h.of_bind (h.of_expr hstmt) (fun _ => ?_))
  exact h.of_bind (h.of_tag _) (fun _ => h.of_pure _)

theorem of_binding (h : Closed P) (hstmt : P stmt) : P (binding stmt) := by
  unfold binding
  refine h.of_bind (h.of_tag _) (fun _ => h.of_bind (h.of_tag _) (fun name => ?_))
  refine h.of_bind h.of_peekNext (fun found => h.of_ite ?_ (h.of_value hstmt _))
  exact h.of_bind (h.of_tag _) (fun _ => h.of_pure _)

theorem of_assignment (h : Closed P) (hstmt : P stmt) : P (assignment stmt) :=
  h.of_bind (h.of_tag _) (fun _ => h.of_value hstmt _)

theorem of_exprStatement (h : Closed P) (hstmt : P stmt) : P (exprStatement stmt) := by
  refine h.of_bind (h.of_expr hstmt) (fun _ => ?_)
  exact h.of_bind (h.of_optional (h.of_tag _)) (fun _ => h.of_pure _)

theorem of_firstOf (h : Closed P) {ps : List (ParseM Tree)} (hps : ∀ p ∈ ps, P p) :
    P (firstOf ps) := by
  induction ps with
  | nil => exact h.of_pure _
  | cons p ps ih =>
    unfold firstOf
    refine h.of_bind (h.of_trial (hps p List.mem_cons_self)) (fun r => ?_)
    cases r with
    | ok t => exact h.of_pure _
    | error e =>
      refine h.of_bind (ih (fun q hq => hps q (List.mem_cons_of_mem p hq))) (fun r => ?_)
      cases r with
      | ok t => exact h.of_pure _
      | error es => exact h.of_pure _

theorem of_others (h : Closed P) (hstmt : P stmt) (assigns : Bool) :
    P (firstOf (if assigns then [assignment stmt, exprStatement stmt]
      else [exprStatement stmt])) := by
  apply h.of_firstOf
  intro p hp
  rcases eq_of_mem_others hp with rfl | rfl
  · exact h.of_assignment hstmt
  · exact h.of_exprStatement hstmt

theorem of_statementWith (h : Closed P) (hstmt : P stmt) : P (statementWith stmt) := by
  unfold statementWith
  refine h.of_bind h.of_position (fun start => h.of_bind h.of_startsAssignment (fun assigns => ?_))
  refine h.of_bind (h.of_trial (h.of_binding hstmt)) (fun r => ?_)
  cases r with
  | ok t => exact h.of_pure _
  | error bindingError =>
    refine h.of_bind (h.of_others hstmt assigns) (fun r => ?_)
    cases r with
    | ok t => exact h.of_pure _
    | error errors =>
      cases errors with
      | nil => exact h.of_bind (h.of_bestError _ _ _) (fun _ => h.of_refuse _)
      | cons e es => exact h.of_bind (h.of_bestError _ _ _) (fun _ => h.of_refuse _)

/-- Statements have it at every depth of blocks: no block is read below depth `0`. -/
theorem of_statementAt (h : Closed P) (depth : Nat) : P (statementAt depth) := by
  induction depth with
  | zero => exact h.of_outOfSteps
  | succ depth ih => exact h.of_statementWith ih

theorem of_statement (h : Closed P) : P statement :=
  h.of_bind h.of_capacity (fun n => h.of_statementAt (n + 1))

theorem of_construct (h : Closed P) (k : Construct) : P k.parser := by
  have hstmt := h.of_statement
  cases k with
  | literal => exact h.of_literal
  | usage => exact h.of_usage
  | block => exact h.of_block hstmt
  | atom => exact h.of_atom hstmt
  | chainExpr => exact h.of_chainExpr hstmt
  | foldExpr => exact h.of_foldExpr hstmt
  | expr => exact h.of_expr hstmt
  | binding => exact h.of_binding hstmt
  | assignment => exact h.of_assignment hstmt
  | exprStatement => exact h.of_exprStatement hstmt
  | statement => exact hstmt

end Closed

end Parser

end BlockLang
