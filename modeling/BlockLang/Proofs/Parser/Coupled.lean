import BlockLang.Parser.Grammar
import BlockLang.Proofs.Cursor
import Mathlib.Data.List.Forall2

/-!
# Two runs side by side

A parser that runs from two cursors that belong together does the same from both: it gives
results that belong together, or refuses with errors that do, and leaves cursors that do.
What belongs together is up to a `Coupling`: it relates cursors, the places that the parser
notes on the way, and errors.  `Coupled K V p q` says of two parsers that they keep to the
coupling `K`, where `V` relates their results.

The grammar looks at a cursor through a few primitives only.  If these keep to the coupling,
`Coupling.Lawful`, so does every construct.

The bounds on steps come from the number of tokens, so that `p` may have more of them than
`q`.  Where `q` runs out of steps or stops for any other reason than a refusal, nothing is
said of `p`; and where `p` stops for a reason that the coupling excuses, nothing is said
either.
-/

namespace BlockLang

open StepM

/-- **What belongs together** on two sides: cursors, places and errors.  Cursors that belong together
group alike, are at places that belong together, and the first has room for as many tokens as the
second.  The first side may stop for an excused reason, which is never a refusal of the input. -/
structure Coupling where
  states : Cursor → Cursor → Prop
  places : Nat → Nat → Prop
  errors : ParseError → ParseError → Prop
  excused : Fault → Prop
  grouping_eq : ∀ {c d : Cursor}, states c d → c.grouping = d.grouping
  capacity_le : ∀ {c d : Cursor}, states c d → d.stream.capacity ≤ c.stream.capacity
  place : ∀ {c d : Cursor}, states c d → places c.stream.pos d.stream.pos
  malformed : ∀ {e e' : ParseError}, errors e e' → errors (.malformed e) (.malformed e')
  not_isRefusal : ∀ {fault : Fault}, excused fault → ¬ fault.IsRefusal

/-- The same result, or reasons that belong together. -/
inductive SameResult {α ε : Type} (errors : ε → ε → Prop) : Except ε α → Except ε α → Prop
  | ok (a : α) : SameResult errors (.ok a) (.ok a)
  | error {e e' : ε} (h : errors e e') : SameResult errors (.error e) (.error e')

namespace Parser

variable {α β γ δ : Type} {K : Coupling} {c d : Cursor}

/-- From `c`, `p` ends as `q` does from `d`. -/
def CoupledAt (K : Coupling) (V : α → β → Prop) (p : ParseM α) (c : Cursor) (q : ParseM β)
    (d : Cursor) : Prop :=
  Ends q d
    (fun b d' => Ends p c (fun a c' => V a b ∧ K.states c' d') (fun fault _ => K.excused fault))
    (fun fault d' => ∀ e', fault = .refused e' →
      Ends p c (fun _ _ => False)
        (fun fault c' => K.excused fault
          ∨ ∃ e, fault = .refused e ∧ K.errors e e' ∧ K.states c' d'))

/-- **Coupled parsers.**  From cursors that belong together, `p` ends as `q` does. -/
def Coupled (K : Coupling) (V : α → β → Prop) (p : ParseM α) (q : ParseM β) : Prop :=
  ∀ c d : Cursor, K.states c d → CoupledAt K V p c q d

/-! ### Ways of putting parsers together -/

section Rules

variable {V : α → β → Prop} {W : γ → δ → Prop} {p p' : ParseM α} {q q' : ParseM β}
  {f : α → ParseM γ} {g : β → ParseM δ}

theorem coupledAt_of_excused {c' : Cursor} {fault : Fault}
    (hp : runFrom p c = (.error fault, c')) (h : K.excused fault) : CoupledAt K V p c q d := by
  have hstops : ∀ {Q : α → Cursor → Prop} {E : Fault → Cursor → Prop}, E fault c' →
      Ends p c Q E := fun hE => ends_iff.2 (.inr ⟨fault, c', hp, hE⟩)
  exact (ends_trivial q d).mono (fun _ _ _ => hstops h) (fun _ _ _ _ _ => hstops (.inl h))

theorem coupledAt_of_ends {Q : α → Cursor → Prop} {Q' : β → Cursor → Prop}
    (hp : Ends p c Q (fun _ _ => False)) (hq : Ends q d Q' (fun _ _ => False))
    (h : ∀ a c' b d', Q a c' → Q' b d' → V a b ∧ K.states c' d') : CoupledAt K V p c q d :=
  hq.mono (fun b d' hb => hp.mono (fun a c' ha => h a c' b d' ha hb) (fun _ _ h => h.elim))
    (fun _ _ h => h.elim)

/-- **One after the other**, where `hq` tells of the run of `q` what the rest needs. -/
theorem CoupledAt.bind {Q : β → Cursor → Prop} {E : Fault → Cursor → Prop}
    (h : CoupledAt K V p c q d) (hq : Ends q d Q E)
    (hf : ∀ a b c' d', V a b → Q b d' → K.states c' d' → CoupledAt K W (f a) c' (g b) d') :
    CoupledAt K W (p >>= f) c (q >>= g) d := by
  refine (Ends.and h hq).bind ?_ ?_
  · rintro b d' ⟨hok, hQ⟩
    rcases ends_iff.1 hok with ⟨a, c', hrun, hV, hstates⟩ | ⟨fault, c', hrun, hexcused⟩
    · have hgo : ∀ {Q' : γ → Cursor → Prop} {E' : Fault → Cursor → Prop},
          Ends (f a) c' Q' E' → Ends (p >>= f) c Q' E' := fun h =>
        ends_bind.2 (ends_iff.2 (.inl ⟨a, c', hrun, h⟩))
      exact (hf a b c' d' hV hQ hstates).mono (fun _ _ h => hgo h) (fun _ _ h e he => hgo (h e he))
    · have hrun' : runFrom (p >>= f) c = (.error fault, c') := by rw [runFrom_bind, hrun]
      exact coupledAt_of_excused hrun' hexcused
  · rintro fault d' ⟨hrefused, -⟩ e he
    exact (hrefused e he).bind (fun _ _ h => h.elim) (fun _ _ h => h)

theorem CoupledAt.andThen (h : CoupledAt K V p c q d)
    (hf : ∀ a b c' d', V a b → K.states c' d' → CoupledAt K W (f a) c' (g b) d') :
    CoupledAt K W (p >>= f) c (q >>= g) d :=
  h.bind (ends_trivial q d) (fun a b c' d' hV _ hstates => hf a b c' d' hV hstates)

theorem Coupled.bind (h : Coupled K V p q) (hf : ∀ a b, V a b → Coupled K W (f a) (g b)) :
    Coupled K W (p >>= f) (q >>= g) :=
  fun c d hstates => (h c d hstates).andThen (fun a b c' d' hV => hf a b hV c' d')

theorem Coupled.imp {V' : α → β → Prop} (h : Coupled K V p q) (hV : ∀ a b, V a b → V' a b) :
    Coupled K V' p q :=
  fun c d hstates => (h c d hstates).mono
    (fun b _ hok => hok.mono (fun a _ h => ⟨hV a b h.1, h.2⟩) (fun _ _ h => h)) (fun _ _ h => h)

theorem coupled_pure {a : α} {b : β} (h : V a b) : Coupled K V (pure a) (pure b) :=
  fun _ _ hstates => ends_pure.2 (ends_pure.2 ⟨h, hstates⟩)

theorem coupled_throw {e e' : ParseError} (h : K.errors e e') :
    Coupled K V (throw (.refused e)) (throw (.refused e')) := by
  intro c d hstates
  refine ends_throw.2 (fun e₁ he => ?_)
  obtain rfl := Fault.refused.inj he
  exact ends_throw.2 (.inr ⟨e, rfl, h, hstates⟩)

theorem coupled_fault {fault : Fault} (h : ¬ fault.IsRefusal) : Coupled K V p (throw fault) :=
  fun _ _ _ => ends_throw.2 (fun e he => absurd ⟨e, he⟩ h)

theorem coupled_outOfSteps : Coupled K V p (throw .outOfSteps) :=
  coupled_fault (fun ⟨_, h⟩ => Fault.noConfusion h)

theorem Coupled.ite {b : Prop} [Decidable b] (h : b → Coupled K V p q)
    (h' : ¬ b → Coupled K V p' q') :
    Coupled K V (if b then p else p') (if b then q else q') := by
  by_cases hb : b
  · rw [if_pos hb, if_pos hb]
    exact h hb
  · rw [if_neg hb, if_neg hb]
    exact h' hb

theorem Coupled.tryCatch {h : Fault → ParseM α} {h' : Fault → ParseM β} (hp : Coupled K V p q)
    (hrefused : ∀ e e', K.errors e e' → Coupled K V (h (.refused e)) (h' (.refused e')))
    (hother : ∀ fault, ¬ fault.IsRefusal → h fault = throw fault)
    (hother' : ∀ fault, ¬ fault.IsRefusal → h' fault = throw fault) :
    Coupled K V (MonadExcept.tryCatch p h) (MonadExcept.tryCatch q h') := by
  intro c d hstates
  refine (hp c d hstates).tryCatch ?_ ?_
  · intro b d' hok
    refine hok.tryCatch (fun _ _ h => h) (fun fault _ hexcused => ?_)
    rw [hother fault (K.not_isRefusal hexcused)]
    exact ends_throw.2 hexcused
  · intro fault d' hstop
    by_cases hr : fault.IsRefusal
    · obtain ⟨e', rfl⟩ := hr
      rcases ends_iff.1 (hstop e' rfl) with ⟨_, _, -, hfalse⟩ | ⟨fault, c', hrun, hwhy⟩
      · exact hfalse.elim
      · have hcaught : runFrom (MonadExcept.tryCatch p h) c = runFrom (h fault) c' := by
          rw [runFrom_tryCatch, hrun]
        rcases hwhy with hexcused | ⟨e, rfl, herrors, hstates'⟩
        · rw [hother fault (K.not_isRefusal hexcused), runFrom_throw] at hcaught
          exact coupledAt_of_excused hcaught hexcused
        · have hgo : ∀ {Q' : α → Cursor → Prop} {E' : Fault → Cursor → Prop},
              Ends (h (.refused e)) c' Q' E' → Ends (MonadExcept.tryCatch p h) c Q' E' := by
            intro Q' E' hh
            rw [ends_iff, hcaught]
            exact ends_iff.1 hh
          exact (hrefused e e' herrors c' d' hstates').mono (fun _ _ h => hgo h)
            (fun _ _ h e he => hgo (h e he))
    · rw [hother' fault hr]
      exact ends_throw.2 (fun e he => absurd ⟨e, he⟩ hr)

end Rules

theorem coupled_get : Coupled K K.states get get :=
  fun _ _ hstates => ends_get.2 (ends_get.2 ⟨hstates, hstates⟩)

theorem coupled_position : Coupled K K.places position position :=
  coupled_get.bind (fun _ _ h => coupled_pure (K.place h))

theorem coupled_capacity : Coupled K (fun a b => b ≤ a) capacity capacity :=
  coupled_get.bind (fun _ _ h => coupled_pure (K.capacity_le h))

end Parser

/-! ### What the grammar asks of a coupling -/

/-- **A lawful coupling**: every primitive by which the grammar looks at a cursor, moves it, records
a failure or chooses among errors keeps to the coupling. -/
structure Coupling.Lawful (K : Coupling) : Prop where
  peekNext : Parser.Coupled K Eq Parser.peekNext Parser.peekNext
  startsAssignment : Parser.Coupled K Eq (Parser.onStream TokenStream.startsAssignment)
    (Parser.onStream TokenStream.startsAssignment)
  tag : ∀ k : TokenKind, Parser.Coupled K Eq (Parser.tag k) (Parser.tag k)
  rewind : ∀ {m n : Nat}, K.places m n →
    Parser.Coupled K (fun _ _ => True) (Parser.rewind m) (Parser.rewind n)
  record_here : ∀ problem : Problem,
    Parser.Coupled K (fun f f' => K.errors (.failed f) (.failed f')) (Parser.record problem none)
      (Parser.record problem none)
  record_at : ∀ (problem : Problem) {m n : Nat}, K.places m n →
    Parser.Coupled K (fun f f' => K.errors (.failed f) (.failed f'))
      (Parser.record problem (some m)) (Parser.record problem (some n))
  forget : Parser.Coupled K (fun _ _ => True) (modify fun c => { c with failures := [] })
    (modify fun c => { c with failures := [] })
  bestError : ∀ {e e' : ParseError} {es es' : List ParseError} {m n : Nat}, K.errors e e' →
    List.Forall₂ K.errors es es' → K.places m n →
    Parser.Coupled K K.errors (Parser.bestError e es m) (Parser.bestError e' es' n)

namespace Parser

variable {α β : Type} {K : Coupling}

section Primitives

variable {V : α → β → Prop}

theorem coupled_reject_here (hK : K.Lawful) (problem : Problem) :
    Coupled K V (reject problem) (reject problem) :=
  (hK.record_here problem).bind (fun _ _ h => coupled_throw h)

theorem coupled_reject_at (hK : K.Lawful) (problem : Problem) {m n : Nat} (h : K.places m n) :
    Coupled K V (reject problem (some m)) (reject problem (some n)) :=
  (hK.record_at problem h).bind (fun _ _ h => coupled_throw h)

end Primitives

/-! ### Moving back -/

section MovingBack

variable {V : α → β → Prop} {p : ParseM α} {q : ParseM β}

theorem Coupled.attempt (h : Coupled K V p q) (hK : K.Lawful) :
    Coupled K V (attempt p) (attempt q) := by
  unfold Parser.attempt
  refine coupled_position.bind (fun mark mark' hmark => ?_)
  refine h.tryCatch (fun e e' he => ?_) ?_ ?_
  · exact (hK.rewind hmark).bind (fun _ _ _ => coupled_throw he)
  all_goals
    intro fault hf
    cases fault with
    | refused e => exact absurd ⟨e, rfl⟩ hf
    | _ => rfl

theorem Coupled.trial {p q : ParseM α} (h : Coupled K Eq p q) (hK : K.Lawful) :
    Coupled K (SameResult K.errors) (trial p) (trial q) := by
  unfold Parser.trial
  refine Coupled.tryCatch ?_ (fun e e' he => coupled_pure (.error he)) ?_ ?_
  · refine (h.attempt hK).bind ?_
    rintro a _ rfl
    exact coupled_pure (.ok a)
  all_goals
    intro fault hf
    cases fault with
    | refused e => exact absurd ⟨e, rfl⟩ hf
    | _ => rfl

theorem Coupled.optional {p q : ParseM α} (h : Coupled K Eq p q) (hK : K.Lawful) :
    Coupled K Eq (Parser.optional p) (Parser.optional q) := by
  unfold Parser.optional
  refine (h.trial hK).bind ?_
  rintro _ _ (a | he)
  · exact coupled_pure rfl
  · exact coupled_pure rfl

end MovingBack

theorem coupled_atEnd (hK : K.Lawful) : Coupled K Eq atEnd atEnd := by
  unfold atEnd
  refine hK.peekNext.bind ?_
  rintro found _ rfl
  rcases found with _ | t
  · exact coupled_pure rfl
  · exact coupled_pure rfl

/-! ### The grammar -/

theorem coupled_literal (hK : K.Lawful) : Coupled K Eq literal literal := by
  unfold literal
  refine hK.peekNext.bind ?_
  rintro found _ rfl
  generalize found.filter (fun t => isLiteral t.kind) = literal?
  rcases literal? with _ | t
  · exact coupled_reject_here hK _
  · refine coupled_position.bind (fun start start' hstart => ?_)
    refine (hK.tag t.kind).bind ?_
    rintro t _ rfl
    have hreject : ∀ problem : Problem,
        Coupled K Eq (reject problem (some start) : ParseM Tree) (reject problem (some start')) :=
      fun problem => coupled_reject_at hK problem hstart
    refine .ite (fun _ => .ite (fun _ => coupled_pure rfl) (fun _ => hreject _))
      (fun _ => .ite (fun _ => ?_)
        (fun _ => .ite (fun _ => hreject _) (fun _ => coupled_pure rfl)))
    exact coupled_fault (fun ⟨_, h⟩ => Fault.noConfusion h)

theorem coupled_usage (hK : K.Lawful) : Coupled K Eq usage usage := by
  refine (hK.tag .ident).bind ?_
  rintro t _ rfl
  exact coupled_pure rfl

theorem coupled_operator (hK : K.Lawful) : Coupled K Eq operator operator := by
  unfold operator
  refine hK.peekNext.bind ?_
  rintro found _ rfl
  rcases found.filter Token.isOperator with _ | t
  · exact coupled_reject_here hK _
  · dsimp only
    rcases Operator.ofKind? t.kind with _ | op
    · exact coupled_reject_here hK _
    · exact (hK.tag t.kind).bind (fun _ _ _ => coupled_pure rfl)

section Statements

variable {stmt stmt' : ParseM Tree}

theorem coupled_blockItems (hK : K.Lawful) (hstmt : Coupled K Eq stmt stmt') {fuel' fuel : Nat}
    (hfuel : fuel' ≤ fuel) : Coupled K Eq (blockItems stmt fuel) (blockItems stmt' fuel') := by
  induction fuel' generalizing fuel with
  | zero => exact coupled_outOfSteps
  | succ fuel' ih =>
    obtain ⟨fuel, rfl⟩ : ∃ n, fuel = n + 1 := ⟨fuel - 1, by omega⟩
    unfold blockItems
    refine hK.peekNext.bind ?_
    rintro found _ rfl
    rcases found with _ | t
    · exact coupled_pure rfl
    · refine .ite (fun _ => coupled_pure rfl) (fun _ => (hstmt.optional hK).bind ?_)
      rintro found _ rfl
      rcases found with _ | t
      · exact coupled_pure rfl
      · refine (ih (by omega)).bind ?_
        rintro ts _ rfl
        exact coupled_pure rfl

theorem coupled_closeBlock (hK : K.Lawful) {start start' : Nat} (hstart : K.places start start') :
    Coupled K Eq (closeBlock start) (closeBlock start') := by
  unfold closeBlock
  refine ((hK.tag .closeBrace).trial hK).bind ?_
  rintro _ _ (t | he)
  · exact coupled_pure rfl
  · exact (hK.bestError he .nil hstart).bind (fun _ _ hbest => coupled_throw hbest)

theorem coupled_block (hK : K.Lawful) (hstmt : Coupled K Eq stmt stmt') :
    Coupled K Eq (block stmt) (block stmt') := by
  unfold block
  refine (hK.tag .openBrace).bind (fun _ _ _ => ?_)
  refine coupled_position.bind (fun start start' hstart => ?_)
  refine coupled_capacity.bind (fun _ _ hle => ?_)
  refine (coupled_blockItems hK hstmt (Nat.succ_le_succ hle)).bind ?_
  rintro ts _ rfl
  exact (coupled_closeBlock hK hstart).bind (fun _ _ _ => coupled_pure rfl)

theorem coupled_atom (hK : K.Lawful) (hstmt : Coupled K Eq stmt stmt') :
    Coupled K Eq (atom stmt) (atom stmt') := by
  unfold atom
  refine hK.peekNext.bind ?_
  rintro found _ rfl
  split
  · exact coupled_literal hK
  · exact coupled_literal hK
  · exact coupled_usage hK
  · exact coupled_block hK hstmt
  · exact coupled_reject_here hK _

theorem coupled_chainItems (hK : K.Lawful) (hstmt : Coupled K Eq stmt stmt') {fuel' fuel : Nat}
    (hfuel : fuel' ≤ fuel) : Coupled K Eq (chainItems stmt fuel) (chainItems stmt' fuel') := by
  induction fuel' generalizing fuel with
  | zero => exact coupled_outOfSteps
  | succ fuel' ih =>
    obtain ⟨fuel, rfl⟩ : ∃ n, fuel = n + 1 := ⟨fuel - 1, by omega⟩
    unfold chainItems
    refine (coupled_atom hK hstmt).bind ?_
    rintro left _ rfl
    refine hK.peekNext.bind ?_
    rintro found _ rfl
    refine .ite (fun _ => (coupled_operator hK).bind ?_) (fun _ => coupled_pure rfl)
    rintro op _ rfl
    refine (ih (by omega)).bind ?_
    rintro right _ rfl
    exact coupled_pure rfl

/-- The same expressions on the stack, and places noted that belong together. -/
structure Folded.Coupled (K : Coupling) (a b : Folded) : Prop where
  stack_eq : a.stack = b.stack
  single : Option.Rel (fun x y => K.places x.1 y.1 ∧ x.2 = y.2) a.single b.single

theorem coupled_settle {single single' : Option (Nat × Tree)} (stack : List Tree)
    (h : Option.Rel (fun x y => K.places x.1 y.1 ∧ x.2 = y.2) single single') :
    Coupled K (Folded.Coupled K) (Folded.settle stack single) (Folded.settle stack single') := by
  unfold Folded.settle
  split
  · refine coupled_position.bind (fun mark mark' hmark => ?_)
    exact coupled_pure ⟨rfl, .some ⟨hmark, rfl⟩⟩
  · exact coupled_pure ⟨rfl, h⟩

theorem coupled_startsStatement (hK : K.Lawful) (stack : List Tree) :
    Coupled K Eq (startsStatement stack) (startsStatement stack) :=
  .ite (fun _ => coupled_pure rfl) (fun _ => hK.startsAssignment)

theorem coupled_foldItems (hK : K.Lawful) (hstmt : Coupled K Eq stmt stmt') {fuel' fuel : Nat}
    (hfuel : fuel' ≤ fuel) {folded folded' : Folded} (h : folded.Coupled K folded') :
    Coupled K (Folded.Coupled K) (foldItems stmt fuel folded)
      (foldItems stmt' fuel' folded') := by
  induction fuel' generalizing fuel folded folded' with
  | zero => exact coupled_outOfSteps
  | succ fuel' ih =>
    obtain ⟨fuel, rfl⟩ : ∃ n, fuel = n + 1 := ⟨fuel - 1, by omega⟩
    obtain ⟨stack, single⟩ := folded
    obtain ⟨_, single'⟩ := folded'
    obtain ⟨rfl, hsingle⟩ := h
    unfold foldItems
    refine hK.peekNext.bind ?_
    rintro found _ rfl
    rcases found with _ | t
    · exact coupled_pure ⟨rfl, hsingle⟩
    · refine .ite (fun _ => ?_) (fun _ => .ite (fun _ => ?_) (fun _ => coupled_pure ⟨rfl, hsingle⟩))
      · refine (coupled_startsStatement hK stack).bind ?_
        rintro starts _ rfl
        refine .ite (fun _ => coupled_pure ⟨rfl, hsingle⟩)
          (fun _ => ((coupled_atom hK hstmt).attempt hK).bind ?_)
        rintro e _ rfl
        exact (coupled_settle (e :: stack) hsingle).bind (fun _ _ h => ih (by omega) h)
      · refine coupled_position.bind (fun start start' hstart => ?_)
        refine (coupled_operator hK).bind ?_
        rintro op _ rfl
        dsimp only
        split
        · exact (coupled_settle _ hsingle).bind (fun _ _ h => ih (by omega) h)
        · exact coupled_reject_at hK _ hstart

theorem coupled_foldExpr (hK : K.Lawful) (hstmt : Coupled K Eq stmt stmt') :
    Coupled K Eq (foldExpr stmt) (foldExpr stmt') := by
  unfold foldExpr
  refine coupled_capacity.bind (fun _ _ hle => ?_)
  refine (coupled_foldItems hK hstmt (Nat.succ_le_succ hle) ⟨rfl, .none⟩).bind ?_
  rintro ⟨stack, single⟩ ⟨_, single'⟩ ⟨rfl, hsingle⟩
  dsimp only at hsingle ⊢
  split
  · refine hK.peekNext.bind ?_
    rintro found _ rfl
    exact coupled_reject_here hK _
  · exact coupled_pure rfl
  · cases hsingle with
    | none => exact coupled_fault (fun ⟨_, h⟩ => Fault.noConfusion h)
    | some h =>
      obtain ⟨hmark, he⟩ := h
      exact (hK.rewind hmark).bind (fun _ _ _ => coupled_pure he)

theorem coupled_expr (hK : K.Lawful) (hstmt : Coupled K Eq stmt stmt') :
    Coupled K Eq (expr stmt) (expr stmt') := by
  unfold expr
  refine coupled_get.bind (fun c d hstates => ?_)
  rw [K.grouping_eq hstates]
  cases d.grouping with
  | byPrecedence => exact coupled_foldExpr hK hstmt
  | rightward =>
    exact coupled_capacity.bind
      (fun _ _ hle => coupled_chainItems hK hstmt (Nat.succ_le_succ hle))

theorem coupled_value (hK : K.Lawful) (hstmt : Coupled K Eq stmt stmt') (make : Tree → Tree) :
    Coupled K Eq
      (do
        let _ ← tag .equals
        let value ← expr stmt
        let _ ← tag .semi
        return make value)
      (do
        let _ ← tag .equals
        let value ← expr stmt'
        let _ ← tag .semi
        return make value) := by
  refine (hK.tag .equals).bind (fun _ _ _ => ?_)
  refine (coupled_expr hK hstmt).bind ?_
  rintro value _ rfl
  exact (hK.tag .semi).bind (fun _ _ _ => coupled_pure rfl)

theorem coupled_binding (hK : K.Lawful) (hstmt : Coupled K Eq stmt stmt') :
    Coupled K Eq (binding stmt) (binding stmt') := by
  unfold binding
  refine (hK.tag .letWord).bind (fun _ _ _ => ?_)
  refine (hK.tag .ident).bind ?_
  rintro name _ rfl
  refine hK.peekNext.bind ?_
  rintro found _ rfl
  refine .ite (fun _ => (hK.tag .semi).bind (fun _ _ _ => coupled_pure rfl)) (fun _ => ?_)
  exact coupled_value hK hstmt (.initialization name.text)

theorem coupled_assignment (hK : K.Lawful) (hstmt : Coupled K Eq stmt stmt') :
    Coupled K Eq (assignment stmt) (assignment stmt') := by
  unfold assignment
  refine (hK.tag .ident).bind ?_
  rintro name _ rfl
  exact coupled_value hK hstmt (.assignment name.text)

theorem coupled_exprStatement (hK : K.Lawful) (hstmt : Coupled K Eq stmt stmt') :
    Coupled K Eq (exprStatement stmt) (exprStatement stmt') := by
  unfold exprStatement
  refine (coupled_expr hK hstmt).bind ?_
  rintro e _ rfl
  exact ((hK.tag .semi).optional hK).bind (fun _ _ _ => coupled_pure rfl)

theorem coupled_firstOf (hK : K.Lawful) {ps ps' : List (ParseM Tree)}
    (h : List.Forall₂ (Coupled K Eq) ps ps') :
    Coupled K (SameResult (List.Forall₂ K.errors)) (firstOf ps) (firstOf ps') := by
  induction h with
  | nil => exact coupled_pure (.error .nil)
  | cons hp _ ih =>
    unfold firstOf
    refine (hp.trial hK).bind ?_
    rintro _ _ (t | he)
    · exact coupled_pure (.ok t)
    · refine ih.bind ?_
      rintro _ _ (t | hes)
      · exact coupled_pure (.ok t)
      · exact coupled_pure (.error (.cons he hes))

theorem coupled_statementWith (hK : K.Lawful) (hstmt : Coupled K Eq stmt stmt') :
    Coupled K Eq (statementWith stmt) (statementWith stmt') := by
  unfold statementWith
  refine coupled_position.bind (fun start start' hstart => ?_)
  refine hK.startsAssignment.bind ?_
  rintro assigns _ rfl
  refine ((coupled_binding hK hstmt).trial hK).bind ?_
  rintro _ _ (t | hbinding)
  · exact coupled_pure rfl
  · have hexpr : List.Forall₂ (Coupled K Eq) [exprStatement stmt] [exprStatement stmt'] :=
      .cons (coupled_exprStatement hK hstmt) .nil
    have hothers : List.Forall₂ (Coupled K Eq)
        (if assigns = true then [assignment stmt, exprStatement stmt] else [exprStatement stmt])
        (if assigns = true then [assignment stmt', exprStatement stmt']
          else [exprStatement stmt']) := by
      split
      · exact .cons (coupled_assignment hK hstmt) hexpr
      · exact hexpr
    refine (coupled_firstOf hK hothers).bind ?_
    rintro _ _ (t | herrors)
    · exact coupled_pure rfl
    · have hmalformed : ∀ a b : ParseError, K.errors a b → Coupled K Eq
          (throw (.refused (.malformed a)) : ParseM Tree) (throw (.refused (.malformed b))) :=
        fun _ _ h => coupled_throw (K.malformed h)
      cases herrors with
      | nil => exact (hK.bestError hbinding .nil hstart).bind hmalformed
      | cons he hes =>
        have hlast := List.rel_append hes (.cons hbinding .nil)
        exact (hK.bestError he hlast hstart).bind hmalformed

end Statements

/-- Statements at any depth of blocks. -/
theorem coupled_statementAt (hK : K.Lawful) {depth' depth : Nat} (hdepth : depth' ≤ depth) :
    Coupled K Eq (statementAt depth) (statementAt depth') := by
  induction depth' generalizing depth with
  | zero => exact coupled_outOfSteps
  | succ depth' ih =>
    obtain ⟨depth, rfl⟩ : ∃ n, depth = n + 1 := ⟨depth - 1, by omega⟩
    exact coupled_statementWith hK (ih (by omega))

theorem coupled_statement (hK : K.Lawful) : Coupled K Eq statement statement :=
  coupled_capacity.bind (fun _ _ hle => coupled_statementAt hK (Nat.succ_le_succ hle))

theorem coupled_statements (hK : K.Lawful) {fuel' fuel : Nat} (hfuel : fuel' ≤ fuel) :
    Coupled K Eq (statements fuel) (statements fuel') := by
  induction fuel' generalizing fuel with
  | zero => exact coupled_outOfSteps
  | succ fuel' ih =>
    obtain ⟨fuel, rfl⟩ : ∃ n, fuel = n + 1 := ⟨fuel - 1, by omega⟩
    unfold statements
    refine (coupled_atEnd hK).bind ?_
    rintro ended _ rfl
    refine .ite (fun _ => coupled_pure rfl) (fun _ => ?_)
    refine hK.forget.bind (fun _ _ _ => ?_)
    refine (coupled_statement hK).bind ?_
    rintro t _ rfl
    refine (ih (by omega)).bind ?_
    rintro ts _ rfl
    exact coupled_pure rfl

end Parser

end BlockLang
