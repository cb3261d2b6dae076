import BlockLang.Proofs.Cursor
import BlockLang.Proofs.Phrase

/-!
# What is written is accepted

A parser that starts in front of a phrase or a passage reads it, gives its tree and ends
right behind it, if what follows cannot be taken for a part of it.  That is all a stream
with the signs between operands needs.  Where the signs stand behind, an expression is
found by reading on over the expressions after it and going back, so that what follows
has to be a passage too: `ends_fold_phrase` and `ends_fold_passage` say what the fold
does to the one and to the other.

Blocks hold passages, so the bound on the depth of blocks carries the induction:
`givesAtom_statementAt`.
-/

namespace BlockLang

open StepM

namespace Parser

variable {c : Cursor} {stmt : ParseM Tree} {α β : Type}

/-- From `c`, the parser gives `a` and leaves `rest` ahead. -/
def Gives (p : ParseM α) (c : Cursor) (a : α) (rest : List Token) : Prop :=
  Ends p c (fun b c' => b = a ∧ c.Along c' ∧ c'.ahead = rest) (fun _ _ => False)

/-- From `c`, the parser refuses the input on the spot. -/
def Refuses (p : ParseM α) (c : Cursor) : Prop :=
  Ends p c (fun _ _ => False) (fun e c' => e.IsRefusal ∧ c.Stays c')

theorem Gives.bind {p : ParseM α} {f : α → ParseM β} {a : α} {b : β} {rest rest' : List Token}
    (hc : c.Fit) (h : Gives p c a rest)
    (hf : ∀ c', c'.Fit → c'.grouping = c.grouping → c'.ahead = rest → Gives (f a) c' b rest') :
    Gives (p >>= f) c b rest' := by
  refine Ends.andThen h ?_
  rintro _ c₁ ⟨rfl, halong, hahead⟩
  refine (hf c₁ (halong.fit hc) halong.grouping_eq hahead).mono ?_ (fun _ _ h => h)
  rintro _ c₂ ⟨rfl, halong', hahead'⟩
  exact ⟨rfl, halong.trans halong', hahead'⟩

theorem gives_pure (hc : c.Fit) (a : α) : Gives (pure a) c a c.ahead :=
  ends_pure.2 ⟨rfl, hc.along, rfl⟩

theorem gives_peekNext (hc : c.Fit) : Gives peekNext c c.ahead.head? c.ahead :=
  (ends_peekNext hc).mono (fun _ _ h => ⟨h.1, h.2.toAlong, h.2.ahead_eq⟩) (fun _ _ h => h)

/-! ### Tokens -/

theorem gives_tag (hc : c.Fit) {t : Token} {rest : List Token} (h : c.ahead = t :: rest)
    {k : TokenKind} (hk : t.kind = k) : Gives (tag k) c t rest := by
  refine (ends_tag hc k).mono ?_ ?_
  · rintro u c' ⟨halong, hahead, -⟩
    obtain ⟨rfl, rfl⟩ := List.cons.inj (h.symm.trans hahead)
    exact ⟨rfl, halong, rfl⟩
  · rintro e c' ⟨-, -, hno⟩
    exact hno t (by rw [h]; rfl) hk

theorem refuses_tag (hc : c.Fit) {k : TokenKind}
    (h : ∀ t, c.ahead.head? = some t → t.kind ≠ k) : Refuses (tag k) c := by
  refine (ends_tag hc k).mono ?_ (fun _ _ h => ⟨h.1, h.2.1⟩)
  rintro t c' ⟨-, hahead, hk⟩
  exact h t (by rw [hahead]; rfl) hk

theorem Refuses.bind {p : ParseM α} {f : α → ParseM β} (h : Refuses p c) : Refuses (p >>= f) c :=
  Ends.bind h (fun _ _ h => h.elim) (fun _ _ h => h)

theorem Gives.attempt {p : ParseM α} {a : α} {rest : List Token} (h : Gives p c a rest) :
    Gives (attempt p) c a rest := by
  unfold Parser.attempt
  rw [Gives, ends_position_bind]
  exact Ends.tryCatch h (fun _ _ h => h) (fun _ _ h => h.elim)

theorem Gives.trial {p : ParseM α} {a : α} {rest : List Token} (h : Gives p c a rest) :
    Gives (trial p) c (.ok a) rest := by
  unfold Parser.trial
  refine Ends.tryCatch (Q := fun b c' => b = .ok a ∧ c.Along c' ∧ c'.ahead = rest)
    (E := fun _ _ => False) ?_ (fun _ _ h => h) (fun _ _ h => h.elim)
  refine Ends.andThen h.attempt ?_
  rintro _ c' ⟨rfl, halong, hahead⟩
  exact ends_pure.2 ⟨rfl, halong, hahead⟩

theorem Refuses.trial {p : ParseM α} (hc : c.Fit) (h : Refuses p c) :
    Ends (trial p) c (fun r c' => (∃ e, r = .error e) ∧ c.Stays c') (fun _ _ => False) := by
  unfold Parser.trial Parser.attempt
  refine Ends.tryCatch (Q := fun _ _ => False) (E := fun e c' => e.IsRefusal ∧ c.Stays c') ?_
    (fun _ _ h => h.elim) ?_
  · rw [ends_bind, ends_position_bind]
    refine Ends.tryCatch h (fun _ _ h => h.elim) ?_
    rintro _ c₁ ⟨⟨e, rfl⟩, hstay⟩
    refine (ends_rewind (hstay.fit hc)
      (Nat.le_trans hc.sound.pos_le hstay.stream.buffer_le)).andThen ?_
    rintro _ c₂ ⟨hlater, hpos⟩
    exact ends_throw.2 ⟨⟨e, rfl⟩, ⟨hstay.toLater.trans hlater, hpos⟩⟩
  · rintro _ c₁ ⟨⟨e, rfl⟩, hstay⟩
    exact ends_pure.2 ⟨⟨e, rfl⟩, hstay⟩

theorem Gives.optional {p : ParseM α} {a : α} {rest : List Token} (h : Gives p c a rest) :
    Gives (Parser.optional p) c (some a) rest := by
  unfold Parser.optional
  refine Ends.andThen h.trial ?_
  rintro _ c' ⟨rfl, halong, hahead⟩
  exact ends_pure.2 ⟨rfl, halong, hahead⟩

theorem Refuses.optional {p : ParseM α} (hc : c.Fit) (h : Refuses p c) :
    Gives (Parser.optional p) c none c.ahead := by
  unfold Parser.optional
  refine Ends.andThen (h.trial hc) ?_
  rintro _ c' ⟨⟨e, rfl⟩, hstay⟩
  exact ends_pure.2 ⟨rfl, hstay.toAlong, hstay.ahead_eq⟩

theorem gives_operator (hc : c.Fit) {op : Operator} {rest : List Token}
    (h : c.ahead = op.token :: rest) : Gives operator c op rest := by
  unfold operator
  refine (gives_peekNext hc).bind hc ?_
  intro c₁ hc₁ _ hahead₁
  rw [h] at hahead₁
  have hfilter : (op.token :: rest).head?.filter Token.isOperator = some op.token := by
    rw [List.head?_cons, Option.filter_some, if_pos op.isOperator_token]
  rw [h, hfilter]
  simp only [Operator.kind_token, Operator.ofKind?_kind]
  refine (gives_tag hc₁ hahead₁ rfl).bind hc₁ ?_
  intro c₂ hc₂ _ hahead₂
  rw [← hahead₂]
  exact gives_pure hc₂ op

theorem gives_literal (hc : c.Fit) {t : Token} {e : Tree} {rest : List Token}
    (h : c.ahead = t :: rest) (he : t.leaf? = some e) (hk : isLiteral t.kind = true) :
    Gives literal c e rest := by
  unfold literal
  refine (gives_peekNext hc).bind hc ?_
  intro c₁ hc₁ _ hahead₁
  rw [h] at hahead₁
  have hfilter : (t :: rest).head?.filter (fun t => isLiteral t.kind) = some t := by
    rw [List.head?_cons, Option.filter_some, if_pos hk]
  rw [h, hfilter]
  simp only [Gives, ends_position_bind]
  refine (gives_tag hc₁ hahead₁ rfl).bind hc₁ ?_
  intro c₂ hc₂ _ hahead₂
  rw [← hahead₂]
  by_cases hs : t.kind = .string
  · simp only [Token.leaf?, hs] at he
    split at he
    next hterm =>
      rw [if_pos hs, if_pos hterm, ← Option.some.inj he]
      exact gives_pure hc₂ _
    · exact absurd he (by simp)
  · have hnum : t.kind = .number := by simpa [isLiteral, hs] using hk
    simp only [Token.leaf?, hnum] at he
    split at he
    next hfits =>
      rw [if_neg hs, if_neg (by omega), if_neg (by omega), ← Option.some.inj he]
      exact gives_pure hc₂ _
    · exact absurd he (by simp)

theorem gives_usage (hc : c.Fit) {t : Token} {rest : List Token} (h : c.ahead = t :: rest)
    (hk : t.kind = .ident) : Gives usage c (.name t.text) rest := by
  refine (gives_tag hc h hk).bind hc ?_
  intro c₁ hc₁ _ hahead₁
  rw [← hahead₁]
  exact gives_pure hc₁ _

/-! ### Atoms -/

/-- The parser of atoms reads `e` wherever it stands. -/
def GivesAtom (stmt : ParseM Tree) (g : Grouping) (e : Phrase) : Prop :=
  ∀ (c : Cursor) (rest : List Token), c.Fit → c.grouping = g →
    c.ahead = e.tokens g.placement ++ rest → Gives (atom stmt) c e.tree rest

theorem givesAtom_leaf (g : Grouping) {t : Token} {e : Tree} (he : t.leaf? = some e) :
    GivesAtom stmt g (.leaf t e he) := by
  intro c rest hc _ hahead
  have hahead : c.ahead = t :: rest := hahead
  unfold atom
  refine (gives_peekNext hc).bind hc ?_
  intro c₁ hc₁ _ hahead₁
  rw [hahead] at hahead₁
  rw [hahead, List.head?_cons, Option.map_some, Phrase.tree]
  rcases hk : t.kind
  case number => exact gives_literal hc₁ hahead₁ he (by rw [hk]; rfl)
  case string => exact gives_literal hc₁ hahead₁ he (by rw [hk]; rfl)
  case ident =>
    simp only [Token.leaf?, hk] at he
    rw [← Option.some.inj he]
    exact gives_usage hc₁ hahead₁ hk
  all_goals simp [Token.leaf?, hk] at he

theorem givesAtom_block (g : Grouping) {body : Passage}
    (hbody : ∀ (c : Cursor) (rest : List Token), c.Fit → c.grouping = g →
      c.ahead = body.tokens g.placement ++ .fixed .closeBrace :: rest →
      Gives (blockItems stmt (c.stream.capacity + 1)) c body.trees (.fixed .closeBrace :: rest)) :
    GivesAtom stmt g (.block body) := by
  intro c rest hc hg hahead
  have hahead : c.ahead
      = .fixed .openBrace :: (body.tokens g.placement ++ .fixed .closeBrace :: rest) := by
    rw [hahead, Phrase.tokens]
    simp
  unfold atom
  refine (gives_peekNext hc).bind hc ?_
  intro c₁ hc₁ hg₁ hahead₁
  rw [hahead] at hahead₁
  rw [hahead]
  show Gives (block stmt) c₁ _ _
  unfold block
  refine (gives_tag hc₁ hahead₁ rfl).bind hc₁ ?_
  intro c₂ hc₂ hg₂ hahead₂
  simp only [Gives, ends_position_bind, ends_capacity_bind]
  refine (hbody c₂ rest hc₂ (by rw [hg₂, hg₁, hg]) hahead₂).bind hc₂ ?_
  intro c₃ hc₃ _ hahead₃
  have hclose : Gives (closeBlock c₂.stream.pos) c₃ () rest := by
    unfold closeBlock
    refine (gives_tag hc₃ hahead₃ rfl).trial.bind hc₃ ?_
    intro c₄ hc₄ _ hahead₄
    rw [← hahead₄]
    exact gives_pure hc₄ ()
  refine hclose.bind hc₃ ?_
  intro c₄ hc₄ _ hahead₄
  rw [← hahead₄]
  exact gives_pure hc₄ _

/-! ### Expressions with signs between operands -/

theorem gives_chainItems_atom (hc : c.Fit) (hg : c.grouping = .rightward) {a : Phrase}
    {rest : List Token} {fuel : Nat} (ha : GivesAtom stmt .rightward a)
    (hahead : c.ahead = a.tokens .between ++ rest)
    (hrest : ∀ t, rest.head? = some t → t.isOperator = false) :
    Gives (chainItems stmt (fuel + 1)) c a.tree rest := by
  unfold chainItems
  refine (ha c rest hc hg hahead).bind hc ?_
  intro c₁ hc₁ _ hahead₁
  refine (gives_peekNext hc₁).bind hc₁ ?_
  intro c₂ hc₂ _ hahead₂
  rw [hahead₁] at hahead₂ ⊢
  have hnone : rest.head?.any Token.isOperator = false := by
    cases hhead : rest.head? with
    | none => rfl
    | some t => exact hrest t hhead
  rw [hnone, ← hahead₂]
  exact gives_pure hc₂ _

theorem gives_chainItems_operation (hc : c.Fit) (hg : c.grouping = .rightward) {l : Phrase}
    {op : Operator} {right : Tree} {rest rest' : List Token} {fuel : Nat}
    (hl : GivesAtom stmt .rightward l) (hahead : c.ahead = l.tokens .between ++ op.token :: rest)
    (hr : ∀ c', c'.Fit → c'.grouping = .rightward → c'.ahead = rest →
      Gives (chainItems stmt fuel) c' right rest') :
    Gives (chainItems stmt (fuel + 1)) c (.operation l.tree right op) rest' := by
  unfold chainItems
  refine (hl c _ hc hg hahead).bind hc ?_
  intro c₁ hc₁ hg₁ hahead₁
  refine (gives_peekNext hc₁).bind hc₁ ?_
  intro c₂ hc₂ hg₂ hahead₂
  rw [hahead₁] at hahead₂ ⊢
  rw [List.head?_cons, Option.any_some, op.isOperator_token, if_pos rfl]
  refine (gives_operator hc₂ hahead₂).bind hc₂ ?_
  intro c₃ hc₃ hg₃ hahead₃
  refine (hr c₃ hc₃ (by rw [hg₃, hg₂, hg₁, hg]) hahead₃).bind hc₃ ?_
  intro c₄ hc₄ _ hahead₄
  rw [← hahead₄]
  exact gives_pure hc₄ _

/-- **An expression of which the atoms are read is read**, if no operator follows it. -/
theorem gives_chainItems : ∀ (e : Phrase) {c : Cursor} {rest : List Token} {fuel : Nat},
    c.Fit → c.grouping = .rightward → (∀ a ∈ e.atoms, GivesAtom stmt .rightward a) →
    e.nestsRight = true → (e.tokens .between).length ≤ fuel →
    c.ahead = e.tokens .between ++ rest → (∀ t, rest.head? = some t → t.isOperator = false) →
    Gives (chainItems stmt fuel) c e.tree rest
  | .leaf t e he, c, rest, fuel, hc, hg, hatoms, _, hfuel, hahead, hrest => by
    obtain ⟨fuel, rfl⟩ := Nat.exists_eq_add_of_le' hfuel
    exact gives_chainItems_atom hc hg (hatoms _ List.mem_cons_self) hahead hrest
  | .block body, c, rest, fuel, hc, hg, hatoms, _, hfuel, hahead, hrest => by
    rw [Phrase.tokens, List.length_cons] at hfuel
    obtain ⟨fuel, rfl⟩ := Nat.exists_eq_add_of_le' hfuel
    exact gives_chainItems_atom hc hg (hatoms _ List.mem_cons_self) hahead hrest
  | .operation l op r, c, rest, fuel, hc, hg, hatoms, hnests, hfuel, hahead, hrest => by
    simp only [Phrase.nestsRight, Bool.and_eq_true, Bool.not_eq_true'] at hnests
    rw [Phrase.length_tokens_operation] at hfuel
    obtain ⟨fuel, rfl⟩ : ∃ n, fuel = n + 1 := ⟨fuel - 1, by omega⟩
    rw [Phrase.atoms, Phrase.atoms_of_atom hnests.1.1] at hatoms
    rw [Phrase.tokens, Placement.arrange, List.append_assoc, List.cons_append] at hahead
    refine gives_chainItems_operation hc hg (hatoms l List.mem_cons_self) hahead ?_
    intro c' hc' hg' hahead'
    exact gives_chainItems r hc' hg' (fun a ha => hatoms a (List.mem_cons_of_mem l ha)) hnests.2
      (by omega) hahead' hrest

/-! ### Expressions with signs behind operands -/

/-- The state of a fold after one more expression, which ends at `pos`. -/
def pushed (folded : Folded) (pos : Nat) (t : Tree) : Folded :=
  { stack := t :: folded.stack,
    single := if folded.stack = [] then some (pos, t) else folded.single }

theorem ends_settle_cons {Q : Folded → Cursor → Prop} {E : Fault → Cursor → Prop} {t : Tree}
    {stack : List Tree} {single : Option (Nat × Tree)} :
    Ends (Folded.settle (t :: stack) single) c Q E
      ↔ Q (pushed ⟨stack, single⟩ c.stream.pos t) c := by
  unfold Folded.settle
  cases stack with
  | nil => simp only [ends_position_bind, ends_pure, pushed, if_true]
  | cons u stack => simp [pushed]

/-- The fold goes on after an atom.  A name with `=` after it is taken for one only if nothing is on
the stack. -/
theorem ends_fold_atom (hc : c.Fit) (hg : c.grouping = .byPrecedence) {a : Phrase}
    (ha : GivesAtom stmt .byPrecedence a) {rest : List Token}
    (hahead : c.ahead = a.tokens .behind ++ rest) {folded : Folded}
    (hrest : folded.stack ≠ [] → ∀ t, rest.head? = some t → t.kind ≠ .equals) {fuel : Nat}
    {Q : Folded → Cursor → Prop} {E : Fault → Cursor → Prop}
    (hnext : ∀ c', c.Along c' → c'.ahead = rest →
      Ends (foldItems stmt fuel (pushed folded c'.stream.pos a.tree)) c' Q E) :
    Ends (foldItems stmt (fuel + 1) folded) c Q E := by
  obtain ⟨t, rest', ht, hstart⟩ := a.exists_head .behind
  unfold foldItems
  refine (ends_peekNext hc).andThen ?_
  rintro _ c₁ ⟨rfl, hstay₁⟩
  have hc₁ := hstay₁.fit hc
  rw [hahead, ht, List.cons_append, List.head?_cons]
  dsimp only
  rw [if_pos hstart]
  have hstarts : Ends (startsStatement folded.stack) c₁ (fun b c' => b = false ∧ c₁.Stays c')
      (fun _ _ => False) := by
    unfold startsStatement
    split
    · exact ends_pure.2 ⟨rfl, hc₁.stays⟩
    next hstack =>
      refine (ends_startsAssignment hc₁).mono ?_ (fun _ _ h => h)
      rintro _ c₂ ⟨rfl, hstay₂⟩
      rw [hstay₁.ahead_eq, hahead]
      have hrest := hrest (by simpa using hstack)
      exact ⟨decide_eq_false (a.take_two_ne .behind rest hrest), hstay₂⟩
  refine hstarts.andThen ?_
  rintro _ c₂ ⟨rfl, hstay₂⟩
  have hstay := hstay₁.trans hstay₂
  have hread := ha c₂ rest (hstay.fit hc) (by rw [hstay.grouping_eq, hg])
    (by rw [hstay.ahead_eq, hahead]; rfl)
  rw [if_neg (by simp)]
  refine Ends.andThen hread.attempt ?_
  rintro _ c₃ ⟨rfl, halong₃, hahead₃⟩
  rw [ends_bind, ends_settle_cons]
  exact hnext c₃ (hstay.toAlong.trans halong₃) hahead₃

theorem ends_fold_operator (hc : c.Fit) {op : Operator} {rest : List Token}
    (hahead : c.ahead = op.token :: rest) {left right : Tree} {stack : List Tree}
    {single : Option (Nat × Tree)} {fuel : Nat} {Q : Folded → Cursor → Prop}
    {E : Fault → Cursor → Prop}
    (hnext : ∀ c', c.Along c' → c'.ahead = rest →
      Ends (foldItems stmt fuel (pushed ⟨stack, single⟩ c'.stream.pos (.operation left right op)))
        c' Q E) :
    Ends (foldItems stmt (fuel + 1) ⟨right :: left :: stack, single⟩) c Q E := by
  unfold foldItems
  refine (ends_peekNext hc).andThen ?_
  rintro _ c₁ ⟨rfl, hstay₁⟩
  have hc₁ := hstay₁.fit hc
  have hnot : (op.token.isOperand || op.token.kind = .openBrace) = false := by cases op <;> rfl
  rw [hahead, List.head?_cons]
  dsimp only
  rw [if_neg (by rw [hnot]; exact Bool.false_ne_true), if_pos op.isOperator_token,
    ends_position_bind]
  refine Ends.andThen (gives_operator hc₁ (by rw [hstay₁.ahead_eq, hahead])) ?_
  rintro _ c₂ ⟨rfl, halong₂, hahead₂⟩
  rw [ends_bind, ends_settle_cons]
  exact hnext c₂ (hstay₁.toAlong.trans halong₂) hahead₂

theorem pushed_operation (folded : Folded) (i j k : Nat) (l r t : Tree) :
    pushed ⟨folded.stack, (pushed (pushed folded i l) j r).single⟩ k t = pushed folded k t := by
  unfold pushed
  by_cases h : folded.stack = []
  · simp [h]
  · simp [h]

/-- **The fold over an expression** puts the expression onto the stack. -/
theorem ends_fold_phrase : ∀ (e : Phrase) {c : Cursor} {rest : List Token} {folded : Folded}
    {fuel : Nat} {Q : Folded → Cursor → Prop} {E : Fault → Cursor → Prop},
    c.Fit → c.grouping = .byPrecedence → (∀ a ∈ e.atoms, GivesAtom stmt .byPrecedence a) →
    (e.tokens .behind).length ≤ fuel → c.ahead = e.tokens .behind ++ rest →
    (∀ t, rest.head? = some t → t.kind ≠ .equals) →
    (∀ c' fuel', c.Along c' → c'.ahead = rest → fuel ≤ fuel' + (e.tokens .behind).length →
      Ends (foldItems stmt fuel' (pushed folded c'.stream.pos e.tree)) c' Q E) →
    Ends (foldItems stmt fuel folded) c Q E
  | .leaf t e he, c, rest, folded, fuel, Q, E, hc, hg, hatoms, hfuel, hahead, hrest, hnext => by
    obtain ⟨fuel, rfl⟩ := Nat.exists_eq_add_of_le' hfuel
    exact ends_fold_atom hc hg (hatoms _ List.mem_cons_self) hahead (fun _ => hrest)
      (fun c' halong hahead' => hnext c' fuel halong hahead' (Nat.le_refl _))
  | .block body, c, rest, folded, fuel, Q, E, hc, hg, hatoms, hfuel, hahead, hrest, hnext => by
    rw [Phrase.tokens, List.length_cons] at hfuel
    obtain ⟨fuel, rfl⟩ := Nat.exists_eq_add_of_le' (Nat.le_of_add_left_le hfuel)
    refine ends_fold_atom hc hg (hatoms _ List.mem_cons_self) hahead (fun _ => hrest) ?_
    intro c' halong hahead'
    refine hnext c' fuel halong hahead' ?_
    rw [Phrase.tokens, List.length_cons]
    omega
  | .operation l op r, c, rest, folded, fuel, Q, E, hc, hg, hatoms, hfuel, hahead, hrest,
      hnext => by
    rw [Phrase.length_tokens_operation] at hfuel hnext
    rw [Phrase.tokens, Placement.arrange, List.append_assoc, List.append_assoc,
      List.singleton_append] at hahead
    -- the left operand, the right operand, then the operator
    refine ends_fold_phrase l hc hg (fun a ha => hatoms a (List.mem_append_left _ ha)) (by omega)
      hahead (r.head_ne_equals .behind _) ?_
    intro c₁ fuel₁ halong₁ hahead₁ hfuel₁
    refine ends_fold_phrase r (halong₁.fit hc) (by rw [halong₁.grouping_eq, hg])
      (fun a ha => hatoms a (List.mem_append_right _ ha)) (by omega) hahead₁ ?_ ?_
    · intro t ht
      obtain rfl := Option.some.inj ht
      cases op <;> exact TokenKind.noConfusion
    · intro c₂ fuel₂ halong₂ hahead₂ hfuel₂
      have halong := halong₁.trans halong₂
      obtain ⟨fuel₂, rfl⟩ : ∃ n, fuel₂ = n + 1 := ⟨fuel₂ - 1, by omega⟩
      refine ends_fold_operator (halong.fit hc) hahead₂ ?_
      intro c₃ halong₃ hahead₃
      have hend := hnext c₃ fuel₂ (halong.trans halong₃) hahead₃ (by omega)
      rw [← pushed_operation folded c₁.stream.pos c₂.stream.pos _ l.tree r.tree] at hend
      exact hend

theorem ends_fold_stop (hc : c.Fit) {t : Token} {rest : List Token} (hahead : c.ahead = t :: rest)
    (hopen : (t.isOperand || t.kind = .openBrace) = false) (hop : t.isOperator = false)
    (folded : Folded) (fuel : Nat) :
    Ends (foldItems stmt (fuel + 1) folded) c (fun f c' => f = folded ∧ c.Stays c')
      (fun _ _ => False) := by
  unfold foldItems
  refine (ends_peekNext hc).andThen ?_
  rintro _ c₁ ⟨rfl, hstay₁⟩
  rw [hahead, List.head?_cons]
  dsimp only
  rw [if_neg (by rw [hopen]; exact Bool.false_ne_true),
    if_neg (by rw [hop]; exact Bool.false_ne_true)]
  exact ends_pure.2 ⟨rfl, hstay₁⟩

theorem ends_fold_assignment (hc : c.Fit) {name : String} {rest : List Token}
    (hahead : c.ahead = .ofName name :: .fixed .equals :: rest) {folded : Folded}
    (hstack : folded.stack ≠ []) (fuel : Nat) :
    Ends (foldItems stmt (fuel + 1) folded) c (fun f c' => f = folded ∧ c.Stays c')
      (fun _ _ => False) := by
  unfold foldItems
  refine (ends_peekNext hc).andThen ?_
  rintro _ c₁ ⟨rfl, hstay₁⟩
  have hname : ((Token.ofName name).isOperand || (Token.ofName name).kind = .openBrace) = true :=
    rfl
  rw [hahead, List.head?_cons]
  dsimp only
  rw [if_pos hname]
  have hstarts : Ends (startsStatement folded.stack) c₁ (fun b c' => b = true ∧ c₁.Stays c')
      (fun _ _ => False) := by
    unfold startsStatement
    rw [if_neg (by simpa using hstack)]
    refine (ends_startsAssignment (hstay₁.fit hc)).mono ?_ (fun _ _ h => h)
    rintro _ c₂ ⟨rfl, hstay₂⟩
    rw [hstay₁.ahead_eq, hahead]
    exact ⟨decide_eq_true rfl, hstay₂⟩
  refine hstarts.andThen ?_
  rintro _ c₂ ⟨rfl, hstay₂⟩
  exact ends_pure.2 ⟨rfl, hstay₁.trans hstay₂⟩

/-- How a fold ends that reads on at `c` from the state `folded`: the same place is noted, and
nothing was taken or more than one expression is on the stack. -/
def ReadsOn (c : Cursor) (folded f : Folded) (c' : Cursor) : Prop :=
  c.Along c' ∧ f.single = folded.single
    ∧ (f.stack = folded.stack ∧ c'.ahead = c.ahead ∨ ∃ t u more, f.stack = t :: u :: more)

theorem readsOn_of_stays {c c' : Cursor} {folded f : Folded} (h : f = folded ∧ c.Stays c') :
    ReadsOn c folded f c' := by
  obtain ⟨rfl, hstay⟩ := h
  exact ⟨hstay.toAlong, rfl, .inl ⟨rfl, hstay.ahead_eq⟩⟩

theorem ReadsOn.of_pushed {c c₁ c' : Cursor} {folded f : Folded} {i : Nat} {t : Tree}
    (halong : c.Along c₁) (hstack : folded.stack ≠ []) (h : ReadsOn c₁ (pushed folded i t) f c') :
    ReadsOn c folded f c' := by
  obtain ⟨halong', hsingle, hmore⟩ := h
  refine ⟨halong.trans halong', hsingle.trans (if_neg hstack), .inr ?_⟩
  rcases hmore with ⟨hsame, -⟩ | hmore
  · obtain ⟨u, more, hfolded⟩ := List.exists_cons_of_ne_nil hstack
    exact ⟨t, u, more, by rw [hsame, pushed, hfolded]⟩
  · exact hmore

/-- **The fold over what follows an expression.**  It reads on over the expressions that come next
and stops where they end. -/
theorem ends_fold_passage {tail : List Token} :
    ∀ (b : Passage) {c : Cursor} {folded : Folded} {fuel : Nat}, b.Bounded true tail → c.Fit →
    c.grouping = .byPrecedence → (∀ e ∈ b.phrases, ∀ a ∈ e.atoms, GivesAtom stmt .byPrecedence a) →
    (b.tokens .behind).length < fuel → c.ahead = b.tokens .behind ++ tail →
    folded.stack ≠ [] →
    Ends (foldItems stmt fuel folded) c (ReadsOn c folded) (fun _ _ => False)
  | .done, c, folded, fuel, hb, hc, hg, hgiven, hfuel, hahead, hstack => by
    obtain ⟨fuel, rfl⟩ := Nat.exists_eq_add_of_le' hfuel
    obtain ⟨stop, rest, rfl, hstop⟩ := hb.resolve_left (by simp [Passage.endsBareFrom])
    refine (ends_fold_stop hc hahead ?_ ?_ folded fuel).mono (fun _ _ => readsOn_of_stays)
      (fun _ _ h => h)
    · rcases hstop with hk | hk <;> simp [Token.isOperand, TokenKind.isOperand, hk]
    · rcases hstop with hk | hk <;> simp [Token.isOperator, TokenKind.isOperator, hk]
  | .declaration name b, c, folded, fuel, hb, hc, hg, hgiven, hfuel, hahead, hstack => by
    obtain ⟨fuel, rfl⟩ : ∃ n, fuel = n + 1 := ⟨fuel - 1, by omega⟩
    exact (ends_fold_stop hc hahead rfl rfl folded fuel).mono (fun _ _ => readsOn_of_stays)
      (fun _ _ h => h)
  | .initialization name value b, c, folded, fuel, hb, hc, hg, hgiven, hfuel, hahead, hstack => by
    obtain ⟨fuel, rfl⟩ : ∃ n, fuel = n + 1 := ⟨fuel - 1, by omega⟩
    exact (ends_fold_stop hc hahead rfl rfl folded fuel).mono (fun _ _ => readsOn_of_stays)
      (fun _ _ h => h)
  | .assignment name value b, c, folded, fuel, hb, hc, hg, hgiven, hfuel, hahead, hstack => by
    obtain ⟨fuel, rfl⟩ : ∃ n, fuel = n + 1 := ⟨fuel - 1, by omega⟩
    exact (ends_fold_assignment hc hahead hstack fuel).mono (fun _ _ => readsOn_of_stays)
      (fun _ _ h => h)
  | .closed e b, c, folded, fuel, hb, hc, hg, hgiven, hfuel, hahead, hstack => by
    rw [Passage.tokens, List.length_append, List.length_cons] at hfuel
    rw [Passage.tokens, List.append_assoc, List.cons_append] at hahead
    refine ends_fold_phrase e hc hg (hgiven e List.mem_cons_self) (by omega) hahead ?_ ?_
    · intro t ht
      obtain rfl := Option.some.inj ht
      exact TokenKind.noConfusion
    · intro c₁ fuel₁ halong₁ hahead₁ hfuel₁
      obtain ⟨fuel₁, rfl⟩ : ∃ n, fuel₁ = n + 1 := ⟨fuel₁ - 1, by omega⟩
      refine (ends_fold_stop (halong₁.fit hc) hahead₁ rfl rfl _ fuel₁).mono ?_ (fun _ _ h => h)
      exact fun _ _ h => .of_pushed halong₁ hstack (readsOn_of_stays h)
  | .bare e b, c, folded, fuel, hb, hc, hg, hgiven, hfuel, hahead, hstack => by
    rw [Passage.tokens, List.length_append] at hfuel
    rw [Passage.tokens, List.append_assoc] at hahead
    refine ends_fold_phrase e hc hg (hgiven e List.mem_cons_self) (by omega) hahead ?_ ?_
    · exact Passage.Bounded.head_ne .behind (b := b) hb rfl
    · intro c₁ fuel₁ halong₁ hahead₁ hfuel₁
      have hmore : (pushed folded c₁.stream.pos e.tree).stack ≠ [] := List.cons_ne_nil _ _
      refine (ends_fold_passage b hb (halong₁.fit hc) (by rw [halong₁.grouping_eq, hg])
        (fun f hf => hgiven f (List.mem_cons_of_mem e hf)) (by omega) hahead₁ hmore).mono ?_
        (fun _ _ h => h)
      exact fun _ _ h => .of_pushed halong₁ hstack h

theorem gives_foldExpr (hc : c.Fit) (hg : c.grouping = .byPrecedence) {e : Phrase}
    (hatoms : ∀ a ∈ e.atoms, GivesAtom stmt .byPrecedence a) {tail : List Token}
    (hahead : c.ahead = e.tokens .behind ++ tail)
    (htail : ∀ t, tail.head? = some t → t.kind ≠ .equals)
    (hon : ∀ (c' : Cursor) (folded : Folded) (fuel : Nat), c'.Fit → c'.grouping = .byPrecedence →
      c'.ahead = tail → folded.stack ≠ [] → tail.length ≤ fuel →
      Ends (foldItems stmt (fuel + 1) folded) c' (ReadsOn c' folded) (fun _ _ => False)) :
    Gives (foldExpr stmt) c e.tree tail := by
  have hlen := hc.length_ahead_le
  rw [hahead, List.length_append] at hlen
  unfold foldExpr
  rw [Gives, ends_capacity_bind]
  have hfold : Ends (foldItems stmt (c.stream.capacity + 1) {}) c
      (fun f c' => ∃ c₁, c.Along c₁ ∧ c₁.ahead = tail
        ∧ ReadsOn c₁ (pushed {} c₁.stream.pos e.tree) f c') (fun _ _ => False) := by
    refine ends_fold_phrase e hc hg hatoms (by omega) hahead htail ?_
    intro c₁ fuel₁ halong₁ hahead₁ hfuel₁
    obtain ⟨fuel₁, rfl⟩ : ∃ n, fuel₁ = n + 1 := ⟨fuel₁ - 1, by omega⟩
    exact (hon c₁ _ fuel₁ (halong₁.fit hc) (by rw [halong₁.grouping_eq, hg]) hahead₁
      (List.cons_ne_nil _ _) (by omega)).mono (fun _ _ h => ⟨c₁, halong₁, hahead₁, h⟩)
      (fun _ _ h => h)
  refine hfold.andThen ?_
  rintro ⟨stack, single⟩ c' ⟨c₁, halong₁, hahead₁, halong', hsingle, hsame | ⟨t, u, more, hmore⟩⟩
  · obtain ⟨hstack, hahead'⟩ := hsame
    have hstack : stack = [e.tree] := hstack
    rw [hstack]
    exact ends_pure.2 ⟨rfl, halong₁.trans halong', hahead'.trans hahead₁⟩
  · have hmore : stack = t :: u :: more := hmore
    have hsingle : single = some (c₁.stream.pos, e.tree) := hsingle
    have hc' := halong'.fit (halong₁.fit hc)
    rw [hmore, hsingle]
    refine (ends_rewind hc'
      (Nat.le_trans (halong₁.fit hc).sound.pos_le halong'.stream.buffer_le)).andThen ?_
    rintro _ c₂ ⟨hlater₂, hpos₂⟩
    refine ends_pure.2 ⟨rfl, ⟨(halong₁.trans halong').toLater.trans hlater₂, ?_⟩, ?_⟩
    · rw [hpos₂]
      exact halong₁.halt
    · rw [Cursor.ahead, TokenStream.ahead, hpos₂, hlater₂.stream.aheadAt_eq,
        halong'.stream.aheadAt_eq]
      exact hahead₁

/-! ### Statements -/

/-- What can follow an expression: no operator where the signs stand between operands, and
something that the fold can read on over where they stand behind. -/
def Follows (stmt : ParseM Tree) : Grouping → List Token → Prop
  | .rightward, tail => ∀ t, tail.head? = some t → t.isOperator = false
  | .byPrecedence, tail => (∀ t, tail.head? = some t → t.kind ≠ .equals)
    ∧ ∀ (c : Cursor) (folded : Folded) (fuel : Nat), c.Fit → c.grouping = .byPrecedence →
      c.ahead = tail → folded.stack ≠ [] → tail.length ≤ fuel →
      Ends (foldItems stmt (fuel + 1) folded) c (ReadsOn c folded) (fun _ _ => False)

/-- **An expression is read**, in either way, in front of what can follow it. -/
theorem gives_expr (hc : c.Fit) {e : Phrase} (hatoms : ∀ a ∈ e.atoms, GivesAtom stmt c.grouping a)
    (hnests : c.grouping = .rightward → e.nestsRight = true) {tail : List Token}
    (hahead : c.ahead = e.tokens c.grouping.placement ++ tail)
    (htail : Follows stmt c.grouping tail) : Gives (expr stmt) c e.tree tail := by
  unfold expr
  rw [Gives, ends_get_bind]
  cases hg : c.grouping with
  | byPrecedence =>
    rw [hg] at hatoms hahead htail
    exact gives_foldExpr hc hg hatoms hahead htail.1 htail.2
  | rightward =>
    have hlen := hc.length_ahead_le
    rw [hg] at hatoms hahead htail
    rw [hahead, List.length_append] at hlen
    exact ends_capacity_bind.2 (gives_chainItems e hc hg hatoms (hnests hg) (by
      have : (e.tokens Grouping.rightward.placement).length = (e.tokens .between).length := rfl
      omega) hahead htail)

theorem follows_semi (g : Grouping) (rest : List Token) :
    Follows stmt g (.fixed .semi :: rest) := by
  cases g with
  | rightward =>
    intro t ht
    obtain rfl := Option.some.inj ht
    rfl
  | byPrecedence =>
    refine ⟨fun t ht => ?_, fun c folded fuel hc _ hahead _ _ => ?_⟩
    · obtain rfl := Option.some.inj ht
      exact TokenKind.noConfusion
    · exact (ends_fold_stop hc hahead rfl rfl folded fuel).mono (fun _ _ => readsOn_of_stays)
        (fun _ _ h => h)

theorem follows_passage (g : Grouping) {b : Passage} {tail : List Token} (hb : b.Bounded true tail)
    (hgiven : ∀ e ∈ b.phrases, ∀ a ∈ e.atoms, GivesAtom stmt g a) :
    Follows stmt g (b.tokens g.placement ++ tail) := by
  cases g with
  | rightward =>
    intro t ht
    have hkind := Passage.followsStatement_of_head _ hb ht
    revert hkind
    simp only [Token.isOperator]
    cases t.kind <;> decide
  | byPrecedence =>
    refine ⟨hb.head_ne _ rfl, fun c folded fuel hc hg hahead hstack hfuel => ?_⟩
    rw [List.length_append] at hfuel
    have hfuel : (b.tokens .behind).length < fuel + 1 := by
      have : (b.tokens Grouping.byPrecedence.placement).length = (b.tokens .behind).length := rfl
      omega
    exact ends_fold_passage b hb hc hg hgiven hfuel hahead hstack

theorem gives_declaration (hc : c.Fit) {name : String} {rest : List Token}
    (h : c.ahead = .fixed .letWord :: .ofName name :: .fixed .semi :: rest) :
    Gives (binding stmt) c (.declaration name) rest := by
  unfold binding
  refine (gives_tag hc h rfl).bind hc ?_
  intro c₁ hc₁ _ hahead₁
  refine (gives_tag hc₁ hahead₁ rfl).bind hc₁ ?_
  intro c₂ hc₂ _ hahead₂
  refine (gives_peekNext hc₂).bind hc₂ ?_
  intro c₃ hc₃ _ hahead₃
  rw [hahead₂] at hahead₃ ⊢
  rw [if_pos (by simp [Token.fixed])]
  refine (gives_tag hc₃ hahead₃ rfl).bind hc₃ ?_
  intro c₄ hc₄ _ hahead₄
  rw [← hahead₄]
  exact gives_pure hc₄ _

theorem gives_value (hc : c.Fit) {e : Phrase} (hatoms : ∀ a ∈ e.atoms, GivesAtom stmt c.grouping a)
    (hnests : c.grouping = .rightward → e.nestsRight = true) {rest : List Token}
    (h : c.ahead = e.tokens c.grouping.placement ++ .fixed .semi :: rest) (f : Tree → Tree) :
    Gives (do
      let value ← expr stmt
      let _ ← tag .semi
      return f value) c (f e.tree) rest := by
  refine (gives_expr hc hatoms hnests h (follows_semi _ rest)).bind hc ?_
  intro c₁ hc₁ _ hahead₁
  refine (gives_tag hc₁ hahead₁ rfl).bind hc₁ ?_
  intro c₂ hc₂ _ hahead₂
  rw [← hahead₂]
  exact gives_pure hc₂ _

theorem gives_initialization (hc : c.Fit) {e : Phrase}
    (hatoms : ∀ a ∈ e.atoms, GivesAtom stmt c.grouping a)
    (hnests : c.grouping = .rightward → e.nestsRight = true) {name : String} {rest : List Token}
    (h : c.ahead = .fixed .letWord :: .ofName name :: .fixed .equals ::
      (e.tokens c.grouping.placement ++ .fixed .semi :: rest)) :
    Gives (binding stmt) c (.initialization name e.tree) rest := by
  unfold binding
  refine (gives_tag hc h rfl).bind hc ?_
  intro c₁ hc₁ hg₁ hahead₁
  refine (gives_tag hc₁ hahead₁ rfl).bind hc₁ ?_
  intro c₂ hc₂ hg₂ hahead₂
  refine (gives_peekNext hc₂).bind hc₂ ?_
  intro c₃ hc₃ hg₃ hahead₃
  rw [hahead₂] at hahead₃ ⊢
  rw [if_neg (by simp [Token.fixed])]
  refine (gives_tag hc₃ hahead₃ rfl).bind hc₃ ?_
  intro c₄ hc₄ hg₄ hahead₄
  have hg : c₄.grouping = c.grouping := by rw [hg₄, hg₃, hg₂, hg₁]
  exact gives_value hc₄ (by rw [hg]; exact hatoms) (by rw [hg]; exact hnests)
    (by rw [hg]; exact hahead₄) (.initialization name)

theorem gives_assignment (hc : c.Fit) {e : Phrase}
    (hatoms : ∀ a ∈ e.atoms, GivesAtom stmt c.grouping a)
    (hnests : c.grouping = .rightward → e.nestsRight = true) {name : String} {rest : List Token}
    (h : c.ahead = .ofName name :: .fixed .equals ::
      (e.tokens c.grouping.placement ++ .fixed .semi :: rest)) :
    Gives (assignment stmt) c (.assignment name e.tree) rest := by
  unfold assignment
  refine (gives_tag hc h rfl).bind hc ?_
  intro c₁ hc₁ hg₁ hahead₁
  refine (gives_tag hc₁ hahead₁ rfl).bind hc₁ ?_
  intro c₂ hc₂ hg₂ hahead₂
  have hg : c₂.grouping = c.grouping := by rw [hg₂, hg₁]
  exact gives_value hc₂ (by rw [hg]; exact hatoms) (by rw [hg]; exact hnests)
    (by rw [hg]; exact hahead₂) (.assignment name)

theorem gives_closed (hc : c.Fit) {e : Phrase} (hatoms : ∀ a ∈ e.atoms, GivesAtom stmt c.grouping a)
    (hnests : c.grouping = .rightward → e.nestsRight = true) {rest : List Token}
    (h : c.ahead = e.tokens c.grouping.placement ++ .fixed .semi :: rest) :
    Gives (exprStatement stmt) c e.tree rest := by
  unfold exprStatement
  refine (gives_expr hc hatoms hnests h (follows_semi _ rest)).bind hc ?_
  intro c₁ hc₁ _ hahead₁
  refine (gives_tag hc₁ hahead₁ rfl).optional.bind hc₁ ?_
  intro c₂ hc₂ _ hahead₂
  rw [← hahead₂]
  exact gives_pure hc₂ _

theorem gives_bare (hc : c.Fit) {e : Phrase} (hatoms : ∀ a ∈ e.atoms, GivesAtom stmt c.grouping a)
    (hnests : c.grouping = .rightward → e.nestsRight = true) {tail : List Token}
    (h : c.ahead = e.tokens c.grouping.placement ++ tail) (htail : Follows stmt c.grouping tail)
    (hsemi : ∀ t, tail.head? = some t → t.kind ≠ .semi) :
    Gives (exprStatement stmt) c e.tree tail := by
  unfold exprStatement
  refine (gives_expr hc hatoms hnests h htail).bind hc ?_
  intro c₁ hc₁ _ hahead₁
  refine ((refuses_tag hc₁ (by rw [hahead₁]; exact hsemi)).optional hc₁).bind hc₁ ?_
  intro c₂ hc₂ _ hahead₂
  rw [← hahead₁, ← hahead₂]
  exact gives_pure hc₂ _

/-- A binding is tried first. -/
theorem gives_statementWith_binding (hc : c.Fit) {t : Tree} {rest : List Token}
    (h : ∀ c', c'.Fit → c'.grouping = c.grouping → c'.ahead = c.ahead →
      Gives (binding stmt) c' t rest) : Gives (statementWith stmt) c t rest := by
  unfold statementWith
  rw [Gives, ends_position_bind]
  refine (ends_startsAssignment hc).andThen ?_
  rintro _ c₁ ⟨-, hstay⟩
  refine Ends.andThen (h c₁ (hstay.fit hc) hstay.grouping_eq hstay.ahead_eq).trial ?_
  rintro _ c₂ ⟨rfl, halong, hahead⟩
  exact ends_pure.2 ⟨rfl, hstay.toAlong.trans halong, hahead⟩

/-- Where no `let` comes next, the other alternatives are tried: an assignment first if it looks
like one, and else an expression. -/
theorem gives_statementWith_other (hc : c.Fit)
    (hlet : ∀ t, c.ahead.head? = some t → t.kind ≠ .letWord)
    {t : Tree} {rest : List Token} {p : ParseM Tree}
    (hp : p = if (c.ahead.take 2).map Token.kind = [.ident, .equals] then assignment stmt
      else exprStatement stmt)
    (h : ∀ c', c'.Fit → c'.grouping = c.grouping → c'.ahead = c.ahead → Gives p c' t rest) :
    Gives (statementWith stmt) c t rest := by
  unfold statementWith
  rw [Gives, ends_position_bind]
  refine (ends_startsAssignment hc).andThen ?_
  rintro _ c₁ ⟨rfl, hstay₁⟩
  have hc₁ := hstay₁.fit hc
  have hrefuse : Refuses (binding stmt) c₁ :=
    (refuses_tag hc₁ (by rw [hstay₁.ahead_eq]; exact hlet)).bind
  refine Ends.andThen (hrefuse.trial hc₁) ?_
  rintro _ c₂ ⟨⟨e, rfl⟩, hstay₂⟩
  have hstay := hstay₁.trans hstay₂
  have hgives := h c₂ (hstay.fit hc) hstay.grouping_eq hstay.ahead_eq
  have hothers : ∃ ps, (if decide ((c.ahead.take 2).map Token.kind = [.ident, .equals]) = true
      then [assignment stmt, exprStatement stmt] else [exprStatement stmt]) = p :: ps := by
    rw [hp]
    by_cases hstarts : (c.ahead.take 2).map Token.kind = [.ident, .equals]
    · exact ⟨_, by rw [if_pos (by simpa using hstarts), if_pos hstarts]⟩
    · exact ⟨_, by rw [if_neg (by simpa using hstarts), if_neg hstarts]⟩
  obtain ⟨ps, hps⟩ := hothers
  dsimp only
  rw [hps, firstOf, ends_bind, ends_bind]
  refine hgives.trial.mono ?_ (fun _ _ h => h)
  rintro _ c₃ ⟨rfl, halong, hahead⟩
  exact ends_pure.2 (ends_pure.2 ⟨rfl, hstay.toAlong.trans halong, hahead⟩)

/-! ### Passages -/

/-- Everything in a passage can be read: its atoms are, and its operations are grouped as the
stream asks. -/
structure Readable (stmt : ParseM Tree) (g : Grouping) (b : Passage) : Prop where
  atoms : ∀ e ∈ b.phrases, ∀ a ∈ e.atoms, GivesAtom stmt g a
  nests : g = .rightward → ∀ e ∈ b.phrases, e.nestsRight = true

theorem Readable.of_phrases {g : Grouping} {b b' : Passage} (h : Readable stmt g b)
    (hsub : ∀ e ∈ b'.phrases, e ∈ b.phrases) : Readable stmt g b' :=
  ⟨fun e he => h.atoms e (hsub e he), fun hg e he => h.nests hg e (hsub e he)⟩

theorem head_ne_of_ahead {e : Phrase} {tail : List Token}
    (hahead : c.ahead = e.tokens c.grouping.placement ++ tail)
    (htail : ∀ u, tail.head? = some u → u.kind ≠ .equals) :
    (∀ u, c.ahead.head? = some u → u.kind ≠ .letWord)
      ∧ (c.ahead.take 2).map Token.kind ≠ [.ident, .equals] := by
  obtain ⟨u, rest, hu, hstart⟩ := e.exists_head c.grouping.placement
  constructor
  · intro v hv hk
    rw [hahead, hu] at hv
    obtain rfl := Option.some.inj hv
    exact Token.kind_ne_of_starts hstart rfl hk
  · rw [hahead]
    exact e.take_two_ne _ tail htail

theorem gives_statementWith {b b' : Passage} {t : Tree} {tail : List Token}
    (hbound : b.Bounded false tail) (hb : b.next? = some (t, b')) (hc : c.Fit)
    (hread : Readable stmt c.grouping b)
    (hahead : c.ahead = b.tokens c.grouping.placement ++ tail) :
    Gives (statementWith stmt) c t (b'.tokens c.grouping.placement ++ tail) := by
  cases b with
  | done => simp [Passage.next?] at hb
  | declaration name b =>
    obtain ⟨rfl, rfl⟩ := Prod.mk.inj (Option.some.inj hb)
    refine gives_statementWith_binding hc ?_
    intro c' hc' _ hahead'
    exact gives_declaration hc' (hahead'.trans hahead)
  | initialization name e b =>
    obtain ⟨rfl, rfl⟩ := Prod.mk.inj (Option.some.inj hb)
    refine gives_statementWith_binding hc ?_
    intro c' hc' hg' hahead'
    refine gives_initialization hc' (hg' ▸ hread.atoms e List.mem_cons_self)
      (hg' ▸ fun hg => hread.nests hg e List.mem_cons_self) ?_
    rw [hahead', hahead, hg', Passage.tokens]
    simp
  | assignment name e b =>
    obtain ⟨rfl, rfl⟩ := Prod.mk.inj (Option.some.inj hb)
    refine gives_statementWith_other hc ?_ (p := assignment stmt) ?_ ?_
    · intro u hu
      rw [hahead] at hu
      obtain rfl := Option.some.inj hu
      exact TokenKind.noConfusion
    · rw [hahead, if_pos (by simp [Passage.tokens, Token.ofName, Token.fixed])]
    · intro c' hc' hg' hahead'
      refine gives_assignment hc' (hg' ▸ hread.atoms e List.mem_cons_self)
        (hg' ▸ fun hg => hread.nests hg e List.mem_cons_self) ?_
      rw [hahead', hahead, hg', Passage.tokens]
      simp
  | closed e b =>
    obtain ⟨rfl, rfl⟩ := Prod.mk.inj (Option.some.inj hb)
    rw [Passage.tokens, List.append_assoc, List.cons_append] at hahead
    obtain ⟨hlet, hother⟩ := head_ne_of_ahead hahead (by
      intro u hu
      obtain rfl := Option.some.inj hu
      exact TokenKind.noConfusion)
    refine gives_statementWith_other hc hlet (if_neg hother).symm ?_
    intro c' hc' hg' hahead'
    refine gives_closed hc' (hg' ▸ hread.atoms e List.mem_cons_self)
      (hg' ▸ fun hg => hread.nests hg e List.mem_cons_self) ?_
    rw [hahead', hahead, hg']
  | bare e b =>
    obtain ⟨rfl, rfl⟩ := Prod.mk.inj (Option.some.inj hb)
    rw [Passage.tokens, List.append_assoc] at hahead
    have hbound : b.Bounded true tail := hbound
    obtain ⟨hlet, hother⟩ := head_ne_of_ahead hahead (hbound.head_ne _ rfl)
    refine gives_statementWith_other hc hlet (if_neg hother).symm ?_
    intro c' hc' hg' hahead'
    refine gives_bare hc' (hg' ▸ hread.atoms e List.mem_cons_self)
      (hg' ▸ fun hg => hread.nests hg e List.mem_cons_self) ?_ ?_ (hbound.head_ne _ rfl)
    · rw [hahead', hahead, hg']
    · rw [hg']
      exact follows_passage _ hbound (fun f hf => hread.atoms f (List.mem_cons_of_mem e hf))

theorem gives_blockItems (fuel : Nat) {rest : List Token} {b : Passage} (hc : c.Fit)
    (hread : Readable stmt c.grouping b)
    (hahead : c.ahead = b.tokens c.grouping.placement ++ .fixed .closeBrace :: rest)
    (hfuel : (b.tokens c.grouping.placement).length < fuel) :
    Gives (blockItems (statementWith stmt) fuel) c b.trees (.fixed .closeBrace :: rest) := by
  induction fuel generalizing c b with
  | zero => omega
  | succ fuel ih =>
    unfold blockItems
    refine (gives_peekNext hc).bind hc ?_
    intro c₁ hc₁ hg₁ hahead₁
    rw [hahead] at hahead₁
    rw [hahead]
    rcases hb : b.next? with _ | ⟨t, b'⟩
    · obtain rfl := Passage.eq_done_of_next? hb
      rw [Passage.tokens, List.nil_append] at hahead₁ ⊢
      rw [List.head?_cons]
      dsimp only
      rw [if_pos (by simp [Token.fixed]), ← hahead₁]
      exact gives_pure hc₁ _
    · obtain ⟨u, rest', hu, hclose, heof⟩ := b.exists_head_of_next? c.grouping.placement hb
      obtain ⟨htrees, hphrases, hlen⟩ := b.next?_spec (p := c.grouping.placement) hb
      rw [hu, List.cons_append, List.head?_cons]
      dsimp only
      rw [if_neg (by simp [hclose, heof]), htrees]
      rw [← hg₁] at hread hahead₁ hlen hfuel
      have hbound : b.Bounded false (.fixed .closeBrace :: rest) := .inr (.of_kind (.inl rfl))
      refine (gives_statementWith hbound hb hc₁ hread hahead₁).optional.bind hc₁ ?_
      intro c₂ hc₂ hg₂ hahead₂
      rw [← hg₂] at hread hahead₂ hlen hfuel
      refine (ih hc₂ (hread.of_phrases hphrases) hahead₂ (by omega)).bind hc₂ ?_
      intro c₃ hc₃ _ hahead₃
      rw [← hahead₃]
      exact gives_pure hc₃ _

/-- A passage can be read if all atoms can that are no longer than it. -/
theorem readable_of_givesAtom {g : Grouping} {n : Nat}
    (h : ∀ a : Phrase, a.isOperation = false → (a.tokens g.placement).length ≤ n →
      (g = .rightward → a.nestsRight = true) → GivesAtom stmt g a)
    {b : Passage} (hlen : (b.tokens g.placement).length ≤ n)
    (hnests : g = .rightward → b.nestsRight = true) : Readable stmt g b := by
  refine ⟨fun e he a ha => ?_, fun hg => Passage.nestsRight_iff.1 (hnests hg)⟩
  have hle := Passage.length_tokens_phrase_le (p := g.placement) he
  have hle' := Phrase.length_tokens_atom_le (p := g.placement) ha
  refine h a (Phrase.isOperation_of_mem_atoms ha) (by omega) (fun hg => ?_)
  exact Phrase.nestsRight_of_mem_atoms (Passage.nestsRight_iff.1 (hnests hg) e he) ha

/-- **Atoms are read at any depth of blocks** that they can have: their length bounds it. -/
theorem givesAtom_statementAt (g : Grouping) (depth : Nat) : ∀ a : Phrase, a.isOperation = false →
    (a.tokens g.placement).length ≤ depth → (g = .rightward → a.nestsRight = true) →
    GivesAtom (statementAt depth) g a := by
  induction depth with
  | zero =>
    intro a _ hlen _
    obtain ⟨t, rest, ht, -⟩ := a.exists_head g.placement
    rw [ht, List.length_cons] at hlen
    omega
  | succ depth ih =>
    intro a ha hlen hnests
    cases a with
    | operation => exact absurd ha (by simp [Phrase.isOperation])
    | leaf t e he => exact givesAtom_leaf g he
    | block body =>
      rw [Phrase.tokens, List.length_cons, List.length_append] at hlen
      rw [statementAt]
      refine givesAtom_block g ?_
      intro c rest hc hg hahead
      have hbound := hc.length_ahead_le
      rw [hahead, List.length_append] at hbound
      subst hg
      exact gives_blockItems _ hc (readable_of_givesAtom ih (by omega) hnests) hahead (by omega)

theorem gives_statement {b b' : Passage} {t : Tree} {tail : List Token}
    (hbound : b.Bounded false tail) (hb : b.next? = some (t, b')) (hc : c.Fit)
    (hahead : c.ahead = b.tokens c.grouping.placement ++ tail)
    (hnests : c.grouping = .rightward → b.nestsRight = true) :
    Gives statement c t (b'.tokens c.grouping.placement ++ tail) := by
  have hroom := hc.length_ahead_le
  rw [hahead, List.length_append] at hroom
  unfold statement
  rw [Gives, ends_capacity_bind, statementAt]
  exact gives_statementWith hbound hb hc
    (readable_of_givesAtom (givesAtom_statementAt _ _) (by omega) hnests) hahead

/-- **The statements of a passage** are read in front of what bounds it, and the loop goes on from
there. -/
theorem ends_statements_passage (fuel : Nat) {b : Passage} {tail : List Token}
    {Q : List Tree → Cursor → Prop} {E : Fault → Cursor → Prop} (hc : c.Fit)
    (hbound : b.Bounded false tail) (hahead : c.ahead = b.tokens c.grouping.placement ++ tail)
    (hnests : c.grouping = .rightward → b.nestsRight = true)
    (hfuel : (b.tokens c.grouping.placement).length < fuel)
    (hnext : ∀ c' fuel', c.Along c' → c'.ahead = tail →
      fuel ≤ fuel' + (b.tokens c.grouping.placement).length →
      Ends (statements fuel') c' (fun ts c'' => Q (b.trees ++ ts) c'') E) :
    Ends (statements fuel) c Q E := by
  induction fuel generalizing c b Q with
  | zero => omega
  | succ fuel ih =>
    rcases hb : b.next? with _ | ⟨t, b'⟩
    · obtain rfl := Passage.eq_done_of_next? hb
      exact hnext c _ hc.along hahead (Nat.le_refl _)
    · obtain ⟨u, rest, hu, -, heof⟩ := b.exists_head_of_next? c.grouping.placement hb
      obtain ⟨htrees, hphrases, hlen⟩ := b.next?_spec (p := c.grouping.placement) hb
      unfold statements
      refine (ends_atEnd hc).andThen ?_
      rintro _ c₁ ⟨rfl, hstay₁⟩
      have hforget : c.Stays { c₁ with failures := [] } :=
        ⟨⟨hstay₁.stream, hstay₁.grouping_eq⟩, hstay₁.pos_eq⟩
      rw [hahead, hu, List.cons_append, List.head?_cons, if_neg (by simp [heof])]
      refine Ends.andThen (Q := fun _ c' => c.Stays c') (ends_modify.2 hforget) ?_
      intro _ c₂ hstay₂
      have hc₂ := hstay₂.fit hc
      have hnests' : c.grouping = .rightward → b'.nestsRight = true := fun hg =>
        Passage.nestsRight_iff.2
          (fun e he => Passage.nestsRight_iff.1 (hnests hg) e (hphrases e he))
      have hstatement := gives_statement hbound hb hc₂
        (by rw [hstay₂.ahead_eq, hahead, hstay₂.grouping_eq])
        (by rw [hstay₂.grouping_eq]; exact hnests)
      refine Ends.andThen hstatement ?_
      rintro _ c₃ ⟨rfl, halong₃, hahead₃⟩
      have halong := hstay₂.toAlong.trans halong₃
      rw [hstay₂.grouping_eq] at hahead₃
      have hg₃ : c₃.grouping = c.grouping := halong.grouping_eq
      rw [ends_bind]
      refine ih (halong.fit hc) (hbound.next hb) (by rw [hahead₃, hg₃])
        (by rw [hg₃]; exact hnests') (by rw [hg₃]; omega) ?_
      intro c₄ fuel₄ halong₄ hahead₄ hfuel₄
      rw [hg₃] at hfuel₄
      refine (hnext c₄ fuel₄ (halong.trans halong₄) hahead₄ (by omega)).mono ?_ (fun _ _ h => h)
      intro ts c₅ h
      rw [htrees] at h
      exact ends_pure.2 h

theorem gives_statements (fuel : Nat) {b : Passage} (hc : c.Fit)
    (hahead : c.ahead = b.tokens c.grouping.placement ++ [.endMark])
    (hnests : c.grouping = .rightward → b.nestsRight = true)
    (hfuel : (b.tokens c.grouping.placement).length < fuel) :
    Gives (statements fuel) c b.trees [.endMark] := by
  refine ends_statements_passage fuel hc (.inr (.of_kind (.inr rfl))) hahead hnests hfuel ?_
  intro c₁ fuel₁ halong₁ hahead₁ hfuel₁
  obtain ⟨fuel₁, rfl⟩ : ∃ n, fuel₁ = n + 1 := ⟨fuel₁ - 1, by omega⟩
  unfold statements
  refine (ends_atEnd (halong₁.fit hc)).andThen ?_
  rintro _ c₂ ⟨rfl, hstay₂⟩
  rw [hahead₁, if_pos (by simp [Token.endMark])]
  exact ends_pure.2
    ⟨List.append_nil _, halong₁.trans hstay₂.toAlong, hstay₂.ahead_eq.trans hahead₁⟩

end Parser

/-- **What is written is accepted.**  If the tokens of a source's stream are those of a passage, in
which operations are grouped as the stream asks, then the source is accepted as its statements. -/
theorem parseProgram_of_passage {source : String} {g : Grouping} {b : Passage}
    (hfit : (TokenStream.ofSource source g).Fit)
    (hahead : (TokenStream.ofSource source g).ahead = b.tokens g.placement ++ [.endMark])
    (hnests : g = .rightward → b.nestsRight = true) : parseProgram source g = .ok b.trees := by
  have hc : (Cursor.ofSource source g).Fit := hfit
  have hbound := hc.length_ahead_le
  have hahead : (Cursor.ofSource source g).ahead = b.tokens g.placement ++ [.endMark] := hahead
  rw [hahead, List.length_append] at hbound
  have hgives : Parser.Gives Parser.program (.ofSource source g) b.trees [.endMark] := by
    unfold Parser.program
    rw [Parser.Gives, Parser.ends_capacity_bind]
    have hfuel : (b.tokens (Cursor.ofSource source g).grouping.placement).length
        < (Cursor.ofSource source g).stream.capacity + 1 := by
      rw [show (Cursor.ofSource source g).grouping = g from rfl]
      omega
    exact Parser.gives_statements _ hc hahead hnests hfuel
  obtain ⟨ts, c', hrun, rfl, -⟩ := hgives.exists_ok
  rw [parseProgram, hrun]

end BlockLang
