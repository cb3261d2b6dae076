import BlockLang.Proofs.Cursor
import BlockLang.Proofs.Parser.Closed
import BlockLang.Proofs.Phrase

/-!
# What the parser accepts

Whatever a parser accepts is written in the tokens that it took: between the place where
it started and the place where it ended stands a phrase or a passage with the tree that
it gave.  The signs of operations stand where the stream has them, between their
operands or behind them.

Each construct of the grammar has one lemma.  `statementAt` and the loops are read by
induction on their bounds, and the fold of operands and operators by its invariant,
`FoldState`: the tokens taken so far are those of the phrases on the stack, from the
bottom up.
-/

namespace BlockLang

open StepM

namespace Cursor

variable {c c' c'' : Cursor} {t : Tree} {ts ts' : List Tree}

/-- An expression stands between the places of `c` and `c'`. -/
def ReadExpr (c : Cursor) (t : Tree) (c' : Cursor) : Prop :=
  c.Along c' ∧ ∃ e : Phrase, e.tree = t ∧ c.ahead = e.tokens c.grouping.placement ++ c'.ahead
    ∧ (c.grouping = .rightward → e.nestsRight = true)

/-- An expression that is no operation stands between the places of `c` and `c'`. -/
def ReadAtom (c : Cursor) (t : Tree) (c' : Cursor) : Prop :=
  c.Along c' ∧ ∃ e : Phrase, e.tree = t ∧ c.ahead = e.tokens c.grouping.placement ++ c'.ahead
    ∧ (c.grouping = .rightward → e.nestsRight = true) ∧ e.isOperation = false

/-- Statements stand between the places of `c` and `c'`. -/
def ReadStatements (c : Cursor) (ts : List Tree) (c' : Cursor) : Prop :=
  c.Along c' ∧ ∃ b : Passage, b.trees = ts ∧ c.ahead = b.tokens c.grouping.placement ++ c'.ahead
    ∧ (c.grouping = .rightward → b.nestsRight = true)

theorem ReadStatements.nil (h : c.Stays c') : ReadStatements c [] c' :=
  ⟨h.toAlong, .done, rfl, h.ahead_eq.symm, fun _ => rfl⟩

theorem ReadStatements.trans (h : ReadStatements c ts c') (h' : ReadStatements c' ts' c'') :
    ReadStatements c (ts ++ ts') c'' := by
  obtain ⟨halong, b, htrees, hahead, hnests⟩ := h
  obtain ⟨halong', b', htrees', hahead', hnests'⟩ := h'
  rw [halong.grouping_eq] at hahead' hnests'
  refine ⟨halong.trans halong', b.append b', ?_, ?_, fun hg => ?_⟩
  · rw [Passage.trees_append, htrees, htrees']
  · rw [Passage.tokens_append, List.append_assoc, ← hahead', hahead]
  · rw [Passage.nestsRight_append, hnests hg, hnests' hg]
    rfl

theorem Stays.readAtom (h : c.Stays c') (hr : ReadAtom c' t c'') : ReadAtom c t c'' := by
  obtain ⟨halong, e, htree, hahead, hnests, hatom⟩ := hr
  rw [h.grouping_eq] at hahead hnests
  exact ⟨h.toAlong.trans halong, e, htree, h.ahead_eq.symm.trans hahead, hnests, hatom⟩

theorem Stays.readStatements (h : c.Stays c') (hr : ReadStatements c' ts c'') :
    ReadStatements c ts c'' :=
  (ReadStatements.nil h).trans hr

end Cursor

namespace Parser

variable {c : Cursor} {stmt : ParseM Tree}

/-! ### Tokens -/

theorem ends_tag_fixed (hc : c.Fit) {k : TokenKind} (hk : k.isFixed = true) :
    Ends (tag k) c (fun _ c' => c.Along c' ∧ c.ahead = .fixed k :: c'.ahead)
      (fun _ c' => c.Along c') := by
  refine (ends_tag hc k).mono ?_ (fun _ _ h => h.2.1.toAlong)
  rintro t c' ⟨halong, hahead, rfl⟩
  have hfixed := (hc.proper_of_ahead hahead).eq_fixed rfl hk
  exact ⟨halong, by rw [hahead]; exact congrArg (· :: c'.ahead) hfixed⟩

theorem ends_identifier (hc : c.Fit) :
    Ends identifier c (fun t c' => c.Along c' ∧ c.ahead = .ofName t.text :: c'.ahead)
      (fun _ c' => c.Along c') := by
  refine (ends_tag hc .ident).mono ?_ (fun _ _ h => h.2.1.toAlong)
  rintro t c' ⟨halong, hahead, hkind⟩
  refine ⟨halong, ?_⟩
  rw [hahead]
  exact congrArg (· :: c'.ahead) ((hc.proper_of_ahead hahead).eq_ofName hkind)

theorem readAtom_leaf {c c' : Cursor} {t : Token} {e : Tree} (halong : c.Along c')
    (hahead : c.ahead = t :: c'.ahead) (he : t.leaf? = some e) : c.ReadAtom e c' :=
  ⟨halong, .leaf t e he, rfl, hahead, fun _ => rfl, rfl⟩

theorem ends_literal (hc : c.Fit) :
    Ends literal c (fun e c' => c.ReadAtom e c') (fun _ c' => c.Along c') := by
  unfold literal
  refine (ends_peekNext hc).andThen ?_
  rintro found c₁ ⟨rfl, hstay⟩
  have hc₁ := hstay.fit hc
  split
  · exact (ends_reject hc₁ _ _).mono (fun _ _ h => h)
      (fun _ _ h => hstay.toAlong.trans h.2.toAlong)
  next t hfilter =>
    obtain ⟨-, hlit⟩ := Option.filter_eq_some_iff.1 hfilter
    simp only [ends_position_bind]
    refine (ends_tag hc₁ _).bind ?_ (fun _ _ h => hstay.toAlong.trans h.2.1.toAlong)
    rintro u c₂ ⟨halong, hahead, hkind⟩
    have hc₂ := halong.fit hc₁
    have hfail : ∀ problem at?, Ends (reject problem at? : ParseM Tree) c₂
        (fun e c' => c.ReadAtom e c') (fun _ c' => c.Along c') := fun problem at? =>
      (ends_reject hc₂ _ _).mono (fun _ _ h => h)
        (fun _ _ h => (hstay.toAlong.trans halong).trans h.2.toAlong)
    by_cases hs : u.kind = .string
    · simp only [hs, if_true]
      by_cases hterm : isTerminated u.text = true
      · simp only [hterm, if_true]
        refine ends_pure.2 (hstay.readAtom (readAtom_leaf halong hahead ?_))
        simp [Token.leaf?, hs, hterm]
      · simp only [hterm]
        exact hfail _ _
    · have hnum : u.kind = .number := by
        rw [hkind] at hs ⊢
        simpa [isLiteral, hs] using hlit
      simp only [hs, if_false]
      by_cases hdigits : maxDigits < u.text.length
      · simp only [hdigits, if_true]
        exact ends_throw.2 (hstay.toAlong.trans halong)
      · simp only [hdigits, if_false]
        by_cases hlarge : greatestNumber < numeral u.text
        · simp only [hlarge, if_true]
          exact hfail _ _
        · simp only [hlarge, if_false]
          refine ends_pure.2 (hstay.readAtom (readAtom_leaf halong hahead ?_))
          simp only [Token.leaf?, hnum]
          rw [if_pos ⟨by omega, by omega⟩]

theorem ends_usage (hc : c.Fit) :
    Ends usage c (fun e c' => c.ReadAtom e c') (fun _ c' => c.Along c') := by
  refine (ends_identifier hc).bind ?_ (fun _ _ h => h)
  rintro t c' ⟨halong, hahead⟩
  exact ends_pure.2 (readAtom_leaf halong hahead rfl)

theorem ends_operator (hc : c.Fit) :
    Ends operator c (fun op c' => c.Along c' ∧ c.ahead = op.token :: c'.ahead)
      (fun _ c' => c.Along c') := by
  unfold operator
  refine (ends_peekNext hc).andThen ?_
  rintro found c₁ ⟨rfl, hstay⟩
  have hc₁ := hstay.fit hc
  rcases c.ahead.head?.filter Token.isOperator with _ | t
  · exact (ends_reject hc₁ _ _).mono (fun _ _ h => h)
      (fun _ _ h => hstay.toAlong.trans h.2.toAlong)
  · dsimp only
    rcases hop : Operator.ofKind? t.kind with _ | op
    · exact (ends_reject hc₁ _ _).mono (fun _ _ h => h)
        (fun _ _ h => hstay.toAlong.trans h.2.toAlong)
    · have hkind := Operator.kind_of_ofKind? hop
      have hfixed : t.kind.isFixed = true := by rw [hkind]; cases op <;> rfl
      refine (ends_tag_fixed hc₁ hfixed).bind ?_ (fun _ _ h => hstay.toAlong.trans h)
      rintro _ c₂ ⟨halong, hahead⟩
      refine ends_pure.2 ⟨hstay.toAlong.trans halong, ?_⟩
      rw [← hstay.ahead_eq, hahead, hkind]
      rfl

/-! ### Blocks and atoms -/

/-- A parser of statements: what it accepts is one statement, and it only leads along. -/
def ReadsStatement (stmt : ParseM Tree) : Prop :=
  ∀ c : Cursor, c.Fit → Ends stmt c (fun t c' => c.ReadStatements [t] c') (fun _ c' => c.Along c')

theorem ends_blockItems (hstmt : ReadsStatement stmt) (fuel : Nat) (hc : c.Fit) :
    Ends (blockItems stmt fuel) c (fun ts c' => c.ReadStatements ts c')
      (fun _ c' => c.Along c') := by
  induction fuel generalizing c with
  | zero => exact ends_throw.2 hc.along
  | succ fuel ih =>
    unfold blockItems
    refine (ends_peekNext hc).andThen ?_
    rintro found c₁ ⟨rfl, hstay⟩
    have hc₁ := hstay.fit hc
    rcases c.ahead.head? with _ | t
    · exact ends_pure.2 (.nil hstay)
    · by_cases hend : (t.kind = .closeBrace || t.kind = .eof) = true
      · simp only [hend, if_true]
        exact ends_pure.2 (.nil hstay)
      · simp only [hend]
        refine (ends_optional hc₁ (hstmt c₁ hc₁)).bind ?_ (fun _ _ h => hstay.toAlong.trans h)
        rintro (_ | s) c₂ h
        · exact ends_pure.2 (.nil (hstay.trans h))
        · refine (ih (h.1.fit hc₁)).bind ?_ (fun _ _ h' => (hstay.toAlong.trans h.1).trans h')
          intro ts c₃ h'
          exact ends_pure.2 (hstay.readStatements (h.trans h'))

theorem ends_closeBlock (start : Nat) (hc : c.Fit) :
    Ends (closeBlock start) c (fun _ c' => c.Along c' ∧ c.ahead = .fixed .closeBrace :: c'.ahead)
      (fun _ c' => c.Along c') := by
  unfold closeBlock
  refine (ends_trial hc (ends_tag_fixed hc rfl)).bind ?_ (fun _ _ h => h)
  rintro (e | _) c₁ h
  · have hstay : c.Stays c₁ := h
    exact (ends_bestError e [] start (hstay.fit hc)).andThen
      (fun _ _ h' => ends_throw.2 (hstay.trans h').toAlong)
  · exact ends_pure.2 h

theorem ends_block (hstmt : ReadsStatement stmt) (hc : c.Fit) :
    Ends (block stmt) c (fun e c' => c.ReadAtom e c') (fun _ c' => c.Along c') := by
  unfold block
  refine (ends_tag_fixed hc rfl).bind ?_ (fun _ _ h => h)
  rintro _ c₁ ⟨halong₁, hahead₁⟩
  have hc₁ := halong₁.fit hc
  simp only [ends_position_bind, ends_capacity_bind]
  refine (ends_blockItems hstmt _ hc₁).bind ?_ (fun _ _ h => halong₁.trans h)
  rintro ts c₂ ⟨halong₂, b, htrees, hahead₂, hnests⟩
  have hc₂ := halong₂.fit hc₁
  refine (ends_closeBlock _ hc₂).bind ?_ (fun _ _ h => (halong₁.trans halong₂).trans h)
  rintro _ c₃ ⟨halong₃, hahead₃⟩
  rw [halong₁.grouping_eq] at hahead₂ hnests
  refine ends_pure.2 ⟨(halong₁.trans halong₂).trans halong₃, .block b, ?_, ?_, hnests, rfl⟩
  · rw [Phrase.tree, htrees]
  · rw [hahead₁, hahead₂, hahead₃, Phrase.tokens, List.cons_append, List.append_assoc,
      List.singleton_append]

theorem ends_atom (hstmt : ReadsStatement stmt) (hc : c.Fit) :
    Ends (atom stmt) c (fun e c' => c.ReadAtom e c') (fun _ c' => c.Along c') := by
  unfold atom
  refine (ends_peekNext hc).andThen ?_
  rintro found c₁ ⟨rfl, hstay⟩
  have hc₁ := hstay.fit hc
  have hfail : ∀ problem at?, Ends (reject problem at? : ParseM Tree) c₁
      (fun e c' => c.ReadAtom e c') (fun _ c' => c.Along c') := fun problem at? =>
    (ends_reject hc₁ _ _).mono (fun _ _ h => h) (fun _ _ h => hstay.toAlong.trans h.2.toAlong)
  have hlift : ∀ p : ParseM Tree,
      Ends p c₁ (fun e c' => c₁.ReadAtom e c') (fun _ c' => c₁.Along c') →
      Ends p c₁ (fun e c' => c.ReadAtom e c') (fun _ c' => c.Along c') := fun p h =>
    h.mono (fun _ _ h => hstay.readAtom h) (fun _ _ h => hstay.toAlong.trans h)
  split
  · exact hlift _ (ends_literal hc₁)
  · exact hlift _ (ends_literal hc₁)
  · exact hlift _ (ends_usage hc₁)
  · exact hlift _ (ends_block hstmt hc₁)
  · exact hfail _ _

/-! ### Expressions with signs between operands -/

theorem ends_chainItems (hstmt : ReadsStatement stmt) (fuel : Nat) (hc : c.Fit)
    (hg : c.grouping = .rightward) :
    Ends (chainItems stmt fuel) c (fun e c' => c.ReadExpr e c') (fun _ c' => c.Along c') := by
  induction fuel generalizing c with
  | zero => exact ends_throw.2 hc.along
  | succ fuel ih =>
    unfold chainItems
    refine (ends_atom hstmt hc).bind ?_ (fun _ _ h => h)
    rintro _ c₁ ⟨halong₁, l, rfl, hahead₁, hnests₁, hatom⟩
    have hc₁ := halong₁.fit hc
    refine (ends_peekNext hc₁).andThen ?_
    rintro found c₂ ⟨rfl, hstay⟩
    have halong₂ := halong₁.trans hstay.toAlong
    split
    · refine (ends_operator (hstay.fit hc₁)).bind ?_ (fun _ _ h => halong₂.trans h)
      rintro op c₃ ⟨halong₃, hahead₃⟩
      have hg₃ : c₃.grouping = .rightward := by
        rw [halong₃.grouping_eq, halong₂.grouping_eq, hg]
      refine (ih (halong₃.fit (hstay.fit hc₁)) hg₃).bind ?_
        (fun _ _ h => (halong₂.trans halong₃).trans h)
      rintro _ c₄ ⟨halong₄, r, rfl, hahead₄, hnests₄⟩
      refine ends_pure.2
        ⟨(halong₂.trans halong₃).trans halong₄, .operation l op r, rfl, ?_, fun _ => ?_⟩
      · rw [hg₃] at hahead₄
        rw [hg] at hahead₁ ⊢
        rw [hahead₁, ← hstay.ahead_eq, hahead₃, hahead₄]
        simp [Phrase.tokens, Grouping.placement, Placement.arrange]
      · simp [Phrase.nestsRight, hatom, hnests₁ hg, hnests₄ hg₃]
    · exact ends_pure.2 ⟨halong₂, l, rfl, by rw [hahead₁, hstay.ahead_eq], hnests₁⟩

/-! ### Expressions with signs behind operands -/

/-- **The state of a fold** that started at `c₀`.  The tokens taken so far are those of the phrases
on the stack, and those up to the noted place, where a parser may stop, are those of the noted
expression. -/
structure FoldState (c₀ : Cursor) (folded : Folded) (c : Cursor) : Prop where
  along : c₀.Along c
  stack : ∃ es : List Phrase, es.map Phrase.tree = folded.stack
    ∧ c₀.ahead = stackTokens .behind es ++ c.ahead
  single : ∀ mark t, folded.single = some (mark, t) → mark ≤ c.stream.buffer.size ∧ c₀.Halt mark
    ∧ ∃ e : Phrase, e.tree = t ∧ c₀.ahead = e.tokens .behind ++ c.stream.aheadAt mark

theorem FoldState.noted {c₀ c c' : Cursor} {folded : Folded} (h : FoldState c₀ folded c)
    (halong : c.Along c') {mark : Nat} {t : Tree} (hm : folded.single = some (mark, t)) :
    mark ≤ c'.stream.buffer.size ∧ c₀.Halt mark
      ∧ ∃ e : Phrase, e.tree = t ∧ c₀.ahead = e.tokens .behind ++ c'.stream.aheadAt mark := by
  obtain ⟨hle, hhalt, e, htree, hahead⟩ := h.single mark t hm
  exact ⟨Nat.le_trans hle halong.stream.buffer_le, hhalt, e, htree,
    by rw [halong.stream.aheadAt_eq, hahead]⟩

theorem FoldState.stays {c₀ c c' : Cursor} {folded : Folded} (h : FoldState c₀ folded c)
    (hs : c.Stays c') : FoldState c₀ folded c' := by
  obtain ⟨es, htrees, hahead⟩ := h.stack
  exact ⟨h.along.trans hs.toAlong, ⟨es, htrees, by rw [hs.ahead_eq, hahead]⟩,
    fun _ _ hm => h.noted hs.toAlong hm⟩

theorem FoldState.push {c₀ c c' : Cursor} {folded : Folded} (h : FoldState c₀ folded c)
    (halong : c.Along c') {e : Phrase} (he : c.ahead = e.tokens .behind ++ c'.ahead) :
    FoldState c₀ ⟨e.tree :: folded.stack, folded.single⟩ c' := by
  obtain ⟨es, htrees, hahead⟩ := h.stack
  refine ⟨h.along.trans halong, ⟨e :: es, ?_, ?_⟩, fun _ _ hm => h.noted halong hm⟩
  · rw [List.map_cons, htrees]
  · rw [hahead, he, stackTokens, List.append_assoc]

theorem FoldState.operate {c₀ c c' : Cursor} {left right : Tree} {rest : List Tree}
    {single : Option (Nat × Tree)} (h : FoldState c₀ ⟨right :: left :: rest, single⟩ c)
    (halong : c.Along c') {op : Operator} (hop : c.ahead = op.token :: c'.ahead) :
    FoldState c₀ ⟨.operation left right op :: rest, single⟩ c' := by
  obtain ⟨es, htrees, hahead⟩ := h.stack
  obtain ⟨r, es, rfl, rfl, hes⟩ := List.map_eq_cons_iff.1 htrees
  obtain ⟨l, es, rfl, rfl, rfl⟩ := List.map_eq_cons_iff.1 hes
  refine ⟨h.along.trans halong, ⟨.operation l op r :: es, rfl, ?_⟩, fun _ _ hm => h.noted halong hm⟩
  rw [hahead, hop]
  simp [stackTokens, Phrase.tokens, Placement.arrange]

theorem ends_settle {c₀ : Cursor} {stack : List Tree} {single : Option (Nat × Tree)}
    (hc : c.Fit) (h : FoldState c₀ ⟨stack, single⟩ c) :
    Ends (Folded.settle stack single) c (fun folded c' => c'.Fit ∧ FoldState c₀ folded c')
      (fun _ _ => False) := by
  unfold Folded.settle
  split
  · simp only [ends_position_bind]
    refine ends_pure.2 ⟨hc, h.along, h.stack, fun mark t hm => ?_⟩
    obtain ⟨rfl, rfl⟩ := Prod.mk.inj (Option.some.inj hm)
    refine ⟨hc.sound.pos_le, h.along.halt, ?_⟩
    obtain ⟨es, htrees, hahead⟩ := h.stack
    obtain ⟨e, rfl, rfl⟩ := List.map_eq_singleton_iff.1 htrees
    exact ⟨e, rfl, hahead⟩
  · exact ends_pure.2 ⟨hc, h⟩

theorem ends_startsStatement (hc : c.Fit) (stack : List Tree) :
    Ends (startsStatement stack) c (fun _ c' => c.Stays c') (fun _ _ => False) := by
  unfold startsStatement
  split
  · exact ends_pure.2 hc.stays
  · exact (ends_startsAssignment hc).mono (fun _ _ h => h.2) (fun _ _ h => h)

/-- **Folding keeps the state.** -/
theorem ends_foldItems {c₀ : Cursor} (hstmt : ReadsStatement stmt)
    (hg : c₀.grouping = .byPrecedence) (fuel : Nat) {folded : Folded} (hc : c.Fit)
    (h : FoldState c₀ folded c) :
    Ends (foldItems stmt fuel folded) c (fun folded c' => c'.Fit ∧ FoldState c₀ folded c')
      (fun _ c' => c₀.Along c') := by
  induction fuel generalizing c folded with
  | zero => exact ends_throw.2 h.along
  | succ fuel ih =>
    unfold foldItems
    refine (ends_peekNext hc).andThen ?_
    rintro found c₁ ⟨-, hstay₁⟩
    have hc₁ := hstay₁.fit hc
    have h₁ := h.stays hstay₁
    rcases found with _ | t
    · exact ends_pure.2 ⟨hc₁, h₁⟩
    · dsimp only
      split
      · refine (ends_startsStatement hc₁ _).andThen ?_
        intro b c₂ hstay₂
        have hc₂ := hstay₂.fit hc₁
        have h₂ := h₁.stays hstay₂
        split
        · exact ends_pure.2 ⟨hc₂, h₂⟩
        · refine (ends_attempt hc₂ (ends_atom hstmt hc₂)).bind ?_
            (fun _ _ h => h₂.along.trans h.1)
          rintro _ c₃ ⟨halong₃, e, rfl, hahead₃, -, -⟩
          rw [h₂.along.grouping_eq, hg] at hahead₃
          exact (ends_settle (halong₃.fit hc₂) (h₂.push halong₃ hahead₃)).andThen
            (fun _ _ h => ih h.1 h.2)
      · split
        · simp only [ends_position_bind]
          refine (ends_operator hc₁).bind ?_ (fun _ _ h => h₁.along.trans h)
          rintro op c₂ ⟨halong₂, hahead₂⟩
          have hc₂ := halong₂.fit hc₁
          obtain ⟨stack, single⟩ := folded
          dsimp only
          split
          · exact (ends_settle hc₂ (h₁.operate halong₂ hahead₂)).andThen
              (fun _ _ h => ih h.1 h.2)
          · exact (ends_reject hc₂ _ _).mono (fun _ _ h => h)
              (fun _ _ h => (h₁.along.trans halong₂).trans h.2.toAlong)
        · exact ends_pure.2 ⟨hc₁, h₁⟩

/-- **An expression with its signs behind.**  If others were read after it, the cursor goes back to
where it ended. -/
theorem ends_foldExpr (hstmt : ReadsStatement stmt) (hc : c.Fit)
    (hg : c.grouping = .byPrecedence) :
    Ends (foldExpr stmt) c (fun e c' => c.ReadExpr e c') (fun _ c' => c.Along c') := by
  have hnests : ∀ e : Phrase, c.grouping = .rightward → e.nestsRight = true := by
    intro e h
    exact absurd (hg.symm.trans h) (by simp)
  unfold foldExpr
  simp only [ends_capacity_bind]
  have hstart : FoldState c {} c := ⟨hc.along, ⟨[], rfl, rfl⟩, fun _ _ hm => by simp at hm⟩
  refine (ends_foldItems hstmt hg _ hc hstart).bind ?_ (fun _ _ h => h)
  rintro ⟨stack, single⟩ c₁ ⟨hc₁, h⟩
  dsimp only
  split
  · refine (ends_peekNext hc₁).andThen ?_
    rintro _ c₂ ⟨-, hstay⟩
    exact (ends_reject (hstay.fit hc₁) _ _).mono (fun _ _ h => h)
      (fun _ _ h' => (h.along.trans hstay.toAlong).trans h'.2.toAlong)
  · obtain ⟨es, htrees, hahead⟩ := h.stack
    obtain ⟨e, rfl, rfl⟩ := List.map_eq_singleton_iff.1 htrees
    refine ends_pure.2 ⟨h.along, e, rfl, ?_, hnests e⟩
    rw [hahead, hg]
    rfl
  · split
    · exact ends_throw.2 h.along
    next mark t =>
      obtain ⟨hle, hhalt, e, rfl, hahead⟩ := h.single mark t rfl
      refine (ends_rewind hc₁ hle).andThen ?_
      rintro _ c₂ ⟨hlater, rfl⟩
      refine ends_pure.2 ⟨⟨h.along.toLater.trans hlater, hhalt⟩, e, rfl, ?_, hnests e⟩
      rw [hahead, hg, ← hlater.stream.aheadAt_eq]
      rfl

/-! ### Statements -/

theorem ends_expr (hstmt : ReadsStatement stmt) (hc : c.Fit) :
    Ends (expr stmt) c (fun e c' => c.ReadExpr e c') (fun _ c' => c.Along c') := by
  unfold expr
  simp only [ends_get_bind]
  cases hg : c.grouping with
  | byPrecedence => exact ends_foldExpr hstmt hc hg
  | rightward => exact ends_capacity_bind.2 (ends_chainItems hstmt _ hc hg)

theorem ends_binding (hstmt : ReadsStatement stmt) (hc : c.Fit) :
    Ends (binding stmt) c (fun t c' => c.ReadStatements [t] c') (fun _ c' => c.Along c') := by
  unfold binding
  refine (ends_tag_fixed hc rfl).bind ?_ (fun _ _ h => h)
  rintro _ c₁ ⟨halong₁, hahead₁⟩
  have hc₁ := halong₁.fit hc
  refine (ends_identifier hc₁).bind ?_ (fun _ _ h => halong₁.trans h)
  rintro name c₂ ⟨halong₂, hahead₂⟩
  have hc₂ := halong₂.fit hc₁
  refine (ends_peekNext hc₂).andThen ?_
  rintro found c₃ ⟨-, hstay₃⟩
  have hc₃ := hstay₃.fit hc₂
  have halong := (halong₁.trans halong₂).trans hstay₃.toAlong
  split
  · refine (ends_tag_fixed hc₃ rfl).bind ?_ (fun _ _ h => halong.trans h)
    rintro _ c₄ ⟨halong₄, hahead₄⟩
    refine ends_pure.2 ⟨halong.trans halong₄, .declaration name.text .done, rfl, ?_, fun _ => rfl⟩
    rw [hahead₁, hahead₂, ← hstay₃.ahead_eq, hahead₄]
    rfl
  · refine (ends_tag_fixed hc₃ rfl).bind ?_ (fun _ _ h => halong.trans h)
    rintro _ c₄ ⟨halong₄, hahead₄⟩
    have hc₄ := halong₄.fit hc₃
    refine (ends_expr hstmt hc₄).bind ?_ (fun _ _ h => (halong.trans halong₄).trans h)
    rintro _ c₅ ⟨halong₅, e, rfl, hahead₅, hnests⟩
    have halong' := (halong.trans halong₄).trans halong₅
    refine (ends_tag_fixed (halong₅.fit hc₄) rfl).bind ?_ (fun _ _ h => halong'.trans h)
    rintro _ c₆ ⟨halong₆, hahead₆⟩
    rw [halong₄.grouping_eq, halong.grouping_eq] at hahead₅ hnests
    refine ends_pure.2 ⟨halong'.trans halong₆, .initialization name.text e .done, rfl, ?_, ?_⟩
    · rw [hahead₁, hahead₂, ← hstay₃.ahead_eq, hahead₄, hahead₅, hahead₆]
      simp [Passage.tokens]
    · intro hg
      simp [Passage.nestsRight, hnests hg]

theorem ends_assignment (hstmt : ReadsStatement stmt) (hc : c.Fit) :
    Ends (assignment stmt) c (fun t c' => c.ReadStatements [t] c') (fun _ c' => c.Along c') := by
  unfold assignment
  refine (ends_identifier hc).bind ?_ (fun _ _ h => h)
  rintro name c₁ ⟨halong₁, hahead₁⟩
  have hc₁ := halong₁.fit hc
  refine (ends_tag_fixed hc₁ rfl).bind ?_ (fun _ _ h => halong₁.trans h)
  rintro _ c₂ ⟨halong₂, hahead₂⟩
  have hc₂ := halong₂.fit hc₁
  have halong := halong₁.trans halong₂
  refine (ends_expr hstmt hc₂).bind ?_ (fun _ _ h => halong.trans h)
  rintro _ c₃ ⟨halong₃, e, rfl, hahead₃, hnests⟩
  have halong' := halong.trans halong₃
  refine (ends_tag_fixed (halong₃.fit hc₂) rfl).bind ?_ (fun _ _ h => halong'.trans h)
  rintro _ c₄ ⟨halong₄, hahead₄⟩
  rw [halong.grouping_eq] at hahead₃ hnests
  refine ends_pure.2 ⟨halong'.trans halong₄, .assignment name.text e .done, rfl, ?_, ?_⟩
  · rw [hahead₁, hahead₂, hahead₃, hahead₄]
    simp [Passage.tokens]
  · intro hg
    simp [Passage.nestsRight, hnests hg]

theorem ends_exprStatement (hstmt : ReadsStatement stmt) (hc : c.Fit) :
    Ends (exprStatement stmt) c (fun t c' => c.ReadStatements [t] c') (fun _ c' => c.Along c') := by
  unfold exprStatement
  refine (ends_expr hstmt hc).bind ?_ (fun _ _ h => h)
  rintro _ c₁ ⟨halong₁, e, rfl, hahead₁, hnests⟩
  have hc₁ := halong₁.fit hc
  refine (ends_optional hc₁ (ends_tag_fixed hc₁ rfl)).bind ?_ (fun _ _ h => halong₁.trans h)
  rintro (_ | _) c₂ h
  · have hstay : c₁.Stays c₂ := h
    refine ends_pure.2 ⟨halong₁.trans hstay.toAlong, .bare e .done, rfl, ?_, fun hg => ?_⟩
    · rw [hahead₁, hstay.ahead_eq]
      simp [Passage.tokens]
    · simp [Passage.nestsRight, hnests hg]
  · refine ends_pure.2 ⟨halong₁.trans h.1, .closed e .done, rfl, ?_, fun hg => ?_⟩
    · rw [hahead₁, h.2]
      simp [Passage.tokens]
    · simp [Passage.nestsRight, hnests hg]

theorem ends_firstOf {Q : Tree → Cursor → Prop} (ps : List (ParseM Tree)) (hc : c.Fit)
    {c₀ : Cursor} (h₀ : c₀.Stays c)
    (hps : ∀ p ∈ ps, ∀ c', c₀.Stays c' → c'.Fit → Ends p c' Q (fun _ c'' => c'.Along c'')) :
    Ends (firstOf ps) c
      (fun r c' => match r with
        | .ok t => Q t c'
        | .error _ => c₀.Stays c')
      (fun _ c' => c₀.Along c') := by
  induction ps generalizing c with
  | nil => exact ends_pure.2 h₀
  | cons p ps ih =>
    unfold firstOf
    refine (ends_trial hc (hps p List.mem_cons_self c h₀ hc)).bind ?_
      (fun _ _ h => h₀.toAlong.trans h)
    rintro (e | t) c₁ h
    · have hstay : c.Stays c₁ := h
      refine (ih (hstay.fit hc) (h₀.trans hstay)
        (fun q hq => hps q (List.mem_cons_of_mem p hq))).bind ?_ (fun _ _ h => h)
      rintro (es | t) c₂ h₂
      · exact ends_pure.2 h₂
      · exact ends_pure.2 h₂
    · exact ends_pure.2 h

theorem ends_statementWith (hstmt : ReadsStatement stmt) : ReadsStatement (statementWith stmt) := by
  intro c hc
  unfold statementWith
  simp only [ends_position_bind]
  refine (ends_startsAssignment hc).andThen ?_
  rintro assigns c₁ ⟨-, hstay₁⟩
  have hc₁ := hstay₁.fit hc
  refine (ends_trial hc₁ (ends_binding hstmt hc₁)).bind ?_ (fun _ _ h => hstay₁.toAlong.trans h)
  rintro (bindingError | t) c₂ h
  · have hstay₂ : c.Stays c₂ := hstay₁.trans h
    have hothers : ∀ p ∈ (if assigns = true then [assignment stmt, exprStatement stmt]
          else [exprStatement stmt]), ∀ c', c.Stays c' → c'.Fit →
        Ends p c' (fun t c'' => c.ReadStatements [t] c'') (fun _ c'' => c'.Along c'') := by
      intro p hp c' hstay hc'
      rcases eq_of_mem_others hp with rfl | rfl
      · exact (ends_assignment hstmt hc').mono (fun _ _ h => hstay.readStatements h)
          (fun _ _ h => h)
      · exact (ends_exprStatement hstmt hc').mono (fun _ _ h => hstay.readStatements h)
          (fun _ _ h => h)
    dsimp only
    refine (ends_firstOf _ (hstay₂.fit hc) hstay₂ hothers).bind ?_ (fun _ _ h => h)
    rintro (errors | t) c₃ h₃
    · have hstay₃ : c.Stays c₃ := h₃
      have hc₃ := hstay₃.fit hc
      rcases errors with _ | ⟨e, es⟩
      · exact (ends_bestError _ _ _ hc₃).andThen
          (fun _ _ h => ends_throw.2 (hstay₃.trans h).toAlong)
      · exact (ends_bestError _ _ _ hc₃).andThen
          (fun _ _ h => ends_throw.2 (hstay₃.trans h).toAlong)
    · exact ends_pure.2 h₃
  · exact ends_pure.2 (hstay₁.readStatements h)

theorem ends_statementAt (depth : Nat) : ReadsStatement (statementAt depth) := by
  induction depth with
  | zero => exact fun _ hc => ends_throw.2 hc.along
  | succ depth ih =>
    rw [statementAt]
    exact ends_statementWith ih

theorem ends_statement : ReadsStatement statement := by
  intro c hc
  unfold statement
  rw [ends_capacity_bind]
  exact ends_statementAt _ c hc

theorem ends_statements (fuel : Nat) (hc : c.Fit) :
    Ends (statements fuel) c
      (fun ts c' => c.ReadStatements ts c' ∧ ∀ t, c'.ahead.head? = some t → t.kind = .eof)
      (fun _ c' => c.Along c') := by
  induction fuel generalizing c with
  | zero => exact ends_throw.2 hc.along
  | succ fuel ih =>
    unfold statements
    refine (ends_atEnd hc).andThen ?_
    rintro b c₁ ⟨rfl, hstay₁⟩
    split
    next hend =>
      refine ends_pure.2 ⟨.nil hstay₁, fun t ht => ?_⟩
      rw [hstay₁.ahead_eq] at ht
      rw [ht] at hend
      simpa using hend
    · have hforget : c.Stays { c₁ with failures := [] } :=
        ⟨⟨hstay₁.stream, hstay₁.grouping_eq⟩, hstay₁.pos_eq⟩
      refine Ends.andThen (Q := fun _ c' => c.Stays c') (ends_modify.2 hforget) ?_
      intro _ c₂ hstay₂
      have hstatement := ends_statement c₂ (hstay₂.fit hc)
      refine hstatement.bind ?_ (fun _ _ h => hstay₂.toAlong.trans h)
      intro t c₃ h₃
      have halong₃ := hstay₂.toAlong.trans h₃.1
      refine (ih (halong₃.fit hc)).bind ?_ (fun _ _ h => halong₃.trans h)
      rintro ts c₄ ⟨h₄, hend⟩
      exact ends_pure.2 ⟨hstay₂.readStatements (h₃.trans h₄), hend⟩

theorem ends_program (hc : c.Fit) :
    Ends program c
      (fun ts c' => c.ReadStatements ts c' ∧ ∀ t, c'.ahead.head? = some t → t.kind = .eof)
      (fun _ c' => c.Along c') := by
  unfold program
  rw [ends_capacity_bind]
  exact ends_statements _ hc

end Parser

/-- **What is accepted is written.**  If a source is accepted, its statements are written in the
tokens of its stream, up to the end mark. -/
theorem exists_passage_of_parseProgram {source : String} {g : Grouping} {ts : List Tree}
    (hfit : (TokenStream.ofSource source g).Fit) (h : parseProgram source g = .ok ts) :
    ∃ (b : Passage) (rest : List Token), b.trees = ts
      ∧ (TokenStream.ofSource source g).ahead = b.tokens g.placement ++ rest
      ∧ (∀ t, rest.head? = some t → t.kind = .eof) ∧ (g = .rightward → b.nestsRight = true) := by
  have hends := Parser.ends_program (c := .ofSource source g) hfit
  rcases hr : runFrom Parser.program (.ofSource source g) with ⟨_ | ts', c'⟩
  · rw [parseProgram, hr] at h
    exact absurd h (by simp)
  · rw [parseProgram, hr] at h
    obtain rfl := Except.ok.inj h
    obtain ⟨⟨-, b, htrees, hahead, hnests⟩, hend⟩ := hends.of_ok hr
    exact ⟨b, c'.ahead, htrees, hahead, hend, hnests⟩

end BlockLang
