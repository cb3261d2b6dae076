import BlockLang.Proofs.Parser.Accepted

/-!
# One source under both groupings

A source that is accepted where operations group to the right is, nearly always, also
accepted where they group by precedence, as statements of the same forms in the same
order.  The exception shows in its tokens: at some `=` an operator is pending, that is, no
`let`, `;` or `=` at the same depth of braces came after it.  Such a source is refused.
-/

namespace BlockLang

open Resolver

/-- The forms of statements. -/
inductive StatementForm where
  | declaration
  | initialization
  | assignment
  | expression
  deriving Repr, DecidableEq

/-- The form of a statement, going by its root. -/
def Tree.form : Tree → StatementForm
  | declaration _ => .declaration
  | initialization .. => .initialization
  | assignment .. => .assignment
  | _ => .expression

/-- Whether an operator is pending at some `=`.  `pending` says whether one is at the start, and
`outer` says the same of the places where the blocks around it begin, from the inside out. -/
def pendingAtEqualsFrom : Bool → List Bool → List Token → Bool
  | _, _, [] => false
  | pending, outer, t :: ts =>
    match t.kind with
    | .number | .string | .ident => pendingAtEqualsFrom pending outer ts
    | .plus | .minus | .star | .slash | .percent => pendingAtEqualsFrom true outer ts
    | .openBrace => pendingAtEqualsFrom false (pending :: outer) ts
    | .closeBrace => pendingAtEqualsFrom (outer.headD false) outer.tail ts
    | .equals => pending || pendingAtEqualsFrom false outer ts
    | _ => pendingAtEqualsFrom false outer ts

/-- **Whether an operator is pending at some `=`**: one that came before it at the same depth of
braces, with nothing but operands, operators and blocks between. -/
def pendingAtEquals (ts : List Token) : Bool :=
  pendingAtEqualsFrom false [] ts

/-! ### Pending operators are stranded -/

theorem pendingAtEqualsFrom_operand {t : Token} (h : t.isOperand = true) (pending : Bool)
    (outer : List Bool) (ts : List Token) :
    pendingAtEqualsFrom pending outer (t :: ts) = pendingAtEqualsFrom pending outer ts := by
  obtain ⟨k, s⟩ := t
  cases k <;> first | rfl | exact absurd h Bool.false_ne_true

theorem pendingAtEqualsFrom_sign (op : Operator) (pending : Bool) (outer : List Bool)
    (ts : List Token) :
    pendingAtEqualsFrom pending outer (op.token :: ts) = pendingAtEqualsFrom true outer ts := by
  cases op <;> rfl

mutual

theorem Phrase.pendingAtEqualsFrom_tokens : ∀ (e : Phrase) (pending : Bool) (outer : List Bool)
    (rest : List Token), pendingAtEqualsFrom pending outer (e.tokens .between ++ rest)
      = (e.stranded || pendingAtEqualsFrom (pending || e.isOperation) outer rest)
  | .leaf t e he, pending, outer, rest => by
    rw [Phrase.tokens, List.singleton_append,
      pendingAtEqualsFrom_operand (Token.isOperand_of_leaf? he), Phrase.stranded,
      Phrase.isOperation_leaf, Bool.false_or, Bool.or_false]
  | .operation l op r, pending, outer, rest => by
    rw [Phrase.tokens, Placement.arrange, List.append_assoc, List.cons_append,
      l.pendingAtEqualsFrom_tokens, pendingAtEqualsFrom_sign, r.pendingAtEqualsFrom_tokens,
      Phrase.stranded, Phrase.isOperation_operation, Bool.true_or, Bool.or_true, Bool.or_assoc]
  | .block body, pending, outer, rest => by
    have hbody := body.pendingAtEqualsFrom_tokens false (pending :: outer)
      (.fixed .closeBrace :: rest) (fun _ _ => rfl)
    rw [Phrase.tokens, List.cons_append, List.append_assoc, List.singleton_append, Phrase.stranded,
      Phrase.isOperation_block, Bool.or_false]
    exact hbody

/-- The scan of the tokens finds what the passage says, if it does not matter to what follows the
passage whether an operator is pending. -/
theorem Passage.pendingAtEqualsFrom_tokens : ∀ (b : Passage) (pending : Bool) (outer : List Bool)
    (rest : List Token),
    (∀ p q, pendingAtEqualsFrom p outer rest = pendingAtEqualsFrom q outer rest) →
    pendingAtEqualsFrom pending outer (b.tokens .between ++ rest)
      = (b.strandedFrom pending || pendingAtEqualsFrom false outer rest)
  | .done, pending, outer, rest, hrest => hrest pending false
  | .declaration _ b, pending, outer, rest, hrest => by
    rw [Passage.strandedFrom, ← b.pendingAtEqualsFrom_tokens false outer rest hrest, Passage.tokens]
    rfl
  | .initialization _ e b, pending, outer, rest, hrest => by
    have hb := b.pendingAtEqualsFrom_tokens false outer rest hrest
    rw [Passage.strandedFrom, Bool.or_assoc, ← hb]
    exact (congrArg _ (List.append_assoc ..)).trans (e.pendingAtEqualsFrom_tokens false outer _)
  | .assignment _ e b, pending, outer, rest, hrest => by
    have hb := b.pendingAtEqualsFrom_tokens false outer rest hrest
    rw [Passage.strandedFrom, Bool.or_assoc, Bool.or_assoc, ← hb]
    exact congrArg (pending || ·)
      ((congrArg _ (List.append_assoc ..)).trans (e.pendingAtEqualsFrom_tokens false outer _))
  | .closed e b, pending, outer, rest, hrest => by
    have hb := b.pendingAtEqualsFrom_tokens false outer rest hrest
    rw [Passage.strandedFrom, Bool.or_assoc, ← hb, Passage.tokens, List.append_assoc,
      e.pendingAtEqualsFrom_tokens]
    rfl
  | .bare e b, pending, outer, rest, hrest => by
    have hb := b.pendingAtEqualsFrom_tokens (pending || e.isOperation) outer rest hrest
    rw [Passage.strandedFrom, Bool.or_assoc, ← hb, Passage.tokens, List.append_assoc,
      e.pendingAtEqualsFrom_tokens]

end

/-- **A passage is stranded if its tokens have an operator pending at some `=`.** -/
theorem pendingAtEquals_tokens (b : Passage) : pendingAtEquals (b.tokens .between) = b.stranded := by
  have h := b.pendingAtEqualsFrom_tokens false [] [] (fun _ _ => rfl)
  rw [List.append_nil] at h
  exact h.trans (Bool.or_false _)

/-! ### Forms -/

theorem Phrase.form_tree (e : Phrase) : e.tree.form = .expression := by
  cases e with
  | leaf t e he =>
    exact Token.leaf?_cases (P := fun e => e.form = .expression) he (fun _ => rfl) (fun _ => rfl)
      (fun _ => rfl)
  | operation => rw [Phrase.tree]; rfl
  | block => rw [Phrase.tree]; rfl

theorem Passage.forms_ofStack (operands : List Phrase) (rest : Passage) :
    (ofStack operands rest).trees.map Tree.form
      = List.replicate operands.length .expression ++ rest.trees.map Tree.form := by
  have hforms : (operands.map Phrase.tree).reverse.map Tree.form
      = List.replicate operands.length .expression := by
    rw [List.eq_replicate_iff]
    refine ⟨by simp, fun f hf => ?_⟩
    simp only [List.mem_map, List.mem_reverse] at hf
    obtain ⟨_, ⟨e, -, rfl⟩, rfl⟩ := hf
    exact e.form_tree
  rw [trees_ofStack, List.map_append, hforms]

/-- **Regrouping keeps the forms of statements.**  The expressions of the yard come first. -/
theorem Passage.forms_regroupFrom : ∀ (b : Passage) {y : Yard} {n : Nat}, y.AtRest n →
    (b.regroupFrom y).trees.map Tree.form
      = List.replicate n .expression ++ b.trees.map Tree.form
  | .done, y, n, hy => by
    rw [Passage.regroupFrom, forms_ofStack, hy.length_settled]
  | .declaration _ b, y, n, hy => by
    rw [Passage.regroupFrom, forms_ofStack, hy.length_settled, trees, trees, List.map_cons,
      List.map_cons, b.forms_regroupFrom Yard.atRest_empty]
    rfl
  | .initialization _ e b, y, n, hy => by
    rw [Passage.regroupFrom, forms_ofStack, hy.length_settled, trees, trees, List.map_cons,
      List.map_cons, b.forms_regroupFrom Yard.atRest_empty]
    rfl
  | .assignment _ e b, y, n, hy => by
    rw [Passage.regroupFrom, forms_ofStack, hy.length_settled, trees, trees, List.map_cons,
      List.map_cons, b.forms_regroupFrom Yard.atRest_empty]
    rfl
  | .closed e b, y, n, hy => by
    have hlen := (e.atRest_feed hy.carries).length_settled
    obtain ⟨e', operands, hsettled⟩ := List.exists_cons_of_length_eq_add_one hlen
    rw [hsettled, List.length_cons, Nat.add_right_cancel_iff] at hlen
    rw [Passage.regroupFrom, hsettled, closeTop, forms_ofStack, hlen, trees, trees, List.map_cons,
      List.map_cons, e.form_tree, e'.form_tree, b.forms_regroupFrom Yard.atRest_empty]
    rfl
  | .bare e b, y, n, hy => by
    rw [Passage.regroupFrom, b.forms_regroupFrom (e.atRest_feed hy.carries), trees, List.map_cons,
      e.form_tree, List.replicate_succ', List.append_assoc]
    rfl

/-- **From one grouping to the other.**  A source that is accepted with operations grouped to the
right is accepted with operations grouped by precedence exactly if no operator is pending at any
`=`, and then as statements of the same forms in the same order. -/
theorem parseProgram_byPrecedence_of_rightward {source : String} {ts : List Tree}
    (h : parseProgram source .rightward = .ok ts) :
    ((∃ ts', parseProgram source .byPrecedence = .ok ts')
        ↔ pendingAtEquals (significantTokens source) = false)
      ∧ ∀ ts', parseProgram source .byPrecedence = .ok ts'
        → ts'.map Tree.form = ts.map Tree.form := by
  obtain ⟨b, rfl, hb, -⟩ := parseProgram_rightward_iff.1 h
  rw [← hb, pendingAtEquals_tokens]
  cases hs : b.stranded with
  | false =>
    have hok := parseProgram_byPrecedence_of_tokens hb hs
    refine ⟨⟨fun _ => rfl, fun _ => ⟨_, hok⟩⟩, fun ts' hts' => ?_⟩
    rw [hok] at hts'
    rw [← Except.ok.inj hts']
    exact b.forms_regroupFrom Yard.atRest_empty
  | true =>
    have hne := parseProgram_byPrecedence_ne_ok hb hs
    refine ⟨⟨fun ⟨ts', hts'⟩ => absurd hts' (hne ts'), fun h => absurd h (by decide)⟩, ?_⟩
    exact fun ts' hts' => absurd hts' (hne ts')

/-- `{x a=1; a} 2*3 let b;`: an assignment after a name in a block, and `let` after an operation. -/
theorem parseProgram_byPrecedence_of_rightward_adjacent :
    parseProgram "\x7bx a=1; a\x7d 2*3 let b;" .rightward = .ok
        [.block [.name "x", .assignment "a" (.number 1), .name "a"],
          .operation (.number 2) (.number 3) .mul, .declaration "b"]
      ∧ ∃ ts, parseProgram "\x7bx a=1; a\x7d 2*3 let b;" .byPrecedence = .ok ts
        ∧ ts.map Tree.form = [.expression, .expression, .declaration] := by
  let b : Passage :=
    .bare (.block (.bare (.leaf (.of .ident "x") (.name "x") rfl)
        (.assignment "a" (.leaf (.of .number "1") (.number 1) rfl)
          (.bare (.leaf (.of .ident "a") (.name "a") rfl) .done))))
      (.bare (.operation (.leaf (.of .number "2") (.number 2) rfl) .mul
          (.leaf (.of .number "3") (.number 3) rfl))
        (.declaration "b" .done))
  have hb : b.tokens .between = significantTokens "\x7bx a=1; a\x7d 2*3 let b;" := by decide
  have h := parseProgram_rightward_iff.2 ⟨b, rfl, hb, rfl⟩
  obtain ⟨hiff, hforms⟩ := parseProgram_byPrecedence_of_rightward h
  obtain ⟨ts, hts⟩ := hiff.2 (by decide)
  exact ⟨h, ts, hts, hforms ts hts⟩

/-- **Not every source is accepted under both groupings**: in `1 + 2 a = 3;` the `+` is pending at
the `=`. -/
theorem not_parseProgram_byPrecedence_of_rightward :
    ¬ ∀ (source : String) (ts : List Tree), parseProgram source .rightward = .ok ts →
      ∃ ts', parseProgram source .byPrecedence = .ok ts'
        ∧ ts'.map Tree.form = ts.map Tree.form := by
  let b : Passage :=
    .bare (.operation (.leaf (.of .number "1") (.number 1) rfl) .add
        (.leaf (.of .number "2") (.number 2) rfl))
      (.assignment "a" (.leaf (.of .number "3") (.number 3) rfl) .done)
  have hb : b.tokens .between = significantTokens "1 + 2 a = 3;" := by decide
  intro hall
  obtain ⟨ts', hts', -⟩ := hall _ _ (parseProgram_rightward_iff.2 ⟨b, rfl, hb, rfl⟩)
  exact parseProgram_byPrecedence_ne_ok hb rfl ts' hts'

end BlockLang
