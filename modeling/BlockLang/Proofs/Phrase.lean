import BlockLang.Parser.Grammar
import BlockLang.Proofs.Lexer

/-!
# Programs as they are written

A `Phrase` is an expression as it is written, and a `Passage` is a list of statements
as they are written.  They have what a tree leaves out: how each literal is spelled,
and after which expressions a `;` stands.

What is written is read off in two ways.  `Phrase.tree` and `Passage.trees` forget the
writing, and `Phrase.tokens` and `Passage.tokens` give the tokens, with the sign of each
operation between its operands or behind them:

    (1 + 2 * 3).tokens .between  is  1 + 2 * 3,
    (1 + 2 * 3).tokens .behind   is  1 2 3 * +.

So `ts` is written as `toks` when some passage has the trees `ts` and the tokens `toks`.
-/

namespace BlockLang

/-- Whether a tree is an operation, going by its root. -/
def Tree.isOperation : Tree → Bool
  | operation .. => true
  | _ => false

/-- Where the sign of an operation stands. -/
inductive Placement where
  | between
  | behind
  deriving DecidableEq

/-- The tokens of an operation, from those of its operands and its sign. -/
def Placement.arrange : Placement → List Token → Token → List Token → List Token
  | between, l, o, r => l ++ o :: r
  | behind, l, o, r => l ++ r ++ [o]

/-- Where the stream of a grouping has the signs. -/
def Grouping.placement : Grouping → Placement
  | byPrecedence => .behind
  | rightward => .between

namespace Token

/-- The token of a name. -/
def ofName (name : String) : Token :=
  { kind := .ident, text := name }

theorem Proper.eq_ofName {t : Token} (h : t.Proper) (hkind : t.kind = .ident) :
    t = ofName t.text := by
  obtain ⟨kind, text, length⟩ := t
  obtain rfl : kind = .ident := hkind
  obtain rfl : length = text.length := h.length_eq
  rfl

/-- The literal or name that a token stands for by itself: a number of at most 4300 digits and 32
bits, a string with its closing quote, or a name. -/
def leaf? (t : Token) : Option Tree :=
  match t.kind with
  | .number =>
    if t.text.length ≤ maxDigits ∧ Parser.numeral t.text ≤ greatestNumber then
      some (.number (Parser.numeral t.text))
    else none
  | .string => if Parser.isTerminated t.text then some (.text (Parser.unquote t.text)) else none
  | .ident => some (.name t.text)
  | _ => none

theorem leaf?_cases {P : Tree → Prop} {t : Token} {e : Tree} (h : t.leaf? = some e)
    (hnumber : ∀ v, P (.number v)) (htext : ∀ v, P (.text v)) (hname : ∀ v, P (.name v)) : P e := by
  unfold leaf? at h
  split at h
  · split at h
    · exact Option.some.inj h ▸ hnumber _
    · exact absurd h (by simp)
  · split at h
    · exact Option.some.inj h ▸ htext _
    · exact absurd h (by simp)
  · exact Option.some.inj h ▸ hname _
  · exact absurd h (by simp)

theorem kind_ne_of_starts {t : Token} (h : (t.isOperand || t.kind = .openBrace) = true)
    {k : TokenKind} (hk : (k.isOperand || k = .openBrace) = false) : t.kind ≠ k := by
  intro hkind
  rw [isOperand, hkind, hk] at h
  exact Bool.false_ne_true h

theorem isOperand_of_leaf? {t : Token} {e : Tree} (h : t.leaf? = some e) : t.isOperand = true := by
  obtain ⟨k, s⟩ := t
  cases k <;> first | rfl | simp [leaf?] at h

end Token

/-- The kind of an operation's sign. -/
def Operator.kind : Operator → TokenKind
  | add => .plus
  | sub => .minus
  | mul => .star
  | div => .slash

/-- The sign of an operation as a token. -/
def Operator.token (op : Operator) : Token :=
  .fixed op.kind

@[simp] theorem Operator.kind_token (op : Operator) : op.token.kind = op.kind := rfl

theorem Operator.ofKind?_kind (op : Operator) : ofKind? op.kind = some op := by
  cases op <;> rfl

theorem Operator.kind_of_ofKind? {k : TokenKind} {op : Operator} (h : ofKind? k = some op) :
    k = op.kind := by
  cases k <;> simp_all [ofKind?] <;> subst h <;> rfl

theorem Operator.isOperator_token (op : Operator) : op.token.isOperator = true := by
  cases op <;> rfl

mutual

/-- An expression as it is written. -/
inductive Phrase where
  | leaf (t : Token) (e : Tree) (h : t.leaf? = some e)
  | operation (left : Phrase) (op : Operator) (right : Phrase)
  | block (body : Passage)

/-- Statements as they are written.  An expression is `closed` by a `;` or left `bare`. -/
inductive Passage where
  | done
  | declaration (name : String) (rest : Passage)
  | initialization (name : String) (value : Phrase) (rest : Passage)
  | assignment (name : String) (value : Phrase) (rest : Passage)
  | closed (e : Phrase) (rest : Passage)
  | bare (e : Phrase) (rest : Passage)

end

mutual

/-- The expression that is written. -/
@[simp] def Phrase.tree : Phrase → Tree
  | .leaf _ e _ => e
  | .operation l op r => .operation l.tree r.tree op
  | .block body => .block body.trees

/-- The statements that are written. -/
@[simp] def Passage.trees : Passage → List Tree
  | .done => []
  | .declaration name rest => .declaration name :: rest.trees
  | .initialization name value rest => .initialization name value.tree :: rest.trees
  | .assignment name value rest => .assignment name value.tree :: rest.trees
  | .closed e rest => e.tree :: rest.trees
  | .bare e rest => e.tree :: rest.trees

end

mutual

/-- The tokens of an expression. -/
@[simp] def Phrase.tokens (p : Placement) : Phrase → List Token
  | .leaf t _ _ => [t]
  | .operation l op r => p.arrange (l.tokens p) op.token (r.tokens p)
  | .block body => .fixed .openBrace :: (body.tokens p ++ [.fixed .closeBrace])

/-- The tokens of statements. -/
@[simp] def Passage.tokens (p : Placement) : Passage → List Token
  | .done => []
  | .declaration name rest =>
    .fixed .letWord :: .ofName name :: .fixed .semi :: rest.tokens p
  | .initialization name value rest =>
    .fixed .letWord :: .ofName name :: .fixed .equals ::
      (value.tokens p ++ .fixed .semi :: rest.tokens p)
  | .assignment name value rest =>
    .ofName name :: .fixed .equals :: (value.tokens p ++ .fixed .semi :: rest.tokens p)
  | .closed e rest => e.tokens p ++ .fixed .semi :: rest.tokens p
  | .bare e rest => e.tokens p ++ rest.tokens p

end

section Members

variable {P : Token → Prop} (hleaf : ∀ t e, t.leaf? = some e → P t)
  (hfixed : ∀ k : TokenKind, k.isFixed = true → P (.fixed k)) {p : Placement}

include hleaf hfixed

mutual

theorem Phrase.forall_mem_tokens : ∀ e : Phrase, ∀ t ∈ e.tokens p, P t
  | .leaf u e he, t, h => by
    rw [List.mem_singleton.1 h]
    exact hleaf u e he
  | .operation l op r, t, h => by
    have hsign : P op.token := hfixed op.kind (by cases op <;> rfl)
    have h : t ∈ l.tokens p ∨ t = op.token ∨ t ∈ r.tokens p := by
      cases p <;> simpa [Phrase.tokens, Placement.arrange, or_assoc, or_comm, or_left_comm] using h
    rcases h with h | rfl | h
    · exact Phrase.forall_mem_tokens l t h
    · exact hsign
    · exact Phrase.forall_mem_tokens r t h
  | .block body, t, h => by
    simp only [Phrase.tokens, List.mem_cons, List.mem_append, List.not_mem_nil, or_false] at h
    rcases h with rfl | h | rfl
    · exact hfixed .openBrace rfl
    · exact Passage.forall_mem_tokens body t h
    · exact hfixed .closeBrace rfl

theorem Passage.forall_mem_tokens : ∀ b : Passage, ∀ t ∈ b.tokens p, P t
  | .done, t, h => absurd h List.not_mem_nil
  | .declaration name rest, t, h => by
    simp only [Passage.tokens, List.mem_cons] at h
    rcases h with rfl | rfl | rfl | h
    · exact hfixed .letWord rfl
    · exact hleaf (.ofName name) _ rfl
    · exact hfixed .semi rfl
    · exact Passage.forall_mem_tokens rest t h
  | .initialization name e rest, t, h => by
    simp only [Passage.tokens, List.mem_cons, List.mem_append] at h
    rcases h with rfl | rfl | rfl | h | rfl | h
    · exact hfixed .letWord rfl
    · exact hleaf (.ofName name) _ rfl
    · exact hfixed .equals rfl
    · exact Phrase.forall_mem_tokens e t h
    · exact hfixed .semi rfl
    · exact Passage.forall_mem_tokens rest t h
  | .assignment name e rest, t, h => by
    simp only [Passage.tokens, List.mem_cons, List.mem_append] at h
    rcases h with rfl | rfl | h | rfl | h
    · exact hleaf (.ofName name) _ rfl
    · exact hfixed .equals rfl
    · exact Phrase.forall_mem_tokens e t h
    · exact hfixed .semi rfl
    · exact Passage.forall_mem_tokens rest t h
  | .closed e rest, t, h => by
    simp only [Passage.tokens, List.mem_cons, List.mem_append] at h
    rcases h with h | rfl | h
    · exact Phrase.forall_mem_tokens e t h
    · exact hfixed .semi rfl
    · exact Passage.forall_mem_tokens rest t h
  | .bare e rest, t, h => by
    rcases List.mem_append.1 h with h | h
    · exact Phrase.forall_mem_tokens e t h
    · exact Passage.forall_mem_tokens rest t h

end

end Members

/-- The tokens of a stack of expressions, the last of them in front. -/
@[simp] def stackTokens (p : Placement) : List Phrase → List Token
  | [] => []
  | e :: rest => stackTokens p rest ++ e.tokens p

/-- **Written as.**  The statements `ts` are written as `toks`, with the signs of operations at the
given place: every binding and assignment ends with a `;`, and every expression may. -/
def WrittenAs (p : Placement) (ts : List Tree) (toks : List Token) : Prop :=
  ∃ b : Passage, b.trees = ts ∧ b.tokens p = toks

/-- Whether an expression is an operation. -/
def Phrase.isOperation : Phrase → Bool
  | .operation .. => true
  | _ => false

@[simp] theorem Phrase.isOperation_leaf {t : Token} {e : Tree} (h : t.leaf? = some e) :
    (leaf t e h).isOperation = false := rfl

@[simp] theorem Phrase.isOperation_operation (l r : Phrase) (op : Operator) :
    (operation l op r).isOperation = true := rfl

@[simp] theorem Phrase.isOperation_block (body : Passage) :
    (block body).isOperation = false := rfl

theorem Phrase.isOperation_tree (e : Phrase) : e.tree.isOperation = e.isOperation := by
  cases e with
  | leaf t e he =>
    exact Token.leaf?_cases (P := fun e => e.isOperation = false) he (fun _ => rfl) (fun _ => rfl)
      (fun _ => rfl)
  | operation => rw [Phrase.tree]; rfl
  | block => rw [Phrase.tree]; rfl

mutual

/-- Whether operations group to the right only: no left operand is an operation. -/
@[simp] def Phrase.nestsRight : Phrase → Bool
  | .leaf .. => true
  | .operation l _ r => !l.isOperation && l.nestsRight && r.nestsRight
  | .block body => body.nestsRight

/-- Whether the operations in all statements group to the right only. -/
@[simp] def Passage.nestsRight : Passage → Bool
  | .done => true
  | .declaration _ rest => rest.nestsRight
  | .initialization _ value rest | .assignment _ value rest => value.nestsRight && rest.nestsRight
  | .closed e rest | .bare e rest => e.nestsRight && rest.nestsRight

end

/-! ### Parts -/

/-- **The atoms of an expression**, from left to right: what its operations join. -/
def Phrase.atoms : Phrase → List Phrase
  | .operation l _ r => l.atoms ++ r.atoms
  | e => [e]

/-- The expressions that stand in statements as a whole or as their value. -/
def Passage.phrases : Passage → List Phrase
  | .done => []
  | .declaration _ rest => rest.phrases
  | .initialization _ value rest | .assignment _ value rest => value :: rest.phrases
  | .closed e rest | .bare e rest => e :: rest.phrases

/-- The first statement and what follows it. -/
def Passage.next? : Passage → Option (Tree × Passage)
  | .done => none
  | .declaration name rest => some (.declaration name, rest)
  | .initialization name value rest => some (.initialization name value.tree, rest)
  | .assignment name value rest => some (.assignment name value.tree, rest)
  | .closed e rest | .bare e rest => some (e.tree, rest)

namespace Phrase

theorem atoms_of_atom {e : Phrase} (h : e.isOperation = false) : e.atoms = [e] := by
  cases e with
  | operation => exact absurd h (by simp [isOperation])
  | leaf => rfl
  | block => rfl

theorem isOperation_of_mem_atoms : ∀ {e a : Phrase}, a ∈ e.atoms → a.isOperation = false
  | leaf .., _, h => by rw [List.mem_singleton.1 h]; rfl
  | block _, _, h => by rw [List.mem_singleton.1 h]; rfl
  | operation l _ r, _, h => by
    rcases List.mem_append.1 h with h | h
    · exact isOperation_of_mem_atoms h
    · exact isOperation_of_mem_atoms h

theorem length_tokens_operation (p : Placement) (l r : Phrase) (op : Operator) :
    ((operation l op r).tokens p).length = (l.tokens p).length + (r.tokens p).length + 1 := by
  cases p <;> simp [tokens, Placement.arrange] <;> omega

theorem length_tokens_atom_le {p : Placement} :
    ∀ {e a : Phrase}, a ∈ e.atoms → (a.tokens p).length ≤ (e.tokens p).length
  | leaf .., _, h => Nat.le_of_eq (by rw [List.mem_singleton.1 h])
  | block _, _, h => Nat.le_of_eq (by rw [List.mem_singleton.1 h])
  | operation l _ r, _, h => by
    rw [length_tokens_operation]
    rcases List.mem_append.1 h with h | h
    · have := length_tokens_atom_le (p := p) h
      omega
    · have := length_tokens_atom_le (p := p) h
      omega

theorem nestsRight_of_mem_atoms :
    ∀ {e a : Phrase}, e.nestsRight = true → a ∈ e.atoms → a.nestsRight = true
  | leaf .., _, hn, h => by rw [List.mem_singleton.1 h]; exact hn
  | block _, _, hn, h => by rw [List.mem_singleton.1 h]; exact hn
  | operation l _ r, _, hn, h => by
    simp only [nestsRight, Bool.and_eq_true] at hn
    rcases List.mem_append.1 h with h | h
    · exact nestsRight_of_mem_atoms hn.1.2 h
    · exact nestsRight_of_mem_atoms hn.2 h

theorem exists_head (p : Placement) :
    ∀ e : Phrase, ∃ t rest, e.tokens p = t :: rest ∧ (t.isOperand || t.kind = .openBrace) = true
  | leaf t e he => ⟨t, [], rfl, by rw [Token.isOperand_of_leaf? he, Bool.true_or]⟩
  | block body => ⟨.fixed .openBrace, _, rfl, rfl⟩
  | operation l op r => by
    obtain ⟨t, rest, hl, ht⟩ := exists_head p l
    cases p with
    | between => exact ⟨t, _, by rw [tokens, hl]; rfl, ht⟩
    | behind => exact ⟨t, _, by rw [tokens, hl]; rfl, ht⟩

theorem exists_last (p : Placement) :
    ∀ e : Phrase, ∃ t, (e.tokens p).getLast? = some t ∧ t.kind ≠ .semi
  | leaf t e he => ⟨t, rfl, fun hk => by simp [Token.leaf?, hk] at he⟩
  | block body => ⟨.fixed .closeBrace, by simp [tokens, List.getLast?_cons], by decide⟩
  | operation l op r => by
    cases p with
    | between =>
      obtain ⟨t, ht, hk⟩ := exists_last .between r
      exact ⟨t,
        by simp [tokens, Placement.arrange, List.getLast?_append, List.getLast?_cons, ht], hk⟩
    | behind =>
      refine ⟨op.token, by simp [tokens, Placement.arrange], ?_⟩
      cases op <;> exact TokenKind.noConfusion

theorem head_ne_equals (p : Placement) (e : Phrase) (tail : List Token) :
    ∀ t, (e.tokens p ++ tail).head? = some t → t.kind ≠ .equals := by
  intro t ht
  obtain ⟨u, rest, hu, hstart⟩ := e.exists_head p
  rw [hu] at ht
  obtain rfl := Option.some.inj ht
  exact Token.kind_ne_of_starts hstart rfl

/-- **No expression looks like the start of an assignment**, if no `=` follows it. -/
theorem take_two_ne (p : Placement) : ∀ (e : Phrase) (tail : List Token),
    (∀ t, tail.head? = some t → t.kind ≠ .equals) →
    ((e.tokens p ++ tail).take 2).map Token.kind ≠ [.ident, .equals]
  | leaf t e he, tail, htail => by
    cases tail with
    | nil => simp [tokens]
    | cons u tail =>
      have := htail u rfl
      simp [tokens, this]
  | block body, tail, _ => by
    intro h
    have hfirst := congrArg List.head? h
    simp [tokens, Token.fixed] at hfirst
  | operation l op r, tail, htail => by
    cases p with
    | between =>
      rw [tokens, Placement.arrange, List.append_assoc]
      refine take_two_ne .between l _ ?_
      intro t ht
      obtain rfl := Option.some.inj ht
      cases op <;> exact TokenKind.noConfusion
    | behind =>
      rw [tokens, Placement.arrange, List.append_assoc, List.append_assoc]
      exact take_two_ne .behind l _ (head_ne_equals .behind r _)

end Phrase

/-- Whether a kind can stand behind a whole statement: it begins another or ends the block. -/
def TokenKind.followsStatement : TokenKind → Bool
  | ident | number | string | openBrace | letWord | closeBrace | eof => true
  | _ => false

/-- Whether tokens begin with what ends a block or a program. -/
def Stops (tail : List Token) : Prop :=
  ∃ stop rest, tail = stop :: rest ∧ (stop.kind = .closeBrace ∨ stop.kind = .eof)

theorem Stops.of_kind {t : Token} {rest : List Token} (h : t.kind = .closeBrace ∨ t.kind = .eof) :
    Stops (t :: rest) :=
  ⟨t, rest, rfl, h⟩

namespace Passage

/-- Whether a bare expression comes last, where `front` says whether one stands in front. -/
def endsBareFrom : Bool → Passage → Bool
  | front, done => front
  | _, declaration _ rest | _, initialization _ _ rest | _, assignment _ _ rest
  | _, closed _ rest => rest.endsBareFrom false
  | _, bare _ rest => rest.endsBareFrom true

/-- **A passage is bounded by what follows it** if no bare expression comes last in it, or if the
block or the program ends there. -/
def Bounded (front : Bool) (b : Passage) (tail : List Token) : Prop :=
  b.endsBareFrom front = false ∨ Stops tail

theorem Bounded.of_bare {b : Passage} {tail : List Token} (h : b.Bounded true tail) :
    b.Bounded false tail := by
  refine h.imp_left (fun h => ?_)
  cases b with
  | done => exact absurd h (by simp [endsBareFrom])
  | declaration | initialization | assignment | closed | bare => exact h

theorem Bounded.next {b b' : Passage} {t : Tree} {tail : List Token} (h : b.Bounded false tail)
    (hb : b.next? = some (t, b')) : b'.Bounded false tail := by
  cases b with
  | done => simp [next?] at hb
  | declaration | initialization | assignment | closed =>
    obtain ⟨rfl, rfl⟩ := Prod.mk.inj (Option.some.inj hb)
    exact h
  | bare =>
    obtain ⟨rfl, rfl⟩ := Prod.mk.inj (Option.some.inj hb)
    exact Bounded.of_bare h

/-- **The head of a passage** behind an expression, or what follows the passage where it has none,
can stand behind a statement. -/
theorem followsStatement_of_head (p : Placement) {b : Passage} {tail : List Token}
    (hb : b.Bounded true tail) {t : Token} (ht : (b.tokens p ++ tail).head? = some t) :
    t.kind.followsStatement = true := by
  have hexpr : ∀ {e : Phrase} {tail : List Token}, (e.tokens p ++ tail).head? = some t →
      t.kind.followsStatement = true := by
    intro e tail ht
    obtain ⟨u, more, hu, hstart⟩ := e.exists_head p
    rw [hu] at ht
    obtain rfl := Option.some.inj ht
    revert hstart
    simp only [Token.isOperand]
    cases u.kind <;> decide
  cases b with
  | done =>
    obtain ⟨stop, rest, rfl, hstop⟩ := hb.resolve_left (by simp [endsBareFrom])
    obtain rfl := Option.some.inj ht
    rcases hstop with hk | hk <;> rw [hk] <;> rfl
  | declaration => rw [← Option.some.inj ht]; rfl
  | initialization => rw [← Option.some.inj ht]; rfl
  | assignment => rw [← Option.some.inj ht]; rfl
  | closed e b =>
    rw [tokens, List.append_assoc] at ht
    exact hexpr ht
  | bare e b =>
    rw [tokens, List.append_assoc] at ht
    exact hexpr ht

theorem Bounded.head_ne (p : Placement) {b : Passage} {tail : List Token}
    (hb : b.Bounded true tail) {k : TokenKind} (hk : k.followsStatement = false) :
    ∀ t, (b.tokens p ++ tail).head? = some t → t.kind ≠ k := by
  intro t ht hkind
  have hfollows := followsStatement_of_head p hb ht
  rw [hkind, hk] at hfollows
  exact Bool.false_ne_true hfollows

theorem last_ne_semi_of_endsBareFrom (p : Placement) : ∀ (b : Passage) (front : Bool),
    b.endsBareFrom front = true →
    b = done ∧ front = true ∨ ∃ t, (b.tokens p).getLast? = some t ∧ t.kind ≠ .semi
  | done, _, h => .inl ⟨rfl, h⟩
  | declaration _ rest, _, h => by
    obtain ⟨t, ht, hk⟩ :=
      (last_ne_semi_of_endsBareFrom p rest false h).resolve_left (fun h => Bool.noConfusion h.2)
    exact .inr ⟨t, by simp [tokens, List.getLast?_cons, ht], hk⟩
  | initialization _ e rest, _, h => by
    obtain ⟨t, ht, hk⟩ :=
      (last_ne_semi_of_endsBareFrom p rest false h).resolve_left (fun h => Bool.noConfusion h.2)
    exact .inr ⟨t, by simp [tokens, List.getLast?_cons, List.getLast?_append, ht], hk⟩
  | assignment _ e rest, _, h => by
    obtain ⟨t, ht, hk⟩ :=
      (last_ne_semi_of_endsBareFrom p rest false h).resolve_left (fun h => Bool.noConfusion h.2)
    exact .inr ⟨t, by simp [tokens, List.getLast?_cons, List.getLast?_append, ht], hk⟩
  | closed e rest, _, h => by
    obtain ⟨t, ht, hk⟩ :=
      (last_ne_semi_of_endsBareFrom p rest false h).resolve_left (fun h => Bool.noConfusion h.2)
    exact .inr ⟨t, by simp [tokens, List.getLast?_cons, List.getLast?_append, ht], hk⟩
  | bare e rest, _, h => by
    rcases last_ne_semi_of_endsBareFrom p rest true h with ⟨rfl, -⟩ | ⟨t, ht, hk⟩
    · obtain ⟨t, ht, hk⟩ := e.exists_last p
      exact .inr ⟨t, by simp [tokens, ht], hk⟩
    · exact .inr ⟨t, by simp [tokens, List.getLast?_append, ht], hk⟩

/-- **A passage that ends with `;`** is bounded by whatever follows it. -/
theorem bounded_of_semi {p : Placement} {b : Passage} {t : Token}
    (ht : (b.tokens p).getLast? = some t) (hk : t.kind = .semi) (tail : List Token) :
    b.Bounded false tail := by
  refine .inl (Bool.eq_false_iff.2 (fun hbare => ?_))
  rcases b.last_ne_semi_of_endsBareFrom p false hbare with ⟨-, h⟩ | ⟨u, hu, hne⟩
  · exact Bool.noConfusion h
  · exact hne (Option.some.inj (hu.symm.trans ht) ▸ hk)

theorem length_tokens_phrase_le {p : Placement} :
    ∀ {b : Passage} {e : Phrase}, e ∈ b.phrases → (e.tokens p).length ≤ (b.tokens p).length
  | done, _, h => absurd h List.not_mem_nil
  | declaration _ rest, _, h => by
    have := length_tokens_phrase_le (p := p) (b := rest) h
    simp only [tokens, List.length_cons]
    omega
  | initialization _ value rest, _, h => by
    simp only [tokens, List.length_cons, List.length_append]
    rcases List.mem_cons.1 h with rfl | h
    · omega
    · have := length_tokens_phrase_le (p := p) (b := rest) h
      omega
  | assignment _ value rest, _, h => by
    simp only [tokens, List.length_cons, List.length_append]
    rcases List.mem_cons.1 h with rfl | h
    · omega
    · have := length_tokens_phrase_le (p := p) (b := rest) h
      omega
  | closed e rest, _, h => by
    simp only [tokens, List.length_cons, List.length_append]
    rcases List.mem_cons.1 h with rfl | h
    · omega
    · have := length_tokens_phrase_le (p := p) (b := rest) h
      omega
  | bare e rest, _, h => by
    simp only [tokens, List.length_append]
    rcases List.mem_cons.1 h with rfl | h
    · omega
    · have := length_tokens_phrase_le (p := p) (b := rest) h
      omega

theorem nestsRight_iff : ∀ {b : Passage},
    b.nestsRight = true ↔ ∀ e ∈ b.phrases, e.nestsRight = true
  | done => by simp [nestsRight, phrases]
  | declaration _ rest => by simp [nestsRight, phrases, nestsRight_iff (b := rest)]
  | initialization _ value rest => by simp [nestsRight, phrases, nestsRight_iff (b := rest)]
  | assignment _ value rest => by simp [nestsRight, phrases, nestsRight_iff (b := rest)]
  | closed e rest => by simp [nestsRight, phrases, nestsRight_iff (b := rest)]
  | bare e rest => by simp [nestsRight, phrases, nestsRight_iff (b := rest)]

theorem exists_head_of_next? (p : Placement) {b b' : Passage} {t : Tree}
    (h : b.next? = some (t, b')) :
    ∃ u rest, b.tokens p = u :: rest ∧ u.kind ≠ .closeBrace ∧ u.kind ≠ .eof := by
  have hexpr : ∀ {e : Phrase} {tail : List Token}, ∃ u rest, e.tokens p ++ tail = u :: rest
      ∧ u.kind ≠ .closeBrace ∧ u.kind ≠ .eof := by
    intro e tail
    obtain ⟨u, rest, hu, hstart⟩ := e.exists_head p
    exact ⟨u, rest ++ tail, by rw [hu, List.cons_append], Token.kind_ne_of_starts hstart rfl,
      Token.kind_ne_of_starts hstart rfl⟩
  cases b with
  | done => simp [next?] at h
  | declaration => exact ⟨_, _, rfl, by decide, by decide⟩
  | initialization => exact ⟨_, _, rfl, by decide, by decide⟩
  | assignment => exact ⟨_, _, rfl, TokenKind.noConfusion, TokenKind.noConfusion⟩
  | closed => exact hexpr
  | bare => exact hexpr

theorem eq_done_of_next? {b : Passage} (h : b.next? = none) : b = done := by
  cases b <;> simp [next?] at h
  rfl

theorem next?_spec {p : Placement} {b b' : Passage} {t : Tree} (h : b.next? = some (t, b')) :
    b.trees = t :: b'.trees ∧ (∀ e ∈ b'.phrases, e ∈ b.phrases)
      ∧ (b'.tokens p).length < (b.tokens p).length := by
  cases b with
  | done => simp [next?] at h
  | declaration name rest =>
    obtain ⟨rfl, rfl⟩ := Prod.mk.inj (Option.some.inj h)
    exact ⟨rfl, fun _ he => he, by simp only [tokens, List.length_cons]; omega⟩
  | initialization name value rest =>
    obtain ⟨rfl, rfl⟩ := Prod.mk.inj (Option.some.inj h)
    exact ⟨rfl, fun _ he => List.mem_cons_of_mem _ he, by
      simp only [tokens, List.length_cons, List.length_append]; omega⟩
  | assignment name value rest =>
    obtain ⟨rfl, rfl⟩ := Prod.mk.inj (Option.some.inj h)
    exact ⟨rfl, fun _ he => List.mem_cons_of_mem _ he, by
      simp only [tokens, List.length_cons, List.length_append]; omega⟩
  | closed e rest =>
    obtain ⟨rfl, rfl⟩ := Prod.mk.inj (Option.some.inj h)
    exact ⟨rfl, fun _ he => List.mem_cons_of_mem _ he, by
      simp only [tokens, List.length_cons, List.length_append]; omega⟩
  | bare e rest =>
    obtain ⟨rfl, rfl⟩ := Prod.mk.inj (Option.some.inj h)
    obtain ⟨u, rest', hu, -⟩ := e.exists_head p
    exact ⟨rfl, fun _ he => List.mem_cons_of_mem _ he, by
      simp only [tokens, List.length_append, hu, List.length_cons]; omega⟩

theorem tokens_ne_nil {p : Placement} {b : Passage} {t : Tree} (h : b.trees = [t]) :
    b.tokens p ≠ [] := by
  rcases hb : b.next? with _ | ⟨u, b'⟩
  · rw [eq_done_of_next? hb] at h
    exact absurd h (by simp)
  · have hlen := (b.next?_spec (p := p) hb).2.2
    intro hnil
    rw [hnil] at hlen
    exact absurd hlen (by simp)

/-- One passage after the other. -/
def append : Passage → Passage → Passage
  | done, b => b
  | declaration name rest, b => declaration name (rest.append b)
  | initialization name value rest, b => initialization name value (rest.append b)
  | assignment name value rest, b => assignment name value (rest.append b)
  | closed e rest, b => closed e (rest.append b)
  | bare e rest, b => bare e (rest.append b)

theorem trees_append : ∀ a b : Passage, (a.append b).trees = a.trees ++ b.trees
  | done, _ => rfl
  | declaration _ rest, b => congrArg (_ :: ·) (trees_append rest b)
  | initialization _ _ rest, b => congrArg (_ :: ·) (trees_append rest b)
  | assignment _ _ rest, b => congrArg (_ :: ·) (trees_append rest b)
  | closed _ rest, b => congrArg (_ :: ·) (trees_append rest b)
  | bare _ rest, b => congrArg (_ :: ·) (trees_append rest b)

theorem tokens_append (p : Placement) :
    ∀ a b : Passage, (a.append b).tokens p = a.tokens p ++ b.tokens p
  | done, _ => rfl
  | declaration _ rest, b => by simp [append, tokens, tokens_append p rest b]
  | initialization _ _ rest, b => by simp [append, tokens, tokens_append p rest b]
  | assignment _ _ rest, b => by simp [append, tokens, tokens_append p rest b]
  | closed _ rest, b => by simp [append, tokens, tokens_append p rest b]
  | bare _ rest, b => by simp [append, tokens, tokens_append p rest b]

theorem nestsRight_append :
    ∀ a b : Passage, (a.append b).nestsRight = (a.nestsRight && b.nestsRight)
  | done, _ => rfl
  | declaration _ rest, b => nestsRight_append rest b
  | initialization _ _ rest, b => by
    simp [append, nestsRight, nestsRight_append rest b, Bool.and_assoc]
  | assignment _ _ rest, b => by
    simp [append, nestsRight, nestsRight_append rest b, Bool.and_assoc]
  | closed _ rest, b => by simp [append, nestsRight, nestsRight_append rest b, Bool.and_assoc]
  | bare _ rest, b => by simp [append, nestsRight, nestsRight_append rest b, Bool.and_assoc]

end Passage

end BlockLang
