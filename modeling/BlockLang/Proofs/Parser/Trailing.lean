import BlockLang.Proofs.Lexer.Blank
import BlockLang.Proofs.Parser.Above
import BlockLang.Proofs.Parser.Append
import BlockLang.Proofs.Parser.Assigned
import BlockLang.Proofs.Resolver.Adjacent

/-!
# What stands behind the first statement

A source that is one statement may have more behind it, set off by a blank.  Where the
signs stand between operands, the first statement is the same.  Where they stand behind,
it is the same if it ends with `;` or if a `let` comes next: there the resolver lets all
operators out, and the fold stops.

Otherwise the two run into each other.  An operation waits for its last operator while
what follows goes out, so that it is never the first statement.  A name, a literal or a
block is, if an assignment follows or if the first statement of what follows can be read
alone: the fold reads on over it and goes back.  If it cannot, the fold stops there, or it
joins the expression to what follows.
-/

namespace BlockLang

open StepM BlockLang.Text

/-! ### The tokens of the two sources -/

theorem isTerminated_of_parseProgram {source : String} {g : Grouping} {ts : List Tree}
    (h : parseProgram source g = .ok ts) :
    ∀ t ∈ significantTokens source, t.kind = .string → Parser.isTerminated t.text = true := by
  have hclosed : ∀ (p : Placement) (b : Passage), ∀ t ∈ b.tokens p, t.kind = .string →
      Parser.isTerminated t.text = true := by
    intro p b
    refine b.forall_mem_tokens (fun t e he hk => ?_) (fun k hk hstring => ?_)
    · simp only [Token.leaf?, hk] at he
      split at he
      next hterm => exact hterm
      · exact absurd he (by simp)
    · obtain rfl : k = .string := hstring
      exact absurd hk Bool.false_ne_true
  cases g with
  | rightward =>
    obtain ⟨b, -, hb, -⟩ := parseProgram_rightward_iff.1 h
    exact hb ▸ hclosed .between b
  | byPrecedence =>
    obtain ⟨b, -, hb⟩ := parseProgram_byPrecedence_iff.1 h
    intro t ht
    exact hclosed .behind b t (by rw [hb]; exact (resolve_perm _).mem_iff.2 ht)

/-- **Behind an accepted source**, what is set off by a blank has the tokens that it has alone. -/
theorem significantTokens_append {s₁ s₂ : String} {g : Grouping} {ts : List Tree}
    (h : parseProgram s₁ g = .ok ts) (hblank : s₂.toList.head?.any isBlank = true) :
    significantTokens (s₁ ++ s₂) = significantTokens s₁ ++ significantTokens s₂ := by
  have hclosed := isTerminated_of_parseProgram h
  obtain ⟨b, hhead, hb⟩ := (Option.any_eq_true ..).1 hblank
  obtain ⟨cs, hcs⟩ := List.head?_eq_some_iff.1 hhead
  simp only [← filter_counts_dropLast_tokenize, dropLast_tokenize, String.toList_append]
    at hclosed ⊢
  rw [hcs]
  exact Lexer.filter_tokens_append hb hclosed cs

/-! ### Passages of one statement -/

theorem Passage.eq_bare_or_getLast? {b : Passage} {t : Tree} (h : b.trees = [t]) :
    (∃ e, b = .bare e .done) ∨ ∀ p, (b.tokens p).getLast? = some (.fixed .semi) := by
  have hdone : ∀ {rest : Passage}, rest.trees = [] → rest = .done := by
    intro rest hrest
    cases rest with
    | done => rfl
    | _ => exact absurd hrest (List.cons_ne_nil _ _)
  cases b with
  | done => exact absurd h.symm (List.cons_ne_nil _ _)
  | bare e rest => exact .inl ⟨e, by rw [hdone (List.cons.inj h).2]⟩
  | _ =>
    obtain rfl := hdone (List.cons.inj h).2
    exact .inr (fun p => by simp [List.getLast?_cons])

theorem Passage.exists_phrase_of_isOperation (p : Placement) {b : Passage} {t : Tree}
    (h : b.trees = [t]) (ht : t.isOperation = true) :
    ∃ (e : Phrase) (tail : List Token), e.tree = t ∧ b.tokens p = e.tokens p ++ tail := by
  cases b with
  | done => exact absurd h.symm (List.cons_ne_nil _ _)
  | closed e rest => exact ⟨e, _, (List.cons.inj h).1, rfl⟩
  | bare e rest => exact ⟨e, _, (List.cons.inj h).1, rfl⟩
  | _ =>
    obtain ⟨rfl, -⟩ := List.cons.inj h
    exact absurd ht Bool.false_ne_true

/-- An operation with its sign behind ends with an operator, and no other expression does. -/
theorem Phrase.exists_last_behind (e : Phrase) : ∃ t, (e.tokens .behind).getLast? = some t
    ∧ t.isOperator = e.isOperation := by
  cases e with
  | leaf t e he =>
    exact ⟨t, rfl, Token.isOperator_of_starts (by rw [Token.isOperand_of_leaf? he]; rfl)⟩
  | operation l op r => exact ⟨op.token, by simp [Placement.arrange], op.isOperator_token⟩
  | block body => exact ⟨.fixed .closeBrace, by simp [List.getLast?_cons], rfl⟩

namespace Parser

variable {c d : Cursor} {tail : List Token} {t : Tree}

/-! ### What can be read on over -/

theorem follows_let {stmt : ParseM Tree} (g : Grouping) {u : Token} (hu : u.kind = .letWord)
    (rest : List Token) : Follows stmt g (u :: rest) := by
  cases g with
  | rightward =>
    intro t ht
    obtain rfl := Option.some.inj ht
    simp [Token.isOperator, TokenKind.isOperator, hu]
  | byPrecedence =>
    refine ⟨fun t ht => ?_, fun c folded fuel hc _ hahead _ _ => ?_⟩
    · obtain rfl := Option.some.inj ht
      rw [hu]
      exact TokenKind.noConfusion
    · refine (ends_fold_stop hc hahead ?_ ?_ folded fuel).mono (fun _ _ => readsOn_of_stays)
        (fun _ _ h => h)
      · simp [Token.isOperand, TokenKind.isOperand, hu]
      · simp [Token.isOperator, TokenKind.isOperator, hu]

theorem follows_assigns {stmt : ParseM Tree} (name : String) (rest : List Token) :
    Follows stmt .byPrecedence (.ofName name :: .fixed .equals :: rest) := by
  refine ⟨fun t ht => ?_, fun c folded fuel hc _ hahead hstack _ => ?_⟩
  · obtain rfl := Option.some.inj ht
    exact TokenKind.noConfusion
  · exact (ends_fold_assignment hc hahead hstack fuel).mono (fun _ _ => readsOn_of_stays)
      (fun _ _ h => h)

/-! ### The first statement -/

theorem gives_statement_of_semi {b : Passage} (hc : c.Fit) (htrees : b.trees = [t])
    (hsemi : (b.tokens c.grouping.placement).getLast? = some (.fixed .semi))
    (hahead : c.ahead = b.tokens c.grouping.placement ++ tail)
    (hnests : c.grouping = .rightward → b.nestsRight = true) : Gives statement c t tail := by
  rcases hb : b.next? with _ | ⟨t', b'⟩
  · rw [Passage.eq_done_of_next? hb] at hsemi
    exact absurd hsemi (by simp)
  · obtain ⟨hspec, -⟩ := b.next?_spec (p := c.grouping.placement) hb
    obtain ⟨rfl, htrees'⟩ := List.cons.inj (hspec.symm.trans htrees)
    have hgives := gives_statement (Passage.bounded_of_semi hsemi rfl tail) hb hc hahead hnests
    rcases hb' : b'.next? with _ | ⟨u, b''⟩
    · rwa [Passage.eq_done_of_next? hb'] at hgives
    · rw [(b'.next?_spec (p := c.grouping.placement) hb').1] at htrees'
      exact absurd htrees' (List.cons_ne_nil _ _)

theorem gives_statement_bare {e : Phrase} (hc : c.Fit)
    (hahead : c.ahead = e.tokens c.grouping.placement ++ tail)
    (hnests : c.grouping = .rightward → e.nestsRight = true)
    (htail : Follows (statementAt c.stream.capacity) c.grouping tail)
    (hnext : ∀ u, tail.head? = some u → u.kind.followsStatement = true) :
    Gives statement c e.tree tail := by
  have hroom := hc.length_ahead_le
  rw [hahead, List.length_append] at hroom
  have hne : ∀ k : TokenKind, k.followsStatement = false →
      ∀ u, tail.head? = some u → u.kind ≠ k := by
    intro k hk u hu hkind
    rw [← hkind, hnext u hu] at hk
    exact Bool.noConfusion hk
  have hread : Readable (statementAt c.stream.capacity) c.grouping (.bare e .done) := by
    refine readable_of_givesAtom (givesAtom_statementAt _ _) ?_ (fun hg => ?_)
    · simp only [Passage.tokens, List.append_nil]
      omega
    · simp [Passage.nestsRight, hnests hg]
  unfold statement
  rw [Gives, ends_capacity_bind, statementAt]
  obtain ⟨hlet, hother⟩ := head_ne_of_ahead hahead (hne .equals rfl)
  refine gives_statementWith_other hc hlet (if_neg hother).symm ?_
  intro c' hc' hg' hahead'
  refine gives_bare hc' (hg' ▸ hread.atoms e List.mem_cons_self) (hg' ▸ hnests) ?_ (hg' ▸ htail)
    (hne .semi rfl)
  rw [hahead', hahead, hg']

theorem Agree.ends {α : Type} {p q : ParseM α} {Q : α → Prop} {E : Prop} (h : Agree Same p c q d)
    (hp : Ends p c (fun a _ => Q a) (fun _ _ => E)) : Ends q d (fun a _ => Q a) (fun _ _ => E) := by
  cases h with
  | ok hrun hrun' hV =>
    obtain rfl : _ = _ := hV
    exact ends_iff.2 (.inl ⟨_, _, hrun', hp.of_ok hrun⟩)
  | error hrun hrun' => exact ends_iff.2 (.inr ⟨_, _, hrun', hp.of_error hrun⟩)

theorem ends_optional_tag (hc : c.Fit) (k : TokenKind) :
    Ends (Parser.optional (tag k)) c (fun _ _ => True) (fun _ _ => False) := by
  by_cases h : ∃ u, c.ahead.head? = some u ∧ u.kind = k
  · obtain ⟨u, hu, hk⟩ := h
    obtain ⟨rest, hahead⟩ := List.head?_eq_some_iff.1 hu
    exact Ends.mono (gives_tag hc hahead hk).optional (fun _ _ _ => trivial) (fun _ _ h => h)
  · have hrefuse : Refuses (tag k) c := refuses_tag hc (fun u hu hk => h ⟨u, hu, hk⟩)
    exact Ends.mono (hrefuse.optional hc) (fun _ _ _ => trivial) (fun _ _ h => h)

theorem ends_trial_of_ends {α : Type} {p : ParseM α} {Q : α → Prop} {E : Prop}
    (h : Ends p c (fun a _ => Q a) (fun _ _ => E)) :
    Ends (trial p) c
      (fun r _ => match r with
        | .ok a => Q a
        | .error _ => E)
      (fun _ _ => E) := by
  have hattempt : Ends (attempt p) c (fun a _ => Q a) (fun _ _ => E) := by
    unfold attempt
    rw [ends_position_bind]
    refine h.tryCatch (fun _ _ h => h) (fun fault c' hE => ?_)
    cases fault with
    | refused e =>
      exact (ends_trivial (rewind _) c').bind (fun _ _ _ => ends_throw.2 hE) (fun _ _ _ => hE)
    | _ => exact ends_throw.2 hE
  unfold trial
  have hok : Ends (do return .ok (← attempt p) : ParseM (Except ParseError α)) c
      (fun r _ => match r with
        | .ok a => Q a
        | .error _ => E)
      (fun _ _ => E) :=
    hattempt.bind (fun _ _ h => ends_pure.2 h) (fun _ _ h => h)
  refine hok.tryCatch (fun _ _ h => h) (fun fault c' hE => ?_)
  cases fault with
  | refused e => exact ends_pure.2 hE
  | _ => exact ends_throw.2 hE

/-- **Where an expression comes first**, the statement is what the expression is. -/
theorem ends_statement_of_expr {Q : Tree → Prop} {E : Prop} (hc : c.Fit)
    (hstart : StartsExpr c.ahead)
    (h : Ends (expr (statementAt c.stream.capacity)) c (fun t _ => Q t) (fun _ _ => E)) :
    Ends statement c (fun t _ => Q t) (fun _ _ => E) := by
  have hroom := hc.length_ahead_le
  unfold statement
  rw [ends_capacity_bind, statementAt, statementWith, ends_position_bind]
  generalize hstmt : statementAt c.stream.capacity = stmt at h ⊢
  have hwithin : AgreeWithin c.ahead.length stmt stmt :=
    hstmt ▸ agreeWithin_statementAt hroom hroom
  refine (ends_startsAssignment hc).andThen ?_
  rintro _ c₁ ⟨rfl, hstay₁⟩
  have hc₁ := hstay₁.fit hc
  obtain ⟨u, hu, hstarts⟩ := hstart.head
  have hbinding : Refuses (binding stmt) c₁ := by
    refine (refuses_tag hc₁ (fun v hv => ?_)).bind
    rw [hstay₁.ahead_eq, hu] at hv
    obtain rfl := Option.some.inj hv
    exact Token.kind_ne_of_starts hstarts rfl
  refine Ends.andThen (hbinding.trial hc₁) ?_
  rintro _ c₂ ⟨⟨e, rfl⟩, hstay₂⟩
  have hstay := hstay₁.trans hstay₂
  have hc₂ := hstay.fit hc
  dsimp only
  rw [if_neg (by rw [decide_eq_true_eq]; exact hstart.take_two)]
  have hagree : Agree Same (expr stmt) c (expr stmt) c₂ :=
    agree_expr hwithin ⟨hc, hc₂, hstay.grouping_eq.symm, hstay.ahead_eq.symm⟩ (Nat.le_refl _)
  have hexpr : Ends (exprStatement stmt) c₂ (fun t _ => Q t) (fun _ _ => E) := by
    unfold exprStatement
    refine ((hagree.ends h).and (ends_expr hwithin.reads hc₂)).bind ?_ (fun _ _ h => h.1)
    rintro t c₃ ⟨hQ, halong₃, -⟩
    exact (ends_optional_tag (halong₃.fit hc₂) .semi).andThen (fun _ _ _ => ends_pure.2 hQ)
  have hfirst : Ends (firstOf [exprStatement stmt]) c₂
      (fun r _ => (∃ t, r = .ok t ∧ Q t) ∨ ∃ es, r = .error es ∧ E) (fun _ _ => E) := by
    unfold firstOf
    refine (ends_trial_of_ends hexpr).bind ?_ (fun _ _ h => h)
    rintro (e | t) c₃ h₃
    · exact ends_pure.2 (.inr ⟨_, rfl, h₃⟩)
    · exact ends_pure.2 (.inl ⟨t, rfl, h₃⟩)
  refine hfirst.bind ?_ (fun _ _ h => h)
  rintro _ c₃ (⟨t, rfl, ht⟩ | ⟨es, rfl, hE⟩)
  · exact ends_pure.2 ht
  · dsimp only
    rcases es with _ | ⟨e', es⟩
    · exact Ends.bind (ends_trivial _ c₃) (fun _ _ _ => ends_throw.2 hE) (fun _ _ _ => hE)
    · exact Ends.bind (ends_trivial _ c₃) (fun _ _ _ => ends_throw.2 hE) (fun _ _ _ => hE)

end Parser

/-- **Where the signs stand between operands**, what follows a statement makes no difference to
it. -/
theorem parse_append_rightward {s₁ s₂ : String} {t : Tree} {u : Token} {us : List Token}
    (h : parseProgram s₁ .rightward = .ok [t])
    (hsig : significantTokens (s₁ ++ s₂) = significantTokens s₁ ++ u :: us)
    (hu : u.kind.followsStatement = true) : parse (s₁ ++ s₂) .rightward = .ok t := by
  obtain ⟨b, htrees, hb, hnests⟩ := parseProgram_rightward_iff.1 h
  have hc : (Cursor.ofSource (s₁ ++ s₂) .rightward).Fit := fit_ofSource _ .rightward
  have hahead : (Cursor.ofSource (s₁ ++ s₂) .rightward).ahead
      = b.tokens .between ++ u :: (us ++ [.endMark]) := by
    refine (ahead_ofSource_rightward _).trans ?_
    rw [hsig, hb, List.append_assoc, List.cons_append]
  rcases Passage.eq_bare_or_getLast? htrees with ⟨e, rfl⟩ | hsemi
  · obtain rfl : e.tree = t := (List.cons.inj htrees).1
    have hnests : e.nestsRight = true := by simpa [Passage.nestsRight] using hnests
    rw [Passage.tokens, Passage.tokens, List.append_nil] at hahead
    refine parse_of_gives (Parser.gives_statement_bare hc hahead (fun _ => hnests) ?_
      (fun v hv => Option.some.inj hv ▸ hu))
    intro v hv
    obtain rfl := Option.some.inj hv
    revert hu
    simp only [Token.isOperator]
    cases u.kind <;> decide
  · exact parse_of_gives (Parser.gives_statement_of_semi hc htrees (hsemi .between) hahead
      (fun _ => hnests))

/-! ### Behind an expression, where the signs stand behind operands -/

section Behind

variable {s₁ s₂ : String} {e : Phrase} {u : Token} {us : List Token}

/-- Where no operator waits at the end of the first source, the streams stand end to end. -/
theorem ahead_append_of_heldAfter
    (hsig : significantTokens (s₁ ++ s₂) = significantTokens s₁ ++ significantTokens s₂)
    (hheld : Resolver.heldAfter [] (significantTokens s₁) = []) :
    (TokenStream.ofSource (s₁ ++ s₂) .byPrecedence).ahead
      = resolve (significantTokens s₁) ++ (TokenStream.ofSource s₂ .byPrecedence).ahead := by
  rw [ahead_ofSource_byPrecedence, ahead_ofSource_byPrecedence, hsig, resolve_append hheld,
    List.append_assoc]

variable (he : e.tokens .behind = resolve (significantTokens s₁))

include he

theorem depthFrom_significantTokens : depthFrom 0 (significantTokens s₁) = 0 := by
  rw [← depthFrom_resolve, ← he, e.depthFrom_tokens]

/-- **An operator waits at the end** if and only if the expression is an operation. -/
theorem heldAfter_eq_nil_iff_isOperation :
    Resolver.heldAfter [] (significantTokens s₁) = [] ↔ e.isOperation = false := by
  obtain ⟨t, ht, hop⟩ := e.exists_last_behind
  rw [he] at ht
  constructor
  · intro hheld
    obtain ⟨hlast, hnone⟩ := Resolver.getLast?_resolve hheld
    rw [← hop]
    exact hnone t (hlast.symm.trans ht)
  · intro hatom
    exact Resolver.heldAfter_eq_nil_of_getLast? (depthFrom_significantTokens he) ht
      (hop.trans hatom)

theorem parse_append_let (hsig : significantTokens (s₁ ++ s₂) = significantTokens s₁ ++ u :: us)
    (hu : u.kind = .letWord) : parse (s₁ ++ s₂) .byPrecedence = .ok e.tree := by
  have hc : (Cursor.ofSource (s₁ ++ s₂) .byPrecedence).Fit := fit_ofSource _ .byPrecedence
  have hahead : (Cursor.ofSource (s₁ ++ s₂) .byPrecedence).ahead
      = e.tokens .behind ++ u :: (resolve us ++ [.endMark]) := by
    refine (ahead_ofSource_byPrecedence _).trans ?_
    rw [hsig, Resolver.resolve_append_let (depthFrom_significantTokens he) hu, he,
      List.append_assoc, List.cons_append]
  have hfollows : u.kind.followsStatement = true := by
    rw [hu]
    rfl
  exact parse_of_gives (Parser.gives_statement_bare hc hahead (fun hg => Grouping.noConfusion hg)
    (Parser.follows_let _ hu _) (fun v hv => Option.some.inj hv ▸ hfollows))

/-- **In front of another expression, no operation is read**: its last operator goes out behind what
begins the other. -/
theorem parse_append_ne_of_isOperation (hop : e.isOperation = true)
    (hsig : significantTokens (s₁ ++ s₂) = significantTokens s₁ ++ u :: us)
    (hu : (u.isOperand || u.kind = .openBrace) = true) :
    parse (s₁ ++ s₂) .byPrecedence ≠ .ok e.tree := by
  intro hparse
  have hdepth := depthFrom_significantTokens he
  obtain ⟨out, hout, happend⟩ := Resolver.exists_resolve_append hdepth
  have hheld : Resolver.heldAfter [] (significantTokens s₁) ≠ [] := by
    intro hnil
    rw [(heldAfter_eq_nil_iff_isOperation he).1 hnil] at hop
    exact Bool.false_ne_true hop
  obtain ⟨rest, hrest⟩ : ∃ rest, (Cursor.ofSource (s₁ ++ s₂) .byPrecedence).ahead
      = out ++ u :: rest := by
    obtain ⟨held, hshift⟩ := Resolver.exists_shift_of_starts hu
      (Resolver.heldAfter [] (significantTokens s₁))
    refine ⟨Resolver.resolveFrom held us ++ [.endMark], (ahead_ofSource_byPrecedence _).trans ?_⟩
    rw [hsig, happend, Resolver.resolveFrom, hshift]
    simp
  obtain ⟨c', hrun⟩ := exists_runFrom_statement hparse
  have hc : (Cursor.ofSource (s₁ ++ s₂) .byPrecedence).Fit := fit_ofSource _ .byPrecedence
  obtain ⟨-, b, htrees, hb, -⟩ := (Parser.ends_statement _ hc).of_ok hrun
  obtain ⟨e', tail, htree, htail⟩ := b.exists_phrase_of_isOperation .behind htrees
    (e.isOperation_tree.trans hop)
  have hsplit : out ++ u :: rest = e'.tokens .behind ++ (tail ++ c'.ahead) := by
    rw [← List.append_assoc, ← htail, ← hrest]
    exact hb
  exact tree_ne_of_interrupted (he.trans hout)
    (fun t ht => Resolver.isOperator_of_mem_heldAfter hdepth ht) hheld
    (Token.isOperator_of_starts hu) hsplit htree

theorem parse_append_assigns (hatom : e.isOperation = false)
    (hsig : significantTokens (s₁ ++ s₂) = significantTokens s₁ ++ significantTokens s₂)
    (h₂ : significantTokens s₂ = u :: us)
    (hassigns : ((u :: us).take 2).map Token.kind = [.ident, .equals]) :
    parse (s₁ ++ s₂) .byPrecedence = .ok e.tree := by
  obtain ⟨name, rest, hrest⟩ : ∃ name rest, (TokenStream.ofSource s₂ .byPrecedence).ahead
      = .ofName name :: .fixed .equals :: rest := by
    rcases us with _ | ⟨v, us⟩
    · exact absurd hassigns (by simp)
    · obtain ⟨hident, hequals⟩ : u.kind = .ident ∧ v.kind = .equals := by simpa using hassigns
      have hfilter : (tokenize s₂).filter Token.counts = u :: v :: (us ++ [.endMark]) := by
        rw [filter_counts_tokenize, h₂]
        rfl
      exact ⟨u.text, exists_ahead_of_assigns .byPrecedence hfilter hident hequals⟩
  have hc : (Cursor.ofSource (s₁ ++ s₂) .byPrecedence).Fit := fit_ofSource _ .byPrecedence
  have hahead : (Cursor.ofSource (s₁ ++ s₂) .byPrecedence).ahead
      = e.tokens .behind ++ .ofName name :: .fixed .equals :: rest := by
    rw [← hrest, he]
    exact ahead_append_of_heldAfter hsig ((heldAfter_eq_nil_iff_isOperation he).2 hatom)
  exact parse_of_gives (Parser.gives_statement_bare hc hahead (fun hg => Grouping.noConfusion hg)
    (Parser.follows_assigns name rest) (fun v hv => Option.some.inj hv ▸ rfl))

/-- **In front of another expression, any but an operation is read** if and only if the other is
read alone. -/
theorem parse_append_expr_iff (hatom : e.isOperation = false)
    (hsig : significantTokens (s₁ ++ s₂) = significantTokens s₁ ++ significantTokens s₂)
    (h₂ : significantTokens s₂ = u :: us) (hu : (u.isOperand || u.kind = .openBrace) = true)
    (hassigns : ((u :: us).take 2).map Token.kind ≠ [.ident, .equals]) :
    parse (s₁ ++ s₂) .byPrecedence = .ok e.tree ↔ ∃ v, parse s₂ .byPrecedence = .ok v := by
  let c : Cursor := .ofSource (s₁ ++ s₂) .byPrecedence
  let d : Cursor := .ofSource s₂ .byPrecedence
  have hc : c.Fit := fit_ofSource _ .byPrecedence
  have hd : d.Fit := fit_ofSource _ .byPrecedence
  have hroom := hc.length_ahead_le
  have hroom' := hd.length_ahead_le
  have hahead : c.ahead = e.tokens .behind ++ d.ahead := by
    rw [he]
    exact ahead_append_of_heldAfter hsig ((heldAfter_eq_nil_iff_isOperation he).2 hatom)
  rw [hahead, List.length_append] at hroom
  have hstart : Parser.StartsExpr d.ahead := by
    obtain ⟨held, hshift⟩ := Resolver.exists_shift_of_starts hu []
    have hbehind : d.ahead = resolve (u :: us) ++ [.endMark] := h₂ ▸ ahead_ofSource_byPrecedence s₂
    refine ⟨⟨u, ?_, hu⟩, fun htwo => hassigns (Resolver.take_two_of_resolve ?_)⟩
    · rw [hbehind, resolve, Resolver.resolveFrom, hshift]
      rfl
    · rw [hbehind] at htwo
      rcases hout : resolve (u :: us) with _ | ⟨v, _ | ⟨w, rest⟩⟩
      · exact absurd htwo (by simp [hout])
      · exact absurd htwo (by simp [hout, Token.endMark])
      · rw [hout] at htwo
        exact htwo
  have hstart' : Parser.StartsExpr c.ahead := by
    obtain ⟨v, more, hv, hstarts⟩ := e.exists_head .behind
    refine ⟨⟨v, by rw [hahead, hv]; rfl, hstarts⟩, ?_⟩
    rw [hahead]
    refine e.take_two_ne .behind _ (fun w hw => ?_)
    obtain ⟨u', hu', hstarts'⟩ := hstart.head
    obtain rfl := Option.some.inj (hw.symm.trans hu')
    exact Token.kind_ne_of_starts hstarts' rfl
  have hgives : Parser.GivesAtom (Parser.statementAt c.stream.capacity) .byPrecedence e :=
    Parser.givesAtom_statementAt .byPrecedence _ e hatom
      (Nat.le_trans (Nat.le_add_right _ _) hroom) (fun hg => Grouping.noConfusion hg)
  have hexpr := Parser.ends_expr_above
    (Parser.agreeWithin_statementAt (Nat.le_trans (Nat.le_add_left _ _) hroom) hroom') hc hd rfl rfl
    hgives hahead hstart (Nat.le_refl _) (Parser.agreeWithin_statementAt hroom' hroom')
  rcases hexpr with ⟨hother, hthis⟩ | ⟨hother, hthis⟩
  · obtain ⟨v, _, hv, -⟩ := (Parser.ends_statement_of_expr hd hstart hother).exists_ok
    obtain ⟨_, _, hrun, rfl⟩ := (Parser.ends_statement_of_expr hc hstart' hthis).exists_ok
    exact iff_of_true (by rw [parse, hrun]) ⟨v, by rw [parse, hv]⟩
  · refine iff_of_false (fun hparse => ?_) ?_
    · obtain ⟨_, hrun⟩ := exists_runFrom_statement hparse
      have hop := (Parser.ends_statement_of_expr hc hstart' hthis).of_ok hrun
      rw [e.isOperation_tree, hatom] at hop
      exact Bool.false_ne_true hop
    · rintro ⟨v, hparse⟩
      obtain ⟨_, hrun⟩ := exists_runFrom_statement hparse
      exact (Parser.ends_statement_of_expr hd hstart hother).of_ok hrun

theorem parse_append_bare_iff
    (hsig : significantTokens (s₁ ++ s₂) = significantTokens s₁ ++ significantTokens s₂)
    (h₂ : significantTokens s₂ = u :: us)
    (hu : u.kind ≠ .letWord → (u.isOperand || u.kind = .openBrace) = true) :
    parse (s₁ ++ s₂) .byPrecedence = .ok e.tree
      ↔ u.kind = .letWord
        ∨ e.tree.isOperation = false ∧ (((u :: us).take 2).map Token.kind = [.ident, .equals]
          ∨ ∃ v, parse s₂ .byPrecedence = .ok v) := by
  have hsig' : significantTokens (s₁ ++ s₂) = significantTokens s₁ ++ u :: us := by rw [hsig, h₂]
  by_cases hlet : u.kind = .letWord
  · exact iff_of_true (parse_append_let he hsig' hlet) (.inl hlet)
  · rw [or_iff_right hlet, e.isOperation_tree]
    cases hop : e.isOperation with
    | true =>
      exact iff_of_false (parse_append_ne_of_isOperation he hop hsig' (hu hlet))
        (fun h => Bool.noConfusion h.1)
    | false =>
      by_cases hassigns : ((u :: us).take 2).map Token.kind = [.ident, .equals]
      · exact iff_of_true (parse_append_assigns he hop hsig h₂ hassigns) ⟨rfl, .inl hassigns⟩
      · rw [parse_append_expr_iff he hop hsig h₂ (hu hlet) hassigns, or_iff_right hassigns]
        exact (and_iff_right rfl).symm

theorem getLast?_significantTokens_ne :
    (significantTokens s₁).getLast?.map Token.kind ≠ some .semi := by
  intro hlast
  obtain ⟨v, hv, hk⟩ := Option.map_eq_some_iff.1 hlast
  obtain ⟨front, hfront⟩ := List.getLast?_eq_some_iff.1 hv
  have hdepth := depthFrom_significantTokens he
  rw [hfront] at hdepth
  obtain ⟨w, hw, hne⟩ := e.exists_last .behind
  rw [he, hfront, (resolve_append_semi hk hdepth []).2] at hw
  exact hne (Option.some.inj hw ▸ hk)

end Behind

/-- Behind a `;`, what follows makes no difference. -/
theorem parse_append_semi {s₁ s₂ : String} {b : Passage} {t : Tree} (htrees : b.trees = [t])
    (hb : b.tokens .behind = resolve (significantTokens s₁))
    (hsemi : (b.tokens .behind).getLast? = some (.fixed .semi))
    (hsig : significantTokens (s₁ ++ s₂) = significantTokens s₁ ++ significantTokens s₂) :
    parse (s₁ ++ s₂) .byPrecedence = .ok t
      ∧ (significantTokens s₁).getLast? = some (.fixed .semi) := by
  have hdepth : depthFrom 0 (significantTokens s₁) = 0 := by
    rw [← depthFrom_resolve, ← hb, b.depthFrom_tokens]
  have hlast : (resolve (significantTokens s₁)).getLast? = some (.fixed .semi) := hb ▸ hsemi
  have hheld := Resolver.heldAfter_eq_nil_of_getLast? hdepth hlast rfl
  have hc : (Cursor.ofSource (s₁ ++ s₂) .byPrecedence).Fit := fit_ofSource _ .byPrecedence
  have hahead : (Cursor.ofSource (s₁ ++ s₂) .byPrecedence).ahead
      = b.tokens .behind ++ (Cursor.ofSource s₂ .byPrecedence).ahead := by
    rw [hb]
    exact ahead_append_of_heldAfter hsig hheld
  refine ⟨parse_of_gives (Parser.gives_statement_of_semi hc htrees hsemi hahead
    (fun hg => Grouping.noConfusion hg)), ?_⟩
  rw [← (Resolver.getLast?_resolve hheld).1, hlast]

/-- **What follows a statement, set off by a blank, is left alone** if and only if the signs stand
between operands, the statement ends with `;`, a `let` comes next, or the statement is no operation
and an assignment or a statement that can be read alone comes next. -/
theorem parse_append_eq_ok_iff {s₁ s₂ : String} {g : Grouping} {t : Tree} {u : Token}
    {us : List Token} (h₁ : parseProgram s₁ g = .ok [t])
    (hblank : s₂.toList.head?.any isBlank = true) (h₂ : significantTokens s₂ = u :: us)
    (hu : u.kind ∈ [.number, .string, .letWord, .openBrace, .ident]) :
    parse (s₁ ++ s₂) g = .ok t
      ↔ g = .rightward ∨ (significantTokens s₁).getLast?.map Token.kind = some .semi
        ∨ u.kind = .letWord
        ∨ t.isOperation = false ∧ (((u :: us).take 2).map Token.kind = [.ident, .equals]
          ∨ ∃ v, parse s₂ g = .ok v) := by
  have hsig := significantTokens_append h₁ hblank
  obtain ⟨hfollows, hstarts⟩ : u.kind.followsStatement = true
      ∧ (u.kind ≠ .letWord → (u.isOperand || u.kind = .openBrace) = true) := by
    revert hu
    simp only [Token.isOperand]
    cases u.kind <;> decide
  cases g with
  | rightward => exact iff_of_true (parse_append_rightward h₁ (h₂ ▸ hsig) hfollows) (.inl rfl)
  | byPrecedence =>
    obtain ⟨b, htrees, hb⟩ := parseProgram_byPrecedence_iff.1 h₁
    rw [or_iff_right (Grouping.noConfusion : Grouping.byPrecedence ≠ .rightward)]
    rcases Passage.eq_bare_or_getLast? htrees with ⟨e, rfl⟩ | hsemi
    · obtain rfl : e.tree = t := (List.cons.inj htrees).1
      have he : e.tokens .behind = resolve (significantTokens s₁) := by
        rw [← hb, Passage.tokens, Passage.tokens, List.append_nil]
      rw [or_iff_right (getLast?_significantTokens_ne he)]
      exact parse_append_bare_iff he hsig h₂ hstarts
    · obtain ⟨hparse, hlast⟩ := parse_append_semi htrees hb (hsemi .behind) hsig
      exact iff_of_true hparse (.inl (by rw [hlast]; rfl))

/-- In front of a name, another name is read alone, and a sum is not. -/
theorem parse_append_eq_ok_iff_sum :
    parse ("x" ++ " y") .byPrecedence = .ok (.name "x")
      ∧ parse ("1 + 2" ++ " y") .byPrecedence
        ≠ .ok (.operation (.number 1) (.number 2) .add) := by
  let sum : Phrase := .operation (.leaf (.of .number "1") (.number 1) rfl) .add
    (.leaf (.of .number "2") (.number 2) rfl)
  have hsum : parseProgram "1 + 2" .byPrecedence
      = .ok [.operation (.number 1) (.number 2) .add] :=
    parseProgram_byPrecedence_iff.2 ⟨.bare sum .done, rfl, by decide⟩
  have hname : parseProgram "x" .byPrecedence = .ok [.name "x"] :=
    parseProgram_byPrecedence_iff.2 ⟨.bare (.leaf (.of .ident "x") _ rfl) .done, rfl, by decide⟩
  have hother : parse " y" .byPrecedence = .ok (.name "y") := by cbv
  have htokens : significantTokens " y" = .of .ident "y" :: [] := by decide
  refine ⟨(parse_append_eq_ok_iff hname (by decide) htokens (by decide)).2 ?_, fun h => ?_⟩
  · exact .inr (.inr (.inr ⟨rfl, .inr ⟨_, hother⟩⟩))
  · have hcases := (parse_append_eq_ok_iff hsum (by decide) htokens (by decide)).1 h
    rcases hcases with hg | hlast | hlet | ⟨hop, -⟩
    · exact Grouping.noConfusion hg
    · exact absurd hlast (by decide)
    · exact TokenKind.noConfusion hlet
    · exact Bool.noConfusion hop

/-- **What follows is not always left alone**: `1 + 2` with `3` behind it is parsed as `1`. -/
theorem not_parse_append_eq_ok :
    ¬ ∀ (g : Grouping) (s₁ s₂ : String) (t : Tree) (u : Token) (us : List Token),
      parseProgram s₁ g = .ok [t] → s₂.toList.head?.any isBlank = true →
      significantTokens s₂ = u :: us →
      u.kind ∈ [.number, .string, .letWord, .openBrace, .ident] →
      parse (s₁ ++ s₂) g = .ok t := by
  intro hall
  let sum : Phrase := .operation (.leaf (.of .number "1") (.number 1) rfl) .add
    (.leaf (.of .number "2") (.number 2) rfl)
  have hsum : parseProgram "1 + 2" .byPrecedence
      = .ok [.operation (.number 1) (.number 2) .add] :=
    parseProgram_byPrecedence_iff.2 ⟨.bare sum .done, rfl, by decide⟩
  have hone : parse ("1 + 2" ++ " 3") .byPrecedence = .ok (.number 1) := by cbv
  have hthree : significantTokens " 3" = .of .number "3" :: [] := by decide
  have h := hall .byPrecedence "1 + 2" " 3" _ _ _ hsum (by decide) hthree (by decide)
  exact Tree.noConfusion (Except.ok.inj (hone.symm.trans h))

end BlockLang
