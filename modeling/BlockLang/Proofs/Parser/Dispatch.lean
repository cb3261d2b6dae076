import BlockLang.Proofs.Parser.Outcome
import BlockLang.Proofs.Resolver.Adjacent
import Mathlib

/-!
# What a statement begins with

Which statement a source is parsed as shows in its own first tokens, whatever follows them
and wherever operators stand:

* it is `let <name> ;` if and only if these come first;
* it is an initialization only where `let <name> =` comes first, and an assignment only
  where `<name> =` does;
* where `let` comes first, it is no expression.

The parser does not look at the source but at the stream, in which operators have been
moved.  It does not matter: a name, `let`, `=` and `;` come out first if and only if they
came in first (`prefix_resolve_iff`), and a statement that was read begins with the tokens
of its own kind.
-/

namespace BlockLang

open StepM

/-- The kinds of a source's tokens that are no blanks, with the end mark last. -/
def significantKinds (source : String) : List TokenKind :=
  ((tokenize source).filter Token.counts).map Token.kind

/-- **The front of the stream is the front of the source**, up to a token that lets operators out,
if no operator and no opening brace stands in it. -/
theorem prefix_ahead_iff {front : List Token} {u : Token} (source : String) (g : Grouping)
    (hfront : ∀ t ∈ front, t.isOperator = false ∧ t.kind ≠ .openBrace)
    (hu : u.kind.letsOut = true) :
    front ++ [u] <+: (TokenStream.ofSource source g).ahead
      ↔ front ++ [u] <+: (tokenize source).filter Token.counts := by
  cases g with
  | rightward => exact Iff.rfl
  | byPrecedence =>
    have hahead : (TokenStream.ofSource source .byPrecedence).ahead
        = resolve ((tokenize source).filter Token.counts) := filter_resolve _
    rw [hahead]
    exact Resolver.prefix_resolve_iff hfront hu

/-! ### The first tokens of each kind of statement -/

/-- **The opening of a statement**: the first tokens by which a binding or an assignment is told from
other statements. -/
def Tree.opening : Tree → List Token
  | declaration target => [.fixed .letWord, .ofName target, .fixed .semi]
  | initialization target _ => [.fixed .letWord, .ofName target, .fixed .equals]
  | assignment target _ => [.ofName target, .fixed .equals]
  | _ => []

theorem Tree.opening_of_isExpression {t : Tree} (h : t.isExpression = true) : t.opening = [] := by
  cases t with
  | number | text | name | operation | block | foreign => rfl
  | declaration | initialization | assignment => exact absurd h Bool.false_ne_true

/-- An opening ends with a token that lets operators out, and only names and `let` stand in front
of it. -/
theorem Tree.opening_cases (t : Tree) : t.opening = [] ∨ ∃ front u, t.opening = front ++ [u]
    ∧ (∀ v ∈ front, v.isOperator = false ∧ v.kind ≠ .openBrace) ∧ u.kind.letsOut = true := by
  have hpasses : ∀ (name : String), ∀ v ∈ [Token.fixed .letWord, .ofName name],
      v.isOperator = false ∧ v.kind ≠ .openBrace := by
    intro name v hv
    rcases List.mem_pair.1 hv with rfl | rfl
    · exact ⟨rfl, TokenKind.noConfusion⟩
    · exact ⟨rfl, TokenKind.noConfusion⟩
  cases t with
  | number | text | name | operation | block | foreign => exact .inl rfl
  | declaration name => exact .inr ⟨_, .fixed .semi, rfl, hpasses name, rfl⟩
  | initialization name value => exact .inr ⟨_, .fixed .equals, rfl, hpasses name, rfl⟩
  | assignment name value =>
    refine .inr ⟨[.ofName name], .fixed .equals, rfl, fun v hv => ?_, rfl⟩
    exact hpasses name v (List.mem_cons_of_mem _ hv)

theorem Passage.opening_prefix {b : Passage} {t : Tree} (h : b.trees = [t]) (p : Placement) :
    t.opening <+: b.tokens p := by
  cases b with
  | done => exact absurd h (by simp)
  | declaration name rest =>
    obtain ⟨rfl, -⟩ := List.cons.inj h
    exact ⟨rest.tokens p, rfl⟩
  | initialization name value rest =>
    obtain ⟨rfl, -⟩ := List.cons.inj h
    exact ⟨value.tokens p ++ .fixed .semi :: rest.tokens p, rfl⟩
  | assignment name value rest =>
    obtain ⟨rfl, -⟩ := List.cons.inj h
    exact ⟨value.tokens p ++ .fixed .semi :: rest.tokens p, rfl⟩
  | closed e rest | bare e rest =>
    obtain ⟨rfl, -⟩ := List.cons.inj h
    rw [Tree.opening_of_isExpression e.isStatement_tree.1]
    exact List.nil_prefix

theorem Passage.head_ne_let {b : Passage} {t : Tree} (h : b.trees = [t])
    (ht : t.isExpression = true) (p : Placement) {u : Token} {rest : List Token}
    (hu : b.tokens p = u :: rest) : u.kind ≠ .letWord := by
  cases b with
  | done => exact absurd h (by simp)
  | declaration | initialization | assignment =>
    obtain ⟨rfl, -⟩ := List.cons.inj h
    exact absurd ht Bool.false_ne_true
  | closed e rest | bare e rest =>
    obtain ⟨v, more, hv, hstarts⟩ := e.exists_head p
    rw [Passage.tokens, hv, List.cons_append] at hu
    obtain ⟨rfl, -⟩ := List.cons.inj hu
    exact Token.kind_ne_of_starts hstarts rfl

/-! ### What a source is parsed as -/

section Sources

variable {source : String} {g : Grouping} {t : Tree}

theorem exists_passage_of_parse (h : parse source g = .ok t) : ∃ b : Passage, b.trees = [t]
    ∧ b.tokens g.placement <+: (TokenStream.ofSource source g).ahead := by
  obtain ⟨c', hrun⟩ := exists_runFrom_statement h
  obtain ⟨-, b, htrees, hahead, -⟩ :=
    (Parser.ends_statement (.ofSource source g) (fit_ofSource source g)).of_ok hrun
  exact ⟨b, htrees, c'.ahead, hahead.symm⟩

/-- **What a source is parsed as opens the source.** -/
theorem opening_prefix_of_parse (h : parse source g = .ok t) :
    t.opening <+: (tokenize source).filter Token.counts := by
  obtain ⟨b, htrees, hahead⟩ := exists_passage_of_parse h
  have hprefix := (b.opening_prefix htrees g.placement).trans hahead
  rcases t.opening_cases with hnil | ⟨front, u, hopening, hfront, hu⟩
  · rw [hnil]
    exact List.nil_prefix
  · rw [hopening] at hprefix ⊢
    exact (prefix_ahead_iff source g hfront hu).1 hprefix

theorem parse_declaration {name : String}
    (h : (Tree.declaration name).opening <+: (tokenize source).filter Token.counts) :
    parse source g = .ok (.declaration name) := by
  obtain ⟨front, u, hopening, hfront, hu⟩ :=
    (Tree.declaration name).opening_cases.resolve_left (List.cons_ne_nil _ _)
  rw [hopening, ← prefix_ahead_iff source g hfront hu, ← hopening] at h
  obtain ⟨rest, hahead⟩ := h
  have hnext : (Passage.declaration name .done).next? = some (.declaration name, .done) := rfl
  exact parse_of_gives (Parser.gives_statement (.inl rfl) hnext (fit_ofSource source g)
    hahead.symm (fun _ => rfl))

theorem exists_front_of_prefix {kinds : List TokenKind} (h : kinds <+: significantKinds source) :
    ∃ front, front <+: (tokenize source).filter Token.counts ∧ front.map Token.kind = kinds
      ∧ ∀ t ∈ front, t.Proper := by
  obtain ⟨front, hfront, rfl⟩ := List.prefix_map_iff.1 h
  refine ⟨front, hfront, rfl, fun t ht => ?_⟩
  exact proper_of_mem_tokenize (List.mem_filter.1 (hfront.subset ht)).1

theorem exists_opening_declaration_iff :
    (∃ name, (Tree.declaration name).opening <+: (tokenize source).filter Token.counts)
      ↔ [.letWord, .ident, .semi] <+: significantKinds source := by
  constructor
  · intro h
    obtain ⟨name, hprefix⟩ := h
    exact hprefix.map Token.kind
  · intro h
    obtain ⟨front, hfront, hkinds, hproper⟩ := exists_front_of_prefix h
    obtain ⟨t, u, v, rfl⟩ := List.length_eq_three.1 (by simpa using congrArg List.length hkinds)
    simp only [List.map_cons, List.map_nil, List.cons.injEq, and_true] at hkinds
    obtain ⟨ht, hu, hv⟩ := hkinds
    have hlet := (hproper t (by simp)).eq_fixed ht rfl
    have hname := (hproper u (by simp)).eq_ofName hu
    have hsemi := (hproper v (by simp)).eq_fixed hv rfl
    rw [hlet, hname, hsemi] at hfront
    exact ⟨u.text, hfront⟩

theorem isExpression_of_parse (hlet : [.letWord] <+: significantKinds source)
    (h : parse source g = .ok t) : t.isExpression = false := by
  obtain ⟨b, htrees, hahead⟩ := exists_passage_of_parse h
  obtain ⟨front, hfront, hkinds, -⟩ := exists_front_of_prefix hlet
  obtain ⟨u, rfl⟩ := List.length_eq_one_iff.1 (by simpa using congrArg List.length hkinds)
  have hu : u.kind = .letWord := (List.cons.inj hkinds).1
  have hfirst : [] ++ [u] <+: (TokenStream.ofSource source g).ahead :=
    (prefix_ahead_iff source g (fun _ hv => absurd hv List.not_mem_nil) (by rw [hu]; rfl)).2 hfront
  rw [← Bool.not_eq_true]
  intro hexpr
  obtain ⟨v, more, hb⟩ := List.exists_cons_of_ne_nil (b.tokens_ne_nil (p := g.placement) htrees)
  rw [hb] at hahead
  obtain ⟨tail, htail⟩ := hahead
  rw [← htail] at hfirst
  obtain ⟨rfl, -⟩ := List.cons_prefix_cons.1 hfirst
  exact b.head_ne_let htrees hexpr g.placement hb hu

end Sources

/-- **The first tokens of a source decide.**  In either grouping, a source is parsed as the
declaration of a name if and only if `let <name> ;` comes first, so as some declaration if and only
if tokens of these three kinds do.  It is parsed as an initialization or an assignment of a name
only if `let <name> =` or `<name> =` comes first, and never as an expression if `let` does. -/
theorem parse_dispatches (source : String) (g : Grouping) :
    (∀ name, parse source g = .ok (.declaration name)
        ↔ [.fixed .letWord, .ofName name, .fixed .semi]
          <+: (tokenize source).filter Token.counts)
      ∧ ((∃ name, parse source g = .ok (.declaration name))
        ↔ [.letWord, .ident, .semi] <+: significantKinds source)
      ∧ (∀ name value, parse source g = .ok (.initialization name value) →
        [.fixed .letWord, .ofName name, .fixed .equals]
          <+: (tokenize source).filter Token.counts)
      ∧ (∀ name value, parse source g = .ok (.assignment name value) →
        [.ofName name, .fixed .equals] <+: (tokenize source).filter Token.counts)
      ∧ ([.letWord] <+: significantKinds source →
        ∀ t, parse source g = .ok t → t.isExpression = false) := by
  have hdeclared : ∀ name, parse source g = .ok (.declaration name)
      ↔ (Tree.declaration name).opening <+: (tokenize source).filter Token.counts :=
    fun name => ⟨opening_prefix_of_parse, parse_declaration⟩
  refine ⟨hdeclared, ?_, fun name value h => opening_prefix_of_parse h,
    fun name value h => opening_prefix_of_parse h, fun hlet t h => ?_⟩
  · exact (exists_congr hdeclared).trans exists_opening_declaration_iff
  · exact isExpression_of_parse hlet h

set_option maxRecDepth 2000 in
/-- A declaration, in front of operators without operands, a `{` and an open string; one
that lacks its name; an initialization and an assignment with more behind them; and a number where
the name should be. -/
theorem parse_dispatches_garbage :
    parse "let a ; + ) = \x7b * \"x" .byPrecedence = .ok (.declaration "a")
      ∧ (¬ ∃ name, parse "let + a ;" .byPrecedence = .ok (.declaration name))
      ∧ parse "let a = 1 ; )" .byPrecedence = .ok (.initialization "a" (.number 1))
      ∧ [.fixed .letWord, .ofName "a", .fixed .equals]
        <+: (tokenize "let a = 1 ; )").filter Token.counts
      ∧ parse "a = 1 ; ) b" .rightward = .ok (.assignment "a" (.number 1))
      ∧ [.ofName "a", .fixed .equals] <+: (tokenize "a = 1 ; ) b").filter Token.counts
      ∧ [.letWord] <+: significantKinds "let 1 ;"
      ∧ ∀ t, parse "let 1 ;" .rightward = .ok t → t.isExpression = false := by
  have hinit : parse "let a = 1 ; )" .byPrecedence = .ok (.initialization "a" (.number 1)) := by cbv
  have hassign : parse "a = 1 ; ) b" .rightward = .ok (.assignment "a" (.number 1)) := by cbv
  have hlet : [.letWord] <+: significantKinds "let 1 ;" := by decide
  have hdeclared : parse "let a ; + ) = \x7b * \"x" .byPrecedence = .ok (.declaration "a") := by
    apply ((parse_dispatches _ .byPrecedence).1 "a").2
    decide
  have hnone : ¬ ∃ name, parse "let + a ;" .byPrecedence = .ok (.declaration name) := by
    rw [(parse_dispatches _ .byPrecedence).2.1]
    decide
  exact ⟨hdeclared, hnone, hinit, (parse_dispatches _ _).2.2.1 _ _ hinit, hassign,
    (parse_dispatches _ _).2.2.2.1 _ _ hassign, hlet, (parse_dispatches _ _).2.2.2.2 hlet⟩

end BlockLang
