import BlockLang.Proofs.Parser.Alike
import Mathlib

/-!
# What begins like an assignment

Where `<name> =` comes first, the alternatives for a statement are an assignment and an
expression, in this order.  The assignment fits if an expression and a `;` follow.  If it
does not fit, the expression does, and it is the name alone: the `=` cannot go on an
expression, and it is left ahead.  So such a statement is never malformed; what stops the
parser, if anything does, is a number with too many digits in the value.

A whole program cannot go on at the `=`.  There, a first statement that begins like an
assignment is one.
-/

namespace BlockLang

open StepM

/-- **A value and its `;`** come first in a stream of the given grouping. -/
def ValueAhead (g : Grouping) (toks : List Token) (value : Tree) : Prop :=
  ∃ (e : Phrase) (rest : List Token), e.tree = value ∧ (g = .rightward → e.nestsRight = true)
    ∧ toks = e.tokens g.placement ++ .fixed .semi :: rest

section Tokens

variable {p : Placement} {name : String} {rest tail : List Token}

theorem Phrase.tree_of_assigns {e : Phrase}
    (h : e.tokens p ++ tail = .ofName name :: .fixed .equals :: rest) :
    e.tree = .name name ∧ tail = .fixed .equals :: rest := by
  have hshort : ¬ 2 ≤ (e.tokens p).length := by
    intro hlen
    refine e.take_two_ne p [] (fun _ ht => by simp at ht) ?_
    rw [List.append_nil, ← List.take_append_of_le_length hlen, h]
    rfl
  cases e with
  | leaf t e he =>
    obtain ⟨rfl, rfl⟩ := List.cons.inj h
    exact ⟨(Option.some.inj he).symm, rfl⟩
  | operation l op r =>
    obtain ⟨u, more, hu, -⟩ := l.exists_head p
    rw [Phrase.length_tokens_operation, hu, List.length_cons] at hshort
    obtain ⟨v, more', hv, -⟩ := r.exists_head p
    rw [hv, List.length_cons] at hshort
    omega
  | block body => simp at hshort

/-- **A passage that begins with `<name> =`** begins with an assignment to the name, or is the
name alone. -/
theorem Passage.eq_of_assigns {b : Passage} (hb : b ≠ .done)
    (h : b.tokens p ++ tail = .ofName name :: .fixed .equals :: rest) :
    (∃ e b', b = .assignment name e b')
      ∨ ∃ e, b = .bare e .done ∧ e.tree = .name name ∧ tail = .fixed .equals :: rest := by
  have hlet : Token.fixed .letWord ≠ .ofName name := fun hk =>
    TokenKind.noConfusion (congrArg Token.kind hk)
  cases b with
  | done => exact absurd rfl hb
  | declaration => exact absurd (List.cons.inj h).1 hlet
  | initialization => exact absurd (List.cons.inj h).1 hlet
  | assignment name' e b' =>
    have hname : Token.ofName name' = .ofName name := (List.cons.inj h).1
    obtain rfl : name' = name := congrArg Token.text hname
    exact .inl ⟨e, b', rfl⟩
  | closed e b' =>
    rw [Passage.tokens, List.append_assoc] at h
    have hsemi := (List.cons.inj (Phrase.tree_of_assigns h).2).1
    exact absurd hsemi (fun hk => TokenKind.noConfusion (congrArg Token.kind hk))
  | bare e b' =>
    rw [Passage.tokens, List.append_assoc] at h
    obtain ⟨htree, hrest⟩ := Phrase.tree_of_assigns h
    rcases hb' : b'.next? with _ | ⟨t, b''⟩
    · obtain rfl := Passage.eq_done_of_next? hb'
      exact .inr ⟨e, rfl, htree, hrest⟩
    · obtain ⟨u, more, hu, -⟩ := b'.exists_head_of_next? p hb'
      rw [hu] at hrest
      have hequals := b'.head_ne_equals p u (by rw [hu]; rfl)
      exact absurd (congrArg Token.kind (List.cons.inj hrest).1) hequals

end Tokens

namespace Parser

variable {c d : Cursor} {stmt : ParseM Tree} {name : String} {rest : List Token}

/-- The name is an expression, whatever stands behind the `=`. -/
theorem gives_expr_name (hc : c.Fit) (hahead : c.ahead = .ofName name :: .fixed .equals :: rest) :
    Gives (expr stmt) c (.name name) (.fixed .equals :: rest) := by
  let e : Phrase := .leaf (.ofName name) (.name name) rfl
  have hatom : ∀ g, GivesAtom stmt g e := fun g => givesAtom_leaf g rfl
  unfold expr
  rw [Gives, ends_get_bind]
  cases hg : c.grouping with
  | rightward =>
    refine ends_capacity_bind.2 (gives_chainItems_atom hc hg (hatom _) hahead ?_)
    intro t ht
    obtain rfl := Option.some.inj ht
    rfl
  | byPrecedence =>
    have hroom := hc.length_ahead_le
    rw [hahead, List.length_cons, List.length_cons] at hroom
    obtain ⟨fuel, hfuel⟩ : ∃ n, c.stream.capacity = n + 1 := ⟨c.stream.capacity - 1, by omega⟩
    dsimp only
    unfold foldExpr
    rw [ends_capacity_bind, hfuel, ends_bind]
    refine ends_fold_atom hc hg (hatom _) hahead (fun h => absurd rfl h) ?_
    intro c₁ halong₁ hahead₁
    refine (ends_fold_stop (halong₁.fit hc) hahead₁ rfl rfl _ fuel).mono ?_ (fun _ _ h => h.elim)
    rintro _ c₂ ⟨rfl, hstay₂⟩
    exact ends_pure.2 ⟨rfl, halong₁.trans hstay₂.toAlong, hstay₂.ahead_eq.trans hahead₁⟩

theorem gives_exprStatement_name (hc : c.Fit)
    (hahead : c.ahead = .ofName name :: .fixed .equals :: rest) :
    Gives (exprStatement stmt) c (.name name) (.fixed .equals :: rest) := by
  unfold exprStatement
  refine (gives_expr_name hc hahead).bind hc ?_
  intro c₁ hc₁ _ hahead₁
  have hsemi : Refuses (tag .semi) c₁ := by
    refine refuses_tag hc₁ (fun t ht => ?_)
    rw [hahead₁] at ht
    obtain rfl := Option.some.inj ht
    exact TokenKind.noConfusion
  refine (hsemi.optional hc₁).bind hc₁ ?_
  intro c₂ hc₂ _ hahead₂
  rw [← hahead₁, ← hahead₂]
  exact gives_pure hc₂ _

theorem ends_trial_of_agree {α : Type} {p q : ParseM α} (h : Agree Same p c q d) (hc : c.Fit) :
    Ends (trial p) c (fun _ _ => True) (fun fault _ => ∃ n, fault = .digitLimit n) := by
  cases h with
  | ok hp =>
    have hp' := runFrom_attempt_of_ne hp (by simp)
    exact ends_iff.2 (.inl ⟨_, _, by rw [runFrom_trial, hp'], trivial⟩)
  | error hp hq hfault hlater =>
    cases hfault with
    | refused e e' =>
      obtain ⟨c₁, hp', -⟩ := runFrom_attempt_refused hc hp hlater
      exact ends_iff.2 (.inl ⟨_, _, by rw [runFrom_trial, hp'], trivial⟩)
    | digitLimit n =>
      have hp' := runFrom_attempt_of_ne hp (by simp)
      exact ends_iff.2 (.inr ⟨_, _, by rw [runFrom_trial, hp'], n, rfl⟩)

/-- **A statement that begins with `<name> =` is not refused.** -/
theorem ends_statement_assigns (hc : c.Fit)
    (hahead : c.ahead = .ofName name :: .fixed .equals :: rest) :
    Ends statement c (fun _ _ => True) (fun fault _ => ∃ n, fault = .digitLimit n) := by
  unfold statement
  rw [ends_capacity_bind, statementAt, statementWith, ends_position_bind]
  generalize hstmt : statementAt c.stream.capacity = stmt
  have hroom := hc.length_ahead_le
  have hwithin : AgreeWithin c.ahead.length stmt stmt :=
    hstmt ▸ agreeWithin_statementAt hroom hroom
  refine (ends_startsAssignment hc).andThen ?_
  rintro _ c₁ ⟨rfl, hstay₁⟩
  have hc₁ := hstay₁.fit hc
  have hbinding : Refuses (binding stmt) c₁ := by
    refine (refuses_tag hc₁ (fun t ht => ?_)).bind
    rw [hstay₁.ahead_eq, hahead] at ht
    obtain rfl := Option.some.inj ht
    exact TokenKind.noConfusion
  refine Ends.andThen (hbinding.trial hc₁) ?_
  rintro _ c₂ ⟨⟨e, rfl⟩, hstay₂⟩
  have hstay := hstay₁.trans hstay₂
  have hc₂ := hstay.fit hc
  have hassigns : (c.ahead.take 2).map Token.kind = [.ident, .equals] := by
    rw [hahead]
    rfl
  dsimp only
  rw [if_pos (decide_eq_true hassigns)]
  have hagree : Agree Same (assignment stmt) c₂ (assignment stmt) c₂ :=
    agree_assignment hwithin ⟨hc₂, hc₂, rfl, rfl⟩ (Nat.le_of_eq (by rw [hstay.ahead_eq]))
  have htrial := (ends_trial hc₂ (ends_assignment hwithin.reads hc₂)).and
    (ends_trial_of_agree hagree hc₂)
  have hfirst : Ends (firstOf [assignment stmt, exprStatement stmt]) c₂
      (fun r _ => ∃ t, r = .ok t) (fun fault _ => ∃ n, fault = .digitLimit n) := by
    unfold firstOf
    refine htrial.bind ?_ (fun _ _ h => h.2)
    rintro (e | t) c₃ ⟨h₃, -⟩
    · have hstay₃ : c.Stays c₃ := hstay.trans h₃
      have hname : Gives (exprStatement stmt) c₃ (.name name) (.fixed .equals :: rest) :=
        gives_exprStatement_name (hstay₃.fit hc) (hstay₃.ahead_eq.trans hahead)
      unfold firstOf
      rw [ends_bind, ends_bind]
      refine hname.trial.mono ?_ (fun _ _ h => h.elim)
      rintro _ c₄ ⟨rfl, -⟩
      exact ends_pure.2 (ends_pure.2 ⟨_, rfl⟩)
    · exact ends_pure.2 ⟨t, rfl⟩
  refine hfirst.bind ?_ (fun _ _ h => h)
  rintro _ c₃ ⟨t, rfl⟩
  exact ends_pure.2 trivial

/-- **What is read where `<name> =` comes first**: an assignment to the name, up to the `;` behind
its value, or the name. -/
theorem tree_of_readStatements {c' : Cursor} {t : Tree} (h : c.ReadStatements [t] c')
    (hahead : c.ahead = .ofName name :: .fixed .equals :: rest) :
    (∃ v, t = .assignment name v ∧ ValueAhead c.grouping rest v) ∨ t = .name name := by
  obtain ⟨-, b, htrees, hb, hnests⟩ := h
  have hdone : b ≠ .done := by
    rintro rfl
    exact List.cons_ne_nil _ _ htrees.symm
  rcases Passage.eq_of_assigns hdone (hb.symm.trans hahead) with ⟨e, b', rfl⟩ | ⟨e, rfl, htree, -⟩
  · obtain ⟨rfl, -⟩ := List.cons.inj htrees
    refine .inl ⟨e.tree, rfl, e, b'.tokens c.grouping.placement ++ c'.ahead, rfl, fun hg => ?_, ?_⟩
    · have hboth := hnests hg
      simp only [Passage.nestsRight, Bool.and_eq_true] at hboth
      exact hboth.1
    · have hrest : rest = (e.tokens _ ++ .fixed .semi :: b'.tokens _) ++ c'.ahead :=
        (List.cons.inj (List.cons.inj (hahead.symm.trans hb)).2).2
      rw [hrest, List.append_assoc, List.cons_append]
  · obtain ⟨rfl, -⟩ := List.cons.inj htrees
    exact .inr htree

end Parser

/-- The resolver keeps `<name> =` in front. -/
theorem exists_ahead_of_assigns {source : String} (g : Grouping) {t u : Token} {rest : List Token}
    (h : (tokenize source).filter Token.counts = t :: u :: rest) (ht : t.kind = .ident)
    (hu : u.kind = .equals) :
    ∃ rest', (TokenStream.ofSource source g).ahead
      = .ofName t.text :: .fixed .equals :: rest' := by
  have hproper : ∀ v ∈ t :: u :: rest, v.Proper := by
    rw [← h]
    exact fun v hv => proper_of_mem_tokenize (List.mem_filter.1 hv).1
  have hname : t = .ofName t.text := (hproper t (by simp)).eq_ofName ht
  have hequals : u = .fixed .equals := (hproper u (by simp)).eq_fixed hu rfl
  rw [hname, hequals] at h
  cases g with
  | rightward => exact ⟨rest, h⟩
  | byPrecedence =>
    refine ⟨resolve rest, ?_⟩
    calc (TokenStream.ofSource source .byPrecedence).ahead
        = (resolve (tokenize source)).filter Token.counts := rfl
      _ = resolve (.ofName t.text :: .fixed .equals :: rest) := by rw [filter_resolve, h]
      _ = .ofName t.text :: .fixed .equals :: resolve rest := rfl

section Sources

variable {source : String} {g : Grouping} {name : String} {rest : List Token}

theorem tree_of_parse {t : Tree}
    (hahead : (TokenStream.ofSource source g).ahead = .ofName name :: .fixed .equals :: rest)
    (h : parse source g = .ok t) :
    (∃ v, t = .assignment name v ∧ ValueAhead g rest v) ∨ t = .name name := by
  obtain ⟨_, hrun⟩ := exists_runFrom_statement h
  have hread := (Parser.ends_statement (.ofSource source g) (fit_ofSource source g)).of_ok hrun
  exact Parser.tree_of_readStatements hread hahead

/-- **What begins with `<name> =` is an assignment if and only if a value and its `;` follow.** -/
theorem parse_eq_assignment_iff {v : Tree}
    (hahead : (TokenStream.ofSource source g).ahead = .ofName name :: .fixed .equals :: rest) :
    parse source g = .ok (.assignment name v) ↔ ValueAhead g rest v := by
  constructor
  · intro h
    rcases tree_of_parse hahead h with ⟨v', hv, hvalue⟩ | hname
    · obtain ⟨-, rfl⟩ := Tree.assignment.inj hv
      exact hvalue
    · exact absurd hname Tree.noConfusion
  · rintro ⟨e, more, rfl, hnests, rfl⟩
    have hgives : Parser.Gives Parser.statement (.ofSource source g) (.assignment name e.tree)
        more := by
      have hnext : (Passage.assignment name e .done).next?
          = some (.assignment name e.tree, .done) := rfl
      refine Parser.gives_statement (.inl rfl) hnext (fit_ofSource source g) (hahead.trans ?_)
        (fun hg => ?_)
      · simp [Passage.tokens, Cursor.ofSource]
      · simp [Passage.nestsRight, hnests hg]
    exact parse_of_gives hgives

theorem parse_cases_of_assigns
    (hahead : (TokenStream.ofSource source g).ahead = .ofName name :: .fixed .equals :: rest) :
    (∃ v, parse source g = .ok (.assignment name v)) ∨ parse source g = .ok (.name name)
      ∨ ∃ n, parse source g = .error (.digitLimit n) := by
  have hc : (Cursor.ofSource source g).Fit := fit_ofSource source g
  rcases ends_iff.1 (Parser.ends_statement_assigns hc hahead) with
    ⟨t, _, hrun, -⟩ | ⟨_, _, hrun, n, rfl⟩
  · have hparse : parse source g = .ok t := by rw [parse, hrun]
    rcases tree_of_parse hahead hparse with ⟨v, rfl, -⟩ | rfl
    · exact .inl ⟨v, hparse⟩
    · exact .inr (.inl hparse)
  · exact .inr (.inr ⟨n, by rw [parse, hrun]⟩)

/-- **A program that begins like an assignment begins with one.** -/
theorem exists_assignment_of_parseProgram {ts : List Tree}
    (hahead : (TokenStream.ofSource source g).ahead = .ofName name :: .fixed .equals :: rest)
    (h : parseProgram source g = .ok ts) : ∃ v ts', ts = .assignment name v :: ts' := by
  obtain ⟨b, tail, rfl, hb, htail, -⟩ := exists_passage_of_parseProgram (fit_ofSource source g) h
  rw [hahead] at hb
  have hdone : b ≠ .done := by
    rintro rfl
    have hb : _ = tail := hb
    exact TokenKind.noConfusion (htail (.ofName name) (by rw [← hb]; rfl))
  rcases Passage.eq_of_assigns hdone hb.symm with ⟨e, b', rfl⟩ | ⟨e, rfl, -, hrest⟩
  · exact ⟨e.tree, b'.trees, rfl⟩
  · exact absurd (htail (.fixed .equals) (by rw [hrest]; rfl)) TokenKind.noConfusion

end Sources

/-- **Where `<name> =` comes first**, the first statement is an assignment to the name if and only
if a value and its `;` follow.  Otherwise it is the use of the name, or a number in what follows has
too many digits; it is nothing else, and it is not refused.  As a program, the source is accepted
only if its first statement is an assignment to the name. -/
theorem parse_of_assigns {source : String} (g : Grouping) {t u : Token} {rest : List Token}
    (h : (tokenize source).filter Token.counts = t :: u :: rest) (ht : t.kind = .ident)
    (hu : u.kind = .equals) :
    (∀ v, parse source g = .ok (.assignment t.text v)
        ↔ ValueAhead g ((TokenStream.ofSource source g).ahead.drop 2) v)
      ∧ ((∃ v, parse source g = .ok (.assignment t.text v))
        ∨ parse source g = .ok (.name t.text) ∨ ∃ n, parse source g = .error (.digitLimit n))
      ∧ ∀ ts, parseProgram source g = .ok ts → ∃ v ts', ts = .assignment t.text v :: ts' := by
  obtain ⟨rest, hahead⟩ := exists_ahead_of_assigns g h ht hu
  refine ⟨fun v => ?_, parse_cases_of_assigns hahead,
    fun _ => exists_assignment_of_parseProgram hahead⟩
  rw [parse_eq_assignment_iff hahead, hahead]
  rfl

/-- `a = 1 + 2 ; b` begins with an assignment of the sum. -/
theorem parse_of_assigns_sum :
    parse "a = 1 + 2; b" .byPrecedence
        = .ok (.assignment "a" (.operation (.number 1) (.number 2) .add))
      ∧ ((∃ v, parse "a = 1 + 2; b" .byPrecedence = .ok (.assignment "a" v))
        ∨ parse "a = 1 + 2; b" .byPrecedence = .ok (.name "a")
        ∨ ∃ n, parse "a = 1 + 2; b" .byPrecedence = .error (.digitLimit n)) := by
  have h : (tokenize "a = 1 + 2; b").filter Token.counts
      = .of .ident "a" :: .fixed .equals :: [.of .number "1", .fixed .plus, .of .number "2",
        .fixed .semi, .of .ident "b", .endMark] := by
    decide
  obtain ⟨hvalue, hcases, -⟩ := parse_of_assigns .byPrecedence h rfl rfl
  let sum : Phrase := .operation (.leaf (.of .number "1") (.number 1) rfl) .add
    (.leaf (.of .number "2") (.number 2) rfl)
  exact ⟨(hvalue _).2 ⟨sum, [.of .ident "b", .endMark], rfl, by simp, by decide⟩, hcases⟩

/-- **Not everything that begins like an assignment is one or is refused**: in neither grouping, as
`a = ;` is the use of `a`, with what follows it left alone. -/
theorem not_assignment_of_assigns :
    ¬ ∃ g : Grouping, ∀ (source : String) (t u : Token) (rest : List Token),
      (tokenize source).filter Token.counts = t :: u :: rest → t.kind = .ident →
      u.kind = .equals → (∃ v, parse source g = .ok (.assignment t.text v))
        ∨ ∃ fault, parse source g = .error fault := by
  rintro ⟨g, hall⟩
  have hname : parse "a = ;" g = .ok (.name "a") := by
    cases g with
    | byPrecedence => cbv
    | rightward => cbv
  have h : (tokenize "a = ;").filter Token.counts
      = .of .ident "a" :: .fixed .equals :: [.fixed .semi, .endMark] := by
    decide
  rcases hall _ _ _ _ h rfl rfl with ⟨v, hv⟩ | ⟨fault, hfault⟩
  · rw [hname] at hv
    exact Tree.noConfusion (Except.ok.inj hv)
  · rw [hname] at hfault
    exact absurd hfault (by simp)

end BlockLang
