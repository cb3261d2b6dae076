import BlockLang.Proofs.Lexer.Blank
import BlockLang.Proofs.Parser.Alike
import BlockLang.Proofs.Parser.Append
import BlockLang.Proofs.Parser.Closed

/-!
# What a source is parsed to

A source is parsed to statements of the grammar, at least one of them unless it is blank;
or it is refused; or one of its numbers has more digits than are read.  The last does not
happen where no number is that long,

    DigitsFit source  →  parseProgram source g is .ok ts or .error (.refused e).

Only the parser of literals stops at the limit on digits, and only in front of a number
that is too long.  All that is asked of the others is that they are made of parsers that
do not stop there: `Blames` is kept by every way of putting parsers together, and so the
grammar has it.
-/

namespace BlockLang

open StepM

/-! ### The statements -/

mutual

theorem Phrase.isStatement_tree : ∀ e : Phrase,
    e.tree.isExpression = true ∧ e.tree.isStatement = true
  | .leaf _ e h => Token.leaf?_cases (P := fun e => e.isExpression = true ∧ e.isStatement = true) h
      (fun _ => ⟨rfl, rfl⟩) (fun _ => ⟨rfl, rfl⟩) (fun _ => ⟨rfl, rfl⟩)
  | .operation l _ r => by
    have hl := Phrase.isStatement_tree l
    have hr := Phrase.isStatement_tree r
    refine ⟨rfl, ?_⟩
    rw [Phrase.tree, Tree.isStatement, hl.1, hl.2, hr.1, hr.2]
    rfl
  | .block body => ⟨rfl, by rw [Phrase.tree, Tree.isStatement, Passage.areStatements_trees body]⟩

theorem Passage.areStatements_trees : ∀ b : Passage, Tree.areStatements b.trees = true
  | .done => rfl
  | .declaration _ rest => by
    rw [Passage.trees, Tree.areStatements, Tree.isStatement, Passage.areStatements_trees rest]
    rfl
  | .initialization _ value rest | .assignment _ value rest => by
    have hvalue := Phrase.isStatement_tree value
    rw [Passage.trees, Tree.areStatements, Tree.isStatement, hvalue.1, hvalue.2,
      Passage.areStatements_trees rest]
    rfl
  | .closed e rest | .bare e rest => by
    rw [Passage.trees, Tree.areStatements, (Phrase.isStatement_tree e).2,
      Passage.areStatements_trees rest]
    rfl

end

theorem exists_passage {source : String} {g : Grouping} {ts : List Tree}
    (h : parseProgram source g = .ok ts) : ∃ b : Passage, b.trees = ts := by
  obtain ⟨b, -, hb, -⟩ := exists_passage_of_parseProgram (fit_ofSource source g) h
  exact ⟨b, hb⟩

/-- **What is accepted is of the grammar.** -/
theorem areStatements_of_parseProgram {source : String} {g : Grouping} {ts : List Tree}
    (h : parseProgram source g = .ok ts) : Tree.areStatements ts = true := by
  obtain ⟨b, rfl⟩ := exists_passage h
  exact b.areStatements_trees

theorem Lexer.counts_cut {c : Char} (hc : ¬ Text.isBlank c = true) (rest : List Char) :
    (cut c rest).token.counts = true := by
  have hkind : (cut c rest).token.kind ≠ .whitespace := by
    rw [cut_eq, if_neg hc]
    split
    · exact TokenKind.noConfusion
    · split
      · simp only [Cut.token_of, nameKind]
        split <;> exact TokenKind.noConfusion
      · split
        · exact TokenKind.noConfusion
        · unfold TokenKind.ofPunctuation?
          split <;> exact TokenKind.noConfusion
  rw [Token.counts, Token.isWhitespace, decide_eq_false hkind]
  rfl

theorem significantTokens_ne_nil {source : String}
    (h : source.toList.dropWhile Text.isBlank ≠ []) : significantTokens source ≠ [] := by
  obtain ⟨c, rest, hcs⟩ := List.exists_cons_of_ne_nil h
  have hc : ¬ Text.isBlank c = true := by
    have hhead := List.head?_dropWhile_not Text.isBlank source.toList
    rw [hcs] at hhead
    simpa using hhead
  rw [← filter_counts_dropLast_tokenize, dropLast_tokenize, ← Lexer.filter_tokens_dropWhile, hcs,
    Lexer.tokens_cons, List.filter_cons_of_pos (Lexer.counts_cut hc rest)]
  exact List.cons_ne_nil _ _

/-- **A source that is not blank** has a statement, if it is accepted. -/
theorem ne_nil_of_parseProgram {source : String} {g : Grouping} {ts : List Tree}
    (h : parseProgram source g = .ok ts) (hblank : source.toList.dropWhile Text.isBlank ≠ []) :
    ts ≠ [] := by
  have hne := significantTokens_ne_nil hblank
  rintro rfl
  cases g with
  | byPrecedence =>
    obtain ⟨b, hb, htokens⟩ := parseProgram_byPrecedence_iff.1 h
    obtain rfl : b = .done := by cases b <;> first | rfl | simp at hb
    have hlen := (resolve_perm (significantTokens source)).length_eq
    rw [← htokens] at hlen
    exact hne (List.length_eq_zero_iff.1 hlen.symm)
  | rightward =>
    obtain ⟨b, hb, htokens, -⟩ := parseProgram_rightward_iff.1 h
    obtain rfl : b = .done := by cases b <;> first | rfl | simp at hb
    exact hne htokens.symm

/-! ### The limit on digits -/

/-- No number among some tokens has more digits than are read. -/
def Token.DigitsFit (ts : List Token) : Prop :=
  ∀ t ∈ ts, t.kind = .number → t.text.length ≤ maxDigits

instance (ts : List Token) : Decidable (Token.DigitsFit ts) :=
  inferInstanceAs (Decidable (∀ t ∈ ts, _))

/-- No number of a source has more digits than are read. -/
def DigitsFit (source : String) : Prop :=
  Token.DigitsFit (tokenize source)

instance (source : String) : Decidable (DigitsFit source) :=
  inferInstanceAs (Decidable (Token.DigitsFit _))

/-- A number among some tokens has `n` digits, more than are read. -/
def Token.HasLong (ts : List Token) (n : Nat) : Prop :=
  ∃ t ∈ ts, t.kind = .number ∧ t.text.length = n ∧ maxDigits < n

theorem Token.DigitsFit.not_hasLong {ts : List Token} (h : Token.DigitsFit ts) (n : Nat) :
    ¬ Token.HasLong ts n := by
  rintro ⟨t, ht, hkind, rfl, hlong⟩
  exact absurd (h t ht hkind) (Nat.not_le.2 hlong)

/-- The tokens of a cursor's stream are those of its source, in one order or the other. -/
theorem perm_all_ofSource (source : String) (g : Grouping) :
    (Cursor.ofSource source g).stream.all.Perm (tokenize source) := by
  cases g with
  | byPrecedence => exact resolve_perm _
  | rightward => exact .refl _

namespace Parser

variable {α β : Type} {p : ParseM α} {f : α → ParseM β}

/-- **Stopped at the limit with reason.**  However the parser ends, the cursor is in a later state
of the same stream, and where it stops at the limit on digits, a number of the stream is too
long. -/
def Blames (p : ParseM α) : Prop :=
  ∀ c : Cursor, c.Fit → Ends p c (fun _ c' => c.Later c')
    (fun fault c' => c.Later c' ∧ ∀ n, fault = .digitLimit n → Token.HasLong c.stream.all n)

/-! ### Ways of putting parsers together -/

theorem Blames.after {c c' : Cursor} (hp : Blames p) (hc : c.Fit) (hlater : c.Later c') :
    Ends p c' (fun _ c'' => c.Later c'')
      (fun fault c'' => c.Later c'' ∧ ∀ n, fault = .digitLimit n → Token.HasLong c.stream.all n) :=
  (hp c' (hlater.fit hc)).mono (fun _ _ h => hlater.trans h)
    (fun _ _ h => ⟨hlater.trans h.1, hlater.stream.all_eq ▸ h.2⟩)

theorem Blames.bind (hp : Blames p) (hf : ∀ a, Blames (f a)) : Blames (p >>= f) :=
  fun c hc => (hp c hc).bind (fun a _ hlater => (hf a).after hc hlater) (fun _ _ h => h)

theorem blames_pure (a : α) : Blames (pure a) :=
  fun _ hc => ends_pure.2 hc.stays.toLater

theorem blames_throw {fault : Fault} (h : ∀ n, fault ≠ .digitLimit n) :
    Blames (throw fault : ParseM α) :=
  fun _ hc => ends_throw.2 ⟨hc.stays.toLater, fun n hn => absurd hn (h n)⟩

theorem Blames.tryCatch {h : Fault → ParseM α} (hp : Blames p)
    (hrefused : ∀ e, Blames (h (.refused e)))
    (hother : ∀ fault, (∀ e, fault ≠ .refused e) → h fault = throw fault) :
    Blames (MonadExcept.tryCatch p h) := by
  intro c hc
  refine (hp c hc).tryCatch (fun _ _ h => h) ?_
  rintro fault c' ⟨hlater, hfault⟩
  by_cases hr : fault.IsRefusal
  · obtain ⟨e, rfl⟩ := hr
    exact (hrefused e).after hc hlater
  · rw [hother fault (fun e he => hr ⟨e, he⟩)]
    exact ends_throw.2 ⟨hlater, hfault⟩

/-! ### Looking and moving -/

theorem blames_onStream {f : TokenStream → α × TokenStream}
    (h : ∀ s : TokenStream, s.Fit → s.Along (f s).2) : Blames (onStream f) :=
  fun c hc => ends_onStream.2 ⟨h c.stream hc, rfl⟩

theorem blames_rewind (mark : Nat) : Blames (rewind mark) := by
  intro c hc
  by_cases hm : mark ≤ c.stream.buffer.size
  · exact (ends_rewind hc hm).mono (fun _ _ h => h.1) (fun _ _ h => h.elim)
  · unfold rewind
    rw [ends_get_bind, TokenStream.reset_eq_none hm]
    exact ends_throw.2 ⟨hc.stays.toLater, fun _ => Fault.noConfusion⟩

theorem blames_reject (problem : Problem) (at? : Option Int) :
    Blames (reject problem at? : ParseM α) := by
  intro c hc
  refine (ends_reject hc problem at?).mono (fun _ _ h => h) ?_
  rintro _ c' ⟨⟨e, rfl⟩, hstay⟩
  exact ⟨hstay.toLater, fun _ => Fault.noConfusion⟩

theorem blames_tag (k : TokenKind) : Blames (tag k) := by
  intro c hc
  refine (ends_tag hc k).mono (fun _ _ h => h.1.toLater) ?_
  rintro _ c' ⟨⟨e, rfl⟩, hstay, -⟩
  exact ⟨hstay.toLater, fun _ => Fault.noConfusion⟩

/-! ### The grammar -/

/-- **A literal.**  Its token is one of the stream's, which is too long where the limit is met. -/
theorem blames_literal : Blames literal := by
  intro c hc
  unfold literal
  refine (ends_peekNext hc).andThen ?_
  rintro found c₁ ⟨-, hstay⟩
  have hc₁ := hstay.fit hc
  split
  · exact (blames_reject _ _).after hc hstay.toLater
  next t hfilter =>
    obtain ⟨-, hlit⟩ := Option.filter_eq_some_iff.1 hfilter
    rw [ends_position_bind]
    refine (ends_tag hc₁ t.kind).bind ?_ ?_
    · rintro u c₂ ⟨halong, hahead, hkind⟩
      have hlater := hstay.toLater.trans halong.toLater
      by_cases hs : u.kind = .string
      · simp only [hs, if_true]
        split
        · exact (blames_pure _).after hc hlater
        · exact (blames_reject _ _).after hc hlater
      · have hnum : u.kind = .number := by
          rw [hkind] at hs ⊢
          simpa [isLiteral, hs] using hlit
        simp only [hs, if_false]
        split
        next hlong =>
          refine ends_throw.2 ⟨hlater, ?_⟩
          rintro _ ⟨⟩
          have hu : u ∈ c₁.ahead := by rw [hahead]; exact List.mem_cons_self
          have hmem : u ∈ c₁.stream.all := List.mem_of_mem_drop (List.mem_filter.1 hu).1
          exact ⟨u, hstay.stream.all_eq ▸ hmem, hnum, rfl, hlong⟩
        · split
          · exact (blames_reject _ _).after hc hlater
          · exact (blames_pure _).after hc hlater
    · rintro _ c₂ ⟨⟨e, rfl⟩, hstay₂, -⟩
      exact ⟨hstay.toLater.trans hstay₂.toLater, fun _ => Fault.noConfusion⟩

/-- All that the grammar is put together from stops at the limit with reason. -/
theorem closed_blames : Closed Blames where
  of_pure := blames_pure
  of_bind := Blames.bind
  of_throw := blames_throw
  of_tryCatch := Blames.tryCatch
  of_get := fun _ hc => ends_get.2 hc.stays.toLater
  of_peekNext := blames_onStream (fun _ hs => (TokenStream.peekSignificant_spec hs).2.1)
  of_startsAssignment := blames_onStream (fun _ hs => (TokenStream.startsAssignment_spec hs).2.1)
  of_rewind := blames_rewind
  of_reject := blames_reject
  of_tag := blames_tag
  of_literal := blames_literal

theorem blames_statements (fuel : Nat) : Blames (statements fuel) := by
  induction fuel with
  | zero => exact closed_blames.of_outOfSteps
  | succ fuel ih =>
    have hforget : Blames (modify fun c : Cursor => { c with failures := [] }) :=
      fun c hc => ends_modify.2 ⟨hc.stays.stream, rfl⟩
    unfold statements
    refine closed_blames.of_atEnd.bind (fun b => closed_blames.of_ite (blames_pure _) ?_)
    refine hforget.bind (fun _ => closed_blames.of_statement.bind (fun stmt => ?_))
    exact ih.bind (fun _ => blames_pure _)

theorem blames_program : Blames program :=
  closed_blames.of_capacity.bind (fun n => blames_statements (n + 1))

end Parser

/-- **A source whose numbers fit** is accepted or refused. -/
theorem parseProgram_cases {source : String} (g : Grouping) (h : DigitsFit source) :
    (∃ ts, parseProgram source g = .ok ts) ∨ ∃ e, parseProgram source g = .error (.refused e) := by
  have hfit : Token.DigitsFit (Cursor.ofSource source g).stream.all :=
    fun t ht => h t ((perm_all_ofSource source g).mem_iff.1 ht)
  have hblames := Parser.blames_program (.ofSource source g) (fit_ofSource source g)
  have halike : (Cursor.ofSource source g).Alike (.ofSource source g) := alike_ofSource g rfl
  have hagree := (Parser.agree_program halike).outcome
  rw [parseProgram]
  rcases hr : runFrom Parser.program (.ofSource source g) with ⟨fault | ts, c⟩
  · rw [hr] at hagree
    cases hagree with
    | error hfault =>
      cases hfault with
      | refused e => exact .inr ⟨e, rfl⟩
      | digitLimit n => exact absurd ((hblames.of_error hr).2 n rfl) (hfit.not_hasLong n)
  · exact .inl ⟨ts, rfl⟩

end BlockLang
