import BlockLang.Proofs.Lexer.Append
import BlockLang.Proofs.Parser.Accepted
import BlockLang.Proofs.Parser.InStep
import BlockLang.Proofs.Resolver.Depth

/-!
# Programs end to end

A source that is accepted and whose last token is `;` can stand in front of any other:
the statements of the two sources follow each other, and what is refused in the second
is refused in the same words, at a place that is further on by the tokens of the first.

Nothing is carried over the `;`.  The lexer does not join tokens across it, the resolver
holds nothing behind it, the parser reads the first source up to it and stops right
there, and from there on it goes in step with a parser of the second source alone.
-/

namespace BlockLang

open StepM

theorem filter_counts_dropLast_tokenize (source : String) :
    (tokenize source).dropLast.filter Token.counts = significantTokens source := by
  rw [dropLast_tokenize, significantTokens_eq]

/-- **The stream of two sources.**  What the first is written in stands in front of the stream of
the second. -/
theorem exists_front {s₁ : String} {g : Grouping} {ts : List Tree}
    (hsemi : (tokenize s₁).dropLast.getLast?.map Token.kind = some .semi)
    (h : parseProgram s₁ g = .ok ts) (s₂ : String) :
    ∃ (pre : List Token) (b : Passage), b.trees = ts
      ∧ pre.filter Token.counts = b.tokens g.placement
      ∧ (g = .rightward → b.nestsRight = true)
      ∧ pre.length = (tokenize s₁).dropLast.length
      ∧ pre.getLast?.map Token.kind = some .semi
      ∧ (TokenStream.ofSource (s₁ ++ s₂) g).all = pre ++ (TokenStream.ofSource s₂ g).all := by
  have htokens := tokenize_append hsemi s₂
  cases g with
  | rightward =>
    obtain ⟨b, htrees, hb, hnests⟩ := parseProgram_rightward_iff.1 h
    refine ⟨_, b, htrees, ?_, fun _ => hnests, rfl, hsemi, htokens⟩
    exact (filter_counts_dropLast_tokenize s₁).trans hb.symm
  | byPrecedence =>
    obtain ⟨b, htrees, hb⟩ := parseProgram_byPrecedence_iff.1 h
    have hfilter : (resolve (tokenize s₁).dropLast).filter Token.counts = b.tokens .behind := by
      rw [filter_resolve, filter_counts_dropLast_tokenize, hb]
    -- the braces of a passage are matched, so the last `;` stands outside all braces
    have hdepth : depthFrom 0 (tokenize s₁).dropLast = 0 := by
      rw [← depthFrom_resolve, ← depthFrom_filter_counts, hfilter, b.depthFrom_tokens]
    obtain ⟨t, hlast, hk⟩ := Option.map_eq_some_iff.1 hsemi
    obtain ⟨front, hfront⟩ := List.getLast?_eq_some_iff.1 hlast
    rw [hfront] at hdepth
    obtain ⟨happend, hend⟩ := resolve_append_semi hk hdepth (tokenize s₂)
    rw [← hfront] at happend hend
    refine ⟨resolve (tokenize s₁).dropLast, b, htrees, hfilter, fun hg => Grouping.noConfusion hg,
      (resolve_perm _).length_eq, ?_, ?_⟩
    · rw [hend, Option.map_some, hk]
    · rw [TokenStream.ofSource, TokenStream.all_ofResolver, htokens, happend]
      rfl

/-- **The place behind a front that ends with a token that counts** is the only one where a parser
may stop and has the rest ahead. -/
theorem eq_length_of_halt {pre rest : List Token} {i : Nat} {t : Token}
    (hlast : pre.getLast? = some t) (ht : t.counts = true)
    (hhalt : i = 0 ∨ ∃ j u, i = j + 1 ∧ (pre ++ rest)[j]? = some u ∧ u.counts = true)
    (h : ((pre ++ rest).drop i).filter Token.counts = rest.filter Token.counts) :
    i = pre.length := by
  rcases Nat.lt_trichotomy i pre.length with hlt | heq | hgt
  · obtain ⟨front, rfl⟩ := List.getLast?_eq_some_iff.1 hlast
    rw [List.length_append, List.length_singleton] at hlt
    have hlen := congrArg List.length h
    rw [List.append_assoc, List.drop_append_of_le_length (by omega), List.filter_append,
      List.singleton_append, List.filter_cons_of_pos ht, List.length_append,
      List.length_cons] at hlen
    omega
  · exact heq
  · obtain ⟨j, u, rfl, hu, hcounts⟩ := hhalt.resolve_left (by omega)
    rw [List.getElem?_append_right (by omega)] at hu
    obtain ⟨hj, rfl⟩ := List.getElem?_eq_some_iff.1 hu
    have hdrop : (pre ++ rest).drop (j + 1) = rest.drop (j - pre.length + 1) := by
      rw [List.drop_append, List.drop_of_length_le (by omega), List.nil_append]
      congr 1
      omega
    have hsplit : rest = rest.take (j - pre.length)
        ++ rest[j - pre.length] :: rest.drop (j - pre.length + 1) := by
      rw [← List.drop_eq_getElem_cons hj, List.take_append_drop]
    have hlen := congrArg List.length h
    rw [hdrop] at hlen
    conv at hlen => rhs; rw [hsplit]
    rw [List.filter_append, List.filter_cons_of_pos hcounts, List.length_append,
      List.length_cons] at hlen
    omega

namespace Parser

/-- How the loop over statements ends does not depend on failures recorded before it. -/
theorem ends_statements_forget {fuel : Nat} {c : Cursor} {Q : List Tree → Prop} {E : Fault → Prop}
    (h : Ends (statements fuel) { c with failures := [] } (fun ts _ => Q ts)
      (fun fault _ => E fault)) :
    Ends (statements fuel) c (fun ts _ => Q ts) (fun fault _ => E fault) := by
  cases fuel with
  | zero => exact ends_throw.2 (ends_throw.1 h)
  | succ fuel =>
    unfold statements atEnd peekNext at h ⊢
    simp only [if_true, ends_bind, ends_onStream] at h ⊢
    generalize c.stream.peekSignificant = looked at h ⊢
    rcases looked with ⟨_ | t, s⟩
    · simp only [ends_pure, if_true] at h ⊢
      exact h
    · simp only [ends_pure] at h ⊢
      split
      next hend =>
        rw [if_pos hend] at h
        exact ends_pure.2 (ends_pure.1 h)
      next hend =>
        rw [if_neg hend, ends_bind, ends_modify] at h
        rw [ends_bind, ends_modify]
        exact h

end Parser

/-! ### The stream of a source at its start -/

theorem pos_ofSource (source : String) (g : Grouping) :
    (TokenStream.ofSource source g).pos = 0 := by
  cases g <;> rfl

theorem size_buffer_ofSource (source : String) (g : Grouping) :
    (TokenStream.ofSource source g).buffer.size = 0 := by
  cases g <;> rfl

theorem capacity_ofSource (source : String) (g : Grouping) :
    (TokenStream.ofSource source g).capacity = (tokenize source).length := by
  cases g <;> rfl

theorem ahead_ofSource (source : String) (g : Grouping) :
    (TokenStream.ofSource source g).ahead
      = (TokenStream.ofSource source g).all.filter Token.counts := by
  rw [TokenStream.ahead, TokenStream.aheadAt, pos_ofSource, List.drop_zero]

/-- A cursor that has read the front of two sources is behind it. -/
theorem behind_of_along {s₁ s₂ : String} {g : Grouping} {pre : List Token} {u : Token} {c : Cursor}
    (hall : (TokenStream.ofSource (s₁ ++ s₂) g).all = pre ++ (TokenStream.ofSource s₂ g).all)
    (hu : pre.getLast? = some u) (hcounts : u.counts = true)
    (hroom : (TokenStream.ofSource s₂ g).capacity ≤ (TokenStream.ofSource (s₁ ++ s₂) g).capacity)
    (halong : (Cursor.ofSource (s₁ ++ s₂) g).Along c)
    (hc : c.ahead = (Cursor.ofSource s₂ g).ahead) :
    c.stream.Behind pre (TokenStream.ofSource s₂ g) := by
  have hfit := halong.fit (fit_ofSource (s₁ ++ s₂) g)
  have hseen := hfit.sound.pos_le
  have hbuffer := size_buffer_ofSource s₂ g
  have hall' : c.stream.all = pre ++ (TokenStream.ofSource s₂ g).all :=
    halong.stream.all_eq.trans hall
  have hplace : c.stream.pos = pre.length := by
    have hhalt : c.stream.pos = 0 ∨ ∃ j t, c.stream.pos = j + 1
        ∧ (pre ++ (TokenStream.ofSource s₂ g).all)[j]? = some t ∧ t.counts = true := by
      rw [← hall, ← pos_ofSource (s₁ ++ s₂) g]
      exact halong.halt
    refine eq_length_of_halt hu hcounts hhalt ?_
    rw [← hall', ← ahead_ofSource]
    exact hc
  refine ⟨hfit, fit_ofSource s₂ g, hall', ?_, by omega, ?_⟩
  · rw [hplace, pos_ofSource, Nat.add_zero]
  · exact halong.stream.capacity_eq.symm ▸ hroom

/-- **The first of two sources is read**, and the loop over statements goes on from a cursor that is
behind it. -/
theorem ends_program_append {s₁ : String} {g : Grouping} {ts₁ : List Tree}
    (hsemi : (tokenize s₁).dropLast.getLast?.map Token.kind = some .semi)
    (h₁ : parseProgram s₁ g = .ok ts₁) (s₂ : String) :
    ∃ pre : List Token, pre.length = (tokenize s₁).dropLast.length
      ∧ ∀ {Q : List Tree → Prop} {E : Fault → Prop},
        (∀ c fuel, c.Behind pre (.ofSource s₂ g) →
          (TokenStream.ofSource s₂ g).capacity + 1 ≤ fuel →
          Ends (Parser.statements fuel) c (fun ts₂ _ => Q (ts₁ ++ ts₂)) (fun fault _ => E fault)) →
        Ends Parser.program (.ofSource (s₁ ++ s₂) g) (fun ts _ => Q ts)
          (fun fault _ => E fault) := by
  obtain ⟨pre, b, rfl, hb, hnests, hlen, hlast, hall⟩ := exists_front hsemi h₁ s₂
  refine ⟨pre, hlen, fun {Q E} hgo => ?_⟩
  obtain ⟨u, hu, hk⟩ := Option.map_eq_some_iff.1 hlast
  have hcounts : u.counts = true := by simp [Token.counts, Token.isWhitespace, hk]
  have hend : (b.tokens g.placement).getLast? = some u := by
    obtain ⟨front, rfl⟩ := List.getLast?_eq_some_iff.1 hu
    rw [← hb, List.filter_append, List.filter_cons_of_pos hcounts, List.filter_nil,
      List.getLast?_concat]
  have hwritten : (b.tokens g.placement).length ≤ pre.length := by
    rw [← hb]
    exact List.length_filter_le ..
  have hroom : (TokenStream.ofSource (s₁ ++ s₂) g).capacity
      = pre.length + (TokenStream.ofSource s₂ g).capacity := by
    rw [capacity_ofSource, capacity_ofSource, tokenize_append hsemi, List.length_append, hlen]
  have hahead : (Cursor.ofSource (s₁ ++ s₂) g).ahead
      = b.tokens g.placement ++ (Cursor.ofSource s₂ g).ahead := by
    show (TokenStream.ofSource (s₁ ++ s₂) g).ahead = _ ++ (TokenStream.ofSource s₂ g).ahead
    rw [ahead_ofSource, ahead_ofSource, hall, List.filter_append, hb]
  have hfuel : (b.tokens g.placement).length
      < (TokenStream.ofSource (s₁ ++ s₂) g).capacity + 1 := by
    omega
  unfold Parser.program
  rw [Parser.ends_capacity_bind]
  refine Parser.ends_statements_passage _ (fit_ofSource (s₁ ++ s₂) g)
    (Passage.bounded_of_semi hend hk _) hahead hnests hfuel ?_
  intro c fuel halong hc hleft
  have hleft : (TokenStream.ofSource (s₁ ++ s₂) g).capacity + 1
      ≤ fuel + (b.tokens g.placement).length := hleft
  have hbehind := behind_of_along hall hu hcounts (by omega) halong hc
  exact Parser.ends_statements_forget
    (hgo _ fuel ⟨hbehind, halong.grouping_eq, rfl⟩ (by omega))

/-- **Programs compose at `;`.**  Behind a source that is accepted and whose last token is `;`,
another source is accepted as it is alone, or it is refused with the same message, expectation and
finding, at the place where it is refused alone plus the tokens of the first source. -/
theorem parseProgram_append_of_semi {s₁ s₂ : String} {g : Grouping} {ts₁ : List Tree}
    (hsemi : (tokenize s₁).dropLast.getLast?.map Token.kind = some .semi)
    (h₁ : parseProgram s₁ g = .ok ts₁) :
    (∀ ts₂, parseProgram s₂ g = .ok ts₂ → parseProgram (s₁ ++ s₂) g = .ok (ts₁ ++ ts₂))
      ∧ ∀ e, parseProgram s₂ g = .error (.refused e) →
        ∃ e', parseProgram (s₁ ++ s₂) g = .error (.refused e') ∧ e'.message = e.message
          ∧ e'.wanted = e.wanted ∧ e'.found = e.found
          ∧ e'.position = e.position + (tokenize s₁).dropLast.length := by
  obtain ⟨pre, hlen, hread⟩ := ends_program_append hsemi h₁ s₂
  have hinStep : ∀ c fuel, c.Behind pre (.ofSource s₂ g) →
      (TokenStream.ofSource s₂ g).capacity + 1 ≤ fuel →
      Parser.InStepAt pre Eq (Parser.statements fuel) c Parser.program (.ofSource s₂ g) :=
    fun c _ hbehind hfuel =>
      Parser.ends_capacity_bind.2 (Parser.inStep_statements hfuel c _ hbehind)
  refine ⟨fun ts₂ h₂ => ?_, fun e h₂ => ?_⟩
  · obtain ⟨d, hrun⟩ := exists_runFrom_program h₂
    have hends := hread (Q := fun ts => ts = ts₁ ++ ts₂) (E := fun _ => False)
      (fun c fuel hbehind hfuel =>
        ((hinStep c fuel hbehind hfuel).of_ok hrun).mono (fun _ _ h => congrArg (ts₁ ++ ·) h.1)
          (fun _ _ h => h))
    obtain ⟨_, _, hrun', rfl⟩ := hends.exists_ok
    rw [parseProgram, hrun']
  · obtain ⟨d, hrun⟩ := exists_runFrom_program h₂
    have hends := hread (Q := fun _ => False)
      (E := fun fault => fault = .refused (e.moved pre.length))
      (fun c fuel hbehind hfuel =>
        ((hinStep c fuel hbehind hfuel).of_error hrun e rfl).mono (fun _ _ h => h)
          (fun _ _ h => h.1))
    rcases ends_iff.1 hends with ⟨_, _, _, hfalse⟩ | ⟨_, _, hrun', rfl⟩
    · exact hfalse.elim
    · refine ⟨e.moved pre.length, by rw [parseProgram, hrun'], e.message_moved _,
        e.wanted_moved _, e.found_moved _, ?_⟩
      rw [e.position_moved, hlen]

/-- Behind `1+{2;};` a product is accepted, and `let ;` is refused at its `;`,
which is then the token with the index 9. -/
theorem parseProgram_append_of_semi_block :
    (tokenize "1+\x7b2;\x7d;").dropLast.getLast?.map Token.kind = some .semi
      ∧ parseProgram "1+\x7b2;\x7d;" .byPrecedence
        = .ok [.operation (.number 1) (.block [.number 2]) .add]
      ∧ parseProgram ("1+\x7b2;\x7d;" ++ "a*4") .byPrecedence
        = .ok [.operation (.number 1) (.block [.number 2]) .add,
          .operation (.name "a") (.number 4) .mul]
      ∧ ∃ e, parseProgram ("1+\x7b2;\x7d;" ++ "let ;") .byPrecedence = .error (.refused e)
        ∧ e.wanted = some (.kind .ident) ∧ e.found = some .semi ∧ e.position = 9 := by
  have hsemi : (tokenize "1+\x7b2;\x7d;").dropLast.getLast?.map Token.kind = some .semi := by
    decide
  let one : Phrase := .leaf (.of .number "1") (.number 1) rfl
  let two : Phrase := .leaf (.of .number "2") (.number 2) rfl
  have h₁ : parseProgram "1+\x7b2;\x7d;" .byPrecedence
      = .ok [.operation (.number 1) (.block [.number 2]) .add] :=
    parseProgram_byPrecedence_iff.2
      ⟨.closed (.operation one .add (.block (.closed two .done))) .done, rfl, by decide⟩
  have hproduct : parseProgram "a*4" .byPrecedence
      = .ok [.operation (.name "a") (.number 4) .mul] :=
    parseProgram_byPrecedence_iff.2
      ⟨.bare (.operation (.leaf (.of .ident "a") (.name "a") rfl) .mul
        (.leaf (.of .number "4") (.number 4) rfl)) .done, rfl, by decide⟩
  have hlet : parseProgram "let ;" .byPrecedence
      = .error (.refused (.malformed (.failed ⟨.expected (.kind .ident) (some .semi), 2⟩))) := by
    rfl
  obtain ⟨e, he, -, hwanted, hfound, hposition⟩ :=
    (parseProgram_append_of_semi hsemi h₁).2 _ hlet
  refine ⟨hsemi, h₁, (parseProgram_append_of_semi hsemi h₁).1 _ hproduct, e, he, hwanted, hfound,
    ?_⟩
  rw [hposition]
  decide

end BlockLang
