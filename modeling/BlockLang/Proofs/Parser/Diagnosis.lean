import BlockLang.Proofs.Parser.Layout
import BlockLang.Proofs.Parser.Reported

/-!
# Layout and the error that is reported

Two sources have the same tokens that count, and blanks in different places.  If both are
refused, the errors are at the same token, and if they name a kind of token, it is that of
this token.  They also say the same, if a blank stands directly in front of this token in
both sources or in neither.

Otherwise they may differ.  A parser that looks for an expression or finds fault with a
literal notes the place in front of the blanks, and one that looks for a kind of token the
place behind them, so that one blank decides which of the two got further:

    "abc    unterminated string literal "abc
     "abc   expected let, got string literal
-/

namespace BlockLang

open StepM

theorem SameToken.symm {s s' : TokenStream} {e e' : ParseError} (h : SameToken s s' e e') :
    SameToken s' s e' e := by
  obtain ⟨p, p', i, i', hi, hi', hp, hp', hahead, hsame⟩ := h
  refine ⟨p', p, i', i, hi', hi, hp', hp, hahead.symm, fun hblank => ?_⟩
  obtain ⟨hspot, hagree⟩ := hsame (by rw [hahead]; exact hblank.symm)
  exact ⟨hspot.symm, hagree.message_eq.symm, hagree.wanted_eq.symm, hagree.found_eq.symm⟩

theorem at_ofSource (source : String) (g : Grouping) :
    Spot.At (.ofSource source g) ⟨(TokenStream.ofSource source g).ahead, false⟩
      (TokenStream.ofSource source g).pos where
  le_length := (fit_ofSource source g).sound.pos_le_length
  ahead_eq := rfl
  past h := absurd h (by simp)
  front _ j t hj := by
    rw [pos_ofSource] at hj
    omega

/-- Cursors at the start of sources with the same tokens, of which the first has more room. -/
theorem laidOut_ofSource {source source' : String} (g : Grouping)
    (htokens : (tokenize source).filter Token.counts = (tokenize source').filter Token.counts)
    (hcapacity : (TokenStream.ofSource source' g).capacity
      ≤ (TokenStream.ofSource source g).capacity) :
    (Cursor.ofSource source g).LaidOut (.ofSource source g) (.ofSource source' g)
      (.ofSource source' g) where
  fit := fit_ofSource source g
  fit' := fit_ofSource source' g
  all_eq := rfl
  all_eq' := rfl
  grouping_eq := rfl
  capacity_le := hcapacity
  place := by
    have hahead : (TokenStream.ofSource source g).ahead = (TokenStream.ofSource source' g).ahead :=
      (alike_ofSource g htokens).ahead_eq
    exact ⟨_, at_ofSource source g, hahead ▸ at_ofSource source' g⟩
  failures := .nil

/-- **Two sources with the same tokens are refused at the same token.** -/
theorem sameToken_of_parse {source source' : String} {g : Grouping} {e e' : ParseError}
    (htokens : (tokenize source).filter Token.counts = (tokenize source').filter Token.counts)
    (he : parse source g = .error (.refused e)) (he' : parse source' g = .error (.refused e')) :
    SameToken (.ofSource source g) (.ofSource source' g) e e' := by
  have hroom : ∀ {source source' : String} {e e' : ParseError},
      (tokenize source).filter Token.counts = (tokenize source').filter Token.counts →
      parse source g = .error (.refused e) → parse source' g = .error (.refused e') →
      (TokenStream.ofSource source' g).capacity ≤ (TokenStream.ofSource source g).capacity →
      SameToken (.ofSource source g) (.ofSource source' g) e e' := by
    intro source source' e e' htokens he he' hcapacity
    obtain ⟨c', hrun⟩ := exists_runFrom he
    obtain ⟨d', hrun'⟩ := exists_runFrom he'
    have hcoupled := Parser.coupled_statement (Parser.lawful_laidOut _ _) _ _
      (laidOut_ofSource g htokens hcapacity)
    rcases (hcoupled.of_error hrun' e' rfl).of_error hrun with hexcused | ⟨_, hrefused, hsame, -⟩
    · exact absurd ⟨e, rfl⟩ hexcused
    · obtain rfl := Fault.refused.inj hrefused
      exact hsame
  rcases Nat.le_total (TokenStream.ofSource source' g).capacity
    (TokenStream.ofSource source g).capacity with hle | hle
  · exact hroom htokens he he' hle
  · exact (hroom htokens.symm he' he hle).symm

/-- The kind that an error names is that of the first token ahead of its place. -/
theorem kind_of_parse {source : String} {g : Grouping} {e : ParseError} {i : Nat}
    (he : parse source g = .error (.refused e)) (hi : e.position = i) {k : TokenKind}
    (hk : e.found = some k) :
    ((TokenStream.ofSource source g).aheadAt i).head?.map Token.kind = some k := by
  obtain ⟨c', hrun⟩ := exists_runFrom he
  obtain ⟨-, f, rfl, -, hpoints⟩ :=
    Parser.reports_of_statement (c := .ofSource source g) (fit_ofSource source g) rfl hrun
  have hahead := hpoints.ahead k hk
  have hpos : f.position.toNat = i := by
    have hi : f.position = i := hi
    omega
  rw [hpos] at hahead
  exact hahead

/-- **Layout changes the diagnosis only where a blank decides it.**  Of two sources with the same
tokens, blanks left out, let both be refused.  Then the errors are in front of the same tokens
`toks`, and the kind that one of them names is that of the first of these.  If a blank stands
directly in front of `toks` in both sources or in neither, then the errors have the same message,
and they expect and find the same. -/
theorem parse_diagnosis {source source' : String} {g : Grouping} {e e' : ParseError}
    (htokens : (tokenize source).filter Token.counts = (tokenize source').filter Token.counts)
    (he : parse source g = .error (.refused e)) (he' : parse source' g = .error (.refused e')) :
    ∃ (toks : List Token) (i i' : Nat), e.position = i ∧ e'.position = i'
      ∧ (TokenStream.ofSource source g).aheadAt i = toks
      ∧ (TokenStream.ofSource source' g).aheadAt i' = toks
      ∧ (∀ k, e.found = some k ∨ e'.found = some k → toks.head?.map Token.kind = some k)
      ∧ (((TokenStream.ofSource source g).BlankBefore toks
            ↔ (TokenStream.ofSource source' g).BlankBefore toks) →
          e.message = e'.message ∧ e.wanted = e'.wanted ∧ e.found = e'.found) := by
  obtain ⟨p, p', i, i', hi, hi', hp, hp', hahead, hsame⟩ := sameToken_of_parse htokens he he'
  refine ⟨p.ahead, i, i', hi, hi', hp.ahead_eq, hp'.ahead_eq.trans hahead.symm, ?_, ?_⟩
  · rintro k (hk | hk)
    · rw [← hp.ahead_eq]
      exact kind_of_parse he hi hk
    · rw [hahead, ← hp'.ahead_eq]
      exact kind_of_parse he' hi' hk
  · intro hblank
    obtain ⟨-, hagree⟩ := hsame hblank
    exact ⟨hagree.message_eq, hagree.wanted_eq, hagree.found_eq⟩

set_option maxRecDepth 2000 in
/-- In front of the `;` of `{ let a = ; }` stands a blank in both sources, and the value that is
missing there is what both errors are about, in whatever way the rest is laid out. -/
theorem parse_diagnosis_value_missing :
    (tokenize "\x7blet a = ;\x7d").filter Token.counts
        = (tokenize "\x7b let a =\n\t; \x7d").filter Token.counts
      ∧ ∃ e e', parse "\x7blet a = ;\x7d" .byPrecedence = .error (.refused e)
        ∧ parse "\x7b let a =\n\t; \x7d" .byPrecedence = .error (.refused e')
        ∧ e.position = 6 ∧ e'.position = 7
        ∧ e.message = e'.message ∧ e.wanted = e'.wanted ∧ e.found = e'.found := by
  have htokens : (tokenize "\x7blet a = ;\x7d").filter Token.counts
      = (tokenize "\x7b let a =\n\t; \x7d").filter Token.counts := by decide
  have he : parse "\x7blet a = ;\x7d" .byPrecedence = .error (.refused (.malformedBy
      ⟨.expected (.phrase "expression") (some .semi), 6⟩)) := by cbv
  have he' : parse "\x7b let a =\n\t; \x7d" .byPrecedence = .error (.refused (.malformedBy
      ⟨.expected (.phrase "expression") (some .semi), 7⟩)) := by cbv
  obtain ⟨toks, i, i', hi, hi', hahead, hahead', -, hsame⟩ := parse_diagnosis htokens he he'
  obtain rfl : i = 6 := by
    have hsix : (6 : Int) = i := hi
    omega
  obtain rfl : i' = 7 := by
    have hseven : (7 : Int) = i' := hi'
    omega
  have hblank : (TokenStream.ofSource "\x7blet a = ;\x7d" .byPrecedence).BlankBefore toks :=
    ⟨6, _, rfl, by decide, hahead⟩
  have hblank' :
      (TokenStream.ofSource "\x7b let a =\n\t; \x7d" .byPrecedence).BlankBefore toks :=
    ⟨7, _, rfl, by decide, hahead'⟩
  exact ⟨htokens, _, _, he, he', rfl, rfl, hsame (iff_of_true hblank hblank')⟩

/-- **A blank can change the diagnosis.**  A string that lacks its closing quote is reported as such
at the start of a source, and behind a blank it is the lack of a `let` that is reported. -/
theorem not_same_diagnosis : ¬ ∀ (source source' : String) (g : Grouping) (e e' : ParseError),
    (tokenize source).filter Token.counts = (tokenize source').filter Token.counts →
    parse source g = .error (.refused e) → parse source' g = .error (.refused e') →
    e.message = e'.message ∧ e.wanted = e'.wanted ∧ e.found = e'.found := by
  intro h
  have htokens : (tokenize "\"abc").filter Token.counts
      = (tokenize " \"abc").filter Token.counts := by decide
  have he : parse "\"abc" .byPrecedence = .error (.refused (.malformedBy
      ⟨.unterminatedString "\"abc", 0⟩)) := by cbv
  have he' : parse " \"abc" .byPrecedence = .error (.refused (.malformedBy
      ⟨.expected (.kind .letWord) (some .string), 1⟩)) := by cbv
  exact absurd (h _ _ _ _ _ htokens he he').2.1 (by decide)

end BlockLang
