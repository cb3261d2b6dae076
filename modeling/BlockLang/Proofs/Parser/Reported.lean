import BlockLang.Proofs.Parser.Accepted
import BlockLang.Proofs.Parser.Pinned

/-!
# The error that is reported

A text is refused because of the furthest of all failures on record since the statement in
which it fails started, whatever was taken back on the way.  That statement is the only one
of a source for `parse`; for `parseProgram` it is one of those that the loop starts, each
with no failures on record.

If the error names the kind of a token, this is the first token that counts, from the
position of the error on.  So the position is that of the token itself except where blanks
stand in front of it and the parser did not look for a kind of token, but for an
expression, say.
-/

namespace BlockLang

open StepM

/-- **An error for the furthest failure**: its cause, which has no cause itself, is one of the
failures, it says what its cause says, and no failure is further. -/
structure ParseError.Reports (e : ParseError) (failures : List Failure) : Prop where
  cause : ∃ f ∈ failures, e.cause? = some (.failed f) ∧ e.position = f.position
    ∧ e.wanted = f.problem.wanted ∧ e.found = f.problem.found
  furthest : ∀ f ∈ failures, f.position ≤ e.position

namespace Parser

variable {α : Type} {c c' s : Cursor} {e : ParseError}

/-- **Where the statements of a program start**: where the loop finds that the end is not reached,
at first and behind each statement, with no failures on record. -/
inductive Starts : Cursor → Cursor → Prop
  | here {c c₁ : Cursor} (hend : runFrom atEnd c = (.ok false, c₁)) :
      Starts c { c₁ with failures := [] }
  | later {c c₁ c₂ s : Cursor} {t : Tree} (hend : runFrom atEnd c = (.ok false, c₁))
      (hrun : runFrom statement { c₁ with failures := [] } = (.ok t, c₂)) (hrest : Starts c₂ s) :
      Starts c s

/-- Each statement starts with no failures on record, in a state that is fit to go on from. -/
theorem Starts.fit (h : Starts c s) (hc : c.Fit) : s.Fit ∧ s.failures = [] := by
  have hforget : ∀ {c c₁ : Cursor}, c.Fit → runFrom atEnd c = (.ok false, c₁) →
      Cursor.Fit { c₁ with failures := [] } :=
    fun hc hend => ((ends_atEnd hc).of_ok hend).2.fit hc
  induction h with
  | here hend => exact ⟨hforget hc hend, rfl⟩
  | later hend hrun _ ih =>
    have hstart := hforget hc hend
    exact ih (((ends_statement _ hstart).of_ok hrun).1.fit hstart)

/-- Looking for the end never stops the loop. -/
theorem exists_runFrom_atEnd (c : Cursor) : ∃ b c', runFrom atEnd c = (.ok b, c') := by
  have hpeek : Ends peekNext c (fun _ _ => True) (fun _ _ => False) := ends_onStream.2 trivial
  have hends : Ends atEnd c (fun _ _ => True) (fun _ _ => False) := by
    unfold atEnd
    refine hpeek.andThen ?_
    intro found c₁ _
    cases found with
    | none => exact ends_pure.2 trivial
    | some t => exact ends_pure.2 trivial
  obtain ⟨b, c', hrun, -⟩ := hends.exists_ok
  exact ⟨b, c', hrun⟩

/-- **A program is refused where one of its statements is.** -/
theorem exists_starts_of_statements (fuel : Nat)
    (h : runFrom (statements fuel) c = (.error (.refused e), c')) :
    ∃ s, Starts c s ∧ runFrom statement s = (.error (.refused e), c') := by
  induction fuel generalizing c with
  | zero => exact absurd h (by simp [statements])
  | succ fuel ih =>
    obtain ⟨b, c₁, hend⟩ := exists_runFrom_atEnd c
    rw [statements, runFrom_bind, hend] at h
    cases b with
    | true => exact absurd h (by simp)
    | false =>
      simp only [Bool.false_eq_true, if_false, runFrom_bind, runFrom_modify] at h
      rcases hrun : runFrom statement { c₁ with failures := [] } with ⟨fault | t, c₂⟩
      · rw [hrun] at h
        exact ⟨_, .here hend, hrun.trans (by simpa using h)⟩
      · rw [hrun] at h
        simp only at h
        rcases hrest : runFrom (statements fuel) c₂ with ⟨fault | ts, c₃⟩
        · rw [hrest] at h
          obtain ⟨s, hstarts, hs⟩ := ih (hrest.trans (by simpa using h))
          exact ⟨s, .later hend hrun hstarts, hs⟩
        · rw [hrest] at h
          exact absurd h (by simp)

/-! ### What is taken back -/

theorem failures_rewind (mark : Nat) (c : Cursor) :
    (runFrom (rewind mark) c).2.failures = c.failures :=
  ends_snd.1 (ends_rewind_failures mark c)

/-- **A parser that is taken back** leaves the failures on record that it leaves where it is run. -/
theorem failures_attempt (p : ParseM α) (c : Cursor) :
    (runFrom (Parser.attempt p) c).2.failures = (runFrom p c).2.failures := by
  rcases hrun : runFrom p c with ⟨fault | a, c'⟩
  · cases fault with
    | refused e =>
      have hback := failures_rewind c.stream.pos c'
      rw [Parser.attempt, runFrom_position_bind, runFrom_tryCatch, hrun]
      dsimp only
      rw [runFrom_bind]
      rcases hrewind : runFrom (rewind c.stream.pos) c' with ⟨fault | u, c''⟩
      · rw [hrewind] at hback
        exact hback
      · rw [hrewind] at hback
        exact hback
    | _ => rw [runFrom_attempt_of_ne hrun (by simp)]
  · rw [runFrom_attempt_of_ne hrun (by simp)]

theorem failures_trial (p : ParseM α) (c : Cursor) :
    (runFrom (trial p) c).2.failures = (runFrom p c).2.failures := by
  rw [← failures_attempt p c, runFrom_trial]
  rcases runFrom (Parser.attempt p) c with ⟨fault | a, c'⟩
  · cases fault <;> rfl
  · rfl

theorem failures_optional (p : ParseM α) (c : Cursor) :
    (runFrom (Parser.optional p) c).2.failures = (runFrom p c).2.failures := by
  rw [← failures_trial p c, Parser.optional, runFrom_bind]
  rcases runFrom (trial p) c with ⟨fault | r, c'⟩
  · rfl
  · cases r <;> rfl

/-- **The error of a statement** that starts with no failures on record reports the furthest of its
failures, which points at what it names. -/
theorem reports_of_statement (hc : c.Fit) (hnone : c.failures = [])
    (h : runFrom statement c = (.error (.refused e), c')) :
    e.Reports c'.failures ∧ ∃ f, e = .malformedBy f ∧ (0 : Int) ≤ f.position
      ∧ f.PointsInto c.stream.all := by
  obtain ⟨hon, hnames⟩ := (ends_statement_furthest (hc.pinned hnone)).of_error h
  obtain ⟨f, hf, rfl, hfar⟩ := hnames e rfl
  obtain ⟨hpos, hpoints⟩ := hon.pinned.failures f hf
  rw [hon.stream.all_eq] at hpoints
  refine ⟨⟨⟨f, hf, rfl, rfl, rfl, rfl⟩, fun f' hf' => ?_⟩, f, rfl, by omega, hpoints⟩
  exact hfar f' hf' (hon.pinned.failures f' hf').1

end Parser

/-- **The furthest failure is the one reported.**  In either grouping, an error is reported for the
furthest of all failures that were recorded while the statement was parsed in which it occurs; in a
program, this is a statement that the loop starts, with no failures on record.  The failures of what
is taken back are among them: no construct forgets any, and a parser that is tried leaves those on
record that it leaves where it is run. -/
theorem parse_reports_furthest (source : String) (g : Grouping) :
    (∀ e, parse source g = .error (.refused e) →
      ∃ c', runFrom Parser.statement (.ofSource source g) = (.error (.refused e), c')
        ∧ e.Reports c'.failures)
      ∧ (∀ e, parseProgram source g = .error (.refused e) →
        ∃ s c', Parser.Starts (.ofSource source g) s ∧ s.failures = []
          ∧ runFrom Parser.statement s = (.error (.refused e), c') ∧ e.Reports c'.failures)
      ∧ (∀ k : Parser.Construct, Parser.Records k.parser)
      ∧ ∀ (α : Type) (p : ParseM α) (c : Cursor),
        (runFrom (Parser.attempt p) c).2.failures = (runFrom p c).2.failures
          ∧ (runFrom (Parser.trial p) c).2.failures = (runFrom p c).2.failures
          ∧ (runFrom (Parser.optional p) c).2.failures = (runFrom p c).2.failures := by
  have hfit : (Cursor.ofSource source g).Fit := fit_ofSource source g
  refine ⟨?_, ?_, fun k => Parser.closed_records.of_construct k, fun α p c => ?_⟩
  · intro e h
    obtain ⟨c', hrun⟩ := exists_runFrom h
    exact ⟨c', hrun, (Parser.reports_of_statement hfit rfl hrun).1⟩
  · intro e h
    obtain ⟨c', hrun⟩ := exists_runFrom h
    rw [Parser.program, runFrom_bind] at hrun
    obtain ⟨s, hstarts, hs⟩ := Parser.exists_starts_of_statements _ hrun
    obtain ⟨hs_fit, hnone⟩ := hstarts.fit hfit
    exact ⟨s, c', hstarts, hnone, hs, (Parser.reports_of_statement hs_fit hnone hs).1⟩
  · exact ⟨Parser.failures_attempt p c, Parser.failures_trial p c, Parser.failures_optional p c⟩

set_option maxRecDepth 2000 in
/-- In `{ c = }` a value is looked for in a statement that the block can do without.  The parser takes that one
back, finds no closing brace in front of `c`, and still reports that the value is missing; also in a
second statement, where the first left a failure on record. -/
theorem parse_reports_furthest_braced :
    (∃ e c', runFrom Parser.statement (.ofSource "\x7b c = \x7d" .rightward)
        = (.error (.refused e), c') ∧ e.position = 5 ∧ ∀ f ∈ c'.failures, f.position ≤ 5)
      ∧ ∃ e s c', Parser.Starts (.ofSource "a \x7b c = \x7d" .byPrecedence) s ∧ s.failures = []
        ∧ runFrom Parser.statement s = (.error (.refused e), c') ∧ e.position = 7
        ∧ ∀ f ∈ c'.failures, f.position ≤ 7 := by
  have hparse : parse "\x7b c = \x7d" .rightward = .error (.refused (.malformedBy
      ⟨.expected (.phrase "expression") (some .closeBrace), 5⟩)) := by cbv
  have hprogram : parseProgram "a \x7b c = \x7d" .byPrecedence = .error (.refused (.malformedBy
      ⟨.expected (.phrase "expression") (some .closeBrace), 7⟩)) := by cbv
  constructor
  · obtain ⟨c', hrun, hreports⟩ := (parse_reports_furthest _ _).1 _ hparse
    exact ⟨_, c', hrun, rfl, hreports.furthest⟩
  · obtain ⟨s, c', hstarts, hnone, hrun, hreports⟩ := (parse_reports_furthest _ _).2.1 _ hprogram
    exact ⟨_, s, c', hstarts, hnone, hrun, rfl, hreports.furthest⟩

/-! ### Where the error points -/

/-- **What a failure names stands behind blanks**, or at its place if a kind was looked for. -/
theorem Failure.PointsInto.exists_blanks {all : List Token} {f : Failure} (h : f.PointsInto all)
    {k : TokenKind} (hk : f.problem.found = some k) :
    ∃ blanks t rest, all.drop f.position.toNat = blanks ++ t :: rest
      ∧ (∀ b ∈ blanks, b.isWhitespace = true) ∧ t.kind = k
      ∧ ((all[f.position.toNat]?).map Token.kind = some k ↔ blanks = [])
      ∧ ∀ want, f.problem.wanted = some (.kind want) → blanks = [] := by
  obtain ⟨t, ht, hkind⟩ := Option.map_eq_some_iff.1 (h.ahead k hk)
  rw [List.head?_filter, List.find?_eq_some_iff_append] at ht
  obtain ⟨hcounts, blanks, rest, hdrop, hblanks⟩ := ht
  have hwhite : ∀ b ∈ blanks, b.isWhitespace = true := fun b hb => by
    simpa [Token.counts] using hblanks b hb
  have hat : (all[f.position.toNat]?).map Token.kind = some k ↔ blanks = [] := by
    have hhead : all[f.position.toNat]? = (blanks ++ t :: rest).head? := by
      rw [← hdrop, List.head?_drop]
    rw [hhead]
    cases blanks with
    | nil => simp [hkind]
    | cons b blanks =>
      have hne : b.kind ≠ k := by
        intro hb
        have hwhite_t : t.isWhitespace = true := by
          rw [Token.isWhitespace, hkind, ← hb]
          exact hwhite b List.mem_cons_self
        rw [Token.counts, hwhite_t] at hcounts
        exact absurd hcounts Bool.false_ne_true
      simp [hne]
  exact ⟨blanks, t, rest, hdrop, hwhite, hkind, hat,
    fun want hwant => hat.1 (h.at_place k want hk hwant)⟩

/-- **An error points at blanks in front of the token that it names.**  There are none if a kind of
token was looked for, and the position is the token's own exactly if there are none. -/
theorem exists_blanks_of_parse {source : String} {g : Grouping} {e : ParseError} {k : TokenKind}
    (h : parse source g = .error (.refused e)) (hk : e.found = some k) :
    ∃ (i : Nat) (blanks : List Token) (t : Token) (rest : List Token), e.position = i
      ∧ (TokenStream.ofSource source g).all.drop i = blanks ++ t :: rest
      ∧ (∀ b ∈ blanks, b.isWhitespace = true) ∧ t.kind = k
      ∧ (((TokenStream.ofSource source g).all[i]?).map Token.kind = some k ↔ blanks = [])
      ∧ ∀ want, e.wanted = some (.kind want) → blanks = [] := by
  obtain ⟨c', hrun⟩ := exists_runFrom h
  obtain ⟨-, f, rfl, hpos, hpoints⟩ :=
    Parser.reports_of_statement (c := .ofSource source g) (fit_ofSource source g) rfl hrun
  obtain ⟨blanks, t, rest, hdrop⟩ := hpoints.exists_blanks hk
  exact ⟨f.position.toNat, blanks, t, rest, (Int.toNat_of_nonneg hpos).symm, hdrop⟩

theorem parse_value_missing : parse "let a = ;" .byPrecedence = .error (.refused (.malformedBy
    ⟨.expected (.phrase "expression") (some .semi), 5⟩)) := by
  cbv

/-- In `let a = ;` the error names the `;` but points at the blank in front of it. -/
theorem exists_blanks_of_parse_value :
    ∃ e, parse "let a = ;" .byPrecedence = .error (.refused e) ∧ e.found = some .semi
      ∧ e.position = 5
      ∧ ∃ (blanks : List Token) (t : Token) (rest : List Token),
        (TokenStream.ofSource "let a = ;" .byPrecedence).all.drop 5 = blanks ++ t :: rest
          ∧ blanks ≠ [] ∧ (∀ b ∈ blanks, b.isWhitespace = true) ∧ t.kind = .semi := by
  have h := parse_value_missing
  obtain ⟨i, blanks, t, rest, hpos, hdrop, hwhite, hkind, hat, -⟩ := exists_blanks_of_parse h rfl
  obtain rfl : i = 5 := by
    have hfive : (5 : Int) = i := hpos
    omega
  have hblank : blanks ≠ [] := fun hnil => absurd (hat.2 hnil) (by decide)
  exact ⟨_, h, rfl, rfl, blanks, t, rest, hdrop, hblank, hwhite, hkind⟩

/-- **An error may point at a blank**: its position is not always that of the token that it names. -/
theorem not_found_at_position : ¬ ∀ (source : String) (g : Grouping) (e : ParseError)
    (k : TokenKind), parse source g = .error (.refused e) → e.found = some k →
    ∃ i : Nat, e.position = i
      ∧ ((TokenStream.ofSource source g).all[i]?).map Token.kind = some k := by
  intro h
  obtain ⟨i, hpos, hat⟩ := h _ _ _ _ parse_value_missing rfl
  obtain rfl : i = 5 := by
    have hfive : (5 : Int) = i := hpos
    omega
  exact absurd hat (by decide)

end BlockLang
