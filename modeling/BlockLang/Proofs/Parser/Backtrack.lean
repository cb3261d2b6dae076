import BlockLang.Parser.Script
import BlockLang.Proofs.Parser.Alike
import BlockLang.Proofs.Parser.Recorded
import Mathlib

/-!
# Backtracking is exact

`Built p` says that `p` is a program of the parser's steps: the primitives and the
constructs of the grammar, in sequence, tried, or with their refusal taken for an absence,
in any nesting.  What such a program does next may depend on what it has seen.

Every state that such a program leaves, and so every state in which one of its steps
starts, is a later state of the start of its source, `Visited.later`: its place is in the
buffer, so that the way back to it stays open.  For that the grammar's own way back, to
the place of a single operand, has to be noted where the parser has been; that is part of
what `agree_foldExpr` says.

A step that is guarded is back where it started when it refuses.
-/

namespace BlockLang

open StepM

/-- Whether a parser may stop for this reason on some source.  It never runs out of steps, has
always a place to go back to, and never goes to a place that it has not seen. -/
def Fault.isForeseen : Fault → Bool
  | refused _ | digitLimit _ | badTemplate _ => true
  | invalidMark _ | lostPlace | outOfSteps => false

theorem Fault.IsRefusal.isForeseen {fault : Fault} (h : fault.IsRefusal) :
    fault.isForeseen = true := by
  obtain ⟨e, rfl⟩ := h
  rfl

namespace Parser

variable {α β : Type} {p : ParseM α} {f : α → ParseM β} {c c' : Cursor} {stmt : ParseM Tree}

/-! ### Steady parsers -/

/-- **Steady.**  However the parser ends, the cursor is in a later state of the same stream, and
there was a foreseen reason if it stopped. -/
def Steady (p : ParseM α) : Prop :=
  ∀ c : Cursor, c.Fit → Ends p c (fun _ c' => c.Later c')
    (fun fault c' => c.Later c' ∧ fault.isForeseen = true)

theorem Steady.later {r : Except Fault α} (h : Steady p) (hc : c.Fit)
    (hr : runFrom p c = (r, c')) : c.Later c' := by
  have hlater := ends_snd.1 ((h c hc).mono (fun _ _ h => h) (fun _ _ h => h.1))
  rw [hr] at hlater
  exact hlater

theorem steady_pure (a : α) : Steady (pure a) :=
  fun _ hc => ends_pure.2 hc.stays.toLater

theorem steady_throw {fault : Fault} (h : fault.isForeseen = true) :
    Steady (throw fault : ParseM α) :=
  fun _ hc => ends_throw.2 ⟨hc.stays.toLater, h⟩

theorem steady_get : Steady (get : ParseM Cursor) :=
  fun _ hc => ends_get.2 hc.stays.toLater

theorem Steady.bind (hp : Steady p) (hf : ∀ a, Steady (f a)) : Steady (p >>= f) := by
  intro c hc
  refine (hp c hc).bind ?_ (fun _ _ h => h)
  intro a c' hlater
  exact (hf a c' (hlater.fit hc)).mono (fun _ _ h => hlater.trans h)
    (fun _ _ h => ⟨hlater.trans h.1, h.2⟩)

theorem steady_onStream {g : TokenStream → α × TokenStream}
    (h : ∀ s : TokenStream, s.Fit → s.Along (g s).2) : Steady (onStream g) :=
  fun c hc => ends_onStream.2 ⟨h c.stream hc, rfl⟩

theorem steady_record (problem : Problem) (at? : Option Int) : Steady (record problem at?) := by
  intro c hc
  unfold record
  rw [ends_position_bind, ends_bind, ends_modify, ends_pure]
  exact ⟨hc.sound.along, rfl⟩

theorem steady_peekNext (skipBlanks : Bool) : Steady (peekNext skipBlanks) := by
  apply steady_onStream
  intro s hs
  cases skipBlanks with
  | true => exact (TokenStream.peekSignificant_spec hs).2.1
  | false => exact TokenStream.along_peek hs.sound 0

theorem steady_advance : Steady advance :=
  steady_onStream (fun _ hs => (TokenStream.next_spec hs.sound).2.1)

theorem steady_startsWith (kinds : List TokenKind) :
    Steady (onStream (fun s => s.startsWith kinds)) :=
  steady_onStream (fun _ hs => (TokenStream.significantFrom_spec kinds.length 0 hs).2.1)

theorem steady_of_agree (h : ∀ c, c.Alike c → Agree Same p c p c) : Steady p := by
  intro c hc
  cases h c ⟨hc, hc, rfl, rfl⟩ with
  | ok hp _ _ hlater => exact ends_iff.2 (.inl ⟨_, _, hp, hlater⟩)
  | error hp _ hfault hlater =>
    refine ends_iff.2 (.inr ⟨_, _, hp, hlater, ?_⟩)
    cases hfault with
    | refused e e' => rfl
    | digitLimit n => rfl

/-! ### Taking tokens -/

theorem ends_takeSome (want : Token → Bool) (fuel : Nat) (hc : c.Fit) :
    Ends (takeSome want fuel) c (fun _ c' => c.Later c') (fun _ _ => False) := by
  induction fuel generalizing c with
  | zero => exact ends_pure.2 hc.stays.toLater
  | succ fuel ih =>
    unfold takeSome
    refine (ends_peekNext_false hc).andThen ?_
    intro found c₁ hlook
    obtain ⟨hfound, hstay⟩ := hlook
    have hc₁ := hstay.fit hc
    cases found with
    | none => exact ends_pure.2 hstay.toLater
    | some t =>
      by_cases hwant : want t = true
      · simp only [hwant, if_true]
        have hnext : c₁.stream.all[c₁.stream.pos]? = some t := by
          rw [hstay.stream.all_eq, hstay.pos_eq, hfound]
        refine (ends_advance hc₁ hnext).andThen ?_
        intro _ c₂ hmove
        have hlater := hstay.toLater.trans hmove.1
        refine (ih (hlater.fit hc)).andThen ?_
        intro ts c₃ hrest
        exact ends_pure.2 (hlater.trans hrest)
      · simp only [hwant]
        exact ends_pure.2 hstay.toLater

theorem steady_takeWhile (want : Token → Bool) : Steady (takeWhile want) := by
  intro c hc
  unfold takeWhile
  rw [ends_capacity_bind]
  exact (ends_takeSome want _ hc).mono (fun _ _ h => h) (fun _ _ h => h.elim)

theorem ends_takeOne_false (hc : c.Fit) (want : Token → Bool) (expected : Expectation) :
    Ends (takeOne want expected false) c (fun _ c' => c.Later c')
      (fun fault c' => fault.IsRefusal ∧ c.Stays c') := by
  unfold takeOne
  rw [ends_position_bind]
  refine (ends_peekNext_false hc).andThen ?_
  intro found c₁ hlook
  obtain ⟨hfound, hstay₁⟩ := hlook
  have hc₁ := hstay₁.fit hc
  cases hfilter : found.filter want with
  | none =>
    simp only [ends_position_bind]
    refine (ends_rewind hc₁
      (Nat.le_trans hc.sound.pos_le hstay₁.stream.buffer_le)).andThen ?_
    intro _ c₂ hback
    have hstay₂ : c.Stays c₂ := ⟨hstay₁.toLater.trans hback.1, hback.2⟩
    exact (ends_reject (hback.1.fit hc₁) _ _).mono (fun _ _ h => h)
      (fun _ _ h => ⟨h.1, hstay₂.trans h.2⟩)
  | some t =>
    have hnext : c₁.stream.all[c₁.stream.pos]? = some t := by
      rw [hstay₁.stream.all_eq, hstay₁.pos_eq, ← hfound, (Option.filter_eq_some_iff.1 hfilter).1]
    refine (ends_advance hc₁ hnext).andThen ?_
    intro _ c₂ hmove
    exact ends_pure.2 (hstay₁.toLater.trans hmove.1)

theorem ends_takeOne_any (hc : c.Fit) (want : Token → Bool) (expected : Expectation)
    (skipBlanks : Bool) :
    Ends (takeOne want expected skipBlanks) c (fun _ c' => c.Later c')
      (fun fault c' => fault.IsRefusal ∧ c.Stays c') := by
  cases skipBlanks with
  | true =>
    exact (ends_takeOne hc want expected).mono (fun _ _ h => h.1.toLater)
      (fun _ _ h => ⟨h.1, h.2.1⟩)
  | false => exact ends_takeOne_false hc want expected

theorem steady_takeOne (want : Token → Bool) (expected : Expectation) (skipBlanks : Bool) :
    Steady (takeOne want expected skipBlanks) :=
  fun _ hc => (ends_takeOne_any hc want expected skipBlanks).mono (fun _ _ h => h)
    (fun _ _ h => ⟨h.2.toLater, h.1.isForeseen⟩)

/-! ### Moving back -/

theorem Steady.ends_attempt (hp : Steady p) (hc : c.Fit) :
    Ends (attempt p) c (fun _ c' => c.Later c')
      (fun fault c' => c.Later c' ∧ fault.isForeseen = true ∧ (fault.IsRefusal → c.Stays c')) := by
  rcases hrun : runFrom p c with ⟨fault | a, c'⟩
  · obtain ⟨hlater, hforeseen⟩ := (hp c hc).of_error hrun
    by_cases hr : fault.IsRefusal
    · obtain ⟨e, rfl⟩ := hr
      obtain ⟨c₁, hback, hstay⟩ := runFrom_attempt_refused hc hrun hlater
      exact ends_iff.2 (.inr ⟨_, c₁, hback, hstay.toLater, rfl, fun _ => hstay⟩)
    · have hsame := runFrom_attempt_of_ne hrun (fun e he => hr ⟨e, Except.error.inj he⟩)
      exact ends_iff.2 (.inr ⟨fault, c', hsame, hlater, hforeseen, fun h => absurd h hr⟩)
  · have hsame := runFrom_attempt_of_ne hrun (by simp)
    exact ends_iff.2 (.inl ⟨a, c', hsame, (hp c hc).of_ok hrun⟩)

theorem Steady.attempt (hp : Steady p) : Steady (attempt p) :=
  fun _ hc => (hp.ends_attempt hc).mono (fun _ _ h => h) (fun _ _ h => ⟨h.1, h.2.1⟩)

theorem runFrom_trial_refused {e : ParseError} (hc : c.Fit)
    (hrun : runFrom p c = (.error (.refused e), c')) (hlater : c.Later c') :
    ∃ c₁, runFrom (trial p) c = (.ok (.error e), c₁) ∧ c.Stays c₁ := by
  obtain ⟨c₁, hback, hstay⟩ := runFrom_attempt_refused hc hrun hlater
  exact ⟨c₁, by rw [runFrom_trial, hback], hstay⟩

theorem Steady.trial (hp : Steady p) : Steady (trial p) := by
  intro c hc
  rcases hrun : runFrom p c with ⟨fault | a, c'⟩
  · obtain ⟨hlater, hforeseen⟩ := (hp c hc).of_error hrun
    cases fault with
    | refused e =>
      obtain ⟨c₁, hback, hstay⟩ := runFrom_trial_refused hc hrun hlater
      exact ends_iff.2 (.inl ⟨_, c₁, hback, hstay.toLater⟩)
    | _ =>
      have hsame := runFrom_attempt_of_ne hrun (by simp)
      exact ends_iff.2 (.inr ⟨_, c', by rw [runFrom_trial, hsame], hlater, hforeseen⟩)
  · have hsame := runFrom_attempt_of_ne hrun (by simp)
    exact ends_iff.2 (.inl ⟨_, c', by rw [runFrom_trial, hsame], (hp c hc).of_ok hrun⟩)

theorem runFrom_optional_refused {e : ParseError} (hc : c.Fit)
    (hrun : runFrom p c = (.error (.refused e), c')) (hlater : c.Later c') :
    ∃ c₁, runFrom (Parser.optional p) c = (.ok none, c₁) ∧ c.Stays c₁ := by
  obtain ⟨c₁, htrial, hstay⟩ := runFrom_trial_refused hc hrun hlater
  refine ⟨c₁, ?_, hstay⟩
  rw [Parser.optional, runFrom_bind, htrial]
  rfl

/-! ### The grammar -/

theorem agreeWithin_statement (n : Nat) : AgreeWithin n statement statement :=
  ⟨ends_statement, fun _ _ halike _ => agree_statement halike⟩

theorem steady_operator : Steady operator :=
  steady_of_agree (fun _ h => agree_operator h)

theorem agree_construct (k : Construct) (h : c.Alike c) :
    Agree Same k.parser c k.parser c := by
  -- the tokens ahead bound the depth of blocks and the turns of every loop
  have hstmt := agreeWithin_statement c.ahead.length
  have hn := Nat.le_refl c.ahead.length
  have hroom := h.fit.length_ahead_le
  cases k with
  | literal => exact agree_literal h
  | usage => exact agree_usage h
  | block => exact agree_block hstmt h hn
  | atom => exact agree_atom hstmt h hn
  | chainExpr => exact agree_capacity_bind (agree_chainItems hstmt h hn (by omega) (by omega))
  | foldExpr => exact agree_foldExpr hstmt h hn
  | expr => exact agree_expr hstmt h hn
  | binding => exact agree_binding hstmt h hn
  | assignment => exact agree_assignment hstmt h hn
  | exprStatement => exact agree_exprStatement hstmt h hn
  | statement => exact agree_statement h

theorem steady_construct (k : Construct) : Steady k.parser :=
  steady_of_agree (fun _ h => agree_construct k h)

/-- A parser tried never stops because it refuses. -/
theorem ends_trial_stop (p : ParseM α) (c : Cursor) :
    Ends (trial p) c (fun _ _ => True) (fun fault _ => ¬ fault.IsRefusal) := by
  rcases hrun : runFrom (Parser.attempt p) c with ⟨fault | a, c'⟩
  · cases fault with
    | refused e =>
      exact ends_iff.2 (.inl ⟨.error e, c', by rw [runFrom_trial, hrun], trivial⟩)
    | _ =>
      refine ends_iff.2 (.inr ⟨_, c', by rw [runFrom_trial, hrun], ?_⟩)
      intro h
      obtain ⟨e, he⟩ := h
      simp at he
  · exact ends_iff.2 (.inl ⟨.ok a, c', by rw [runFrom_trial, hrun], trivial⟩)

theorem ends_firstOf_stop (ps : List (ParseM Tree)) (c : Cursor) :
    Ends (firstOf ps) c (fun _ _ => True) (fun fault _ => ¬ fault.IsRefusal) := by
  induction ps generalizing c with
  | nil => exact ends_pure.2 trivial
  | cons p ps ih =>
    unfold firstOf
    refine (ends_trial_stop p c).bind ?_ (fun _ _ h => h)
    intro r c₁ _
    cases r with
    | ok t => exact ends_pure.2 trivial
    | error e =>
      refine (ih c₁).bind ?_ (fun _ _ h => h)
      intro r c₂ _
      cases r with
      | ok t => exact ends_pure.2 trivial
      | error es => exact ends_pure.2 trivial

/-- **A statement refused** takes nothing: its alternatives are tried, and where none fits the
cursor is back where the first started. -/
theorem ends_statementWith_refused (hstmt : ReadsStatement stmt) (hc : c.Fit) :
    Ends (statementWith stmt) c (fun _ _ => True)
      (fun fault c' => fault.IsRefusal → c.Stays c') := by
  unfold statementWith
  rw [ends_position_bind]
  refine (ends_startsAssignment hc).andThen ?_
  intro assigns c₁ hlook
  have hstay₁ := hlook.2
  have hc₁ := hstay₁.fit hc
  -- where a trial stops, nothing was refused: only the last line of the parser refuses
  have hbinding := (ends_trial hc₁ (ends_binding hstmt hc₁)).and (ends_trial_stop _ c₁)
  refine hbinding.bind ?_ (fun _ _ h hr => absurd hr h.2)
  intro r c₂ h
  cases r with
  | ok t => exact ends_pure.2 trivial
  | error bindingError =>
    have hstay₂ : c.Stays c₂ := hstay₁.trans h.1
    have hothers : ∀ p ∈ (if assigns = true then [assignment stmt, exprStatement stmt]
          else [exprStatement stmt]), ∀ c', c.Stays c' → c'.Fit →
        Ends p c' (fun _ _ => True) (fun _ c'' => c'.Along c'') := by
      intro p hp c' _ hc'
      rcases eq_of_mem_others hp with rfl | rfl
      · exact (ends_assignment hstmt hc').mono (fun _ _ _ => trivial) (fun _ _ h => h)
      · exact (ends_exprStatement hstmt hc').mono (fun _ _ _ => trivial) (fun _ _ h => h)
    have hrest := (ends_firstOf _ (hstay₂.fit hc) hstay₂ hothers).and (ends_firstOf_stop _ c₂)
    refine hrest.bind ?_ (fun _ _ h hr => absurd hr h.2)
    intro r c₃ h
    cases r with
    | ok t => exact ends_pure.2 trivial
    | error errors =>
      have hstay₃ : c.Stays c₃ := h.1
      have hc₃ := hstay₃.fit hc
      cases errors with
      | nil =>
        exact (ends_bestError _ _ _ hc₃).andThen
          (fun _ _ h => ends_throw.2 (fun _ => hstay₃.trans h))
      | cons e es =>
        exact (ends_bestError _ _ _ hc₃).andThen
          (fun _ _ h => ends_throw.2 (fun _ => hstay₃.trans h))

theorem ends_statement_refused (hc : c.Fit) :
    Ends statement c (fun _ _ => True) (fun fault c' => fault.IsRefusal → c.Stays c') := by
  unfold statement
  rw [ends_capacity_bind]
  exact ends_statementWith_refused (ends_statementAt _) hc

/-! ### Programs of steps -/

/-- **A program of the parser's steps**, one after the other, tried, or with their refusal taken for
an answer, in any nesting.  It may look at the cursor, record failures and stop for any foreseen
reason. -/
inductive Built : {α : Type} → ParseM α → Prop
  | result {α : Type} (a : α) : Built (pure a)
  | sequence {α β : Type} {p : ParseM α} {f : α → ParseM β} (hp : Built p)
      (hf : ∀ a, Built (f a)) : Built (p >>= f)
  | stop {α : Type} {fault : Fault} (h : fault.isForeseen = true) : Built (throw fault : ParseM α)
  | look : Built (get : ParseM Cursor)
  | record (problem : Problem) (at? : Option Int) : Built (record problem at?)
  | takeOne (want : Token → Bool) (expected : Expectation) (skipBlanks : Bool) :
      Built (takeOne want expected skipBlanks)
  | takeWhile (want : Token → Bool) : Built (takeWhile want)
  | peekNext (skipBlanks : Bool) : Built (peekNext skipBlanks)
  | advance : Built advance
  | startsWith (kinds : List TokenKind) : Built (onStream (fun s => s.startsWith kinds))
  | operator : Built operator
  | construct (k : Construct) : Built k.parser
  | attempt {α : Type} {p : ParseM α} (hp : Built p) : Built (attempt p)
  | trial {α : Type} {p : ParseM α} (hp : Built p) : Built (trial p)

/-- **A guarded step**: one that takes nothing when it refuses. -/
inductive Guarded : {α : Type} → ParseM α → Prop
  | takeOne (want : Token → Bool) (expected : Expectation) (skipBlanks : Bool) :
      Guarded (takeOne want expected skipBlanks)
  | tag (k : TokenKind) (skipBlanks : Bool) : Guarded (tag k skipBlanks)
  | attempt {α : Type} {p : ParseM α} (hp : Built p) : Guarded (attempt p)
  | statement : Guarded statement

/-- **The states that programs reach**: the start of a source, and wherever a program ends, with a
result or not, that began in such a state.  The constructs are made of the same steps, but for the
way back that ends `foldExpr`, so that what is called inside them starts in such a state as well. -/
inductive Visited (source : String) (g : Grouping) : Cursor → Prop
  | start : Visited source g (.ofSource source g)
  | run {α : Type} {p : ParseM α} {c c' : Cursor} {r : Except Fault α}
      (h : Visited source g c) (hp : Built p) (hr : runFrom p c = (r, c')) : Visited source g c'

namespace Built

protected theorem tag (k : TokenKind) (skipBlanks : Bool) : Built (tag k skipBlanks) :=
  .takeOne _ _ skipBlanks

protected theorem atEnd : Built atEnd := by
  refine .sequence (.peekNext true) (fun found => ?_)
  cases found with
  | none => exact .result _
  | some t => exact .result _

protected theorem optional (hp : Built p) : Built (Parser.optional p) := by
  refine .sequence hp.trial (fun r => ?_)
  cases r with
  | ok a => exact .result _
  | error e => exact .result _

theorem steady (hp : Built p) : Steady p := by
  induction hp with
  | result a => exact steady_pure a
  | sequence _ _ ihp ihf => exact ihp.bind ihf
  | stop h => exact steady_throw h
  | look => exact steady_get
  | record problem at? => exact steady_record problem at?
  | takeOne want expected skipBlanks => exact steady_takeOne want expected skipBlanks
  | takeWhile want => exact steady_takeWhile want
  | peekNext skipBlanks => exact steady_peekNext skipBlanks
  | advance => exact steady_advance
  | startsWith kinds => exact steady_startsWith kinds
  | operator => exact steady_operator
  | construct k => exact steady_construct k
  | attempt _ ih => exact ih.attempt
  | trial _ ih => exact ih.trial

theorem records (hp : Built p) : Records p := by
  induction hp with
  | result a => exact records_pure a
  | sequence _ _ ihp ihf => exact ihp.bind ihf
  | stop h => exact records_throw _
  | look => exact records_get
  | record problem at? => exact records_record problem at?
  | takeOne want expected skipBlanks => exact records_takeOne want expected skipBlanks
  | takeWhile want => exact records_takeWhile want
  | peekNext skipBlanks => exact records_onStream _
  | advance => exact records_onStream _
  | startsWith kinds => exact records_onStream _
  | operator => exact closed_records.of_operator
  | construct k => exact closed_records.of_construct k
  | attempt _ ih => exact closed_records.of_attempt ih
  | trial _ ih => exact closed_records.of_trial ih

end Built

mutual

/-- **Every script** is such a program. -/
theorem Step.built_run : ∀ step : Step, Built step.run
  | .tag k skipBlanks => .sequence (.tag k skipBlanks) (fun _ => .result _)
  | .takeOne cls want => .sequence (.takeOne _ want true) (fun _ => .result _)
  | .takeWhile cls => .sequence (.takeWhile _) (fun _ => .result _)
  | .takeBlanks => .sequence (.takeWhile _) (fun _ => .result _)
  | .identifier => .sequence (.tag .ident true) (fun _ => .result _)
  | .peekNext skipBlanks => .sequence (.peekNext skipBlanks) (fun _ => .result _)
  | .advance => .sequence .advance (fun _ => .result _)
  | .atEnd => .sequence .atEnd (fun _ => .result _)
  | .record template position => by
    rw [Step.run]
    cases Report.ofTemplate template [""] with
    | error fault => exact .stop rfl
    | ok report => exact .sequence (.record _ position) (fun _ => .result _)
  | .operator => .sequence .operator (fun _ => .result _)
  | .construct k => .sequence (.construct k) (fun _ => .result _)
  | .sequence steps => .sequence (built_runSteps steps) (fun _ => .result _)
  | .attempt steps => .sequence (.attempt (built_runSteps steps)) (fun _ => .result _)
  | .optional steps => by
    rw [Step.run]
    refine .sequence (built_runSteps steps).optional (fun r => ?_)
    cases r with
    | none => exact .result _
    | some answers => exact .result _

theorem built_runSteps : ∀ steps : List Step, Built (runSteps steps)
  | [] => .result _
  | step :: steps =>
    .sequence step.built_run (fun _ => .sequence (built_runSteps steps) (fun _ => .result _))

end

theorem Visited.later {source : String} {g : Grouping} (h : Visited source g c) :
    (Cursor.ofSource source g).Later c := by
  have hfit : (Cursor.ofSource source g).Fit := fit_ofSource source g
  induction h with
  | start => exact hfit.stays.toLater
  | run _ hp hr ih => exact ih.trans (hp.steady.later (ih.fit hfit) hr)

theorem Guarded.ends_refused (hp : Guarded p) (hc : c.Fit) :
    Ends p c (fun _ _ => True) (fun fault c' => fault.IsRefusal → c.Stays c') := by
  cases hp with
  | takeOne want expected skipBlanks =>
    exact (ends_takeOne_any hc want expected skipBlanks).mono (fun _ _ _ => trivial)
      (fun _ _ h _ => h.2)
  | tag k skipBlanks =>
    exact (ends_takeOne_any hc _ _ skipBlanks).mono (fun _ _ _ => trivial) (fun _ _ h _ => h.2)
  | attempt hp =>
    exact (hp.steady.ends_attempt hc).mono (fun _ _ _ => trivial) (fun _ _ h => h.2.2)
  | statement => exact ends_statement_refused hc

/-- **Backtracking is exact.**  Wherever a program of steps starts on a source, its end is at a
place in the buffer, and it never stops for want of a place to go back to.  A guarded step that
refuses is back where it started, and so is a program whose refusal is taken for an absence.  No
failure is forgotten, the furthest is as far as any that was recorded, and it never moves towards
the front. -/
theorem run_backtracks {source : String} {g : Grouping} {r : Except Fault α}
    (hc : Visited source g c) (hp : Built p) (hr : runFrom p c = (r, c')) :
    c'.stream.pos ≤ c'.stream.buffer.size
      ∧ (∀ fault, r = .error fault →
        fault.isForeseen = true ∧ ∀ mark, fault ≠ .invalidMark mark)
      ∧ (∀ e, r = .error (.refused e) → Guarded p → c'.stream.pos = c.stream.pos)
      ∧ (∀ e, r = .error (.refused e) → ∃ c₁, runFrom (Parser.optional p) c = (.ok none, c₁)
        ∧ c₁.stream.pos = c.stream.pos)
      ∧ c.failures <:+ c'.failures
      ∧ (∀ f ∈ c'.failures, ∃ best, c'.furthest = some best ∧ f.position ≤ best.position)
      ∧ ∀ best, c.furthest = some best →
        ∃ best', c'.furthest = some best' ∧ best.position ≤ best'.position := by
  have hfit : c.Fit := hc.later.fit (fit_ofSource source g)
  have hlater := hp.steady.later hfit hr
  have hrecords := hp.records.suffix hr
  refine ⟨hlater.stream.sound.pos_le, ?_, ?_, ?_, hrecords, fun f hf => Failure.le_furthest hf,
    fun best hbest => Failure.furthest_mono hrecords hbest⟩
  · intro fault hstop
    subst hstop
    have hforeseen := ((hp.steady c hfit).of_error hr).2
    refine ⟨hforeseen, fun mark hmark => ?_⟩
    rw [hmark] at hforeseen
    exact absurd hforeseen Bool.false_ne_true
  · intro e hrefused hguarded
    subst hrefused
    exact ((hguarded.ends_refused hfit).of_error hr ⟨e, rfl⟩).pos_eq
  · intro e hrefused
    subst hrefused
    obtain ⟨c₁, hrun, hstay⟩ := runFrom_optional_refused hfit hr hlater
    exact ⟨c₁, hrun, hstay.pos_eq⟩

/-- Two statements between braces, either of which may be absent. -/
def braced : ParseM Token :=
  Parser.attempt (do
    let _ ← tag .openBrace
    let _ ← Parser.optional statement
    let _ ← Parser.optional statement
    tag .closeBrace)

set_option maxRecDepth 2000 in
/-- In front of `{a b =}` all is taken back, also the two statements that were read.  The furthest
failure is the missing value, found on the way, and not the last one recorded. -/
theorem run_backtracks_braced :
    Visited "\x7ba b =\x7d" .byPrecedence (.ofSource "\x7ba b =\x7d" .byPrecedence)
      ∧ Built braced
      ∧ ∃ e c', runFrom braced (.ofSource "\x7ba b =\x7d" .byPrecedence) = (.error (.refused e), c')
        ∧ e.position = 5 ∧ c'.furthest.map Failure.position = some 6
        ∧ c'.stream.pos = 0 ∧ c'.stream.pos ≤ c'.stream.buffer.size
        ∧ (∃ c₁, runFrom (Parser.optional braced) (.ofSource "\x7ba b =\x7d" .byPrecedence)
            = (.ok none, c₁) ∧ c₁.stream.pos = 0)
        ∧ ∀ f ∈ c'.failures, ∃ best, c'.furthest = some best ∧ f.position ≤ best.position := by
  have hinner : Built (do
      let _ ← tag .openBrace
      let _ ← Parser.optional statement
      let _ ← Parser.optional statement
      tag .closeBrace) := by
    refine .sequence (.tag _ _) (fun _ => ?_)
    refine .sequence (Built.optional (.construct .statement)) (fun _ => ?_)
    exact .sequence (Built.optional (.construct .statement)) (fun _ => .tag _ _)
  have hend : (runFrom braced (.ofSource "\x7ba b =\x7d" .byPrecedence)).1
      = .error (.refused (.failed ⟨.expected (.kind .closeBrace) (some .equals), 5⟩)) := by cbv
  have hfar : (runFrom braced (.ofSource "\x7ba b =\x7d" .byPrecedence)).2.furthest.map
      Failure.position = some 6 := by cbv
  obtain ⟨c', hr⟩ := exists_runFrom hend
  rw [hr] at hfar
  obtain ⟨hle, -, hback, habsent, -, hfurthest, -⟩ := run_backtracks .start (.attempt hinner) hr
  exact ⟨.start, .attempt hinner, _, c', hr, rfl, hfar, hback _ rfl (.attempt hinner), hle,
    habsent _ rfl, hfurthest⟩

end Parser

end BlockLang
