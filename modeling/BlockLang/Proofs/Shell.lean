import BlockLang.Proofs.Eval.Program
import BlockLang.Proofs.Eval.Range
import BlockLang.Proofs.Lexer.Open
import BlockLang.Proofs.Parser.Outcome
import BlockLang.Proofs.Session
import BlockLang.Proofs.Trim
import BlockLang.Shell

/-!
# What the shell answers

A shell that is fed lines puts them together to texts, `completed`, and runs each text
when it is complete.  Between two lines nothing is pending, the root frame is the only
frame, no line is being worked on, and the prompt says whether a text is held:

    partialText ≠ ""  ↔  0 < openBraces partialText  ↔  prompt = .secondary.

The answer to a text is one value, that of its last statement, or one error, with
warnings in front of it.  A text that stops at an error leaves the values of the
statements before it in the results.  They are never taken for an answer: a text that is
not blank has a statement, so when it is run to its end the last result is its own.
-/

namespace BlockLang

open StepM

theorem Console.settle_reported {c : Console} (h : c.fatal = false) (r : Report) :
    c.settle (.reported r) = (.suppressed, { c with
      sites := c.sites.map (fun site => { path := site.path })
      errors := c.errors + 1
      log := c.log ++ [.error c.sites r] }) := by
  simp [settle, reportOf, report, print, clearLines, passesOn, h]

theorem ProgramFault.raised_of_isProgramError {fault : ProgramFault} (h : fault.IsProgramError) :
    ∃ r, fault.toSession.raised = .reported r := by
  obtain ⟨e, rfl, -⟩ := h
  exact ⟨e.report, rfl⟩

/-- **A source whose numbers fit** keeps the number of frames, and what keeps it from its end is
an error of the language. -/
theorem ProgramRun.ofSource_spec {s : Scopes} (hs : 0 < s.size) (g : Grouping) {source : String}
    (hfit : DigitsFit source) :
    (ofSource s g source).scopes.size = s.size
      ∧ ∀ fault, (ofSource s g source).fault = some fault →
        ∃ r, fault.toSession.raised = .reported r := by
  rw [ofSource]
  rcases parseProgram_cases g hfit with ⟨ts, hparse⟩ | ⟨e, hparse⟩
  · rw [hparse]
    obtain ⟨hsize, herror⟩ := ofStatements_spec hs (areStatements_of_parseProgram hparse)
    refine ⟨hsize, fun fault hfault => ?_⟩
    exact ProgramFault.raised_of_isProgramError (herror fault hfault)
  · rw [hparse]
    refine ⟨rfl, fun fault hfault => ?_⟩
    rw [← Option.some.inj hfault]
    exact ⟨e.report, rfl⟩

namespace Session

variable {s : Session}

/-- A session that errors do not end, with nothing to do. -/
structure Ready (s : Session) : Prop where
  trace_eq : s.console.trace = false
  fatal_eq : s.console.fatal = false
  atRest : s.console.AtRest
  pending_eq : s.pending = []
  size_eq : s.scopes.size = 1

theorem exists_ran_add_run {text : String} {stmts : List Tree} (num : Int) (hs : s.Ready)
    (hparse : parseProgram text s.grouping = .ok stmts) :
    ∃ s₁ s₂ ws, (∀ e ∈ ws, e.isWarning = true)
      ∧ runFrom (add text num) s = (.ok (), s₁)
      ∧ runFrom run s₁ = ((ProgramRun.ofStatements s.scopes stmts).ending, s₂)
      ∧ s.console.Prints ws s₂.console
      ∧ s₂.results = s.results ++ stmts.zip (ProgramRun.ofStatements s.scopes stmts).values
      ∧ s₂.scopes = (ProgramRun.ofStatements s.scopes stmts).scopes
      ∧ s₂.grouping = s.grouping ∧ s₂.pending = []
      ∧ ((ProgramRun.ofStatements s.scopes stmts).ending = .ok () → s₂.console.AtRest) := by
  obtain ⟨c, ws, hws, hprints, hrest, hadd⟩ := exists_add_of_ok num hs.trace_eq hparse
  rw [hs.pending_eq, Pending.put] at hadd
  obtain ⟨s₂, hrun, hran, hpending⟩ := exists_ran_run_one
    (s := { s with pending := [{ num, text, stmts }], console := c }) rfl
  refine ⟨_, s₂, ws, hws, hadd, hrun, hran.prints_of_trace hprints hs.trace_eq, ?_, hran.scopes_eq,
    hran.grouping_eq, hpending, ?_⟩
  · rw [hran.results_eq, List.flatMap_singleton]
    rfl
  · intro hok
    exact hran.atRest hok (hrest hs.atRest)

end Session

namespace Shell

open Session

theorem exists_getLast?_zip {α β : Type} {as : List α} {bs : List β} (h : bs.length = as.length)
    (hne : as ≠ []) : ∃ a b, (as.zip bs).getLast? = some (a, b) ∧ bs.getLast? = some b := by
  have hsnd : (as.zip bs).getLast?.map Prod.snd = bs.getLast? := by
    rw [← List.getLast?_map, List.map_snd_zip (Nat.le_of_eq h)]
  cases hlast : (as.zip bs).getLast? with
  | none =>
    have hlen := congrArg List.length (List.getLast?_eq_none_iff.1 hlast)
    have hpos := List.length_pos_iff.2 hne
    rw [List.length_zip, List.length_nil] at hlen
    omega
  | some p => exact ⟨p.1, p.2, rfl, by rw [← hsnd, hlast]; rfl⟩

theorem runFrom_printLast {s : Session} {t : Tree} {v : Value}
    (h : s.results.getLast? = some (t, v)) :
    runFrom (do
      if (← get).results.isEmpty then return ()
      else
        let value ← Session.pop
        Session.onConsole (fun c => c.print (.value value))) s
      = (.ok (), { s with
          results := s.results.dropLast
          console := s.console.print (.value v) }) := by
  have hne : s.results.isEmpty = false := by
    cases hnil : s.results with
    | nil => rw [hnil] at h; exact absurd h (by simp)
    | cons => rfl
  rw [runFrom_bind, runFrom_get]
  dsimp only
  rw [hne, if_neg Bool.false_ne_true, runFrom_bind, pop, runFrom_bind, runFrom_get]
  dsimp only
  rw [h]
  rfl

/-- **A text was executed**: warnings were printed, and then the value of its last statement if it
was run to its end. -/
structure Executed (s : Session) (text : String) (ws : List Event) (s' : Session) : Prop where
  warnings : ∀ e ∈ ws, e.isWarning = true
  scopes_eq : s'.scopes = (ProgramRun.ofSource s.scopes s.grouping text).scopes
  grouping_eq : s'.grouping = s.grouping
  pending_eq : s'.pending = []
  answer :
    let r := ProgramRun.ofSource s.scopes s.grouping text
    (∃ stmts v, parseProgram text s.grouping = .ok stmts ∧ r.fault = none
        ∧ r.values.length = stmts.length ∧ r.values.getLast? = some v
        ∧ s.console.Prints (ws ++ [.value v]) s'.console ∧ s'.console.AtRest)
      ∨ r.fault ≠ none ∧ s.console.Prints ws s'.console

variable {s : Session} {text : String}

/-- A text that is accepted has a last statement, and the last result is its value if it was run
to its end. -/
theorem exists_executed_of_ok (num : Int) (hs : s.Ready)
    (hblank : text.toList.dropWhile Text.isBlank ≠ []) {stmts : List Tree}
    (hparse : parseProgram text s.grouping = .ok stmts) :
    ∃ ws s', runFrom (execute text num) s
        = ((ProgramRun.ofSource s.scopes s.grouping text).ending, s')
      ∧ Executed s text ws s' := by
  obtain ⟨s₁, s₂, ws, hws, hadd, hrun, hprints, hresults, hscopes, hgrouping, hpending, hrest⟩ :=
    exists_ran_add_run num hs hparse
  have hsource : ProgramRun.ofSource s.scopes s.grouping text
      = ProgramRun.ofStatements s.scopes stmts := by rw [ProgramRun.ofSource, hparse]
  rw [← hsource] at hrun hresults hscopes hrest
  rw [execute, runFrom_bind, hadd]
  dsimp only
  rw [runFrom_bind, hrun]
  by_cases hfault : (ProgramRun.ofSource s.scopes s.grouping text).fault = none
  · have hending : (ProgramRun.ofSource s.scopes s.grouping text).ending = .ok () := by
      rw [ProgramRun.ending, hfault]
    have hlength : (ProgramRun.ofSource s.scopes s.grouping text).values.length = stmts.length := by
      rw [hsource] at hfault ⊢
      exact ProgramRun.length_values hfault
    obtain ⟨t, v, hpair, hv⟩ := exists_getLast?_zip hlength (ne_nil_of_parseProgram hparse hblank)
    have hlast : s₂.results.getLast? = some (t, v) := by
      rw [hresults, List.getLast?_append, hpair]
      rfl
    rw [hending]
    dsimp only
    refine ⟨ws, { s₂ with results := s₂.results.dropLast, console := s₂.console.print (.value v) },
      runFrom_printLast hlast, hws, hscopes, hgrouping, hpending, .inl ?_⟩
    refine ⟨stmts, v, hparse, hfault, hlength, hv, ?_, hrest hending⟩
    exact hprints.trans ⟨rfl, rfl, rfl, rfl⟩
  · obtain ⟨fault, hsome⟩ := Option.ne_none_iff_exists'.1 hfault
    refine ⟨ws, s₂, ?_, hws, hscopes, hgrouping, hpending, .inr ⟨hfault, hprints⟩⟩
    rw [ProgramRun.ending, hsome]

theorem exists_executed_of_refused (num : Int) (hs : s.Ready) {e : ParseError}
    (hparse : parseProgram text s.grouping = .error (.refused e)) :
    ∃ ws s', runFrom (execute text num) s
        = ((ProgramRun.ofSource s.scopes s.grouping text).ending, s')
      ∧ Executed s text ws s' := by
  have hsource : ProgramRun.ofSource s.scopes s.grouping text
      = { values := [], fault := some (.parse (.refused e)), scopes := s.scopes } := by
    rw [ProgramRun.ofSource, hparse]
  refine ⟨[], { s with console := s.console.registerLine s.path text num }, ?_,
    fun e he => absurd he List.not_mem_nil, ?_, rfl, hs.pending_eq, .inr ⟨?_, ?_⟩⟩
  · rw [execute, runFrom_bind, runFrom_add_of_error num hs.trace_eq hparse, hsource]
    rfl
  · rw [hsource]
  · rw [hsource]
    exact Option.some_ne_none _
  · exact ⟨rfl, rfl, rfl, (List.append_nil s.console.log).symm⟩

theorem exists_executed (num : Int) (hs : s.Ready)
    (hblank : text.toList.dropWhile Text.isBlank ≠ []) (hfit : DigitsFit text) :
    ∃ ws s', runFrom (execute text num) s
        = ((ProgramRun.ofSource s.scopes s.grouping text).ending, s')
      ∧ Executed s text ws s' := by
  rcases parseProgram_cases s.grouping hfit with ⟨stmts, hparse⟩ | ⟨e, hparse⟩
  · exact exists_executed_of_ok num hs hblank hparse
  · exact exists_executed_of_refused num hs hparse

/-! ### Lines -/

/-- The text that a line completes behind a text that is held, if it completes one that is not
blank. -/
def completedBy (held line : String) : Option String :=
  let text := Text.trimEnd (held ++ line)
  if 0 < openBraces text ∨ text = "" then none else some text

/-- The text that is held after a line. -/
def heldAfter (held line : String) : String :=
  let text := Text.trimEnd (held ++ line)
  if 0 < openBraces text then text ++ "\n" else ""

/-- **The texts that lines complete** behind a text that is held, but for blank ones. -/
def completed (held : String) : List String → List String
  | [] => []
  | line :: lines => (completedBy held line).toList ++ completed (heldAfter held line) lines

/-- **A shell holds a text** if and only if it has open braces, and the prompt shows it. -/
structure Holds (sh : Shell) : Prop where
  partialText_iff : sh.partialText ≠ "" ↔ 0 < openBraces sh.partialText
  prompt_iff : 0 < openBraces sh.partialText ↔ sh.prompt = .secondary

/-- **The answer to a text**: after warnings, the value of its last statement if all of them have
values, and otherwise one error. -/
def Answers (sh : Shell) (text : String) (sh' : Shell) : Prop :=
  let r := ProgramRun.ofSource sh.session.scopes sh.session.grouping text
  let c := sh.session.console
  let c' := sh'.session.console
  ∃ warnings : List Event, (∀ e ∈ warnings, e.isWarning = true)
    ∧ ((∃ stmts v, parseProgram text sh.session.grouping = .ok stmts ∧ r.fault = none
          ∧ r.values.length = stmts.length ∧ r.values.getLast? = some v
          ∧ c'.log = c.log ++ warnings ++ [.value v] ∧ c'.errors = c.errors)
      ∨ ∃ fault report sites, r.fault = some fault ∧ fault.toSession.raised = .reported report
          ∧ c'.log = c.log ++ warnings ++ [.error sites report] ∧ c'.errors = c.errors + 1)

variable {sh : Shell} {line : String}

theorem absorb_eq (sh : Shell) (line : String) :
    sh.absorb line = (completedBy sh.partialText line, { sh with
      partialText := heldAfter sh.partialText line
      lineNum := sh.lineNum + 1
      prompt := if 0 < openBraces (Text.trimEnd (sh.partialText ++ line)) then .secondary
        else .primary }) := by
  by_cases h : 0 < openBraces (Text.trimEnd (sh.partialText ++ line))
  · simp [absorb, Chunk.readLine, Chunk.needsMore, completedBy, heldAfter, h]
  · simp [absorb, Chunk.readLine, Chunk.needsMore, completedBy, heldAfter, h]

theorem feed_held (sh : Shell) (line : String) :
    (sh.feed line).2.partialText = (sh.absorb line).2.partialText
      ∧ (sh.feed line).2.prompt = (sh.absorb line).2.prompt := by
  unfold feed
  rcases sh.absorb line with ⟨_ | text, sh₁⟩
  · exact ⟨rfl, rfl⟩
  · dsimp only
    rcases runFrom (execute text sh₁.lineNum) sh₁.session with ⟨e | _, s'⟩
    · unfold settle
      dsimp only
      rcases s'.console.settle e.raised with ⟨_ | _ | _, c⟩
      · exact ⟨rfl, rfl⟩
      · exact ⟨rfl, rfl⟩
      · exact ⟨rfl, rfl⟩
    · exact ⟨rfl, rfl⟩

theorem partialText_feed (sh : Shell) (line : String) :
    (sh.feed line).2.partialText = heldAfter sh.partialText line := by
  rw [(feed_held sh line).1, absorb_eq]

theorem holds_of_primary (hpartial : sh.partialText = "") (hprompt : sh.prompt = .primary) :
    sh.Holds := by
  have hclosed : ¬ 0 < openBraces "" := by decide
  constructor
  · rw [hpartial]
    exact ⟨fun h => absurd rfl h, fun h => absurd h hclosed⟩
  · rw [hpartial, hprompt]
    exact ⟨fun h => absurd h hclosed, fun h => Prompt.noConfusion h⟩

/-- **After a line** a text is held if and only if it has open braces.  The line end that is put
behind a held text opens and closes none. -/
theorem holds_feed (sh : Shell) (line : String) : (sh.feed line).2.Holds := by
  obtain ⟨hpartial, hprompt⟩ := feed_held sh line
  rw [absorb_eq] at hpartial hprompt
  by_cases h : 0 < openBraces (Text.trimEnd (sh.partialText ++ line))
  · have hopen : 0 < openBraces (sh.feed line).2.partialText := by
      rw [hpartial, heldAfter, if_pos h, show "\n" = String.ofList ['\n'] from rfl,
        openBraces_concat_blank (by decide)]
      exact h
    have hne : (sh.feed line).2.partialText ≠ "" := by
      rw [hpartial, heldAfter, if_pos h]
      simp
    rw [if_pos h] at hprompt
    exact ⟨⟨fun _ => hopen, fun _ => hne⟩, ⟨fun _ => hprompt, fun _ => hopen⟩⟩
  · rw [heldAfter, if_neg h] at hpartial
    rw [if_neg h] at hprompt
    exact holds_of_primary hpartial hprompt

/-- A line that completes no text, or a blank one, leaves the session alone. -/
theorem feed_of_none (h : completedBy sh.partialText line = none) :
    (sh.feed line).1 = .goesOn ∧ (sh.feed line).2.session = sh.session := by
  rw [feed, absorb_eq, h]
  exact ⟨rfl, rfl⟩

theorem ne_blank_of_completedBy {held text : String} (h : completedBy held line = some text) :
    text.toList.dropWhile Text.isBlank ≠ [] := by
  rw [completedBy] at h
  split at h
  · exact absurd h (by simp)
  next hcomplete =>
    rw [← Option.some.inj h]
    exact Text.dropWhile_trimEnd_ne_nil (not_or.1 hcomplete).2

/-- **A line that completes a text** runs it, and the answer is a value or an error. -/
theorem feed_of_some {text : String} (hs : sh.session.Ready)
    (h : completedBy sh.partialText line = some text) (hfit : DigitsFit text) :
    (sh.feed line).1 = .goesOn ∧ (sh.feed line).2.session.Ready
      ∧ (sh.feed line).2.session.grouping = sh.session.grouping
      ∧ (sh.feed line).2.session.scopes
        = (ProgramRun.ofSource sh.session.scopes sh.session.grouping text).scopes
      ∧ sh.Answers text (sh.feed line).2 := by
  obtain ⟨ws, s', hexecute, hws, hscopes, hgrouping, hpending, hanswer⟩ :=
    exists_executed ((sh.lineNum + 1 : Nat) : Int) hs (ne_blank_of_completedBy h) hfit
  obtain ⟨hsize, hreport⟩ := ProgramRun.ofSource_spec (s := sh.session.scopes)
    (by rw [hs.size_eq]; exact Nat.one_pos) sh.session.grouping hfit
  have hsize' : s'.scopes.size = 1 := by rw [hscopes, hsize, hs.size_eq]
  rw [feed, absorb_eq, h]
  dsimp only
  rw [hexecute, ProgramRun.ending]
  rcases hanswer with ⟨stmts, v, hparse, hfault, hlength, hv, hprints, hrest⟩ | ⟨hfault, hprints⟩
  · rw [hfault]
    refine ⟨rfl, ⟨hprints.trace_eq.trans hs.trace_eq, hprints.fatal_eq.trans hs.fatal_eq, hrest,
      hpending, hsize'⟩, hgrouping, hscopes, ws, hws, .inl ?_⟩
    refine ⟨stmts, v, hparse, hfault, hlength, hv, ?_, hprints.errors_eq⟩
    rw [List.append_assoc]
    exact hprints.log_eq
  · obtain ⟨fault, hsome⟩ := Option.ne_none_iff_exists'.1 hfault
    obtain ⟨report, hraised⟩ := hreport fault hsome
    have hfatal : s'.console.fatal = false := hprints.fatal_eq.trans hs.fatal_eq
    rw [hsome, settle]
    dsimp only
    rw [hraised, Console.settle_reported hfatal]
    refine ⟨rfl, ⟨hprints.trace_eq.trans hs.trace_eq, hfatal, ?_, hpending, hsize'⟩, hgrouping,
      hscopes, ws, hws, .inr ⟨fault, report, s'.console.sites, hsome, hraised, ?_, ?_⟩⟩
    · intro site hsite
      obtain ⟨site', -, rfl⟩ := List.mem_map.1 hsite
      rfl
    · rw [← hprints.log_eq]
    · rw [← hprints.errors_eq]

theorem feed_ready (hs : sh.session.Ready) (line : String)
    (hfit : ∀ text, completedBy sh.partialText line = some text → DigitsFit text) :
    (sh.feed line).1 = .goesOn ∧ (sh.feed line).2.session.Ready
      ∧ (sh.feed line).2.session.grouping = sh.session.grouping
      ∧ (sh.feed line).2.session.scopes = Eval.scopesAfter sh.session.scopes
          ((completedBy sh.partialText line).toList.map
            (fun text => (sh.session.grouping, text))) := by
  cases hline : completedBy sh.partialText line with
  | none =>
    obtain ⟨hreply, hsession⟩ := feed_of_none hline
    rw [hsession]
    exact ⟨hreply, hs, rfl, rfl⟩
  | some text =>
    obtain ⟨hreply, hready, hgrouping, hscopes, -⟩ := feed_of_some hs hline (hfit text hline)
    exact ⟨hreply, hready, hgrouping, hscopes⟩

/-! ### Runs of lines -/

/-- A shell that was fed lines. -/
def feedAll : List String → Shell → Shell
  | [], sh => sh
  | line :: lines, sh => feedAll lines (sh.feed line).2

theorem feedAll_concat (lines : List String) (line : String) (sh : Shell) :
    feedAll (lines ++ [line]) sh = ((feedAll lines sh).feed line).2 := by
  induction lines generalizing sh with
  | nil => rw [List.nil_append, feedAll, feedAll, feedAll]
  | cons first lines ih => rw [List.cons_append, feedAll, ih, feedAll]

theorem partialText_feedAll (lines : List String) (sh : Shell) :
    (feedAll lines sh).partialText = lines.foldl heldAfter sh.partialText := by
  induction lines generalizing sh with
  | nil => rfl
  | cons line lines ih => rw [feedAll, ih, partialText_feed, List.foldl_cons]

theorem completed_concat (held : String) (lines : List String) (line : String) :
    completed held (lines ++ [line])
      = completed held lines ++ (completedBy (lines.foldl heldAfter held) line).toList := by
  induction lines generalizing held with
  | nil => simp [completed]
  | cons first lines ih => rw [List.cons_append, completed, ih, completed, List.append_assoc,
      List.foldl_cons]

theorem holds_feedAll (h : sh.Holds) (lines : List String) : (feedAll lines sh).Holds := by
  induction lines generalizing sh with
  | nil => exact h
  | cons line lines ih => exact ih (holds_feed sh line)

/-- **All lines** leave the session ready, and its scopes what the texts left that they complete. -/
theorem feedAll_ready (hs : sh.session.Ready) (lines : List String)
    (hfit : ∀ text ∈ completed sh.partialText lines, DigitsFit text) :
    (feedAll lines sh).session.Ready
      ∧ (feedAll lines sh).session.grouping = sh.session.grouping
      ∧ (feedAll lines sh).session.scopes = Eval.scopesAfter sh.session.scopes
          ((completed sh.partialText lines).map (fun text => (sh.session.grouping, text))) := by
  induction lines generalizing sh with
  | nil => exact ⟨hs, rfl, rfl⟩
  | cons line lines ih =>
    rw [completed, ← partialText_feed] at hfit ⊢
    obtain ⟨-, hready, hgrouping, hscopes⟩ := feed_ready hs line (fun text htext =>
      hfit text (List.mem_append_left _ (by rw [htext]; exact List.mem_singleton_self text)))
    rw [feedAll]
    generalize (sh.feed line).2 = sh₁ at hready hgrouping hscopes hfit ⊢
    obtain ⟨hready', hgrouping', hscopes'⟩ :=
      ih hready (fun text h => hfit text (List.mem_append_right _ h))
    refine ⟨hready', hgrouping'.trans hgrouping, ?_⟩
    rw [hscopes', hscopes, hgrouping, List.map_append, Eval.scopesAfter, Eval.scopesAfter,
      Eval.scopesAfter, List.foldl_append]

/-- **A shell between two lines** that has run some texts: nothing is pending, the root frame is
the only frame and is what the texts left, and no line is being worked on. -/
structure Rests (sh : Shell) (g : Grouping) (texts : List String) : Prop where
  pending_eq : sh.session.pending = []
  size_eq : sh.session.scopes.size = 1
  atRest : sh.session.console.AtRest
  holds : sh.Holds
  scopes_eq : sh.session.scopes = Eval.scopesAfter .root (texts.map (fun text => (g, text)))

theorem ready_start {console : Console} (htrace : console.trace = false) (hrest : console.AtRest)
    (g : Grouping) : (start console g).session.Ready :=
  ⟨htrace, rfl, hrest.registerFile SessionError.interactivePath, rfl, rfl⟩

theorem rests_feedAll {console : Console} (htrace : console.trace = false)
    (hrest : console.AtRest) (g : Grouping) (lines : List String)
    (hfit : ∀ text ∈ completed "" lines, DigitsFit text) :
    (feedAll lines (start console g)).Rests g (completed "" lines) := by
  have hready := feedAll_ready (ready_start htrace hrest g) lines hfit
  exact ⟨hready.1.pending_eq, hready.1.size_eq, hready.1.atRest,
    holds_feedAll (holds_of_primary rfl rfl) lines, hready.2.2⟩

/-- **The shell reads, evaluates and prints.**  Fed any lines whose texts have no number that is too
long, a shell with a console that traces no steps rests after every line.  A line that completes no
text, or a blank one, leaves the session alone; a line that completes any other text is answered
with the value of that text's last statement or with an error. -/
theorem feed_rests_and_answers (console : Console) (htrace : console.trace = false)
    (hrest : console.AtRest) (g : Grouping) (lines : List String) (line : String)
    (hfit : ∀ text ∈ completed "" (lines ++ [line]), DigitsFit text) :
    let sh := feedAll lines (start console g)
    sh.Rests g (completed "" lines)
      ∧ (sh.feed line).1 = .goesOn
      ∧ (sh.feed line).2.Rests g (completed "" (lines ++ [line]))
      ∧ (completedBy sh.partialText line = none → (sh.feed line).2.session = sh.session)
      ∧ ∀ text, completedBy sh.partialText line = some text →
        sh.Answers text (sh.feed line).2 := by
  have hheld : (feedAll lines (start console g)).partialText = lines.foldl heldAfter "" :=
    partialText_feedAll lines (start console g)
  have hearlier : ∀ t ∈ completed "" lines, DigitsFit t := by
    intro t ht
    exact hfit t (by rw [completed_concat]; exact List.mem_append_left _ ht)
  have hready := (feedAll_ready (ready_start htrace hrest g) lines hearlier).1
  have hrests := rests_feedAll htrace hrest g (lines ++ [line]) hfit
  rw [feedAll_concat] at hrests
  have hsome : ∀ text, completedBy (feedAll lines (start console g)).partialText line = some text →
      DigitsFit text := by
    intro text htext
    refine hfit text ?_
    rw [completed_concat, ← hheld, htext]
    exact List.mem_append_right _ (List.mem_singleton_self text)
  refine ⟨rests_feedAll htrace hrest g lines hearlier, (feed_ready hready line hsome).1, hrests,
    fun h => (feed_of_none h).2, fun text htext => ?_⟩
  exact (feed_of_some hready htext (hsome text htext)).2.2.2.2

/-- A block over three lines, from `let a = {` to `b * 3 };`, a text that stops at its second
statement, and a blank line. -/
def sampleLines : List String :=
  ["let a = \x7b", "  let b = 2;  ", "b * 3 \x7d;", "a; missing; a", "   "]

/-- After these lines nothing is held, and `a + 1` is answered. -/
theorem feed_rests_and_answers_sample :
    (∀ text ∈ completed "" (sampleLines ++ ["a + 1"]), DigitsFit text)
      ∧ let sh := feedAll sampleLines (start {} .byPrecedence)
        sh.Rests .byPrecedence ["let a = \x7b\n  let b = 2;\nb * 3 \x7d;", "a; missing; a"]
          ∧ (sh.feed "a + 1").1 = .goesOn
          ∧ sh.Answers "a + 1" (sh.feed "a + 1").2 := by
  have hfit : ∀ text ∈ completed "" (sampleLines ++ ["a + 1"]), DigitsFit text := by
    decide +kernel
  have hcompleted : completed "" sampleLines
      = ["let a = \x7b\n  let b = 2;\nb * 3 \x7d;", "a; missing; a"] := by
    decide +kernel
  have hline : completedBy (feedAll sampleLines (start {} .byPrecedence)).partialText "a + 1"
      = some "a + 1" := by
    rw [partialText_feedAll]
    decide +kernel
  obtain ⟨hrests, hreply, -, -, hanswer⟩ := feed_rests_and_answers {} rfl
    (fun _ h => absurd h List.not_mem_nil) .byPrecedence sampleLines "a + 1" hfit
  rw [hcompleted] at hrests
  exact ⟨hfit, hrests, hreply, hanswer "a + 1" hline⟩

end Shell

end BlockLang
