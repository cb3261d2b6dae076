import BlockLang.Proofs.Shell
import BlockLang.Proofs.Trim

/-!
# Commands and lines of source

The shell reads commands and source on the same lines.  Which of them a line is depends on
the line alone, `isCommand`, and not on what the shell holds: `help` and `exit` are
commands where nothing stands behind them, and `EOF` is one wherever it is the first word.
So a line that is put behind an open block is any line but these,

    sh.command line = sh.feed source  ↔  ¬ isCommand source,

where `source` is the line without the blanks around it, and with `help` for a `?` in
front.  It is put behind the text that is held, and the two are held together or run.  What
a run of source prints is warnings, errors, steps and values, and never a text of the
shell's own (`reports_feed`).
-/

namespace BlockLang

open StepM

/-! ### What a run of source prints -/

/-- Whether an event is printed by a run of source: anything but a text or a prompt of the shell. -/
def Event.isOfSource : Event → Bool
  | text _ | prompt _ => false
  | _ => true

namespace Console

variable {c c' c'' : Console}

/-- **Only a run of source is reported**, and it ends the program for errors or not as before. -/
def Reports (c c' : Console) : Prop :=
  c'.fatal = c.fatal ∧ ∃ es, c'.log = c.log ++ es ∧ ∀ e ∈ es, e.isOfSource = true

theorem Reports.of_eq (hfatal : c'.fatal = c.fatal) (hlog : c'.log = c.log) : c.Reports c' :=
  ⟨hfatal, [], by rw [hlog, List.append_nil], fun _ h => absurd h List.not_mem_nil⟩

theorem Reports.refl (c : Console) : c.Reports c :=
  .of_eq rfl rfl

theorem Reports.trans (h : c.Reports c') (h' : c'.Reports c'') : c.Reports c'' := by
  obtain ⟨hfatal, es, hlog, hes⟩ := h
  obtain ⟨hfatal', es', hlog', hes'⟩ := h'
  refine ⟨hfatal'.trans hfatal, es ++ es', ?_, ?_⟩
  · rw [hlog', hlog, List.append_assoc]
  · exact List.forall_mem_append.2 ⟨hes, hes'⟩

theorem reports_print {e : Event} (h : e.isOfSource = true) (c : Console) : c.Reports (c.print e) :=
  ⟨rfl, [e], rfl, fun e' he' => by rw [List.mem_singleton.1 he']; exact h⟩

theorem reports_registerStep (c : Console) (label text : String) :
    c.Reports (c.registerStep label text) := by
  unfold registerStep
  split
  · exact reports_print rfl c
  · exact .refl c

theorem reports_foldl {α : Type} {f : Console → α → Console}
    (hf : ∀ (c : Console) a, c.Reports (f c a)) (as : List α) (c : Console) :
    c.Reports (as.foldl f c) := by
  induction as generalizing c with
  | nil => exact .refl c
  | cons a as ih => exact (hf c a).trans (ih _)

theorem reports_report (c : Console) (r : Report) : c.Reports (c.report r).2 := by
  have herror : c.Reports { c.print (.error c.sites r) with errors := c.errors + 1 } :=
    reports_print rfl c
  unfold report
  dsimp only
  split
  · exact herror
  · exact herror

/-- What ended a piece of work is reported, or passed on as it is. -/
theorem reports_settle (c : Console) (x : Raised) : c.Reports (c.settle x).2 := by
  unfold settle
  cases reportOf x with
  | none => exact .refl c
  | some r =>
    have hreport := c.reports_report r
    dsimp only
    rcases hr : c.report r with ⟨exits, c₁⟩
    rw [hr] at hreport
    cases exits with
    | true => exact hreport
    | false => exact hreport

theorem settle_ne_exits (h : c.fatal = false) (x : Raised) : (c.settle x).1 ≠ .exits := by
  unfold settle
  cases reportOf x with
  | none => exact Verdict.noConfusion
  | some r =>
    have hreport : (c.report r).1 = false := by
      simp [report, print, h]
    dsimp only
    rcases hr : c.report r with ⟨exits, c₁⟩
    rw [hr] at hreport
    obtain rfl : exits = false := hreport
    dsimp only
    split
    · exact Verdict.noConfusion
    · exact Verdict.noConfusion

end Console

namespace Session

variable {α β : Type} {p : SessionM α} {f : α → SessionM β}

/-- **A step that reports** nothing but a run of source. -/
def Reporting (p : SessionM α) : Prop :=
  ∀ s : Session, Ends p s (fun _ s' => s.console.Reports s'.console)
    (fun _ s' => s.console.Reports s'.console)

theorem Reporting.bind (hp : Reporting p) (hf : ∀ a, Reporting (f a)) : Reporting (p >>= f) := by
  intro s
  refine (hp s).bind ?_ (fun _ _ h => h)
  intro a s' h
  exact (hf a s').mono (fun _ _ h' => h.trans h') (fun _ _ h' => h.trans h')

theorem reporting_pure (a : α) : Reporting (pure a) :=
  fun s => ends_pure.2 (.refl s.console)

theorem reporting_throw (e : SessionError) : Reporting (throw e : SessionM α) :=
  fun s => ends_throw.2 (.refl s.console)

theorem reporting_get : Reporting (get : SessionM Session) :=
  fun s => ends_get.2 (.refl s.console)

theorem reporting_modify {f : Session → Session}
    (h : ∀ s : Session, s.console.Reports (f s).console) : Reporting (modify f) :=
  fun s => ends_modify.2 (h s)

theorem Reporting.tryCatch {h : SessionError → SessionM α} (hp : Reporting p)
    (hh : ∀ e, Reporting (h e)) : Reporting (MonadExcept.tryCatch p h) := by
  intro s
  refine (hp s).tryCatch (fun _ _ h => h) ?_
  intro e s' hs
  exact (hh e s').mono (fun _ _ h' => hs.trans h') (fun _ _ h' => hs.trans h')

theorem reporting_onConsole {f : Console → Console} (h : ∀ c : Console, c.Reports (f c)) :
    Reporting (onConsole f) :=
  reporting_modify (fun s => h s.console)

theorem reporting_add (text : String) (num : Int) : Reporting (add text num) := by
  have hwarn : ∀ (c : Console) (stmts : List Tree), c.Reports (c.warn (bindingWarning stmts)) :=
    fun c _ => Console.reports_print rfl c
  have hannounce : ∀ (c : Console) (stmt : Tree), c.Reports (announce stmt c) := by
    intro c stmt
    have hstep := c.reports_registerStep "tree" stmt.source
    exact hstep.trans (Console.reports_foldl hwarn _ _)
  unfold add
  refine Reporting.bind reporting_get (fun s => ?_)
  refine Reporting.bind (reporting_onConsole (fun c => .of_eq rfl rfl)) (fun _ => ?_)
  refine Reporting.bind (reporting_onConsole (fun c => c.reports_registerStep _ _)) (fun _ => ?_)
  cases parseProgram text s.grouping with
  | error fault => exact reporting_throw _
  | ok stmts =>
    have hstmts := reporting_onConsole (Console.reports_foldl hannounce stmts)
    refine hstmts.bind (fun _ => ?_)
    refine Reporting.bind (reporting_modify (fun s => .refl s.console)) (fun _ => ?_)
    exact reporting_onConsole (fun c => .of_eq rfl rfl)

theorem reporting_runStatements (stmts : List Tree) : Reporting (runStatements stmts) := by
  have hstatement : ∀ stmt, Reporting (runStatement stmt) := by
    intro stmt
    unfold runStatement
    refine Reporting.bind reporting_get (fun s => ?_)
    rcases runFrom (Eval.evaluate 0 stmt) s.scopes with ⟨outcome, scopes⟩
    dsimp only
    refine Reporting.bind (reporting_modify (fun s => .refl s.console)) (fun _ => ?_)
    cases outcome with
    | error fault => exact reporting_throw _
    | ok value =>
      have hshow := reporting_onConsole (fun c => c.reports_registerStep "value" value.display)
      refine hshow.bind (fun _ => ?_)
      exact reporting_modify (fun s => .refl s.console)
  induction stmts with
  | nil => exact reporting_pure ()
  | cons stmt stmts ih => exact (hstatement stmt).bind (fun _ => ih)

theorem reporting_runText (p : Pending) : Reporting (runText p) := by
  unfold runText
  refine Reporting.bind reporting_get (fun s => ?_)
  refine Reporting.bind (reporting_onConsole (fun c => .of_eq rfl rfl)) (fun _ => ?_)
  have hrun : Reporting (do return .ok (← runStatements p.stmts) :
      SessionM (Except SessionError Unit)) :=
    (reporting_runStatements p.stmts).bind (fun _ => reporting_pure _)
  refine Reporting.bind (hrun.tryCatch (fun e => reporting_pure _)) (fun outcome => ?_)
  refine Reporting.bind (reporting_modify (fun s => .refl s.console)) (fun _ => ?_)
  cases outcome with
  | error e => exact reporting_throw e
  | ok _ => exact reporting_onConsole (fun c => .of_eq rfl rfl)

theorem reporting_run : Reporting run := by
  have htexts : ∀ ps, Reporting (runTexts ps) := by
    intro ps
    induction ps with
    | nil => exact reporting_pure ()
    | cons p ps ih => exact (reporting_runText p).bind (fun _ => ih)
  exact reporting_get.bind (fun s => htexts s.pending)

theorem reporting_pop : Reporting pop := by
  unfold pop
  intro s
  rw [ends_bind, ends_get]
  cases s.results.getLast? with
  | none => exact ends_throw.2 (.refl s.console)
  | some result =>
    dsimp only
    rw [ends_bind, ends_set]
    exact ends_pure.2 (.refl s.console)

end Session

namespace Shell

variable {sh : Shell} {line : String}

theorem reporting_execute (text : String) (num : Int) : Session.Reporting (execute text num) := by
  unfold execute
  refine (Session.reporting_add text num).bind (fun _ => ?_)
  refine Session.reporting_run.bind (fun _ => Session.reporting_get.bind (fun s => ?_))
  split
  · exact Session.reporting_pure ()
  · refine Session.reporting_pop.bind (fun value => ?_)
    exact Session.reporting_onConsole (Console.reports_print rfl)

/-- **A line of source** prints nothing of the shell's own, and the shell goes on, unless something
unexpected is passed on. -/
theorem reports_feed (sh : Shell) (line : String) :
    sh.session.console.Reports (sh.feed line).2.session.console
      ∧ (sh.session.console.fatal = false →
        (sh.feed line).1 = .goesOn ∨ ∃ x, (sh.feed line).1 = .passes x) := by
  unfold feed
  rw [absorb_eq]
  cases completedBy sh.partialText line with
  | none => exact ⟨.refl _, fun _ => .inl rfl⟩
  | some text =>
    dsimp only
    have hrun := reporting_execute text ((sh.lineNum + 1 : Nat) : Int) sh.session
    rcases hexecute : runFrom (execute text ((sh.lineNum + 1 : Nat) : Int)) sh.session with
      ⟨e | _, s'⟩
    · have hreports := hrun.of_error hexecute
      have hsettle := s'.console.reports_settle e.raised
      have hexits : s'.console.fatal = false → (s'.console.settle e.raised).1 ≠ .exits :=
        fun hfatal => Console.settle_ne_exits hfatal e.raised
      unfold settle
      dsimp only
      rcases hs : s'.console.settle e.raised with ⟨verdict, c⟩
      rw [hs] at hsettle hexits
      refine ⟨?_, fun hfatal => ?_⟩
      · cases verdict with
        | suppressed | exits | passes => exact hreports.trans hsettle
      · cases verdict with
        | suppressed => exact .inl rfl
        | exits => exact absurd rfl (hexits (hreports.1.trans hfatal))
        | passes x => exact .inr ⟨x, rfl⟩
    · exact ⟨hrun.of_ok hexecute, fun _ => .inl rfl⟩

/-! ### Which lines are commands -/

/-- **A command of the shell**: `EOF` with anything behind it, or `help` or `exit` with nothing. -/
def isCommand (line : String) : Bool :=
  let word := String.ofList (line.toList.takeWhile isCommandChar)
  let alone : Bool := Text.trim (String.ofList (line.toList.dropWhile isCommandChar)) = ""
  word = "EOF" || (word = "help" || word = "exit") && alone

theorem command_of_not_isCommand (hline : Text.trim line ≠ "")
    (h : isCommand (expandHelp (Text.trim line)) = false) :
    sh.command line = sh.feed (expandHelp (Text.trim line)) := by
  unfold isCommand at h
  unfold command
  simp only [Bool.or_eq_false_iff, Bool.and_eq_false_iff, decide_eq_false_iff_not] at h
  obtain ⟨heof, hword⟩ := h
  rw [if_neg hline]
  dsimp only
  rw [if_neg heof]
  rcases hword with ⟨hhelp, hexit⟩ | halone
  · rw [if_neg hhelp, if_neg hexit]
  · rw [if_neg halone]
    split
    · rfl
    · split
      · rfl
      · rfl

/-- **A command** prints something of the shell's own, or nothing, and changes nothing else. -/
theorem command_of_isCommand (hline : Text.trim line ≠ "")
    (h : isCommand (expandHelp (Text.trim line)) = true) :
    (sh.command line).2 = sh ∨ ∃ text, (sh.command line).2 = sh.print (.text text) := by
  unfold isCommand at h
  unfold command
  simp only [Bool.or_eq_true, Bool.and_eq_true, decide_eq_true_eq] at h
  rw [if_neg hline]
  dsimp only
  rcases h with heof | ⟨hhelp | hexit, halone⟩
  · rw [heof, if_neg (by decide), if_neg (by decide), if_pos rfl]
    exact .inr ⟨_, rfl⟩
  · rw [hhelp, if_pos rfl, if_pos halone]
    exact .inr ⟨_, rfl⟩
  · rw [hexit, if_neg (by decide), if_pos rfl, if_pos halone]
    exact .inl rfl

theorem lineNum_feed (sh : Shell) (line : String) : (sh.feed line).2.lineNum = sh.lineNum + 1 := by
  unfold feed
  rw [absorb_eq]
  cases completedBy sh.partialText line with
  | none => rfl
  | some text =>
    dsimp only
    rcases runFrom (execute text ((sh.lineNum + 1 : Nat) : Int)) sh.session with ⟨e | _, s'⟩
    · unfold settle
      dsimp only
      rcases s'.console.settle e.raised with ⟨_ | _ | _, c⟩
      · rfl
      · rfl
      · rfl
    · rfl

/-- **Commands are told from source by the line alone.**  A command is not counted as a line. -/
theorem command_eq_feed_iff (hline : Text.trim line ≠ "") :
    sh.command line = sh.feed (expandHelp (Text.trim line))
      ↔ isCommand (expandHelp (Text.trim line)) = false := by
  refine ⟨fun h => ?_, command_of_not_isCommand hline⟩
  by_contra hcommand
  have hnum := lineNum_feed sh (expandHelp (Text.trim line))
  rw [← h] at hnum
  have hleft : (sh.command line).2 = sh ∨ ∃ text, (sh.command line).2 = sh.print (.text text) :=
    command_of_isCommand hline (by simpa using hcommand)
  rcases hleft with heq | ⟨text, heq⟩
  · rw [heq] at hnum
    omega
  · rw [heq] at hnum
    have hprint : (sh.print (.text text)).lineNum = sh.lineNum := rfl
    omega

/-! ### Lines behind an open block -/

/-- **The states that lines reach**, from a fresh shell on. -/
inductive Reached (console : Console) (g : Grouping) : Shell → Prop
  | start : Reached console g (.start console g)
  | command {sh : Shell} (h : Reached console g sh) (line : String) :
      Reached console g (sh.command line).2

/-- A command leaves what is held as it was, and a line of source leaves it as `feed` does. -/
theorem command_cases (sh : Shell) (line : String) :
    (sh.command line).2 = sh ∨ (∃ text, (sh.command line).2 = sh.print (.text text))
      ∨ ∃ source, (sh.command line).2 = (sh.feed source).2 := by
  by_cases hline : Text.trim line = ""
  · refine .inl ?_
    rw [command, if_pos hline]
  · cases hcommand : isCommand (expandHelp (Text.trim line)) with
    | true => exact (command_of_isCommand hline hcommand).imp id Or.inl
    | false => exact .inr (.inr ⟨_, by rw [command_of_not_isCommand hline hcommand]⟩)

/-- Between two lines the prompt shows whether a text is held, and errors do not end the
program. -/
theorem Reached.holds {console : Console} {g : Grouping} (h : Reached console g sh) :
    sh.Holds ∧ sh.session.console.fatal = false := by
  induction h with
  | start => exact ⟨holds_of_primary rfl rfl, rfl⟩
  | @command sh h line ih =>
    obtain ⟨hholds, hfatal⟩ := ih
    rcases command_cases sh line with heq | ⟨text, heq⟩ | ⟨source, heq⟩
    · rw [heq]
      exact ⟨hholds, hfatal⟩
    · rw [heq]
      exact ⟨⟨hholds.partialText_iff, hholds.prompt_iff⟩, hfatal⟩
    · rw [heq]
      exact ⟨holds_feed sh source, (reports_feed sh source).1.1.trans hfatal⟩

theorem expandHelp_of_head? (h : line.toList.head? = some '?') :
    ∃ rest, line = "?" ++ rest ∧ expandHelp line = "help " ++ rest := by
  obtain ⟨rest, hrest⟩ := List.head?_eq_some_iff.1 h
  refine ⟨String.ofList rest, ?_, ?_⟩
  · rw [← String.toList_inj, hrest]
    simp
  · unfold expandHelp
    rw [hrest]
    rfl

theorem expandHelp_of_head?_ne (h : line.toList.head? ≠ some '?') : expandHelp line = line := by
  unfold expandHelp
  split
  next rest hrest =>
    rw [hrest] at h
    exact absurd rfl h
  · rfl

theorem expandHelp_ne (h : line ≠ "") : expandHelp line ≠ "" := by
  by_cases hhead : line.toList.head? = some '?'
  · obtain ⟨rest, -, hexpand⟩ := expandHelp_of_head? hhead
    rw [hexpand]
    simp
  · rwa [expandHelp_of_head?_ne hhead]

theorem trimEnd_expandHelp (h : isCommand (expandHelp (Text.trim line)) = false) :
    Text.trimEnd (expandHelp (Text.trim line)) = expandHelp (Text.trim line) := by
  have htrim := Text.trimEnd_trim line
  by_cases hhead : (Text.trim line).toList.head? = some '?'
  · obtain ⟨rest, hline, hexpand⟩ := expandHelp_of_head? hhead
    rw [hexpand] at h ⊢
    rw [hline, Text.trimEnd_append] at htrim
    by_cases hblank : Text.trimEnd rest = ""
    · -- a `?` by itself is short for a command
      rw [if_pos hblank] at htrim
      have hnil : rest = "" := by
        have hmark : Text.trimEnd "?" = "?" ++ "" := by decide
        rw [hmark] at htrim
        exact (String.append_right_inj "?").1 htrim.symm
      rw [hnil] at h
      exact absurd h (by decide)
    · rw [if_neg hblank] at htrim
      rw [Text.trimEnd_append, if_neg hblank, (String.append_right_inj "?").1 htrim]
  · rw [expandHelp_of_head?_ne hhead]
    exact htrim

/-- **A line of source joins the text that is held.**  If a block is still open, both are held and
nothing else happens; if not, both are run as one text.  The shell goes on, unless something
unexpected is passed on, and prints nothing of its own. -/
structure Joins (sh : Shell) (source : String) (answer : Reply × Shell) : Prop where
  eq_feed : answer = sh.feed source
  opens : 0 < openBraces (sh.partialText ++ source) →
    answer = (.goesOn, { sh with
      partialText := sh.partialText ++ source ++ "\n"
      lineNum := sh.lineNum + 1
      prompt := .secondary })
  closes : ¬ 0 < openBraces (sh.partialText ++ source) →
    sh.absorb source = (some (sh.partialText ++ source), { sh with
      partialText := ""
      lineNum := sh.lineNum + 1
      prompt := .primary })
  goesOn : answer.1 = .goesOn ∨ ∃ x, answer.1 = .passes x
  reports : sh.session.console.Reports answer.2.session.console

theorem joins_feed {source : String} (hsource : Text.trimEnd source = source) (hne : source ≠ "")
    (hfatal : sh.session.console.fatal = false) : sh.Joins source (sh.feed source) := by
  have hjoined : Text.trimEnd (sh.partialText ++ source) = sh.partialText ++ source := by
    rw [Text.trimEnd_append, hsource, if_neg hne]
  have hjoined_ne : sh.partialText ++ source ≠ "" := by
    simp [hne]
  obtain ⟨hreports, hreply⟩ := reports_feed sh source
  refine ⟨rfl, fun hopen => ?_, fun hclosed => ?_, hreply hfatal, hreports⟩
  · have hnone : completedBy sh.partialText source = none := by
      rw [completedBy, hjoined, if_pos (.inl hopen)]
    rw [feed, absorb_eq, hnone, heldAfter, hjoined, if_pos hopen, if_pos hopen]
  · rw [absorb_eq, completedBy, heldAfter, hjoined, if_neg hclosed, if_neg hclosed,
      if_neg (not_or.2 ⟨hclosed, hjoined_ne⟩)]

/-- **While a block is open, lines belong to it**, but for the commands of the shell. -/
theorem command_of_held {console : Console} {g : Grouping} (h : Reached console g sh)
    (hheld : sh.partialText ≠ "") (hline : Text.trim line ≠ "") :
    let source := expandHelp (Text.trim line)
    0 < openBraces sh.partialText ∧ sh.prompt = .secondary
      ∧ ((Text.trim line).toList.head? ≠ some '?' → source = Text.trim line)
      ∧ (sh.command line = sh.feed source ↔ isCommand source = false)
      ∧ (isCommand source = false → sh.Joins source (sh.command line)) := by
  obtain ⟨hholds, hfatal⟩ := h.holds
  have hopen := hholds.partialText_iff.1 hheld
  refine ⟨hopen, hholds.prompt_iff.1 hopen, expandHelp_of_head?_ne, command_eq_feed_iff hline, ?_⟩
  intro hsource
  rw [command_of_not_isCommand hline hsource]
  exact joins_feed (trimEnd_expandHelp hsource) (expandHelp_ne hline) hfatal

/-- Behind `{`, a line that assigns to the name `help` belongs to the block. -/
theorem command_of_held_help :
    let sh := ((start {} .byPrecedence).command "\x7b").2
    Reached {} .byPrecedence sh ∧ sh.partialText = "\x7b\n"
      ∧ Text.trim " help = 2;" = "help = 2;" ∧ isCommand "help = 2;" = false
      ∧ sh.Joins "help = 2;" (sh.command " help = 2;")
      ∧ (sh.command " help = 2;").2.partialText = "\x7b\nhelp = 2;\n" := by
  intro sh
  have hreached : Reached {} .byPrecedence sh := .command .start "\x7b"
  have hheld : sh.partialText = "\x7b\n" := by decide +kernel
  have hline : Text.trim " help = 2;" = "help = 2;" := by decide +kernel
  have hsource : isCommand "help = 2;" = false := by decide +kernel
  have hne : sh.partialText ≠ "" := by
    rw [hheld]
    decide
  have hblank : Text.trim " help = 2;" ≠ "" := by
    rw [hline]
    decide
  have hjoins := (command_of_held hreached hne hblank).2.2.2.2
  rw [hline, expandHelp_of_head?_ne (by decide)] at hjoins
  refine ⟨hreached, hheld, hline, hsource, hjoins hsource, ?_⟩
  have hopen : 0 < openBraces (sh.partialText ++ "help = 2;") := by
    rw [hheld]
    decide +kernel
  rw [(hjoins hsource).opens hopen, hheld]
  rfl

/-- Behind `{`, the commands of the shell are still commands: `EOF` and `exit` stop it, and `help`
prints its text, where a line of source would be held.  And a `?` in front of a line is still read
as `help`. -/
theorem not_command_eq_feed :
    let sh := ((start {} .byPrecedence).command "\x7b").2
    Reached {} .byPrecedence sh ∧ sh.partialText = "\x7b\n"
      ∧ (sh.command "EOF").1 = .stops ∧ (sh.command "exit").1 = .stops
      ∧ (sh.command "help").2.session.console.log
        = sh.session.console.log ++ [.text helpText]
      ∧ (sh.command "? a").2.partialText = "\x7b\nhelp  a\n"
      ∧ ∀ line ∈ ["EOF", "exit", "help", "? a"], Text.trim line = line
        ∧ (sh.feed line).1 = .goesOn ∧ (sh.feed line).2.session = sh.session
        ∧ (sh.feed line).2.partialText = "\x7b\n" ++ line ++ "\n" := by
  intro sh
  have hheld : sh.partialText = "\x7b\n" := by decide +kernel
  have hlines : ∀ line ∈ ["EOF", "exit", "help", "? a"], Text.trim line = line
      ∧ completedBy "\x7b\n" line = none
      ∧ heldAfter "\x7b\n" line = "\x7b\n" ++ line ++ "\n" := by
    decide +kernel
  refine ⟨.command .start "\x7b", hheld, by decide +kernel, by decide +kernel, ?_, ?_, ?_⟩
  · rfl
  · decide +kernel
  · intro line hline
    obtain ⟨htrim, hnone, hafter⟩ := hlines line hline
    rw [← hheld] at hnone
    obtain ⟨hreply, hsession⟩ := feed_of_none hnone
    refine ⟨htrim, hreply, hsession, ?_⟩
    rw [partialText_feed, hheld]
    exact hafter

end Shell

end BlockLang
