import BlockLang.Command
import BlockLang.Proofs.Session.Division
import Mathlib

/-!
# What running a file prints

A file is run as a whole.  If a chunk of it is not accepted, or a statement has no value,
one error is printed, and no value; only if all statements have values are those of the
expressions printed, in the order of the file.  Warnings come in front, since the chunks
are read before anything is evaluated.
-/

namespace BlockLang

open StepM

theorem Chunk.areStatements_statements (g : Grouping) (chunks : List Chunk) :
    Tree.areStatements (chunks.flatMap (statements g)) = true := by
  induction chunks with
  | nil => rfl
  | cons c chunks ih =>
    rw [List.flatMap_cons, Tree.areStatements_append, ih, Bool.and_true, statements]
    split
    next stmts hparse => exact areStatements_of_parseProgram hparse
    · rfl

namespace Console

theorem settle_fatal {c : Console} (h : c.fatal = true) (r : Report) :
    c.settle (.reported r)
      = (.exits, { c with errors := c.errors + 1, log := c.log ++ [.error c.sites r] }) := by
  simp [settle, reportOf, report, print, h]

theorem foldl_print (vs : List Value) (c : Console) :
    vs.foldl (fun c v => c.print (.value v)) c = { c with log := c.log ++ vs.map .value } := by
  induction vs generalizing c with
  | nil => simp
  | cons v vs ih =>
    rw [List.foldl_cons, ih]
    simp [print]

end Console

/-- The values of those statements that are expressions. -/
def expressionValues (stmts : List Tree) (r : ProgramRun) : List Value :=
  ((stmts.zip r.values).filter (fun p => p.1.isExpression)).map Prod.snd

/-- **Something failed**: after warnings one error was printed, and the program exits with `1`. -/
def Outcome.Fails (out : Outcome) (warnings : List Event) : Prop :=
  ∃ sites report, out = { log := warnings ++ [.error sites report], ending := .exit 1 }

namespace Command

/-- The session in which a file is run without a trace. -/
abbrev fileSession (path : String) (g : Grouping) : Session :=
  .create {} path false g

variable {path : String} {g : Grouping} {data : ByteArray} {text : String}

theorem runFrom_load {s : Session} (hpath : s.path ≠ SessionError.interactivePath)
    (hnull : '\x00' ∉ s.path.toList) (htext : Text.decodeUtf8 data = .ok text) :
    runFrom (Session.load false (.bytes data)) s
      = runFrom (Session.addChunks (Chunk.ofLines (Text.lines text))) s := by
  have hcontains : ¬ s.path.toList.contains '\x00' = true := by simpa using hnull
  unfold Session.load
  rw [runFrom_bind, runFrom_get]
  dsimp only
  rw [if_neg hpath, if_neg hcontains, htext]

/-- **Opening a file** leaves a session that printed warnings and has run nothing. -/
structure Opens (path : String) (g : Grouping) (content : FileContent)
    (outcome : Except SessionError Unit) (ws : List Event) (s : Session) : Prop where
  load_eq : runFrom (Session.load false content) (fileSession path g) = (outcome, s)
  warnings : ∀ e ∈ ws, e.isWarning = true
  prints : (fileSession path g).console.Prints ws s.console
  results_eq : s.results = []
  scopes_eq : s.scopes = .root

/-- A file that can be read is opened by adding its chunks, up to one that is refused. -/
theorem exists_opens (hpath : path ≠ SessionError.interactivePath) (hnull : '\x00' ∉ path.toList)
    (htext : Text.decodeUtf8 data = .ok text)
    (hfit : ∀ c ∈ Chunk.ofLines (Text.lines text), DigitsFit c.text) :
    ∃ outcome ws s, Opens path g (.bytes data) outcome ws s
      ∧ (((∀ c ∈ Chunk.ofLines (Text.lines text), ∃ ts, parseProgram c.text g = .ok ts)
            ∧ outcome = .ok ()
            ∧ s.pending = (Chunk.ofLines (Text.lines text)).map (Pending.ofChunk g))
        ∨ ∃ c ∈ Chunk.ofLines (Text.lines text), ∃ e, parseProgram c.text g = .error (.refused e)
            ∧ outcome = .error (.parse (.refused e))) := by
  have hload := runFrom_load (s := fileSession path g) hpath hnull htext
  obtain ⟨s, ws, hws, hprints, hresults, hscopes, hcases⟩ := Session.exists_addChunks
    (s := fileSession path g) (Chunk.ofLines (Text.lines text)) rfl
    (Chunk.nodup_num_ofLines (Text.lines text)) hfit
  rcases hcases with ⟨hall, hadd, hpending⟩ | ⟨c, hc, e, hrefused, hadd⟩
  · exact ⟨_, ws, s, ⟨hload.trans hadd, hws, hprints, hresults, hscopes⟩,
      .inl ⟨hall, rfl, hpending⟩⟩
  · exact ⟨_, ws, s, ⟨hload.trans hadd, hws, hprints, hresults, hscopes⟩,
      .inr ⟨c, hc, e, hrefused, rfl⟩⟩

theorem runFrom_printValues (s : Session) :
    runFrom (do
      let values := (← get).values true
      Session.onConsole (fun c => values.foldl (fun c v => c.print (.value v)) c)) s
      = (.ok (), { s with console := { s.console with
          log := s.console.log ++ (s.values true).map .value } }) := by
  rw [runFrom_bind, runFrom_get]
  dsimp only
  rw [Session.runFrom_onConsole, Console.foldl_print]

variable {content : FileContent} {chunks : List Chunk} {s : Session} {ws : List Event}

/-- **The work on a file** whose chunks are all pending stops where their statements do, and prints
the values of the expressions where they come to their end. -/
theorem Opens.exists_fileWork (h : Opens path g content (.ok ()) ws s)
    (hpending : s.pending = chunks.map (Pending.ofChunk g)) (hnums : (chunks.map Chunk.num).Nodup) :
    let stmts := chunks.flatMap (Chunk.statements g)
    let r := ProgramRun.ofStatements .root stmts
    ∃ s', runFrom (fileWork content) (fileSession path g) = (r.ending, s')
      ∧ (fileSession path g).console.Prints
          (ws ++ if r.fault = none then (expressionValues stmts r).map .value else [])
          s'.console := by
  have hnums' : (s.pending.map Pending.num).Nodup := by
    rw [hpending, List.map_map]
    exact hnums
  have hstmts : s.pending.flatMap Pending.stmts = chunks.flatMap (Chunk.statements g) := by
    rw [hpending, List.flatMap_map]
    rfl
  obtain ⟨s', hrun, hran, -⟩ := Session.exists_ran_run hnums'
  obtain ⟨hending, hrecords⟩ := LineRun.ofLines_eq_ofStatements s.scopes s.pending
  rw [hstmts, h.scopes_eq] at hending hrecords
  rw [h.scopes_eq] at hrun hran
  have hprints := hran.prints_of_trace h.prints rfl
  dsimp only
  rw [fileWork, runFrom_bind, h.load_eq]
  dsimp only
  rw [runFrom_bind, hrun, hending, ProgramRun.ending]
  cases hfault : (ProgramRun.ofStatements .root (chunks.flatMap (Chunk.statements g))).fault with
  | some fault =>
    refine ⟨s', rfl, ?_⟩
    rw [if_neg (Option.some_ne_none fault), List.append_nil]
    exact hprints
  | none =>
    have hvalues : s'.values true = expressionValues (chunks.flatMap (Chunk.statements g))
        (ProgramRun.ofStatements .root (chunks.flatMap (Chunk.statements g))) := by
      rw [Session.values, hran.results_eq, h.results_eq, List.nil_append, hrecords hfault]
      rfl
    refine ⟨_, runFrom_printValues s', ?_⟩
    rw [hvalues, if_pos rfl]
    exact hprints.trans ⟨rfl, rfl, rfl, rfl⟩

theorem fails_of_error {e : SessionError} {report : Report}
    (hwork : runFrom (fileWork content) (fileSession path g) = (.error e, s))
    (hprints : (fileSession path g).console.Prints ws s.console)
    (hraised : e.raised = .reported report) : (runFile path content g false).Fails ws := by
  have hfatal : s.console.fatal = true := hprints.fatal_eq
  refine ⟨s.console.sites, report, ?_⟩
  rw [runFile, hwork]
  dsimp only
  rw [settle, hraised, Console.settle_fatal hfatal, hprints.log_eq]
  rfl

/-- **A file whose chunks are all pending** fails, or prints the values of its expressions. -/
theorem Opens.runFile_spec (h : Opens path g content (.ok ()) ws s)
    (hpending : s.pending = chunks.map (Pending.ofChunk g)) (hnums : (chunks.map Chunk.num).Nodup) :
    let stmts := chunks.flatMap (Chunk.statements g)
    let r := ProgramRun.ofStatements .root stmts
    (r.fault ≠ none → (runFile path content g false).Fails ws)
      ∧ (r.fault = none → runFile path content g false = {
          log := ws ++ (expressionValues stmts r).map .value
          ending := .exit 0 }) := by
  obtain ⟨s', hwork, hprints⟩ := h.exists_fileWork hpending hnums
  obtain ⟨-, herror⟩ := ProgramRun.ofStatements_spec (s := .root) (by decide)
    (Chunk.areStatements_statements g chunks)
  constructor
  · intro hfault
    obtain ⟨fault, hsome⟩ := Option.ne_none_iff_exists'.1 hfault
    obtain ⟨e, rfl, -⟩ := herror fault hsome
    rw [ProgramRun.ending, hsome] at hwork
    rw [if_neg hfault, List.append_nil] at hprints
    exact fails_of_error hwork hprints rfl
  · intro hfault
    rw [ProgramRun.ending, hfault] at hwork
    rw [if_pos hfault] at hprints
    rw [runFile, hwork]
    dsimp only
    rw [hprints.log_eq]
    rfl

/-- **Files are run whole.**  Let the arguments ask for a file to be run without a trace, and let it
be one that can be read, with no number that is too long.  If a chunk of it is not accepted, the
work stops before anything is evaluated, and fails.  If all are accepted, their statements are
evaluated in order in one root frame; if one has no value, the work fails, and if all have values,
those of the expressions are printed in order and the program exits with `0`. -/
theorem run_file {arguments : List String} (read : String → FileContent) (lines : List String)
    (hrequest : Request.ofArguments arguments = .run (some path) g false)
    (hpath : path ≠ SessionError.interactivePath) (hnull : '\x00' ∉ path.toList)
    (hread : read path = .bytes data) (htext : Text.decodeUtf8 data = .ok text)
    (hfit : ∀ c ∈ Chunk.ofLines (Text.lines text), DigitsFit c.text) :
    let chunks := Chunk.ofLines (Text.lines text)
    let stmts := chunks.flatMap (Chunk.statements g)
    let r := ProgramRun.ofStatements .root stmts
    let out := run arguments read lines
    ∃ warnings : List Event, (∀ e ∈ warnings, e.isWarning = true)
      ∧ ((∃ c ∈ chunks, ∃ fault, parseProgram c.text g = .error fault) →
        out.Fails warnings ∧ ∃ fault s',
          runFrom (Session.load false (read path)) (fileSession path g)
              = (.error (.parse fault), s')
            ∧ runFrom (fileWork (read path)) (fileSession path g) = (.error (.parse fault), s')
            ∧ s'.results = [] ∧ s'.scopes = .root)
      ∧ ((∀ c ∈ chunks, ∃ ts, parseProgram c.text g = .ok ts) →
        (r.fault ≠ none → out.Fails warnings)
          ∧ (r.fault = none → out = {
              log := warnings ++ (expressionValues stmts r).map .value
              ending := .exit 0 })) := by
  have hrun : run arguments read lines = runFile path (.bytes data) g false := by
    rw [run, hrequest, ← hread]
  obtain ⟨outcome, ws, s, hopens, hcases⟩ := exists_opens (g := g) hpath hnull htext hfit
  dsimp only
  rw [hrun, hread]
  refine ⟨ws, hopens.warnings, ?_⟩
  rcases hcases with ⟨hall, rfl, hpending⟩ | ⟨c, hc, e, hrefused, rfl⟩
  · constructor
    · intro ⟨c, hc, fault, hfault⟩
      obtain ⟨ts, hts⟩ := hall c hc
      exact absurd (hts.symm.trans hfault) (by simp)
    · intro _
      exact hopens.runFile_spec hpending (Chunk.nodup_num_ofLines (Text.lines text))
  · constructor
    · intro _
      have hwork : runFrom (fileWork (.bytes data)) (fileSession path g)
          = (.error (.parse (.refused e)), s) := by
        rw [fileWork, runFrom_bind, hopens.load_eq]
      exact ⟨fails_of_error hwork hopens.prints rfl, .refused e, s, hopens.load_eq, hwork,
        hopens.results_eq, hopens.scopes_eq⟩
    · intro hall
      obtain ⟨ts, hts⟩ := hall c hc
      exact absurd (hrefused.symm.trans hts) (by simp)

/-- `let a=2;` on the first line, and the block `{` and `a*3}` on two more. -/
def sampleText : String :=
  "let a=2;\r\n\x7b\na*3\x7d\n"

/-- The bytes of `sampleText`. -/
def sampleData : ByteArray :=
  ⟨#[108, 101, 116, 32, 97, 61, 50, 59, 13, 10, 123, 10, 97, 42, 51, 125, 10]⟩

/-- The value of the block is printed, and nothing else but warnings. -/
theorem run_file_sample :
    Request.ofArguments ["a.kial"] = .run (some "a.kial") .byPrecedence false
      ∧ Text.decodeUtf8 sampleData = .ok sampleText
      ∧ (∀ c ∈ Chunk.ofLines (Text.lines sampleText), DigitsFit c.text)
      ∧ ∃ warnings : List Event, (∀ e ∈ warnings, e.isWarning = true)
        ∧ run ["a.kial"] (fun _ => .bytes sampleData) []
          = { log := warnings ++ [.value (.number 6)], ending := .exit 0 } := by
  have hrequest : Request.ofArguments ["a.kial"] = .run (some "a.kial") .byPrecedence false := by
    decide +kernel
  have htext : Text.decodeUtf8 sampleData = .ok sampleText := by cbv
  have hfit : ∀ c ∈ Chunk.ofLines (Text.lines sampleText), DigitsFit c.text := by decide +kernel
  have hchunks : Chunk.ofLines (Text.lines sampleText)
      = [{ text := "let a=2;", num := 1 }, { text := "\x7b\na*3\x7d", num := 2 }] := by
    decide +kernel
  have hlet : parseProgram "let a=2;" .byPrecedence = .ok [.initialization "a" (.number 2)] :=
    parseProgram_byPrecedence_iff.2 ⟨.initialization "a" (.leaf (.of .number "2") _ rfl) .done,
      rfl, by decide⟩
  have hblock : parseProgram "\x7b\na*3\x7d" .byPrecedence
      = .ok [.block [.operation (.name "a") (.number 3) .mul]] :=
    parseProgram_byPrecedence_iff.2 ⟨.bare (.block (.bare (.operation
      (.leaf (.of .ident "a") _ rfl) .mul (.leaf (.of .number "3") _ rfl)) .done)) .done,
      rfl, by decide⟩
  have hstmts : (Chunk.ofLines (Text.lines sampleText)).flatMap (Chunk.statements .byPrecedence)
      = [.initialization "a" (.number 2), .block [.operation (.name "a") (.number 3) .mul]] := by
    simp [hchunks, Chunk.statements, hlet, hblock]
  obtain ⟨warnings, hwarnings, -, hall⟩ := run_file (fun _ => .bytes sampleData) [] hrequest
    (by decide) (by decide) rfl htext hfit
  rw [hstmts] at hall
  refine ⟨hrequest, htext, hfit, warnings, hwarnings, ?_⟩
  refine (hall ?_).2 (by cbv)
  rw [hchunks]
  intro c hc
  rcases List.mem_pair.1 hc with rfl | rfl
  · exact ⟨_, hlet⟩
  · exact ⟨_, hblock⟩

end Command

end BlockLang
