import BlockLang.Eval.Program
import BlockLang.Session

/-!
# What a session does

A session that runs a line does what `ProgramRun.ofStatements` says: it evaluates the
statements in order up to the first without a value, and the results and the scopes are
what they were with this added,

    results' = results ++ stmts.zip run.values,    scopes' = run.scopes.

`LineRun.ofLines` runs lines one after the other in this way, each from the scopes that
the one before left.  A call of `Session.run` carries that list out up to the first line
that does not come to its end, and leaves the lines behind it pending.

A run prints nothing but its values, and these only where steps are traced.
-/

namespace BlockLang

open StepM

/-! ### The console -/

/-- Whether an event is a warning. -/
def Event.isWarning : Event → Bool
  | warning .. => true
  | _ => false

namespace Console

variable {c c' : Console}

/-- No line is being worked on. -/
def AtRest (c : Console) : Prop :=
  ∀ site ∈ c.sites, site.line = none

theorem setSite_setSite {x y : Site} (h : x.path = y.path) (sites : List Site) :
    setSite x (setSite y sites) = setSite x sites := by
  induction sites with
  | nil => simp [setSite, h]
  | cons site sites ih =>
    by_cases hs : site.path = y.path
    · simp [setSite, hs, h]
    · have hs' : site.path ≠ x.path := h ▸ hs
      simp [setSite, hs, hs', ih]

theorem mem_setSite {x site : Site} {sites : List Site} (h : site ∈ setSite x sites) :
    site = x ∨ site ∈ sites := by
  induction sites with
  | nil => exact .inl (List.mem_singleton.1 h)
  | cons y sites ih =>
    rw [setSite] at h
    split at h
    · rcases List.mem_cons.1 h with rfl | h
      · exact .inl rfl
      · exact .inr (List.mem_cons_of_mem y h)
    · rcases List.mem_cons.1 h with rfl | h
      · exact .inr List.mem_cons_self
      · exact (ih h).imp_right (List.mem_cons_of_mem y)

theorem AtRest.registerFile (h : c.AtRest) (path : String) : (c.registerFile path).AtRest := by
  intro site hsite
  rcases mem_setSite hsite with rfl | hsite
  · rfl
  · exact h site hsite

theorem registerFile_registerLine (c : Console) (path line : String) (num : Int) :
    (c.registerLine path line num).registerFile path = c.registerFile path :=
  have hpath : ({ path } : Site).path = ({ path, line := some (line, num) } : Site).path := rfl
  congrArg (fun sites => { c with sites }) (setSite_setSite hpath c.sites)

theorem registerStep_of_trace (h : c.trace = false) (label text : String) :
    c.registerStep label text = c := by
  rw [registerStep, h]
  rfl

/-- What is printed of some values as they are made. -/
def valueSteps (c : Console) (vs : List Value) : List Event :=
  if c.trace then vs.map (fun v => .step "value" v.display) else []

@[simp] theorem valueSteps_nil (c : Console) : c.valueSteps [] = [] := by simp [valueSteps]

theorem valueSteps_append (c : Console) (vs ws : List Value) :
    c.valueSteps (vs ++ ws) = c.valueSteps vs ++ c.valueSteps ws := by
  unfold valueSteps
  split
  · exact List.map_append
  · rfl

theorem valueSteps_of_trace (h : c.trace = false) (vs : List Value) : c.valueSteps vs = [] := by
  rw [valueSteps, h]
  rfl

theorem foldl_registerStep (vs : List Value) (c : Console) :
    vs.foldl (fun c v => c.registerStep "value" v.display) c
      = { c with log := c.log ++ c.valueSteps vs } := by
  induction vs generalizing c with
  | nil => simp
  | cons v vs ih =>
    rw [List.foldl_cons, ih]
    cases htrace : c.trace with
    | false => simp [registerStep, valueSteps, htrace]
    | true => simp [registerStep, valueSteps, htrace, print]

/-- **The events are printed**, and apart from that only the sites change. -/
structure Prints (c : Console) (es : List Event) (c' : Console) : Prop where
  fatal_eq : c'.fatal = c.fatal
  trace_eq : c'.trace = c.trace
  errors_eq : c'.errors = c.errors
  log_eq : c'.log = c.log ++ es

theorem Prints.refl (c : Console) : c.Prints [] c :=
  ⟨rfl, rfl, rfl, (List.append_nil c.log).symm⟩

theorem Prints.trans {es es' : List Event} {c'' : Console} (h : c.Prints es c')
    (h' : c'.Prints es' c'') : c.Prints (es ++ es') c'' where
  fatal_eq := h'.fatal_eq.trans h.fatal_eq
  trace_eq := h'.trace_eq.trans h.trace_eq
  errors_eq := h'.errors_eq.trans h.errors_eq
  log_eq := by rw [h'.log_eq, h.log_eq, List.append_assoc]

theorem Prints.valueSteps_eq {es : List Event} (h : c.Prints es c') (vs : List Value) :
    c'.valueSteps vs = c.valueSteps vs := by
  rw [valueSteps, valueSteps, h.trace_eq]

/-- **Only warnings are printed**, and nothing else changes. -/
def Warns (c c' : Console) : Prop :=
  ∃ ws : List Event, (∀ e ∈ ws, e.isWarning = true) ∧ c' = { c with log := c.log ++ ws }

theorem Warns.refl (c : Console) : c.Warns c :=
  ⟨[], fun e he => absurd he List.not_mem_nil, by rw [List.append_nil]⟩

theorem Warns.trans {c'' : Console} (h : c.Warns c') (h' : c'.Warns c'') : c.Warns c'' := by
  obtain ⟨ws, hws, rfl⟩ := h
  obtain ⟨ws', hws', rfl⟩ := h'
  refine ⟨ws ++ ws', fun e he => ?_, by rw [List.append_assoc]⟩
  exact (List.mem_append.1 he).elim (hws e) (hws' e)

theorem Warns.trace_eq (h : c.Warns c') : c'.trace = c.trace := by
  obtain ⟨ws, -, rfl⟩ := h
  rfl

theorem warns_warn (c : Console) (r : Report) : c.Warns (c.warn r) :=
  ⟨[.warning c.location r], fun e he => by rw [List.mem_singleton.1 he]; rfl, rfl⟩

theorem warns_foldl {α : Type} {f : Console → α → Console}
    (hf : ∀ (c : Console) (a : α), c.trace = false → c.Warns (f c a)) (as : List α)
    (hc : c.trace = false) :
    c.Warns (as.foldl f c) := by
  induction as generalizing c with
  | nil => exact .refl c
  | cons a as ih =>
    have ha := hf c a hc
    exact ha.trans (ih (ha.trace_eq.trans hc))

end Console

/-! ### Running statements -/

/-- Why a session stops where a source is not run to its end. -/
def ProgramFault.toSession : ProgramFault → SessionError
  | .parse fault => .parse fault
  | .eval fault => .eval fault

/-- How a session goes on from what a source came to. -/
def ProgramRun.ending (r : ProgramRun) : Except SessionError Unit :=
  match r.fault with
  | none => .ok ()
  | some fault => .error fault.toSession

namespace Session

variable {s s' : Session}

@[simp] theorem runFrom_onConsole (f : Console → Console) (s : Session) :
    runFrom (onConsole f) s = (.ok (), { s with console := f s.console }) := rfl

/-- The session after the statements of a text. -/
def ran (s : Session) (stmts : List Tree) : Session :=
  let r := ProgramRun.ofStatements s.scopes stmts
  { s with
    scopes := r.scopes
    results := s.results ++ stmts.zip r.values
    console := { s.console with log := s.console.log ++ s.console.valueSteps r.values } }

theorem runFrom_runStatement (t : Tree) (s : Session) :
    runFrom (runStatement t) s = match runFrom (Eval.evaluate 0 t) s.scopes with
      | (.error fault, scopes) => (.error (.eval fault), { s with scopes })
      | (.ok v, scopes) => (.ok (), { s with
          scopes
          console := s.console.registerStep "value" v.display
          results := s.results ++ [(t, v)] }) := by
  unfold runStatement
  rw [runFrom_bind, runFrom_get]
  dsimp only
  rcases runFrom (Eval.evaluate 0 t) s.scopes with ⟨fault | v, scopes⟩
  · rfl
  · rfl

/-- **Statements are run as a source is**, and each value is kept with its statement. -/
theorem runFrom_runStatements (stmts : List Tree) (s : Session) :
    runFrom (runStatements stmts) s
      = ((ProgramRun.ofStatements s.scopes stmts).ending, s.ran stmts) := by
  induction stmts generalizing s with
  | nil => simp [runStatements, ran, ProgramRun.ofStatements, ProgramRun.ending]
  | cons t ts ih =>
    rw [runStatements, runFrom_bind, runFrom_runStatement, ran, ProgramRun.ofStatements]
    rcases runFrom (Eval.evaluate 0 t) s.scopes with ⟨fault | v, scopes⟩
    · simp [ProgramRun.ending, ProgramFault.toSession]
    · dsimp only
      rw [ih]
      simp [ran, ProgramRun.ending, ← Console.foldl_registerStep]

/-- **A text is no longer pending after it was run**, however it ends. -/
theorem runFrom_runText (p : Pending) (s : Session) :
    runFrom (runText p) s =
      let s' := { s with console := s.console.registerLine s.path p.text p.num }.ran p.stmts
      let s' := { s' with pending := s.pending.filter (fun q => q.num != p.num) }
      let ending := (ProgramRun.ofStatements s.scopes p.stmts).ending
      (ending, match ending with
        | .ok () => { s' with console := s'.console.registerFile s.path }
        | .error _ => s') := by
  unfold runText
  simp only [runFrom_bind, runFrom_get, runFrom_onConsole, runFrom_tryCatch, runFrom_runStatements]
  rcases (ProgramRun.ofStatements s.scopes p.stmts).ending with e | _
  · rfl
  · rfl

end Session

/-! ### Running lines -/

/-- A line that was run, and what it came to. -/
structure LineRun where
  line : Pending
  run : ProgramRun

namespace LineRun

/-- The values of lines in order. -/
def values (ls : List LineRun) : List Value :=
  ls.flatMap (fun l => l.run.values)

/-- The statements of a line that have values, with their values. -/
def records (l : LineRun) : List (Tree × Value) :=
  l.line.stmts.zip l.run.values

/-- **Lines run one after the other**, each from the scopes that the one before left, whether it
came to its end or not. -/
def ofLines (s : Scopes) : List Pending → List LineRun
  | [] => []
  | p :: ps => ⟨p, .ofStatements s p.stmts⟩ :: ofLines (ProgramRun.ofStatements s p.stmts).scopes ps

/-- The scopes after some lines. -/
def scopesAfter (s : Scopes) (ls : List LineRun) : Scopes :=
  (ls.getLast?.map (fun l => l.run.scopes)).getD s

/-- How the last of some lines ends. -/
def ending (ls : List LineRun) : Except SessionError Unit :=
  (ls.getLast?.map (fun l => l.run.ending)).getD (.ok ())

/-- The lines up to the first that does not come to its end, and this one. -/
def upToFault : List LineRun → List LineRun
  | [] => []
  | l :: ls => if l.run.fault = none then l :: upToFault ls else [l]

/-- The lines behind the first that does not come to its end. -/
def afterFault : List LineRun → List LineRun
  | [] => []
  | l :: ls => if l.run.fault = none then afterFault ls else ls

theorem values_cons (l : LineRun) (ls : List LineRun) :
    values (l :: ls) = l.run.values ++ values ls := rfl

theorem values_singleton (l : LineRun) : values [l] = l.run.values :=
  List.append_nil l.run.values

@[simp] theorem map_line_ofLines (s : Scopes) (ps : List Pending) :
    (ofLines s ps).map line = ps := by
  induction ps generalizing s with
  | nil => rfl
  | cons p ps ih => rw [ofLines, List.map_cons, ih]

theorem upToFault_append_afterFault (ls : List LineRun) :
    upToFault ls ++ afterFault ls = ls := by
  induction ls with
  | nil => rfl
  | cons l ls ih =>
    rw [upToFault, afterFault]
    split
    · rw [List.cons_append, ih]
    · rfl

theorem upToFault_ne_nil {ls : List LineRun} (h : ls ≠ []) : upToFault ls ≠ [] := by
  cases ls with
  | nil => exact absurd rfl h
  | cons l ls =>
    rw [upToFault]
    split
    · exact List.cons_ne_nil _ _
    · exact List.cons_ne_nil _ _

/-- Before the last of the lines up to the first fault there is no fault. -/
theorem fault_of_mem_dropLast {ls : List LineRun} {l : LineRun} (h : l ∈ (upToFault ls).dropLast) :
    l.run.fault = none := by
  induction ls with
  | nil => exact absurd h List.not_mem_nil
  | cons l' ls ih =>
    rw [upToFault] at h
    split at h
    next hl' =>
      rcases hrest : upToFault ls with _ | ⟨l'', rest⟩
      · rw [hrest] at h
        exact absurd h List.not_mem_nil
      · rw [hrest, List.dropLast_cons_cons] at h
        rcases List.mem_cons.1 h with rfl | h
        · exact hl'
        · exact ih (by rw [hrest]; exact h)
    · exact absurd h List.not_mem_nil

theorem ending_cons_cons (l l' : LineRun) (ls : List LineRun) :
    ending (l :: l' :: ls) = ending (l' :: ls) := by
  rw [ending, List.getLast?_cons_cons, ending]

theorem scopesAfter_cons (s : Scopes) (l : LineRun) (ls : List LineRun) :
    scopesAfter s (l :: ls) = scopesAfter l.run.scopes ls := by
  cases ls with
  | nil => rfl
  | cons l' ls =>
    rw [scopesAfter, scopesAfter, List.getLast?_cons_cons, List.getLast?_cons]
    rfl

/-- A line that comes to its end lets the lines behind it decide how they end. -/
theorem ending_cons {l : LineRun} (h : l.run.fault = none) (ls : List LineRun) :
    ending (l :: ls) = ending ls := by
  cases ls with
  | nil =>
    show l.run.ending = .ok ()
    rw [ProgramRun.ending, h]
  | cons l' ls => exact ending_cons_cons l l' ls

theorem afterFault_of_ending {ls : List LineRun} (h : ending (upToFault ls) = .ok ()) :
    afterFault ls = [] := by
  induction ls with
  | nil => rfl
  | cons l ls ih =>
    rw [upToFault] at h
    rw [afterFault]
    split at h
    next hl =>
      rw [if_pos hl]
      exact ih (ending_cons hl _ ▸ h)
    next hl =>
      obtain ⟨fault, hfault⟩ := Option.ne_none_iff_exists'.1 hl
      have hending : ending [l] = .error fault.toSession := by
        show l.run.ending = _
        rw [ProgramRun.ending, hfault]
      rw [hending] at h
      exact absurd h (by simp)

/-- What stands behind the first fault is run from where the fault left the scopes. -/
theorem afterFault_ofLines (s : Scopes) (ps : List Pending) :
    afterFault (ofLines s ps)
      = ofLines (scopesAfter s (upToFault (ofLines s ps)))
          ((afterFault (ofLines s ps)).map line) := by
  induction ps generalizing s with
  | nil => rfl
  | cons p ps ih =>
    rw [ofLines, upToFault, afterFault]
    split
    · rw [scopesAfter_cons]
      exact ih _
    · rw [map_line_ofLines]
      rfl

end LineRun

namespace Session

variable {s s' : Session}

/-- **The session `s'` is `s` after some lines were run**: their results are added, the scopes are
what they left, and the values are printed where steps are traced.  No line is being worked on if
none was and the last line came to its end. -/
structure Ran (s : Session) (ls : List LineRun) (s' : Session) : Prop where
  results_eq : s'.results = s.results ++ ls.flatMap LineRun.records
  scopes_eq : s'.scopes = LineRun.scopesAfter s.scopes ls
  path_eq : s'.path = s.path
  grouping_eq : s'.grouping = s.grouping
  prints : s.console.Prints (s.console.valueSteps (LineRun.values ls)) s'.console
  atRest : LineRun.ending ls = .ok () → s.console.AtRest → s'.console.AtRest

theorem Ran.nil (s : Session) : s.Ran [] s where
  results_eq := (List.append_nil _).symm
  scopes_eq := rfl
  path_eq := rfl
  grouping_eq := rfl
  prints := by
    rw [LineRun.values, List.flatMap_nil, Console.valueSteps_nil]
    exact .refl s.console
  atRest := fun _ h => h

theorem Ran.cons {l : LineRun} {ls : List LineRun} {s'' : Session} (h : s.Ran [l] s')
    (hl : l.run.fault = none) (h' : s'.Ran ls s'') : s.Ran (l :: ls) s'' where
  results_eq := by
    rw [h'.results_eq, h.results_eq, List.flatMap_singleton, List.flatMap_cons, List.append_assoc]
  scopes_eq := by
    rw [h'.scopes_eq, h.scopes_eq]
    exact (LineRun.scopesAfter_cons s.scopes l ls).symm
  path_eq := h'.path_eq.trans h.path_eq
  grouping_eq := h'.grouping_eq.trans h.grouping_eq
  prints := by
    have hsteps := h'.prints
    rw [h.prints.valueSteps_eq] at hsteps
    rw [LineRun.values_cons, ← LineRun.values_singleton, Console.valueSteps_append]
    exact h.prints.trans hsteps
  atRest := by
    intro hending hc
    rw [LineRun.ending_cons hl] at hending
    exact h'.atRest hending (h.atRest (LineRun.ending_cons hl []) hc)

/-- Where steps are not traced, a run prints nothing. -/
theorem Ran.prints_of_trace {ls : List LineRun} {c : Console} {es : List Event} (h : s.Ran ls s')
    (hc : c.Prints es s.console) (htrace : c.trace = false) : c.Prints es s'.console := by
  have hsteps := hc.trans h.prints
  rw [Console.valueSteps_of_trace (hc.trace_eq.trans htrace), List.append_nil] at hsteps
  exact hsteps

theorem exists_ran_runText (p : Pending) (s : Session) :
    ∃ s', runFrom (runText p) s = ((ProgramRun.ofStatements s.scopes p.stmts).ending, s')
      ∧ s.Ran [⟨p, .ofStatements s.scopes p.stmts⟩] s'
      ∧ s'.pending = s.pending.filter (fun q => q.num != p.num) := by
  refine ⟨_, runFrom_runText p s, ?_, ?_⟩
  · rcases hending : (ProgramRun.ofStatements s.scopes p.stmts).ending with e | _
    · refine ⟨by simp [ran, LineRun.records], rfl, rfl, rfl, ⟨rfl, rfl, rfl, ?_⟩, fun hok => ?_⟩
      · rw [LineRun.values_singleton]
        rfl
      · exact absurd (hending.symm.trans hok) (by simp)
    · refine ⟨by simp [ran, LineRun.records], rfl, rfl, rfl, ⟨rfl, rfl, rfl, ?_⟩, fun _ hc => ?_⟩
      · rw [LineRun.values_singleton]
        rfl
      · have hrest := hc.registerFile s.path
        rw [← Console.registerFile_registerLine] at hrest
        exact hrest
  · rcases (ProgramRun.ofStatements s.scopes p.stmts).ending with e | _
    · rfl
    · rfl

theorem filter_num_ne {p : Pending} {ps : List Pending}
    (h : ((p :: ps).map Pending.num).Nodup) : (p :: ps).filter (fun q => q.num != p.num) = ps := by
  rw [List.map_cons, List.nodup_cons] at h
  rw [List.filter_cons_of_neg (by simp), List.filter_eq_self]
  intro q hq
  have hne : q.num ≠ p.num := fun heq => h.1 (heq ▸ List.mem_map_of_mem hq)
  simpa using hne

/-- **Lines are run in order up to the first fault**, and those behind it stay pending. -/
theorem exists_ran_runTexts (ps : List Pending) {later : List Pending}
    (hpending : s.pending = ps ++ later) (hnums : (s.pending.map Pending.num).Nodup) :
    ∃ s', runFrom (runTexts ps) s
        = (LineRun.ending (LineRun.upToFault (LineRun.ofLines s.scopes ps)), s')
      ∧ s.Ran (LineRun.upToFault (LineRun.ofLines s.scopes ps)) s'
      ∧ s'.pending
        = (LineRun.afterFault (LineRun.ofLines s.scopes ps)).map LineRun.line ++ later := by
  induction ps generalizing s with
  | nil => exact ⟨s, rfl, .nil s, hpending⟩
  | cons p ps ih =>
    obtain ⟨s₁, hrun, hran, hpending₁⟩ := exists_ran_runText p s
    rw [List.cons_append] at hpending
    rw [hpending] at hnums
    rw [hpending, filter_num_ne hnums] at hpending₁
    have hscopes : s₁.scopes = (ProgramRun.ofStatements s.scopes p.stmts).scopes := hran.scopes_eq
    rw [runTexts, runFrom_bind, hrun, LineRun.ofLines, LineRun.upToFault, LineRun.afterFault]
    by_cases hfault : (ProgramRun.ofStatements s.scopes p.stmts).fault = none
    · rw [if_pos hfault, if_pos hfault, LineRun.ending_cons hfault, ProgramRun.ending, hfault,
        ← hscopes]
      have hnums₁ : (s₁.pending.map Pending.num).Nodup := by
        rw [hpending₁]
        exact (List.nodup_cons.1 hnums).2
      obtain ⟨s₂, hrun₂, hran₂, hpending₂⟩ := ih hpending₁ hnums₁
      exact ⟨s₂, hrun₂, hran.cons hfault hran₂, hpending₂⟩
    · rw [if_neg hfault, if_neg hfault, LineRun.map_line_ofLines]
      obtain ⟨fault, hsome⟩ := Option.ne_none_iff_exists'.1 hfault
      refine ⟨s₁, ?_, hran, hpending₁⟩
      show _ = ((ProgramRun.ofStatements s.scopes p.stmts).ending, s₁)
      rw [ProgramRun.ending, hsome]

theorem exists_ran_run (hnums : (s.pending.map Pending.num).Nodup) :
    ∃ s', runFrom run s
        = (LineRun.ending (LineRun.upToFault (LineRun.ofLines s.scopes s.pending)), s')
      ∧ s.Ran (LineRun.upToFault (LineRun.ofLines s.scopes s.pending)) s'
      ∧ s'.pending
        = (LineRun.afterFault (LineRun.ofLines s.scopes s.pending)).map LineRun.line := by
  obtain ⟨s', hrun, hran, hpending⟩ := exists_ran_runTexts s.pending (List.append_nil _).symm hnums
  refine ⟨s', ?_, hran, by rw [hpending, List.append_nil]⟩
  rw [run, runFrom_bind, runFrom_get]
  exact hrun

theorem exists_ran_run_one {p : Pending} (h : s.pending = [p]) :
    ∃ s', runFrom run s = ((ProgramRun.ofStatements s.scopes p.stmts).ending, s')
      ∧ s.Ran [⟨p, .ofStatements s.scopes p.stmts⟩] s' ∧ s'.pending = [] := by
  obtain ⟨s', hrun, hran, hpending⟩ := exists_ran_run (s := s) (by simp [h])
  rw [h, LineRun.ofLines, LineRun.ofLines, LineRun.upToFault, LineRun.upToFault,
    ite_self] at hrun hran
  rw [h, LineRun.ofLines, LineRun.ofLines, LineRun.afterFault, LineRun.afterFault,
    ite_self] at hpending
  exact ⟨s', hrun, hran, hpending⟩

/-! ### Adding texts -/

theorem put_eq_append {p : Pending} {ps : List Pending} (h : p.num ∉ ps.map Pending.num) :
    p.put ps = ps ++ [p] := by
  induction ps with
  | nil => rfl
  | cons q ps ih =>
    rw [List.map_cons, List.mem_cons, not_or] at h
    rw [Pending.put, if_neg (Ne.symm h.1), ih h.2, List.cons_append]

theorem num_not_mem {ps : List Pending} {num : Int} {nums : List Int}
    (h : (ps.map Pending.num ++ num :: nums).Nodup) : num ∉ ps.map Pending.num := by
  intro hmem
  exact (List.nodup_append.1 h).2.2 num hmem num List.mem_cons_self rfl

theorem runFrom_add (text : String) (num : Int) (s : Session) :
    runFrom (add text num) s =
      let c := (s.console.registerLine s.path text num).registerStep "tokens"
        (shownTokens text s.grouping)
      match parseProgram text s.grouping with
      | .error fault => (.error (.parse fault), { s with console := c })
      | .ok stmts => (.ok (), { s with
          pending := Pending.put { num, text, stmts } s.pending
          console := (stmts.foldl (fun c stmt => announce stmt c) c).registerFile s.path }) := by
  unfold add
  simp only [runFrom_bind, runFrom_get, runFrom_onConsole]
  rcases parseProgram text s.grouping with fault | stmts
  · rfl
  · rfl

theorem warns_announce (stmt : Tree) (c : Console) (h : c.trace = false) :
    c.Warns (announce stmt c) := by
  rw [announce, Console.registerStep_of_trace h]
  exact Console.warns_foldl (fun c stmts _ => Console.warns_warn c _) _ h

/-- **Adding a text that is accepted** prints warnings only, and leaves no line being worked on if
none was. -/
theorem exists_add_of_ok {text : String} {stmts : List Tree} (num : Int)
    (htrace : s.console.trace = false) (h : parseProgram text s.grouping = .ok stmts) :
    ∃ c ws, (∀ e ∈ ws, e.isWarning = true) ∧ s.console.Prints ws c
      ∧ (s.console.AtRest → c.AtRest)
      ∧ runFrom (add text num) s = (.ok (),
        { s with pending := Pending.put { num, text, stmts } s.pending, console := c }) := by
  have hline : (s.console.registerLine s.path text num).trace = false := htrace
  obtain ⟨ws, hws, hwarns⟩ := Console.warns_foldl
    (fun c stmt hc => warns_announce stmt c hc) stmts hline
  refine ⟨{ s.console.registerFile s.path with log := s.console.log ++ ws }, ws, hws,
    ⟨rfl, rfl, rfl, rfl⟩, fun hrest => hrest.registerFile s.path, ?_⟩
  rw [runFrom_add, h]
  dsimp only
  rw [Console.registerStep_of_trace hline, hwarns]
  show (_, ({ s with
    pending := _
    console := { (s.console.registerLine s.path text num).registerFile s.path with
      log := _ } } : Session)) = _
  rw [Console.registerFile_registerLine]
  rfl

theorem runFrom_add_of_error {text : String} {fault : Fault} (num : Int)
    (htrace : s.console.trace = false) (h : parseProgram text s.grouping = .error fault) :
    runFrom (add text num) s = (.error (.parse fault),
      { s with console := s.console.registerLine s.path text num }) := by
  have hline : (s.console.registerLine s.path text num).trace = false := htrace
  rw [runFrom_add, h]
  dsimp only
  rw [Console.registerStep_of_trace hline]

end Session

end BlockLang
