import BlockLang.Proofs.Eval.Program
import BlockLang.Proofs.Parser.Outcome
import BlockLang.Proofs.Session

/-!
# Calling `run` again and again

A call of `run` stops at the first line with a fault.  That line is done with, and those
behind it are still pending, so the next call starts there.  Called often enough, `run`
cuts the pending lines into one part for each call,

    lines = part₀ ++ part₁ ++ ⋯,

where every part but the last ends with a fault, and no other line of it has one.  So each
line is run by one call, in the order in which the lines were added.
-/

namespace BlockLang

open StepM

namespace Pending

/-- A text under its number, if it is accepted. -/
def ofText? (g : Grouping) (text : String) (num : Int) : Option Pending :=
  match parseProgram text g with
  | .error _ => none
  | .ok stmts => some { num, text, stmts }

/-- The texts that are accepted, in order. -/
def ofTexts (g : Grouping) (texts : List (String × Int)) : List Pending :=
  texts.filterMap (fun t => ofText? g t.1 t.2)

theorem ofTexts_cons (g : Grouping) (text : String) (num : Int) (texts : List (String × Int)) :
    ofTexts g ((text, num) :: texts) = (ofText? g text num).toList ++ ofTexts g texts := by
  cases h : ofText? g text num with
  | none => simp [ofTexts, h]
  | some p => simp [ofTexts, h]

theorem num_of_ofText? {g : Grouping} {text : String} {num : Int} {p : Pending}
    (h : ofText? g text num = some p) : p.num = num := by
  unfold ofText? at h
  split at h
  · exact absurd h (by simp)
  · rw [← Option.some.inj h]

theorem map_num_ofText? (g : Grouping) (text : String) (num : Int) :
    ((ofText? g text num).toList.map Pending.num).Sublist [num] := by
  cases h : ofText? g text num with
  | none => exact List.nil_sublist _
  | some p =>
    rw [Option.toList_some, List.map_singleton, num_of_ofText? h]

theorem map_num_ofTexts (g : Grouping) (texts : List (String × Int)) :
    ((ofTexts g texts).map Pending.num).Sublist (texts.map Prod.snd) := by
  induction texts with
  | nil => exact List.Sublist.slnil
  | cons t texts ih =>
    rw [ofTexts_cons, List.map_append, List.map_cons, ← List.singleton_append]
    exact (map_num_ofText? g t.1 t.2).append ih

theorem areStatements_of_mem_ofTexts {g : Grouping} {texts : List (String × Int)} {p : Pending}
    (h : p ∈ ofTexts g texts) : Tree.areStatements p.stmts = true := by
  obtain ⟨t, -, ht⟩ := List.mem_filterMap.1 h
  unfold ofText? at ht
  split at ht
  · exact absurd ht (by simp)
  next stmts hparse =>
    rw [← Option.some.inj ht]
    exact areStatements_of_parseProgram hparse

end Pending

theorem LineRun.isProgramError_of_mem_ofLines {s : Scopes} {ps : List Pending} (hs : 0 < s.size)
    (hps : ∀ p ∈ ps, Tree.areStatements p.stmts = true) {l : LineRun} (hl : l ∈ ofLines s ps)
    {fault : ProgramFault} (hfault : l.run.fault = some fault) : fault.IsProgramError := by
  induction ps generalizing s with
  | nil => exact absurd hl List.not_mem_nil
  | cons p ps ih =>
    obtain ⟨hsize, herror⟩ := ProgramRun.ofStatements_spec hs (hps p List.mem_cons_self)
    rw [ofLines] at hl
    rcases List.mem_cons.1 hl with rfl | hl
    · exact herror fault hfault
    · exact ih (hsize ▸ hs) (fun q hq => hps q (List.mem_cons_of_mem p hq)) hl

namespace Session

variable {s : Session}

/-! ### Adding -/

/-- Adds texts under their numbers.  A text that is not accepted is left out. -/
def addAll : List (String × Int) → Session → Session
  | [], s => s
  | (text, num) :: texts, s => addAll texts (runFrom (add text num) s).2

theorem add_spec {num : Int} (text : String) (hnum : num ∉ s.pending.map Pending.num) :
    (runFrom (add text num) s).2.pending
        = s.pending ++ (Pending.ofText? s.grouping text num).toList
      ∧ (runFrom (add text num) s).2.grouping = s.grouping
      ∧ (runFrom (add text num) s).2.results = s.results
      ∧ (runFrom (add text num) s).2.scopes = s.scopes := by
  rw [runFrom_add, Pending.ofText?]
  cases parseProgram text s.grouping with
  | error fault => exact ⟨(List.append_nil _).symm, rfl, rfl, rfl⟩
  | ok stmts => exact ⟨put_eq_append hnum, rfl, rfl, rfl⟩

/-- **Texts under numbers of their own** are pending in the order in which they were added. -/
theorem addAll_spec (texts : List (String × Int))
    (hnums : (s.pending.map Pending.num ++ texts.map Prod.snd).Nodup) :
    (addAll texts s).pending = s.pending ++ Pending.ofTexts s.grouping texts
      ∧ (addAll texts s).results = s.results ∧ (addAll texts s).scopes = s.scopes := by
  induction texts generalizing s with
  | nil => exact ⟨(List.append_nil _).symm, rfl, rfl⟩
  | cons t texts ih =>
    obtain ⟨text, num⟩ := t
    rw [List.map_cons] at hnums
    obtain ⟨hpending, hgrouping, hresults, hscopes⟩ := add_spec text (num_not_mem hnums)
    have hnums' : ((runFrom (add text num) s).2.pending.map Pending.num
        ++ texts.map Prod.snd).Nodup := by
      rw [hpending, List.map_append, List.append_assoc]
      refine hnums.sublist (List.Sublist.append_left ?_ _)
      exact (Pending.map_num_ofText? s.grouping text num).append_right _
    obtain ⟨hpending', hresults', hscopes'⟩ := ih hnums'
    rw [addAll, Pending.ofTexts_cons, ← List.append_assoc, ← hpending, ← hgrouping]
    exact ⟨hpending', hresults'.trans hresults, hscopes'.trans hscopes⟩

/-! ### Running -/

/-- A session after some calls of `run`, whatever they raise. -/
def runAgain : Nat → Session → Session
  | 0, s => s
  | n + 1, s => runAgain n (runFrom run s).2

/-- **A call of `run` performs some lines**: it runs them in the order in which they are pending,
and what it leaves is what they come to.  Only the last of them may have a fault, which the call
raises; if there is none, nothing stays pending. -/
structure Performs (s : Session) (ls : List LineRun) : Prop where
  ne_nil : ls ≠ []
  fault_eq_none : ∀ l ∈ ls.dropLast, l.run.fault = none
  outcome_eq : (runFrom run s).1 = LineRun.ending ls
  pending_eq : s.pending = ls.map LineRun.line ++ (runFrom run s).2.pending
  pending_of_ok : (runFrom run s).1 = .ok () → (runFrom run s).2.pending = []
  results_eq : (runFrom run s).2.results = s.results ++ ls.flatMap LineRun.records
  scopes_eq : (runFrom run s).2.scopes = LineRun.scopesAfter s.scopes ls
  log_eq : (runFrom run s).2.console.log
    = s.console.log ++ s.console.valueSteps (LineRun.values ls)

/-- **One call** performs the lines up to the first fault. -/
theorem performs_upToFault (hnums : (s.pending.map Pending.num).Nodup) (hne : s.pending ≠ []) :
    s.Performs (LineRun.upToFault (LineRun.ofLines s.scopes s.pending)) := by
  obtain ⟨s', hrun, hran, hpending⟩ := exists_ran_run hnums
  have hlines : LineRun.ofLines s.scopes s.pending ≠ [] := by
    intro hnil
    exact hne (by rw [← LineRun.map_line_ofLines s.scopes s.pending, hnil, List.map_nil])
  refine ⟨LineRun.upToFault_ne_nil hlines, fun l hl => LineRun.fault_of_mem_dropLast hl, ?_, ?_, ?_,
    ?_, ?_, ?_⟩
  · rw [hrun]
  · rw [hrun, hpending, ← List.map_append, LineRun.upToFault_append_afterFault,
      LineRun.map_line_ofLines]
  · rw [hrun]
    intro hok
    rw [hpending, LineRun.afterFault_of_ending hok, List.map_nil]
  · rw [hrun, hran.results_eq]
  · rw [hrun, hran.scopes_eq]
  · rw [hrun, hran.prints.log_eq]

/-- What a call leaves pending is what is left of the lines. -/
theorem ofLines_after_run (hnums : (s.pending.map Pending.num).Nodup) :
    LineRun.upToFault (LineRun.ofLines s.scopes s.pending)
        ++ LineRun.ofLines (runFrom run s).2.scopes (runFrom run s).2.pending
      = LineRun.ofLines s.scopes s.pending := by
  obtain ⟨s', hrun, hran, hpending⟩ := exists_ran_run hnums
  rw [hrun, hran.scopes_eq, hpending, ← LineRun.afterFault_ofLines,
    LineRun.upToFault_append_afterFault]

/-- **All calls.**  The lines are performed part by part until none is pending. -/
theorem exists_calls (s : Session) (hnums : (s.pending.map Pending.num).Nodup) :
    ∃ calls : List (List LineRun), calls.flatten = LineRun.ofLines s.scopes s.pending
      ∧ (∀ i (h : i < calls.length), (runAgain i s).Performs calls[i])
      ∧ (runAgain calls.length s).pending = [] := by
  by_cases hne : s.pending = []
  · exact ⟨[], by rw [hne]; rfl, fun i h => absurd h (Nat.not_lt_zero i), hne⟩
  · have hcall := performs_upToFault hnums hne
    -- a call takes at least one line away, so fewer are left for the next
    have hshorter : (runFrom run s).2.pending.length < s.pending.length := by
      have hlength := congrArg List.length hcall.pending_eq
      have hpos := List.length_pos_iff.2 hcall.ne_nil
      rw [List.length_append, List.length_map] at hlength
      omega
    have hnums' : ((runFrom run s).2.pending.map Pending.num).Nodup := by
      refine hnums.sublist (List.Sublist.map _ ?_)
      rw [hcall.pending_eq]
      exact List.sublist_append_right _ _
    obtain ⟨calls, hflatten, hperforms, hend⟩ := exists_calls (runFrom run s).2 hnums'
    refine ⟨LineRun.upToFault (LineRun.ofLines s.scopes s.pending) :: calls, ?_, ?_, hend⟩
    · rw [List.flatten_cons, hflatten, ofLines_after_run hnums]
    · intro i h
      cases i with
      | zero => exact hcall
      | succ i => exact hperforms i (Nat.lt_of_succ_lt_succ h)
termination_by s.pending.length

/-- **Pending lines are run once.**  Texts that are added to a session under numbers of their own
are pending in the order in which they were added.  Called again and again until nothing is
pending, `run` evaluates each pending line once, in this order and each from where the one before
left the scopes; a line is evaluated up to its first statement without a value.  Each call adds the
statements that it found values for to the results, and leaves the lines behind the first that has
a fault as they are.  In a session with a root frame, faults are errors of the program. -/
theorem performs_calls_of_addAll (s : Session) (texts : List (String × Int))
    (hnums : (s.pending.map Pending.num ++ texts.map Prod.snd).Nodup) :
    let added := addAll texts s
    (added.pending = s.pending ++ Pending.ofTexts s.grouping texts
        ∧ added.results = s.results ∧ added.scopes = s.scopes)
      ∧ ∃ calls : List (List LineRun),
        calls.flatten = LineRun.ofLines s.scopes added.pending
          ∧ (∀ i (h : i < calls.length), (runAgain i added).Performs calls[i])
          ∧ (runAgain calls.length added).pending = []
          ∧ (0 < s.scopes.size → (∀ p ∈ s.pending, Tree.areStatements p.stmts = true) →
            ∀ l ∈ calls.flatten, ∀ fault, l.run.fault = some fault → fault.IsProgramError) := by
  have hadded := addAll_spec texts hnums
  refine ⟨hadded, ?_⟩
  have hnums' : ((addAll texts s).pending.map Pending.num).Nodup := by
    rw [hadded.1, List.map_append]
    exact hnums.sublist ((Pending.map_num_ofTexts s.grouping texts).append_left _)
  obtain ⟨calls, hflatten, hperforms, hend⟩ := exists_calls (addAll texts s) hnums'
  rw [hadded.2.2] at hflatten
  refine ⟨calls, hflatten, hperforms, hend, ?_⟩
  intro hs hps l hl fault hfault
  rw [hflatten, hadded.1] at hl
  refine LineRun.isProgramError_of_mem_ofLines hs (fun p hp => ?_) hl hfault
  exact (List.mem_append.1 hp).elim (hps p) Pending.areStatements_of_mem_ofTexts

/-- A session with nothing in it. -/
def fresh : Session :=
  create {} SessionError.interactivePath true .byPrecedence

/-- Texts under numbers that are not in order: in the first and the third a statement has no value,
and the second is not accepted. -/
def faulty : List (String × Int) :=
  [("let a = 1; missing; a", 4), ("let ;", 9), ("a; 1 / 0", 2), ("a + 1", 3)]

/-- Every text of `faulty` that is accepted is run, once and in order, by calls that each stop at a
fault, and the faults are errors of the program. -/
theorem performs_calls_of_addAll_faulty :
    (fresh.pending.map Pending.num ++ faulty.map Prod.snd).Nodup
      ∧ (addAll faulty fresh).pending = Pending.ofTexts .byPrecedence faulty
      ∧ ∃ calls : List (List LineRun),
        calls.flatten = LineRun.ofLines .root (Pending.ofTexts .byPrecedence faulty)
          ∧ (∀ i (h : i < calls.length), (runAgain i (addAll faulty fresh)).Performs calls[i])
          ∧ (runAgain calls.length (addAll faulty fresh)).pending = []
          ∧ ∀ l ∈ calls.flatten, ∀ fault, l.run.fault = some fault → fault.IsProgramError := by
  have hnums : (fresh.pending.map Pending.num ++ faulty.map Prod.snd).Nodup := by decide
  obtain ⟨⟨hpending, -, -⟩, calls, hflatten, hperforms, hend, herror⟩ :=
    performs_calls_of_addAll fresh faulty hnums
  have hnil : fresh.pending = [] := rfl
  rw [hnil, List.nil_append] at hpending
  refine ⟨hnums, hpending, calls, ?_, hperforms, hend, ?_⟩
  · rw [hflatten, hpending]
    rfl
  · refine herror (by decide) ?_
    intro p hp
    exact absurd hp List.not_mem_nil

end Session

end BlockLang
