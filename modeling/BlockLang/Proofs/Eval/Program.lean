import BlockLang.Eval.Program
import BlockLang.Proofs.Eval.Effect

/-!
# What statements come to

Statements that are run in order have a value each, or one of them is the first without
a value and ends the run.  Statements that are run in two parts come to the same as in
one: `ofStatements_append`.  The root frame is still the only frame afterwards, and what
ends a run of statements of the grammar is an error of the program.
-/

namespace BlockLang

open StepM

/-- Whether a run was ended by an error of the program. -/
def ProgramFault.IsProgramError (fault : ProgramFault) : Prop :=
  ∃ e : EvalError, fault = .eval (.error e) ∧ e.isProgramError = true

namespace ProgramRun

theorem length_values {s : Scopes} {stmts : List Tree} (h : (ofStatements s stmts).fault = none) :
    (ofStatements s stmts).values.length = stmts.length := by
  induction stmts generalizing s with
  | nil => rfl
  | cons t ts ih =>
    rw [ofStatements] at h ⊢
    rcases hrun : runFrom (Eval.evaluate 0 t) s with ⟨fault | v, s'⟩
    · rw [hrun] at h
      exact absurd h (by simp)
    · rw [hrun] at h
      simp only [List.length_cons]
      rw [ih h]

/-- **Statements in two parts.**  The second part starts where the first ended, if it came to its
end. -/
theorem ofStatements_append (s : Scopes) (ts us : List Tree) :
    ofStatements s (ts ++ us) =
      let r := ofStatements s ts
      if r.fault = none then
        let rest := ofStatements r.scopes us
        { rest with values := r.values ++ rest.values }
      else r := by
  induction ts generalizing s with
  | nil => rfl
  | cons t ts ih =>
    rw [List.cons_append, ofStatements, ofStatements]
    rcases runFrom (Eval.evaluate 0 t) s with ⟨fault | v, s'⟩
    · rfl
    · dsimp only
      rw [ih s']
      by_cases h : (ofStatements s' ts).fault = none
      · simp [h]
      · simp [h]

/-- Statements of the grammar keep the number of frames, and only an error of the program keeps
them from their end. -/
theorem ofStatements_spec {s : Scopes} {stmts : List Tree} (hs : 0 < s.size)
    (h : Tree.areStatements stmts = true) :
    (ofStatements s stmts).scopes.size = s.size
      ∧ ∀ fault, (ofStatements s stmts).fault = some fault → fault.IsProgramError := by
  induction stmts generalizing s with
  | nil => exact ⟨rfl, fun fault hfault => absurd hfault (by simp [ofStatements])⟩
  | cons t ts ih =>
    rw [Tree.areStatements, Bool.and_eq_true] at h
    rw [ofStatements]
    rcases ends_iff.1 (Eval.ends_evaluate t h.1 hs) with
      ⟨v, s', hrun, heffect⟩ | ⟨_, s', hrun, ⟨e, rfl, he⟩, rfl⟩
    · have hsize : s'.size = s.size := by
        rcases heffect.eq_or_bound with rfl | ⟨x, w, rfl⟩
        · rfl
        · exact Scopes.size_bound s 0 x w
      rw [hrun]
      obtain ⟨hsize', hfault⟩ := ih (s := s') (by omega) h.2
      exact ⟨hsize'.trans hsize, hfault⟩
    · rw [hrun]
      refine ⟨rfl, fun fault hfault => ?_⟩
      rw [← Option.some.inj hfault]
      exact ⟨e, rfl, he⟩

end ProgramRun

end BlockLang
