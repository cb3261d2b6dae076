/-!
# Steps that may stop

A step works on a state and either gives a result or stops for a reason.  What it
did to the state before it stopped stays done, so that both outcomes have a state
afterwards:

    runFrom p s = (outcome, the state afterwards).

The lemmas below say what `runFrom` makes of the ways in which steps are put
together.
-/

namespace BlockLang

/-- A step on a state `σ` that gives a result or stops for a reason `ε`. -/
abbrev StepM (ε σ : Type) := ExceptT ε (StateM σ)

namespace StepM

variable {ε σ α β : Type}

/-- Runs a step from a state, giving the outcome and the state afterwards. -/
def runFrom (p : StepM ε σ α) (s : σ) : Except ε α × σ :=
  StateT.run (ExceptT.run p) s

@[simp] theorem runFrom_pure (a : α) (s : σ) :
    runFrom (pure a : StepM ε σ α) s = (.ok a, s) := rfl

@[simp] theorem runFrom_throw (e : ε) (s : σ) :
    runFrom (throw e : StepM ε σ α) s = (.error e, s) := rfl

/-- **One step after the other.**  The second starts where the first left the state, and does not
start at all if the first stops. -/
theorem runFrom_bind (p : StepM ε σ α) (f : α → StepM ε σ β) (s : σ) :
    runFrom (p >>= f) s =
      match runFrom p s with
      | (.ok a, s') => runFrom (f a) s'
      | (.error e, s') => (.error e, s') := by
  simp only [runFrom, ExceptT.run_bind, StateT.run_bind]
  rcases StateT.run (ExceptT.run p) s with ⟨_ | _, _⟩ <;> rfl

/-- **Going on after a stop.**  The handler starts where the step left the state. -/
theorem runFrom_tryCatch (p : StepM ε σ α) (h : ε → StepM ε σ α) (s : σ) :
    runFrom (tryCatch p h) s =
      match runFrom p s with
      | (.ok a, s') => (.ok a, s')
      | (.error e, s') => runFrom (h e) s' := by
  show StateT.run (ExceptT.run p >>= fun r => ExceptT.run (match r with
      | .ok a => pure a
      | .error e => h e)) s = _
  simp only [runFrom, StateT.run_bind]
  rcases StateT.run (ExceptT.run p) s with ⟨_ | _, _⟩ <;> rfl

@[simp] theorem runFrom_get (s : σ) : runFrom (get : StepM ε σ σ) s = (.ok s, s) := rfl

@[simp] theorem runFrom_set (s s' : σ) : runFrom (set s' : StepM ε σ PUnit) s = (.ok ⟨⟩, s') := rfl

@[simp] theorem runFrom_modify (f : σ → σ) (s : σ) :
    runFrom (modify f : StepM ε σ PUnit) s = (.ok ⟨⟩, f s) := rfl

@[simp] theorem runFrom_modifyGet (f : σ → α × σ) (s : σ) :
    runFrom (modifyGet f : StepM ε σ α) s = (.ok (f s).1, (f s).2) := rfl

end StepM

end BlockLang
