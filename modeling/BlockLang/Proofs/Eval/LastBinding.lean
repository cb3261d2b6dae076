import BlockLang.Proofs.Eval.Scoped

/-!
# Blocks that end with a binding

The statements of a block run in order, and the last of them once more for the value,

    runBlock frame (ts ++ [t]) = runOnce frame (ts ++ [t]), then evaluate frame t.

Where `t` binds or assigns a name, its second run works out the same expression, but where
the name has the value of the first run already.  A binding has the value `()`, so the
block has it too, unless that second run stops.  It can stop although the first did not:

    { let a = 1; a = 0 / a; }

divides by `1` first and then by `0`.  If the expression does not use the name, the second
run cannot tell the difference.
-/

namespace BlockLang

open StepM

namespace Eval

open Scopes

/-- Runs statements in order, each once. -/
def runOnce (frame : Nat) : List Tree → EvalM Unit
  | [] => return ()
  | t :: ts => do
    let _ ← evaluate frame t
    runOnce frame ts

theorem runOnce_append (frame : Nat) (ts us : List Tree) :
    runOnce frame (ts ++ us) = (do runOnce frame ts; runOnce frame us) := by
  induction ts with
  | nil => simp [runOnce]
  | cons t ts ih => simp only [List.cons_append, runOnce, ih, bind_assoc]

/-- **A block runs its statements once each**, and then the last once more. -/
theorem runBlock_concat (frame : Nat) (ts : List Tree) (t : Tree) :
    runBlock frame (ts ++ [t]) = (do runOnce frame (ts ++ [t]); evaluate frame t) := by
  induction ts with
  | nil => simp [runBlock, runOnce]
  | cons u us ih =>
    obtain ⟨v, vs, hrest⟩ : ∃ v vs, us ++ [t] = v :: vs := List.exists_cons_of_ne_nil (by simp)
    rw [List.cons_append, runOnce, bind_assoc, ← ih, hrest, runBlock]

variable {s s' : Scopes} {frame : Nat} {ts : List Tree} {t e : Tree} {x : String} {v : Value}

theorem ends_runOnce (hts : Tree.areStatements ts = true) (f : Frame) (older : List Frame) :
    Ends (runOnce older.length ts) { frames := f :: older }
      (fun _ s' => ∃ f', s' = { frames := f' :: older }) (fun _ _ => True) := by
  induction ts generalizing f with
  | nil =>
    rw [runOnce]
    exact ends_pure.2 ⟨f, rfl⟩
  | cons t ts ih =>
    rw [Tree.areStatements, Bool.and_eq_true] at hts
    rw [runOnce]
    refine (ends_evaluate t hts.1 (Nat.lt_succ_self older.length)).bind ?_ (fun _ _ _ => trivial)
    intro _ s₁ h₁
    obtain ⟨f₁, rfl⟩ := h₁.newest
    exact ih hts.2 f₁

/-- A binding, or an assignment of a visible name, ends as its expression does, with the value `()`
instead. -/
theorem runFrom_binding (hframe : frame < s.size) (ht : t.isStatement = true)
    (hlast : t = .initialization x e ∨ t = .assignment x e) (hx : s.visible frame x = true) :
    (∃ v, runFrom (evaluate frame e) s = (.ok v, s)
        ∧ runFrom (evaluate frame t) s = (.ok .unit, s.bound frame x v))
      ∨ ∃ err : EvalError, runFrom (evaluate frame e) s = (.error (.error err), s)
        ∧ runFrom (evaluate frame t) s = (.error (.error err), s)
        ∧ err.isProgramError = true := by
  have he : e.isExpression = true ∧ e.isStatement = true := by
    rcases hlast with rfl | rfl
    · simpa [Tree.isStatement] using ht
    · simpa [Tree.isStatement] using ht
  rcases ends_iff.1 (ends_evaluate e he.2 hframe) with
    ⟨v, s₁, hrun, heffect⟩ | ⟨_, s₁, hrun, ⟨err, rfl, herr⟩, rfl⟩
  · obtain rfl := heffect.eq_of_isExpression he.1
    refine .inl ⟨v, hrun, ?_⟩
    have hstore := runFrom_store hframe x v
    rcases hlast with rfl | rfl
    · rw [evaluate, runFrom_bind, hrun]
      dsimp only
      rw [runFrom_bind, hstore]
      rfl
    · obtain ⟨w, hw⟩ := Option.isSome_iff_exists.1 hx
      have hlookup := runFrom_lookup hframe x
      rw [hw, Option.elim_some] at hlookup
      rw [evaluate, runFrom_bind, hrun]
      dsimp only
      rw [runFrom_bind, hlookup]
      dsimp only
      rw [runFrom_bind, hstore]
      rfl
  · refine .inr ⟨err, hrun, ?_, herr⟩
    rcases hlast with rfl | rfl
    · rw [evaluate, runFrom_bind, hrun]
    · rw [evaluate, runFrom_bind, hrun]

theorem Effect.eq_bound (h : Effect frame s t s')
    (hlast : t = .initialization x e ∨ t = .assignment x e) :
    ∃ v, runFrom (evaluate frame e) s = (.ok v, s) ∧ s' = s.bound frame x v := by
  rcases hlast with rfl | rfl
  · obtain ⟨v, hrun, hwrites⟩ := h
    exact ⟨v, hrun, (writes_iff.1 hwrites).2⟩
  · obtain ⟨v, hrun, hwrites⟩ := h
    exact ⟨v, hrun, (writes_iff.1 hwrites).2⟩

theorem runFrom_bound_of_notMem (hframe : frame < s.size) (hx : x ∉ e.names) (w : Value)
    (hrun : (runFrom (evaluate frame e) s).1 = .ok v) :
    (runFrom (evaluate frame e) (s.bound frame x w)).1 = .ok v := by
  have halike : Alike e.names s frame (s.bound frame x w) frame := by
    refine ⟨hframe, (size_bound s frame x w).symm ▸ hframe, fun y hy => ?_⟩
    rw [lookupIn_bound hframe, if_neg (by rintro rfl; exact hx hy)]
  cases matched_evaluate e halike with
  | ok v' writes hp hq =>
    rw [hp] at hrun
    rw [hq, ← hrun]
  | error err writes hp hq =>
    rw [hp] at hrun
    exact absurd hrun (by simp)

/-- The runs of a block in a fresh child frame: those of its statements once each, of which the last
starts from `s₁` and ends in `s'`, and one more of the last statement from there. -/
theorem exists_runs_of_runOnce (hframe : frame < s.size)
    (hts : Tree.areStatements (ts ++ [t]) = true)
    (honce : runFrom (do let child ← newChild frame; runOnce child (ts ++ [t])) s = (.ok (), s')) :
    ∃ s₁ f₁ v, s₁ = { frames := f₁ :: s.frames } ∧ runFrom (evaluate s.size t) s₁ = (.ok v, s')
      ∧ ∀ r f, runFrom (evaluate s.size t) s' = (r, { frames := f :: s.frames }) →
        runFrom (evaluate frame (.block (ts ++ [t]))) s = (r, s) := by
  obtain ⟨_, _, hnew, rfl, rfl⟩ := (ends_newChild hframe).exists_ok
  rw [runFrom_bind, hnew] at honce
  dsimp only at honce
  rw [Tree.areStatements_append, Bool.and_eq_true] at hts
  have hfront : Ends (runOnce s.size ts) { frames := { parent := some frame } :: s.frames }
      (fun _ s₁ => ∃ f₁, s₁ = { frames := f₁ :: s.frames }) (fun _ _ => True) :=
    ends_runOnce hts.1 _ _
  have hsplit := honce
  rw [runOnce_append, runFrom_bind] at hsplit
  rcases ends_iff.1 hfront with ⟨_, s₁, hrun₁, f₁, hs₁⟩ | ⟨fault, s₁, hrun₁, -⟩
  · rw [hrun₁] at hsplit
    dsimp only at hsplit
    rw [runOnce, runFrom_bind] at hsplit
    rcases hrun : runFrom (evaluate s.size t) s₁ with ⟨fault | v, s₂⟩
    · rw [hrun] at hsplit
      exact absurd (congrArg Prod.fst hsplit) (by simp)
    · rw [hrun] at hsplit
      obtain rfl : s₂ = s' := congrArg Prod.snd hsplit
      refine ⟨s₁, f₁, v, hs₁, hrun, fun r f hagain => ?_⟩
      obtain ⟨u, us, hcons⟩ : ∃ u us, ts ++ [t] = u :: us := List.exists_cons_of_ne_nil (by simp)
      have hbody : runFrom (runBlock s.size (ts ++ [t])) (s.extended frame)
          = (r, { frames := f :: s.frames }) := by
        rw [runBlock_concat, runFrom_bind, extended, honce]
        exact hagain
      rw [hcons] at hbody ⊢
      rw [evaluate]
      exact runFrom_withChild hframe hbody
  · rw [hrun₁] at hsplit
    exact absurd (congrArg Prod.fst hsplit) (by simp)

/-- **A block that ends with a binding has the value `()` or none.**  Its statements have run once
each in a fresh child frame.  Then the block evaluates the last one's expression once more, in that
frame: if it has a value, the block has the value `()`, and if it stops with an error, so does the
block.  Either way the scopes are what they were.  An expression that does not use the name has a
value again. -/
theorem evaluate_block_of_binding (hframe : frame < s.size)
    (hts : Tree.areStatements (ts ++ [t]) = true)
    (hlast : t = .initialization x e ∨ t = .assignment x e)
    (honce : runFrom (do let child ← newChild frame; runOnce child (ts ++ [t])) s = (.ok (), s')) :
    ((∃ v, runFrom (evaluate s.size e) s' = (.ok v, s')
          ∧ runFrom (evaluate frame (.block (ts ++ [t]))) s = (.ok .unit, s))
        ∨ ∃ err : EvalError, runFrom (evaluate s.size e) s' = (.error (.error err), s')
          ∧ runFrom (evaluate frame (.block (ts ++ [t]))) s = (.error (.error err), s)
          ∧ err.isProgramError = true)
      ∧ (x ∉ e.names → runFrom (evaluate frame (.block (ts ++ [t]))) s = (.ok .unit, s)) := by
  obtain ⟨s₁, f₁, v, rfl, hfirst, hblock⟩ := exists_runs_of_runOnce hframe hts honce
  have ht : t.isStatement = true := by
    rw [Tree.areStatements_append, Bool.and_eq_true] at hts
    simpa [Tree.areStatements] using hts.2
  have hlive₁ : s.size < Scopes.size { frames := f₁ :: s.frames } := Nat.lt_succ_self _
  obtain ⟨w, he₁, rfl⟩ := ((ends_evaluate t ht hlive₁).of_ok hfirst).eq_bound hlast
  have hlive : s.size < (bound { frames := f₁ :: s.frames } s.size x w).size := by
    rw [size_bound]
    exact hlive₁
  have hvisible : (bound { frames := f₁ :: s.frames } s.size x w).visible s.size x = true := by
    rw [visible_bound hlive₁, beq_self_eq_true, Bool.or_true]
  -- the frame of the block is in front, and all that happens to it is that the name is bound
  have hnewest : bound { frames := f₁ :: s.frames } s.size x w
      = { frames := f₁.store x w :: s.frames } := bound_newest f₁ s.frames x w
  rcases runFrom_binding hlive ht hlast hvisible with
    ⟨u, he, hagain⟩ | ⟨err, he, hagain, herr⟩
  · have hunit := hblock _ ((f₁.store x w).store x u) (by
      rw [hagain, hnewest]
      exact congrArg _ (bound_newest _ s.frames x u))
    exact ⟨.inl ⟨u, he, hunit⟩, fun _ => hunit⟩
  · refine ⟨.inr ⟨err, he, hblock _ (f₁.store x w) (hagain.trans (by rw [hnewest])), herr⟩,
      fun hx => ?_⟩
    have hok := runFrom_bound_of_notMem hlive₁ hx w (congrArg Prod.fst he₁)
    rw [he] at hok
    exact absurd hok (by simp)

/-- `{ c - a } / c` -/
def differenceOverItself : Tree :=
  .operation (.block [.operation (.name "c") (.name "a") .sub]) (.name "c") .div

/-- `{ let c = a; c = { c - a } / c; }` in the older of two siblings, where `a` is `3`: the first
run of the assignment divides by `3`, and the second by `0`. -/
theorem evaluate_block_of_binding_siblings :
    1 < siblings.size
      ∧ Tree.areStatements ([.initialization "c" (.name "a")]
        ++ [.assignment "c" differenceOverItself]) = true
      ∧ runFrom (do
          let child ← newChild 1
          runOnce child ([.initialization "c" (.name "a")]
            ++ [.assignment "c" differenceOverItself])) siblings
        = (.ok (), (siblings.extended 1).bound 3 "c" (.number 0))
      ∧ ((∃ v, runFrom (evaluate 3 differenceOverItself)
              ((siblings.extended 1).bound 3 "c" (.number 0))
              = (.ok v, (siblings.extended 1).bound 3 "c" (.number 0))
            ∧ runFrom (evaluate 1 (.block ([.initialization "c" (.name "a")]
              ++ [.assignment "c" differenceOverItself]))) siblings = (.ok .unit, siblings))
          ∨ ∃ err : EvalError, runFrom (evaluate 3 differenceOverItself)
              ((siblings.extended 1).bound 3 "c" (.number 0))
              = (.error (.error err), (siblings.extended 1).bound 3 "c" (.number 0))
            ∧ runFrom (evaluate 1 (.block ([.initialization "c" (.name "a")]
              ++ [.assignment "c" differenceOverItself]))) siblings
              = (.error (.error err), siblings)
            ∧ err.isProgramError = true)
      ∧ runFrom (evaluate 1 (.block ([.initialization "c" (.name "a")]
          ++ [.assignment "c" differenceOverItself]))) siblings
        = (.error (.error (.divisionByZero (-3) 0)), siblings) := by
  have honce : runFrom (do
        let child ← newChild 1
        runOnce child ([.initialization "c" (.name "a")]
          ++ [.assignment "c" differenceOverItself])) siblings
      = (.ok (), (siblings.extended 1).bound 3 "c" (.number 0)) := by rfl
  exact ⟨by decide, by decide, honce,
    (evaluate_block_of_binding (by decide) (by decide) (.inr rfl) honce).1, by rfl⟩

/-- **The value of a block that ends with a binding need not be `()`.**  In
`{ let a = 1; a = 0 / a; }` each statement runs once without an error, and the block stops. -/
theorem not_unit_of_runOnce :
    ¬ ∀ (s s' : Scopes) (frame : Nat) (ts : List Tree) (t e : Tree) (x : String),
      s.WellFormed → frame < s.size → Tree.areStatements (ts ++ [t]) = true →
      (t = .initialization x e ∨ t = .assignment x e) →
      runFrom (do let child ← newChild frame; runOnce child (ts ++ [t])) s = (.ok (), s') →
      (runFrom (evaluate frame (.block (ts ++ [t]))) s).1 = .ok .unit := by
  intro h
  have honce : runFrom (do
        let child ← newChild 0
        runOnce child ([.initialization "a" (.number 1)]
          ++ [.assignment "a" (.operation (.number 0) (.name "a") .div)])) root
      = (.ok (), { frames := { parent := some 0, bindings := [("a", .number 0)] }
          :: root.frames }) := by rfl
  have hstop : (runFrom (evaluate 0 (.block ([.initialization "a" (.number 1)]
      ++ [.assignment "a" (.operation (.number 0) (.name "a") .div)]))) root).1
      = .error (.error (.divisionByZero 0 0)) := by rfl
  have hunit := h root _ 0 _ _ _ "a" (by decide) (by decide) (by decide) (.inr rfl) honce
  rw [hstop] at hunit
  exact absurd hunit (by simp)

end Eval

end BlockLang
