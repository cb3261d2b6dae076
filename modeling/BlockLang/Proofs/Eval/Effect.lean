import BlockLang.Eval
import BlockLang.Proofs.Ends
import BlockLang.Proofs.Scopes

/-!
# What evaluation does to the scopes

Evaluating a tree of the grammar in a live frame either gives a value or stops with an
error of the program.  If it stops, or if the tree is an expression, the scopes are as
they were before; a binding or an assignment that succeeds writes its name in the frame
and changes nothing else.

The frame need not be the newest.  A block makes a child, which is the newest while the
block runs, so its statements write the frame in front of the list,

    { frames := f :: older }  becomes  { frames := f' :: older },

and the release that follows finds the child where it is: `ends_withChild`.
-/

namespace BlockLang

open StepM

/-- Whether an error is one that programs have, and not about a foreign object. -/
def EvalError.isProgramError : EvalError → Bool
  | notEvaluable _ => false
  | _ => true

/-- Whether an error is about an operation and its operands. -/
def EvalError.isOfOperation : EvalError → Bool
  | unsupported .. | overflow .. | divisionByZero .. => true
  | unbound _ | notEvaluable _ => false

theorem EvalError.isProgramError_of_isOfOperation {e : EvalError} (h : e.isOfOperation = true) :
    e.isProgramError = true := by
  cases e with
  | unsupported | overflow | divisionByZero | unbound => rfl
  | notEvaluable => exact absurd h Bool.false_ne_true

/-- Whether evaluation stopped with an error of the program. -/
def EvalFault.IsProgramError (fault : EvalFault) : Prop :=
  ∃ e : EvalError, fault = .error e ∧ e.isProgramError = true

theorem Tree.areStatements_append (ts us : List Tree) :
    areStatements (ts ++ us) = (areStatements ts && areStatements us) := by
  induction ts with
  | nil => rfl
  | cons t ts ih => rw [List.cons_append, areStatements, areStatements, ih, Bool.and_assoc]

namespace Eval

variable {s : Scopes} {frame : Nat} {α : Type}

/-! ### Questions to the scopes and changes of them -/

theorem ends_ask {f : Scopes → Except ScopeFault α} {a : α} (h : f s = .ok a)
    {Q : α → Scopes → Prop} {E : EvalFault → Scopes → Prop} : Ends (ask f) s Q E ↔ Q a s := by
  unfold ask
  rw [ends_bind, ends_get, h]
  exact ends_pure

theorem ends_change {f : Scopes → Except ScopeFault Scopes} {s' : Scopes} (h : f s = .ok s')
    {Q : Unit → Scopes → Prop} {E : EvalFault → Scopes → Prop} :
    Ends (change f) s Q E ↔ Q () s' := by
  unfold change
  rw [ends_bind, ends_get, h]
  exact ends_set

theorem find_natCast (h : frame < s.size) (x : String) :
    s.find frame x = .ok (Scopes.lookupIn x s.frames frame) := by
  rw [Scopes.find, Scopes.number_natCast h]
  rfl

theorem store_natCast (h : frame < s.size) (x : String) (v : Value) :
    s.store frame x v = .ok (s.bound frame x v) := by
  rw [Scopes.store, Scopes.number_natCast h]
  rfl

theorem isProgramError_unbound (x : String) :
    EvalFault.IsProgramError (.error (.unbound x)) :=
  ⟨_, rfl, rfl⟩

theorem ends_lookup (h : frame < s.size) (x : String) :
    Ends (lookup frame x) s
      (fun v s' => Scopes.lookupIn x s.frames frame = some v ∧ s' = s)
      (fun fault s' => fault = .error (.unbound x)
        ∧ Scopes.lookupIn x s.frames frame = none ∧ s' = s) := by
  unfold lookup
  rw [ends_bind, ends_ask (find_natCast h x)]
  cases hx : Scopes.lookupIn x s.frames frame with
  | some v => exact ends_pure.2 ⟨rfl, rfl⟩
  | none => exact ends_throw.2 ⟨rfl, rfl, rfl⟩

theorem ends_store (h : frame < s.size) (x : String) (v : Value) :
    Ends (store frame x v) s (fun _ s' => s' = s.bound frame x v) (fun _ _ => False) :=
  (ends_change (store_natCast h x v)).2 rfl

/-! ### Child frames -/

theorem ends_newChild (h : frame < s.size) :
    Ends (newChild frame) s
      (fun child s' => child = s.size ∧ s' = { frames := { parent := some frame } :: s.frames })
      (fun _ _ => False) := by
  unfold newChild
  rw [ends_bind, ends_get, Scopes.newFrame, if_pos ⟨by omega, by omega⟩]
  dsimp only
  rw [ends_bind, ends_set, ends_pure, Int.toNat_natCast]
  exact ⟨rfl, rfl⟩

theorem ends_release (f : Frame) (s : Scopes) :
    Ends (change (fun s' => s'.release s.size)) { frames := f :: s.frames } (fun _ s' => s' = s)
      (fun _ _ => False) := by
  have hsize : ((s.size : Nat) : Int)
      = ((Scopes.size { frames := f :: s.frames } : Nat) : Int) - 1 := by
    simp [Scopes.size]
  have hrelease : Scopes.release { frames := f :: s.frames } s.size = .ok s := by
    rw [Scopes.release, if_pos hsize]
  exact (ends_change hrelease).2 rfl

/-- **A step in a child frame** leaves the scopes as they were, however it ends, if it leaves the
older frames alone. -/
theorem ends_withChild (h : frame < s.size) {body : Nat → EvalM α} {Q : α → Prop}
    {E : EvalFault → Prop}
    (hbody : Ends (body s.size) { frames := { parent := some frame } :: s.frames }
      (fun a s' => Q a ∧ ∃ f, s' = { frames := f :: s.frames })
      (fun fault s' => E fault ∧ ∃ f, s' = { frames := f :: s.frames })) :
    Ends (withChild frame body) s (fun a s' => Q a ∧ s' = s)
      (fun fault s' => E fault ∧ s' = s) := by
  unfold withChild
  refine (ends_newChild h).andThen ?_
  rintro child s₁ ⟨rfl, rfl⟩
  have houtcome : Ends (tryCatch (do return .ok (← body s.size))
        (fun fault => return .error fault) : EvalM (Except EvalFault α))
      { frames := { parent := some frame } :: s.frames }
      (fun r s' => ((∃ a, r = .ok a ∧ Q a) ∨ ∃ fault, r = .error fault ∧ E fault)
        ∧ ∃ f, s' = { frames := f :: s.frames })
      (fun _ _ => False) := by
    refine Ends.tryCatch (hbody.bind (fun a _ h => ?_) (fun _ _ h => h)) (fun _ _ h => h)
      (fun fault _ h => ?_)
    · exact ends_pure.2 ⟨.inl ⟨a, rfl, h.1⟩, h.2⟩
    · exact ends_pure.2 ⟨.inr ⟨fault, rfl, h.1⟩, h.2⟩
  refine houtcome.andThen ?_
  rintro _ s₂ ⟨hr, f, rfl⟩
  refine (ends_release f s).andThen ?_
  rintro _ s₃ rfl
  rcases hr with ⟨a, rfl, ha⟩ | ⟨fault, rfl, hfault⟩
  · exact ends_pure.2 ⟨ha, rfl⟩
  · exact ends_throw.2 ⟨hfault, rfl⟩

/-! ### Operations -/

theorem isOfOperation_of_checked {l r result : Int} {op : Operator} {e : EvalError}
    (h : checked l op r result = .error e) : e.isOfOperation = true := by
  unfold checked at h
  split at h
  · exact absurd h (by simp)
  · rw [← Except.error.inj h]
    rfl

theorem isOfOperation_of_calculate {l r : Int} {op : Operator} {e : EvalError}
    (h : calculate op l r = .error e) : e.isOfOperation = true := by
  unfold calculate at h
  split at h
  · exact isOfOperation_of_checked h
  · exact isOfOperation_of_checked h
  · exact isOfOperation_of_checked h
  · split at h
    · rw [← Except.error.inj h]
      rfl
    · exact isOfOperation_of_checked h

theorem isOfOperation_of_operate {op : Operator} {l r : Value} {e : EvalError}
    (h : operate op l r = .error e) : e.isOfOperation = true := by
  unfold operate at h
  split at h
  next l r =>
    rcases hc : calculate op l r with e' | n
    · rw [hc] at h
      rw [← Except.error.inj h]
      exact isOfOperation_of_calculate hc
    · rw [hc] at h
      exact absurd h (by simp [Functor.map, Except.map])
  · split at h
    · exact absurd h (by simp)
    · rw [← Except.error.inj h]
      rfl
  · rw [← Except.error.inj h]
    rfl

theorem isProgramError_of_operate {op : Operator} {l r : Value} {e : EvalError}
    (h : operate op l r = .error e) : e.isProgramError = true :=
  EvalError.isProgramError_of_isOfOperation (isOfOperation_of_operate h)

/-! ### Trees -/

/-- **The effect of a tree** that has a value: a binding or an assignment writes its name in the
frame, with the value of its expression, and any other tree changes nothing. -/
def Effect (frame : Nat) (s : Scopes) : Tree → Scopes → Prop
  | .declaration x, s' => s.Writes frame x .unit s'
  | .initialization x e, s' | .assignment x e, s' =>
    ∃ v, runFrom (evaluate frame e) s = (.ok v, s) ∧ s.Writes frame x v s'
  | _, s' => s' = s

variable {t : Tree} {s' : Scopes}

theorem Effect.eq_of_isExpression (h : Effect frame s t s') (ht : t.isExpression = true) :
    s' = s := by
  cases t with
  | number | text | name | operation | block => exact h
  | declaration | initialization | assignment | foreign => exact absurd ht Bool.false_ne_true

theorem Effect.eq_or_bound (h : Effect frame s t s') : s' = s ∨ ∃ x v, s' = s.bound frame x v := by
  cases t with
  | number | text | name | operation | block | foreign => exact .inl h
  | declaration x => exact .inr ⟨x, .unit, (Scopes.writes_iff.1 h).2⟩
  | initialization x | assignment x =>
    obtain ⟨v, -, hw⟩ := h
    exact .inr ⟨x, v, (Scopes.writes_iff.1 hw).2⟩

theorem Effect.wellFormed (h : Effect frame s t s') (hs : s.WellFormed) : s'.WellFormed := by
  rcases h.eq_or_bound with rfl | ⟨x, v, rfl⟩
  · exact hs
  · exact hs.bound frame x v

/-- A tree that is evaluated in the newest frame leaves the older frames alone. -/
theorem Effect.newest {f : Frame} {older : List Frame}
    (h : Effect older.length { frames := f :: older } t s') :
    ∃ f', s' = { frames := f' :: older } := by
  rcases h.eq_or_bound with rfl | ⟨x, v, rfl⟩
  · exact ⟨f, rfl⟩
  · exact ⟨_, Scopes.bound_newest f older x v⟩

mutual

/-- **Evaluation ends with the effect of its tree**, or with an error of the program and no
effect. -/
theorem ends_evaluate : ∀ (t : Tree) {s : Scopes} {frame : Nat}, t.isStatement = true →
    frame < s.size →
    Ends (evaluate frame t) s (fun _ s' => Effect frame s t s')
      (fun fault s' => fault.IsProgramError ∧ s' = s)
  | .number n, s, frame, _, _ => by
    rw [evaluate]
    exact ends_pure.2 rfl
  | .text v, s, frame, _, _ => by
    rw [evaluate]
    exact ends_pure.2 rfl
  | .name x, s, frame, _, hf => by
    rw [evaluate]
    refine (ends_lookup hf x).mono (fun _ _ h => h.2) ?_
    rintro _ s' ⟨rfl, -, rfl⟩
    exact ⟨isProgramError_unbound x, rfl⟩
  | .operation l r op, s, frame, ht, hf => by
    simp only [Tree.isStatement, Bool.and_eq_true] at ht
    rw [evaluate]
    refine (ends_evaluate l ht.1.1.2 hf).bind ?_ (fun _ _ h => h)
    intro v s₁ h₁
    obtain rfl := h₁.eq_of_isExpression ht.1.1.1
    refine (ends_evaluate r ht.2 hf).bind ?_ (fun _ _ h => h)
    intro w s₂ h₂
    obtain rfl := h₂.eq_of_isExpression ht.1.2
    rcases hop : operate op v w with e | u
    · exact ends_throw.2 ⟨⟨e, rfl, isProgramError_of_operate hop⟩, rfl⟩
    · exact ends_pure.2 rfl
  | .block [], s, frame, _, _ => by
    rw [evaluate]
    exact ends_pure.2 rfl
  | .block (stmt :: stmts), s, frame, ht, hf => by
    rw [Tree.isStatement] at ht
    rw [evaluate]
    refine (ends_withChild hf (Q := fun _ => True) (E := EvalFault.IsProgramError) ?_).mono
      (fun _ _ h => h.2) (fun _ _ h => h)
    exact (ends_runBlock (stmt :: stmts) ht { parent := some frame } s.frames).mono
      (fun _ _ h => ⟨trivial, h⟩) (fun _ _ h => h)
  | .declaration x, s, frame, _, hf => by
    rw [evaluate]
    refine (ends_store hf x .unit).andThen ?_
    rintro _ s₁ rfl
    exact ends_pure.2 (Scopes.writes_iff.2 ⟨hf, rfl⟩)
  | .initialization x e, s, frame, ht, hf => by
    simp only [Tree.isStatement, Bool.and_eq_true] at ht
    rw [evaluate]
    refine (ends_evaluate e ht.2 hf).run.bind ?_ (fun _ _ h => h)
    rintro v s₁ ⟨h₁, hrun⟩
    obtain rfl := h₁.eq_of_isExpression ht.1
    refine (ends_store hf x v).andThen ?_
    rintro _ s₂ rfl
    exact ends_pure.2 ⟨v, hrun, Scopes.writes_iff.2 ⟨hf, rfl⟩⟩
  | .assignment x e, s, frame, ht, hf => by
    simp only [Tree.isStatement, Bool.and_eq_true] at ht
    rw [evaluate]
    refine (ends_evaluate e ht.2 hf).run.bind ?_ (fun _ _ h => h)
    rintro v s₁ ⟨h₁, hrun⟩
    obtain rfl := h₁.eq_of_isExpression ht.1
    refine (ends_lookup hf x).bind ?_ ?_
    · rintro _ s₂ ⟨-, rfl⟩
      refine (ends_store hf x v).andThen ?_
      rintro _ s₃ rfl
      exact ends_pure.2 ⟨v, hrun, Scopes.writes_iff.2 ⟨hf, rfl⟩⟩
    · rintro _ s₂ ⟨rfl, -, rfl⟩
      exact ⟨isProgramError_unbound x, rfl⟩
  | .foreign kind, s, frame, ht, _ => absurd ht (by simp [Tree.isStatement])

/-- The statements of a block leave the frames behind the newest alone, however they end. -/
theorem ends_runBlock : ∀ (ts : List Tree), Tree.areStatements ts = true →
    ∀ (f : Frame) (older : List Frame),
    Ends (runBlock older.length ts) { frames := f :: older }
      (fun _ s' => ∃ f', s' = { frames := f' :: older })
      (fun fault s' => fault.IsProgramError ∧ ∃ f', s' = { frames := f' :: older })
  | [], _, f, older => by
    rw [runBlock]
    exact ends_pure.2 ⟨f, rfl⟩
  | t :: ts, hts, f, older => by
    simp only [Tree.areStatements, Bool.and_eq_true] at hts
    have heval : ∀ g : Frame, Ends (evaluate older.length t) { frames := g :: older }
        (fun _ s' => ∃ f', s' = { frames := f' :: older })
        (fun fault s' => fault.IsProgramError ∧ ∃ f', s' = { frames := f' :: older }) := by
      intro g
      refine (ends_evaluate t hts.1 (Nat.lt_succ_self older.length)).mono
        (fun _ _ h => h.newest) ?_
      rintro fault s' ⟨hfault, rfl⟩
      exact ⟨hfault, g, rfl⟩
    cases ts with
    | nil =>
      -- the last statement is run once more, in the frame that it left
      rw [runBlock]
      refine (heval f).bind ?_ (fun _ _ h => h)
      rintro _ s₁ ⟨f₁, rfl⟩
      exact heval f₁
    | cons u us =>
      rw [runBlock]
      refine (heval f).bind ?_ (fun _ _ h => h)
      rintro _ s₁ ⟨f₁, rfl⟩
      exact ends_runBlock (u :: us) hts.2 f₁ older

end

/-- **Evaluation has no effect but its own.**  In well-formed scopes and in any live frame, a tree
of the grammar either has a value, and the scopes stay well-formed and differ by the tree's effect
only; or evaluation stops with an error of the program, and the scopes are what they were. -/
theorem evaluate_effect {s : Scopes} {frame : Nat} {t : Tree} (hs : s.WellFormed)
    (hframe : frame < s.size) (ht : t.isStatement = true) :
    (∃ v s', runFrom (evaluate frame t) s = (.ok v, s') ∧ Effect frame s t s' ∧ s'.WellFormed)
      ∨ ∃ e, runFrom (evaluate frame t) s = (.error (.error e), s) ∧ e.isProgramError = true := by
  rcases ends_iff.1 (ends_evaluate t ht hframe) with ⟨v, s', hrun, heffect⟩ | ⟨_, s', hrun, h⟩
  · exact .inl ⟨v, s', hrun, heffect, heffect.wellFormed hs⟩
  · obtain ⟨⟨e, rfl, he⟩, rfl⟩ := h
    exact .inr ⟨e, hrun, he⟩

/-- Three frames, of which the newer two have the same parent. -/
def siblings : Scopes :=
  { frames := [{ parent := some 0, bindings := [("c", .unit)] },
      { parent := some 0, bindings := [("a", .number 3), ("b", .text "x")] }, { parent := none }] }

/-- `a = { let b; { a = 5; a } } / a;` -/
def nestedAssignment : Tree :=
  .assignment "a" (.operation
    (.block [.declaration "b", .block [.assignment "a" (.number 5), .name "a"]]) (.name "a") .div)

/-- An assignment in a frame that is not the newest, of a value that two nested blocks work out. -/
theorem evaluate_effect_siblings :
    siblings.WellFormed ∧ 1 < siblings.size ∧ nestedAssignment.isStatement = true
      ∧ ((∃ v s', runFrom (evaluate 1 nestedAssignment) siblings = (.ok v, s')
          ∧ Effect 1 siblings nestedAssignment s' ∧ s'.WellFormed)
        ∨ ∃ e, runFrom (evaluate 1 nestedAssignment) siblings = (.error (.error e), siblings)
          ∧ e.isProgramError = true) :=
  ⟨by decide, by decide, by decide, evaluate_effect (by decide) (by decide) (by decide)⟩

end Eval

end BlockLang
