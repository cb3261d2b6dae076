import BlockLang.Proofs.Eval.Visible

/-!
# Names that are in scope

Whether every name of a statement is bound can be told without evaluating it.  A set of
names is known in front of a statement.  A `let` adds its name, after its initializer was
checked with the names in front of it; a block starts with the names that are known around
it, and what it adds is dropped at its end.  A statement is in scope of the known names if
every name that it uses or assigns is known where it does so.

Evaluation then never misses a name.  It is enough that the known names are among the
visible ones, not that they are the same: the last statement of a block runs twice, and its
second run sees a name that is not known to it,

    { let a = 1; let b = a; }  runs  let a = 1;  let b = a;  let b = a;

so that the induction is on names that are visible at least.
-/

namespace BlockLang

open StepM

/-! ### The judgement -/

namespace Tree

/-- Whether a statement introduces a name: it is a `let` of this name. -/
def introduces : Tree → String → Bool
  | declaration x, y | initialization x _, y => x == y
  | _, _ => false

/-- Whether a statement binds a name in the frame that it runs in, by `let` or by assignment. -/
def binds : Tree → String → Bool
  | declaration x, y | initialization x _, y | assignment x _, y => x == y
  | _, _ => false

mutual

/-- **In scope of the known names**: every name that a statement uses or assigns is known in front
of the statement, or was introduced by an earlier `let` of the same block or of one around it. -/
def inScope (known : String → Bool) : Tree → Bool
  | name x => known x
  | operation l r _ => l.inScope known && r.inScope known
  | block stmts => areInScope known stmts
  | initialization _ value => value.inScope known
  | assignment x value => known x && value.inScope known
  | number _ | text _ | declaration _ | foreign _ => true

/-- The statements of a block, each in scope of the names that are known when it comes to it. -/
def areInScope (known : String → Bool) : List Tree → Bool
  | [] => true
  | t :: ts => t.inScope known && areInScope (fun y => known y || t.introduces y) ts

end

theorem binds_of_introduces {t : Tree} {y : String} (h : t.introduces y = true) :
    t.binds y = true := by
  cases t with
  | declaration | initialization => exact h
  | number | text | name | operation | block | assignment | foreign =>
    exact absurd h Bool.false_ne_true

end Tree

namespace Scopes

/-- Whether a frame sees a name, in its own bindings or in those of an ancestor. -/
def visible (s : Scopes) (frame : Nat) (x : String) : Bool :=
  (lookupIn x s.frames frame).isSome

variable {s : Scopes} {frame : Nat}

theorem visible_bound (h : frame < s.size) (x y : String) (v : Value) :
    (s.bound frame x v).visible frame y = (s.visible frame y || x == y) := by
  rw [visible, visible, lookupIn_bound h]
  by_cases hy : y = x
  · simp [hy]
  · simp [hy, Ne.symm hy]

theorem visible_extended (s : Scopes) (frame : Nat) (x : String) :
    (s.extended frame).visible s.size x = s.visible frame x := by
  rw [visible, visible, lookupIn_extended]

end Scopes

namespace Eval

open Scopes

variable {s s' : Scopes} {frame : Nat} {t : Tree}

/-! ### What is visible afterwards -/

/-- A frame sees the names that it saw, and the one that the tree bound. -/
theorem Effect.visible_eq (h : Effect frame s t s') (y : String) :
    s'.visible frame y = (s.visible frame y || t.binds y) := by
  cases t with
  | number | text | name | operation | block | foreign =>
    obtain rfl : s' = s := h
    exact (Bool.or_false _).symm
  | declaration x =>
    obtain ⟨hlive, rfl⟩ := writes_iff.1 h
    exact visible_bound hlive x y .unit
  | initialization x | assignment x =>
    obtain ⟨v, -, hw⟩ := h
    obtain ⟨hlive, rfl⟩ := writes_iff.1 hw
    exact visible_bound hlive x y v

theorem Effect.size_eq (h : Effect frame s t s') : s'.size = s.size := by
  rcases h.eq_or_bound with rfl | ⟨x, v, rfl⟩
  · rfl
  · exact size_bound s frame x v

/-! ### Evaluation -/

/-- The step does not miss a name. -/
abbrev Finds (p : EvalM Value) (s : Scopes) : Prop :=
  Ends p s (fun _ _ => True) (fun fault _ => ∀ x, fault ≠ .error (.unbound x))

theorem ends_lookup_of_visible (h : frame < s.size) {x : String}
    (hx : s.visible frame x = true) :
    Ends (lookup frame x) s (fun _ s' => s' = s) (fun _ _ => False) := by
  refine (ends_lookup h x).mono (fun _ _ h => h.2) ?_
  rintro _ _ ⟨-, hnone, -⟩
  rw [visible, hnone] at hx
  exact Bool.false_ne_true hx

theorem ne_unbound_of_isOfOperation {e : EvalError} (h : e.isOfOperation = true) (x : String) :
    e ≠ .unbound x := by
  rintro rfl
  exact Bool.false_ne_true h

mutual

/-- **A tree in scope of names that the frame sees** does not miss a name. -/
theorem finds_evaluate : ∀ (t : Tree) {s : Scopes} {frame : Nat} {known : String → Bool},
    t.isStatement = true → frame < s.size → (∀ x, known x = true → s.visible frame x = true) →
    t.inScope known = true → Finds (evaluate frame t) s
  | .number n, s, frame, known, _, _, _, _ => by
    rw [evaluate]
    exact ends_pure.2 trivial
  | .text v, s, frame, known, _, _, _, _ => by
    rw [evaluate]
    exact ends_pure.2 trivial
  | .name x, s, frame, known, _, hf, hknown, hx => by
    rw [evaluate]
    exact (ends_lookup_of_visible hf (hknown x hx)).mono (fun _ _ _ => trivial)
      (fun _ _ h => h.elim)
  | .operation l r op, s, frame, known, ht, hf, hknown, hin => by
    simp only [Tree.isStatement, Bool.and_eq_true] at ht
    rw [Tree.inScope, Bool.and_eq_true] at hin
    rw [evaluate]
    refine ((finds_evaluate l ht.1.1.2 hf hknown hin.1).and (ends_evaluate l ht.1.1.2 hf)).bind ?_
      (fun _ _ h => h.1)
    rintro v s₁ ⟨-, h₁⟩
    obtain rfl := h₁.eq_of_isExpression ht.1.1.1
    refine (finds_evaluate r ht.2 hf hknown hin.2).bind ?_ (fun _ _ h => h)
    intro w s₂ _
    rcases hop : operate op v w with e | u
    · exact ends_throw.2 (fun x he =>
        ne_unbound_of_isOfOperation (isOfOperation_of_operate hop) x (EvalFault.error.inj he))
    · exact ends_pure.2 trivial
  | .block [], s, frame, known, _, _, _, _ => by
    rw [evaluate]
    exact ends_pure.2 trivial
  | .block (stmt :: stmts), s, frame, known, ht, hf, hknown, hin => by
    rw [Tree.isStatement] at ht
    rw [Tree.inScope] at hin
    have hbody : Finds (runBlock s.size (stmt :: stmts)) (s.extended frame) := by
      refine finds_runBlock (stmt :: stmts) ht (Nat.lt_succ_self _) (fun x hx => ?_) hin
      rw [visible_extended]
      exact hknown x hx
    rw [evaluate]
    refine (ends_withChild hf ((hbody.and (ends_runBlock (stmt :: stmts) ht { parent := some frame }
      s.frames)).mono (fun _ _ h => h) (fun _ _ h => ⟨h.1, h.2.2⟩))).mono
      (fun _ _ _ => trivial) (fun _ _ h => h.1)
  | .declaration x, s, frame, known, _, hf, _, _ => by
    rw [evaluate]
    exact (ends_store hf x .unit).andThen (fun _ _ _ => ends_pure.2 trivial)
  | .initialization x e, s, frame, known, ht, hf, hknown, hin => by
    simp only [Tree.isStatement, Bool.and_eq_true] at ht
    rw [evaluate]
    refine ((finds_evaluate e ht.2 hf hknown hin).and (ends_evaluate e ht.2 hf)).bind ?_
      (fun _ _ h => h.1)
    rintro v s₁ ⟨-, h₁⟩
    obtain rfl := h₁.eq_of_isExpression ht.1
    exact (ends_store hf x v).andThen (fun _ _ _ => ends_pure.2 trivial)
  | .assignment x e, s, frame, known, ht, hf, hknown, hin => by
    simp only [Tree.isStatement, Bool.and_eq_true] at ht
    rw [Tree.inScope, Bool.and_eq_true] at hin
    rw [evaluate]
    refine ((finds_evaluate e ht.2 hf hknown hin.2).and (ends_evaluate e ht.2 hf)).bind ?_
      (fun _ _ h => h.1)
    rintro v s₁ ⟨-, h₁⟩
    obtain rfl := h₁.eq_of_isExpression ht.1
    refine (ends_lookup_of_visible hf (hknown x hin.1)).andThen ?_
    rintro _ s₂ rfl
    exact (ends_store hf x v).andThen (fun _ _ _ => ends_pure.2 trivial)
  | .foreign kind, _, _, _, ht, _, _, _ => absurd ht (by simp [Tree.isStatement])

/-- The statements of a block in scope of names that the frame sees do not miss a name. -/
theorem finds_runBlock : ∀ (ts : List Tree) {s : Scopes} {frame : Nat} {known : String → Bool},
    Tree.areStatements ts = true → frame < s.size →
    (∀ x, known x = true → s.visible frame x = true) → Tree.areInScope known ts = true →
    Finds (runBlock frame ts) s
  | [], _, _, _, _, _, _, _ => by
    rw [runBlock]
    exact ends_pure.2 trivial
  | t :: ts, s, frame, known, hts, hf, hknown, hin => by
    rw [Tree.areStatements, Bool.and_eq_true] at hts
    rw [Tree.areInScope, Bool.and_eq_true] at hin
    have ht := (finds_evaluate t hts.1 hf hknown hin.1).and (ends_evaluate t hts.1 hf)
    cases ts with
    | nil =>
      rw [runBlock]
      refine ht.bind ?_ (fun _ _ h => h.1)
      -- the second run of the last statement sees what the first bound besides
      rintro _ s₁ ⟨-, h₁⟩
      refine finds_evaluate t hts.1 (h₁.size_eq.symm ▸ hf) (fun x hx => ?_) hin.1
      rw [h₁.visible_eq, hknown x hx, Bool.true_or]
    | cons u us =>
      rw [runBlock]
      refine ht.bind ?_ (fun _ _ h => h.1)
      rintro _ s₁ ⟨-, h₁⟩
      refine finds_runBlock (u :: us) hts.2 (h₁.size_eq.symm ▸ hf) (fun x hx => ?_) hin.2
      rw [h₁.visible_eq, Bool.or_eq_true]
      exact (Bool.or_eq_true_iff.1 hx).imp (hknown x) Tree.binds_of_introduces

end

/-- **A statement in scope of the visible names never misses a name.**  In well-formed scopes and
in any live frame it has a value, and then the frame sees the names that it saw before and the one
that the statement binds; or it stops with an error of the program that is not about an unbound
name, and the scopes are what they were. -/
theorem evaluate_of_inScope {s : Scopes} {frame : Nat} {t : Tree} (hs : s.WellFormed)
    (hframe : frame < s.size) (ht : t.isStatement = true)
    (hin : t.inScope (s.visible frame) = true) :
    (∃ v s', runFrom (evaluate frame t) s = (.ok v, s') ∧ s'.WellFormed
        ∧ ∀ y, s'.visible frame y = true ↔ s.visible frame y = true ∨ t.binds y = true)
      ∨ ∃ e, runFrom (evaluate frame t) s = (.error (.error e), s) ∧ e.isProgramError = true
        ∧ ∀ x, e ≠ .unbound x := by
  have hends := (ends_evaluate t ht hframe).and (finds_evaluate t ht hframe (fun _ hx => hx) hin)
  rcases ends_iff.1 hends with ⟨v, s', hrun, heffect, -⟩ | ⟨_, s', hrun, ⟨⟨e, rfl, he⟩, rfl⟩, hne⟩
  · refine .inl ⟨v, s', hrun, heffect.wellFormed hs, fun y => ?_⟩
    rw [heffect.visible_eq, Bool.or_eq_true]
  · exact .inr ⟨e, hrun, he, fun x hx => hne x (congrArg EvalFault.error hx)⟩

/-- `{ let c = a; { b = c; let a; a = c; } let d = { a }; }` -/
def nestedBindings : Tree :=
  .block [.initialization "c" (.name "a"),
    .block [.assignment "b" (.name "c"), .declaration "a", .assignment "a" (.name "c")],
    .initialization "d" (.block [.name "a"])]

/-- A block in the older of two siblings that binds, shadows and assigns names, and of whose two
bindings at an end the second runs see more than the first. -/
theorem evaluate_of_inScope_siblings :
    siblings.WellFormed ∧ 1 < siblings.size ∧ nestedBindings.isStatement = true
      ∧ nestedBindings.inScope (siblings.visible 1) = true
      ∧ ((∃ v s', runFrom (evaluate 1 nestedBindings) siblings = (.ok v, s') ∧ s'.WellFormed
          ∧ ∀ y, s'.visible 1 y = true ↔ siblings.visible 1 y = true ∨ nestedBindings.binds y = true)
        ∨ ∃ e, runFrom (evaluate 1 nestedBindings) siblings = (.error (.error e), siblings)
          ∧ e.isProgramError = true ∧ ∀ x, e ≠ .unbound x) :=
  ⟨by decide, by decide, by decide, by decide,
    evaluate_of_inScope (by decide) (by decide) (by decide) (by decide)⟩

end Eval

end BlockLang
