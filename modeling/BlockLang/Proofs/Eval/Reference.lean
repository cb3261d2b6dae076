import BlockLang.Proofs.Eval.Effect
import BlockLang.Session

/-!
# Evaluation against a reference

The reference interpreter has no frames and no numbers: an environment is a list of
scopes, the innermost in front, and is never changed in place.  It runs every statement
of a block once, in a fresh innermost scope, and a block has the value of its last
statement.

Evaluation runs the last statement of a block once more for the block's value.  Where no
block ends with a binding, that statement is an expression, and an expression leaves the
scopes as they are: the second run gives what the first gave.  So evaluation ends as the
reference does, `ends_evaluate_run`, and the frame and its ancestors hold the
environment afterwards, as `Scopes.Chain` says.
-/

namespace BlockLang

open StepM

namespace Reference

/-- Scopes, the innermost in front. -/
abbrev Env := List (List (String × Value))

/-- The innermost value of a name. -/
def lookup (x : String) : Env → Option Value
  | [] => none
  | scope :: outer => (scope.lookup x).or (lookup x outer)

/-- Binds a name in the innermost scope. -/
def write (x : String) (v : Value) : Env → Env
  | [] => []
  | scope :: outer => Frame.bind x v scope :: outer

mutual

/-- **The value of a tree** in an environment, and the environment afterwards. -/
def run : Env → Tree → Except EvalError (Value × Env)
  | env, .number n => .ok (.number n, env)
  | env, .text s => .ok (.text s, env)
  | env, .name x =>
    match lookup x env with
    | some v => .ok (v, env)
    | none => .error (.unbound x)
  | env, .operation left right op => do
    let (l, env) ← run env left
    let (r, env) ← run env right
    let v ← Eval.operate op l r
    return (v, env)
  | env, .block stmts => do
    let (v, _) ← runAll ([] :: env) stmts
    return (v, env)
  | env, .declaration x => .ok (.unit, write x .unit env)
  | env, .initialization x value => do
    let (v, env) ← run env value
    return (.unit, write x v env)
  | env, .assignment x value => do
    let (v, env) ← run env value
    match lookup x env with
    | some _ => return (.unit, write x v env)
    | none => throw (.unbound x)
  | _, .foreign kind => .error (.notEvaluable kind)

/-- Runs statements in order, each once.  The value is that of the last. -/
def runAll : Env → List Tree → Except EvalError (Value × Env)
  | env, [] => .ok (.unit, env)
  | env, [stmt] => run env stmt
  | env, stmt :: next :: stmts => do
    let (_, env) ← run env stmt
    runAll env (next :: stmts)

end

end Reference

namespace Scopes

open Reference

variable {s s' : Scopes} {n : Nat} {env : Env}

/-- **The environment of a frame**: its bindings, then those of its parent, and so on to a frame
without one. -/
inductive Chain (s : Scopes) : Nat → Env → Prop
  | root {n : Nat} {f : Frame} (hf : frameIn s.frames n = some f) (hp : f.parent = none) :
      Chain s n [f.bindings]
  | child {n p : Nat} {f : Frame} {env : Env} (hf : frameIn s.frames n = some f)
      (hp : f.parent = some p) (h : Chain s p env) : Chain s n (f.bindings :: env)

theorem exists_chain (hs : s.WellFormed) (hn : n < s.size) : ∃ env, s.Chain n env := by
  induction n using Nat.strongRecOn with
  | _ n ih =>
    obtain ⟨f, hf⟩ := exists_frameIn hn
    cases hp : f.parent with
    | none => exact ⟨_, .root hf hp⟩
    | some p =>
      have hlt := hs n f p hf hp
      obtain ⟨env, henv⟩ := ih p hlt (Nat.lt_trans hlt hn)
      exact ⟨_, .child hf hp henv⟩

namespace Chain

theorem lt_size (h : s.Chain n env) : n < s.size := by
  cases h with
  | root hf => exact lt_of_frameIn hf
  | child hf => exact lt_of_frameIn hf

/-- **A lookup in a frame is one in its environment.** -/
theorem lookupIn_eq (h : s.Chain n env) (hs : s.WellFormed) (x : String) :
    lookupIn x s.frames n = lookup x env := by
  induction h with
  | root hf hp =>
    rw [hs.lookupIn_eq x hf, hp]
    rfl
  | child hf hp _ ih =>
    rw [hs.lookupIn_eq x hf, hp, Option.bind_some, ih]
    rfl

/-- An environment depends on the frames up to its own only. -/
theorem of_frameIn_eq (h : s.Chain n env) (hs : s.WellFormed)
    (hsame : ∀ m, m ≤ n → frameIn s'.frames m = frameIn s.frames m) : s'.Chain n env := by
  induction h with
  | root hf hp => exact .root ((hsame _ (Nat.le_refl _)).trans hf) hp
  | child hf hp _ ih =>
    have hlt := hs _ _ _ hf hp
    exact .child ((hsame _ (Nat.le_refl _)).trans hf) hp
      (ih (fun m hm => hsame m (by omega)))

theorem newest (h : s.Chain n env) (hs : s.WellFormed) :
    Chain { frames := { parent := some n } :: s.frames } s.size ([] :: env) := by
  refine .child (f := { parent := some n }) (frameIn_newest _ _) rfl (h.of_frameIn_eq hs ?_)
  intro m hm
  have hlt := h.lt_size
  exact frameIn_older _ (Nat.ne_of_lt (Nat.lt_of_le_of_lt hm hlt))

theorem bound (h : s.Chain n env) (hs : s.WellFormed) (x : String) (v : Value) :
    (s.bound n x v).Chain n (write x v env) := by
  have hown : ∀ {f : Frame}, frameIn s.frames n = some f →
      frameIn (s.bound n x v).frames n = some (f.store x v) := by
    intro f hf
    rw [Scopes.bound, frameIn_modifyIn_self, hf, Option.map_some]
  cases h with
  | root hf hp => exact .root (hown hf) hp
  | child hf hp henv =>
    have hlt := hs _ _ _ hf hp
    refine .child (hown hf) hp (henv.of_frameIn_eq hs (fun m hm => ?_))
    exact frameIn_modifyIn_ne _ _ (by omega)

end Chain

end Scopes

namespace Eval

open Reference

theorem isExpression_of_endsWithBinding {t : Tree} (ht : t.isStatement = true)
    (h : Session.endsWithBinding [t] = false) : t.isExpression = true := by
  cases t with
  | number | text | name | operation | block => rfl
  | declaration | initialization | assignment =>
    exact absurd h (by simp [Session.endsWithBinding, Tree.isBinding])
  | foreign => exact absurd ht (by simp [Tree.isStatement])

theorem endsWithBinding_cons_cons (t u : Tree) (ts : List Tree) :
    Session.endsWithBinding (t :: u :: ts) = Session.endsWithBinding (u :: ts) := by
  rw [Session.endsWithBinding, Session.endsWithBinding, List.getLast?_cons_cons]

mutual

/-- **Evaluation ends as the reference does**, if no block of the tree ends with a binding. -/
theorem ends_evaluate_run : ∀ (t : Tree) {s : Scopes} {frame : Nat} {env : Env},
    t.isStatement = true → (∀ b ∈ t.blocks, Session.endsWithBinding b = false) →
    s.WellFormed → s.Chain frame env →
    Ends (evaluate frame t) s
      (fun v s' => ∃ env', run env t = .ok (v, env') ∧ s'.Chain frame env')
      (fun fault _ => ∃ e, fault = .error e ∧ run env t = .error e)
  | .number n, s, frame, env, _, _, _, hchain => by
    rw [evaluate]
    exact ends_pure.2 ⟨env, by rw [run], hchain⟩
  | .text v, s, frame, env, _, _, _, hchain => by
    rw [evaluate]
    exact ends_pure.2 ⟨env, by rw [run], hchain⟩
  | .name x, s, frame, env, _, _, hs, hchain => by
    rw [evaluate]
    refine (ends_lookup hchain.lt_size x).mono ?_ ?_
    · rintro v s' ⟨hx, rfl⟩
      rw [hchain.lookupIn_eq hs] at hx
      exact ⟨env, by rw [run, hx], hchain⟩
    · rintro fault s' ⟨rfl, hx, -⟩
      rw [hchain.lookupIn_eq hs] at hx
      exact ⟨_, rfl, by rw [run, hx]⟩
  | .operation l r op, s, frame, env, ht, hquiet, hs, hchain => by
    simp only [Tree.isStatement, Bool.and_eq_true] at ht
    rw [Tree.blocks] at hquiet
    have hl := ends_evaluate_run l ht.1.1.2 (fun b hb => hquiet b (List.mem_append_left _ hb)) hs
      hchain
    rw [evaluate]
    refine (hl.and (ends_evaluate l ht.1.1.2 hchain.lt_size)).bind ?_ ?_
    · rintro v s₁ ⟨⟨env₁, hrun₁, hchain₁⟩, heffect₁⟩
      obtain rfl := heffect₁.eq_of_isExpression ht.1.1.1
      have hr := ends_evaluate_run r ht.2 (fun b hb => hquiet b (List.mem_append_right _ hb)) hs
        hchain₁
      refine hr.bind ?_ ?_
      · rintro w s₂ ⟨env₂, hrun₂, hchain₂⟩
        rcases hop : operate op v w with e | u
        · exact ends_throw.2 ⟨e, rfl, by simp [run, Except.bind, bind, hrun₁, hrun₂, hop]⟩
        · exact ends_pure.2
            ⟨env₂, by simp [run, Except.bind, bind, hrun₁, hrun₂, hop]; rfl, hchain₂⟩
      · rintro fault s₂ ⟨e, rfl, hrun₂⟩
        exact ⟨e, rfl, by simp [run, Except.bind, bind, hrun₁, hrun₂]⟩
    · rintro fault s₁ ⟨⟨e, rfl, hrun₁⟩, -⟩
      refine ⟨e, rfl, ?_⟩
      rw [run, hrun₁]
      rfl
  | .block [], s, frame, env, _, _, _, hchain => by
    rw [evaluate]
    exact ends_pure.2 ⟨env, by rw [run, runAll]; rfl, hchain⟩
  | .block (stmt :: stmts), s, frame, env, ht, hquiet, hs, hchain => by
    rw [Tree.isStatement] at ht
    rw [Tree.blocks] at hquiet
    have hbody := ends_runBlock_run (stmt :: stmts) ht
      (fun b hb => hquiet b (List.mem_cons_of_mem _ hb)) (hquiet _ List.mem_cons_self)
      (List.cons_ne_nil _ _) (hs.child hchain.lt_size []) (hchain.newest hs)
    have hframes := ends_runBlock (stmt :: stmts) ht { parent := some frame } s.frames
    rw [evaluate]
    refine (ends_withChild hchain.lt_size (hbody.and hframes |>.mono
      (fun _ _ h => h) (fun _ _ h => ⟨h.1, h.2.2⟩))).mono ?_ ?_
    · rintro v s' ⟨⟨env', hrun⟩, rfl⟩
      exact ⟨env, by rw [run, hrun]; rfl, hchain⟩
    · rintro fault s' ⟨⟨e, rfl, hrun⟩, -⟩
      exact ⟨e, rfl, by rw [run, hrun]; rfl⟩
  | .declaration x, s, frame, env, _, _, hs, hchain => by
    rw [evaluate]
    refine (ends_store hchain.lt_size x .unit).andThen ?_
    rintro _ s₁ rfl
    exact ends_pure.2 ⟨_, by rw [run], hchain.bound hs x .unit⟩
  | .initialization x e, s, frame, env, ht, hquiet, hs, hchain => by
    simp only [Tree.isStatement, Bool.and_eq_true] at ht
    rw [Tree.blocks] at hquiet
    rw [evaluate]
    refine ((ends_evaluate_run e ht.2 hquiet hs hchain).and
      (ends_evaluate e ht.2 hchain.lt_size)).bind ?_ ?_
    · rintro v s₁ ⟨⟨env₁, hrun, hchain₁⟩, heffect⟩
      refine (ends_store hchain₁.lt_size x v).andThen ?_
      rintro _ s₂ rfl
      exact ends_pure.2 ⟨_, by rw [run, hrun]; rfl, hchain₁.bound (heffect.wellFormed hs) x v⟩
    · rintro fault s₁ ⟨⟨err, rfl, hrun⟩, -⟩
      exact ⟨err, rfl, by rw [run, hrun]; rfl⟩
  | .assignment x e, s, frame, env, ht, hquiet, hs, hchain => by
    simp only [Tree.isStatement, Bool.and_eq_true] at ht
    rw [Tree.blocks] at hquiet
    rw [evaluate]
    refine ((ends_evaluate_run e ht.2 hquiet hs hchain).and
      (ends_evaluate e ht.2 hchain.lt_size)).bind ?_ ?_
    · rintro v s₁ ⟨⟨env₁, hrun, hchain₁⟩, heffect⟩
      have hs₁ := heffect.wellFormed hs
      refine (ends_lookup hchain₁.lt_size x).bind ?_ ?_
      · rintro w s₂ ⟨hx, rfl⟩
        rw [hchain₁.lookupIn_eq hs₁] at hx
        refine (ends_store hchain₁.lt_size x v).andThen ?_
        rintro _ s₃ rfl
        exact ends_pure.2
          ⟨_, by simp [run, Except.bind, bind, hrun, hx]; rfl, hchain₁.bound hs₁ x v⟩
      · rintro fault s₂ ⟨rfl, hx, -⟩
        rw [hchain₁.lookupIn_eq hs₁] at hx
        exact ⟨_, rfl, by simp [run, Except.bind, bind, hrun, hx]; rfl⟩
    · rintro fault s₁ ⟨⟨err, rfl, hrun⟩, -⟩
      exact ⟨err, rfl, by rw [run, hrun]; rfl⟩
  | .foreign kind, s, frame, env, ht, _, _, _ => absurd ht (by simp [Tree.isStatement])

theorem ends_runBlock_run : ∀ (ts : List Tree) {s : Scopes} {frame : Nat} {env : Env},
    Tree.areStatements ts = true → (∀ b ∈ Tree.blocksIn ts, Session.endsWithBinding b = false) →
    Session.endsWithBinding ts = false → ts ≠ [] → s.WellFormed → s.Chain frame env →
    Ends (runBlock frame ts) s
      (fun v _ => ∃ env', runAll env ts = .ok (v, env'))
      (fun fault _ => ∃ e, fault = .error e ∧ runAll env ts = .error e)
  | [], _, _, _, _, _, _, hne, _, _ => absurd rfl hne
  | [t], s, frame, env, hts, hquiet, hlast, _, hs, hchain => by
    simp only [Tree.areStatements, Bool.and_true] at hts
    have ht := ends_evaluate_run t hts
      (fun b hb => hquiet b (List.mem_append_left _ hb)) hs hchain
    rw [runBlock, runAll]
    refine (ht.and (ends_evaluate t hts hchain.lt_size)).bind ?_ (fun _ _ h => h.1)
    rintro _ s₁ ⟨-, heffect⟩
    -- an expression leaves the scopes as they are, so that it is evaluated in them again
    obtain rfl := heffect.eq_of_isExpression (isExpression_of_endsWithBinding hts hlast)
    exact ht.mono (fun _ _ ⟨env', hrun, _⟩ => ⟨env', hrun⟩) (fun _ _ h => h)
  | t :: u :: ts, s, frame, env, hts, hquiet, hlast, _, hs, hchain => by
    rw [Tree.areStatements, Bool.and_eq_true] at hts
    rw [endsWithBinding_cons_cons] at hlast
    have ht := ends_evaluate_run t hts.1
      (fun b hb => hquiet b (List.mem_append_left _ hb)) hs hchain
    rw [runBlock]
    refine (ht.and (ends_evaluate t hts.1 hchain.lt_size)).bind ?_ ?_
    · rintro v s₁ ⟨⟨env₁, hrun, hchain₁⟩, heffect⟩
      have hrest := ends_runBlock_run (u :: ts) hts.2
        (fun b hb => hquiet b (List.mem_append_right _ hb)) hlast (List.cons_ne_nil _ _)
        (heffect.wellFormed hs) hchain₁
      have hall : runAll env (t :: u :: ts) = runAll env₁ (u :: ts) := by
        rw [runAll, hrun]
        rfl
      rw [hall]
      exact hrest
    · rintro fault s₁ ⟨⟨e, rfl, hrun⟩, -⟩
      exact ⟨e, rfl, by rw [runAll, hrun]; rfl⟩

end

/-- **Evaluation agrees with the reference.**  In well-formed scopes and in any live frame, a tree
of the grammar in which no block ends with a binding has the value that it has in the frame's
environment, and leaves the frame and its ancestors with the environment that the reference leaves;
or it stops with the same error and changes nothing. -/
theorem evaluate_eq_reference {s : Scopes} {frame : Nat} {t : Tree} (hs : s.WellFormed)
    (hframe : frame < s.size) (ht : t.isStatement = true)
    (hquiet : ∀ b ∈ t.blocks, Session.endsWithBinding b = false) :
    (∃ env, s.Chain frame env) ∧ ∀ env, s.Chain frame env →
      match Reference.run env t with
      | .ok (v, env') => ∃ s', runFrom (evaluate frame t) s = (.ok v, s') ∧ s'.Chain frame env'
      | .error e => runFrom (evaluate frame t) s = (.error (.error e), s) := by
  refine ⟨Scopes.exists_chain hs hframe, fun env henv => ?_⟩
  have hends := (ends_evaluate_run t ht hquiet hs henv).and (ends_evaluate t ht hframe)
  rcases ends_iff.1 hends with ⟨v, s', hrun, ⟨env', href, hchain⟩, -⟩ | ⟨_, s', hrun, hstop⟩
  · rw [href]
    exact ⟨s', hrun, hchain⟩
  · obtain ⟨⟨e, rfl, href⟩, -, rfl⟩ := hstop
    rw [href]
    exact hrun

/-- An assignment in the older of two siblings, of a value that two nested blocks work out. -/
theorem evaluate_eq_reference_siblings :
    siblings.WellFormed ∧ 1 < siblings.size ∧ nestedAssignment.isStatement = true
      ∧ (∀ b ∈ nestedAssignment.blocks, Session.endsWithBinding b = false)
      ∧ siblings.Chain 1 [[("a", .number 3), ("b", .text "x")], []]
      ∧ ∃ s', runFrom (evaluate 1 nestedAssignment) siblings = (.ok .unit, s')
        ∧ s'.Chain 1 [[("a", .number 1), ("b", .text "x")], []] := by
  have hroot : siblings.Chain 0 [[]] := .root (f := { parent := none }) rfl rfl
  have hchain : siblings.Chain 1 [[("a", .number 3), ("b", .text "x")], []] :=
    .child (f := { parent := some 0, bindings := [("a", .number 3), ("b", .text "x")] }) rfl rfl
      hroot
  have hquiet : ∀ b ∈ nestedAssignment.blocks, Session.endsWithBinding b = false := by
    simp [nestedAssignment, Tree.blocks, Tree.blocksIn, Session.endsWithBinding, Tree.isBinding]
  have hrun : Reference.run [[("a", .number 3), ("b", .text "x")], []] nestedAssignment
      = .ok (.unit, [[("a", .number 1), ("b", .text "x")], []]) := by rfl
  refine ⟨by decide, by decide, by decide, hquiet, hchain, ?_⟩
  have h := (evaluate_eq_reference (by decide) (by decide) (by decide) hquiet).2 _ hchain
  rw [hrun] at h
  exact h

end Eval

end BlockLang
