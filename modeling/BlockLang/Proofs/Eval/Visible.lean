import BlockLang.Proofs.Eval.Effect

/-!
# What evaluation can see

Two frames, each in scopes of its own, look alike to a tree if every name that occurs in
the tree has the same value from both.  How deep the frames are, under which numbers, and
what else is bound there makes no difference: evaluation has the same outcome in both, and
it binds the same names to the same values in the same order,

    s becomes s.boundAll frame writes,    s' becomes s'.boundAll frame' writes,

so that the frames look alike afterwards, too.  `Matched` is this relation of two runs.
It is kept by sequence, and a block, which does its writing in a frame that it releases,
has written nothing in the end.

In particular nothing depends on frames off the chain, or on bindings that a newer frame of
the chain shadows.
-/

namespace BlockLang

open StepM

namespace Tree

mutual

/-- **The names that occur in a tree**, used, bound or assigned. -/
def names : Tree → List String
  | name x | declaration x => [x]
  | operation l r _ => l.names ++ r.names
  | block stmts => namesIn stmts
  | initialization x value | assignment x value => x :: value.names
  | number _ | text _ | foreign _ => []

/-- The names that occur in the trees of a list. -/
def namesIn : List Tree → List String
  | [] => []
  | t :: ts => t.names ++ namesIn ts

end

end Tree

namespace Scopes

variable {s s' : Scopes} {n n' : Nat} {xs ys : List String}

/-! ### The same writes -/

/-- The scopes with names bound in a frame, one after the other. -/
def boundAll (s : Scopes) (n : Nat) (writes : List (String × Value)) : Scopes :=
  writes.foldl (fun s w => s.bound n w.1 w.2) s

theorem boundAll_append (s : Scopes) (n : Nat) (ws ws' : List (String × Value)) :
    s.boundAll n (ws ++ ws') = (s.boundAll n ws).boundAll n ws' :=
  List.foldl_append

theorem WellFormed.boundAll (hs : s.WellFormed) (n : Nat) (ws : List (String × Value)) :
    (s.boundAll n ws).WellFormed := by
  induction ws generalizing s with
  | nil => exact hs
  | cons w ws ih => exact ih (hs.bound n w.1 w.2)

theorem boundAll_newest (f : Frame) (older : List Frame) (ws : List (String × Value)) :
    ∃ f', boundAll { frames := f :: older } older.length ws = { frames := f' :: older } := by
  induction ws generalizing f with
  | nil => exact ⟨f, rfl⟩
  | cons w ws ih =>
    obtain ⟨f', hf'⟩ := ih (f.store w.1 w.2)
    refine ⟨f', ?_⟩
    rw [← hf', ← bound_newest]
    rfl

theorem lookupIn_bound (hn : n < s.size) (x y : String) (v : Value) :
    lookupIn y (s.bound n x v).frames n = if y = x then some v else lookupIn y s.frames n := by
  obtain ⟨fs⟩ := s
  show lookupIn y (modifyIn (fun f => f.store x v) fs n) n = _
  induction fs with
  | nil => exact absurd hn (Nat.not_lt_zero n)
  | cons f older ih =>
    by_cases h : n = older.length
    · rw [modifyIn, if_pos h, lookupIn, lookupIn, if_pos h, if_pos h, Frame.find?_store]
      by_cases hy : y = x
      · rw [if_pos hy, if_pos hy]
      · rw [if_neg hy, if_neg hy]
        rfl
    · have holder : n < older.length := by
        have hlt : n < older.length + 1 := hn
        omega
      rw [modifyIn, if_neg h, lookupIn_older y f (by rw [length_modifyIn]; exact holder),
        lookupIn_older y f holder]
      exact ih holder

/-- **A lookup sees the chain only**: a frame off it may change in any way. -/
theorem lookupIn_modifyIn_of_not_mem (g : Frame → Frame) (x : String) {fs : List Frame} {n m : Nat}
    (h : m ∉ chainIn fs n) : lookupIn x (modifyIn g fs m) n = lookupIn x fs n := by
  induction fs generalizing n with
  | nil => rfl
  | cons f older ih =>
    by_cases hn : n = older.length
    · rw [chainIn, if_pos hn] at h
      have hm : m ≠ older.length := by
        intro hm
        apply h
        split <;> simp [hm, hn]
      rw [modifyIn, if_neg hm, lookupIn, lookupIn, if_pos (by rw [length_modifyIn]; exact hn),
        if_pos hn]
      cases hp : f.parent with
      | none => rfl
      | some p =>
        rw [hp] at h
        have hrest : m ∉ chainIn older p := fun hmem => h (List.mem_cons_of_mem n hmem)
        rw [Option.bind_some, Option.bind_some, ih hrest]
    · rw [chainIn, if_neg hn] at h
      by_cases hm : m = older.length
      · rw [modifyIn, if_pos hm, lookupIn, lookupIn, if_neg hn, if_neg hn]
      · rw [modifyIn, if_neg hm, lookupIn, lookupIn, if_neg (by rw [length_modifyIn]; exact hn),
          if_neg hn, ih h]

theorem lt_of_mem_chainIn {fs : List Frame} {n k : Nat} (h : k ∈ chainIn fs n) :
    k < fs.length := by
  induction fs generalizing n with
  | nil => simp [chainIn] at h
  | cons f older ih =>
    by_cases hn : n = older.length
    · rw [chainIn, if_pos hn] at h
      cases hp : f.parent with
      | none =>
        rw [hp] at h
        rw [List.mem_singleton.1 h, hn]
        exact Nat.lt_succ_self _
      | some p =>
        rw [hp] at h
        rcases List.mem_cons.1 h with hk | hk
        · rw [hk, hn]
          exact Nat.lt_succ_self _
        · exact Nat.lt_succ_of_lt (ih hk)
    · rw [chainIn, if_neg hn] at h
      exact Nat.lt_succ_of_lt (ih h)

/-- **Shadowed.**  On the chain of the frame `n`, a frame that is newer than `m` binds the name. -/
def Shadows (s : Scopes) (n m : Nat) (x : String) : Prop :=
  ∃ k ∈ chainIn s.frames n, m < k
    ∧ ∃ f v, frameIn s.frames k = some f ∧ f.find? x = some v

/-- A lookup stops at the first frame that has the name. -/
theorem Shadows.lookupIn_modifyIn {m : Nat} {x : String} (h : s.Shadows n m x)
    (g : Frame → Frame) : lookupIn x (modifyIn g s.frames m) n = lookupIn x s.frames n := by
  obtain ⟨k, hk, hmk, f, v, hf, hv⟩ := h
  obtain ⟨fs⟩ := s
  show lookupIn x (modifyIn g fs m) n = lookupIn x fs n
  induction fs generalizing n with
  | nil => rfl
  | cons newest older ih =>
    have hkle : k < older.length + 1 := lt_of_mem_chainIn hk
    have hm : m ≠ older.length := by omega
    have holder : k ≠ older.length → frameIn older k = some f := by
      intro hne
      rw [← hf]
      exact (frameIn_older newest hne).symm
    rw [modifyIn, if_neg hm, lookupIn, lookupIn, length_modifyIn]
    by_cases hn : n = older.length
    · rw [if_pos hn, if_pos hn]
      by_cases hnewest : k = older.length
      · -- the newest frame itself has the name
        have hsame : newest = f := by
          rw [hnewest] at hf
          exact Option.some.inj ((frameIn_newest newest older).symm.trans hf)
        rw [hsame, hv]
      · have hk : k ∈ chainIn (newest :: older) n := hk
        rw [chainIn, if_pos hn] at hk
        cases hp : newest.parent with
        | none =>
          rw [hp] at hk
          exact absurd (List.mem_singleton.1 hk) (by omega)
        | some p =>
          rw [hp] at hk
          rcases List.mem_cons.1 hk with hk | hk
          · exact absurd hk (by omega)
          · rw [Option.bind_some, Option.bind_some, ih hk (holder hnewest)]
    · rw [if_neg hn, if_neg hn]
      have hk : k ∈ chainIn (newest :: older) n := hk
      rw [chainIn, if_neg hn] at hk
      exact ih hk (holder (Nat.ne_of_lt (lt_of_mem_chainIn hk)))

theorem lookupIn_bound_ne (s : Scopes) (n m : Nat) {x y : String} (hy : y ≠ x) (v : Value) :
    lookupIn y (s.bound m x v).frames n = lookupIn y s.frames n := by
  obtain ⟨fs⟩ := s
  show lookupIn y (modifyIn (fun f => f.store x v) fs m) n = lookupIn y fs n
  induction fs generalizing n with
  | nil => rfl
  | cons f older ih =>
    rw [modifyIn]
    by_cases hm : m = older.length
    · rw [if_pos hm, lookupIn, lookupIn, Frame.find?_store, if_neg hy]
      rfl
    · rw [if_neg hm, lookupIn, lookupIn, length_modifyIn, ih n]
      cases f.parent with
      | none => rfl
      | some p => rw [Option.bind_some, Option.bind_some, ih p]

/-! ### Frames that look alike -/

/-- **Alike under some names**: both frames are live, and each of the names has the same value from
both. -/
structure Alike (xs : List String) (s : Scopes) (n : Nat) (s' : Scopes) (n' : Nat) : Prop where
  live : n < s.size
  live' : n' < s'.size
  same : ∀ x ∈ xs, lookupIn x s.frames n = lookupIn x s'.frames n'

theorem Alike.mono (h : Alike xs s n s' n') (hsub : ys ⊆ xs) : Alike ys s n s' n' :=
  ⟨h.live, h.live', fun x hx => h.same x (hsub hx)⟩

theorem Alike.bound (h : Alike xs s n s' n') (x : String) (v : Value) :
    Alike xs (s.bound n x v) n (s'.bound n' x v) n' := by
  refine ⟨?_, ?_, fun y hy => ?_⟩
  · rw [size_bound]
    exact h.live
  · rw [size_bound]
    exact h.live'
  · rw [lookupIn_bound h.live, lookupIn_bound h.live', h.same y hy]

theorem Alike.boundAll (h : Alike xs s n s' n') (ws : List (String × Value)) :
    Alike xs (s.boundAll n ws) n (s'.boundAll n' ws) n' := by
  induction ws generalizing s s' with
  | nil => exact h
  | cons w ws ih => exact ih (h.bound w.1 w.2)

/-- The scopes with a new frame under another one. -/
def extended (s : Scopes) (n : Nat) : Scopes :=
  { frames := { parent := some n } :: s.frames }

theorem lookupIn_extended (s : Scopes) (n : Nat) (x : String) :
    lookupIn x (s.extended n).frames s.size = lookupIn x s.frames n := by
  have hnewest : s.size = s.frames.length := rfl
  rw [extended, lookupIn, if_pos hnewest]
  rfl

theorem Alike.extended (h : Alike xs s n s' n') :
    Alike xs (s.extended n) s.size (s'.extended n') s'.size := by
  refine ⟨Nat.lt_succ_self _, Nat.lt_succ_self _, fun x hx => ?_⟩
  rw [lookupIn_extended, lookupIn_extended, h.same x hx]

end Scopes

namespace Eval

open Scopes

variable {α β : Type} {s s' : Scopes} {n n' : Nat} {p q : EvalM α} {f g : α → EvalM β}

/-- **Matched runs.**  Both give the same result or stop with the same error of the program, and
both have bound the same names to the same values, each in its own frame. -/
inductive Matched (p : EvalM α) (s : Scopes) (n : Nat) (q : EvalM α) (s' : Scopes) (n' : Nat) :
    Prop
  | ok (a : α) (writes : List (String × Value))
      (hp : runFrom p s = (.ok a, s.boundAll n writes))
      (hq : runFrom q s' = (.ok a, s'.boundAll n' writes))
  | error (e : EvalError) (writes : List (String × Value))
      (hp : runFrom p s = (.error (.error e), s.boundAll n writes))
      (hq : runFrom q s' = (.error (.error e), s'.boundAll n' writes))

theorem matched_pure (a : α) : Matched (pure a) s n (pure a) s' n' :=
  .ok a [] rfl rfl

theorem matched_fail (e : EvalError) : Matched (fail e : EvalM α) s n (fail e) s' n' :=
  .error e [] rfl rfl

/-- **One after the other**: the writes of the second come after those of the first. -/
theorem Matched.bind (h : Matched p s n q s' n')
    (hf : ∀ a writes, Matched (f a) (s.boundAll n writes) n (g a) (s'.boundAll n' writes) n') :
    Matched (p >>= f) s n (q >>= g) s' n' := by
  cases h with
  | ok a ws hp hq =>
    have hp' : runFrom (p >>= f) s = runFrom (f a) (s.boundAll n ws) := by rw [runFrom_bind, hp]
    have hq' : runFrom (q >>= g) s' = runFrom (g a) (s'.boundAll n' ws) := by
      rw [runFrom_bind, hq]
    cases hf a ws with
    | ok b ws' hrun hrun' =>
      refine .ok b (ws ++ ws') ?_ ?_
      · rw [hp', hrun, boundAll_append]
      · rw [hq', hrun', boundAll_append]
    | error e ws' hrun hrun' =>
      refine .error e (ws ++ ws') ?_ ?_
      · rw [hp', hrun, boundAll_append]
      · rw [hq', hrun', boundAll_append]
  | error e ws hp hq =>
    refine .error e ws ?_ ?_
    · rw [runFrom_bind, hp]
    · rw [runFrom_bind, hq]

theorem runFrom_lookup (hn : n < s.size) (x : String) :
    runFrom (lookup n x) s
      = ((lookupIn x s.frames n).elim (.error (.error (.unbound x))) .ok, s) := by
  rcases ends_iff.1 (ends_lookup hn x) with ⟨v, _, hr, hv, rfl⟩ | ⟨_, _, hr, rfl, hv, rfl⟩
  · rw [hr, hv, Option.elim_some]
  · rw [hr, hv, Option.elim_none]

theorem runFrom_store (hn : n < s.size) (x : String) (v : Value) :
    runFrom (store n x v) s = (.ok (), s.bound n x v) := by
  obtain ⟨_, _, hr, rfl⟩ := (ends_store hn x v).exists_ok
  exact hr

theorem matched_lookup {x : String} (h : Alike [x] s n s' n') :
    Matched (lookup n x) s n (lookup n' x) s' n' := by
  have hrun := runFrom_lookup h.live x
  have hrun' := runFrom_lookup h.live' x
  rw [← h.same x List.mem_cons_self] at hrun'
  cases hx : lookupIn x s.frames n with
  | some v =>
    rw [hx] at hrun hrun'
    exact .ok v [] hrun hrun'
  | none =>
    rw [hx] at hrun hrun'
    exact .error (.unbound x) [] hrun hrun'

theorem matched_store (hn : n < s.size) (hn' : n' < s'.size) (x : String) (v : Value) :
    Matched (store n x v) s n (store n' x v) s' n' :=
  .ok () [(x, v)] (runFrom_store hn x v) (runFrom_store hn' x v)

/-- A step in a child frame that leaves the older frames alone has its result there, and the scopes
are what they were. -/
theorem runFrom_withChild (hn : n < s.size) {body : Nat → EvalM α} {r : Except EvalFault α}
    {f : Frame} (h : runFrom (body s.size) (s.extended n) = (r, { frames := f :: s.frames })) :
    runFrom (withChild n body) s = (r, s) := by
  cases r with
  | ok a =>
    have hends := ends_withChild (Q := fun b => b = a) (E := fun _ => False) hn
      (ends_iff.2 (.inl ⟨a, _, h, rfl, f, rfl⟩))
    rcases ends_iff.1 hends with ⟨_, _, hr, rfl, rfl⟩ | ⟨_, _, -, hfalse, -⟩
    · exact hr
    · exact hfalse.elim
  | error fault =>
    have hends := ends_withChild (Q := fun _ => False) (E := fun e => e = fault) hn
      (ends_iff.2 (.inr ⟨fault, _, h, rfl, f, rfl⟩))
    rcases ends_iff.1 hends with ⟨_, _, -, hfalse, -⟩ | ⟨_, _, hr, rfl, rfl⟩
    · exact hfalse.elim
    · exact hr

/-- A step that writes its child frame only has written nothing once the frame is released. -/
theorem runFrom_withChild_of_writes (hn : n < s.size) {body : Nat → EvalM α}
    {r : Except EvalFault α} {writes : List (String × Value)}
    (h : runFrom (body s.size) (s.extended n) = (r, (s.extended n).boundAll s.size writes)) :
    runFrom (withChild n body) s = (r, s) := by
  -- all the writes went to the child, the frame in front
  obtain ⟨f, hf⟩ := boundAll_newest { parent := some n } s.frames writes
  have hend : (s.extended n).boundAll s.size writes = { frames := f :: s.frames } := hf
  rw [hend] at h
  exact runFrom_withChild hn h

theorem matched_withChild {body body' : Nat → EvalM α} (hn : n < s.size) (hn' : n' < s'.size)
    (h : Matched (body s.size) (s.extended n) s.size (body' s'.size) (s'.extended n') s'.size) :
    Matched (withChild n body) s n (withChild n' body') s' n' := by
  cases h with
  | ok a ws hp hq =>
    exact .ok a [] (runFrom_withChild_of_writes hn hp) (runFrom_withChild_of_writes hn' hq)
  | error e ws hp hq =>
    exact .error e [] (runFrom_withChild_of_writes hn hp) (runFrom_withChild_of_writes hn' hq)

/-! ### Trees -/

mutual

/-- **Evaluation in frames that look alike** to the tree. -/
theorem matched_evaluate : ∀ (t : Tree) {s s' : Scopes} {n n' : Nat},
    Alike t.names s n s' n' → Matched (evaluate n t) s n (evaluate n' t) s' n'
  | .number k, _, _, _, _, _ => by
    simp only [evaluate]
    exact matched_pure _
  | .text k, _, _, _, _, _ => by
    simp only [evaluate]
    exact matched_pure _
  | .name x, _, _, _, _, h => by
    rw [Tree.names] at h
    simp only [evaluate]
    exact matched_lookup h
  | .operation l r op, _, _, _, _, h => by
    rw [Tree.names] at h
    simp only [evaluate]
    refine (matched_evaluate l (h.mono (List.subset_append_left _ _))).bind (fun v ws => ?_)
    have h₁ := h.boundAll ws
    refine (matched_evaluate r (h₁.mono (List.subset_append_right _ _))).bind (fun w _ => ?_)
    cases operate op v w with
    | ok u => exact matched_pure u
    | error e => exact matched_fail e
  | .block [], _, _, _, _, _ => by
    simp only [evaluate]
    exact matched_pure _
  | .block (stmt :: stmts), _, _, _, _, h => by
    rw [Tree.names] at h
    simp only [evaluate]
    exact matched_withChild h.live h.live' (matched_runBlock (stmt :: stmts) h.extended)
  | .declaration x, _, _, _, _, h => by
    simp only [evaluate]
    exact (matched_store h.live h.live' x .unit).bind (fun _ _ => matched_pure _)
  | .initialization x value, _, _, _, _, h => by
    rw [Tree.names] at h
    simp only [evaluate]
    refine (matched_evaluate value (h.mono (List.subset_cons_self _ _))).bind (fun v ws => ?_)
    have h₁ := h.boundAll ws
    exact (matched_store h₁.live h₁.live' x v).bind (fun _ _ => matched_pure _)
  | .assignment x value, _, _, _, _, h => by
    rw [Tree.names] at h
    simp only [evaluate]
    refine (matched_evaluate value (h.mono (List.subset_cons_self _ _))).bind (fun v ws => ?_)
    have h₁ := h.boundAll ws
    refine (matched_lookup (h₁.mono (by simp))).bind (fun _ ws' => ?_)
    have h₂ := h₁.boundAll ws'
    exact (matched_store h₂.live h₂.live' x v).bind (fun _ _ => matched_pure _)
  | .foreign kind, _, _, _, _, _ => by
    simp only [evaluate]
    exact matched_fail _

theorem matched_runBlock : ∀ (ts : List Tree) {s s' : Scopes} {n n' : Nat},
    Alike (Tree.namesIn ts) s n s' n' → Matched (runBlock n ts) s n (runBlock n' ts) s' n'
  | [], _, _, _, _, _ => by
    simp only [runBlock]
    exact matched_pure _
  | [t], _, _, _, _, h => by
    rw [Tree.namesIn] at h
    simp only [runBlock]
    -- run once more for its value, in frames that its own writes have left alike
    have ht := h.mono (List.subset_append_left _ _)
    exact (matched_evaluate t ht).bind (fun _ ws => matched_evaluate t (ht.boundAll ws))
  | t :: u :: ts, _, _, _, _, h => by
    rw [Tree.namesIn] at h
    rw [runBlock, runBlock]
    refine (matched_evaluate t (h.mono (List.subset_append_left _ _))).bind (fun _ ws => ?_)
    exact matched_runBlock (u :: ts) ((h.boundAll ws).mono (List.subset_append_right _ _))

end

theorem Matched.outcome (h : Matched p s n q s' n') : (runFrom p s).1 = (runFrom q s').1 := by
  cases h with
  | ok a ws hp hq => rw [hp, hq]
  | error e ws hp hq => rw [hp, hq]

/-- **Frames off the chain** of a live frame have no influence on what is evaluated in it. -/
theorem evaluate_modifyIn_of_not_mem {m : Nat} (hn : n < s.size) (hm : m ∉ chainIn s.frames n)
    (g : Frame → Frame) (t : Tree) :
    (runFrom (evaluate n t) { frames := modifyIn g s.frames m }).1
      = (runFrom (evaluate n t) s).1 := by
  apply Matched.outcome
  apply matched_evaluate
  refine ⟨?_, hn, fun x _ => lookupIn_modifyIn_of_not_mem g x hm⟩
  show n < (modifyIn g s.frames m).length
  rw [length_modifyIn]
  exact hn

/-- **Shadowed bindings** have none either. -/
theorem evaluate_bound_of_shadows {m : Nat} {x : String} (hn : n < s.size)
    (hx : s.Shadows n m x) (v : Value) (t : Tree) :
    (runFrom (evaluate n t) (s.bound m x v)).1 = (runFrom (evaluate n t) s).1 := by
  apply Matched.outcome
  apply matched_evaluate
  refine ⟨?_, hn, fun y _ => ?_⟩
  · rw [size_bound]
    exact hn
  · by_cases hy : y = x
    · rw [hy]
      exact hx.lookupIn_modifyIn _
    · exact lookupIn_bound_ne s n m hy v

/-- **Evaluation depends on what is visible only.**  In any two live frames of well-formed scopes
that give every name of a tree the same value, or none, evaluation ends in the same way: with the
same value, or with the same error of the program.  The frames are live in well-formed scopes
afterwards, and give every name of the tree the same value, or none.  Whatever is done to a frame
off the chain, and whatever a name is bound to where it is shadowed, has no influence on the
outcome. -/
theorem evaluate_of_same_visible {s s' : Scopes} {frame frame' : Nat} {t : Tree}
    (hs : s.WellFormed) (hs' : s'.WellFormed) (hframe : frame < s.size)
    (hframe' : frame' < s'.size)
    (hsame : ∀ x ∈ t.names, s.find frame x = s'.find frame' x) :
    ∃ r s₁ s₁', runFrom (evaluate frame t) s = (r, s₁)
      ∧ runFrom (evaluate frame' t) s' = (r, s₁')
      ∧ (∀ fault, r = .error fault → ∃ e : EvalError, fault = .error e)
      ∧ s₁.WellFormed ∧ s₁'.WellFormed ∧ frame < s₁.size ∧ frame' < s₁'.size
      ∧ (∀ x ∈ t.names, s₁.find frame x = s₁'.find frame' x)
      ∧ (∀ m g, m ∉ chainIn s.frames frame →
        (runFrom (evaluate frame t) { frames := modifyIn g s.frames m }).1 = r)
      ∧ ∀ m x v, s.Shadows frame m x → (runFrom (evaluate frame t) (s.bound m x v)).1 = r := by
  have halike : Alike t.names s frame s' frame' := by
    refine ⟨hframe, hframe', fun x hx => ?_⟩
    have hx := hsame x hx
    rw [find_natCast hframe, find_natCast hframe'] at hx
    exact Except.ok.inj hx
  have hoff := fun m g (hm : m ∉ chainIn s.frames frame) =>
    evaluate_modifyIn_of_not_mem hframe hm g t
  have hshadowed := fun m x v (hx : s.Shadows frame m x) => evaluate_bound_of_shadows hframe hx v t
  have hafter : ∀ writes, (s.boundAll frame writes).WellFormed
      ∧ (s'.boundAll frame' writes).WellFormed ∧ frame < (s.boundAll frame writes).size
      ∧ frame' < (s'.boundAll frame' writes).size
      ∧ ∀ x ∈ t.names, (s.boundAll frame writes).find frame x
        = (s'.boundAll frame' writes).find frame' x := by
    intro writes
    have hend := halike.boundAll writes
    refine ⟨hs.boundAll frame writes, hs'.boundAll frame' writes, hend.live, hend.live', ?_⟩
    intro x hx
    rw [find_natCast hend.live, find_natCast hend.live', hend.same x hx]
  cases matched_evaluate t halike with
  | ok v writes hp hq =>
    rw [hp] at hoff hshadowed
    obtain ⟨hwf, hwf', hlive, hlive', hnames⟩ := hafter writes
    exact ⟨.ok v, _, _, hp, hq, by simp, hwf, hwf', hlive, hlive', hnames, hoff, hshadowed⟩
  | error e writes hp hq =>
    rw [hp] at hoff hshadowed
    obtain ⟨hwf, hwf', hlive, hlive', hnames⟩ := hafter writes
    refine ⟨.error (.error e), _, _, hp, hq, ?_, hwf, hwf', hlive, hlive', hnames, hoff, hshadowed⟩
    intro fault hfault
    exact ⟨e, (Except.error.inj hfault).symm⟩

/-- A chain of three frames with one beside it.  From the newest, `a` is the root's, and `b` is not:
the frame between them has its own. -/
def besides : Scopes :=
  { frames := [{ parent := some 1 }, { parent := some 0, bindings := [("a", .number 9)] },
      { parent := some 0, bindings := [("b", .text "x")] },
      { parent := none, bindings := [("a", .number 3), ("b", .unit)] }] }

/-- An assignment in the middle of three frames and at the end of a longer chain, where `a` is `3`
and `b` is `x`. -/
theorem evaluate_of_same_visible_besides :
    siblings.WellFormed ∧ besides.WellFormed ∧ 1 < siblings.size ∧ 3 < besides.size
      ∧ (∀ x ∈ nestedAssignment.names, siblings.find 1 x = besides.find 3 x)
      ∧ ∃ r s₁ s₁', runFrom (evaluate 1 nestedAssignment) siblings = (r, s₁)
        ∧ runFrom (evaluate 3 nestedAssignment) besides = (r, s₁')
        ∧ (∀ fault, r = .error fault → ∃ e : EvalError, fault = .error e)
        ∧ s₁.WellFormed ∧ s₁'.WellFormed ∧ 1 < s₁.size ∧ 3 < s₁'.size
        ∧ (∀ x ∈ nestedAssignment.names, s₁.find 1 x = s₁'.find 3 x)
        ∧ (∀ m g, m ∉ chainIn siblings.frames 1 →
          (runFrom (evaluate 1 nestedAssignment) { frames := modifyIn g siblings.frames m }).1 = r)
        ∧ ∀ m x v, siblings.Shadows 1 m x →
          (runFrom (evaluate 1 nestedAssignment) (siblings.bound m x v)).1 = r := by
  have hnames : ∀ x ∈ nestedAssignment.names, x = "a" ∨ x = "b" := by decide
  have hsame : ∀ x ∈ nestedAssignment.names, siblings.find 1 x = besides.find 3 x := by
    intro x hx
    rcases hnames x hx with rfl | rfl
    · rfl
    · rfl
  exact ⟨by decide, by decide, by decide, by decide, hsame,
    evaluate_of_same_visible (by decide) (by decide) (by decide) (by decide) hsame⟩

end Eval

end BlockLang
