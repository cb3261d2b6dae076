import BlockLang.Eval.Program
import BlockLang.Proofs.Eval.Effect
import BlockLang.Proofs.Parser.Outcome
import Mathlib

/-!
# Numbers of 32 bits

Every number that a program writes has 32 bits, since the parser reads no other, and
every number that it calculates has, since a result that does not is an error.  So the
values of names have 32 bits too, in every frame and at every time.

At every time means in the middle of an evaluation as well.  `Call.Makes` says which
evaluations an evaluation asks for, each with the frame and the scopes that it starts
from: the operands of an operation, the value that a name is bound to, and the
statements of a block, of which the last is asked for twice.  The scopes change only
where an evaluation starts or ends, so what holds at both ends of every call holds all
the time.
-/

namespace BlockLang

open StepM

/-- A value is in range unless it is a number that does not have 32 bits. -/
def Value.InRange : Value → Prop
  | .number n => leastNumber ≤ n ∧ n ≤ greatestNumber
  | .text _ | .unit => True

/-- Every value that is bound in a live frame is in range. -/
def Scopes.InRange (s : Scopes) : Prop :=
  ∀ f ∈ s.frames, ∀ b ∈ f.bindings, b.2.InRange

mutual

/-- Whether every number that is written in a tree has 32 bits. -/
def Tree.inRange : Tree → Bool
  | number n => decide (leastNumber ≤ n ∧ n ≤ greatestNumber)
  | operation l r _ => l.inRange && r.inRange
  | block stmts => areInRange stmts
  | initialization _ value | assignment _ value => value.inRange
  | text _ | name _ | declaration _ | foreign _ => true

/-- Whether every number that is written in the trees of a list has 32 bits. -/
def Tree.areInRange : List Tree → Bool
  | [] => true
  | t :: ts => t.inRange && areInRange ts

end

theorem Tree.areInRange_iff {ts : List Tree} :
    areInRange ts = true ↔ ∀ t ∈ ts, t.inRange = true := by
  induction ts with
  | nil => simp [areInRange]
  | cons t ts ih => simp [areInRange, ih]

/-! ### What is written -/

theorem Token.inRange_of_leaf? {t : Token} {e : Tree} (h : t.leaf? = some e) :
    e.inRange = true := by
  unfold leaf? at h
  split at h
  · split at h
    next hle =>
      rw [← Option.some.inj h, Tree.inRange, decide_eq_true_eq]
      exact ⟨by simp only [leastNumber]; omega, hle.2⟩
    · exact absurd h (by simp)
  · split at h
    · rw [← Option.some.inj h, Tree.inRange]
    · exact absurd h (by simp)
  · rw [← Option.some.inj h, Tree.inRange]
  · exact absurd h (by simp)

mutual

theorem Phrase.inRange_tree : ∀ e : Phrase, e.tree.inRange = true
  | .leaf _ _ h => Token.inRange_of_leaf? h
  | .operation l _ r => by
    rw [Phrase.tree, Tree.inRange, Phrase.inRange_tree l, Phrase.inRange_tree r]
    rfl
  | .block body => by rw [Phrase.tree, Tree.inRange, Passage.areInRange_trees body]

theorem Passage.areInRange_trees : ∀ b : Passage, Tree.areInRange b.trees = true
  | .done => rfl
  | .declaration _ rest => by
    rw [Passage.trees, Tree.areInRange, Tree.inRange, Passage.areInRange_trees rest]
    rfl
  | .initialization _ value rest | .assignment _ value rest => by
    rw [Passage.trees, Tree.areInRange, Tree.inRange, Phrase.inRange_tree value,
      Passage.areInRange_trees rest]
    rfl
  | .closed e rest | .bare e rest => by
    rw [Passage.trees, Tree.areInRange, Phrase.inRange_tree e, Passage.areInRange_trees rest]
    rfl

end

/-- **The parser reads numbers of 32 bits only.** -/
theorem areInRange_of_parseProgram {source : String} {g : Grouping} {ts : List Tree}
    (h : parseProgram source g = .ok ts) : Tree.areInRange ts = true := by
  obtain ⟨b, rfl⟩ := exists_passage h
  exact b.areInRange_trees

/-! ### Scopes -/

theorem Scopes.inRange_root : root.InRange := by
  intro f hf b hb
  rw [List.mem_singleton.1 hf] at hb
  exact absurd hb List.not_mem_nil

theorem Frame.inRange_bind {x : String} {v : Value} (hv : v.InRange) :
    ∀ {bs : List (String × Value)}, (∀ b ∈ bs, b.2.InRange) → ∀ b ∈ bind x v bs, b.2.InRange
  | [], _, b, hb => by
    rw [List.mem_singleton.1 hb]
    exact hv
  | (y, w) :: rest, h, b, hb => by
    rw [bind] at hb
    split at hb
    · rcases List.mem_cons.1 hb with rfl | hb
      · exact hv
      · exact h b (List.mem_cons_of_mem _ hb)
    · rcases List.mem_cons.1 hb with rfl | hb
      · exact h (y, w) List.mem_cons_self
      · exact inRange_bind hv (fun b hb => h b (List.mem_cons_of_mem _ hb)) b hb

namespace Scopes

variable {s s' : Scopes} {x : String} {v : Value}

theorem mem_modifyIn {g : Frame → Frame} {f : Frame} :
    ∀ {fs : List Frame} {n : Nat}, f ∈ modifyIn g fs n → f ∈ fs ∨ ∃ f' ∈ fs, f = g f'
  | [], _, h => .inl h
  | f₀ :: older, n, h => by
    rw [modifyIn] at h
    split at h
    · rcases List.mem_cons.1 h with rfl | h
      · exact .inr ⟨f₀, List.mem_cons_self, rfl⟩
      · exact .inl (List.mem_cons_of_mem _ h)
    · rcases List.mem_cons.1 h with rfl | h
      · exact .inl List.mem_cons_self
      · rcases mem_modifyIn h with h | ⟨f', hf', rfl⟩
        · exact .inl (List.mem_cons_of_mem _ h)
        · exact .inr ⟨f', List.mem_cons_of_mem _ hf', rfl⟩

theorem InRange.store (hs : s.InRange) (hv : v.InRange) {n : Int} (h : s.store n x v = .ok s') :
    s'.InRange := by
  rw [Scopes.store] at h
  rcases hn : s.number n with e | m
  · rw [hn] at h
    exact absurd h (by simp [bind, Except.bind])
  · rw [hn] at h
    obtain rfl := Except.ok.inj h
    intro f hf
    rcases mem_modifyIn hf with hf | ⟨f', hf', rfl⟩
    · exact hs f hf
    · exact Frame.inRange_bind hv (hs f' hf')

theorem InRange.newFrame (hs : s.InRange) {parent : Option Int} {n : Nat}
    (h : s.newFrame parent = .ok (n, s')) : s'.InRange := by
  have hframes : ∃ p, s'.frames = { parent := p } :: s.frames := by
    unfold Scopes.newFrame at h
    split at h
    · exact ⟨none, by rw [← (Prod.mk.inj (Except.ok.inj h)).2]⟩
    next p =>
      split at h
      · exact ⟨some p.toNat, by rw [← (Prod.mk.inj (Except.ok.inj h)).2]⟩
      · exact absurd h (by simp)
  obtain ⟨p, hframes⟩ := hframes
  intro f hf b hb
  rw [hframes] at hf
  rcases List.mem_cons.1 hf with rfl | hf
  · exact absurd hb List.not_mem_nil
  · exact hs f hf b hb

theorem InRange.release (hs : s.InRange) {n : Int} (h : s.release n = .ok s') : s'.InRange := by
  unfold Scopes.release at h
  split at h
  · split at h
    · exact absurd h (by simp)
    next f older hframes =>
      obtain rfl := Except.ok.inj h
      intro f' hf'
      exact hs f' (by rw [hframes]; exact List.mem_cons_of_mem f hf')
  · exact absurd h (by simp)

theorem exists_binding_of_lookupIn : ∀ {fs : List Frame} {n : Nat}, lookupIn x fs n = some v →
    ∃ f ∈ fs, (x, v) ∈ f.bindings
  | [], _, h => absurd h (by simp [lookupIn])
  | f :: older, n, h => by
    rw [lookupIn] at h
    have holder : ∀ {m : Nat}, lookupIn x older m = some v →
        ∃ f' ∈ f :: older, (x, v) ∈ f'.bindings := by
      intro m hm
      obtain ⟨f', hf', hb⟩ := exists_binding_of_lookupIn hm
      exact ⟨f', List.mem_cons_of_mem f hf', hb⟩
    split at h
    · split at h
      next w hw =>
        obtain rfl := Option.some.inj h
        obtain ⟨front, back, hbs, -⟩ := List.lookup_eq_some_iff.1 hw
        exact ⟨f, List.mem_cons_self, by rw [hbs]; simp⟩
      · obtain ⟨p, -, hp⟩ := Option.bind_eq_some_iff.1 h
        exact holder hp
    · exact holder h

theorem InRange.find (hs : s.InRange) {n : Int} (h : s.find n x = .ok (some v)) : v.InRange := by
  rw [Scopes.find] at h
  rcases hn : s.number n with e | m
  · rw [hn] at h
    exact absurd h (by simp [bind, Except.bind])
  · rw [hn] at h
    obtain ⟨f, hf, hb⟩ := exists_binding_of_lookupIn (Except.ok.inj h)
    exact hs f hf (x, v) hb

end Scopes

/-! ### Evaluation -/

namespace Eval

variable {s s' : Scopes} {n : Nat} {α : Type}

theorem inRange_of_checked {l r result n : Int} {op : Operator}
    (h : checked l op r result = .ok n) : leastNumber ≤ n ∧ n ≤ greatestNumber := by
  unfold checked at h
  split at h
  next hrange =>
    obtain rfl := Except.ok.inj h
    exact hrange
  · exact absurd h (by simp)

theorem inRange_of_calculate {l r n : Int} {op : Operator} (h : calculate op l r = .ok n) :
    leastNumber ≤ n ∧ n ≤ greatestNumber := by
  unfold calculate at h
  split at h
  · exact inRange_of_checked h
  · exact inRange_of_checked h
  · exact inRange_of_checked h
  · split at h
    · exact absurd h (by simp)
    · exact inRange_of_checked h

theorem inRange_of_operate {op : Operator} {l r v : Value} (h : operate op l r = .ok v) :
    v.InRange := by
  unfold operate at h
  split at h
  next l r =>
    rcases hc : calculate op l r with e | n
    · rw [hc] at h
      exact absurd h (by simp [Functor.map, Except.map])
    · rw [hc] at h
      obtain rfl := Except.ok.inj h
      exact inRange_of_calculate hc
  · split at h
    · obtain rfl := Except.ok.inj h
      trivial
    · exact absurd h (by simp)
  · exact absurd h (by simp)

/-- What is in range stays in range, and so is the value. -/
abbrev StaysInRange (p : EvalM Value) (s : Scopes) : Prop :=
  Ends p s (fun v s' => v.InRange ∧ s'.InRange) (fun _ s' => s'.InRange)

theorem ends_ask_eq (f : Scopes → Except ScopeFault α) (s : Scopes) :
    Ends (ask f) s (fun a s' => f s = .ok a ∧ s' = s) (fun _ s' => s' = s) := by
  unfold ask
  rw [ends_bind, ends_get]
  cases f s with
  | ok a => exact ends_pure.2 ⟨rfl, rfl⟩
  | error fault => exact ends_throw.2 rfl

theorem ends_change_eq (f : Scopes → Except ScopeFault Scopes) (s : Scopes) :
    Ends (change f) s (fun _ s' => f s = .ok s') (fun _ s' => s' = s) := by
  unfold change
  rw [ends_bind, ends_get]
  cases f s with
  | ok s' => exact ends_set.2 rfl
  | error fault => exact ends_throw.2 rfl

theorem staysInRange_lookup (hs : s.InRange) (x : String) : StaysInRange (lookup n x) s := by
  refine (ends_ask_eq _ s).bind ?_ ?_
  · rintro (_ | v) s' ⟨hfind, rfl⟩
    · exact ends_throw.2 hs
    · exact ends_pure.2 ⟨hs.find hfind, hs⟩
  · rintro _ s' rfl
    exact hs

theorem staysInRange_store (hs : s.InRange) (x : String) {v : Value} (hv : v.InRange) :
    StaysInRange (do store n x v; return .unit) s := by
  refine (ends_change_eq _ s).bind ?_ ?_
  · intro _ s' h
    exact ends_pure.2 ⟨trivial, hs.store hv h⟩
  · rintro _ s' rfl
    exact hs

theorem staysInRange_withChild (hs : s.InRange) {body : Nat → EvalM Value}
    (hbody : ∀ child s', s'.InRange → StaysInRange (body child) s') :
    StaysInRange (withChild n body) s := by
  have hchild : Ends (newChild n) s (fun _ s' => s'.InRange) (fun _ s' => s'.InRange) := by
    unfold newChild
    rw [ends_bind, ends_get]
    rcases hnew : s.newFrame (some n) with fault | ⟨child, s'⟩
    · exact ends_throw.2 hs
    · refine Ends.andThen (Q := fun _ s' => s'.InRange) (ends_set.2 (hs.newFrame hnew)) ?_
      exact fun _ _ h => ends_pure.2 h
  unfold withChild
  refine hchild.bind ?_ (fun _ _ h => h)
  intro child s₁ h₁
  have houtcome : Ends (tryCatch (do return .ok (← body child))
        (fun fault => return .error fault) : EvalM (Except EvalFault Value)) s₁
      (fun r s' => (∀ v, r = .ok v → v.InRange) ∧ s'.InRange) (fun _ _ => False) := by
    have hok : Ends (do return .ok (← body child) : EvalM (Except EvalFault Value)) s₁
        (fun r s' => (∀ v, r = .ok v → v.InRange) ∧ s'.InRange) (fun _ s' => s'.InRange) := by
      refine (hbody child s₁ h₁).bind ?_ (fun _ _ h => h)
      rintro v s' ⟨hv, h⟩
      exact ends_pure.2 ⟨fun w hw => Except.ok.inj hw ▸ hv, h⟩
    refine hok.tryCatch (fun _ _ h => h) ?_
    exact fun _ _ h => ends_pure.2 ⟨fun v hv => absurd hv (by simp), h⟩
  refine houtcome.andThen ?_
  rintro r s₂ ⟨hr, h₂⟩
  refine (ends_change_eq _ s₂).bind ?_ ?_
  · intro _ s₃ h
    cases r with
    | ok v => exact ends_pure.2 ⟨hr v rfl, h₂.release h⟩
    | error fault => exact ends_throw.2 (h₂.release h)
  · rintro _ s₃ rfl
    exact h₂

mutual

/-- **Evaluation stays in range**, in any frame and whether there is a value or not. -/
theorem staysInRange_evaluate : ∀ (t : Tree) {s : Scopes} {n : Nat}, t.inRange = true →
    s.InRange → StaysInRange (evaluate n t) s
  | .number k, s, n, ht, hs => by
    rw [evaluate]
    rw [Tree.inRange, decide_eq_true_eq] at ht
    exact ends_pure.2 ⟨ht, hs⟩
  | .text v, s, n, _, hs => by
    rw [evaluate]
    exact ends_pure.2 ⟨trivial, hs⟩
  | .name x, s, n, _, hs => by
    rw [evaluate]
    exact staysInRange_lookup hs x
  | .operation l r op, s, n, ht, hs => by
    rw [Tree.inRange, Bool.and_eq_true] at ht
    rw [evaluate]
    refine (staysInRange_evaluate l ht.1 hs).bind ?_ (fun _ _ h => h)
    rintro v s₁ ⟨-, h₁⟩
    refine (staysInRange_evaluate r ht.2 h₁).bind ?_ (fun _ _ h => h)
    rintro w s₂ ⟨-, h₂⟩
    rcases hop : operate op v w with e | u
    · exact ends_throw.2 h₂
    · exact ends_pure.2 ⟨inRange_of_operate hop, h₂⟩
  | .block [], s, n, _, hs => by
    rw [evaluate]
    exact ends_pure.2 ⟨trivial, hs⟩
  | .block (stmt :: stmts), s, n, ht, hs => by
    rw [Tree.inRange] at ht
    rw [evaluate]
    exact staysInRange_withChild hs (fun child s' h => staysInRange_runBlock (stmt :: stmts) ht h)
  | .declaration x, s, n, _, hs => by
    rw [evaluate]
    exact staysInRange_store hs x trivial
  | .initialization x e, s, n, ht, hs => by
    rw [Tree.inRange] at ht
    rw [evaluate]
    refine (staysInRange_evaluate e ht hs).bind ?_ (fun _ _ h => h)
    rintro v s₁ ⟨hv, h₁⟩
    exact staysInRange_store h₁ x hv
  | .assignment x e, s, n, ht, hs => by
    rw [Tree.inRange] at ht
    rw [evaluate]
    refine (staysInRange_evaluate e ht hs).bind ?_ (fun _ _ h => h)
    rintro v s₁ ⟨hv, h₁⟩
    refine (staysInRange_lookup h₁ x).bind ?_ (fun _ _ h => h)
    rintro _ s₂ ⟨-, h₂⟩
    exact staysInRange_store h₂ x hv
  | .foreign kind, s, n, _, hs => by
    rw [evaluate]
    exact ends_throw.2 hs

theorem staysInRange_runBlock : ∀ (ts : List Tree) {s : Scopes} {n : Nat},
    Tree.areInRange ts = true → s.InRange → StaysInRange (runBlock n ts) s
  | [], s, n, _, hs => by
    rw [runBlock]
    exact ends_pure.2 ⟨trivial, hs⟩
  | t :: ts, s, n, hts, hs => by
    rw [Tree.areInRange, Bool.and_eq_true] at hts
    rw [runBlock.eq_def]
    refine (staysInRange_evaluate t hts.1 hs).bind ?_ (fun _ _ h => h)
    rintro _ s₁ ⟨-, h₁⟩
    cases ts with
    | nil => exact staysInRange_evaluate t hts.1 h₁
    | cons u us => exact staysInRange_runBlock (u :: us) hts.2 h₁

end

/-! ### Calls -/

/-- A call for the value of a tree, in a frame of the given scopes. -/
structure Call where
  scopes : Scopes
  frame : Nat
  tree : Tree

/-- The value of a call or why there is none, and the scopes afterwards. -/
def Call.outcome (c : Call) : Except EvalFault Value × Scopes :=
  runFrom (evaluate c.frame c.tree) c.scopes

/-- Statements that all have values lead from some scopes to others. -/
inductive LeadsTo (n : Nat) : Scopes → List Tree → Scopes → Prop
  | nil (s : Scopes) : LeadsTo n s [] s
  | cons {s s' s'' : Scopes} {t : Tree} {ts : List Tree} {v : Value}
      (head : runFrom (evaluate n t) s = (.ok v, s')) (tail : LeadsTo n s' ts s'') :
      LeadsTo n s (t :: ts) s''

/-- **The calls that a call makes**: for the left operand and then for the right one, for the value
of a name, and in a child frame for the statements of a block in order and for the last of them
again. -/
inductive Call.Makes : Call → Call → Prop
  | left (s : Scopes) (n : Nat) (l r : Tree) (op : Operator) :
      Makes ⟨s, n, .operation l r op⟩ ⟨s, n, l⟩
  | right {s s' : Scopes} {n : Nat} {l : Tree} {v : Value} (r : Tree) (op : Operator)
      (h : runFrom (evaluate n l) s = (.ok v, s')) :
      Makes ⟨s, n, .operation l r op⟩ ⟨s', n, r⟩
  | initialized (s : Scopes) (n : Nat) (x : String) (e : Tree) :
      Makes ⟨s, n, .initialization x e⟩ ⟨s, n, e⟩
  | assigned (s : Scopes) (n : Nat) (x : String) (e : Tree) :
      Makes ⟨s, n, .assignment x e⟩ ⟨s, n, e⟩
  | statement {s s₀ s' : Scopes} {n child : Nat} {before : List Tree} (t : Tree)
      (after : List Tree) (hnew : s.newFrame (some n) = .ok (child, s₀))
      (hbefore : LeadsTo child s₀ before s') :
      Makes ⟨s, n, .block (before ++ t :: after)⟩ ⟨s', child, t⟩
  | again {s s₀ s' : Scopes} {n child : Nat} {before : List Tree} {t : Tree}
      (hnew : s.newFrame (some n) = .ok (child, s₀))
      (hall : LeadsTo child s₀ (before ++ [t]) s') :
      Makes ⟨s, n, .block (before ++ [t])⟩ ⟨s', child, t⟩

/-- The scopes after some sources, run one after the other. -/
def scopesAfter (s : Scopes) (sources : List (Grouping × String)) : Scopes :=
  sources.foldl (fun s (g, source) => (ProgramRun.ofSource s g source).scopes) s

/-- **The calls of a session** that runs the given sources from the root frame: for the statements
of each source that is accepted, in order up to the first without a value, and the calls that these
make. -/
inductive Called (sources : List (Grouping × String)) : Call → Prop
  | statement (earlier : List (Grouping × String)) {later : List (Grouping × String)}
      {g : Grouping} {source : String} {before after : List Tree} {t : Tree} {s : Scopes}
      (hsources : sources = earlier ++ (g, source) :: later)
      (hparse : parseProgram source g = .ok (before ++ t :: after))
      (hbefore : LeadsTo 0 (scopesAfter .root earlier) before s) : Called sources ⟨s, 0, t⟩
  | made {c d : Call} (h : Called sources c) (hmade : c.Makes d) : Called sources d

/-- A call is in range when its tree and the scopes that it starts from are. -/
def Call.InRange (c : Call) : Prop :=
  c.tree.inRange = true ∧ c.scopes.InRange

theorem Call.InRange.ends {c : Call} (h : c.InRange) :
    StaysInRange (evaluate c.frame c.tree) c.scopes :=
  staysInRange_evaluate c.tree h.1 h.2

theorem LeadsTo.inRange {ts : List Tree} (h : LeadsTo n s ts s') (hts : ∀ t ∈ ts, t.inRange = true)
    (hs : s.InRange) : s'.InRange := by
  induction h with
  | nil => exact hs
  | @cons s₁ s₂ s₃ t ts v head tail ih =>
    have ht := staysInRange_evaluate (n := n) t (hts t List.mem_cons_self) hs
    exact ih (fun u hu => hts u (List.mem_cons_of_mem t hu)) (ht.of_ok head).2

theorem Call.Makes.inRange {c d : Call} (h : c.Makes d) (hc : c.InRange) : d.InRange := by
  obtain ⟨ht, hs⟩ := hc
  cases h with
  | left s n l r op =>
    rw [Tree.inRange, Bool.and_eq_true] at ht
    exact ⟨ht.1, hs⟩
  | right r op h =>
    rw [Tree.inRange, Bool.and_eq_true] at ht
    exact ⟨ht.2, ((staysInRange_evaluate _ ht.1 hs).of_ok h).2⟩
  | initialized s n x e | assigned s n x e =>
    rw [Tree.inRange] at ht
    exact ⟨ht, hs⟩
  | @statement s s₀ s' n child before t after hnew hbefore =>
    rw [Tree.inRange, Tree.areInRange_iff] at ht
    refine ⟨ht t (by simp), hbefore.inRange (fun u hu => ht u ?_) (hs.newFrame hnew)⟩
    exact List.mem_append_left _ hu
  | @again s s₀ s' n child before t hnew hall =>
    rw [Tree.inRange, Tree.areInRange_iff] at ht
    exact ⟨ht t (by simp), hall.inRange ht (hs.newFrame hnew)⟩

theorem inRange_ofStatements {ts : List Tree} (hts : ∀ t ∈ ts, t.inRange = true)
    (hs : s.InRange) :
    (∀ v ∈ (ProgramRun.ofStatements s ts).values, v.InRange)
      ∧ (ProgramRun.ofStatements s ts).scopes.InRange := by
  induction ts generalizing s with
  | nil => exact ⟨fun v hv => absurd hv List.not_mem_nil, hs⟩
  | cons t ts ih =>
    have hends := staysInRange_evaluate (n := 0) t (hts t List.mem_cons_self) hs
    rw [ProgramRun.ofStatements]
    rcases hrun : runFrom (evaluate 0 t) s with ⟨fault | v, s'⟩
    · exact ⟨fun v hv => absurd hv List.not_mem_nil, hends.of_error hrun⟩
    · have hv := hends.of_ok hrun
      have hrest := ih (fun u hu => hts u (List.mem_cons_of_mem t hu)) hv.2
      refine ⟨fun w hw => ?_, hrest.2⟩
      rcases List.mem_cons.1 hw with rfl | hw
      · exact hv.1
      · exact hrest.1 w hw

theorem inRange_ofSource (hs : s.InRange) (g : Grouping) (source : String) :
    (∀ v ∈ (ProgramRun.ofSource s g source).values, v.InRange)
      ∧ (ProgramRun.ofSource s g source).scopes.InRange := by
  rw [ProgramRun.ofSource]
  rcases hparse : parseProgram source g with fault | ts
  · exact ⟨fun v hv => absurd hv List.not_mem_nil, hs⟩
  · exact inRange_ofStatements (Tree.areInRange_iff.1 (areInRange_of_parseProgram hparse)) hs

/-- **A whole run of sources** leaves scopes in range. -/
theorem inRange_scopesAfter (hs : s.InRange) (sources : List (Grouping × String)) :
    (scopesAfter s sources).InRange := by
  induction sources generalizing s with
  | nil => exact hs
  | cons source sources ih => exact ih (inRange_ofSource hs source.1 source.2).2

theorem Called.inRange {sources : List (Grouping × String)} {c : Call} (h : Called sources c) :
    c.InRange := by
  induction h with
  | @statement earlier later g source before after t s hsources hparse hbefore =>
    have hts := Tree.areInRange_iff.1 (areInRange_of_parseProgram hparse)
    refine ⟨hts t (by simp), hbefore.inRange (fun u hu => hts u ?_)
      (inRange_scopesAfter Scopes.inRange_root earlier)⟩
    exact List.mem_append_left _ hu
  | made _ hmade ih => exact hmade.inRange ih

/-- **Numbers have 32 bits all the time.**  In a session that starts from an empty root frame and
runs any sources, each grouped in either way, every value that an evaluation gives is in range, and
so is every value that is bound in a live frame before it and after it, whether it gives a value or
not.  In particular the values of each source are in range, and the scopes that it leaves. -/
theorem inRange_of_sources (sources : List (Grouping × String)) :
    (∀ c, Called sources c → c.scopes.InRange ∧ c.outcome.2.InRange
        ∧ ∀ v, c.outcome.1 = .ok v → v.InRange)
      ∧ ∀ earlier g source later, sources = earlier ++ (g, source) :: later →
        (∀ v ∈ (ProgramRun.ofSource (scopesAfter .root earlier) g source).values, v.InRange)
          ∧ (ProgramRun.ofSource (scopesAfter .root earlier) g source).scopes.InRange := by
  refine ⟨fun c hc => ?_, fun earlier g source later _ => ?_⟩
  · have hrange := hc.inRange
    refine ⟨hrange.2, ?_⟩
    rcases hrun : runFrom (evaluate c.frame c.tree) c.scopes with ⟨fault | v, s'⟩
    · rw [Call.outcome, hrun]
      exact ⟨hrange.ends.of_error hrun, fun v hv => absurd hv (by simp)⟩
    · have hv := hrange.ends.of_ok hrun
      rw [Call.outcome, hrun]
      exact ⟨hv.2, fun w hw => Except.ok.inj hw ▸ hv.1⟩
  · exact inRange_ofSource (inRange_scopesAfter Scopes.inRange_root earlier) g source

/-- A source that binds the greatest number, and `{ a + 1 }`, which adds to it. -/
def overflowing : List (Grouping × String) :=
  [(.byPrecedence, "let a = 2147483647;"), (.rightward, "\x7b a + 1 \x7d")]

/-- The sum, called for in the frame of the block. -/
def overflowingSum : Call where
  scopes := { frames := [{ parent := some 0 },
    { parent := none, bindings := [("a", .number 2147483647)] }] }
  frame := 1
  tree := .operation (.name "a") (.number 1) .add

/-- A sum that does not have 32 bits is called for and has no value, and its operands and the scopes
stay in range. -/
theorem inRange_of_sources_overflowing :
    Called overflowing overflowingSum
      ∧ overflowingSum.outcome
        = (.error (.error (.overflow 2147483647 .add 1)), overflowingSum.scopes)
      ∧ overflowingSum.scopes.InRange ∧ overflowingSum.outcome.2.InRange := by
  have hlet : parseProgram "let a = 2147483647;" .byPrecedence
      = .ok [.initialization "a" (.number 2147483647)] :=
    parseProgram_byPrecedence_iff.2
      ⟨.initialization "a" (.leaf (.of .number "2147483647") _ rfl) .done, rfl, by decide⟩
  have hafter : scopesAfter .root [(.byPrecedence, "let a = 2147483647;")]
      = { frames := [{ parent := none, bindings := [("a", .number 2147483647)] }] } := by
    simp only [scopesAfter, List.foldl_cons, List.foldl_nil, ProgramRun.ofSource, hlet]
    cbv
  have hblock : parseProgram "\x7b a + 1 \x7d" .rightward = .ok [.block [overflowingSum.tree]] :=
    parseProgram_rightward_iff.2 ⟨.bare (.block (.bare (.operation
      (.leaf (.of .ident "a") _ rfl) .add (.leaf (.of .number "1") _ rfl)) .done)) .done,
      rfl, by decide, rfl⟩
  have hstatement : Called overflowing ⟨scopesAfter .root overflowing.dropLast, 0,
      .block [overflowingSum.tree]⟩ :=
    .statement overflowing.dropLast rfl hblock (.nil _)
  have hcalled : Called overflowing overflowingSum := by
    refine .made hstatement ?_
    rw [show overflowing.dropLast = [(.byPrecedence, "let a = 2147483647;")] from rfl, hafter]
    exact .statement _ [] rfl (.nil _)
  have hrange := (inRange_of_sources overflowing).1 _ hcalled
  exact ⟨hcalled, by cbv, hrange.1, hrange.2.1⟩

end Eval

end BlockLang
