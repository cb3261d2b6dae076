import BlockLang.Proofs.Resolved

/-!
# Delimited passages

A passage is delimited if an operation without `;` is followed by `let` or by nothing.
Then no operator waits when the next expression comes in, so that regrouping keeps every
token in its place, `tokens_regroup`.

The converse holds too: regrouping changes the trees of every passage that is not
delimited, `delimited_of_trees_regroup`.  For then the first operand of some operation is
alone by the time the next expression has come in, and comes out as a statement of its
own, with fewer atoms than the operation had.
-/

namespace BlockLang

mutual

/-- Whether the blocks of an expression are delimited. -/
@[simp] def Phrase.delimited : Phrase → Bool
  | .leaf .. => true
  | .operation l _ r => l.delimited && r.delimited
  | .block body => body.delimited

/-- Whether a passage is delimited: each operation without `;` is followed by `let`, by the closing
brace or by the end. -/
@[simp] def Passage.delimited : Passage → Bool
  | .done => true
  | .declaration _ rest => rest.delimited
  | .initialization _ e rest | .assignment _ e rest | .closed e rest =>
    e.delimited && rest.delimited
  | .bare e rest => e.delimited && (!e.isOperation || rest.isSetOff) && rest.delimited

end

/-! ### No operator is stranded -/

mutual

theorem Phrase.stranded_of_delimited : ∀ e : Phrase, e.delimited = true → e.stranded = false
  | .leaf .., _ => by rw [Phrase.stranded]
  | .operation l _ r, h => by
    rw [Phrase.delimited, Bool.and_eq_true] at h
    rw [Phrase.stranded, l.stranded_of_delimited h.1, r.stranded_of_delimited h.2]
    rfl
  | .block body, h => by
    rw [Phrase.delimited] at h
    rw [Phrase.stranded]
    exact body.strandedFrom_of_delimited h (fun h => absurd h Bool.false_ne_true)

/-- An operator waits only in front of what is set off. -/
theorem Passage.strandedFrom_of_delimited : ∀ (b : Passage) {pending : Bool}, b.delimited = true →
    (pending = true → b.isSetOff = true) → b.strandedFrom pending = false
  | .done, _, _, _ => by rw [Passage.strandedFrom]
  | .declaration _ rest, _, h, _ => by
    rw [Passage.delimited] at h
    rw [Passage.strandedFrom]
    exact rest.strandedFrom_of_delimited h (fun h => absurd h Bool.false_ne_true)
  | .initialization _ e rest, _, h, _ => by
    rw [Passage.delimited, Bool.and_eq_true] at h
    rw [Passage.strandedFrom, e.stranded_of_delimited h.1, Bool.false_or]
    exact rest.strandedFrom_of_delimited h.2 (fun h => absurd h Bool.false_ne_true)
  | .assignment _ e rest, pending, h, hp => by
    rw [Passage.delimited, Bool.and_eq_true] at h
    have hpending : pending = false := by
      cases pending with
      | false => rfl
      | true => exact absurd (hp rfl) Bool.false_ne_true
    rw [Passage.strandedFrom, hpending, e.stranded_of_delimited h.1, Bool.false_or, Bool.false_or]
    exact rest.strandedFrom_of_delimited h.2 (fun h => absurd h Bool.false_ne_true)
  | .closed e rest, _, h, _ => by
    rw [Passage.delimited, Bool.and_eq_true] at h
    rw [Passage.strandedFrom, e.stranded_of_delimited h.1, Bool.false_or]
    exact rest.strandedFrom_of_delimited h.2 (fun h => absurd h Bool.false_ne_true)
  | .bare e rest, pending, h, hp => by
    rw [Passage.delimited, Bool.and_eq_true, Bool.and_eq_true] at h
    have hpending : pending = false := by
      cases pending with
      | false => rfl
      | true => exact absurd (hp rfl) Bool.false_ne_true
    rw [Passage.strandedFrom, hpending, e.stranded_of_delimited h.1.1, Bool.false_or, Bool.false_or]
    refine rest.strandedFrom_of_delimited h.2 (fun hop => ?_)
    have hset := h.1.2
    rw [hop] at hset
    exact hset

end

theorem Passage.stranded_of_delimited {b : Passage} (h : b.delimited = true) : b.stranded = false :=
  b.strandedFrom_of_delimited h (fun h => absurd h Bool.false_ne_true)

/-! ### Every token keeps its place -/

/-- The tokens of a yard with as many expressions as operators, each in front of its operator. -/
def openTokens : List Phrase → List Operator → List Token
  | e :: operands, op :: held => openTokens operands held ++ e.tokens .between ++ [op.token]
  | _, _ => []

namespace Yard

variable {y : Yard}

/-- The tokens of a yard with one expression more than operators. -/
def written (y : Yard) : List Token :=
  match y.operands with
  | [] => []
  | e :: operands => openTokens operands y.held ++ e.tokens .between

/-- Operators that take their operands keep every token in its place. -/
theorem written_releaseFrom (p : Nat) {held : List Operator} {operands : List Phrase}
    (h : operands.length = held.length + 1) :
    (releaseFrom p operands held).written = written ⟨operands, held⟩ := by
  induction held generalizing operands with
  | nil => rfl
  | cons op held ih =>
    by_cases hp : p ≤ op.precedence
    · match operands, h with
      | r :: l :: rest, h =>
        rw [releaseFrom, if_pos hp, operate, ih (by simpa using h)]
        simp [written, openTokens, Placement.arrange]
    · rw [releaseFrom, if_neg hp]

theorem Carries.exists_operands {n : Nat} (h : y.Carries (n + 1)) :
    ∃ e operands, y.operands = e :: operands :=
  List.exists_cons_of_length_eq_add_one (n := y.held.length + n) h

theorem Carries.openTokens_hold (h : y.Carries 1) (op : Operator) :
    openTokens (y.hold op).operands (y.hold op).held = y.written ++ [op.token] := by
  have hwritten : (y.release op.precedence).written = y.written :=
    written_releaseFrom op.precedence h
  obtain ⟨e, operands, hops⟩ := (h.release op.precedence).exists_operands
  simp only [written, hops] at hwritten
  rw [Yard.hold, hops, openTokens, hwritten, written]

/-- What a yard with one expression more than operators settles as. -/
theorem tokens_of_settled (h : y.Carries 1) {e : Phrase} (he : y.settled = [e]) :
    e.tokens .between = y.written := by
  have hwritten : (y.release 0).written = y.written := written_releaseFrom 0 h
  have hops : (y.release 0).operands = [e] := he
  rw [← hwritten, written, hops, release, held_releaseFrom_zero]
  rfl

end Yard

mutual

theorem Phrase.written_feed : ∀ (e : Phrase) {y : Yard}, e.delimited = true → y.Carries 0 →
    (e.feed y).written = openTokens y.operands y.held ++ e.tokens .between
  | .leaf .., _, _, _ => by
    rw [Phrase.feed]
    rfl
  | .operation l op r, y, h, hy => by
    rw [Phrase.delimited, Bool.and_eq_true] at h
    have hl := l.carries_feed hy
    rw [Phrase.feed, r.written_feed h.2 (hl.hold op), hl.openTokens_hold, l.written_feed h.1 hy,
      Phrase.tokens, Placement.arrange]
    simp
  | .block body, y, h, _ => by
    rw [Phrase.delimited] at h
    rw [Phrase.feed, Phrase.tokens, ← body.tokens_regroup h]
    rfl

/-- **Regrouping a delimited passage keeps every token in its place.** -/
theorem Passage.tokens_regroup : ∀ b : Passage, b.delimited = true →
    b.regroup.tokens .between = b.tokens .between
  | .done, _ => by rw [Passage.regroup_done]
  | .declaration _ rest, h => by
    rw [Passage.delimited] at h
    rw [Passage.regroup_declaration, Passage.tokens, Passage.tokens, rest.tokens_regroup h]
  | .initialization _ e rest, h => by
    rw [Passage.delimited, Bool.and_eq_true] at h
    rw [Passage.regroup_initialization, Passage.tokens, Passage.tokens, rest.tokens_regroup h.2,
      Yard.tokens_of_settled (e.carries_feed Yard.carries_empty) e.settled_feed,
      e.written_feed h.1 Yard.carries_empty]
    rfl
  | .assignment _ e rest, h => by
    rw [Passage.delimited, Bool.and_eq_true] at h
    rw [Passage.regroup_assignment, Passage.tokens, Passage.tokens, rest.tokens_regroup h.2,
      Yard.tokens_of_settled (e.carries_feed Yard.carries_empty) e.settled_feed,
      e.written_feed h.1 Yard.carries_empty]
    rfl
  | .closed e rest, h => by
    rw [Passage.delimited, Bool.and_eq_true] at h
    rw [Passage.regroup_closed, Passage.tokens, Passage.tokens, rest.tokens_regroup h.2,
      Yard.tokens_of_settled (e.carries_feed Yard.carries_empty) e.settled_feed,
      e.written_feed h.1 Yard.carries_empty]
    rfl
  | .bare e rest, h => by
    rw [Passage.delimited, Bool.and_eq_true, Bool.and_eq_true, Bool.or_eq_true,
      Bool.not_eq_true'] at h
    rw [Passage.regroup_bare h.1.2, Passage.tokens, Passage.tokens, rest.tokens_regroup h.2,
      Yard.tokens_of_settled (e.carries_feed Yard.carries_empty) e.settled_feed,
      e.written_feed h.1.1 Yard.carries_empty]
    rfl

end

/-! ### Only delimited passages keep their trees -/

/-- **The atoms of a tree**, from left to right: what its operations join. -/
def Tree.atoms : Tree → List Tree
  | operation l r _ => l.atoms ++ r.atoms
  | t => [t]

theorem Phrase.atoms_tree (e : Phrase) : e.tree.atoms = e.atoms.map Phrase.tree := by
  cases e with
  | leaf t e he =>
    rw [Phrase.tree]
    exact Token.leaf?_cases (P := fun e => e.atoms = [e]) he (fun _ => rfl) (fun _ => rfl)
      (fun _ => rfl)
  | operation l op r =>
    rw [Phrase.tree, Tree.atoms, Phrase.atoms, l.atoms_tree, r.atoms_tree, List.map_append]
  | block body =>
    rw [Phrase.tree]
    rfl

theorem Phrase.length_atoms_pos : ∀ e : Phrase, 0 < e.atoms.length
  | .leaf .. => Nat.one_pos
  | .block _ => Nat.one_pos
  | .operation l _ r => by
    have := l.length_atoms_pos
    rw [Phrase.atoms, List.length_append]
    omega

/-- **The first operand alone.**  After an operation the yard has its first operand below as many
expressions as operators, and that operand has fewer atoms than the operation. -/
theorem Phrase.exists_under {e : Phrase} (h : e.isOperation = true) :
    ∃ (y : Yard) (o : Phrase), e.feed {} = y.above [o] ∧ y.Carries 0
      ∧ o.atoms.length < e.atoms.length := by
  have hcarries : (e.feed {}).operands.length = (e.feed {}).held.length + 1 :=
    e.carries_feed Yard.carries_empty
  have hheld : (!(e.feed {}).held.isEmpty) = true := by rw [e.isEmpty_held_feed, h]; rfl
  have hatoms : stackAtoms (e.feed {}).operands = e.atoms.map Phrase.regroup := e.stackAtoms_feed {}
  obtain ⟨top, o, hops⟩ := List.eq_nil_or_concat (e.feed {}).operands |>.resolve_left (by
    intro hnil
    rw [hnil] at hcarries
    exact absurd hcarries (by simp))
  rw [List.concat_eq_append] at hops
  rw [hops, List.length_append, List.length_singleton] at hcarries
  rw [hops, stackAtoms_append] at hatoms
  have htop : top.length = (e.feed {}).held.length := Nat.add_right_cancel hcarries
  refine ⟨⟨top, (e.feed {}).held⟩, o, by rw [Yard.above, ← hops], htop, ?_⟩
  have hlen := congrArg List.length hatoms
  rw [List.length_append, List.length_map] at hlen
  cases top with
  | nil =>
    rw [List.length_nil] at htop
    rw [List.length_eq_zero_iff.1 htop.symm] at hheld
    exact absurd hheld Bool.false_ne_true
  | cons u top =>
    have := u.length_atoms_pos
    simp only [stackAtoms, List.nil_append, List.length_append] at hlen
    omega

/-- **An operation that is not set off** loses its first operand to a statement of its own. -/
theorem Passage.trees_regroup_bare_ne {e : Phrase} {rest : Passage} (he : e.isOperation = true)
    (hrest : rest.beginsWithExpression = true) :
    (bare e rest).regroup.trees ≠ (bare e rest).trees := by
  obtain ⟨y, o, hfeed, hy, hlen⟩ := e.exists_under he
  have hregroup : (bare e rest).regroup = bare o (rest.regroupFrom y) := by
    rw [regroup, regroupFrom, hfeed, regroupFrom_above [o] rest hy
      (fun _ h => absurd (hrest.symm.trans h) (by simp))]
    rfl
  intro h
  rw [hregroup, trees, trees] at h
  have hatoms := congrArg Tree.atoms (List.cons.inj h).1
  rw [o.atoms_tree, e.atoms_tree] at hatoms
  have := congrArg List.length hatoms
  rw [List.length_map, List.length_map] at this
  omega

/-- What is set off is stranded or not whatever waits. -/
theorem Passage.strandedFrom_of_isSetOff {b : Passage} (h : b.isSetOff = true) (p q : Bool) :
    b.strandedFrom p = b.strandedFrom q := by
  cases b with
  | done => rw [strandedFrom, strandedFrom]
  | declaration => rw [strandedFrom, strandedFrom]
  | initialization => rw [strandedFrom, strandedFrom]
  | assignment => exact absurd h Bool.false_ne_true
  | closed => exact absurd h Bool.false_ne_true
  | bare => exact absurd h Bool.false_ne_true

theorem Phrase.regroup_block (body : Passage) : (block body).regroup = block body.regroup := by
  rw [Phrase.regroup, Phrase.feed]
  rfl

theorem Phrase.atoms_trees_of_regroup {e : Phrase} (h : e.regroup.tree = e.tree) :
    (e.atoms.map Phrase.regroup).map Phrase.tree = e.atoms.map Phrase.tree := by
  rw [← e.atoms_regroup, ← atoms_tree, h, atoms_tree]

mutual

theorem Phrase.delimited_of_atoms : ∀ e : Phrase, e.stranded = false →
    (e.atoms.map Phrase.regroup).map Phrase.tree = e.atoms.map Phrase.tree → e.delimited = true
  | .leaf .., _, _ => by rw [Phrase.delimited]
  | .operation l op r, hs, h => by
    rw [Phrase.stranded, Bool.or_eq_false_iff] at hs
    rw [Phrase.atoms, List.map_append, List.map_append, List.map_append] at h
    obtain ⟨hl, hr⟩ := List.append_inj h (by simp)
    rw [Phrase.delimited, l.delimited_of_atoms hs.1 hl, r.delimited_of_atoms hs.2 hr]
    rfl
  | .block body, hs, h => by
    rw [Phrase.stranded] at hs
    have hblock : (Phrase.block body).regroup.tree = (Phrase.block body).tree :=
      (List.cons.inj h).1
    rw [Phrase.regroup_block, Phrase.tree, Phrase.tree] at hblock
    rw [Phrase.delimited]
    exact body.delimited_of_trees_regroup hs (Tree.block.inj hblock)

/-- **Only delimited passages keep their trees** when they are regrouped. -/
theorem Passage.delimited_of_trees_regroup : ∀ b : Passage, b.stranded = false →
    b.regroup.trees = b.trees → b.delimited = true
  | .done, _, _ => by rw [Passage.delimited]
  | .declaration _ rest, hs, h => by
    rw [Passage.stranded, Passage.strandedFrom] at hs
    rw [Passage.regroup_declaration, Passage.trees, Passage.trees] at h
    rw [Passage.delimited]
    exact rest.delimited_of_trees_regroup hs (List.cons.inj h).2
  | .initialization _ e rest, hs, h => by
    rw [Passage.stranded, Passage.strandedFrom, Bool.or_eq_false_iff] at hs
    rw [Passage.regroup_initialization, Passage.trees, Passage.trees] at h
    obtain ⟨he, hrest⟩ := List.cons.inj h
    have he := Phrase.atoms_trees_of_regroup (Tree.initialization.inj he).2
    rw [Passage.delimited, e.delimited_of_atoms hs.1 he,
      rest.delimited_of_trees_regroup hs.2 hrest]
    rfl
  | .assignment _ e rest, hs, h => by
    rw [Passage.stranded, Passage.strandedFrom, Bool.false_or, Bool.or_eq_false_iff] at hs
    rw [Passage.regroup_assignment, Passage.trees, Passage.trees] at h
    obtain ⟨he, hrest⟩ := List.cons.inj h
    have he := Phrase.atoms_trees_of_regroup (Tree.assignment.inj he).2
    rw [Passage.delimited, e.delimited_of_atoms hs.1 he,
      rest.delimited_of_trees_regroup hs.2 hrest]
    rfl
  | .closed e rest, hs, h => by
    rw [Passage.stranded, Passage.strandedFrom, Bool.or_eq_false_iff] at hs
    rw [Passage.regroup_closed, Passage.trees, Passage.trees] at h
    obtain ⟨he, hrest⟩ := List.cons.inj h
    rw [Passage.delimited, e.delimited_of_atoms hs.1 (Phrase.atoms_trees_of_regroup he),
      rest.delimited_of_trees_regroup hs.2 hrest]
    rfl
  | .bare e rest, hs, h => by
    have hne : e.isOperation = true → rest.beginsWithExpression = true →
        (Passage.bare e rest).regroup.trees ≠ (Passage.bare e rest).trees :=
      Passage.trees_regroup_bare_ne
    rw [Passage.stranded, Passage.strandedFrom, Bool.false_or, Bool.or_eq_false_iff] at hs
    -- the yard holds nothing when what follows comes in, or the trees differ
    have hfollows : e.isOperation = false ∨ rest.isSetOff = true := by
      cases hop : e.isOperation with
      | false => exact .inl rfl
      | true =>
        cases rest with
        | done => exact .inr rfl
        | declaration => exact .inr rfl
        | initialization => exact .inr rfl
        | assignment => rw [hop, Passage.strandedFrom] at hs; exact absurd hs.2 (by simp)
        | closed => exact absurd h (hne hop rfl)
        | bare => exact absurd h (hne hop rfl)
    have hrest : rest.stranded = false := by
      rcases hfollows with hop | hset
      · rw [hop] at hs
        exact hs.2
      · exact (rest.strandedFrom_of_isSetOff hset _ _).trans hs.2
    rw [Passage.regroup_bare hfollows, Passage.trees, Passage.trees] at h
    obtain ⟨he, htrees⟩ := List.cons.inj h
    rw [Passage.delimited, e.delimited_of_atoms hs.1 (Phrase.atoms_trees_of_regroup he),
      rest.delimited_of_trees_regroup hrest htrees, Bool.true_and, Bool.and_true, Bool.or_eq_true,
      Bool.not_eq_true']
    exact hfollows

end

end BlockLang
