import BlockLang.Proofs.Parser.Accepted

/-!
# The language of the rightward grouping

Where operations group to the right, a source is accepted as `ts` exactly when it is
written as `ts` with the signs between operands, and no operation of `ts`, at any depth
of operations and blocks, has an operation on its left.
-/

namespace BlockLang

namespace Tree

mutual

/-- Whether operations group to the right only: no left operand is an operation. -/
@[simp] def nestsRight : Tree → Bool
  | operation l r _ => !l.isOperation && l.nestsRight && r.nestsRight
  | block stmts => allNestRight stmts
  | initialization _ value | assignment _ value => value.nestsRight
  | number _ | text _ | name _ | declaration _ | foreign _ => true

/-- Whether the operations of all trees of a list group to the right only. -/
@[simp] def allNestRight : List Tree → Bool
  | [] => true
  | t :: ts => t.nestsRight && allNestRight ts

end

end Tree

mutual

theorem Phrase.nestsRight_tree : ∀ e : Phrase, e.tree.nestsRight = e.nestsRight
  | .leaf t e he => by
    rw [Phrase.tree, Phrase.nestsRight]
    exact Token.leaf?_cases (P := fun e => e.nestsRight = true) he (fun _ => by rw [Tree.nestsRight])
      (fun _ => by rw [Tree.nestsRight]) (fun _ => by rw [Tree.nestsRight])
  | .operation l op r => by
    rw [Phrase.tree, Tree.nestsRight, Phrase.nestsRight, l.isOperation_tree, l.nestsRight_tree,
      r.nestsRight_tree]
  | .block body => by rw [Phrase.tree, Tree.nestsRight, Phrase.nestsRight, body.nestsRight_trees]

theorem Passage.nestsRight_trees : ∀ b : Passage, Tree.allNestRight b.trees = b.nestsRight
  | .done => rfl
  | .declaration name rest => by
    rw [Passage.trees, Tree.allNestRight, Tree.nestsRight, Bool.true_and, Passage.nestsRight,
      rest.nestsRight_trees]
  | .initialization name e rest => by
    rw [Passage.trees, Tree.allNestRight, Tree.nestsRight, Passage.nestsRight, e.nestsRight_tree,
      rest.nestsRight_trees]
  | .assignment name e rest => by
    rw [Passage.trees, Tree.allNestRight, Tree.nestsRight, Passage.nestsRight, e.nestsRight_tree,
      rest.nestsRight_trees]
  | .closed e rest => by
    rw [Passage.trees, Tree.allNestRight, Passage.nestsRight, e.nestsRight_tree,
      rest.nestsRight_trees]
  | .bare e rest => by
    rw [Passage.trees, Tree.allNestRight, Passage.nestsRight, e.nestsRight_tree,
      rest.nestsRight_trees]

end

/-- **The rightward grouping accepts exactly its grammar.** -/
theorem parseProgram_rightward_eq_ok_iff_writtenAs (source : String) (ts : List Tree) :
    parseProgram source .rightward = .ok ts
      ↔ Tree.allNestRight ts = true ∧ WrittenAs .between ts (significantTokens source) := by
  rw [parseProgram_rightward_iff]
  constructor
  · rintro ⟨b, rfl, htokens, hnests⟩
    exact ⟨b.nestsRight_trees.trans hnests, b, rfl, htokens⟩
  · rintro ⟨hnests, b, rfl, htokens⟩
    exact ⟨b, rfl, htokens, b.nestsRight_trees.symm.trans hnests⟩

end BlockLang
