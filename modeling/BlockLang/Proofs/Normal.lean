import BlockLang.Proofs.Delimited

/-!
# Normal trees

A tree is normal if it can be written without parentheses: no left operand binds less
tightly than its operation, no right operand binds as tightly or less, and names, texts
and numbers can be spelled.

Grouping by rank leaves normal trees as they are.  An expression that comes into a yard
in which every waiting operator binds less tightly than it does comes out as it went in,
once the operators that came with it have taken their operands:
`release_feed_of_isNormal`.
-/

namespace BlockLang

/-- Whether a text is a name: it begins with a letter or `_`, goes on with letters, numeric
characters and `_`, and is not the word `let`. -/
def isName (s : String) : Bool :=
  match s.toList with
  | [] => false
  | c :: cs => Lexer.startsName c && cs.all Lexer.extendsName && s ≠ "let"

namespace Tree

/-- How tightly the root of a tree binds.  What is no operation binds tightest. -/
def rank : Tree → Nat
  | operation _ _ op => op.precedence
  | _ => 3

mutual

/-- **Whether a tree is normal.** -/
@[simp] def isNormal : Tree → Bool
  | number v => 0 ≤ v && v ≤ greatestNumber
  | text s => !s.toList.contains '"'
  | name x | declaration x => isName x
  | operation l r op =>
    l.isExpression && r.isExpression && op.precedence ≤ l.rank && op.precedence < r.rank
      && l.isNormal && r.isNormal
  | block stmts => areNormal stmts
  | initialization x value | assignment x value => isName x && value.isExpression && value.isNormal
  | foreign _ => false

/-- Whether all trees of a list are normal. -/
@[simp] def areNormal : List Tree → Bool
  | [] => true
  | t :: ts => t.isNormal && areNormal ts

end

end Tree

namespace Yard

theorem releaseFrom_of_lt {p : Nat} {held : List Operator}
    (h : ∀ op, held.head? = some op → op.precedence < p) (operands : List Phrase) :
    releaseFrom p operands held = ⟨operands, held⟩ := by
  cases held with
  | nil => rfl
  | cons op held =>
    have := h op rfl
    rw [releaseFrom, if_neg (by omega)]

/-- The operators that bind tightest may go first. -/
theorem releaseFrom_releaseFrom {p q : Nat} (h : p ≤ q) (held : List Operator)
    (operands : List Phrase) :
    releaseFrom p (releaseFrom q operands held).operands (releaseFrom q operands held).held
      = releaseFrom p operands held := by
  induction held generalizing operands with
  | nil => rfl
  | cons op held ih =>
    by_cases hq : q ≤ op.precedence
    · rw [releaseFrom, if_pos hq, ih, releaseFrom, if_pos (Nat.le_trans h hq)]
    · rw [releaseFrom, if_neg hq]

end Yard

theorem Phrase.tree_regroup_of_release {e : Phrase}
    (h : ∃ e' : Phrase, e'.tree = e.tree ∧ (e.feed {}).release 0 = ({} : Yard).push e') :
    e.regroup.tree = e.tree := by
  obtain ⟨e', htree, hrelease⟩ := h
  have hsettled := e.settled_feed
  rw [Yard.settled, hrelease] at hsettled
  rw [← htree, (List.cons.inj hsettled).1]

mutual

/-- **A normal expression comes out of a yard as it went in**, if every waiting operator binds less
tightly than it does. -/
theorem Phrase.release_feed_of_isNormal : ∀ (e : Phrase) {y : Yard} {p : Nat},
    e.tree.isNormal = true → e.delimited = true →
    (∀ op, y.held.head? = some op → op.precedence < p) → p ≤ e.tree.rank →
    ∃ e' : Phrase, e'.tree = e.tree ∧ (e.feed y).release p = y.push e'
  | .leaf t e he, y, p, _, _, hbelow, _ => by
    refine ⟨.leaf t e he, rfl, ?_⟩
    rw [Phrase.feed]
    exact Yard.releaseFrom_of_lt hbelow _
  | .block body, y, p, hn, hd, hbelow, _ => by
    rw [Phrase.tree, Tree.isNormal] at hn
    rw [Phrase.delimited] at hd
    refine ⟨.block body.regroup, ?_, ?_⟩
    · rw [Phrase.tree, Phrase.tree, body.trees_regroup_of_areNormal hn hd]
    · rw [Phrase.feed]
      exact Yard.releaseFrom_of_lt hbelow _
  | .operation l op r, y, p, hn, hd, hbelow, hrank => by
    rw [Phrase.tree, Tree.isNormal] at hn
    simp only [Bool.and_eq_true, decide_eq_true_eq] at hn
    obtain ⟨⟨⟨⟨-, hlrank⟩, hrrank⟩, hl⟩, hr⟩ := hn
    rw [Phrase.delimited, Bool.and_eq_true] at hd
    have hp : p ≤ op.precedence := by
      rw [Phrase.tree] at hrank
      exact hrank
    -- the left operand settles before the operator waits
    obtain ⟨l', hl', hleft⟩ := l.release_feed_of_isNormal (p := op.precedence) hl hd.1
      (fun o ho => Nat.lt_of_lt_of_le (hbelow o ho) hp) hlrank
    have hhold : (l.feed y).hold op = ⟨l' :: y.operands, op :: y.held⟩ := by
      rw [Yard.hold, hleft]
      rfl
    -- the right operand settles before the operator takes it
    obtain ⟨r', hr', hright⟩ := r.release_feed_of_isNormal
      (y := ⟨l' :: y.operands, op :: y.held⟩) (p := op.precedence + 1) hr hd.2
      (fun o ho => by rw [← Option.some.inj ho]; exact Nat.lt_succ_self _) hrrank
    refine ⟨.operation l' op r', by rw [Phrase.tree, Phrase.tree, hl', hr'], ?_⟩
    rw [Phrase.feed, hhold, Yard.release,
      ← Yard.releaseFrom_releaseFrom (q := op.precedence + 1) (Nat.le_succ_of_le hp)]
    rw [Yard.release] at hright
    rw [hright, Yard.push, Yard.releaseFrom, if_pos hp, Yard.operate,
      Yard.releaseFrom_of_lt hbelow]
    rfl

/-- **Regrouping a delimited passage of normal trees keeps the trees.** -/
theorem Passage.trees_regroup_of_areNormal : ∀ b : Passage, Tree.areNormal b.trees = true →
    b.delimited = true → b.regroup.trees = b.trees
  | .done, _, _ => by rw [Passage.regroup_done]
  | .declaration _ rest, hn, hd => by
    rw [Passage.trees, Tree.areNormal, Bool.and_eq_true] at hn
    rw [Passage.delimited] at hd
    rw [Passage.regroup_declaration, Passage.trees, Passage.trees,
      rest.trees_regroup_of_areNormal hn.2 hd]
  | .initialization _ e rest, hn, hd => by
    rw [Passage.trees, Tree.areNormal, Tree.isNormal, Bool.and_eq_true, Bool.and_eq_true] at hn
    rw [Passage.delimited, Bool.and_eq_true] at hd
    have he := e.tree_regroup_of_release
      (e.release_feed_of_isNormal hn.1.2 hd.1 (fun _ h => absurd h (by simp)) (Nat.zero_le _))
    rw [Passage.regroup_initialization, Passage.trees, Passage.trees, he,
      rest.trees_regroup_of_areNormal hn.2 hd.2]
  | .assignment _ e rest, hn, hd => by
    rw [Passage.trees, Tree.areNormal, Tree.isNormal, Bool.and_eq_true, Bool.and_eq_true] at hn
    rw [Passage.delimited, Bool.and_eq_true] at hd
    have he := e.tree_regroup_of_release
      (e.release_feed_of_isNormal hn.1.2 hd.1 (fun _ h => absurd h (by simp)) (Nat.zero_le _))
    rw [Passage.regroup_assignment, Passage.trees, Passage.trees, he,
      rest.trees_regroup_of_areNormal hn.2 hd.2]
  | .closed e rest, hn, hd => by
    rw [Passage.trees, Tree.areNormal, Bool.and_eq_true] at hn
    rw [Passage.delimited, Bool.and_eq_true] at hd
    have he := e.tree_regroup_of_release
      (e.release_feed_of_isNormal hn.1 hd.1 (fun _ h => absurd h (by simp)) (Nat.zero_le _))
    rw [Passage.regroup_closed, Passage.trees, Passage.trees, he,
      rest.trees_regroup_of_areNormal hn.2 hd.2]
  | .bare e rest, hn, hd => by
    rw [Passage.trees, Tree.areNormal, Bool.and_eq_true] at hn
    rw [Passage.delimited, Bool.and_eq_true, Bool.and_eq_true, Bool.or_eq_true,
      Bool.not_eq_true'] at hd
    have he := e.tree_regroup_of_release
      (e.release_feed_of_isNormal hn.1 hd.1.1 (fun _ h => absurd h (by simp)) (Nat.zero_le _))
    rw [Passage.regroup_bare hd.1.2, Passage.trees, Passage.trees, he,
      rest.trees_regroup_of_areNormal hn.2 hd.2]

end

end BlockLang
