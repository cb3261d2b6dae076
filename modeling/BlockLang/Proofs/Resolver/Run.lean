import BlockLang.Proofs.Resolver.Depth

/-!
# Runs of atoms and signs

A run is what an expression looks like before anything is known of how it groups: atoms
with a sign between each two,

    a₀ o₁ a₁ o₂ a₂ … oₙ aₙ.

An atom is an operand, or a block of tokens of which nothing is asked but that they are
balanced: each brace that is opened is closed, and each that is closed was opened.

A `RunTree` has the atoms at its leaves and the signs at its nodes.  Read from left to right
it is a run, `RunTree.run`, and read operands first it is `RunTree.postorder`.  It is
*grouped* if every left operand binds at least as tightly as the sign behind it, and every
right operand more tightly than the sign in front of it.  Each run is read from one grouped
tree only, `run_eq_iff`:

    e.isGrouped ∧ e.run = a  ↔  e = a.tree.

The tree is found from the left.  A sign with the atom behind it goes down the right edge
of the tree so far, past the signs that bind less tightly than it does.
-/

namespace BlockLang

/-! ### Balanced tokens -/

/-- Whether tokens that stand inside `n` braces close no others, and do not end the source. -/
def isEnclosed : Nat → List Token → Bool
  | _, [] => true
  | n, t :: ts =>
    t.kind ≠ .eof && (t.kind ≠ .closeBrace || 0 < n) && isEnclosed (t.deepen n) ts

/-- **Whether tokens are balanced**: each brace that is closed was opened before, each that is
opened is closed, and there is no end mark. -/
def isBalanced (ts : List Token) : Bool :=
  isEnclosed 0 ts && depthFrom 0 ts = 0

theorem isEnclosed_append (n : Nat) (ts us : List Token) :
    isEnclosed n (ts ++ us) = (isEnclosed n ts && isEnclosed (depthFrom n ts) us) := by
  induction ts generalizing n with
  | nil => rfl
  | cons t ts ih =>
    rw [List.cons_append, isEnclosed, isEnclosed, ih, depthFrom_cons]
    exact (Bool.and_assoc ..).symm

theorem isEnclosed_cons {t : Token} (h : (t.isOperand || t.isOperator) = true) (n : Nat)
    (ts : List Token) : isEnclosed n (t :: ts) = isEnclosed n ts ∧ t.deepen n = n := by
  obtain ⟨k, s⟩ := t
  cases k <;>
    simp_all [isEnclosed, Token.deepen, Token.isOperand, TokenKind.isOperand, Token.isOperator,
      TokenKind.isOperator]

theorem isEnclosed_filter_counts (n : Nat) (ts : List Token) :
    isEnclosed n (ts.filter Token.counts) = isEnclosed n ts := by
  induction ts generalizing n with
  | nil => rfl
  | cons t ts ih =>
    by_cases ht : t.counts = true
    · rw [List.filter_cons_of_pos ht, isEnclosed, isEnclosed, ih]
    · have hblank : t.kind = .whitespace := by simpa [Token.counts, Token.isWhitespace] using ht
      have hsame : t.deepen n = n := by simp [Token.deepen, hblank]
      rw [List.filter_cons_of_neg ht, isEnclosed, hsame, ih]
      simp [hblank]

theorem isBalanced_filter_counts (ts : List Token) :
    isBalanced (ts.filter Token.counts) = isBalanced ts := by
  rw [isBalanced, isEnclosed_filter_counts, depthFrom_filter_counts]
  rfl

theorem isEnclosed_add {n : Nat} {ts : List Token} (h : isEnclosed n ts = true) (m : Nat) :
    isEnclosed (n + m) ts = true ∧ depthFrom (n + m) ts = depthFrom n ts + m := by
  induction ts generalizing n with
  | nil => exact ⟨rfl, rfl⟩
  | cons t ts ih =>
    rw [isEnclosed, Bool.and_eq_true, Bool.and_eq_true] at h
    obtain ⟨⟨heof, hclose⟩, hrest⟩ := h
    have hdeepen : t.deepen (n + m) = t.deepen n + m := by
      unfold Token.deepen
      rcases hk : t.kind
      case openBrace => exact Nat.add_right_comm ..
      case closeBrace =>
        have hn : 0 < n := by simpa [hk] using hclose
        show n + m - 1 = n - 1 + m
        omega
      case eof => simp [hk] at heof
      all_goals rfl
    have hclose' : (t.kind ≠ .closeBrace || 0 < n + m : Bool) = true := by
      rcases Bool.or_eq_true_iff.1 hclose with hk | hn
      · rw [hk, Bool.true_or]
      · rw [decide_eq_true (Nat.lt_of_lt_of_le (of_decide_eq_true hn) (Nat.le_add_right n m)),
          Bool.or_true]
    rw [isEnclosed, depthFrom_cons, depthFrom_cons, hdeepen, heof, hclose', (ih hrest).1,
      (ih hrest).2]
    exact ⟨rfl, rfl⟩

/-- **Balanced tokens** close no brace around them, and leave the depth as it is. -/
theorem isEnclosed_of_isBalanced {ts : List Token} (h : isBalanced ts = true) (n : Nat) :
    isEnclosed n ts = true ∧ depthFrom n ts = n := by
  rw [isBalanced, Bool.and_eq_true, decide_eq_true_eq] at h
  have hadd := isEnclosed_add h.1 n
  rwa [h.2, Nat.zero_add] at hadd

/-! ### Atoms, signs and runs -/

/-- **What a run joins**: an operand, or a block. -/
inductive Atom where
  | operand (t : Token) (h : t.isOperand = true)
  | block (opening : Token) (body : List Token) (closing : Token)
      (hopening : opening.kind = .openBrace) (hbody : isBalanced body = true)
      (hclosing : closing.kind = .closeBrace)

namespace Atom

/-- An atom as it is written. -/
def tokens : Atom → List Token
  | operand t _ => [t]
  | block opening body closing _ _ _ => opening :: (body ++ [closing])

/-- An atom with the operators in it behind their operands: what is in a block is resolved where it
stands, as if it stood alone. -/
def resolved : Atom → List Token
  | operand t _ => [t]
  | block opening body closing _ _ _ => opening :: (resolve body ++ [closing])

theorem isEnclosed_tokens (a : Atom) (n : Nat) :
    isEnclosed n a.tokens = true ∧ depthFrom n a.tokens = n := by
  cases a with
  | operand t h => exact isEnclosed_cons (by rw [h, Bool.true_or]) n []
  | block opening body closing hopening hbody hclosing =>
    obtain ⟨hin, hdepth⟩ := isEnclosed_of_isBalanced hbody (n + 1)
    have hopen : opening.deepen n = n + 1 := by simp [Token.deepen, hopening]
    have hclose : closing.deepen (n + 1) = n := by simp [Token.deepen, hclosing]
    refine ⟨?_, ?_⟩
    · rw [tokens, isEnclosed, hopen, isEnclosed_append, hin, hdepth]
      simp [isEnclosed, hopening, hclosing]
    · rw [tokens, depthFrom_cons, hopen, depthFrom_append, hdepth, depthFrom_cons, hclose,
        depthFrom_nil]

end Atom

/-- An operator between two atoms. -/
structure Sign where
  token : Token
  isOperator : token.isOperator = true

namespace Sign

/-- **How tightly a sign binds**: `*`, `/` and `%` more tightly than `+` and `-`. -/
def rank (o : Sign) : Nat :=
  match o.token.kind with
  | .plus | .minus => 1
  | _ => 2

theorem rank_lt (o : Sign) : o.rank < 3 := by
  unfold rank
  split <;> decide

theorem precedence?_token (o : Sign) : o.token.kind.precedence? = some o.rank := by
  have h := o.isOperator
  rw [Token.isOperator] at h
  unfold rank
  revert h
  rcases o.token.kind <;> simp [TokenKind.isOperator, TokenKind.precedence?]

end Sign

/-- **A run**: an atom, and more of them with a sign in front of each. -/
structure Run where
  first : Atom
  rest : List (Sign × Atom)

namespace Run

/-- A run as it is written. -/
def tokens (a : Run) : List Token :=
  a.first.tokens ++ a.rest.flatMap fun p => p.1.token :: p.2.tokens

/-- Two runs with a sign between them. -/
def join (a : Run) (o : Sign) (b : Run) : Run :=
  { first := a.first, rest := a.rest ++ (o, b.first) :: b.rest }

theorem tokens_join (a : Run) (o : Sign) (b : Run) :
    (a.join o b).tokens = a.tokens ++ o.token :: b.tokens := by
  simp [tokens, join]

end Run

/-! ### Trees over a run -/

/-- Atoms joined by signs. -/
inductive RunTree where
  | atom (a : Atom)
  | node (left : RunTree) (sign : Sign) (right : RunTree)

namespace RunTree

/-- How tightly the root binds.  An atom binds tightest. -/
def rank : RunTree → Nat
  | atom _ => 3
  | node _ o _ => o.rank

/-- The tree read from left to right. -/
def run : RunTree → Run
  | atom a => { first := a, rest := [] }
  | node l o r => l.run.join o r.run

/-- **The tree read in post-order**: the left operand, the right operand, the sign. -/
def postorder : RunTree → List Token
  | atom a => a.resolved
  | node l o r => l.postorder ++ r.postorder ++ [o.token]

/-- **Whether a tree is grouped** by rank, and signs of one rank to the left: no left operand binds
less tightly than the sign, and every right one binds more tightly. -/
def isGrouped : RunTree → Bool
  | atom _ => true
  | node l o r => o.rank ≤ l.rank && o.rank < r.rank && l.isGrouped && r.isGrouped

theorem isGrouped_node {l r : RunTree} {o : Sign} : (node l o r).isGrouped = true ↔
    o.rank ≤ l.rank ∧ o.rank < r.rank ∧ l.isGrouped = true ∧ r.isGrouped = true := by
  simp [isGrouped, and_assoc]

theorem isEnclosed_tokens_run (e : RunTree) (n : Nat) :
    isEnclosed n e.run.tokens = true ∧ depthFrom n e.run.tokens = n := by
  induction e with
  | atom a =>
    have h := a.isEnclosed_tokens n
    simpa [run, Run.tokens] using h
  | node l o r ihl ihr =>
    obtain ⟨hsign, hdeepen⟩ := isEnclosed_cons (by rw [o.isOperator, Bool.or_true]) n r.run.tokens
    rw [run, Run.tokens_join, isEnclosed_append, depthFrom_append, ihl.1, ihl.2, hsign, ihr.1,
      depthFrom_cons, hdeepen, ihr.2]
    exact ⟨rfl, rfl⟩

theorem rank_le_of_mem {e : RunTree} (he : e.isGrouped = true) :
    ∀ p ∈ e.run.rest, e.rank ≤ p.1.rank := by
  induction e with
  | atom a => exact fun p hp => absurd hp List.not_mem_nil
  | node l o r ihl ihr =>
    obtain ⟨hl, hr, hgl, hgr⟩ := isGrouped_node.1 he
    intro p hp
    rcases List.mem_append.1 hp with hp | hp
    · exact Nat.le_trans hl (ihl hgl p hp)
    · rcases List.mem_cons.1 hp with rfl | hp
      · exact Nat.le_refl _
      · exact Nat.le_trans (Nat.le_of_lt hr) (ihr hgr p hp)

/-! ### One more sign and atom -/

/-- **One more sign, with the atom behind it.**  It takes for its left operand what binds at least
as tightly, and goes down the right edge past what does not. -/
def graft : RunTree → Sign → Atom → RunTree
  | atom a, o, b => node (atom a) o (atom b)
  | node l p r, o, b =>
    if o.rank ≤ p.rank then node (node l p r) o (atom b) else node l p (r.graft o b)

theorem graft_of_le {e : RunTree} {o : Sign} (h : o.rank ≤ e.rank) (b : Atom) :
    e.graft o b = node e o (atom b) := by
  cases e with
  | atom a => rfl
  | node l p r => exact if_pos h

theorem graft_node_of_lt {l r : RunTree} {p o : Sign} (h : p.rank < o.rank) (b : Atom) :
    (node l p r).graft o b = node l p (r.graft o b) :=
  if_neg (Nat.not_le.2 h)

theorem run_graft (e : RunTree) (o : Sign) (b : Atom) :
    (e.graft o b).run = { first := e.run.first, rest := e.run.rest ++ [(o, b)] } := by
  induction e with
  | atom a => rfl
  | node l p r _ ih =>
    by_cases h : o.rank ≤ p.rank
    · rw [graft_of_le h]
      rfl
    · rw [graft_node_of_lt (Nat.not_le.1 h), run, ih, run]
      simp [Run.join]

/-- What is grouped stays so, and binds no less tightly than it did or the new sign does. -/
theorem isGrouped_graft {e : RunTree} (he : e.isGrouped = true) (o : Sign) (b : Atom) :
    (e.graft o b).isGrouped = true ∧ min e.rank o.rank ≤ (e.graft o b).rank := by
  have htop : ∀ e : RunTree, e.isGrouped = true → o.rank ≤ e.rank →
      (node e o (atom b)).isGrouped = true ∧ min e.rank o.rank ≤ (node e o (atom b)).rank :=
    fun e he h => ⟨isGrouped_node.2 ⟨h, o.rank_lt, he, rfl⟩, Nat.min_le_right ..⟩
  induction e with
  | atom a => exact htop _ he (Nat.le_of_lt o.rank_lt)
  | node l p r _ ih =>
    by_cases h : o.rank ≤ p.rank
    · rw [graft_of_le h]
      exact htop _ he h
    · obtain ⟨hl, hr, hgl, hgr⟩ := isGrouped_node.1 he
      obtain ⟨hg, hmin⟩ := ih hgr
      have hp : p.rank < min r.rank o.rank := Nat.lt_min.2 ⟨hr, Nat.not_le.1 h⟩
      rw [graft_node_of_lt (Nat.not_le.1 h)]
      exact ⟨isGrouped_node.2 ⟨hl, Nat.lt_of_lt_of_le hp hmin, hgl, hg⟩, Nat.min_le_left ..⟩

/-- More signs and atoms, one after the other. -/
def graftAll (e : RunTree) (rest : List (Sign × Atom)) : RunTree :=
  rest.foldl (fun e p => e.graft p.1 p.2) e

theorem graftAll_append (e : RunTree) (rest more : List (Sign × Atom)) :
    e.graftAll (rest ++ more) = (e.graftAll rest).graftAll more :=
  List.foldl_append ..

theorem graftAll_cons (e : RunTree) (p : Sign × Atom) (rest : List (Sign × Atom)) :
    e.graftAll (p :: rest) = (e.graft p.1 p.2).graftAll rest := rfl

theorem run_graftAll (e : RunTree) (rest : List (Sign × Atom)) :
    (e.graftAll rest).run = { first := e.run.first, rest := e.run.rest ++ rest } := by
  induction rest generalizing e with
  | nil => rw [List.append_nil]; rfl
  | cons p rest ih =>
    rw [graftAll_cons, ih, run_graft]
    simp

theorem isGrouped_graftAll {e : RunTree} (he : e.isGrouped = true) (rest : List (Sign × Atom)) :
    (e.graftAll rest).isGrouped = true := by
  induction rest generalizing e with
  | nil => exact he
  | cons p rest ih => exact ih (isGrouped_graft he p.1 p.2).1

/-- Signs that bind more tightly than the root all go into its right operand. -/
theorem graftAll_node {l r : RunTree} {o : Sign} {rest : List (Sign × Atom)}
    (h : ∀ p ∈ rest, o.rank < p.1.rank) :
    (node l o r).graftAll rest = node l o (r.graftAll rest) := by
  induction rest generalizing r with
  | nil => rfl
  | cons p rest ih =>
    rw [graftAll_cons, graft_node_of_lt (h p List.mem_cons_self), graftAll_cons]
    exact ih (fun q hq => h q (List.mem_cons_of_mem p hq))

end RunTree

open RunTree

/-- The grouped tree of a run. -/
def Run.tree (a : Run) : RunTree :=
  (RunTree.atom a.first).graftAll a.rest

/-- **A grouped tree is found from its run.** -/
theorem RunTree.tree_run {e : RunTree} (he : e.isGrouped = true) : e.run.tree = e := by
  induction e with
  | atom a => rfl
  | node l o r ihl ihr =>
    obtain ⟨hl, hr, hgl, hgr⟩ := isGrouped_node.1 he
    have hright : ∀ p ∈ r.run.rest, o.rank < p.1.rank := fun p hp =>
      Nat.lt_of_lt_of_le hr (rank_le_of_mem hgr p hp)
    calc (node l o r).run.tree
        = (l.run.tree.graft o r.run.first).graftAll r.run.rest := by
          rw [run, Run.tree, Run.join, graftAll_append, graftAll_cons]
          rfl
      _ = (node l o (atom r.run.first)).graftAll r.run.rest := by
          rw [ihl hgl, graft_of_le hl]
      _ = node l o r.run.tree := graftAll_node hright
      _ = node l o r := by rw [ihr hgr]

/-- **Each run has one grouped tree.** -/
theorem RunTree.run_eq_iff {e : RunTree} {a : Run} :
    e.isGrouped = true ∧ e.run = a ↔ e = a.tree := by
  constructor
  · rintro ⟨he, rfl⟩
    exact (tree_run he).symm
  · rintro rfl
    exact ⟨isGrouped_graftAll rfl a.rest, run_graftAll (atom a.first) a.rest⟩

end BlockLang
