import BlockLang.Proofs.Regroup
import BlockLang.Proofs.Resolver
import Mathlib.Data.List.Chain

/-!
# What a resolver makes of a passage

A resolver that is given the tokens of a passage, with the signs between operands, gives
the tokens of the regrouped passage with the signs behind, `resolve_tokens`:

    resolve (b.tokens .between) = b.regroup.tokens .behind.

The invariant is that what came out since the innermost barrier are the tokens of the
expressions in the yard, and what is held above the barrier are its waiting operators.

There is one exception.  An operator that still waits when `<name> =` comes is let out
between the name and the `=`.  Such a passage is `stranded`, and what comes out is the
writing of no passage at all: `exists_operator_before_equals`.
-/

namespace BlockLang

open Resolver

mutual

/-- Whether an operator still waits at some `=` in the blocks of an expression. -/
@[simp] def Phrase.stranded : Phrase → Bool
  | .leaf .. => false
  | .operation l _ r => l.stranded || r.stranded
  | .block body => body.strandedFrom false

/-- Whether an operator still waits at some `=` of a passage, if one waits at its start as
`pending` says. -/
@[simp] def Passage.strandedFrom : Passage → Bool → Bool
  | .done, _ => false
  | .declaration _ rest, _ => rest.strandedFrom false
  | .initialization _ e rest, _ => e.stranded || rest.strandedFrom false
  | .assignment _ e rest, pending => pending || e.stranded || rest.strandedFrom false
  | .closed e rest, _ => e.stranded || rest.strandedFrom false
  | .bare e rest, pending => e.stranded || rest.strandedFrom (pending || e.isOperation)

end

/-- Whether an operator still waits at some `=` of a passage. -/
def Passage.stranded (b : Passage) : Bool :=
  b.strandedFrom false

/-- The signs of operators. -/
def signs (ops : List Operator) : List Token :=
  ops.map Operator.token

/-- Held tokens that begin with a barrier, if there are any. -/
def Walled (base : List Token) : Prop :=
  ∀ t, base.head? = some t → isBarrier t = true

theorem isBarrier_token (op : Operator) : isBarrier op.token = false :=
  isBarrier_of_isOperator op.isOperator_token

theorem isBarrier_signs (ops : List Operator) : ∀ t ∈ signs ops, isBarrier t = false := by
  intro t ht
  obtain ⟨op, -, rfl⟩ := List.mem_map.1 ht
  exact isBarrier_token op

theorem precedence?_token (op : Operator) : op.token.kind.precedence? = some op.precedence :=
  Operator.precedence?_eq_of_ofKind? op.ofKind?_kind

theorem yieldsTo_token (p : Nat) (op : Operator) :
    yieldsTo p op.token = decide (p ≤ op.precedence) := by
  rw [yieldsTo, isBarrier_token, precedence?_token]
  rfl

namespace Walled

variable {base : List Token}

/-- **Letting operators out stops at a barrier**: what is below it makes no difference and stays. -/
theorem span_append (h : Walled base) {p : Token → Bool}
    (hp : ∀ t, p t = true → isBarrier t = false) (above : List Token) :
    (above ++ base).takeWhile p = above.takeWhile p
      ∧ (above ++ base).dropWhile p = above.dropWhile p ++ base := by
  induction above with
  | nil =>
    cases base with
    | nil => exact ⟨rfl, rfl⟩
    | cons b base =>
      have hb : ¬ p b = true := by
        intro hpb
        exact Bool.false_ne_true ((hp b hpb).symm.trans (h b rfl))
      exact ⟨List.takeWhile_cons_of_neg hb, List.dropWhile_cons_of_neg hb⟩
  | cons t above ih =>
    rw [List.cons_append]
    by_cases ht : p t = true
    · rw [List.takeWhile_cons_of_pos ht, List.dropWhile_cons_of_pos ht,
        List.takeWhile_cons_of_pos ht, List.dropWhile_cons_of_pos ht, ih.1, ih.2]
      exact ⟨rfl, rfl⟩
    · rw [List.takeWhile_cons_of_neg ht, List.dropWhile_cons_of_neg ht,
        List.takeWhile_cons_of_neg ht, List.dropWhile_cons_of_neg ht]
      exact ⟨rfl, rfl⟩

theorem aboveBarrier_append (h : Walled base) (above : List Token) :
    aboveBarrier (above ++ base) = aboveBarrier above :=
  (h.span_append (fun _ ht => by simpa using ht) above).1

theorem fromBarrier_append (h : Walled base) (above : List Token) :
    fromBarrier (above ++ base) = fromBarrier above ++ base :=
  (h.span_append (fun _ ht => by simpa using ht) above).2

theorem aboveBarrier_signs (h : Walled base) (ops : List Operator) :
    aboveBarrier (signs ops ++ base) = signs ops := by
  rw [h.aboveBarrier_append, aboveBarrier_eq_self (isBarrier_signs ops)]

theorem fromBarrier_signs (h : Walled base) (ops : List Operator) :
    fromBarrier (signs ops ++ base) = base := by
  rw [h.fromBarrier_append, fromBarrier_eq_nil (isBarrier_signs ops), List.nil_append]

theorem cons_openBrace (held : List Token) : Walled (.fixed .openBrace :: held) := by
  intro t ht
  rw [← Option.some.inj ht]
  rfl

end Walled

/-! ### The resolver's steps -/

theorem resolveFrom_operand {t : Token} (h : t.isOperand = true) (held ts : List Token) :
    resolveFrom held (t :: ts) = t :: resolveFrom held ts := by
  rw [resolveFrom, shift_of_isOperand h, List.singleton_append]

theorem resolveFrom_openBrace (held ts : List Token) :
    resolveFrom held (.fixed .openBrace :: ts)
      = .fixed .openBrace :: resolveFrom (.fixed .openBrace :: held) ts := rfl

theorem resolveFrom_closeBrace {held : List Token} (ops : List Operator) (ts : List Token) :
    resolveFrom (signs ops ++ .fixed .openBrace :: held) (.fixed .closeBrace :: ts)
      = signs ops ++ .fixed .closeBrace :: resolveFrom held ts := by
  have hwall : Walled (.fixed .openBrace :: held) := .cons_openBrace held
  have hshift : shift (signs ops ++ .fixed .openBrace :: held) (.fixed .closeBrace)
      = (signs ops ++ [.fixed .closeBrace], held) := by
    show (aboveBarrier _ ++ _, (fromBarrier _).drop 1) = _
    rw [hwall.aboveBarrier_signs, hwall.fromBarrier_signs]
    rfl
  rw [resolveFrom, hshift, List.append_assoc, List.singleton_append]

/-- The kinds that let out what is held and begin a new run. -/
def TokenKind.endsRun : TokenKind → Bool
  | letWord | semi | equals => true
  | _ => false

theorem resolveFrom_endsRun {base : List Token} (hbase : Walled base) {t : Token}
    (h : t.kind.endsRun = true) (ops : List Operator) (ts : List Token) :
    resolveFrom (signs ops ++ base) (t :: ts) = signs ops ++ t :: resolveFrom base ts := by
  have hshift : shift (signs ops ++ base) t = (signs ops ++ [t], base) := by
    have := hbase.aboveBarrier_signs ops
    have := hbase.fromBarrier_signs ops
    obtain ⟨k, s⟩ := t
    cases k <;> simp_all [TokenKind.endsRun, shift]
  rw [resolveFrom, hshift, List.append_assoc, List.singleton_append]

theorem resolveFrom_atRest {base : List Token} (hbase : Walled base) {t : Token}
    (h : t.kind.endsRun = true) (ts : List Token) :
    resolveFrom base (t :: ts) = t :: resolveFrom base ts :=
  resolveFrom_endsRun hbase h [] ts

theorem stackTokens_operate (op : Operator) {operands : List Phrase} (h : 2 ≤ operands.length) :
    stackTokens .behind (Yard.operate op operands)
      = stackTokens .behind operands ++ [op.token] := by
  match operands, h with
  | r :: l :: rest, _ =>
    rw [Yard.operate, stackTokens, Phrase.tokens, Placement.arrange, stackTokens, stackTokens]
    simp only [List.append_assoc]

theorem releaseFrom_tokens (p : Nat) {n : Nat} {base : List Token} (hbase : Walled base)
    {held : List Operator} {operands : List Phrase}
    (h : operands.length = held.length + (n + 1)) :
    stackTokens .behind (Yard.releaseFrom p operands held).operands
        = stackTokens .behind operands ++ (signs held ++ base).takeWhile (yieldsTo p)
      ∧ signs (Yard.releaseFrom p operands held).held ++ base
        = (signs held ++ base).dropWhile (yieldsTo p) := by
  induction held generalizing operands with
  | nil =>
    cases base with
    | nil => simp [Yard.releaseFrom, signs]
    | cons t base => simp [Yard.releaseFrom, signs, yieldsTo, hbase t rfl]
  | cons op held ih =>
    rw [List.length_cons] at h
    have hyields := yieldsTo_token p op
    have hsigns : signs (op :: held) ++ base = op.token :: (signs held ++ base) := rfl
    rw [Yard.releaseFrom, hsigns]
    by_cases hp : p ≤ op.precedence
    · have hlen := Yard.length_operate op operands (by omega)
      have hrest : (Yard.operate op operands).length = held.length + (n + 1) := by omega
      obtain ⟨hout, hheld⟩ := ih hrest
      rw [decide_eq_true hp] at hyields
      rw [if_pos hp, List.takeWhile_cons_of_pos hyields, List.dropWhile_cons_of_pos hyields, hout,
        hheld, stackTokens_operate op (by omega), List.append_assoc]
      exact ⟨rfl, rfl⟩
    · rw [decide_eq_false hp] at hyields
      have hyields : ¬ yieldsTo p op.token = true := by rw [hyields]; exact Bool.false_ne_true
      rw [if_neg hp, List.takeWhile_cons_of_neg hyields, List.dropWhile_cons_of_neg hyields,
        List.append_nil, hsigns]
      exact ⟨rfl, rfl⟩

theorem Yard.AtRest.stackTokens_settled {y : Yard} {n : Nat} (h : y.AtRest n) :
    stackTokens .behind y.settled = stackTokens .behind y.operands ++ signs y.held := by
  cases n with
  | zero =>
    have hheld := h.held_nil rfl
    simp [settled, release, hheld, releaseFrom, signs]
  | succ n =>
    have hwall : Walled [] := fun t ht => absurd ht (by simp)
    obtain ⟨hout, hheld⟩ := releaseFrom_tokens 0 hwall h.carries
    have hall : ∀ t ∈ signs y.held, yieldsTo 0 t = true := by
      intro t ht
      obtain ⟨op, -, rfl⟩ := List.mem_map.1 ht
      rw [yieldsTo_token]
      exact decide_eq_true (Nat.zero_le _)
    rw [List.takeWhile_append_of_pos hall, List.takeWhile_nil, List.append_nil] at hout
    exact hout

theorem resolveFrom_sign {y : Yard} {n : Nat} (hy : y.Carries (n + 1)) {base : List Token}
    (hbase : Walled base) (op : Operator) (ts : List Token) :
    stackTokens .behind y.operands ++ resolveFrom (signs y.held ++ base) (op.token :: ts)
      = stackTokens .behind (y.hold op).operands
        ++ resolveFrom (signs (y.hold op).held ++ base) ts := by
  obtain ⟨hout, hheld⟩ := releaseFrom_tokens op.precedence hbase hy
  have hsigns : signs (y.hold op).held ++ base
      = op.token :: (signs (Yard.releaseFrom op.precedence y.operands y.held).held ++ base) := rfl
  have hoperands : (y.hold op).operands
      = (Yard.releaseFrom op.precedence y.operands y.held).operands := rfl
  rw [resolveFrom, shift_eq_hold op.isOperator_token (precedence?_token op), Resolver.hold, hsigns,
    hoperands, hout, hheld, List.append_assoc]

theorem resolveFrom_settled {y : Yard} {n : Nat} (hy : y.AtRest n) {base : List Token}
    (hbase : Walled base) {t : Token} (ht : t.kind.endsRun = true) (ts : List Token) :
    stackTokens .behind y.operands ++ resolveFrom (signs y.held ++ base) (t :: ts)
      = stackTokens .behind y.settled ++ t :: resolveFrom base ts := by
  rw [resolveFrom_endsRun hbase ht, hy.stackTokens_settled, List.append_assoc]

/-- A whole expression up to its `;`, if the resolver does to it what the yard does. -/
theorem resolveFrom_value {e : Phrase} {base : List Token} (hbase : Walled base)
    (he : ∀ ts, resolveFrom base (e.tokens .between ++ ts)
      = stackTokens .behind (e.feed {}).operands
        ++ resolveFrom (signs (e.feed {}).held ++ base) ts) (ts : List Token) :
    resolveFrom base (e.tokens .between ++ .fixed .semi :: ts)
      = e.regroup.tokens .behind ++ .fixed .semi :: resolveFrom base ts := by
  rw [he, resolveFrom_settled (e.atRest_feed Yard.carries_empty) hbase rfl, e.settled_feed]
  rfl

/-! ### Runs -/

mutual

/-- **What a resolver makes of an expression**: the yard after it. -/
theorem Phrase.resolveFrom_tokens : ∀ (e : Phrase) {y : Yard} {n : Nat} {base : List Token},
    e.stranded = false → y.Carries n → Walled base → ∀ rest : List Token,
    stackTokens .behind y.operands
        ++ resolveFrom (signs y.held ++ base) (e.tokens .between ++ rest)
      = stackTokens .behind (e.feed y).operands
        ++ resolveFrom (signs (e.feed y).held ++ base) rest
  | .leaf t e he, y, n, base, _, hy, hbase, rest => by
    rw [Phrase.feed, Phrase.tokens, List.singleton_append,
      resolveFrom_operand (Token.isOperand_of_leaf? he), Yard.push, stackTokens, List.append_assoc,
      Phrase.tokens, List.singleton_append]
  | .operation l op r, y, n, base, hs, hy, hbase, rest => by
    rw [Phrase.stranded, Bool.or_eq_false_iff] at hs
    have hl := l.carries_feed hy
    rw [Phrase.feed, Phrase.tokens, Placement.arrange, List.append_assoc, List.cons_append,
      l.resolveFrom_tokens hs.1 hy hbase, resolveFrom_sign hl hbase,
      r.resolveFrom_tokens hs.2 (hl.hold op) hbase]
  | .block body, y, n, base, hs, hy, hbase, rest => by
    rw [Phrase.stranded] at hs
    -- inside the block the yard starts empty, and the barrier keeps what waits outside
    have hbody : resolveFrom (.fixed .openBrace :: (signs y.held ++ base))
          (body.tokens .between ++ .fixed .closeBrace :: rest)
        = (body.regroupFrom {}).tokens .behind
          ++ .fixed .closeBrace :: resolveFrom (signs y.held ++ base) rest :=
      body.resolveFrom_tokens (y := {}) hs Yard.atRest_empty
        (.cons_openBrace _) (fun ops => resolveFrom_closeBrace ops rest)
    rw [Phrase.feed, Phrase.tokens, List.cons_append, List.append_assoc, List.singleton_append,
      resolveFrom_openBrace, hbody, Yard.push, stackTokens, Phrase.tokens]
    simp

/-- **What a resolver makes of a passage**: the regrouped passage, if no operator waits at a `=`. -/
theorem Passage.resolveFrom_tokens : ∀ (b : Passage) {y : Yard} {n : Nat} {base rest : List Token},
    b.strandedFrom (!y.held.isEmpty) = false → y.AtRest n → Walled base →
    (∀ ops, resolveFrom (signs ops ++ base) rest = signs ops ++ resolveFrom base rest) →
    stackTokens .behind y.operands
        ++ resolveFrom (signs y.held ++ base) (b.tokens .between ++ rest)
      = (b.regroupFrom y).tokens .behind ++ resolveFrom base rest
  | .done, y, n, base, rest, _, hy, hbase, hrest => by
    rw [Passage.regroupFrom, Passage.tokens_ofStack, hy.stackTokens_settled, Passage.tokens,
      Passage.tokens, List.nil_append, hrest, List.append_nil, List.append_assoc]
  | .declaration name b, y, n, base, rest, hs, hy, hbase, hrest => by
    rw [Passage.strandedFrom] at hs
    have hb : resolveFrom base (b.tokens .between ++ rest)
        = b.regroup.tokens .behind ++ resolveFrom base rest :=
      b.resolveFrom_tokens (y := {}) hs Yard.atRest_empty hbase hrest
    rw [Passage.regroupFrom_of_isSetOff rfl, Passage.regroup_declaration, Passage.tokens_ofStack,
      Passage.tokens, Passage.tokens, List.cons_append, List.cons_append, List.cons_append,
      resolveFrom_settled hy hbase rfl, resolveFrom_operand rfl, resolveFrom_atRest hbase rfl, hb]
    simp
  | .initialization name e b, y, n, base, rest, hs, hy, hbase, hrest => by
    rw [Passage.strandedFrom, Bool.or_eq_false_iff] at hs
    have hb : resolveFrom base (b.tokens .between ++ rest)
        = b.regroup.tokens .behind ++ resolveFrom base rest :=
      b.resolveFrom_tokens (y := {}) hs.2 Yard.atRest_empty hbase hrest
    have he := resolveFrom_value hbase
      (e.resolveFrom_tokens (y := {}) hs.1 Yard.carries_empty hbase)
    rw [Passage.regroupFrom_of_isSetOff rfl, Passage.regroup_initialization,
      Passage.tokens_ofStack, Passage.tokens, Passage.tokens, List.cons_append, List.cons_append,
      List.cons_append, resolveFrom_settled hy hbase rfl, resolveFrom_operand rfl,
      resolveFrom_atRest hbase rfl, List.append_assoc, List.cons_append, he, hb]
    simp
  | .assignment name e b, y, n, base, rest, hs, hy, hbase, hrest => by
    rw [Passage.strandedFrom, Bool.or_eq_false_iff, Bool.or_eq_false_iff] at hs
    have hheld : y.held = [] := by simpa using hs.1.1
    have hb : resolveFrom base (b.tokens .between ++ rest)
        = b.regroup.tokens .behind ++ resolveFrom base rest :=
      b.resolveFrom_tokens (y := {}) hs.2 Yard.atRest_empty hbase hrest
    have he := resolveFrom_value hbase
      (e.resolveFrom_tokens (y := {}) hs.1.2 Yard.carries_empty hbase)
    have hsettled := hy.stackTokens_settled
    rw [hheld, signs, List.map_nil, List.append_nil] at hsettled
    rw [Passage.regroupFrom_assignment, Passage.tokens_ofStack, Passage.tokens, Passage.tokens, hheld,
      List.cons_append, List.cons_append, resolveFrom_operand rfl, signs, List.map_nil,
      List.nil_append, resolveFrom_atRest hbase rfl, List.append_assoc, List.cons_append, he, hb,
      hsettled]
    simp
  | .closed e b, y, n, base, rest, hs, hy, hbase, hrest => by
    rw [Passage.strandedFrom, Bool.or_eq_false_iff] at hs
    have hb : resolveFrom base (b.tokens .between ++ rest)
        = b.regroup.tokens .behind ++ resolveFrom base rest :=
      b.resolveFrom_tokens (y := {}) hs.2 Yard.atRest_empty hbase hrest
    have hfeed := e.atRest_feed hy.carries
    obtain ⟨e', operands, hsettled⟩ := List.exists_cons_of_length_eq_add_one hfeed.length_settled
    rw [Passage.regroupFrom_closed, Passage.tokens, List.append_assoc, List.cons_append,
      e.resolveFrom_tokens hs.1 hy.carries hbase, resolveFrom_settled hfeed hbase rfl, hsettled,
      Passage.closeTop, Passage.tokens_ofStack, Passage.tokens, hb, stackTokens]
    simp
  | .bare e b, y, n, base, rest, hs, hy, hbase, hrest => by
    rw [Passage.strandedFrom, Bool.or_eq_false_iff] at hs
    rw [Passage.regroupFrom, Passage.tokens, List.append_assoc,
      e.resolveFrom_tokens hs.1 hy.carries hbase]
    refine b.resolveFrom_tokens ?_ (e.atRest_feed hy.carries) hbase hrest
    rw [e.isEmpty_held_feed]
    exact hs.2

end

/-- **What a resolver makes of a passage** is the regrouped passage, with the signs behind. -/
theorem resolve_tokens {b : Passage} (h : b.stranded = false) :
    resolve (b.tokens .between) = b.regroup.tokens .behind := by
  have hrest : ∀ ops, resolveFrom (signs ops ++ []) [] = signs ops ++ resolveFrom [] [] := by
    intro ops
    rw [List.append_nil, resolveFrom, operators_eq_self (isBarrier_signs ops)]
    exact (List.append_nil _).symm
  have hrun : resolveFrom [] (b.tokens .between ++ [])
      = b.regroup.tokens .behind ++ resolveFrom [] [] :=
    b.resolveFrom_tokens (y := {}) h Yard.atRest_empty (fun t ht => absurd ht (by simp)) hrest
  rw [List.append_nil] at hrun
  exact hrun.trans (List.append_nil _)

/-! ### Stranded operators -/

/-- Some sign stands right before a `=`. -/
def SignBeforeEquals (toks : List Token) : Prop :=
  ∃ pre op post, toks = pre ++ Operator.token op :: .fixed .equals :: post

theorem SignBeforeEquals.append_left {toks : List Token} (h : SignBeforeEquals toks)
    (more : List Token) : SignBeforeEquals (more ++ toks) := by
  obtain ⟨pre, op, post, rfl⟩ := h
  exact ⟨more ++ pre, op, post, by rw [List.append_assoc]⟩

theorem signBeforeEquals_signs {ops : List Operator} (h : ops ≠ []) (post : List Token) :
    SignBeforeEquals (signs ops ++ .fixed .equals :: post) := by
  refine ⟨signs ops.dropLast, ops.getLast h, post, ?_⟩
  conv => lhs; rw [← List.dropLast_append_getLast h]
  simp [signs]

/-- A value and what follows its `;`, of which one is stranded. -/
theorem signBeforeEquals_value {e : Phrase} {b : Bool} {base rest : List Token} (hbase : Walled base)
    (he : e.stranded = true → ∀ ts, SignBeforeEquals (resolveFrom base (e.tokens .between ++ ts)))
    (hb : b = true → SignBeforeEquals (resolveFrom base rest)) (h : (e.stranded || b) = true) :
    SignBeforeEquals (resolveFrom base (e.tokens .between ++ .fixed .semi :: rest)) := by
  rcases hs : e.stranded with _ | _
  · rw [hs, Bool.false_or] at h
    rw [resolveFrom_value hbase (e.resolveFrom_tokens (y := {}) hs Yard.carries_empty hbase)]
    exact ((hb h).append_left [_]).append_left _
  · exact he hs _

mutual

/-- **A stranded operator** comes out right before a `=`: in an expression. -/
theorem Phrase.signBeforeEquals : ∀ (e : Phrase) {y : Yard} {n : Nat} {base : List Token},
    e.stranded = true → y.Carries n → Walled base → ∀ rest : List Token,
    SignBeforeEquals (stackTokens .behind y.operands
      ++ resolveFrom (signs y.held ++ base) (e.tokens .between ++ rest))
  | .leaf .., _, _, _, hs, _, _, _ => absurd hs Bool.false_ne_true
  | .operation l op r, y, n, base, hs, hy, hbase, rest => by
    rw [Phrase.tokens, Placement.arrange, List.append_assoc]
    rcases hl : l.stranded with _ | _
    · rw [Phrase.stranded, hl, Bool.false_or] at hs
      have hfeed := l.carries_feed hy
      rw [l.resolveFrom_tokens hl hy hbase, List.cons_append, resolveFrom_sign hfeed hbase]
      exact r.signBeforeEquals hs (hfeed.hold op) hbase rest
    · exact l.signBeforeEquals hl hy hbase _
  | .block body, y, n, base, hs, _, _, rest => by
    have hbody : SignBeforeEquals (resolveFrom (.fixed .openBrace :: (signs y.held ++ base))
        (body.tokens .between ++ .fixed .closeBrace :: rest)) :=
      body.signBeforeEquals (y := {}) hs Yard.atRest_empty
        (.cons_openBrace _)
    rw [Phrase.tokens, List.cons_append, List.append_assoc, List.singleton_append,
      resolveFrom_openBrace]
    exact (hbody.append_left [.fixed .openBrace]).append_left _

theorem Passage.signBeforeEquals : ∀ (b : Passage) {y : Yard} {n : Nat} {base rest : List Token},
    b.strandedFrom (!y.held.isEmpty) = true → y.AtRest n → Walled base →
    SignBeforeEquals (stackTokens .behind y.operands
      ++ resolveFrom (signs y.held ++ base) (b.tokens .between ++ rest))
  | .done, _, _, _, _, hs, _, _ => absurd hs Bool.false_ne_true
  | .declaration name b, y, n, base, rest, hs, hy, hbase => by
    rw [Passage.strandedFrom] at hs
    have hb : SignBeforeEquals (resolveFrom base (b.tokens .between ++ rest)) :=
      b.signBeforeEquals (y := {}) hs Yard.atRest_empty hbase
    rw [Passage.tokens, List.cons_append, List.cons_append, List.cons_append,
      resolveFrom_settled hy hbase rfl, resolveFrom_operand rfl, resolveFrom_atRest hbase rfl]
    exact (hb.append_left [_, _, _]).append_left _
  | .initialization name e b, y, n, base, rest, hs, hy, hbase => by
    rw [Passage.strandedFrom] at hs
    have hvalue : SignBeforeEquals (resolveFrom base
        (e.tokens .between ++ .fixed .semi :: (b.tokens .between ++ rest))) :=
      signBeforeEquals_value hbase
        (fun he ts => e.signBeforeEquals (y := {}) he Yard.carries_empty hbase ts)
        (fun hb => b.signBeforeEquals (y := {}) hb Yard.atRest_empty hbase) hs
    rw [Passage.tokens, List.cons_append, List.cons_append, List.cons_append, List.append_assoc,
      List.cons_append, resolveFrom_settled hy hbase rfl, resolveFrom_operand rfl,
      resolveFrom_atRest hbase rfl]
    exact (hvalue.append_left [_, _, _]).append_left _
  | .assignment name e b, y, n, base, rest, hs, hy, hbase => by
    rw [Passage.strandedFrom, Bool.or_assoc] at hs
    rw [Passage.tokens, List.cons_append, List.cons_append, List.append_assoc, List.cons_append,
      resolveFrom_operand rfl, resolveFrom_endsRun hbase rfl]
    by_cases hheld : y.held = []
    · rw [hheld, List.isEmpty_nil, Bool.not_true, Bool.false_or] at hs
      have hvalue : SignBeforeEquals (resolveFrom base
          (e.tokens .between ++ .fixed .semi :: (b.tokens .between ++ rest))) :=
        signBeforeEquals_value hbase
          (fun he ts => e.signBeforeEquals (y := {}) he Yard.carries_empty hbase ts)
          (fun hb => b.signBeforeEquals (y := {}) hb Yard.atRest_empty hbase) hs
      exact (((hvalue.append_left [_]).append_left _).append_left [_]).append_left _
    · exact ((signBeforeEquals_signs hheld _).append_left [_]).append_left _
  | .closed e b, y, n, base, rest, hs, hy, hbase => by
    rw [Passage.tokens, List.append_assoc]
    rcases he : e.stranded with _ | _
    · rw [Passage.strandedFrom, he, Bool.false_or] at hs
      have hb : SignBeforeEquals (resolveFrom base (b.tokens .between ++ rest)) :=
        b.signBeforeEquals (y := {}) hs Yard.atRest_empty hbase
      rw [e.resolveFrom_tokens he hy.carries hbase, List.cons_append,
        resolveFrom_settled (e.atRest_feed hy.carries) hbase rfl]
      exact (hb.append_left [_]).append_left _
    · exact e.signBeforeEquals he hy.carries hbase _
  | .bare e b, y, n, base, rest, hs, hy, hbase => by
    rw [Passage.tokens, List.append_assoc]
    rcases he : e.stranded with _ | _
    · rw [Passage.strandedFrom, he, Bool.false_or, ← e.isEmpty_held_feed] at hs
      rw [e.resolveFrom_tokens he hy.carries hbase]
      exact b.signBeforeEquals hs (e.atRest_feed hy.carries) hbase
    · exact e.signBeforeEquals he hy.carries hbase _

end

/-- Every `=` stands right after a name. -/
def EqualsAfterName (toks : List Token) : Prop :=
  toks.IsChain (fun t u => u.kind = .equals → t.kind = .ident)

theorem EqualsAfterName.append {l l' : List Token} (h : EqualsAfterName l) (h' : EqualsAfterName l')
    (hhead : ∀ t, l'.head? = some t → t.kind ≠ .equals) : EqualsAfterName (l ++ l') :=
  List.IsChain.append h h' (fun _ _ u hu hk => absurd hk (hhead u hu))

theorem EqualsAfterName.cons {l : List Token} (h : EqualsAfterName l) (t : Token)
    (hhead : ∀ u, l.head? = some u → u.kind ≠ .equals) : EqualsAfterName (t :: l) :=
  EqualsAfterName.append (List.isChain_singleton t) h hhead

theorem EqualsAfterName.assigned {l : List Token} (h : EqualsAfterName l) (name : String)
    (hhead : ∀ u, l.head? = some u → u.kind ≠ .equals) :
    EqualsAfterName (.ofName name :: .fixed .equals :: l) :=
  List.isChain_cons_cons.2 ⟨fun _ => rfl, h.cons _ hhead⟩

theorem Passage.head_ne_equals (p : Placement) (b : Passage) :
    ∀ t, (b.tokens p).head? = some t → t.kind ≠ .equals := by
  intro t ht
  have hmark : b.Bounded true [.endMark] := .inr (.of_kind (.inr rfl))
  refine hmark.head_ne p rfl t ?_
  rw [List.head?_append, ht]
  rfl

theorem head_fixed_ne_equals {k : TokenKind} (hk : k ≠ .equals) (l : List Token) :
    ∀ t, (Token.fixed k :: l).head? = some t → t.kind ≠ .equals := by
  intro t ht
  rw [← Option.some.inj ht]
  exact hk

mutual

theorem Phrase.equalsAfterName (p : Placement) : ∀ e : Phrase, EqualsAfterName (e.tokens p)
  | .leaf t _ _ => List.isChain_singleton t
  | .operation l op r => by
    have hl := l.equalsAfterName p
    have hr := r.equalsAfterName p
    have hsign : ∀ rest : List Token, ∀ t, (op.token :: rest).head? = some t → t.kind ≠ .equals := by
      intro rest t ht
      rw [← Option.some.inj ht]
      cases op <;> exact TokenKind.noConfusion
    have hhead : ∀ t, (r.tokens p).head? = some t → t.kind ≠ .equals := by
      have := r.head_ne_equals p []
      rwa [List.append_nil] at this
    rw [Phrase.tokens]
    cases p with
    | between => exact hl.append (hr.cons _ hhead) (hsign _)
    | behind => exact (hl.append hr hhead).append (List.isChain_singleton _) (hsign _)
  | .block body => by
    have hbody := body.equalsAfterName p
    have hclose := head_fixed_ne_equals (k := .closeBrace) (by decide) []
    rw [Phrase.tokens]
    refine (hbody.append (List.isChain_singleton _) hclose).cons _ ?_
    have hbound : body.Bounded true [.fixed .closeBrace] := .inr (.of_kind (.inl rfl))
    exact hbound.head_ne p rfl

/-- **In what is written, every `=` stands right after a name.** -/
theorem Passage.equalsAfterName (p : Placement) : ∀ b : Passage, EqualsAfterName (b.tokens p)
  | .done => List.isChain_nil
  | .declaration name b => by
    have hb := (b.equalsAfterName p).cons (.fixed .semi) (b.head_ne_equals p)
    have hname := hb.cons (.ofName name) (head_fixed_ne_equals (by decide) _)
    rw [Passage.tokens]
    refine hname.cons _ (fun t ht => ?_)
    rw [← Option.some.inj ht]
    exact TokenKind.noConfusion
  | .initialization name e b => by
    have hb := (b.equalsAfterName p).cons (.fixed .semi) (b.head_ne_equals p)
    have he := (e.equalsAfterName p).append hb (head_fixed_ne_equals (by decide) _)
    have hname := he.assigned name (e.head_ne_equals p _)
    rw [Passage.tokens]
    refine hname.cons _ (fun t ht => ?_)
    rw [← Option.some.inj ht]
    exact TokenKind.noConfusion
  | .assignment name e b => by
    have hb := (b.equalsAfterName p).cons (.fixed .semi) (b.head_ne_equals p)
    have he := (e.equalsAfterName p).append hb (head_fixed_ne_equals (by decide) _)
    rw [Passage.tokens]
    exact he.assigned name (e.head_ne_equals p _)
  | .closed e b => by
    have hb := (b.equalsAfterName p).cons (.fixed .semi) (b.head_ne_equals p)
    rw [Passage.tokens]
    exact (e.equalsAfterName p).append hb (head_fixed_ne_equals (by decide) _)
  | .bare e b => by
    rw [Passage.tokens]
    exact (e.equalsAfterName p).append (b.equalsAfterName p) (b.head_ne_equals p)

end

/-- **What a resolver makes of a stranded passage** is the writing of no passage. -/
theorem tokens_ne_resolve_of_stranded {b : Passage} (h : b.stranded = true) (b' : Passage)
    (p : Placement) : b'.tokens p ≠ resolve (b.tokens .between) := by
  intro heq
  have hsign : SignBeforeEquals (resolveFrom [] (b.tokens .between ++ [])) :=
    b.signBeforeEquals (y := {}) h Yard.atRest_empty (fun t ht => absurd ht (by simp))
  rw [List.append_nil] at hsign
  obtain ⟨pre, op, post, hpost⟩ : SignBeforeEquals (resolve (b.tokens .between)) := hsign
  have hchain := b'.equalsAfterName p
  rw [heq, hpost, EqualsAfterName, List.isChain_append_cons_cons] at hchain
  have hkind := hchain.2.1 rfl
  cases op <;> exact TokenKind.noConfusion hkind

end BlockLang
