import BlockLang.Proofs.Resolver.Delay

/-!
# What stands right behind an expression

Outside all braces a resolver holds operators only, and it lets them out last.  So if what
comes out of a token list ends with no operator, nothing waits at its end, and what stands
behind it is resolved as if it stood alone.  If it ends with an operator, then an operand
that stands behind goes out first.

At the front a resolver is a plain feed: as long as neither an operator nor an opening brace
has come in, and up to a token that would let operators out, what comes out first is what
came in first,

    front ++ [u] <+: resolve ts ↔ front ++ [u] <+: ts.

That an operand then stands where the operator should be shows in the *contour* of what
comes out: which of the tokens outside all braces are operators.  An expression with its
signs behind has the contour of its tree, so that two expressions with one tree cannot go
on in different ways.
-/

namespace BlockLang

theorem Token.isOperator_of_starts {t : Token} (h : (t.isOperand || t.kind = .openBrace) = true) :
    t.isOperator = false := by
  obtain ⟨k, s⟩ := t
  cases k <;> simp_all [isOperator, TokenKind.isOperator, isOperand, TokenKind.isOperand]

namespace Resolver

/-! ### What waits at the end -/

theorem stack_heldAfter {held : List Token} (h : Stack held) (ts : List Token) :
    Stack (heldAfter held ts) := by
  induction ts generalizing held with
  | nil => exact h
  | cons t ts ih => exact ih (h.shift t 0).1

/-- **Outside all braces only operators are held.** -/
theorem isOperator_of_mem_heldAfter {ts : List Token} (h : depthFrom 0 ts = 0) {t : Token}
    (ht : t ∈ heldAfter [] ts) : t.isOperator = true := by
  have hstack : Stack (heldAfter [] ts) := stack_heldAfter (fun _ h => absurd h List.not_mem_nil) ts
  have hnone : barriers (heldAfter [] ts) = 0 := (barriers_heldAfter [] ts).trans h
  exact hstack.isOperator ht (by simpa using List.countP_eq_zero.1 hnone t ht)

theorem isBarrier_of_mem_heldAfter {ts : List Token} (h : depthFrom 0 ts = 0) :
    ∀ t ∈ heldAfter [] ts, isBarrier t = false :=
  fun _ ht => isBarrier_of_isOperator (isOperator_of_mem_heldAfter h ht)

theorem resolve_eq {ts : List Token} (h : depthFrom 0 ts = 0) :
    resolve ts = emitted [] ts ++ heldAfter [] ts := by
  rw [resolve, resolveFrom_eq, operators_eq_self (isBarrier_of_mem_heldAfter h)]

/-- What comes in first goes out in front of what is held. -/
theorem exists_resolve_append {ts : List Token} (h : depthFrom 0 ts = 0) :
    ∃ out, resolve ts = out ++ heldAfter [] ts
      ∧ ∀ us, resolve (ts ++ us) = out ++ resolveFrom (heldAfter [] ts) us :=
  ⟨emitted [] ts, resolve_eq h, resolveFrom_append [] ts⟩

theorem shift_ne_nil_of_isOperator {t : Token} (h : t.isOperator = true) (held : List Token) :
    (shift held t).2 ≠ [] := by
  unfold shift
  rcases hk : t.kind
  case plus | minus | star | slash | percent => exact List.cons_ne_nil _ _
  all_goals simp [Token.isOperator, TokenKind.isOperator, hk] at h

theorem heldAfter_eq_nil_of_getLast? {ts : List Token} (h : depthFrom 0 ts = 0) {t : Token}
    (hlast : (resolve ts).getLast? = some t) (ht : t.isOperator = false) :
    heldAfter [] ts = [] := by
  obtain ⟨out, hout, -⟩ := exists_resolve_append h
  rcases List.eq_nil_or_concat (heldAfter [] ts) with hnil | ⟨front, o, ho⟩
  · exact hnil
  · rw [List.concat_eq_append] at ho
    have hop := isOperator_of_mem_heldAfter h (by rw [ho]; simp : o ∈ heldAfter [] ts)
    rw [hout, ho, ← List.append_assoc, List.getLast?_concat] at hlast
    rw [Option.some.inj hlast, ht] at hop
    exact absurd hop Bool.false_ne_true

/-- **Where nothing waits at the end**, the last token comes out last, and it is no operator. -/
theorem getLast?_resolve {ts : List Token} (h : heldAfter [] ts = []) :
    (resolve ts).getLast? = ts.getLast? ∧ ∀ t, ts.getLast? = some t → t.isOperator = false := by
  rcases List.eq_nil_or_concat ts with rfl | ⟨front, u, rfl⟩
  · exact ⟨rfl, fun t ht => absurd ht (by simp)⟩
  · rw [List.concat_eq_append, heldAfter_concat] at h
    have hu : u.isOperator = false := by
      rw [← Bool.not_eq_true]
      exact fun hu => shift_ne_nil_of_isOperator hu _ h
    obtain ⟨before, hbefore⟩ := exists_shift_of_not_isOperator hu (heldAfter [] front)
    have hend : resolve (front ++ [u]) = emitted [] front ++ before ++ [u] := by
      rw [resolve, resolveFrom_append, resolveFrom, h, hbefore]
      simp [resolveFrom, operators]
    rw [List.concat_eq_append, hend, List.getLast?_concat, List.getLast?_concat]
    exact ⟨rfl, fun t ht => Option.some.inj ht ▸ hu⟩

/-- **A `let` lets everything out that waits outside all braces.** -/
theorem resolve_append_let {ts : List Token} (h : depthFrom 0 ts = 0) {u : Token}
    (hu : u.kind = .letWord) (us : List Token) :
    resolve (ts ++ u :: us) = resolve ts ++ u :: resolve us := by
  obtain ⟨out, hout, happend⟩ := exists_resolve_append h
  have hnone := isBarrier_of_mem_heldAfter h
  have hshift : shift (heldAfter [] ts) u = (heldAfter [] ts ++ [u], []) := by
    simp [shift, hu, aboveBarrier_eq_self hnone, fromBarrier_eq_nil hnone]
  rw [happend, resolveFrom, hshift, hout, resolve]
  simp

theorem exists_shift_of_starts {u : Token} (hu : (u.isOperand || u.kind = .openBrace) = true)
    (held : List Token) : ∃ held', shift held u = ([u], held') := by
  obtain ⟨k, s⟩ := u
  cases k <;> simp_all [Token.isOperand, TokenKind.isOperand, shift]

/-! ### What comes out first -/

/-- **One step while only operators are held.**  An operator is held, below those that it calls for;
an opening brace goes out and is held; any other token goes out, behind all that is held if it lets
that out. -/
theorem shift_of_isOperator {held : List Token} (h : ∀ o ∈ held, o.isOperator = true) (t : Token) :
    (t.isOperator = true ∧ ∃ out kept, held = out ++ kept ∧ shift held t = (out, t :: kept))
      ∨ t.kind = .openBrace ∧ shift held t = ([t], t :: held)
      ∨ t.kind.letsOut = true ∧ shift held t = (held ++ [t], [])
      ∨ t.kind.letsOut = false ∧ shift held t = ([t], held) := by
  have hnone : ∀ o ∈ held, isBarrier o = false := fun o ho => isBarrier_of_isOperator (h o ho)
  have hhold : ∀ p, ∃ out kept, held = out ++ kept ∧ hold p t held = (out, t :: kept) :=
    fun p => ⟨_, _, List.takeWhile_append_dropWhile.symm, rfl⟩
  unfold shift Token.isOperator
  rcases hk : t.kind
  case plus | minus => exact .inl ⟨rfl, hhold 1⟩
  case star | slash | percent => exact .inl ⟨rfl, hhold 2⟩
  case openBrace => exact .inr (.inl ⟨rfl, rfl⟩)
  case number | ident | string | whitespace => exact .inr (.inr (.inr ⟨rfl, rfl⟩))
  all_goals
    refine .inr (.inr (.inl ⟨rfl, ?_⟩))
    simp [aboveBarrier_eq_self hnone, fromBarrier_eq_nil hnone, operators_eq_self hnone]

theorem prefix_cons_cases {front rest : List Token} {t u : Token}
    (h : front ++ [u] <+: t :: rest) :
    front = [] ∧ u = t ∨ ∃ front', front = t :: front' ∧ front' ++ [u] <+: rest := by
  cases front with
  | nil => exact .inl ⟨rfl, (List.cons_prefix_cons.1 h).1⟩
  | cons v front =>
    obtain ⟨rfl, hrest⟩ := List.cons_prefix_cons.1 h
    exact .inr ⟨front, rfl, hrest⟩

theorem eq_nil_of_prefix_append {front out rest : List Token} {u : Token}
    (hfront : ∀ t ∈ front, t.isOperator = false) (hu : u.isOperator = false)
    (hout : ∀ o ∈ out, o.isOperator = true) (h : front ++ [u] <+: out ++ rest) : out = [] := by
  cases out with
  | nil => rfl
  | cons o out =>
    have ho := hout o List.mem_cons_self
    rcases prefix_cons_cases h with ⟨-, rfl⟩ | ⟨front', rfl, -⟩
    · rw [hu] at ho
      exact absurd ho Bool.false_ne_true
    · rw [hfront o List.mem_cons_self] at ho
      exact absurd ho Bool.false_ne_true

theorem passes_of_letsOut {t : Token} (h : t.kind.letsOut = true) :
    t.isOperator = false ∧ t.kind ≠ .openBrace := by
  obtain ⟨k, s⟩ := t
  revert h
  cases k <;> simp [TokenKind.letsOut, Token.isOperator, TokenKind.isOperator,
    TokenKind.isOperand]

section Front

variable {held front ts : List Token} {u : Token}
  (hfront : ∀ t ∈ front, t.isOperator = false ∧ t.kind ≠ .openBrace) (hu : u.kind.letsOut = true)

include hfront hu

/-- **What comes out first was first.**  Tokens that are neither operators nor opening braces, up to
one that lets out, come out first only if they came first and nothing was held. -/
theorem prefix_of_resolveFrom (hheld : ∀ o ∈ held, o.isOperator = true)
    (h : front ++ [u] <+: resolveFrom held ts) : held = [] ∧ front ++ [u] <+: ts := by
  have hops : ∀ {front : List Token}, (∀ t ∈ front, t.isOperator = false ∧ t.kind ≠ .openBrace) →
      ∀ {out rest : List Token}, (∀ o ∈ out, o.isOperator = true) → front ++ [u] <+: out ++ rest →
      out = [] :=
    fun hfront _ _ => eq_nil_of_prefix_append (fun t ht => (hfront t ht).1) (passes_of_letsOut hu).1
  induction ts generalizing held front with
  | nil =>
    rw [resolveFrom, ← List.append_nil (operators held)] at h
    have hnil : operators held = [] := hops hfront (fun o ho => hheld o (List.mem_filter.1 ho).1) h
    rw [hnil] at h
    exact absurd (List.prefix_nil.1 h) (by simp)
  | cons t ts ih =>
    rw [resolveFrom] at h
    rcases shift_of_isOperator hheld t with ⟨ht, out, kept, rfl, hshift⟩ | ⟨hk, hshift⟩ |
      ⟨-, hshift⟩ | ⟨hk, hshift⟩
    · -- an operator is held, and stays held while the front comes out
      rw [hshift] at h
      have hnil := hops hfront (fun o ho => hheld o (List.mem_append_left kept ho)) h
      rw [hnil, List.nil_append] at h
      have hheld' : ∀ o ∈ t :: kept, o.isOperator = true :=
        List.forall_mem_cons.2 ⟨ht, fun o ho => hheld o (List.mem_append_right out ho)⟩
      exact absurd (ih hfront hheld' h).1 (List.cons_ne_nil t kept)
    · rw [hshift] at h
      rcases prefix_cons_cases h with ⟨-, rfl⟩ | ⟨front', rfl, -⟩
      · exact absurd hk (passes_of_letsOut hu).2
      · exact absurd hk (hfront t List.mem_cons_self).2
    · rw [hshift, List.append_assoc] at h
      obtain rfl := hops hfront hheld h
      rcases prefix_cons_cases h with ⟨rfl, rfl⟩ | ⟨front', rfl, hrest⟩
      · exact ⟨rfl, List.cons_prefix_cons.2 ⟨rfl, List.nil_prefix⟩⟩
      · have hfront' := (List.forall_mem_cons.1 hfront).2
        exact ⟨rfl, List.cons_prefix_cons.2 ⟨rfl, (ih hfront' hheld hrest).2⟩⟩
    · rw [hshift] at h
      rcases prefix_cons_cases h with ⟨-, rfl⟩ | ⟨front', rfl, hrest⟩
      · rw [hu] at hk
        exact absurd hk.symm Bool.false_ne_true
      · obtain ⟨hnil, hprefix⟩ := ih (List.forall_mem_cons.1 hfront).2 hheld hrest
        exact ⟨hnil, List.cons_prefix_cons.2 ⟨rfl, hprefix⟩⟩

omit hu in
/-- Tokens that are neither operators nor opening braces pass where nothing is held. -/
theorem resolve_append_of_passes (us : List Token) : resolve (front ++ us) = front ++ resolve us := by
  have hnone : ∀ o ∈ ([] : List Token), o.isOperator = true := fun _ ho => absurd ho List.not_mem_nil
  induction front with
  | nil => rfl
  | cons t front ih =>
    obtain ⟨⟨hop, hbrace⟩, hfront⟩ := List.forall_mem_cons.1 hfront
    have hshift : shift [] t = ([t], []) := by
      rcases shift_of_isOperator hnone t with ⟨ht, -⟩ | ⟨hk, -⟩ | ⟨-, hshift⟩ | ⟨-, hshift⟩
      · rw [hop] at ht
        exact absurd ht Bool.false_ne_true
      · exact absurd hk hbrace
      · exact hshift
      · exact hshift
    rw [List.cons_append, resolve, resolveFrom, hshift]
    exact congrArg (t :: ·) (ih hfront)

/-- **The first tokens stay the first**, up to one that lets out, if they are neither operators nor
opening braces. -/
theorem prefix_resolve_iff : front ++ [u] <+: resolve ts ↔ front ++ [u] <+: ts := by
  constructor
  · intro h
    exact (prefix_of_resolveFrom hfront hu (fun _ ho => absurd ho List.not_mem_nil) h).2
  · rintro ⟨rest, rfl⟩
    have hall : ∀ t ∈ front ++ [u], t.isOperator = false ∧ t.kind ≠ .openBrace := by
      intro t ht
      rcases List.mem_append.1 ht with ht | ht
      · exact hfront t ht
      · rw [List.mem_singleton.1 ht]
        exact passes_of_letsOut hu
    exact ⟨resolve rest, (resolve_append_of_passes hall rest).symm⟩

end Front

/-- **What begins with `<name> =` after it was resolved began so before.** -/
theorem take_two_of_resolve {ts : List Token}
    (h : ((resolve ts).take 2).map Token.kind = [.ident, .equals]) :
    (ts.take 2).map Token.kind = [.ident, .equals] := by
  rcases hout : resolve ts with _ | ⟨t, _ | ⟨u, rest⟩⟩
  · simp [hout] at h
  · simp [hout] at h
  · simp only [hout, List.take_succ_cons, List.take_zero, List.map_cons, List.map_nil,
      List.cons.injEq, and_true] at h
    obtain ⟨hident, hequals⟩ := h
    have hfront : ∀ v ∈ [t], v.isOperator = false ∧ v.kind ≠ .openBrace := by
      simp [Token.isOperator, TokenKind.isOperator, hident]
    have hprefix : [t] ++ [u] <+: resolve ts := ⟨rest, hout.symm⟩
    obtain ⟨more, rfl⟩ := (prefix_resolve_iff hfront (by rw [hequals]; rfl)).1 hprefix
    simp [hident, hequals]

end Resolver

/-! ### Contours -/

/-- **The contour** of tokens that stand inside `n` braces: for each of them outside all braces,
whether it is an operator. -/
def contour : Nat → List Token → List Bool
  | _, [] => []
  | n, t :: ts => (if n = 0 then [t.isOperator] else []) ++ contour (t.deepen n) ts

theorem contour_append (n : Nat) (ts us : List Token) :
    contour n (ts ++ us) = contour n ts ++ contour (depthFrom n ts) us := by
  induction ts generalizing n with
  | nil => rfl
  | cons t ts ih => rw [List.cons_append, contour, ih, contour, List.append_assoc, depthFrom_cons]

mutual

theorem Phrase.contour_inside (p : Placement) :
    ∀ (e : Phrase) (n : Nat), contour (n + 1) (e.tokens p) = []
  | .leaf .., _ => rfl
  | .operation l op r, n => by
    have hop := Token.deepen_of_isOperator op.isOperator_token
    cases p <;>
      simp [Placement.arrange, contour_append, contour, l.contour_inside, r.contour_inside,
        Phrase.depthFrom_tokens, hop]
  | .block body, n => by
    have hopen : (Token.fixed .openBrace).deepen (n + 1) = n + 1 + 1 := rfl
    simp [contour, contour_append, hopen, body.contour_inside, Passage.depthFrom_tokens]

theorem Passage.contour_inside (p : Placement) :
    ∀ (b : Passage) (n : Nat), contour (n + 1) (b.tokens p) = []
  | .done, _ => rfl
  | .declaration _ rest, n => rest.contour_inside p n
  | .initialization _ e rest, n => by
    show contour (n + 1) (e.tokens p ++ .fixed .semi :: rest.tokens p) = []
    rw [contour_append, e.contour_inside, e.depthFrom_tokens]
    exact rest.contour_inside p n
  | .assignment _ e rest, n => by
    show contour (n + 1) (e.tokens p ++ .fixed .semi :: rest.tokens p) = []
    rw [contour_append, e.contour_inside, e.depthFrom_tokens]
    exact rest.contour_inside p n
  | .closed e rest, n => by
    rw [Passage.tokens, contour_append, e.contour_inside, e.depthFrom_tokens]
    exact rest.contour_inside p n
  | .bare e rest, n => by
    rw [Passage.tokens, contour_append, e.contour_inside, e.depthFrom_tokens, rest.contour_inside]
    rfl

end

/-- The contour of an expression with its signs behind. -/
def Tree.contour : Tree → List Bool
  | operation l r _ => l.contour ++ r.contour ++ [true]
  | _ => [false]

/-- **An expression has the contour of its tree.** -/
theorem Phrase.contour_tokens (e : Phrase) :
    contour 0 (e.tokens .behind) = e.tree.contour := by
  cases e with
  | leaf t e he =>
    have hop : t.isOperator = false :=
      Token.isOperator_of_starts (by rw [Token.isOperand_of_leaf? he]; rfl)
    have htree : e.contour = [false] :=
      Token.leaf?_cases (P := fun e => e.contour = [false]) he (fun _ => rfl) (fun _ => rfl)
        (fun _ => rfl)
    simp [BlockLang.contour, hop, htree]
  | operation l op r =>
    simp [Placement.arrange, contour_append, BlockLang.contour, l.contour_tokens, r.contour_tokens,
      Phrase.depthFrom_tokens, op.isOperator_token, Tree.contour]
  | block body =>
    have hopen : (Token.fixed .openBrace).deepen 0 = 0 + 1 := rfl
    simp only [Phrase.tokens, BlockLang.contour, hopen, contour_append, body.contour_inside,
      Passage.depthFrom_tokens, Phrase.tree, Tree.contour]
    rfl

/-- **What stands behind an expression is not taken for a part of it.**  If operators of the
expression come only behind something else, no expression with the same tree is ahead. -/
theorem tree_ne_of_interrupted {e e' : Phrase} {out ops rest tail : List Token} {u : Token}
    (he : e.tokens .behind = out ++ ops) (hops : ∀ t ∈ ops, t.isOperator = true) (hne : ops ≠ [])
    (hu : u.isOperator = false) (h : out ++ u :: rest = e'.tokens .behind ++ tail) :
    e'.tree ≠ e.tree := by
  intro htree
  have hdepth : depthFrom 0 out = 0 := by
    have hwhole := e.depthFrom_tokens .behind 0
    rwa [he, depthFrom_append, depthFrom_of_isOperator hops] at hwhole
  obtain ⟨o, ops, rfl⟩ := List.exists_cons_of_ne_nil hne
  have ho := hops o List.mem_cons_self
  have hsame : contour 0 out ++ (false :: contour (u.deepen 0) rest)
      = contour 0 out ++ (true :: (contour (o.deepen 0) ops ++ contour 0 tail)) := by
    calc contour 0 out ++ (false :: contour (u.deepen 0) rest)
        = contour 0 (out ++ u :: rest) := by rw [contour_append, hdepth, contour, hu]; rfl
      _ = contour 0 (e'.tokens .behind) ++ contour 0 tail := by
          rw [h, contour_append, e'.depthFrom_tokens]
      _ = contour 0 (out ++ o :: ops) ++ contour 0 tail := by
          rw [e'.contour_tokens, htree, ← e.contour_tokens, he]
      _ = contour 0 out ++ (true :: (contour (o.deepen 0) ops ++ contour 0 tail)) := by
          rw [contour_append, hdepth, contour, ho, List.append_assoc]
          rfl
  exact Bool.false_ne_true (List.cons.inj (List.append_cancel_left hsame)).1

end BlockLang
