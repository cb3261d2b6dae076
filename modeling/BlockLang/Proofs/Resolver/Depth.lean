import BlockLang.Proofs.Phrase
import BlockLang.Proofs.Resolver

/-!
# The depth of braces

A resolver holds one barrier for each brace that is open, and nothing else of it matters
at a `;` outside all braces: the operators are let out there, and no barrier is held.  So
what stands behind such a `;` is resolved as if it stood alone,

    resolve (ts ++ us) = resolve ts ++ resolve us.

How many braces are open shows in the braces alone, and the resolver keeps these in
order.  So the depth at the end of a token list can be read off from what comes out, and
what is written as a passage ends at the depth at which it began.
-/

namespace BlockLang

/-- The number of open braces after a token.  A closing brace without an opening one leaves it at
zero, and the end mark closes all. -/
def Token.deepen (n : Nat) (t : Token) : Nat :=
  match t.kind with
  | .openBrace => n + 1
  | .closeBrace => n - 1
  | .eof => 0
  | _ => n

/-- The number of open braces after tokens that stand inside `n` braces. -/
def depthFrom (n : Nat) (ts : List Token) : Nat :=
  ts.foldl Token.deepen n

@[simp] theorem depthFrom_nil (n : Nat) : depthFrom n [] = n := rfl

@[simp] theorem depthFrom_cons (n : Nat) (t : Token) (ts : List Token) :
    depthFrom n (t :: ts) = depthFrom (t.deepen n) ts := rfl

@[simp] theorem depthFrom_append (n : Nat) (ts us : List Token) :
    depthFrom n (ts ++ us) = depthFrom (depthFrom n ts) us :=
  List.foldl_append ..

theorem Token.deepen_of_isOperand {t : Token} (h : t.isOperand = true) (n : Nat) :
    t.deepen n = n := by
  obtain ⟨k, s⟩ := t
  cases k <;> simp_all [isOperand, TokenKind.isOperand, deepen]

theorem Token.deepen_of_isOperator {t : Token} (h : t.isOperator = true) (n : Nat) :
    t.deepen n = n := by
  obtain ⟨k, s⟩ := t
  cases k <;> simp_all [isOperator, TokenKind.isOperator, deepen]

theorem depthFrom_of_isOperator {ts : List Token} (h : ∀ t ∈ ts, t.isOperator = true) (n : Nat) :
    depthFrom n ts = n := by
  induction ts with
  | nil => rfl
  | cons t ts ih =>
    rw [depthFrom_cons, Token.deepen_of_isOperator (h t List.mem_cons_self)]
    exact ih (fun u hu => h u (List.mem_cons_of_mem t hu))

theorem depthFrom_filter_counts (n : Nat) (ts : List Token) :
    depthFrom n (ts.filter Token.counts) = depthFrom n ts := by
  induction ts generalizing n with
  | nil => rfl
  | cons t ts ih =>
    by_cases ht : t.counts = true
    · rw [List.filter_cons_of_pos ht, depthFrom_cons, depthFrom_cons, ih]
    · have hblank : t.kind = .whitespace := by simpa [Token.counts, Token.isWhitespace] using ht
      have hsame : t.deepen n = n := by simp [Token.deepen, hblank]
      rw [List.filter_cons_of_neg ht, depthFrom_cons, hsame, ih]

mutual

theorem Phrase.depthFrom_tokens (p : Placement) :
    ∀ (e : Phrase) (n : Nat), depthFrom n (e.tokens p) = n
  | .leaf _ _ he, n => Token.deepen_of_isOperand (Token.isOperand_of_leaf? he) n
  | .operation l op r, n => by
    have hop := Token.deepen_of_isOperator op.isOperator_token
    cases p <;>
      simp [Placement.arrange, l.depthFrom_tokens, r.depthFrom_tokens, hop]
  | .block body, n => by
    simp only [Phrase.tokens, depthFrom_cons, depthFrom_append, body.depthFrom_tokens]
    rfl

theorem Passage.depthFrom_tokens (p : Placement) :
    ∀ (b : Passage) (n : Nat), depthFrom n (b.tokens p) = n
  | .done, n => rfl
  | .declaration _ rest, n => rest.depthFrom_tokens p n
  | .initialization _ e rest, n => by
    simp only [Passage.tokens, depthFrom_cons, depthFrom_append, e.depthFrom_tokens]
    exact rest.depthFrom_tokens p n
  | .assignment _ e rest, n => by
    simp only [Passage.tokens, depthFrom_cons, depthFrom_append, e.depthFrom_tokens]
    exact rest.depthFrom_tokens p n
  | .closed e rest, n => by
    simp only [Passage.tokens, depthFrom_cons, depthFrom_append, e.depthFrom_tokens]
    exact rest.depthFrom_tokens p n
  | .bare e rest, n => by
    rw [Passage.tokens, depthFrom_append, e.depthFrom_tokens, rest.depthFrom_tokens]

end

namespace Resolver

/-! ### What comes out has the depth of what goes in -/

/-- A stack of held tokens: barriers and operators only. -/
def Stack (held : List Token) : Prop :=
  ∀ t ∈ held, isBarrier t = true ∨ t.isOperator = true

theorem Stack.isOperator {held : List Token} (h : Stack held) {t : Token} (ht : t ∈ held)
    (hb : isBarrier t = false) : t.isOperator = true :=
  (h t ht).resolve_left (by rw [hb]; exact Bool.false_ne_true)

theorem Stack.depthFrom_aboveBarrier {held : List Token} (h : Stack held) (n : Nat) :
    depthFrom n (aboveBarrier held) = n := by
  refine depthFrom_of_isOperator (fun t ht => ?_) n
  have hb := List.all_eq_true.1 List.all_takeWhile t ht
  exact h.isOperator ((List.takeWhile_sublist _).subset ht) (by simpa using hb)

theorem Stack.depthFrom_operators {held : List Token} (h : Stack held) (n : Nat) :
    depthFrom n (operators held) = n := by
  refine depthFrom_of_isOperator (fun t ht => ?_) n
  have ht := List.mem_filter.1 ht
  exact h.isOperator ht.1 (by simpa using ht.2)

/-- **One step** holds barriers and operators only, and what goes out deepens as the token does. -/
theorem Stack.shift {held : List Token} (h : Stack held) (t : Token) (n : Nat) :
    Stack (shift held t).2 ∧ depthFrom n (shift held t).1 = t.deepen n := by
  have hfrom : Stack (fromBarrier held) := fun u hu => h u ((List.dropWhile_sublist _).subset hu)
  have hhold : ∀ p, t.isOperator = true →
      Stack (hold p t held).2 ∧ depthFrom n (hold p t held).1 = t.deepen n := by
    intro p ht
    refine ⟨fun u hu => ?_, ?_⟩
    · rcases List.mem_cons.1 hu with rfl | hu
      · exact .inr ht
      · exact h u ((List.dropWhile_sublist _).subset hu)
    · rw [Token.deepen_of_isOperator ht]
      refine depthFrom_of_isOperator (fun u hu => ?_) n
      have hy := isBarrier_of_yieldsTo (List.all_eq_true.1 List.all_takeWhile u hu)
      exact h.isOperator ((List.takeWhile_sublist _).subset hu) hy
  have hflush : depthFrom n (aboveBarrier held ++ [t]) = t.deepen n := by
    rw [depthFrom_append, h.depthFrom_aboveBarrier]
    rfl
  unfold Resolver.shift
  rcases hk : t.kind
  case number | ident | string | whitespace => exact ⟨h, rfl⟩
  case plus | minus => exact hhold 1 (by simp [Token.isOperator, hk, TokenKind.isOperator])
  case star | slash | percent =>
    exact hhold 2 (by simp [Token.isOperator, hk, TokenKind.isOperator])
  case openBrace =>
    refine ⟨fun u hu => ?_, rfl⟩
    rcases List.mem_cons.1 hu with rfl | hu
    · exact .inl (by simp [isBarrier, hk])
    · exact h u hu
  case closeBrace => exact ⟨fun u hu => hfrom u (List.mem_of_mem_drop hu), hflush⟩
  case eof =>
    refine ⟨fun u hu => absurd hu List.not_mem_nil, ?_⟩
    rw [depthFrom_append, h.depthFrom_operators]
    rfl
  all_goals exact ⟨hfrom, hflush⟩

/-- **The resolver keeps the braces in order**, so that what comes out has the same depth. -/
theorem Stack.depthFrom_resolveFrom {held : List Token} (h : Stack held) (ts : List Token)
    (n : Nat) : depthFrom n (resolveFrom held ts) = depthFrom n ts := by
  induction ts generalizing held n with
  | nil => exact h.depthFrom_operators n
  | cons t ts ih =>
    have hstep := h.shift t n
    rw [resolveFrom, depthFrom_append, hstep.2, ih hstep.1, depthFrom_cons]

/-! ### The barriers that are held -/

/-- The number of barriers held. -/
def barriers (held : List Token) : Nat :=
  held.countP isBarrier

/-- What is held after a token list. -/
def heldAfter (held ts : List Token) : List Token :=
  ts.foldl (fun held t => (shift held t).2) held

theorem heldAfter_concat (held ts : List Token) (t : Token) :
    heldAfter held (ts ++ [t]) = (shift (heldAfter held ts) t).2 :=
  List.foldl_append ..

theorem barriers_dropWhile {p : Token → Bool} (hp : ∀ t, p t = true → isBarrier t = false)
    (held : List Token) : barriers (held.dropWhile p) = barriers held := by
  induction held with
  | nil => rfl
  | cons t held ih =>
    by_cases ht : p t = true
    · rw [List.dropWhile_cons_of_pos ht, ih, barriers, barriers,
        List.countP_cons_of_neg (by rw [hp t ht]; exact Bool.false_ne_true)]
    · rw [List.dropWhile_cons_of_neg ht]

theorem barriers_fromBarrier (held : List Token) : barriers (fromBarrier held) = barriers held :=
  barriers_dropWhile (fun t ht => by simpa using ht) held

theorem fromBarrier_eq (held : List Token) :
    fromBarrier held = [] ∨ ∃ t rest, fromBarrier held = t :: rest ∧ isBarrier t = true := by
  rcases h : fromBarrier held with _ | ⟨t, rest⟩
  · exact .inl rfl
  · have ht := List.head?_dropWhile_not (fun t => !isBarrier t) held
    rw [fromBarrier] at h
    rw [h] at ht
    exact .inr ⟨t, rest, rfl, by simpa using ht⟩

theorem barriers_shift (held : List Token) (t : Token) :
    barriers (shift held t).2 = t.deepen (barriers held) := by
  have hhold : ∀ p, isBarrier t = false → barriers (hold p t held).2 = barriers held := by
    intro p ht
    rw [hold, barriers, List.countP_cons_of_neg (by rw [ht]; exact Bool.false_ne_true)]
    exact barriers_dropWhile (fun _ => isBarrier_of_yieldsTo) held
  unfold shift Token.deepen
  rcases hk : t.kind
  case number | ident | string | whitespace => rfl
  case plus | minus => exact hhold 1 (by simp [isBarrier, hk])
  case star | slash | percent => exact hhold 2 (by simp [isBarrier, hk])
  case openBrace => exact List.countP_cons_of_pos (by simp [isBarrier, hk])
  case closeBrace =>
    have hsame := barriers_fromBarrier held
    dsimp only
    rcases fromBarrier_eq held with h | ⟨u, rest, h, hu⟩
    · rw [h] at hsame ⊢
      rw [← hsame]
      rfl
    · rw [h] at hsame ⊢
      rw [← hsame, barriers, barriers, List.countP_cons_of_pos hu]
      rfl
  case eof => rfl
  all_goals exact barriers_fromBarrier held

theorem barriers_heldAfter (held ts : List Token) :
    barriers (heldAfter held ts) = depthFrom (barriers held) ts := by
  induction ts generalizing held with
  | nil => rfl
  | cons t ts ih => exact (ih _).trans (congrArg (depthFrom · ts) (barriers_shift held t))

theorem heldAfter_append (held ts us : List Token) :
    heldAfter held (ts ++ us) = heldAfter (heldAfter held ts) us :=
  List.foldl_append ..

/-- **After a `;` outside all braces nothing is held.** -/
theorem heldAfter_eq_nil {ts : List Token} {t : Token} (ht : t.kind = .semi)
    (h : depthFrom 0 (ts ++ [t]) = 0) : heldAfter [] (ts ++ [t]) = [] := by
  have hheld : heldAfter [] (ts ++ [t]) = fromBarrier (heldAfter [] ts) := by
    simp [heldAfter_concat, shift, ht]
  have hnone : barriers (heldAfter [] (ts ++ [t])) = 0 := (barriers_heldAfter [] _).trans h
  rcases fromBarrier_eq (heldAfter [] ts) with hnil | ⟨u, rest, hcons, hu⟩
  · exact hheld.trans hnil
  · rw [hheld, hcons, barriers, List.countP_cons_of_pos hu] at hnone
    exact absurd hnone (Nat.succ_ne_zero _)

/-- A token that is no operator goes out at once, behind what it calls for. -/
theorem exists_shift_of_not_isOperator {t : Token} (h : t.isOperator = false)
    (held : List Token) : ∃ front, (shift held t).1 = front ++ [t] := by
  have hpass : ∃ front, [t] = front ++ [t] := ⟨[], rfl⟩
  unfold shift
  rcases hk : t.kind
  case number | ident | string | whitespace | openBrace => exact hpass
  case plus | minus | star | slash | percent =>
    simp [Token.isOperator, TokenKind.isOperator, hk] at h
  all_goals exact ⟨_, rfl⟩

/-- What comes out while tokens come in, up to the operators that are still held behind them. -/
def emitted : List Token → List Token → List Token
  | _, [] => []
  | held, t :: ts => (shift held t).1 ++ emitted (shift held t).2 ts

theorem emitted_append (held ts us : List Token) :
    emitted held (ts ++ us) = emitted held ts ++ emitted (heldAfter held ts) us := by
  induction ts generalizing held with
  | nil => rfl
  | cons t ts ih =>
    rw [List.cons_append, emitted, ih, emitted, List.append_assoc]
    rfl

/-- What comes out of a whole list is let out on the way or at the end. -/
theorem resolveFrom_eq (held ts : List Token) :
    resolveFrom held ts = emitted held ts ++ operators (heldAfter held ts) := by
  induction ts generalizing held with
  | nil => rfl
  | cons t ts ih =>
    rw [resolveFrom, ih, emitted, List.append_assoc]
    rfl

theorem resolveFrom_append (held ts us : List Token) :
    resolveFrom held (ts ++ us) = emitted held ts ++ resolveFrom (heldAfter held ts) us := by
  rw [resolveFrom_eq, emitted_append, heldAfter_append, List.append_assoc, ← resolveFrom_eq]

end Resolver

theorem depthFrom_resolve (ts : List Token) (n : Nat) : depthFrom n (resolve ts) = depthFrom n ts :=
  Resolver.Stack.depthFrom_resolveFrom (fun _ h => absurd h List.not_mem_nil) ts n

/-- Where nothing is held, what follows is resolved as if it stood alone. -/
theorem resolve_append {ts : List Token} (h : Resolver.heldAfter [] ts = []) (us : List Token) :
    resolve (ts ++ us) = resolve ts ++ resolve us := by
  rw [resolve, Resolver.resolveFrom_append, h, resolve, Resolver.resolveFrom_eq [] ts, h]
  simp [resolve, Resolver.operators]

/-- **A `;` outside all braces ends a resolution.**  It comes out last of what stands up to it, and
what stands behind it is resolved as if it stood alone. -/
theorem resolve_append_semi {ts : List Token} {t : Token} (ht : t.kind = .semi)
    (h : depthFrom 0 (ts ++ [t]) = 0) (us : List Token) :
    resolve (ts ++ [t] ++ us) = resolve (ts ++ [t]) ++ resolve us
      ∧ (resolve (ts ++ [t])).getLast? = some t := by
  have hnil := Resolver.heldAfter_eq_nil ht h
  refine ⟨resolve_append hnil us, ?_⟩
  rw [Resolver.heldAfter_concat] at hnil
  have hlast : (Resolver.shift (Resolver.heldAfter [] ts) t).1
      = Resolver.aboveBarrier (Resolver.heldAfter [] ts) ++ [t] := by
    simp [Resolver.shift, ht]
  rw [resolve, Resolver.resolveFrom_append, Resolver.resolveFrom, hnil, hlast]
  simp [Resolver.resolveFrom, Resolver.operators]

end BlockLang
