import BlockLang.Proofs.Resolved
import BlockLang.Proofs.Resolver.Adjacent
import BlockLang.Proofs.Resolver.Run

/-!
# A run comes out in post-order

What a resolver makes of a run `a₀ o₁ a₁ … oₙ aₙ` is the post-order of the grouped tree over
it, whatever is held below the innermost barrier.  Two facts carry this.

**What is below a barrier is out of reach.**  While balanced tokens come in, the stack is

    heldAfter (above ++ base) ts = heldAfter above ts ++ base,

if `base` is empty or begins with a barrier, and what comes out depends on `above` only,
`emitted_append_base`.  So a block comes out as it would by itself.

**What is pending belongs to the right edge.**  After a grouped tree came in, the held
operators on top are signs of the tree that bind no less tightly than its root, and what
came out with them behind it is the post-order, `RunTree.emitted_tokens`.  So the next sign
lets out all of them that it calls for, and the end of the run lets out the rest.

The held operators above each barrier bind more tightly from bottom to top.  Every step keeps
this, on any tokens at all, `Ascending.shift`.
-/

namespace BlockLang

namespace Resolver

/-! ### What is below a barrier -/

theorem hold_append {base : List Token} (hbase : Walled base) (p : Nat) (t : Token)
    (above : List Token) :
    hold p t (above ++ base) = ((hold p t above).1, (hold p t above).2 ++ base) := by
  obtain ⟨htake, hdrop⟩ := hbase.span_append (fun _ => isBarrier_of_yieldsTo (p := p)) above
  rw [hold, htake, hdrop]
  rfl

/-- **One step** leaves alone what is below a barrier, unless it closes that barrier. -/
theorem shift_append {base : List Token} (hbase : Walled base) (above : List Token) {t : Token}
    (heof : t.kind ≠ .eof) (hclose : t.kind = .closeBrace → 0 < barriers above) :
    shift (above ++ base) t = ((shift above t).1, (shift above t).2 ++ base) := by
  unfold shift
  rcases hk : t.kind
  case number | ident | string | whitespace | openBrace => rfl
  case plus | minus => exact hold_append hbase 1 t above
  case star | slash | percent => exact hold_append hbase 2 t above
  case eof => exact absurd hk heof
  case closeBrace =>
    have hne : fromBarrier above ≠ [] := by
      intro hnil
      have hcount := barriers_fromBarrier above
      rw [hnil] at hcount
      exact absurd (hclose hk) (by rw [← hcount]; exact Nat.lt_irrefl 0)
    show (aboveBarrier (above ++ base) ++ [t], (fromBarrier (above ++ base)).drop 1) = _
    rw [hbase.aboveBarrier_append, hbase.fromBarrier_append,
      List.drop_append_of_le_length (List.length_pos_iff.2 hne)]
  all_goals
    show (aboveBarrier (above ++ base) ++ [t], fromBarrier (above ++ base)) = _
    rw [hbase.aboveBarrier_append, hbase.fromBarrier_append]

/-- **What is below a barrier** is left alone, and makes no difference, while tokens come in that
close no more braces than are open above it. -/
theorem emitted_append_base {base : List Token} (hbase : Walled base) (above : List Token)
    {ts : List Token} (h : isEnclosed (barriers above) ts = true) :
    emitted (above ++ base) ts = emitted above ts
      ∧ heldAfter (above ++ base) ts = heldAfter above ts ++ base := by
  induction ts generalizing above with
  | nil => exact ⟨rfl, rfl⟩
  | cons t ts ih =>
    rw [isEnclosed, Bool.and_eq_true, Bool.and_eq_true, ← barriers_shift] at h
    obtain ⟨⟨heof, hclose⟩, hrest⟩ := h
    have hstep := shift_append hbase above (t := t) (by simpa using heof)
      (fun hk => by simpa [hk] using hclose)
    obtain ⟨hout, hheld⟩ := ih _ hrest
    refine ⟨?_, ?_⟩
    · rw [emitted, emitted, hstep, hout]
    · show heldAfter (shift (above ++ base) t).2 ts = heldAfter (shift above t).2 ts ++ base
      rw [hstep, hheld]

/-! ### What ends a run -/

/-- What is held behind a token that ends a run: it closes the innermost barrier or leaves the stack
as it is. -/
def heldBehind (base : List Token) (t : Token) : List Token :=
  if t.kind = .closeBrace then base.drop 1 else base

/-- **A token that ends a run** comes out behind the operators of the run. -/
theorem shift_end {ops base : List Token} (hops : ∀ o ∈ ops, isBarrier o = false)
    (hbase : Walled base) {t : Token} (ht : t.kind.letsOut = true)
    (heof : t.kind = .eof → base = []) :
    shift (ops ++ base) t = (ops ++ [t], heldBehind base t) := by
  have habove : aboveBarrier (ops ++ base) = ops := by
    rw [hbase.aboveBarrier_append, aboveBarrier_eq_self hops]
  have hfrom : fromBarrier (ops ++ base) = base := by
    rw [hbase.fromBarrier_append, fromBarrier_eq_nil hops, List.nil_append]
  obtain ⟨k, s⟩ := t
  cases k
  case eof =>
    obtain rfl : base = [] := heof rfl
    show (operators (ops ++ []) ++ _, []) = _
    rw [List.append_nil, operators_eq_self hops]
    rfl
  case ident | number | string | openBrace | plus | minus | star | slash | percent | whitespace =>
    exact absurd ht Bool.false_ne_true
  all_goals
    simp only [shift, habove, hfrom]
    rfl

/-- **Balanced tokens and what ends them** come out as the tokens would by themselves, with the end
behind, and leave the stack as it was up to the end. -/
theorem emitted_of_isBalanced {ts : List Token} (hts : isBalanced ts = true) {base : List Token}
    (hbase : Walled base) {t : Token} (ht : t.kind.letsOut = true)
    (heof : t.kind = .eof → base = []) :
    emitted base (ts ++ [t]) = resolve ts ++ [t] ∧ heldAfter base (ts ++ [t]) = heldBehind base t := by
  obtain ⟨hin, hdepth⟩ := isEnclosed_of_isBalanced hts 0
  obtain ⟨hout, hheld⟩ := emitted_append_base hbase [] hin
  rw [List.nil_append] at hout hheld
  have hops := isBarrier_of_mem_heldAfter hdepth
  have hend := shift_end hops hbase ht heof
  refine ⟨?_, ?_⟩
  · rw [emitted_append, hout, hheld, emitted, hend, resolve_eq hdepth]
    simp [emitted]
  · rw [heldAfter_concat, hheld, hend]

end Resolver

open Resolver

theorem Atom.emitted_tokens (a : Atom) (held : List Token) :
    emitted held a.tokens = a.resolved ∧ heldAfter held a.tokens = held := by
  cases a with
  | operand t h =>
    have hshift := shift_of_isOperand h held
    refine ⟨?_, ?_⟩
    · rw [tokens, emitted, hshift]
      rfl
    · show (shift held t).2 = held
      rw [hshift]
  | block opening body closing hopening hbody hclosing =>
    have hshift : shift held opening = ([opening], opening :: held) := by
      rw [shift, hopening]
    have hwall : Walled (opening :: held) := by
      intro t ht
      rw [← Option.some.inj ht, isBarrier, hopening]
      rfl
    obtain ⟨hout, hheld⟩ := emitted_of_isBalanced hbody hwall (t := closing)
      (by rw [hclosing]; rfl) (fun hk => by rw [hclosing] at hk; cases hk)
    refine ⟨?_, ?_⟩
    · rw [tokens, emitted, hshift, hout]
      rfl
    · show heldAfter (shift held opening).2 (body ++ [closing]) = held
      rw [hshift, hheld, heldBehind, if_pos hclosing]
      rfl

theorem Resolver.yieldsTo_of_le {p q : Nat} (hpq : p ≤ q) {t : Token} (h : yieldsTo q t = true) :
    yieldsTo p t = true := by
  unfold yieldsTo at h ⊢
  rw [Bool.and_eq_true] at h ⊢
  obtain ⟨hb, hq⟩ := h
  refine ⟨hb, ?_⟩
  cases hk : t.kind.precedence? with
  | none => rw [hk] at hq; exact absurd hq Bool.false_ne_true
  | some n =>
    rw [hk] at hq
    have hqn : q ≤ n := by simpa using hq
    simpa using Nat.le_trans hpq hqn

theorem Sign.yieldsTo_token (o : Sign) (p : Nat) :
    yieldsTo p o.token = decide (p ≤ o.rank) := by
  rw [yieldsTo, isBarrier_of_isOperator o.isOperator, o.precedence?_token]
  rfl

theorem Sign.shift_token (o : Sign) {ops held : List Token}
    (hops : ∀ u ∈ ops, yieldsTo o.rank u = true)
    (htop : ∀ t, held.head? = some t → yieldsTo o.rank t = false) :
    shift (ops ++ held) o.token = (ops, o.token :: held) := by
  have hstop : held.takeWhile (yieldsTo o.rank) = [] ∧ held.dropWhile (yieldsTo o.rank) = held := by
    cases held with
    | nil => exact ⟨rfl, rfl⟩
    | cons t held =>
      have ht : ¬ yieldsTo o.rank t = true := by
        rw [htop t rfl]
        exact Bool.false_ne_true
      exact ⟨List.takeWhile_cons_of_neg ht, List.dropWhile_cons_of_neg ht⟩
  rw [shift_eq_hold o.isOperator o.precedence?_token, hold, List.takeWhile_append_of_pos hops,
    List.dropWhile_append_of_pos hops, hstop.1, hstop.2, List.append_nil]

/-- **A grouped tree comes in.**  If no operator on top of the stack yields to its root, then what
is held above the stack afterwards are operators that do, and what came out with them behind it is
the post-order. -/
theorem RunTree.emitted_tokens {e : RunTree} (he : e.isGrouped = true) (held : List Token)
    (htop : ∀ t, held.head? = some t → yieldsTo e.rank t = false) :
    ∃ ops, heldAfter held e.run.tokens = ops ++ held
      ∧ emitted held e.run.tokens ++ ops = e.postorder
      ∧ ∀ u ∈ ops, yieldsTo e.rank u = true := by
  induction e generalizing held with
  | atom a =>
    obtain ⟨hout, hheld⟩ := a.emitted_tokens held
    have htokens : (atom a).run.tokens = a.tokens := List.append_nil _
    refine ⟨[], ?_, ?_, fun u hu => absurd hu List.not_mem_nil⟩
    · rw [htokens, hheld, List.nil_append]
    · rw [htokens, hout, List.append_nil]
      rfl
  | node l o r ihl ihr =>
    have htop : ∀ t, held.head? = some t → yieldsTo o.rank t = false := htop
    obtain ⟨hl, hr, hgl, hgr⟩ := isGrouped_node.1 he
    -- the left operand binds no less tightly than the sign, so nothing on top yields to it either
    obtain ⟨opsl, hheldl, houtl, hyieldl⟩ := ihl hgl held (fun t ht => by
      rw [← Bool.not_eq_true]
      exact fun h => Bool.false_ne_true ((htop t ht).symm.trans (yieldsTo_of_le hl h)))
    have hsign : shift (opsl ++ held) o.token = (opsl, o.token :: held) :=
      o.shift_token (fun u hu => yieldsTo_of_le hl (hyieldl u hu)) htop
    -- the sign waits below the right operand, which binds more tightly
    obtain ⟨opsr, hheldr, houtr, hyieldr⟩ := ihr hgr (o.token :: held) (fun t ht => by
      rw [← Option.some.inj ht, o.yieldsTo_token]
      exact decide_eq_false (Nat.not_le.2 hr))
    refine ⟨opsr ++ [o.token], ?_, ?_, ?_⟩
    · rw [run, Run.tokens_join, heldAfter_append, hheldl]
      show heldAfter (shift (opsl ++ held) o.token).2 r.run.tokens = _
      rw [hsign, hheldr, List.append_assoc]
      rfl
    · calc emitted held (node l o r).run.tokens ++ (opsr ++ [o.token])
          = emitted held l.run.tokens ++ opsl
              ++ (emitted (o.token :: held) r.run.tokens ++ opsr) ++ [o.token] := by
            rw [run, Run.tokens_join, Resolver.emitted_append, hheldl, emitted, hsign]
            simp
        _ = (node l o r).postorder := by rw [houtl, houtr, postorder]
    · intro u hu
      rcases List.mem_append.1 hu with hu | hu
      · exact yieldsTo_of_le (Nat.le_of_lt hr) (hyieldr u hu)
      · rw [List.mem_singleton.1 hu, o.yieldsTo_token]
        exact decide_eq_true (Nat.le_refl _)

/-- **What a resolver makes of a run**: the post-order of its grouped tree. -/
theorem RunTree.resolve_tokens_run {e : RunTree} (he : e.isGrouped = true) :
    resolve e.run.tokens = e.postorder := by
  obtain ⟨ops, hheld, hout, hyield⟩ := emitted_tokens he [] (fun t ht => by cases ht)
  rw [List.append_nil] at hheld
  rw [resolve, resolveFrom_eq, hheld,
    operators_eq_self (fun o ho => isBarrier_of_yieldsTo (hyield o ho)), hout]

/-! ### Held operators -/

namespace Resolver

/-- The upper of two tokens binds more tightly, if both are operators. -/
def Outranks (upper lower : Token) : Prop :=
  ∀ p ∈ upper.kind.precedence?, ∀ q ∈ lower.kind.precedence?, q < p

/-- **Above each barrier, held operators bind more tightly from bottom to top.**  Nothing is held but
barriers and operators, and of two operators that are held one on the other the upper binds more
tightly. -/
structure Ascending (held : List Token) : Prop where
  stack : Stack held
  chain : held.IsChain Outranks

namespace Ascending

theorem nil : Ascending [] :=
  ⟨fun _ h => absurd h List.not_mem_nil, .nil⟩

/-- **One step** holds an operator only on those that bind less tightly. -/
theorem shift {held : List Token} (h : Ascending held) (t : Token) :
    Ascending (shift held t).2 := by
  refine ⟨(h.stack.shift t 0).1, ?_⟩
  have hhold : ∀ n, t.kind.precedence? = some n → (hold n t held).2.IsChain Outranks := by
    intro n hn
    refine List.isChain_cons.2 ⟨fun u hu p hp q hq => ?_, h.chain.suffix (List.dropWhile_suffix _)⟩
    have hstop := List.head?_dropWhile_not (yieldsTo n) held
    rw [Option.mem_def.1 hu] at hstop
    have hbarrier : isBarrier u = false := by
      rw [isBarrier, decide_eq_false_iff_not]
      intro hk
      rw [hk] at hq
      cases hq
    rw [Option.mem_def.1 hn] at hp
    obtain rfl := Option.some.inj hp
    simp only [yieldsTo, hbarrier, Option.mem_def.1 hq] at hstop
    simpa using hstop
  have hfrom : fromBarrier held <:+ held := List.dropWhile_suffix _
  unfold Resolver.shift
  rcases hk : t.kind
  case number | ident | string | whitespace => exact h.chain
  case plus | minus => exact hhold 1 (by rw [hk]; rfl)
  case star | slash | percent => exact hhold 2 (by rw [hk]; rfl)
  case openBrace =>
    refine List.isChain_cons.2 ⟨fun u _ p hp => ?_, h.chain⟩
    rw [hk] at hp
    cases hp
  case closeBrace => exact h.chain.suffix ((List.drop_suffix 1 _).trans hfrom)
  case eof => exact .nil
  all_goals exact h.chain.suffix hfrom

/-- **At every point of a run** of the resolver, whatever the tokens are. -/
theorem heldAfter {held : List Token} (h : Ascending held) (ts : List Token) :
    Ascending (heldAfter held ts) := by
  induction ts generalizing held with
  | nil => exact h
  | cons t ts ih => exact ih (h.shift t)

end Ascending

/-! ### The whole run -/

/-- Lets tokens in, one by one. -/
def feedAll (r : Resolver) (ts : List Token) : Resolver :=
  ts.foldl feed r

theorem feedAll_eq (r : Resolver) (ts : List Token) :
    (r.feedAll ts).output = r.output ++ emitted r.held ts
      ∧ (r.feedAll ts).held = Resolver.heldAfter r.held ts := by
  induction ts generalizing r with
  | nil => exact ⟨(List.append_nil _).symm, rfl⟩
  | cons t ts ih =>
    obtain ⟨hout, hheld⟩ := ih (r.feed t)
    refine ⟨hout.trans ?_, hheld⟩
    rw [emitted, feed, List.append_assoc]

/-- **A run comes out in post-order.**  Let `ts` be a run with blanks anywhere in it, and `t` a token
that ends it: neither an operand nor an operator, a blank or an opening brace.  Let a resolver hold
nothing, or a barrier on top, and nothing if `t` is the end mark.  Then, with blanks dropped, what
comes out is the post-order of the one tree over the run in which `*`, `/` and `%` bind more tightly
than `+` and `-` and equal ranks group to the left, and `t` behind it.  The run leaves the stack as it
was, and at each point of it holds its own operators on top; then a closing brace takes the barrier
away.  And the operators above each barrier bind more tightly from bottom to top: those of the run at
each point of it, and all of them, whatever comes in, if they did before. -/
theorem feedAll_run {r : Resolver} {a : Run} {ts : List Token} {t : Token}
    (hts : ts.filter Token.counts = a.tokens.filter Token.counts) (ht : t.kind.letsOut = true)
    (hheld : Walled r.held) (heof : t.kind = .eof → r.held = []) :
    ∃ e : RunTree, (∀ e' : RunTree, e'.isGrouped = true ∧ e'.run = a ↔ e' = e)
      ∧ (∃ out, (r.feedAll (ts ++ [t])).output = r.output ++ out
        ∧ out.filter Token.counts = e.postorder.filter Token.counts ++ [t])
      ∧ (r.feedAll (ts ++ [t])).held = heldBehind r.held t
      ∧ (∀ front, front <+: ts →
        ∃ above, (r.feedAll front).held = above ++ r.held ∧ Ascending above)
      ∧ (Ascending r.held → ∀ us, Ascending (r.feedAll us).held) := by
  obtain ⟨hgrouped, hrun⟩ := RunTree.run_eq_iff.2 (rfl : a.tree = a.tree)
  have hbalanced : isBalanced ts = true := by
    rw [← isBalanced_filter_counts, hts, isBalanced_filter_counts, ← hrun, isBalanced,
      (a.tree.isEnclosed_tokens_run 0).1, (a.tree.isEnclosed_tokens_run 0).2]
    rfl
  obtain ⟨hout, hend⟩ := emitted_of_isBalanced hbalanced hheld ht heof
  refine ⟨a.tree, fun e' => RunTree.run_eq_iff, ⟨resolve ts ++ [t], ?_, ?_⟩, ?_, ?_, ?_⟩
  · rw [(r.feedAll_eq _).1, hout]
  · have hcounts : [t].filter Token.counts = [t] := by
      obtain ⟨k, s⟩ := t
      cases k <;> first | rfl | exact absurd ht Bool.false_ne_true
    rw [List.filter_append, filter_resolve, hts, ← filter_resolve, hcounts]
    conv => lhs; rw [← hrun, RunTree.resolve_tokens_run hgrouped]
  · rw [(r.feedAll_eq _).2, hend]
  · rintro front ⟨back, rfl⟩
    have hin := (isEnclosed_of_isBalanced hbalanced 0).1
    rw [isEnclosed_append, Bool.and_eq_true] at hin
    refine ⟨Resolver.heldAfter [] front, ?_, Ascending.nil.heldAfter front⟩
    rw [(r.feedAll_eq _).2]
    exact (emitted_append_base hheld [] hin.1).2
  · intro h us
    rw [(r.feedAll_eq _).2]
    exact h.heldAfter us

/-- The run `1 - { b + c * 2 ; % } / 5 % "x"`, and its tree. -/
def braced : RunTree :=
  .node (.atom (.operand (.of .number "1") rfl)) ⟨.fixed .minus, rfl⟩
    (.node
      (.node
        (.atom (.block (.fixed .openBrace)
          [.ofName "b", .fixed .plus, .ofName "c", .fixed .star, .of .number "2", .fixed .semi,
            .fixed .percent]
          (.fixed .closeBrace) rfl (by decide) rfl))
        ⟨.fixed .slash, rfl⟩ (.atom (.operand (.of .number "5") rfl)))
      ⟨.fixed .percent, rfl⟩ (.atom (.operand (.of .string "\"x\"") rfl)))

/-- In `1 - { b+ c*2 ;% } /5 %"x"`, a run up to the `}`, while a barrier is held on the `-`. -/
theorem feedAll_run_braced :
    let r : Resolver := { pending := [], held := [.fixed .openBrace, .fixed .star] }
    let ts := (tokenize " 1 - \x7b b+ c*2 ;% \x7d /5 %\"x\" ").dropLast
    ts.filter Token.counts = braced.run.tokens.filter Token.counts
      ∧ TokenKind.closeBrace.letsOut = true
      ∧ Walled r.held
      ∧ (TokenKind.closeBrace = .eof → r.held = [])
      ∧ (∃ out, (r.feedAll (ts ++ [.fixed .closeBrace])).output = [] ++ out
        ∧ out.filter Token.counts
          = braced.postorder.filter Token.counts ++ [.fixed .closeBrace])
      ∧ (r.feedAll (ts ++ [.fixed .closeBrace])).held = [.fixed .star]
      ∧ (∀ front, front <+: ts →
        ∃ above, (r.feedAll front).held = above ++ [.fixed .openBrace, .fixed .star]
          ∧ Ascending above)
      ∧ (∀ us, Ascending (r.feedAll us).held)
      ∧ braced.postorder.map Token.text
        = ["1", "\x7b", "b", "c", "2", "*", "+", ";", "%", "\x7d", "5", "/", "\"x\"", "%", "-"] := by
  intro r ts
  have hts : ts.filter Token.counts = braced.run.tokens.filter Token.counts := by decide +kernel
  have hheld : Walled r.held := .cons_openBrace _
  have hascending : Ascending r.held := Ascending.nil.heldAfter [.fixed .star, .fixed .openBrace]
  obtain ⟨e, hunique, hout, hend, hfront, hall⟩ :=
    feedAll_run (t := .fixed .closeBrace) hts rfl hheld (fun hk => absurd hk (by decide))
  obtain rfl : braced = e := (hunique braced).1 ⟨by decide, rfl⟩
  exact ⟨hts, rfl, hheld, fun hk => absurd hk (by decide), hout, hend, hfront, hall hascending,
    by decide⟩

end Resolver

end BlockLang
