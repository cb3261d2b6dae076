import BlockLang.Proofs.Parser.Alike

/-!
# Reading on behind an expression

Where the signs stand behind, the parser finds the end of an expression by reading on.
What follows is folded above the expression, on the same stack.  As long as it finds its
operands above, the fold goes as it goes where what follows stands alone; then the
expression is given, and the parser goes back to its end.  If what follows stops alone for
want of an operand, then it finds the expression below and joins it, and what is given in
the end is an operation.
-/

namespace BlockLang.Parser

open StepM

variable {α β : Type} {c d : Cursor} {n : Nat} {stmt stmt' : ParseM Tree} {t : Tree}
  {single : Option (Nat × Tree)}

/-! ### A fold with an operation at the bottom -/

/-- **At the bottom of the stack is an operation**, and so is the expression that was noted. -/
structure Joined (f : Folded) : Prop where
  bottom : ∃ e, f.stack.getLast? = some e ∧ e.isOperation = true
  single : ∀ i e, f.single = some (i, e) → e.isOperation = true

theorem joined_pushed_nil (single : Option (Nat × Tree)) (i : Nat) (l r : Tree) (op : Operator) :
    Joined (pushed ⟨[], single⟩ i (.operation l r op)) := by
  refine ⟨⟨_, rfl, rfl⟩, fun j e h => ?_⟩
  obtain ⟨-, rfl⟩ := Prod.mk.inj (Option.some.inj h)
  rfl

theorem Joined.pushed {f : Folded} (h : Joined f) (i : Nat) (e : Tree) : Joined (pushed f i e) := by
  obtain ⟨x, hx, hop⟩ := h.bottom
  have hne : f.stack ≠ [] := by
    intro hnil
    rw [hnil] at hx
    exact absurd hx (by simp)
  refine ⟨⟨x, ?_, hop⟩, fun j e' hj => h.single j e' ?_⟩
  · show (e :: f.stack).getLast? = some x
    rw [List.getLast?_cons, hx]
    rfl
  · exact (if_neg hne).symm.trans hj

theorem Joined.operate {l r : Tree} {stack : List Tree} (h : Joined ⟨r :: l :: stack, single⟩)
    (i : Nat) (op : Operator) : Joined (Parser.pushed ⟨stack, single⟩ i (.operation l r op)) := by
  cases stack with
  | nil => exact joined_pushed_nil single i l r op
  | cons u stack => exact Joined.pushed (f := ⟨u :: stack, single⟩) ⟨h.bottom, h.single⟩ i _

/-- **An operation stays at the bottom**, whatever is read above it. -/
theorem ends_foldItems_joined (fuel : Nat) {f : Folded} (h : Joined f) :
    Ends (foldItems stmt fuel f) c (fun f _ => Joined f) (fun _ _ => True) := by
  induction fuel generalizing c f with
  | zero => exact ends_throw.2 trivial
  | succ fuel ih =>
    unfold foldItems
    refine (ends_trivial peekNext c).bind ?_ (fun _ _ h => h)
    rintro (_ | u) c₁ -
    · exact ends_pure.2 h
    · dsimp only
      split
      · refine (ends_trivial (startsStatement f.stack) c₁).bind ?_ (fun _ _ h => h)
        rintro starts c₂ -
        split
        · exact ends_pure.2 h
        · refine (ends_trivial (attempt (atom stmt)) c₂).bind ?_ (fun _ _ h => h)
          rintro e c₃ -
          rw [ends_bind, ends_settle_cons]
          exact ih (h.pushed _ e)
      · split
        · rw [ends_position_bind]
          refine (ends_trivial operator c₁).bind ?_ (fun _ _ h => h)
          rintro op c₂ -
          obtain ⟨stack, single⟩ := f
          dsimp only
          split
          · rw [ends_bind, ends_settle_cons]
            exact ih (h.operate _ op)
          · unfold reject record
            rw [ends_bind, ends_position_bind, ends_bind, ends_modify, ends_pure, ends_throw]
            trivial
        · exact ends_pure.2 h

/-! ### A fold above an expression -/

/-- **Above an expression.**  Where `q` gives a stack, `p` gives the same stack above `t`, with the
same place noted; where `q` stops, `p` stops or gives a stack with an operation at the bottom. -/
inductive Above (t : Tree) (single : Option (Nat × Tree)) (p : ParseM Folded) (c : Cursor)
    (q : ParseM Folded) (d : Cursor) : Prop
  | apart {f f' : Folded} {c' d' : Cursor} (hp : runFrom p c = (.ok f, c'))
      (hq : runFrom q d = (.ok f', d')) (hstack : f.stack = f'.stack ++ [t])
      (hne : f'.stack ≠ []) (hsingle : f.single = single) (hc : c.Later c')
  | joined {fault : Fault} {d' : Cursor} (hq : runFrom q d = (.error fault, d'))
      (hp : Ends p c (fun f _ => Joined f) (fun _ _ => True))

section Rules

variable {V : α → Cursor → β → Cursor → Prop} {p : ParseM α} {q : ParseM β}
  {f : α → ParseM Folded} {g : β → ParseM Folded} {r r' s s' : ParseM Folded}

theorem Above.of_runFrom (h : Above t single r' c s' d) (hr : runFrom r c = runFrom r' c)
    (hs : runFrom s d = runFrom s' d) : Above t single r c s d := by
  cases h with
  | apart hp hq hstack hne hsingle hc =>
    exact .apart (hr.trans hp) (hs.trans hq) hstack hne hsingle hc
  | joined hq hp =>
    refine .joined (hs.trans hq) ?_
    rw [ends_iff] at hp ⊢
    rwa [hr]

theorem Above.bind {Q : α → Cursor → Prop} {E : Fault → Cursor → Prop} (h : Agree V p c q d)
    (halike : c.Alike d) (hends : Ends p c Q E)
    (hf : ∀ a c' b d', V a c' b d' → Q a c' → c'.Alike d' → Above t single (f a) c' (g b) d') :
    Above t single (p >>= f) c (q >>= g) d := by
  cases h with
  | @ok a b c₁ d₁ hp hq hV hc hd hahead =>
    have hq' : runFrom (q >>= g) d = runFrom (g b) d₁ := by rw [runFrom_bind, hq]
    cases hf a c₁ b d₁ hV (hends.of_ok hp) (halike.later hc hd hahead) with
    | apart hp' hq'' hstack hne hsingle hc' =>
      exact .apart (by rw [runFrom_bind, hp, ← hp']) (hq'.trans hq'') hstack hne hsingle
        (hc.trans hc')
    | joined hq'' hp' =>
      exact .joined (hq'.trans hq'') (ends_bind.2 (ends_iff.2 (.inl ⟨a, c₁, hp, hp'⟩)))
  | error hp hq hfault hc hd =>
    exact .joined (by rw [runFrom_bind, hq]) (ends_bind.2 (ends_iff.2 (.inr ⟨_, _, hp, trivial⟩)))

theorem Above.position_bind {f g : Nat → ParseM Folded}
    (h : Above t single (f c.stream.pos) c (g d.stream.pos) d) :
    Above t single (position >>= f) c (position >>= g) d :=
  h.of_runFrom rfl rfl

theorem Above.settle_bind {e : Tree} {stack stack' : List Tree}
    {single₁ single₁' : Option (Nat × Tree)} {f g : Folded → ParseM Folded}
    (h : Above t single (f (pushed ⟨stack, single₁⟩ c.stream.pos e)) c
      (g (pushed ⟨stack', single₁'⟩ d.stream.pos e)) d) :
    Above t single (Folded.settle (e :: stack) single₁ >>= f) c
      (Folded.settle (e :: stack') single₁' >>= g) d := by
  cases stack <;> cases stack' <;> exact h.of_runFrom rfl rfl

end Rules

/-- Tokens with which an expression begins, and no assignment. -/
structure StartsExpr (toks : List Token) : Prop where
  head : ∃ u, toks.head? = some u ∧ (u.isOperand || u.kind = .openBrace) = true
  take_two : (toks.take 2).map Token.kind ≠ [.ident, .equals]

theorem agree_startsStatement_above (halike : c.Alike d) {stack stack' : List Tree}
    (hne : stack ≠ []) (hstart : stack' = [] → StartsExpr c.ahead) :
    Agree Same (startsStatement stack) c (startsStatement stack') d := by
  unfold startsStatement
  rw [if_neg (by simpa using hne)]
  split
  next hnil =>
    obtain ⟨b, c', hp, rfl, hstay⟩ := (ends_startsAssignment halike.fit).exists_ok
    have htwo := (hstart (by simpa using hnil)).take_two
    refine .ok hp rfl ?_ hstay.toLater halike.fit'.stays.toLater ?_
    · exact decide_eq_false htwo
    · rw [hstay.ahead_eq, halike.ahead_eq]
  · exact agree_startsAssignment halike

/-- **The fold above an expression** goes as it goes alone, or it runs into the expression. -/
theorem above_foldItems (hstmt : AgreeWithin n stmt stmt') {fuel fuel' : Nat} {f f' : Folded}
    (halike : c.Alike d) (hstack : f.stack = f'.stack ++ [t])
    (hstart : f'.stack = [] → StartsExpr c.ahead) (hn : c.ahead.length ≤ n)
    (hfuel : c.ahead.length < fuel) (hfuel' : c.ahead.length < fuel') :
    Above t f.single (foldItems stmt fuel f) c (foldItems stmt' fuel' f') d := by
  induction fuel generalizing fuel' c d f f' with
  | zero => omega
  | succ fuel ih =>
    obtain ⟨fuel', rfl⟩ : ∃ m, fuel' = m + 1 := ⟨fuel' - 1, by omega⟩
    obtain ⟨_, single⟩ := f
    obtain ⟨stack, single'⟩ := f'
    obtain rfl : _ = stack ++ [t] := hstack
    have hsome : stack ++ [t] ≠ [] := by simp
    unfold foldItems
    refine Above.bind (agree_peekNext halike) halike (ends_peekNext halike.fit) ?_
    rintro found c₁ _ d₁ rfl ⟨hfound, hstay⟩ halike₁
    rw [← hstay.ahead_eq] at hn hfuel hfuel' hstart hfound
    have hstop : ∀ {c' d' : Cursor}, c'.Fit → stack ≠ [] →
        Above t single (pure ⟨stack ++ [t], single⟩) c' (pure ⟨stack, single'⟩) d' :=
      fun hc' hne => .apart rfl rfl rfl hne rfl hc'.stays.toLater
    have hgo : ∀ {c' d' : Cursor} (e : Tree) (rest : List Tree), c'.Alike d' →
        c'.ahead.length < c₁.ahead.length →
        Above t single (Folded.settle (e :: (rest ++ [t])) single >>= foldItems stmt fuel) c'
          (Folded.settle (e :: rest) single' >>= foldItems stmt' fuel') d' := by
      intro c' d' e rest halike' hlt
      have hnext : Above t (pushed ⟨rest ++ [t], single⟩ c'.stream.pos e).single
          (foldItems stmt fuel (pushed ⟨rest ++ [t], single⟩ c'.stream.pos e)) c'
          (foldItems stmt' fuel' (pushed ⟨rest, single'⟩ d'.stream.pos e)) d' :=
        ih halike' rfl (fun hnil => absurd hnil (List.cons_ne_nil _ _)) (by omega) (by omega)
          (by omega)
      have hsingle : (pushed ⟨rest ++ [t], single⟩ c'.stream.pos e).single = single :=
        if_neg (by simp)
      rw [hsingle] at hnext
      exact hnext.settle_bind
    rcases found with _ | u
    · refine hstop halike₁.fit (fun hnil => ?_)
      obtain ⟨v, hv, -⟩ := (hstart hnil).head
      exact absurd (hfound.trans hv) (by simp)
    · dsimp only
      split
      · have hends : Ends (startsStatement (stack ++ [t])) c₁
            (fun b c' => b = decide ((c₁.ahead.take 2).map Token.kind = [.ident, .equals])
              ∧ c₁.Stays c') (fun _ _ => False) := by
          unfold startsStatement
          rw [if_neg (by simp)]
          exact ends_startsAssignment halike₁.fit
        refine Above.bind (agree_startsStatement_above halike₁ hsome hstart) halike₁ hends ?_
        rintro starts c₂ _ d₂ rfl ⟨hstarts, hstay₂⟩ halike₂
        split
        next htrue =>
          refine hstop halike₂.fit (fun hnil => (hstart hnil).take_two ?_)
          exact of_decide_eq_true (hstarts.symm.trans htrue)
        · have hread := ends_attempt halike₂.fit (ends_atom hstmt.reads halike₂.fit)
          rw [← hstay₂.ahead_eq] at hn hgo
          refine Above.bind ((agree_atom hstmt halike₂ hn).attempt halike₂) halike₂ hread ?_
          rintro e c₃ _ d₃ rfl hread halike₃
          exact hgo e stack halike₃ hread.length_lt
      next hopens =>
        have hne : stack ≠ [] := by
          intro hnil
          obtain ⟨v, hv, hv'⟩ := (hstart hnil).head
          obtain rfl := Option.some.inj (hfound.trans hv)
          exact hopens hv'
        split
        · refine Above.position_bind ?_
          refine Above.bind (agree_operator halike₁) halike₁ (ends_operator halike₁.fit) ?_
          rintro op c₂ _ d₂ rfl ⟨-, hahead⟩ halike₂
          rw [hahead, List.length_cons] at hgo
          rcases stack with _ | ⟨right, _ | ⟨left, rest⟩⟩
          · exact absurd rfl hne
          · -- alone, the operator lacks an operand; here it finds the expression below
            have hreject : Ends (reject (.missingOperand op.sign u.kind) (some ↑d₁.stream.pos) :
                ParseM Folded) d₂ (fun _ _ => False)
                (fun fault d' => fault.IsRefusal ∧ d₂.Stays d') :=
              ends_reject halike₂.fit' _ _
            obtain ⟨_, _, -, hfalse⟩ | ⟨_, d', hq, -⟩ := ends_iff.1 hreject
            · exact hfalse.elim
            · refine .joined hq ?_
              rw [List.singleton_append, ends_bind, ends_settle_cons]
              exact ends_foldItems_joined fuel (joined_pushed_nil ..)
          · exact hgo _ rest halike₂ (Nat.lt_succ_self _)
        · exact hstop halike₁.fit hne

/-! ### Expressions -/

/-- A fold with anything on its stack has noted a place to go back to. -/
theorem ends_foldExpr_of_stack {f : Folded} (hstmt : AgreeWithin n stmt stmt) (hc : c.Fit)
    (hn : c.ahead.length ≤ n) {c' : Cursor}
    (hrun : runFrom (foldItems stmt (c.stream.capacity + 1) {}) c = (.ok f, c'))
    (hne : f.stack ≠ []) :
    Ends (foldExpr stmt) c (fun _ _ => True) (fun _ _ => False) := by
  have hroom := hc.length_ahead_le
  have hstart : Folded.Alike {} c {} c := ⟨rfl, fun h => absurd rfl h⟩
  have hagree := agree_foldItems hstmt ⟨hc, hc, rfl, rfl⟩ hstart hn (Nat.lt_succ_of_le hroom)
    (Nat.lt_succ_of_le hroom)
  unfold foldExpr
  rw [ends_capacity_bind, ends_bind, ends_iff]
  refine .inl ⟨f, c', hrun, ?_⟩
  cases hagree with
  | error hp => exact absurd (hrun.symm.trans hp) (by simp)
  | ok hp _ hf hlater =>
    obtain ⟨rfl, rfl⟩ : f = _ ∧ c' = _ := by simpa using hrun.symm.trans hp
    obtain ⟨i, -, e, hsingle, -, hi, -⟩ := hf.single hne
    split
    · exact absurd ‹_› hne
    · exact ends_pure.2 trivial
    · rw [hsingle]
      exact (ends_rewind (hlater.fit hc) hi).andThen (fun _ _ _ => ends_pure.2 trivial)

/-- **A fold with an operation at the bottom** gives an operation, if it gives anything. -/
theorem ends_foldExpr_of_joined
    (h : Ends (foldItems stmt (c.stream.capacity + 1) {}) c (fun f _ => Joined f)
      (fun _ _ => True)) :
    Ends (foldExpr stmt) c (fun e _ => e.isOperation = true) (fun _ _ => True) := by
  unfold foldExpr
  rw [ends_capacity_bind]
  refine h.bind ?_ (fun _ _ h => h)
  rintro ⟨stack, single⟩ c' hf
  obtain ⟨e, hlast, hop⟩ := hf.bottom
  dsimp only at hlast ⊢
  split
  · exact absurd hlast (by simp)
  · obtain rfl := Option.some.inj hlast
    exact ends_pure.2 hop
  · split
    · exact ends_throw.2 trivial
    · refine (ends_trivial (rewind _) c').bind (fun _ _ _ => ?_) (fun _ _ h => h)
      exact ends_pure.2 (hf.single _ _ rfl)

section Behind

variable (hstmt : AgreeWithin n stmt stmt') (hc : c.Fit) (hd : d.Fit)
  (hg : c.grouping = .byPrecedence) (hg' : d.grouping = .byPrecedence) {a : Phrase}
  (ha : GivesAtom stmt .byPrecedence a) (hahead : c.ahead = a.tokens .behind ++ d.ahead)
  (hstart : StartsExpr d.ahead) (hn : d.ahead.length ≤ n)

include hstmt hc hd hg hg' ha hahead hstart hn

/-- **Behind an atom**, the fold goes as it goes from `d` alone, or it runs into the atom. -/
theorem ends_foldItems_above {Q : Folded → Cursor → Prop} {E : Fault → Cursor → Prop}
    (hnext : ∀ c', c.Along c' → Above a.tree (some (c'.stream.pos, a.tree))
        (foldItems stmt c.stream.capacity (pushed {} c'.stream.pos a.tree)) c'
        (foldItems stmt' (d.stream.capacity + 1) {}) d →
      Ends (foldItems stmt c.stream.capacity (pushed {} c'.stream.pos a.tree)) c' Q E) :
    Ends (foldItems stmt (c.stream.capacity + 1) {}) c Q E := by
  have hroom := hc.length_ahead_le
  have hroom' := hd.length_ahead_le
  obtain ⟨u, more, hu, -⟩ := a.exists_head .behind
  rw [hahead, hu, List.cons_append, List.length_cons, List.length_append] at hroom
  refine ends_fold_atom hc hg ha hahead (fun h => absurd rfl h) ?_
  intro c' halong hahead'
  have halike : c'.Alike d := ⟨halong.fit hc, hd, by rw [halong.grouping_eq, hg, hg'], hahead'⟩
  have hstart' : StartsExpr c'.ahead := hahead' ▸ hstart
  have hfold : Above a.tree (pushed {} c'.stream.pos a.tree).single
      (foldItems stmt c.stream.capacity (pushed {} c'.stream.pos a.tree)) c'
      (foldItems stmt' (d.stream.capacity + 1) {}) d :=
    above_foldItems hstmt halike rfl (fun _ => hstart') (by rw [hahead']; omega)
      (by rw [hahead']; omega) (by rw [hahead']; omega)
  exact hnext c' halong hfold

/-- Where the fold from `d` stops, the atom is not read alone. -/
theorem ends_foldExpr_of_error {fault : Fault} {d' : Cursor}
    (hrun : runFrom (foldItems stmt' (d.stream.capacity + 1) {}) d = (.error fault, d')) :
    Ends (foldExpr stmt) c (fun e _ => e.isOperation = true) (fun _ _ => True) := by
  refine ends_foldExpr_of_joined
    (ends_foldItems_above hstmt hc hd hg hg' ha hahead hstart hn (fun c' _ h => ?_))
  cases h with
  | apart _ hq => exact absurd (hrun.symm.trans hq) (by simp)
  | joined _ hp => exact hp

/-- Where the fold from `d` gives a stack, the parser goes back to the end of the atom. -/
theorem ends_foldExpr_of_ok {f' : Folded} {d' : Cursor}
    (hrun : runFrom (foldItems stmt' (d.stream.capacity + 1) {}) d = (.ok f', d')) :
    f'.stack ≠ [] ∧ Ends (foldExpr stmt) c (fun e _ => e = a.tree) (fun _ _ => False) := by
  have hfold : Ends (foldItems stmt (c.stream.capacity + 1) {}) c
      (fun f c' => f.stack = f'.stack ++ [a.tree] ∧ f'.stack ≠ []
        ∧ ∃ i, f.single = some (i, a.tree) ∧ c'.Fit ∧ i ≤ c'.stream.buffer.size)
      (fun _ _ => False) := by
    refine ends_foldItems_above hstmt hc hd hg hg' ha hahead hstart hn (fun c' halong h => ?_)
    cases h with
    | joined hq => exact absurd (hrun.symm.trans hq) (by simp)
    | apart hp hq hstack hne hsingle hlater =>
      obtain ⟨rfl, -⟩ : f' = _ ∧ d' = _ := by simpa using hrun.symm.trans hq
      have hc' := halong.fit hc
      exact ends_iff.2 (.inl ⟨_, _, hp, hstack, hne, _, hsingle, hlater.fit hc',
        Nat.le_trans hc'.sound.pos_le hlater.stream.buffer_le⟩)
  obtain ⟨f, c', hp, hstack, hne, i, hsingle, hc', hi⟩ := hfold.exists_ok
  obtain ⟨e, stack, hcons⟩ := List.exists_cons_of_ne_nil hne
  obtain ⟨e', stack', hcons'⟩ := List.exists_cons_of_ne_nil (l := stack ++ [a.tree]) (by simp)
  rw [hcons, List.cons_append, hcons'] at hstack
  refine ⟨hne, ?_⟩
  unfold foldExpr
  rw [ends_capacity_bind, ends_bind, ends_iff]
  refine .inl ⟨f, c', hp, ?_⟩
  -- two expressions at least are on the stack
  rw [hstack, hsingle]
  exact (ends_rewind hc' hi).andThen (fun _ _ _ => ends_pure.2 rfl)

/-- **An atom with another expression behind it.**  It is read alone if what follows is read alone.
If what follows is not, then the atom is not read alone. -/
theorem ends_expr_above (hstmt' : AgreeWithin n stmt' stmt') :
    Ends (expr stmt') d (fun _ _ => True) (fun _ _ => False)
        ∧ Ends (expr stmt) c (fun e _ => e = a.tree) (fun _ _ => False)
      ∨ Ends (expr stmt') d (fun _ _ => False) (fun _ _ => True)
        ∧ Ends (expr stmt) c (fun e _ => e.isOperation = true) (fun _ _ => True) := by
  have hexpr : ∀ {stmt : ParseM Tree} {c : Cursor} {Q : Tree → Cursor → Prop}
      {E : Fault → Cursor → Prop}, c.grouping = .byPrecedence →
      (Ends (expr stmt) c Q E ↔ Ends (foldExpr stmt) c Q E) := by
    intro stmt c Q E hg
    rw [expr, ends_get_bind, hg]
  simp only [hexpr hg, hexpr hg']
  rcases hrun : runFrom (foldItems stmt' (d.stream.capacity + 1) {}) d with ⟨fault | f', d'⟩
  · refine .inr ⟨?_, ends_foldExpr_of_error hstmt hc hd hg hg' ha hahead hstart hn hrun⟩
    unfold foldExpr
    rw [ends_capacity_bind, ends_bind, ends_iff]
    exact .inr ⟨fault, d', hrun, trivial⟩
  · obtain ⟨hne, hatom⟩ := ends_foldExpr_of_ok hstmt hc hd hg hg' ha hahead hstart hn hrun
    exact .inl ⟨ends_foldExpr_of_stack hstmt' hd hn hrun hne, hatom⟩

end Behind

end BlockLang.Parser
