import BlockLang.Proofs.Parser.Accepted

/-!
# Parsing the same tokens

Two cursors are alike if they have the same tokens ahead, blanks left out.  Where the
blanks are and how many tokens lie behind differs, and so do the places of the tokens, the
marks that the parser goes back to and the bounds on its steps.  All the same the parser
does the same from both: `Agree` says of two parsers that they give results that belong
together and leave the cursors alike, or that both stop for the same reason.

The bounds on steps are counted out on the way.  Every turn of a loop takes a token, and
every block is inside a brace, so that tokens run out before steps do: no run ends for want
of steps, with no place to go back to, or at a place that it has not seen.
-/

namespace BlockLang

open StepM

/-- **Stopped alike**: both refuse the input, or both at the same limit on digits. -/
inductive Fault.Alike : Fault → Fault → Prop
  | refused (e e' : ParseError) : Alike (.refused e) (.refused e')
  | digitLimit (digits : Nat) : Alike (.digitLimit digits) (.digitLimit digits)

/-- **The same outcome**: the same result, or a stop for the same reason. -/
inductive SameOutcome {α : Type} : Except Fault α → Except Fault α → Prop
  | ok (a : α) : SameOutcome (.ok a) (.ok a)
  | error {fault fault' : Fault} (h : fault.Alike fault') :
    SameOutcome (.error fault) (.error fault')

namespace Cursor

variable {c c' d d' : Cursor} {t : Tree}

/-- **The same tokens ahead**, to be grouped in the same way. -/
structure Alike (c d : Cursor) : Prop where
  fit : c.Fit
  fit' : d.Fit
  grouping_eq : c.grouping = d.grouping
  ahead_eq : c.ahead = d.ahead

theorem Alike.later (h : c.Alike d) (hc : c.Later c') (hd : d.Later d')
    (hahead : c'.ahead = d'.ahead) : c'.Alike d' :=
  ⟨hc.fit h.fit, hd.fit h.fit', by rw [hc.grouping_eq, hd.grouping_eq, h.grouping_eq], hahead⟩

theorem ReadStatements.length_lt (h : c.ReadStatements [t] c') :
    c'.ahead.length < c.ahead.length := by
  obtain ⟨-, b, htrees, hahead, -⟩ := h
  have hpos := List.length_pos_iff.2 (Passage.tokens_ne_nil (p := c.grouping.placement) htrees)
  rw [hahead, List.length_append]
  omega

theorem ReadAtom.length_lt (h : c.ReadAtom t c') : c'.ahead.length < c.ahead.length := by
  obtain ⟨-, e, -, hahead, -⟩ := h
  obtain ⟨u, rest, hu, -⟩ := e.exists_head c.grouping.placement
  rw [hahead, hu, List.length_append, List.length_cons]
  omega

end Cursor

namespace Parser

variable {α β γ δ : Type} {c d : Cursor}

/-- **In agreement.**  From `c` and from `d`, the two parsers give results that `V` relates, with
the cursors they leave, and leave the same tokens ahead; or both stop, and stop alike. -/
inductive Agree (V : α → Cursor → β → Cursor → Prop) (p : ParseM α) (c : Cursor) (q : ParseM β)
    (d : Cursor) : Prop
  | ok {a : α} {b : β} {c' d' : Cursor} (hp : runFrom p c = (.ok a, c'))
      (hq : runFrom q d = (.ok b, d')) (hV : V a c' b d') (hc : c.Later c') (hd : d.Later d')
      (hahead : c'.ahead = d'.ahead)
  | error {fault fault' : Fault} {c' d' : Cursor} (hp : runFrom p c = (.error fault, c'))
      (hq : runFrom q d = (.error fault', d')) (hfault : fault.Alike fault') (hc : c.Later c')
      (hd : d.Later d')

/-- The same result, wherever the cursors are. -/
def Same (a : α) (_ : Cursor) (b : α) (_ : Cursor) : Prop :=
  a = b

/-! ### Ways of putting parsers together -/

section Rules

variable {V : α → Cursor → β → Cursor → Prop} {W : γ → Cursor → δ → Cursor → Prop}
  {p p' : ParseM α} {q q' : ParseM β} {f : α → ParseM γ} {g : β → ParseM δ}

theorem Agree.outcome {p q : ParseM α} (h : Agree Same p c q d) :
    SameOutcome (runFrom p c).1 (runFrom q d).1 := by
  cases h with
  | ok hp hq hV =>
    rw [hp, hq, hV]
    exact .ok _
  | error hp hq hfault =>
    rw [hp, hq]
    exact .error hfault

theorem Agree.of_runFrom (h : Agree V p' c q' d) (hp : runFrom p c = runFrom p' c)
    (hq : runFrom q d = runFrom q' d) : Agree V p c q d := by
  cases h with
  | ok hp' hq' hV hc hd hahead => exact .ok (hp.trans hp') (hq.trans hq') hV hc hd hahead
  | error hp' hq' hfault hc hd => exact .error (hp.trans hp') (hq.trans hq') hfault hc hd

/-- **One after the other**, where `hends` tells of the run of `p` what the rest needs. -/
theorem Agree.bind {Q : α → Cursor → Prop} {E : Fault → Cursor → Prop} (h : Agree V p c q d)
    (halike : c.Alike d) (hends : Ends p c Q E)
    (hf : ∀ a c' b d', V a c' b d' → Q a c' → c.Later c' → d.Later d' → c'.Alike d' →
      Agree W (f a) c' (g b) d') :
    Agree W (p >>= f) c (q >>= g) d := by
  cases h with
  | @ok a b c₁ d₁ hp hq hV hc hd hahead =>
    have hp' : runFrom (p >>= f) c = runFrom (f a) c₁ := by rw [runFrom_bind, hp]
    have hq' : runFrom (q >>= g) d = runFrom (g b) d₁ := by rw [runFrom_bind, hq]
    cases hf a c₁ b d₁ hV (hends.of_ok hp) hc hd (halike.later hc hd hahead) with
    | ok hrun hrun' hW hc' hd' hahead' =>
      exact .ok (hp'.trans hrun) (hq'.trans hrun') hW (hc.trans hc') (hd.trans hd') hahead'
    | error hrun hrun' hfault hc' hd' =>
      exact .error (hp'.trans hrun) (hq'.trans hrun') hfault (hc.trans hc') (hd.trans hd')
  | error hp hq hfault hc hd =>
    exact .error (by rw [runFrom_bind, hp]) (by rw [runFrom_bind, hq]) hfault hc hd

theorem Agree.andThen (h : Agree V p c q d) (halike : c.Alike d)
    (hf : ∀ a c' b d', V a c' b d' → c.Later c' → d.Later d' → c'.Alike d' →
      Agree W (f a) c' (g b) d') :
    Agree W (p >>= f) c (q >>= g) d :=
  h.bind halike (ends_trivial p c) (fun a c' b d' hV _ => hf a c' b d' hV)

theorem agree_pure (halike : c.Alike d) {a : α} {b : β} (hV : V a c b d) :
    Agree V (pure a) c (pure b) d :=
  .ok rfl rfl hV halike.fit.stays.toLater halike.fit'.stays.toLater halike.ahead_eq

theorem agree_throw (halike : c.Alike d) {fault fault' : Fault} (h : fault.Alike fault') :
    Agree V (throw fault) c (throw fault') d :=
  .error rfl rfl h halike.fit.stays.toLater halike.fit'.stays.toLater

theorem agree_of_refusal
    (hp : Ends p c (fun _ _ => False) (fun fault c' => fault.IsRefusal ∧ c.Later c'))
    (hq : Ends q d (fun _ _ => False) (fun fault d' => fault.IsRefusal ∧ d.Later d')) :
    Agree V p c q d := by
  rcases ends_iff.1 hp with ⟨_, _, -, hfalse⟩ | ⟨_, c', hp, ⟨e, rfl⟩, hc⟩
  · exact hfalse.elim
  · rcases ends_iff.1 hq with ⟨_, _, -, hfalse⟩ | ⟨_, d', hq, ⟨e', rfl⟩, hd⟩
    · exact hfalse.elim
    · exact .error hp hq (.refused e e') hc hd

theorem agree_reject (halike : c.Alike d) (problem problem' : Problem) (at? at?' : Option Int) :
    Agree V (reject problem at?) c (reject problem' at?') d :=
  agree_of_refusal
    ((ends_reject halike.fit _ _).mono (fun _ _ h => h) (fun _ _ h => ⟨h.1, h.2.toLater⟩))
    ((ends_reject halike.fit' _ _).mono (fun _ _ h => h) (fun _ _ h => ⟨h.1, h.2.toLater⟩))

theorem agree_position_bind {f : Nat → ParseM γ} {g : Nat → ParseM δ}
    (h : Agree W (f c.stream.pos) c (g d.stream.pos) d) :
    Agree W (position >>= f) c (position >>= g) d :=
  h.of_runFrom rfl rfl

theorem agree_capacity_bind {f : Nat → ParseM γ} {g : Nat → ParseM δ}
    (h : Agree W (f c.stream.capacity) c (g d.stream.capacity) d) :
    Agree W (capacity >>= f) c (capacity >>= g) d :=
  h.of_runFrom rfl rfl

theorem agree_get_bind {f : Cursor → ParseM γ} {g : Cursor → ParseM δ}
    (h : Agree W (f c) c (g d) d) : Agree W (get >>= f) c (get >>= g) d :=
  h.of_runFrom rfl rfl

end Rules

/-! ### Looking and moving -/

theorem agree_peekNext (halike : c.Alike d) : Agree Same peekNext c peekNext d := by
  obtain ⟨found, c', hp, rfl, hstay⟩ := (ends_peekNext halike.fit).exists_ok
  obtain ⟨found', d', hq, rfl, hstay'⟩ := (ends_peekNext halike.fit').exists_ok
  refine .ok hp hq (congrArg List.head? halike.ahead_eq) hstay.toLater hstay'.toLater ?_
  rw [hstay.ahead_eq, hstay'.ahead_eq, halike.ahead_eq]

theorem agree_startsAssignment (halike : c.Alike d) :
    Agree Same (onStream TokenStream.startsAssignment) c (onStream TokenStream.startsAssignment)
      d := by
  obtain ⟨b, c', hp, rfl, hstay⟩ := (ends_startsAssignment halike.fit).exists_ok
  obtain ⟨b', d', hq, rfl, hstay'⟩ := (ends_startsAssignment halike.fit').exists_ok
  refine .ok hp hq ?_ hstay.toLater hstay'.toLater ?_
  · rw [Same, halike.ahead_eq]
  · rw [hstay.ahead_eq, hstay'.ahead_eq, halike.ahead_eq]

theorem agree_rewind (halike : c.Alike d) {i j : Nat} (hi : i ≤ c.stream.buffer.size)
    (hj : j ≤ d.stream.buffer.size) (h : c.stream.aheadAt i = d.stream.aheadAt j) :
    Agree (fun _ _ _ _ => True) (rewind i) c (rewind j) d := by
  obtain ⟨_, c', hp, hc, hpos⟩ := (ends_rewind halike.fit hi).exists_ok
  obtain ⟨_, d', hq, hd, hpos'⟩ := (ends_rewind halike.fit' hj).exists_ok
  refine .ok hp hq trivial hc hd ?_
  rw [Cursor.ahead, Cursor.ahead, TokenStream.ahead, TokenStream.ahead, hpos, hpos',
    hc.stream.aheadAt_eq, hd.stream.aheadAt_eq, h]

theorem agree_takeOne (halike : c.Alike d) (p : Token → Bool) (want : Expectation) :
    Agree Same (takeOne p want) c (takeOne p want) d := by
  have hahead := halike.ahead_eq
  rcases ends_iff.1 (ends_takeOne halike.fit p want) with
    ⟨t, c', hp, halong, ht, hholds⟩ | ⟨_, c', hp, ⟨e, rfl⟩, hstay, hno⟩
  · rcases ends_iff.1 (ends_takeOne halike.fit' p want) with
      ⟨u, d', hq, halong', hu, -⟩ | ⟨_, d', hq, -, -, hno⟩
    · rw [ht, hu] at hahead
      obtain ⟨rfl, hrest⟩ := List.cons.inj hahead
      exact .ok hp hq rfl halong.toLater halong'.toLater hrest
    · exact absurd hholds (hno t (by rw [← hahead, ht]; rfl))
  · rcases ends_iff.1 (ends_takeOne halike.fit' p want) with
      ⟨u, d', hq, -, hu, hholds⟩ | ⟨_, d', hq, ⟨e', rfl⟩, hstay', -⟩
    · exact absurd hholds (hno u (by rw [hahead, hu]; rfl))
    · exact .error hp hq (.refused e e') hstay.toLater hstay'.toLater

theorem agree_tag (halike : c.Alike d) (k : TokenKind) : Agree Same (tag k) c (tag k) d :=
  agree_takeOne halike _ _

/-! ### Moving back -/

section MovingBack

variable {V : α → Cursor → β → Cursor → Prop} {p : ParseM α} {q : ParseM β}

theorem runFrom_position_bind (f : Nat → ParseM α) (c : Cursor) :
    runFrom (position >>= f) c = runFrom (f c.stream.pos) c := rfl

theorem runFrom_attempt_refused {c' : Cursor} {e : ParseError} (hc : c.Fit)
    (hp : runFrom p c = (.error (.refused e), c')) (hlater : c.Later c') :
    ∃ c₁, runFrom (attempt p) c = (.error (.refused e), c₁) ∧ c.Stays c₁ := by
  obtain ⟨_, c₁, hback, hlater₁, hpos⟩ := (ends_rewind (hlater.fit hc)
    (Nat.le_trans hc.sound.pos_le hlater.stream.buffer_le)).exists_ok
  refine ⟨c₁, ?_, ⟨hlater.trans hlater₁, hpos⟩⟩
  rw [attempt, runFrom_position_bind, runFrom_tryCatch, hp]
  dsimp only
  rw [runFrom_bind, hback]
  rfl

theorem runFrom_attempt_of_ne {r : Except Fault α} {c' : Cursor} (hp : runFrom p c = (r, c'))
    (hr : ∀ e, r ≠ .error (.refused e)) : runFrom (attempt p) c = (r, c') := by
  rw [attempt, runFrom_position_bind, runFrom_tryCatch, hp]
  rcases r with fault | a
  · cases fault with
    | refused e => exact absurd rfl (hr e)
    | _ => rfl
  · rfl

theorem Agree.attempt (h : Agree V p c q d) (halike : c.Alike d) :
    Agree V (attempt p) c (attempt q) d := by
  cases h with
  | ok hp hq hV hc hd hahead =>
    exact .ok (runFrom_attempt_of_ne hp (by simp)) (runFrom_attempt_of_ne hq (by simp)) hV hc hd
      hahead
  | error hp hq hfault hc hd =>
    cases hfault with
    | refused e e' =>
      obtain ⟨c₁, hp', hstay⟩ := runFrom_attempt_refused halike.fit hp hc
      obtain ⟨d₁, hq', hstay'⟩ := runFrom_attempt_refused halike.fit' hq hd
      exact .error hp' hq' (.refused e e') hstay.toLater hstay'.toLater
    | digitLimit n =>
      exact .error (runFrom_attempt_of_ne hp (by simp)) (runFrom_attempt_of_ne hq (by simp))
        (.digitLimit n) hc hd

/-- A parser tried answers a refusal, and stops where the parser stops for another reason. -/
theorem runFrom_trial (p : ParseM α) (c : Cursor) :
    runFrom (trial p) c = match runFrom (attempt p) c with
      | (.ok a, c') => (.ok (.ok a), c')
      | (.error (.refused e), c') => (.ok (.error e), c')
      | (.error fault, c') => (.error fault, c') := by
  rw [trial, runFrom_tryCatch, runFrom_bind]
  rcases runFrom (attempt p) c with ⟨fault | a, c'⟩
  · cases fault <;> rfl
  · rfl

/-- The answers of two parsers tried: the same result, or a refusal on both sides. -/
def SameAnswer {ε : Type} (r : Except ε α) (_ : Cursor) (r' : Except ε α) (_ : Cursor) : Prop :=
  r.toOption = r'.toOption

theorem Agree.trial {p q : ParseM α} (h : Agree Same p c q d) (halike : c.Alike d) :
    Agree SameAnswer (trial p) c (trial q) d := by
  cases h with
  | ok hp hq hV hc hd hahead =>
    have hp' := runFrom_attempt_of_ne hp (by simp)
    have hq' := runFrom_attempt_of_ne hq (by simp)
    refine .ok (by rw [runFrom_trial, hp']) (by rw [runFrom_trial, hq']) ?_ hc hd hahead
    exact congrArg some hV
  | error hp hq hfault hc hd =>
    cases hfault with
    | refused e e' =>
      obtain ⟨c₁, hp', hstay⟩ := runFrom_attempt_refused halike.fit hp hc
      obtain ⟨d₁, hq', hstay'⟩ := runFrom_attempt_refused halike.fit' hq hd
      refine .ok (by rw [runFrom_trial, hp']) (by rw [runFrom_trial, hq']) ?_ hstay.toLater
        hstay'.toLater (by rw [hstay.ahead_eq, hstay'.ahead_eq, halike.ahead_eq])
      exact rfl
    | digitLimit n =>
      have hp' := runFrom_attempt_of_ne hp (by simp)
      have hq' := runFrom_attempt_of_ne hq (by simp)
      exact .error (by rw [runFrom_trial, hp']) (by rw [runFrom_trial, hq']) (.digitLimit n) hc hd

theorem Agree.optional {p q : ParseM α} (h : Agree Same p c q d) (halike : c.Alike d) :
    Agree Same (Parser.optional p) c (Parser.optional q) d := by
  unfold Parser.optional
  refine (h.trial halike).andThen halike ?_
  rintro (e | a) c₁ (e' | b) d₁ hV - - halike₁
  · exact agree_pure halike₁ rfl
  · exact absurd hV (Option.some_ne_none _).symm
  · exact absurd hV (Option.some_ne_none _)
  · exact agree_pure halike₁ hV

end MovingBack

theorem agree_atEnd (halike : c.Alike d) : Agree Same atEnd c atEnd d := by
  unfold atEnd
  refine (agree_peekNext halike).andThen halike ?_
  rintro found c₁ _ d₁ rfl - - halike₁
  rcases found with _ | t
  · exact agree_pure halike₁ rfl
  · exact agree_pure halike₁ rfl

/-! ### The grammar -/

theorem agree_literal (halike : c.Alike d) : Agree Same literal c literal d := by
  unfold literal
  refine (agree_peekNext halike).andThen halike ?_
  rintro found c₁ _ d₁ rfl - - halike₁
  generalize found.filter (fun t => isLiteral t.kind) = literal?
  rcases literal? with _ | t
  · exact agree_reject halike₁ ..
  · refine agree_position_bind ((agree_tag halike₁ t.kind).andThen halike₁ ?_)
    rintro t c₂ _ d₂ rfl - - halike₂
    split
    · split
      · exact agree_pure halike₂ rfl
      · exact agree_reject halike₂ ..
    · split
      · exact agree_throw halike₂ (.digitLimit _)
      · split
        · exact agree_reject halike₂ ..
        · exact agree_pure halike₂ rfl

theorem agree_usage (halike : c.Alike d) : Agree Same usage c usage d := by
  refine (agree_tag halike .ident).andThen halike ?_
  rintro t c₁ _ d₁ rfl - - halike₁
  exact agree_pure halike₁ rfl

theorem agree_operator (halike : c.Alike d) : Agree Same operator c operator d := by
  unfold operator
  refine (agree_peekNext halike).andThen halike ?_
  rintro found c₁ _ d₁ rfl - - halike₁
  rcases found.filter Token.isOperator with _ | t
  · exact agree_reject halike₁ ..
  · dsimp only
    rcases Operator.ofKind? t.kind with _ | op
    · exact agree_reject halike₁ ..
    · refine (agree_tag halike₁ t.kind).andThen halike₁ ?_
      rintro _ c₂ _ d₂ - - - halike₂
      exact agree_pure halike₂ rfl

/-- **Statements agree** in front of fewer than `n` tokens. -/
structure AgreeWithin (n : Nat) (stmt stmt' : ParseM Tree) : Prop where
  reads : ReadsStatement stmt
  agree : ∀ c d : Cursor, c.Alike d → c.ahead.length < n → Agree Same stmt c stmt' d

section Statements

variable {n : Nat} {stmt stmt' : ParseM Tree}

/-- The statements of a block: each takes a token at least, so that no step is wanting. -/
theorem agree_blockItems (hstmt : AgreeWithin n stmt stmt') {fuel fuel' : Nat}
    (halike : c.Alike d) (hn : c.ahead.length < n) (hfuel : c.ahead.length < fuel)
    (hfuel' : c.ahead.length < fuel') :
    Agree Same (blockItems stmt fuel) c (blockItems stmt' fuel') d := by
  induction fuel generalizing fuel' c d with
  | zero => omega
  | succ fuel ih =>
    obtain ⟨fuel', rfl⟩ : ∃ m, fuel' = m + 1 := ⟨fuel' - 1, by omega⟩
    unfold blockItems
    refine (agree_peekNext halike).bind halike (ends_peekNext halike.fit) ?_
    rintro found c₁ _ d₁ rfl ⟨-, hstay⟩ - - halike₁
    rw [← hstay.ahead_eq] at hn hfuel hfuel'
    rcases found with _ | t
    · exact agree_pure halike₁ rfl
    · dsimp only
      split
      · exact agree_pure halike₁ rfl
      · have hread := ends_optional halike₁.fit (hstmt.reads c₁ halike₁.fit)
        refine ((hstmt.agree c₁ d₁ halike₁ hn).optional halike₁).bind halike₁ hread ?_
        rintro found c₂ _ d₂ rfl hread - - halike₂
        rcases found with _ | t
        · exact agree_pure halike₂ rfl
        · have hlt : c₂.ahead.length < c₁.ahead.length := Cursor.ReadStatements.length_lt hread
          refine (ih halike₂ (by omega) (by omega) (by omega)).andThen halike₂ ?_
          rintro ts c₃ _ d₃ rfl - - halike₃
          exact agree_pure halike₃ rfl

theorem agree_closeBlock (halike : c.Alike d) (start start' : Nat) :
    Agree Same (closeBlock start) c (closeBlock start') d := by
  unfold closeBlock
  refine ((agree_tag halike .closeBrace).trial halike).andThen halike ?_
  rintro (e | t) c₁ (e' | t') d₁ hV - - halike₁
  · exact agree_of_refusal
      ((ends_bestError e [] start halike₁.fit).andThen
        (fun _ _ h => ends_throw.2 ⟨⟨_, rfl⟩, h.toLater⟩))
      ((ends_bestError e' [] start' halike₁.fit').andThen
        (fun _ _ h => ends_throw.2 ⟨⟨_, rfl⟩, h.toLater⟩))
  · exact absurd hV (Option.some_ne_none _).symm
  · exact absurd hV (Option.some_ne_none _)
  · exact agree_pure halike₁ rfl

theorem agree_block (hstmt : AgreeWithin n stmt stmt') (halike : c.Alike d)
    (hn : c.ahead.length ≤ n) : Agree Same (block stmt) c (block stmt') d := by
  unfold block
  refine (agree_tag halike .openBrace).bind halike (ends_tag halike.fit .openBrace) ?_
  rintro t c₁ _ d₁ rfl ⟨-, hahead, -⟩ - - halike₁
  rw [hahead, List.length_cons] at hn
  have hroom := halike₁.fit.length_ahead_le
  have hroom' := halike₁.fit'.length_ahead_le
  rw [← halike₁.ahead_eq] at hroom'
  refine agree_position_bind (agree_capacity_bind ?_)
  refine (agree_blockItems hstmt halike₁ (by omega) (by omega) (by omega)).andThen halike₁ ?_
  rintro ts c₂ _ d₂ rfl - - halike₂
  refine (agree_closeBlock halike₂ _ _).andThen halike₂ ?_
  rintro _ c₃ _ d₃ - - - halike₃
  exact agree_pure halike₃ rfl

theorem agree_atom (hstmt : AgreeWithin n stmt stmt') (halike : c.Alike d)
    (hn : c.ahead.length ≤ n) : Agree Same (atom stmt) c (atom stmt') d := by
  unfold atom
  refine (agree_peekNext halike).bind halike (ends_peekNext halike.fit) ?_
  rintro found c₁ _ d₁ rfl ⟨-, hstay⟩ - - halike₁
  rw [← hstay.ahead_eq] at hn
  split
  · exact agree_literal halike₁
  · exact agree_literal halike₁
  · exact agree_usage halike₁
  · exact agree_block hstmt halike₁ hn
  · exact agree_reject halike₁ ..

theorem agree_chainItems (hstmt : AgreeWithin n stmt stmt') {fuel fuel' : Nat}
    (halike : c.Alike d) (hn : c.ahead.length ≤ n) (hfuel : c.ahead.length < fuel)
    (hfuel' : c.ahead.length < fuel') :
    Agree Same (chainItems stmt fuel) c (chainItems stmt' fuel') d := by
  induction fuel generalizing fuel' c d with
  | zero => omega
  | succ fuel ih =>
    obtain ⟨fuel', rfl⟩ : ∃ m, fuel' = m + 1 := ⟨fuel' - 1, by omega⟩
    unfold chainItems
    refine (agree_atom hstmt halike hn).bind halike (ends_atom hstmt.reads halike.fit) ?_
    rintro left c₁ _ d₁ rfl hread - - halike₁
    have hlt := hread.length_lt
    refine (agree_peekNext halike₁).bind halike₁ (ends_peekNext halike₁.fit) ?_
    rintro found c₂ _ d₂ rfl ⟨-, hstay⟩ - - halike₂
    rw [← hstay.ahead_eq] at hlt
    split
    · refine (agree_operator halike₂).bind halike₂ (ends_operator halike₂.fit) ?_
      rintro op c₃ _ d₃ rfl ⟨-, hahead⟩ - - halike₃
      rw [hahead, List.length_cons] at hlt
      refine (ih halike₃ (by omega) (by omega) (by omega)).andThen halike₃ ?_
      rintro right c₄ _ d₄ rfl - - halike₄
      exact agree_pure halike₄ rfl
    · exact agree_pure halike₂ rfl

/-- **Folds alike**: the same expressions on the stack, and where there are any, the same one noted
at places that have the same tokens ahead. -/
structure Folded.Alike (f : Folded) (c : Cursor) (f' : Folded) (d : Cursor) : Prop where
  stack_eq : f.stack = f'.stack
  single : f.stack ≠ [] → ∃ i j e, f.single = some (i, e) ∧ f'.single = some (j, e)
    ∧ i ≤ c.stream.buffer.size ∧ j ≤ d.stream.buffer.size
    ∧ c.stream.aheadAt i = d.stream.aheadAt j

theorem Folded.Alike.later {f f' : Folded} {c' d' : Cursor} (h : f.Alike c f' d)
    (hc : c.Later c') (hd : d.Later d') : f.Alike c' f' d' := by
  refine ⟨h.stack_eq, fun hne => ?_⟩
  obtain ⟨i, j, e, hf, hf', hi, hj, hahead⟩ := h.single hne
  refine ⟨i, j, e, hf, hf', Nat.le_trans hi hc.stream.buffer_le,
    Nat.le_trans hj hd.stream.buffer_le, ?_⟩
  rw [hc.stream.aheadAt_eq, hd.stream.aheadAt_eq, hahead]

theorem Folded.Alike.pushed {stack : List Tree} {single single' : Option (Nat × Tree)}
    (halike : c.Alike d) (h : Folded.Alike ⟨stack, single⟩ c ⟨stack, single'⟩ d) (t : Tree) :
    Folded.Alike (pushed ⟨stack, single⟩ c.stream.pos t) c (pushed ⟨stack, single'⟩ d.stream.pos t)
      d := by
  refine ⟨rfl, fun _ => ?_⟩
  by_cases hnil : stack = []
  · exact ⟨c.stream.pos, d.stream.pos, t, if_pos hnil, if_pos hnil, halike.fit.sound.pos_le,
      halike.fit'.sound.pos_le, halike.ahead_eq⟩
  · obtain ⟨i, j, e, hf, hf', hbounds⟩ := h.single hnil
    exact ⟨i, j, e, (if_neg hnil).trans hf, (if_neg hnil).trans hf', hbounds⟩

theorem agree_settle_bind {W : γ → Cursor → δ → Cursor → Prop} {f : Folded → ParseM γ}
    {g : Folded → ParseM δ} {t : Tree} {stack : List Tree} {single single' : Option (Nat × Tree)}
    (h : Agree W (f (pushed ⟨stack, single⟩ c.stream.pos t)) c
      (g (pushed ⟨stack, single'⟩ d.stream.pos t)) d) :
    Agree W (Folded.settle (t :: stack) single >>= f) c (Folded.settle (t :: stack) single' >>= g)
      d := by
  cases stack with
  | nil => exact h.of_runFrom rfl rfl
  | cons u stack => exact h.of_runFrom rfl rfl

theorem agree_startsStatement (halike : c.Alike d) (stack : List Tree) :
    Agree Same (startsStatement stack) c (startsStatement stack) d := by
  unfold startsStatement
  split
  · exact agree_pure halike rfl
  · exact agree_startsAssignment halike

theorem agree_foldItems (hstmt : AgreeWithin n stmt stmt') {fuel fuel' : Nat} {f f' : Folded}
    (halike : c.Alike d) (hf : f.Alike c f' d) (hn : c.ahead.length ≤ n)
    (hfuel : c.ahead.length < fuel) (hfuel' : c.ahead.length < fuel') :
    Agree Folded.Alike (foldItems stmt fuel f) c (foldItems stmt' fuel' f') d := by
  induction fuel generalizing fuel' c d f f' with
  | zero => omega
  | succ fuel ih =>
    obtain ⟨fuel', rfl⟩ : ∃ m, fuel' = m + 1 := ⟨fuel' - 1, by omega⟩
    obtain ⟨stack, single⟩ := f
    obtain ⟨_, single'⟩ := f'
    obtain rfl : stack = _ := hf.stack_eq
    unfold foldItems
    refine (agree_peekNext halike).bind halike (ends_peekNext halike.fit) ?_
    rintro found c₁ _ d₁ rfl ⟨-, hstay⟩ hc₁ hd₁ halike₁
    have hf₁ := hf.later hc₁ hd₁
    rw [← hstay.ahead_eq] at hn hfuel hfuel'
    rcases found with _ | t
    · exact agree_pure halike₁ hf₁
    · dsimp only
      split
      · refine (agree_startsStatement halike₁ stack).bind halike₁
          (ends_startsStatement halike₁.fit stack) ?_
        rintro starts c₂ _ d₂ rfl hstay₂ hc₂ hd₂ halike₂
        have hf₂ := hf₁.later hc₂ hd₂
        rw [← hstay₂.ahead_eq] at hn hfuel hfuel'
        split
        · exact agree_pure halike₂ hf₂
        · have hread := ends_attempt halike₂.fit (ends_atom hstmt.reads halike₂.fit)
          refine ((agree_atom hstmt halike₂ hn).attempt halike₂).bind halike₂ hread ?_
          rintro e c₃ _ d₃ rfl hread hc₃ hd₃ halike₃
          have hlt := hread.length_lt
          exact agree_settle_bind (ih halike₃ ((hf₂.later hc₃ hd₃).pushed halike₃ e) (by omega)
            (by omega) (by omega))
      · split
        · refine agree_position_bind ?_
          refine (agree_operator halike₁).bind halike₁ (ends_operator halike₁.fit) ?_
          rintro op c₂ _ d₂ rfl ⟨-, hahead⟩ hc₂ hd₂ halike₂
          have hf₂ := hf₁.later hc₂ hd₂
          rw [hahead, List.length_cons] at hn hfuel hfuel'
          split
          next right left rest =>
            have hrest : Folded.Alike ⟨rest, single⟩ c₂ ⟨rest, single'⟩ d₂ :=
              ⟨rfl, fun _ => hf₂.single (List.cons_ne_nil _ _)⟩
            exact agree_settle_bind (ih halike₂ (hrest.pushed halike₂ _) (by omega) (by omega)
              (by omega))
          · exact agree_reject halike₂ ..
        · exact agree_pure halike₁ hf₁

theorem agree_foldExpr (hstmt : AgreeWithin n stmt stmt') (halike : c.Alike d)
    (hn : c.ahead.length ≤ n) : Agree Same (foldExpr stmt) c (foldExpr stmt') d := by
  have hroom := halike.fit.length_ahead_le
  have hroom' := halike.fit'.length_ahead_le
  rw [← halike.ahead_eq] at hroom'
  unfold foldExpr
  refine agree_capacity_bind ?_
  have hstart : Folded.Alike {} c {} d := ⟨rfl, fun h => absurd rfl h⟩
  refine (agree_foldItems hstmt halike hstart hn (by omega) (by omega)).andThen halike ?_
  rintro ⟨stack, single⟩ c₁ ⟨_, single'⟩ d₁ hf - - halike₁
  obtain rfl : stack = _ := hf.stack_eq
  dsimp only
  split
  · refine (agree_peekNext halike₁).andThen halike₁ ?_
    rintro found c₂ _ d₂ rfl - - halike₂
    exact agree_reject halike₂ ..
  · exact agree_pure halike₁ rfl
  next hnil _ =>
    obtain ⟨i, j, e, hi, hj, hle, hle', hahead⟩ := hf.single (fun h => hnil h)
    have hi : single = some (i, e) := hi
    have hj : single' = some (j, e) := hj
    rw [hi, hj]
    refine (agree_rewind halike₁ hle hle' hahead).andThen halike₁ ?_
    rintro _ c₂ _ d₂ - - - halike₂
    exact agree_pure halike₂ rfl

theorem agree_expr (hstmt : AgreeWithin n stmt stmt') (halike : c.Alike d)
    (hn : c.ahead.length ≤ n) : Agree Same (expr stmt) c (expr stmt') d := by
  have hroom := halike.fit.length_ahead_le
  have hroom' := halike.fit'.length_ahead_le
  rw [← halike.ahead_eq] at hroom'
  have hgrouping := halike.grouping_eq
  unfold expr
  refine agree_get_bind ?_
  rw [← hgrouping]
  cases c.grouping with
  | byPrecedence => exact agree_foldExpr hstmt halike hn
  | rightward =>
    exact agree_capacity_bind (agree_chainItems hstmt halike hn (by omega) (by omega))

theorem agree_value (hstmt : AgreeWithin n stmt stmt') (halike : c.Alike d)
    (hn : c.ahead.length ≤ n) (make : Tree → Tree) :
    Agree Same
      (do
        let value ← expr stmt
        let _ ← tag .semi
        return make value) c
      (do
        let value ← expr stmt'
        let _ ← tag .semi
        return make value) d := by
  refine (agree_expr hstmt halike hn).andThen halike ?_
  rintro value c₁ _ d₁ rfl - - halike₁
  refine (agree_tag halike₁ .semi).andThen halike₁ ?_
  rintro _ c₂ _ d₂ - - - halike₂
  exact agree_pure halike₂ rfl

theorem agree_binding (hstmt : AgreeWithin n stmt stmt') (halike : c.Alike d)
    (hn : c.ahead.length ≤ n) : Agree Same (binding stmt) c (binding stmt') d := by
  unfold binding
  refine (agree_tag halike .letWord).bind halike (ends_tag halike.fit .letWord) ?_
  rintro _ c₁ _ d₁ - ⟨-, hahead, -⟩ - - halike₁
  rw [hahead, List.length_cons] at hn
  refine (agree_tag halike₁ .ident).bind halike₁ (ends_tag halike₁.fit .ident) ?_
  rintro name c₂ _ d₂ rfl ⟨-, hahead, -⟩ - - halike₂
  rw [hahead, List.length_cons] at hn
  refine (agree_peekNext halike₂).bind halike₂ (ends_peekNext halike₂.fit) ?_
  rintro found c₃ _ d₃ rfl ⟨-, hstay⟩ - - halike₃
  rw [← hstay.ahead_eq] at hn
  split
  · refine (agree_tag halike₃ .semi).andThen halike₃ ?_
    rintro _ c₄ _ d₄ - - - halike₄
    exact agree_pure halike₄ rfl
  · refine (agree_tag halike₃ .equals).bind halike₃ (ends_tag halike₃.fit .equals) ?_
    rintro _ c₄ _ d₄ - ⟨-, hahead, -⟩ - - halike₄
    rw [hahead, List.length_cons] at hn
    exact agree_value hstmt halike₄ (by omega) _

theorem agree_assignment (hstmt : AgreeWithin n stmt stmt') (halike : c.Alike d)
    (hn : c.ahead.length ≤ n) : Agree Same (assignment stmt) c (assignment stmt') d := by
  unfold assignment
  refine (agree_tag halike .ident).bind halike (ends_tag halike.fit .ident) ?_
  rintro name c₁ _ d₁ rfl ⟨-, hahead, -⟩ - - halike₁
  rw [hahead, List.length_cons] at hn
  refine (agree_tag halike₁ .equals).bind halike₁ (ends_tag halike₁.fit .equals) ?_
  rintro _ c₂ _ d₂ - ⟨-, hahead, -⟩ - - halike₂
  rw [hahead, List.length_cons] at hn
  exact agree_value hstmt halike₂ (by omega) _

theorem agree_exprStatement (hstmt : AgreeWithin n stmt stmt') (halike : c.Alike d)
    (hn : c.ahead.length ≤ n) : Agree Same (exprStatement stmt) c (exprStatement stmt') d := by
  unfold exprStatement
  refine (agree_expr hstmt halike hn).andThen halike ?_
  rintro e c₁ _ d₁ rfl - - halike₁
  refine ((agree_tag halike₁ .semi).optional halike₁).andThen halike₁ ?_
  rintro _ c₂ _ d₂ - - - halike₂
  exact agree_pure halike₂ rfl

theorem agree_firstOf {ps ps' : List (ParseM Tree)} (h : List.Forall₂ (AgreeWithin n) ps ps')
    (halike : c.Alike d) (hn : c.ahead.length < n) :
    Agree SameAnswer (firstOf ps) c (firstOf ps') d := by
  induction h generalizing c d with
  | nil => exact agree_pure halike rfl
  | @cons p p' ps ps' hp hps ih =>
    unfold firstOf
    refine ((hp.agree c d halike hn).trial halike).bind halike
      (ends_trial halike.fit (hp.reads c halike.fit)) ?_
    rintro (e | t) c₁ (e' | t') d₁ hV h₁ - - halike₁
    · have hstay : c.Stays c₁ := h₁
      refine (ih halike₁ (by rw [hstay.ahead_eq]; exact hn)).andThen halike₁ ?_
      rintro (es | t) c₂ (es' | t') d₂ hV - - halike₂
      · exact agree_pure halike₂ rfl
      · exact absurd hV (Option.some_ne_none _).symm
      · exact absurd hV (Option.some_ne_none _)
      · exact agree_pure halike₂ hV
    · exact absurd hV (Option.some_ne_none _).symm
    · exact absurd hV (Option.some_ne_none _)
    · exact agree_pure halike₁ hV

theorem ends_malformed (hc : c.Fit) (bindingError : ParseError) (errors : List ParseError)
    (start : Nat) :
    Ends (do
        let best ←
          match errors with
          | [] => bestError bindingError [] start
          | e :: es => bestError e (es ++ [bindingError]) start
        throw (.refused (.malformed best)) : ParseM Tree) c
      (fun _ _ => False) (fun fault c' => fault.IsRefusal ∧ c.Later c') := by
  rcases errors with _ | ⟨e, es⟩
  · exact (ends_bestError _ _ _ hc).andThen (fun _ _ h => ends_throw.2 ⟨⟨_, rfl⟩, h.toLater⟩)
  · exact (ends_bestError _ _ _ hc).andThen (fun _ _ h => ends_throw.2 ⟨⟨_, rfl⟩, h.toLater⟩)

theorem AgreeWithin.statementWith (hstmt : AgreeWithin n stmt stmt') :
    AgreeWithin (n + 1) (statementWith stmt) (statementWith stmt') := by
  have hassignment : AgreeWithin (n + 1) (assignment stmt) (assignment stmt') :=
    ⟨fun c hc => ends_assignment hstmt.reads hc,
      fun c d halike hn => agree_assignment hstmt halike (Nat.le_of_lt_succ hn)⟩
  have hexpr : AgreeWithin (n + 1) (exprStatement stmt) (exprStatement stmt') :=
    ⟨fun c hc => ends_exprStatement hstmt.reads hc,
      fun c d halike hn => agree_exprStatement hstmt halike (Nat.le_of_lt_succ hn)⟩
  refine ⟨ends_statementWith hstmt.reads, fun c d halike hn => ?_⟩
  unfold Parser.statementWith
  refine agree_position_bind ?_
  refine (agree_startsAssignment halike).bind halike (ends_startsAssignment halike.fit) ?_
  rintro assigns c₁ _ d₁ rfl ⟨-, hstay₁⟩ - - halike₁
  rw [← hstay₁.ahead_eq] at hn
  refine ((agree_binding hstmt halike₁ (Nat.le_of_lt_succ hn)).trial halike₁).bind halike₁
    (ends_trial halike₁.fit (ends_binding hstmt.reads halike₁.fit)) ?_
  rintro (e | t) c₂ (e' | t') d₂ hV h₂ - - halike₂
  · have hstay₂ : c₁.Stays c₂ := h₂
    rw [← hstay₂.ahead_eq] at hn
    have hothers : List.Forall₂ (AgreeWithin (n + 1))
        (if assigns then [assignment stmt, exprStatement stmt] else [exprStatement stmt])
        (if assigns then [assignment stmt', exprStatement stmt'] else [exprStatement stmt']) := by
      cases assigns with
      | true => exact .cons hassignment (.cons hexpr .nil)
      | false => exact .cons hexpr .nil
    refine (agree_firstOf hothers halike₂ hn).andThen halike₂ ?_
    rintro (es | t) c₃ (es' | t') d₃ hV - - halike₃
    · exact agree_of_refusal (ends_malformed halike₃.fit e es _)
        (ends_malformed halike₃.fit' e' es' _)
    · exact absurd hV (Option.some_ne_none _).symm
    · exact absurd hV (Option.some_ne_none _)
    · exact agree_pure halike₃ (Option.some.inj hV)
  · exact absurd hV (Option.some_ne_none _).symm
  · exact absurd hV (Option.some_ne_none _)
  · exact agree_pure halike₂ (Option.some.inj hV)

end Statements

/-- **Statements at any depths**: the tokens ahead bound the depth of blocks that is reached. -/
theorem agreeWithin_statementAt {n depth depth' : Nat} (h : n ≤ depth) (h' : n ≤ depth') :
    AgreeWithin n (statementAt depth) (statementAt depth') := by
  induction n generalizing depth depth' with
  | zero => exact ⟨ends_statementAt depth, fun _ _ _ hn => absurd hn (Nat.not_lt_zero _)⟩
  | succ n ih =>
    obtain ⟨depth, rfl⟩ : ∃ m, depth = m + 1 := ⟨depth - 1, by omega⟩
    obtain ⟨depth', rfl⟩ : ∃ m, depth' = m + 1 := ⟨depth' - 1, by omega⟩
    exact (ih (Nat.le_of_succ_le_succ h) (Nat.le_of_succ_le_succ h')).statementWith

theorem agree_statement (halike : c.Alike d) : Agree Same statement c statement d := by
  have hroom := halike.fit.length_ahead_le
  have hroom' := halike.fit'.length_ahead_le
  rw [← halike.ahead_eq] at hroom'
  refine agree_capacity_bind ?_
  exact (agreeWithin_statementAt (n := c.ahead.length + 1) (by omega) (by omega)).agree c d halike
    (Nat.lt_succ_self _)

theorem agree_statements {fuel fuel' : Nat} (halike : c.Alike d) (hfuel : c.ahead.length < fuel)
    (hfuel' : c.ahead.length < fuel') :
    Agree Same (statements fuel) c (statements fuel') d := by
  induction fuel generalizing fuel' c d with
  | zero => omega
  | succ fuel ih =>
    obtain ⟨fuel', rfl⟩ : ∃ m, fuel' = m + 1 := ⟨fuel' - 1, by omega⟩
    unfold statements
    refine (agree_atEnd halike).bind halike (ends_atEnd halike.fit) ?_
    rintro b c₁ _ d₁ rfl ⟨-, hstay₁⟩ - - halike₁
    rw [← hstay₁.ahead_eq] at hfuel hfuel'
    split
    · exact agree_pure halike₁ rfl
    · have hforget : Agree (fun _ _ _ _ => True) (modify fun c => { c with failures := [] }) c₁
          (modify fun c => { c with failures := [] }) d₁ :=
        .ok rfl rfl trivial ⟨halike₁.fit.sound.along, rfl⟩ ⟨halike₁.fit'.sound.along, rfl⟩
          halike₁.ahead_eq
      refine hforget.bind (Q := fun _ c' => c'.ahead = c₁.ahead) (E := fun _ _ => False) halike₁
        (ends_modify.2 rfl) ?_
      rintro _ c₂ _ d₂ - hahead - - halike₂
      refine (agree_statement halike₂).bind halike₂ (ends_statement c₂ halike₂.fit) ?_
      rintro t c₃ _ d₃ rfl hread - - halike₃
      have hlt := hread.length_lt
      rw [hahead] at hlt
      refine (ih halike₃ (by omega) (by omega)).andThen halike₃ ?_
      rintro ts c₄ _ d₄ rfl - - halike₄
      exact agree_pure halike₄ rfl

theorem agree_program (halike : c.Alike d) : Agree Same program c program d := by
  have hroom := halike.fit.length_ahead_le
  have hroom' := halike.fit'.length_ahead_le
  rw [← halike.ahead_eq] at hroom'
  exact agree_capacity_bind (agree_statements halike (by omega) (by omega))

end Parser

theorem alike_ofSource {source source' : String} (g : Grouping)
    (h : (tokenize source).filter Token.counts = (tokenize source').filter Token.counts) :
    (Cursor.ofSource source g).Alike (.ofSource source' g) := by
  refine ⟨fit_ofSource source g, fit_ofSource source' g, rfl, ?_⟩
  rw [filter_counts_tokenize, filter_counts_tokenize] at h
  have htokens := List.append_cancel_right h
  cases g with
  | byPrecedence =>
    exact (ahead_ofSource_byPrecedence source).trans
      (htokens ▸ (ahead_ofSource_byPrecedence source').symm)
  | rightward =>
    exact (ahead_ofSource_rightward source).trans
      (htokens ▸ (ahead_ofSource_rightward source').symm)

/-- **Blanks never change what is parsed.**  Two sources with the same tokens, blanks left out, are
both accepted with the same result, or both refused, or both stopped at the limit on digits, as
programs and as first statements. -/
theorem sameOutcome_of_filter_counts {source source' : String} (g : Grouping)
    (h : (tokenize source).filter Token.counts = (tokenize source').filter Token.counts) :
    SameOutcome (parseProgram source g) (parseProgram source' g)
      ∧ SameOutcome (parse source g) (parse source' g) :=
  ⟨(Parser.agree_program (alike_ofSource g h)).outcome,
    (Parser.agree_statement (alike_ofSource g h)).outcome⟩

/-- In `1 + { a = 2 ; } b c`, only the blank that keeps two names apart is needed. -/
theorem sameOutcome_spread :
    (tokenize "1+\x7ba=2;\x7db c").filter Token.counts
        = (tokenize " 1 + \x7b a =\t2 ; \x7d b\n\n c ").filter Token.counts
      ∧ SameOutcome (parseProgram "1+\x7ba=2;\x7db c" .byPrecedence)
        (parseProgram " 1 + \x7b a =\t2 ; \x7d b\n\n c " .byPrecedence)
      ∧ SameOutcome (parse "1+\x7ba=2;\x7db c" .byPrecedence)
        (parse " 1 + \x7b a =\t2 ; \x7d b\n\n c " .byPrecedence) := by
  have h : (tokenize "1+\x7ba=2;\x7db c").filter Token.counts
      = (tokenize " 1 + \x7b a =\t2 ; \x7d b\n\n c ").filter Token.counts := by
    decide
  exact ⟨h, sameOutcome_of_filter_counts .byPrecedence h⟩

end BlockLang
