import BlockLang.Proofs.Parser.Backtrack
import BlockLang.Proofs.Parser.Outcome
import BlockLang.Proofs.Parser.Turns

/-!
# The two reasons to stop

A source is parsed, or it is refused, or a number in it is too long, and nothing else
happens: `Fault.Allowed` lists the reasons, and every stop is for one of them.  So no run
ends for want of steps, at a place that the stream has not seen, or with no place to go
back to.

What rules the others out is the same in every state that a run reaches, and with
statements that are read to any depth of blocks (`Safe`):

* a place that was marked stays in the buffer, so that the way back to it stays open;
* a fold with anything on its stack has noted a place to go back to, and an operator
  takes its operands only where there are two;
* there is an error for each alternative, so that the furthest is chosen among some;
* a turn of a loop takes a token or is the last (`Advances`), so that the bound on turns
  is never what ends a loop (`runFrom_loop_eq`).
-/

namespace BlockLang

open StepM

/-- **The reasons to stop** on a source: the input is refused, or a number of the source has more
digits than are read. -/
inductive Fault.Allowed (source : String) : Fault → Prop
  | refused (e : ParseError) : Allowed source (.refused e)
  | digitLimit (n : Nat) (h : Token.HasLong (tokenize source) n) : Allowed source (.digitLimit n)

/-- The furthest error is one of those given, and none is further. -/
theorem ParseError.furthestOf_spec (e : ParseError) (es : List ParseError) :
    e.furthestOf es ∈ e :: es ∧ ∀ e' ∈ e :: es, e'.position ≤ (e.furthestOf es).position := by
  induction es generalizing e with
  | nil => exact ⟨List.mem_cons_self, fun e' he' => by rw [List.mem_singleton.1 he']; rfl⟩
  | cons x es ih =>
    rw [furthestOf]
    split
    next hlt =>
      obtain ⟨hmem, hle⟩ := ih x
      refine ⟨List.mem_cons_of_mem e hmem, List.forall_mem_cons.2 ⟨?_, hle⟩⟩
      exact Int.le_trans (Int.le_of_lt hlt) (hle x List.mem_cons_self)
    next hlt =>
      obtain ⟨hmem, hle⟩ := ih e
      obtain ⟨he, hes⟩ := List.forall_mem_cons.1 hle
      refine ⟨?_, List.forall_mem_cons.2 ⟨he, List.forall_mem_cons.2 ⟨?_, hes⟩⟩⟩
      · rcases List.mem_cons.1 hmem with heq | hmem
        · exact List.mem_cons.2 (.inl heq)
        · exact List.mem_cons_of_mem e (List.mem_cons_of_mem x hmem)
      · exact Int.le_trans (Int.not_lt.1 hlt) he

theorem Cursor.ReadStatements.pos_lt {c c' : Cursor} {t : Tree} (h : c.ReadStatements [t] c') :
    c.stream.pos < c'.stream.pos := by
  obtain ⟨halong, b, htrees, hahead, -⟩ := h
  simp only [Cursor.ahead, TokenStream.ahead, TokenStream.aheadAt, halong.stream.all_eq] at hahead
  exact (Parser.filter_between (Passage.tokens_ne_nil htrees) hahead).1

namespace Parser

variable {c c' : Cursor} {stmt : ParseM Tree} {turn : ParseM (Option Tree)}

/-! ### Loops -/

/-- **A loop** over statements.  Each turn gives one, or is the last. -/
def loop (turn : ParseM (Option Tree)) : Nat → ParseM (List Tree)
  | 0 => throw .outOfSteps
  | fuel + 1 => do
    match ← turn with
    | none => return []
    | some t => return t :: (← loop turn fuel)

/-- A turn of the loop over the statements of a program. -/
def programTurn : ParseM (Option Tree) := do
  if ← atEnd then return none
  else
    modify fun c => { c with failures := [] }
    return some (← statement)

/-- A turn of the loop over the statements of a block. -/
def blockTurn (statement : ParseM Tree) : ParseM (Option Tree) := do
  match ← peekNext with
  | none => return none
  | some t =>
    if t.kind = .closeBrace || t.kind = .eof then return none
    else Parser.optional statement

theorem statements_eq_loop (fuel : Nat) : statements fuel = loop programTurn fuel := by
  induction fuel with
  | zero => rfl
  | succ fuel ih =>
    rw [statements, loop, ih]
    conv_rhs => enter [1]; rw [programTurn]
    rw [bind_assoc]
    congr 1
    funext b
    cases b with
    | true => rfl
    | false => simp

theorem blockItems_eq_loop (stmt : ParseM Tree) (fuel : Nat) :
    blockItems stmt fuel = loop (blockTurn stmt) fuel := by
  induction fuel with
  | zero => rfl
  | succ fuel ih =>
    rw [blockItems, loop, ih]
    conv_rhs => enter [1]; rw [blockTurn]
    rw [bind_assoc]
    congr 1
    funext found
    cases found with
    | none => rfl
    | some t =>
      dsimp only
      split
      · rfl
      · rfl

/-- **A turn takes a token or is the last.** -/
def Advances (turn : ParseM (Option Tree)) : Prop :=
  ∀ c : Cursor, c.Fit → Ends turn c
    (fun r c' => c.Later c' ∧ (r.isSome = true → c.stream.pos < c'.stream.pos))
    (fun _ c' => c.Later c')

theorem advances_programTurn : Advances programTurn := by
  intro c hc
  unfold programTurn
  refine (ends_atEnd hc).andThen ?_
  intro b c₁ hlook
  have hstay : c.Stays c₁ := hlook.2
  cases b with
  | true => exact ends_pure.2 ⟨hstay.toLater, fun h => absurd h Bool.false_ne_true⟩
  | false =>
    simp only [Bool.false_eq_true, if_false]
    rw [ends_bind, ends_modify]
    have hstart : c.Stays { c₁ with failures := [] } :=
      ⟨⟨hstay.stream, hstay.grouping_eq⟩, hstay.pos_eq⟩
    refine (ends_statement _ (hstart.fit hc)).bind ?_ (fun _ _ h => hstart.toLater.trans h.toLater)
    intro t c₂ hread
    have hread' := hstart.readStatements hread
    exact ends_pure.2 ⟨hread'.1.toLater, fun _ => hread'.pos_lt⟩

theorem advances_blockTurn (hstmt : ReadsStatement stmt) : Advances (blockTurn stmt) := by
  intro c hc
  unfold blockTurn
  refine (ends_peekNext hc).andThen ?_
  intro found c₁ hlook
  have hstay : c.Stays c₁ := hlook.2
  have hlast : c.Later c₁
      ∧ ((none : Option Tree).isSome = true → c.stream.pos < c₁.stream.pos) :=
    ⟨hstay.toLater, fun h => absurd h Bool.false_ne_true⟩
  cases found with
  | none => exact ends_pure.2 hlast
  | some t =>
    dsimp only
    split
    · exact ends_pure.2 hlast
    · have hc₁ := hstay.fit hc
      refine (ends_optional hc₁ (hstmt c₁ hc₁)).mono ?_
        (fun _ _ h => hstay.toLater.trans h.toLater)
      intro r c₂ hread
      cases r with
      | none =>
        have hstay₂ : c₁.Stays c₂ := hread
        exact ⟨(hstay.trans hstay₂).toLater, fun h => absurd h Bool.false_ne_true⟩
      | some t =>
        have hread' := hstay.readStatements hread
        exact ⟨hread'.1.toLater, fun _ => hread'.pos_lt⟩

/-- **The bound on turns is no limit.**  A loop whose turns advance runs in the same way under any
bound that is more than the tokens that are left. -/
theorem runFrom_loop_eq (hturn : Advances turn) {fuel fuel' : Nat} (hc : c.Fit)
    (hfuel : c.stream.all.length - c.stream.pos < fuel)
    (hfuel' : c.stream.all.length - c.stream.pos < fuel') :
    runFrom (loop turn fuel) c = runFrom (loop turn fuel') c := by
  induction fuel generalizing fuel' c with
  | zero => omega
  | succ fuel ih =>
    obtain ⟨fuel', rfl⟩ : ∃ m, fuel' = m + 1 := ⟨fuel' - 1, by omega⟩
    rw [loop, loop, runFrom_bind, runFrom_bind]
    rcases hrun : runFrom turn c with ⟨fault | r, c₁⟩
    · rfl
    · obtain ⟨hlater, hpos⟩ := (hturn c hc).of_ok hrun
      cases r with
      | none => rfl
      | some t =>
        have hlt : c.stream.pos < c₁.stream.pos := hpos rfl
        have hle : c₁.stream.pos ≤ c₁.stream.all.length := by
          have hsize := hlater.stream.sound.pos_le
          rw [TokenStream.all, List.length_append, Array.length_toList]
          omega
        rw [hlater.stream.all_eq] at hle
        have hrest : runFrom (loop turn fuel) c₁ = runFrom (loop turn fuel') c₁ := by
          apply ih (hlater.fit hc)
          · rw [hlater.stream.all_eq]
            omega
          · rw [hlater.stream.all_eq]
            omega
        dsimp only
        rw [runFrom_bind, runFrom_bind, hrest]

/-! ### Operands -/

/-- **A place to go back to** is noted where there is anything on the stack, and it is in the
buffer. -/
def Folded.Noted (folded : Folded) (c : Cursor) : Prop :=
  folded.stack ≠ [] →
    ∃ mark e, folded.single = some (mark, e) ∧ mark ≤ c.stream.buffer.size

theorem Folded.Noted.later {folded : Folded} (h : folded.Noted c) (hc : c.Later c') :
    folded.Noted c' := by
  intro hne
  obtain ⟨mark, e, hsingle, hle⟩ := h hne
  exact ⟨mark, e, hsingle, Nat.le_trans hle hc.stream.buffer_le⟩

/-- One more expression on the stack: if it is the only one, its end is noted. -/
theorem Folded.Noted.pushed {folded : Folded} (h : folded.Noted c) (hc : c.Fit) (t : Tree) :
    (pushed folded c.stream.pos t).Noted c := by
  intro _
  by_cases hnil : folded.stack = []
  · exact ⟨c.stream.pos, t, if_pos hnil, hc.sound.pos_le⟩
  · obtain ⟨mark, e, hsingle, hle⟩ := h hnil
    exact ⟨mark, e, (if_neg hnil).trans hsingle, hle⟩

/-- **Folding keeps a place to go back to.** -/
theorem ends_foldItems_noted (hstmt : ReadsStatement stmt) (fuel : Nat) {folded : Folded}
    (hc : c.Fit) (h : folded.Noted c) :
    Ends (foldItems stmt fuel folded) c (fun folded c' => c.Later c' ∧ folded.Noted c')
      (fun _ c' => c.Later c') := by
  induction fuel generalizing c folded with
  | zero => exact ends_throw.2 hc.stays.toLater
  | succ fuel ih =>
    -- the turns to come, as they look from the start of this one
    have hgo : ∀ {f : Folded} {c' : Cursor}, c.Later c' → f.Noted c' →
        Ends (foldItems stmt fuel f) c' (fun f c'' => c.Later c'' ∧ f.Noted c'')
          (fun _ c'' => c.Later c'') := by
      intro f c' hlater hf
      exact (ih (hlater.fit hc) hf).mono (fun _ _ h => ⟨hlater.trans h.1, h.2⟩)
        (fun _ _ h => hlater.trans h)
    unfold foldItems
    refine (ends_peekNext hc).andThen ?_
    intro found c₁ hlook
    have hlater₁ : c.Later c₁ := hlook.2.toLater
    have hc₁ := hlater₁.fit hc
    have h₁ := h.later hlater₁
    cases found with
    | none => exact ends_pure.2 ⟨hlater₁, h₁⟩
    | some t =>
      dsimp only
      split
      · refine (ends_startsStatement hc₁ _).andThen ?_
        intro b c₂ hstay₂
        have hlater₂ := hlater₁.trans hstay₂.toLater
        have hc₂ := hlater₂.fit hc
        split
        · exact ends_pure.2 ⟨hlater₂, h.later hlater₂⟩
        · refine (ends_attempt hc₂ (ends_atom hstmt hc₂)).bind ?_
            (fun _ _ h => hlater₂.trans h.1.toLater)
          intro e c₃ hread
          have hlater₃ := hlater₂.trans hread.1.toLater
          rw [ends_bind, ends_settle_cons]
          exact hgo hlater₃ ((h.later hlater₃).pushed (hlater₃.fit hc) e)
      · split
        · rw [ends_position_bind]
          refine (ends_operator hc₁).bind ?_ (fun _ _ h => hlater₁.trans h.toLater)
          intro op c₂ hread
          have hlater₂ := hlater₁.trans hread.1.toLater
          have hc₂ := hlater₂.fit hc
          split
          next right left rest hstack =>
            have hrest : Folded.Noted ⟨rest, folded.single⟩ c₂ := by
              intro _
              apply h.later hlater₂
              rw [hstack]
              exact List.cons_ne_nil _ _
            rw [ends_bind, ends_settle_cons]
            exact hgo hlater₂ (hrest.pushed hc₂ _)
          · exact (ends_reject hc₂ _ _).mono (fun _ _ h => h)
              (fun _ _ h => hlater₂.trans h.2.toLater)
        · exact ends_pure.2 ⟨hlater₁, h₁⟩

theorem ends_operator_refused (hc : c.Fit) :
    Ends operator c (fun _ c' => c.Later c') (fun fault _ => fault.IsRefusal) := by
  unfold operator
  refine (ends_peekNext hc).andThen ?_
  intro found c₁ hlook
  have hstay : c.Stays c₁ := hlook.2
  have hc₁ := hstay.fit hc
  have hfail : ∀ problem at?, Ends (reject problem at? : ParseM Operator) c₁
      (fun _ c' => c.Later c') (fun fault _ => fault.IsRefusal) :=
    fun problem at? => (ends_reject hc₁ problem at?).mono (fun _ _ h => h) (fun _ _ h => h.1)
  cases found.filter Token.isOperator with
  | none => exact hfail _ _
  | some t =>
    dsimp only
    cases Operator.ofKind? t.kind with
    | none => exact hfail _ _
    | some op =>
      refine (ends_tag hc₁ t.kind).bind ?_ (fun _ _ h => h.1)
      intro _ c₂ htag
      exact ends_pure.2 (hstay.toLater.trans htag.1.toLater)

theorem ends_foldItems_short (fuel : Nat) {folded : Folded} {t : Token} (hc : c.Fit)
    (hshort : folded.stack.length < 2) (ht : c.ahead.head? = some t) (hop : t.isOperator = true) :
    Ends (foldItems stmt (fuel + 1) folded) c (fun _ _ => False)
      (fun fault _ => fault.IsRefusal) := by
  have hkind : (t.isOperand || t.kind = .openBrace) = false := by
    have hkinds : ∀ k : TokenKind, k.isOperator = true →
        (k.isOperand || k = .openBrace) = false := by
      intro k hk
      cases k <;> first | rfl | exact absurd hk Bool.false_ne_true
    exact hkinds t.kind hop
  unfold foldItems
  refine (ends_peekNext hc).andThen ?_
  rintro found c₁ ⟨hfound, hstay⟩
  rw [ht] at hfound
  subst hfound
  have hc₁ := hstay.fit hc
  simp only [hkind, hop, Bool.false_eq_true, if_false, if_true]
  rw [ends_position_bind]
  refine (ends_operator_refused hc₁).bind ?_ (fun _ _ h => h)
  intro op c₂ hlater
  split
  next right left rest hstack =>
    rw [hstack] at hshort
    exact absurd hshort (by simp)
  · exact (ends_reject (hlater.fit hc₁) _ _).mono (fun _ _ h => h) (fun _ _ h => h.1)

/-! ### Errors to choose from -/

theorem ends_firstOf_length (ps : List (ParseM Tree)) (c : Cursor) :
    Ends (firstOf ps) c (fun r _ => ∀ es, r = .error es → es.length = ps.length)
      (fun _ _ => True) := by
  induction ps generalizing c with
  | nil =>
    refine ends_pure.2 ?_
    intro es hes
    rw [← Except.error.inj hes]
    rfl
  | cons p ps ih =>
    unfold firstOf
    refine (ends_trivial (trial p) c).bind ?_ (fun _ _ h => h)
    intro r c₁ _
    cases r with
    | ok t => exact ends_pure.2 (fun es hes => absurd hes (by simp))
    | error e =>
      refine (ih c₁).bind ?_ (fun _ _ h => h)
      intro r c₂ hlength
      cases r with
      | ok t => exact ends_pure.2 (fun es hes => absurd hes (by simp))
      | error es =>
        refine ends_pure.2 ?_
        intro es' hes'
        rw [← Except.error.inj hes', List.length_cons, List.length_cons, hlength es rfl]

/-- What the error to report is chosen from: the errors given, and the furthest failure on record
if it is not from before `start`. -/
def candidates (e : ParseError) (others : List ParseError) (start : Nat) (c : Cursor) :
    List ParseError :=
  e :: (others ++ ((c.furthest.filter (fun f => (start : Int) ≤ f.position)).map
    ParseError.failed).toList)

theorem ends_bestError_spec (e : ParseError) (others : List ParseError) (start : Nat) (c : Cursor) :
    Ends (bestError e others start) c
      (fun best _ => best ∈ candidates e others start c
        ∧ ∀ e' ∈ candidates e others start c, e'.position ≤ best.position)
      (fun _ _ => False) := by
  unfold bestError
  rw [ends_get_bind]
  exact ends_pure.2 (ParseError.furthestOf_spec e _)

/-! ### What holds in every state -/

/-- **What keeps a run safe** in a state, with statements that are read by `stmt`. -/
structure Safe (stmt : ParseM Tree) (c : Cursor) : Prop where
  /-- The states to come are later ones. -/
  later : Ends stmt c (fun _ c' => c.Later c') (fun _ c' => c.Later c')
  /-- A place that is marked can be gone back to from every later state. -/
  reset : ∀ c', c.Later c' → ∃ s, c'.stream.reset c.stream.pos = some s
  /-- A fold that ends with anything on its stack has noted an expression, and its end can be gone
  back to. -/
  noted : ∀ fuel, Ends (foldItems stmt fuel {}) c
    (fun folded c' => folded.stack ≠ [] →
      ∃ mark e s, folded.single = some (mark, e) ∧ c'.stream.reset mark = some s)
    (fun _ _ => True)
  /-- An operator in front of which fewer than two operands are on the stack is refused. -/
  short : ∀ fuel folded t, folded.stack.length < 2 → c.ahead.head? = some t →
    t.isOperator = true →
    Ends (foldItems stmt (fuel + 1) folded) c (fun _ _ => False) (fun fault _ => fault.IsRefusal)
  /-- There is an error for each alternative that is refused. -/
  errors : ∀ ps, Ends (firstOf ps) c (fun r _ => ∀ es, r = .error es → es.length = ps.length)
    (fun _ _ => True)
  /-- The error to report is the furthest of some. -/
  best : ∀ e others start, Ends (bestError e others start) c
    (fun best _ => best ∈ candidates e others start c
      ∧ ∀ e' ∈ candidates e others start c, e'.position ≤ best.position)
    (fun _ _ => False)
  /-- The loop over the statements of a block takes turns, each of which takes a token or is the
  last, and the bound on turns is no limit. -/
  blockLoop : blockItems stmt = loop (blockTurn stmt)
  blockTurn : Ends (blockTurn stmt) c
    (fun r c' => r.isSome = true → c.stream.pos < c'.stream.pos) (fun _ _ => True)
  blockFuel : ∀ fuel fuel', c.stream.capacity < fuel → c.stream.capacity < fuel' →
    runFrom (blockItems stmt fuel) c = runFrom (blockItems stmt fuel') c
  /-- And so does the loop over the statements of a program. -/
  programLoop : statements = loop programTurn
  programTurn : Ends programTurn c
    (fun r c' => r.isSome = true → c.stream.pos < c'.stream.pos) (fun _ _ => True)
  programFuel : ∀ fuel fuel', c.stream.capacity < fuel → c.stream.capacity < fuel' →
    runFrom (statements fuel) c = runFrom (statements fuel') c

/-- **Every state is safe**, whatever parser of statements is used. -/
theorem safe_of_readsStatement (hstmt : ReadsStatement stmt) (hc : c.Fit) : Safe stmt c where
  later := (hstmt c hc).mono (fun _ _ h => h.1.toLater) (fun _ _ h => h.toLater)
  reset c' hlater := by
    obtain ⟨s, hs, -⟩ := TokenStream.reset_spec (hlater.fit hc).sound
      (Nat.le_trans hc.sound.pos_le hlater.stream.buffer_le)
    exact ⟨s, hs⟩
  noted fuel := by
    have hstart : Folded.Noted {} c := fun hne => absurd rfl hne
    refine (ends_foldItems_noted hstmt fuel hc hstart).mono ?_ (fun _ _ _ => trivial)
    intro folded c' h hne
    obtain ⟨hlater, hnoted⟩ := h
    obtain ⟨mark, e, hsingle, hle⟩ := hnoted hne
    obtain ⟨s, hs, -⟩ := TokenStream.reset_spec (hlater.fit hc).sound hle
    exact ⟨mark, e, s, hsingle, hs⟩
  short fuel folded t hshort ht hop := ends_foldItems_short fuel hc hshort ht hop
  errors ps := ends_firstOf_length ps c
  best e others start := ends_bestError_spec e others start c
  blockLoop := funext (blockItems_eq_loop stmt)
  blockTurn := (advances_blockTurn hstmt c hc).mono (fun _ _ h => h.2) (fun _ _ _ => trivial)
  blockFuel fuel fuel' hfuel hfuel' := by
    have hle := hc.length_le
    rw [blockItems_eq_loop, blockItems_eq_loop]
    exact runFrom_loop_eq (advances_blockTurn hstmt) hc (by omega) (by omega)
  programLoop := funext statements_eq_loop
  programTurn := (advances_programTurn c hc).mono (fun _ _ h => h.2) (fun _ _ _ => trivial)
  programFuel fuel fuel' hfuel hfuel' := by
    have hle := hc.length_le
    rw [statements_eq_loop, statements_eq_loop]
    exact runFrom_loop_eq advances_programTurn hc (by omega) (by omega)

/-- What agrees with itself and stops at the limit with reason stops for an allowed reason. -/
theorem ends_allowed {α β : Type} {V : α → Cursor → β → Cursor → Prop} {p : ParseM α} {q : ParseM β}
    {source : String} {g : Grouping} (hagree : Agree V p c q c) (hblames : Blames p)
    (hc : (Cursor.ofSource source g).Later c) :
    Ends p c (fun _ c' => c.Later c') (fun fault c' => c.Later c' ∧ fault.Allowed source) := by
  have hlong : ∀ n, Token.HasLong c.stream.all n → Token.HasLong (tokenize source) n := by
    intro n h
    obtain ⟨t, ht, hkind⟩ := h
    rw [hc.stream.all_eq, (perm_all_ofSource source g).mem_iff] at ht
    exact ⟨t, ht, hkind⟩
  cases hagree with
  | ok hp _ _ hlater => exact ends_iff.2 (.inl ⟨_, _, hp, hlater⟩)
  | error hp _ hfault hlater =>
    refine ends_iff.2 (.inr ⟨_, _, hp, hlater, ?_⟩)
    cases hfault with
    | refused e _ => exact .refused e
    | digitLimit n =>
      have hreason := ((hblames c (hc.fit (fit_ofSource source g))).of_error hp).2 n rfl
      exact .digitLimit n (hlong n hreason)

end Parser

/-- **Parsing stops for two reasons only.**  On every source and in either mode, a statement or a
program is given, or the input is refused, or a number of the source is too long.  From every state
that a run can reach, each construct of the grammar ends in the same way, in a state that a run can
reach; and whatever the depth of blocks, such a state is safe. -/
theorem parse_stops_allowed (source : String) (g : Grouping) :
    (∀ fault, parse source g = .error fault → fault.Allowed source)
      ∧ (∀ fault, parseProgram source g = .error fault → fault.Allowed source)
      ∧ ∀ c, (Cursor.ofSource source g).Later c →
        (∀ k : Parser.Construct, Ends k.parser c (fun _ c' => c.Later c')
          (fun fault c' => c.Later c' ∧ fault.Allowed source))
          ∧ ∀ depth, Parser.Safe (Parser.statementAt depth) c := by
  have hfit : (Cursor.ofSource source g).Fit := fit_ofSource source g
  have halike : (Cursor.ofSource source g).Alike (.ofSource source g) := alike_ofSource g rfl
  have hconstruct : ∀ c, (Cursor.ofSource source g).Later c → ∀ k : Parser.Construct,
      Ends k.parser c (fun _ c' => c.Later c')
        (fun fault c' => c.Later c' ∧ fault.Allowed source) := by
    intro c hc k
    have hself : c.Alike c := ⟨hc.fit hfit, hc.fit hfit, rfl, rfl⟩
    have hblames := Parser.closed_blames.of_construct k
    exact Parser.ends_allowed (Parser.agree_construct k hself) hblames hc
  refine ⟨?_, ?_, fun c hc => ⟨hconstruct c hc, fun depth => ?_⟩⟩
  · intro fault h
    obtain ⟨c', hrun⟩ := exists_runFrom h
    exact ((hconstruct _ hfit.stays.toLater .statement).of_error hrun).2
  · intro fault h
    obtain ⟨c', hrun⟩ := exists_runFrom h
    have hends := Parser.ends_allowed (Parser.agree_program halike) Parser.blames_program
      hfit.stays.toLater
    exact (hends.of_error hrun).2
  · exact Parser.safe_of_readsStatement (Parser.ends_statementAt depth) (hc.fit hfit)

set_option maxRecDepth 2000 in
/-- `{a b`, a block that is not closed, is refused.  The fold in it reads `a` and `b`, finds two expressions
on its stack and goes back to the end of the first. -/
theorem parse_stops_allowed_unclosed :
    parseProgram "\x7ba b" .byPrecedence
        = .error (.refused (.malformed (.failed ⟨.expected (.kind .closeBrace) (some .eof), 4⟩)))
      ∧ (Cursor.ofSource "\x7ba b" .byPrecedence).Later (.ofSource "\x7ba b" .byPrecedence)
      ∧ (∀ k : Parser.Construct, Ends k.parser (.ofSource "\x7ba b" .byPrecedence) (fun _ _ => True)
        (fun fault _ => fault.Allowed "\x7ba b"))
      ∧ Parser.Safe (Parser.statementAt 1) (.ofSource "\x7ba b" .byPrecedence) := by
  have hrun : parseProgram "\x7ba b" .byPrecedence
      = .error
        (.refused (.malformed (.failed ⟨.expected (.kind .closeBrace) (some .eof), 4⟩))) := by
    cbv
  have hfit : (Cursor.ofSource "\x7ba b" .byPrecedence).Fit :=
    fit_ofSource "\x7ba b" .byPrecedence
  have hlater := hfit.stays.toLater
  obtain ⟨hconstruct, hsafe⟩ := (parse_stops_allowed "\x7ba b" .byPrecedence).2.2 _ hlater
  refine ⟨hrun, hlater, fun k => ?_, hsafe 1⟩
  exact (hconstruct k).mono (fun _ _ _ => trivial) (fun _ _ h => h.2)

end BlockLang
