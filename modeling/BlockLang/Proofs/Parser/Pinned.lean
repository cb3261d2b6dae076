import BlockLang.Proofs.Parser.Safety

/-!
# Where failures point

A failure that names the kind of a token which was found there names the next token that
is no blank, counted from its own place (`Failure.PointsInto`).  Where a token of some kind
was looked for, the blanks were taken first, and the place is the token's own.  In all other
cases it is the place in front of the blanks.

No failure lies in front of the place where its statement started: the parser never goes
back further, and the places that it notes are places where it has been.

Both hold of all failures on record in every state, `Cursor.Pinned`, and every construct
keeps them (`Keeps`).  And every error with which a construct refuses is on record: an
expression refuses with a failure, and a statement with a malformed statement, the cause of
which is one.
-/

namespace BlockLang

open StepM

/-- **What a failure points at.**  The kind of token that it names is the kind of the next token that
counts; and of the token at its place, if a kind was looked for. -/
structure Failure.PointsInto (all : List Token) (f : Failure) : Prop where
  ahead : ∀ k, f.problem.found = some k →
    ((all.drop f.position.toNat).filter Token.counts).head?.map Token.kind = some k
  at_place : ∀ k want, f.problem.found = some k → f.problem.wanted = some (.kind want) →
    (all[f.position.toNat]?).map Token.kind = some k

theorem Failure.pointsInto_of_found {all : List Token} {f : Failure} (h : f.problem.found = none) :
    f.PointsInto all where
  ahead k hk := by rw [h] at hk; cases hk
  at_place k want hk _ := by rw [h] at hk; cases hk

namespace Cursor

variable {start : Nat} {c c' c'' : Cursor}

/-- **A cursor behind `start`**, with no failure on record in front of it, and all of them pointing
at what they name. -/
structure Pinned (start : Nat) (c : Cursor) : Prop where
  fit : c.Fit
  le_pos : start ≤ c.stream.pos
  failures : ∀ f ∈ c.failures, (start : Int) ≤ f.position ∧ f.PointsInto c.stream.all

/-- **A later state** that is pinned, with nothing forgotten. -/
structure Onward (start : Nat) (c c' : Cursor) : Prop extends Later c c' where
  pinned : c'.Pinned start
  recorded : c.failures ⊆ c'.failures

theorem Fit.pinned (h : c.Fit) (hnone : c.failures = []) : c.Pinned c.stream.pos := by
  refine ⟨h, Nat.le_refl _, fun f hf => ?_⟩
  rw [hnone] at hf
  cases hf

theorem Pinned.onward (h : c.Pinned start) : c.Onward start c :=
  ⟨h.fit.stays.toLater, h, List.Subset.refl _⟩

theorem Onward.trans (h : c.Onward start c') (h' : c'.Onward start c'') : c.Onward start c'' :=
  ⟨h.toLater.trans h'.toLater, h'.pinned, List.Subset.trans h.recorded h'.recorded⟩

theorem Pinned.moved (h : c.Pinned start) (hlater : c.Later c') (hpos : start ≤ c'.stream.pos)
    (hfailures : c'.failures = c.failures) : c.Onward start c' where
  toLater := hlater
  pinned := by
    refine ⟨hlater.fit h.fit, hpos, ?_⟩
    rw [hfailures, hlater.stream.all_eq]
    exact h.failures
  recorded := by rw [hfailures]; exact List.Subset.refl _

theorem Pinned.record (h : c.Pinned start) {f : Failure} (hlater : c.Later c')
    (hle : start ≤ c'.stream.pos) (hfailures : c'.failures = f :: c.failures)
    (hpos : (start : Int) ≤ f.position) (hf : f.PointsInto c.stream.all) : c.Onward start c' where
  toLater := hlater
  pinned := by
    refine ⟨hlater.fit h.fit, hle, ?_⟩
    rw [hfailures, hlater.stream.all_eq]
    exact List.forall_mem_cons.2 ⟨⟨hpos, hf⟩, h.failures⟩
  recorded := by rw [hfailures]; exact List.subset_cons_self f _

theorem pointsInto_ahead (c : Cursor) {problem : Problem}
    (hfound : problem.found = c.ahead.head?.map Token.kind)
    (hwanted : ∀ k, problem.wanted ≠ some (.kind k)) :
    Failure.PointsInto c.stream.all ⟨problem, c.stream.pos⟩ where
  ahead _ hk := hfound.symm.trans hk
  at_place _ want _ hwant := absurd hwant (hwanted want)

end Cursor

/-- **Refused for a failure on record**, in the given shape. -/
def Fault.Recorded (shape : Failure → ParseError) (fault : Fault) (c : Cursor) : Prop :=
  ∀ e, fault = .refused e → ∃ f ∈ c.failures, e = shape f

theorem Fault.recorded_of_not_isRefusal {shape : Failure → ParseError} {fault : Fault} {c : Cursor}
    (h : ¬ fault.IsRefusal) : fault.Recorded shape c :=
  fun e he => absurd ⟨e, he⟩ h

/-- A malformed statement, with a failure for its cause. -/
def ParseError.malformedBy (f : Failure) : ParseError :=
  .malformed (.failed f)

/-- **Refused for the furthest failure** on record, of those that are not in front of `mark`: it is
the cause of a malformed statement. -/
def Fault.NamesFurthest (mark : Nat) (fault : Fault) (c : Cursor) : Prop :=
  ∀ e, fault = .refused e → ∃ f ∈ c.failures, e = .malformedBy f
    ∧ ∀ f' ∈ c.failures, (mark : Int) ≤ f'.position → f'.position ≤ f.position

theorem Fault.NamesFurthest.recorded {mark : Nat} {fault : Fault} {c : Cursor}
    (h : fault.NamesFurthest mark c) : fault.Recorded .malformedBy c := by
  intro e he
  obtain ⟨f, hf, hshape, -⟩ := h e he
  exact ⟨f, hf, hshape⟩

namespace Parser

variable {α β : Type} {start : Nat} {shape : Failure → ParseError} {p : ParseM α}
  {f : α → ParseM β} {c c' : Cursor} {stmt : ParseM Tree}

/-- However the parser ends, run from here, all failures on record are pinned, and what it refuses
is on record. -/
def KeepsAt (start : Nat) (shape : Failure → ParseError) (p : ParseM α) (c : Cursor) : Prop :=
  Ends p c (fun _ c' => c.Onward start c')
    (fun fault c' => c.Onward start c' ∧ fault.Recorded shape c')

/-- **All failures stay pinned**, and what is refused is on record. -/
def Keeps (start : Nat) (shape : Failure → ParseError) (p : ParseM α) : Prop :=
  ∀ c : Cursor, c.Pinned start → KeepsAt start shape p c

/-! ### Ways of putting parsers together -/

theorem KeepsAt.after (h : KeepsAt start shape p c') (hc : c.Onward start c') :
    Ends p c' (fun _ c'' => c.Onward start c'')
      (fun fault c'' => c.Onward start c'' ∧ fault.Recorded shape c'') :=
  h.mono (fun _ _ h => hc.trans h) (fun _ _ h => ⟨hc.trans h.1, h.2⟩)

theorem keepsAt_andThen {Q : α → Cursor → Prop}
    (hp : Ends p c (fun a c' => c.Onward start c' ∧ Q a c') (fun _ _ => False))
    (hf : ∀ a c', c.Onward start c' → Q a c' → KeepsAt start shape (f a) c') :
    KeepsAt start shape (p >>= f) c :=
  hp.andThen (fun a c' h => (hf a c' h.1 h.2).after h.1)

theorem KeepsAt.bind (hp : KeepsAt start shape p c)
    (hf : ∀ a c', c.Onward start c' → KeepsAt start shape (f a) c') :
    KeepsAt start shape (p >>= f) c :=
  Ends.bind hp (fun a c' h => (hf a c' h).after h) (fun _ _ h => h)

theorem Keeps.bind (hp : Keeps start shape p) (hf : ∀ a, Keeps start shape (f a)) :
    Keeps start shape (p >>= f) :=
  fun c hc => (hp c hc).bind (fun a c' h => hf a c' h.pinned)

theorem keeps_pure (a : α) : Keeps start shape (pure a) :=
  fun _ hc => ends_pure.2 hc.onward

theorem keeps_throw {fault : Fault} (h : ∀ e, fault ≠ .refused e) :
    Keeps start shape (throw fault : ParseM α) :=
  fun _ hc => ends_throw.2 ⟨hc.onward, fun e he => absurd he (h e)⟩

theorem keeps_outOfSteps : Keeps start shape (throw .outOfSteps : ParseM α) :=
  keeps_throw (fun _ => Fault.noConfusion)

theorem keepsAt_position_bind {f : Nat → ParseM α} :
    KeepsAt start shape (position >>= f) c ↔ KeepsAt start shape (f c.stream.pos) c :=
  ends_position_bind

theorem keepsAt_capacity_bind {f : Nat → ParseM α} :
    KeepsAt start shape (capacity >>= f) c ↔ KeepsAt start shape (f c.stream.capacity) c :=
  ends_capacity_bind

/-! ### Looking and moving -/

theorem ends_look {g : TokenStream → α × TokenStream} {Q : α → Prop} (hc : c.Pinned start)
    (h : Ends (onStream g) c (fun a c' => Q a ∧ c.Stays c') (fun _ _ => False)) :
    Ends (onStream g) c (fun a c' => c.Onward start c' ∧ c.Stays c' ∧ Q a) (fun _ _ => False) := by
  refine (h.and (ends_onStream_failures g c)).mono ?_ (fun _ _ h => h.1)
  intro a c' h
  obtain ⟨⟨hQ, hstay⟩, hfailures⟩ := h
  have hpos : start ≤ c'.stream.pos := hstay.pos_eq ▸ hc.le_pos
  exact ⟨hc.moved hstay.toLater hpos hfailures, hstay, hQ⟩

theorem keepsAt_peekNext_bind {f : Option Token → ParseM α} (hc : c.Pinned start)
    (hf : ∀ c', c.Onward start c' → KeepsAt start shape (f c'.ahead.head?) c') :
    KeepsAt start shape (peekNext >>= f) c := by
  apply keepsAt_andThen (ends_look hc (ends_peekNext hc.fit))
  intro found c' hon hlook
  obtain ⟨hstay, rfl⟩ := hlook
  rw [← hstay.ahead_eq]
  exact hf c' hon

theorem keeps_peekNext : Keeps start shape peekNext :=
  fun _ hc => (ends_look hc (ends_peekNext hc.fit)).mono (fun _ _ h => h.1) (fun _ _ h => h.elim)

theorem keeps_startsAssignment : Keeps start shape (onStream TokenStream.startsAssignment) :=
  fun _ hc =>
    (ends_look hc (ends_startsAssignment hc.fit)).mono (fun _ _ h => h.1) (fun _ _ h => h.elim)

theorem keeps_rewind {mark : Nat} (hmark : start ≤ mark) : Keeps start shape (rewind mark) := by
  intro c hc
  unfold KeepsAt rewind
  rw [ends_get_bind]
  by_cases hm : mark ≤ c.stream.buffer.size
  · obtain ⟨s, hs, halong, rfl⟩ := TokenStream.reset_spec hc.fit.sound hm
    rw [hs]
    exact ends_set.2 (hc.moved ⟨halong, rfl⟩ hmark rfl)
  · rw [TokenStream.reset_eq_none hm]
    exact keeps_throw (fun _ => Fault.noConfusion) c hc

theorem ends_reject_pinned {Q : α → Cursor → Prop} (hc : c.Pinned start) {problem : Problem}
    {at? : Option Int} (hpos : (start : Int) ≤ at?.getD c.stream.pos)
    (hpoints : Failure.PointsInto c.stream.all ⟨problem, at?.getD c.stream.pos⟩) :
    Ends (reject problem at? : ParseM α) c Q
      (fun fault c' => c.Onward start c' ∧ fault.Recorded .failed c') := by
  unfold reject record
  rw [ends_bind, ends_position_bind, ends_bind, ends_modify, ends_pure, ends_throw]
  refine ⟨hc.record ⟨hc.fit.stays.stream, rfl⟩ hc.le_pos rfl hpos hpoints, ?_⟩
  intro e he
  exact ⟨_, List.mem_cons_self, (Fault.refused.inj he).symm⟩

theorem keepsAt_reject_here (hc : c.Pinned start) {problem : Problem}
    (hfound : problem.found = c.ahead.head?.map Token.kind)
    (hwanted : ∀ k, problem.wanted ≠ some (.kind k)) :
    KeepsAt start .failed (reject problem : ParseM α) c :=
  ends_reject_pinned hc (Int.ofNat_le.2 hc.le_pos) (c.pointsInto_ahead hfound hwanted)

/-! ### Taking tokens -/

theorem keeps_tag (k : TokenKind) : Keeps start .failed (tag k) := by
  intro c hc
  refine (ends_takeOne_recorded hc.fit _ _).mono ?_ ?_
  · rintro t c' ⟨halong, hfailures, hle, -, -⟩
    exact hc.moved halong.toLater (Nat.le_trans hc.le_pos hle) hfailures
  · rintro _ c' ⟨hstay, -, i, f, hat, rfl, rfl, hfailures⟩
    refine ⟨hc.record hstay.toLater (hstay.pos_eq.symm ▸ hc.le_pos) hfailures ?_ ?_, ?_⟩
    · exact Int.ofNat_le.2 (Nat.le_trans hc.le_pos hat.le)
    · refine ⟨fun kind hkind => ?_, fun kind want hkind _ => ?_⟩
      · exact (congrArg (·.head?.map Token.kind) hat.ahead_eq).trans hkind
      · exact (congrArg (Option.map Token.kind) hat.next).trans hkind
    · intro e he
      exact ⟨_, hfailures ▸ List.mem_cons_self, (Fault.refused.inj he).symm⟩

/-! ### Moving back -/

theorem Keeps.attempt (hp : Keeps start shape p) : Keeps start shape (Parser.attempt p) := by
  intro c hc
  unfold Parser.attempt
  rw [keepsAt_position_bind]
  refine Ends.tryCatch (hp c hc) (fun _ _ h => h) ?_
  intro fault c' h
  obtain ⟨hon, hrecorded⟩ := h
  cases fault with
  | refused e =>
    obtain ⟨f, hf, rfl⟩ := hrecorded e rfl
    refine KeepsAt.after (KeepsAt.bind (keeps_rewind hc.le_pos c' hon.pinned) ?_) hon
    intro _ c₁ hon₁
    refine ends_throw.2 ⟨hon₁.pinned.onward, fun e he => ?_⟩
    exact ⟨f, hon₁.recorded hf, (Fault.refused.inj he).symm⟩
  | _ => exact ends_throw.2 ⟨hon, hrecorded⟩

theorem Keeps.ends_trial (hp : Keeps start shape p) (hc : c.Pinned start) :
    Ends (trial p) c
      (fun r c' => c.Onward start c' ∧ ∀ e, r = .error e → ∃ f ∈ c'.failures, e = shape f)
      (fun fault c' => c.Onward start c' ∧ ¬ fault.IsRefusal) := by
  have hstop := ends_trial_stop p c
  have htried : Ends (do return .ok (← Parser.attempt p) : ParseM (Except ParseError α)) c
      (fun r c' => c.Onward start c' ∧ ∀ e, r = .error e → ∃ f ∈ c'.failures, e = shape f)
      (fun fault c' => c.Onward start c' ∧ fault.Recorded shape c') := by
    refine Ends.bind (hp.attempt c hc) (fun a c' hon => ?_) (fun _ _ h => h)
    exact ends_pure.2 ⟨hon, fun e he => by cases he⟩
  have hanswer : Ends (trial p) c
      (fun r c' => c.Onward start c' ∧ ∀ e, r = .error e → ∃ f ∈ c'.failures, e = shape f)
      (fun _ c' => c.Onward start c') := by
    unfold trial
    refine htried.tryCatch (fun _ _ h => h) ?_
    intro fault c' h
    obtain ⟨hon, hrecorded⟩ := h
    cases fault with
    | refused e =>
      refine ends_pure.2 ⟨hon, fun e' he' => ?_⟩
      rw [← Except.error.inj he']
      exact hrecorded e rfl
    | _ => exact ends_throw.2 hon
  exact (hanswer.and hstop).mono (fun _ _ h => h.1) (fun _ _ h => h)

theorem Keeps.optional {shape' : Failure → ParseError} (hp : Keeps start shape p) :
    Keeps start shape' (Parser.optional p) := by
  intro c hc
  unfold Parser.optional
  refine (hp.ends_trial hc).bind ?_ (fun _ _ h => ⟨h.1, Fault.recorded_of_not_isRefusal h.2⟩)
  intro r c' h
  cases r with
  | ok a => exact ends_pure.2 h.1
  | error e => exact ends_pure.2 h.1

/-- **The error to report**, chosen among errors on record, is on record; and no failure on record
from `mark` on is further. -/
theorem ends_bestError_recorded {e : ParseError} {others : List ParseError} (mark : Nat)
    (h : ∀ e' ∈ e :: others, ∃ f ∈ c.failures, e' = .failed f) :
    Ends (bestError e others mark) c
      (fun best c' => c' = c ∧ ∃ f ∈ c.failures, best = .failed f
        ∧ ∀ f' ∈ c.failures, (mark : Int) ≤ f'.position → f'.position ≤ f.position)
      (fun _ _ => False) := by
  have hsame : Ends (bestError e others mark) c (fun _ c' => c' = c) (fun _ _ => False) := by
    unfold bestError
    rw [ends_get_bind]
    exact ends_pure.2 rfl
  refine (hsame.and (ends_bestError_spec e others mark c)).mono ?_ (fun _ _ h => h.1)
  intro best c' hbest
  obtain ⟨rfl, hmem, hle⟩ := hbest
  have hfailed : ∃ f ∈ c'.failures, best = .failed f := by
    rw [candidates, ← List.cons_append] at hmem
    rcases List.mem_append.1 hmem with hmem | hmem
    · exact h best hmem
    · obtain ⟨f, hf, rfl⟩ := Option.map_eq_some_iff.1 (Option.mem_toList.1 hmem)
      exact ⟨f, Failure.furthest_mem (Option.filter_eq_some_iff.1 hf).1, rfl⟩
  obtain ⟨f, hf, rfl⟩ := hfailed
  refine ⟨rfl, f, hf, rfl, fun f' hf' hmark => ?_⟩
  obtain ⟨furthest, hfurthest, hfar⟩ := Failure.le_furthest hf'
  have hcandidate : ParseError.failed furthest ∈ candidates e others mark c' := by
    have hkept : c'.furthest.filter (fun f => (mark : Int) ≤ f.position) = some furthest :=
      Option.filter_eq_some_iff.2 ⟨hfurthest, decide_eq_true (Int.le_trans hmark hfar)⟩
    rw [candidates, ← List.cons_append, hkept]
    exact List.mem_append_right _ List.mem_cons_self
  exact Int.le_trans hfar (hle _ hcandidate)

/-! ### The grammar -/

theorem keeps_literal : Keeps start .failed literal := by
  intro c hc
  unfold literal
  apply keepsAt_peekNext_bind hc
  intro c₁ hon₁
  split
  · exact keepsAt_reject_here hon₁.pinned rfl (fun _ => by simp [Problem.wanted])
  next t _ =>
    rw [keepsAt_position_bind]
    refine (keeps_tag t.kind c₁ hon₁.pinned).bind (fun u c₂ hon₂ => ?_)
    have hc₂ := hon₂.pinned
    -- what is wrong with a literal is at its own place and names no other token
    have hfail : ∀ problem : Problem, problem.found = none →
        KeepsAt start .failed (reject problem (some c₁.stream.pos) : ParseM Tree) c₂ := by
      intro problem hfound
      exact ends_reject_pinned hc₂ (Int.ofNat_le.2 hon₁.pinned.le_pos)
        (Failure.pointsInto_of_found hfound)
    split
    · split
      · exact keeps_pure _ c₂ hc₂
      · exact hfail _ rfl
    · split
      · exact keeps_throw (fun _ => Fault.noConfusion) c₂ hc₂
      · split
        · exact hfail _ rfl
        · exact keeps_pure _ c₂ hc₂

theorem keeps_usage : Keeps start .failed usage :=
  (keeps_tag .ident).bind (fun _ => keeps_pure _)

theorem keeps_operator : Keeps start .failed operator := by
  intro c hc
  unfold operator
  apply keepsAt_peekNext_bind hc
  intro c₁ hon₁
  split
  · exact keepsAt_reject_here hon₁.pinned rfl (fun _ => by simp [Problem.wanted])
  next t hfilter =>
    split
    · refine keepsAt_reject_here hon₁.pinned ?_ (fun _ => by simp [Problem.wanted])
      rw [(Option.filter_eq_some_iff.1 hfilter).1]
      rfl
    · exact ((keeps_tag t.kind).bind (fun _ => keeps_pure _)) c₁ hon₁.pinned

section Statements

variable (hstmt : Keeps start .malformedBy stmt)

include hstmt

theorem keeps_blockItems (fuel : Nat) : Keeps start .failed (blockItems stmt fuel) := by
  induction fuel with
  | zero => exact keeps_outOfSteps
  | succ fuel ih =>
    unfold blockItems
    refine keeps_peekNext.bind (fun found => ?_)
    cases found with
    | none => exact keeps_pure _
    | some t =>
      dsimp only
      split
      · exact keeps_pure _
      · refine hstmt.optional.bind (fun r => ?_)
        cases r with
        | none => exact keeps_pure _
        | some _ => exact ih.bind (fun _ => keeps_pure _)

omit hstmt in
theorem keeps_closeBlock (mark : Nat) : Keeps start .failed (closeBlock mark) := by
  intro c hc
  unfold closeBlock
  refine ((keeps_tag .closeBrace).ends_trial hc).bind ?_
    (fun _ _ h => ⟨h.1, Fault.recorded_of_not_isRefusal h.2⟩)
  intro r c₁ h
  obtain ⟨hon, hrecorded⟩ := h
  cases r with
  | ok _ => exact ends_pure.2 hon
  | error e =>
    refine Ends.andThen (ends_bestError_recorded mark
      (List.forall_mem_singleton.2 (hrecorded e rfl))) ?_
    intro best c₂ hbest
    obtain ⟨rfl, f, hf, rfl, -⟩ := hbest
    exact ends_throw.2 ⟨hon, fun e he => ⟨f, hf, (Fault.refused.inj he).symm⟩⟩

theorem keeps_block : Keeps start .failed (block stmt) := by
  refine (keeps_tag .openBrace).bind (fun _ c hc => keepsAt_position_bind.2 ?_)
  apply keepsAt_capacity_bind.2
  refine ((keeps_blockItems hstmt _).bind (fun stmts => ?_)) c hc
  exact (keeps_closeBlock _).bind (fun _ => keeps_pure _)

theorem keeps_atom : Keeps start .failed (atom stmt) := by
  intro c hc
  unfold atom
  apply keepsAt_peekNext_bind hc
  intro c₁ hon₁
  have hc₁ := hon₁.pinned
  split
  · exact keeps_literal c₁ hc₁
  · exact keeps_literal c₁ hc₁
  · exact keeps_usage c₁ hc₁
  · exact keeps_block hstmt c₁ hc₁
  · exact keepsAt_reject_here hc₁ rfl (fun _ => by simp [Problem.wanted])

theorem keeps_chainItems (fuel : Nat) : Keeps start .failed (chainItems stmt fuel) := by
  induction fuel with
  | zero => exact keeps_outOfSteps
  | succ fuel ih =>
    unfold chainItems
    refine (keeps_atom hstmt).bind (fun left => keeps_peekNext.bind (fun found => ?_))
    split
    · exact keeps_operator.bind (fun op => ih.bind (fun right => keeps_pure _))
    · exact keeps_pure _

/-- A place that is noted is not in front of `start`. -/
def Folded.NotBefore (start : Nat) (folded : Folded) : Prop :=
  ∀ mark e, folded.single = some (mark, e) → start ≤ mark

omit hstmt in
/-- With one more expression on the stack, the place that is noted is the old one or here. -/
theorem Folded.NotBefore.pushed {folded : Folded} (h : folded.NotBefore start) {pos : Nat}
    (hpos : start ≤ pos) (t : Tree) : (pushed folded pos t).NotBefore start := by
  intro mark e hmark
  simp only [Parser.pushed] at hmark
  split at hmark
  · obtain ⟨rfl, -⟩ := Prod.mk.inj (Option.some.inj hmark)
    exact hpos
  · exact h mark e hmark

theorem ends_foldItems_pinned (fuel : Nat) {folded : Folded} (hc : c.Pinned start)
    (h : Folded.NotBefore start folded) :
    Ends (foldItems stmt fuel folded) c
      (fun folded c' => c.Onward start c' ∧ Folded.NotBefore start folded)
      (fun fault c' => c.Onward start c' ∧ fault.Recorded .failed c') := by
  induction fuel generalizing c folded with
  | zero => exact ends_throw.2 ⟨hc.onward, fun _ => Fault.noConfusion⟩
  | succ fuel ih =>
    -- the turns to come, as they look from the start of this one
    have hgo : ∀ {folded : Folded} {c' : Cursor} (t : Tree), c.Onward start c' →
        Folded.NotBefore start folded →
        Ends (foldItems stmt fuel (pushed folded c'.stream.pos t)) c'
          (fun folded c'' => c.Onward start c'' ∧ Folded.NotBefore start folded)
          (fun fault c'' => c.Onward start c'' ∧ fault.Recorded .failed c'') := by
      intro folded c' t hon hplace
      refine (ih hon.pinned (hplace.pushed hon.pinned.le_pos t)).mono ?_ ?_
      · exact fun _ _ h => ⟨hon.trans h.1, h.2⟩
      · exact fun _ _ h => ⟨hon.trans h.1, h.2⟩
    unfold foldItems
    refine (ends_look hc (ends_peekNext hc.fit)).andThen ?_
    intro found c₁ hlook
    obtain ⟨hon₁, hstay₁, hfound⟩ := hlook
    have hc₁ := hon₁.pinned
    cases found with
    | none => exact ends_pure.2 ⟨hon₁, h⟩
    | some t =>
      dsimp only
      split
      · -- an operand, unless it begins a statement of its own
        have hstarts : KeepsAt start .failed (startsStatement folded.stack) c₁ := by
          unfold startsStatement
          split
          · exact keeps_pure _ c₁ hc₁
          · exact keeps_startsAssignment c₁ hc₁
        refine Ends.bind (hstarts.after hon₁) ?_ (fun _ _ h => h)
        intro b c₂ hon₂
        split
        · exact ends_pure.2 ⟨hon₂, h⟩
        · refine Ends.bind (((keeps_atom hstmt).attempt c₂ hon₂.pinned).after hon₂) ?_
            (fun _ _ h => h)
          intro e c₃ hon₃
          rw [ends_bind, ends_settle_cons]
          exact hgo e hon₃ h
      · split
        · -- an operator, which lacks an operand at the place where it was looked at
          rw [ends_position_bind]
          refine Ends.bind ((keeps_operator c₁ hc₁).after hon₁) ?_ (fun _ _ h => h)
          intro op c₂ hon₂
          split
          next right left rest hstack =>
            rw [ends_bind, ends_settle_cons]
            exact hgo _ hon₂ h
          · have hahead : c₁.ahead.head? = some t := by rw [hstay₁.ahead_eq, ← hfound]
            have hpoints : Failure.PointsInto c₂.stream.all
                ⟨.missingOperand op.sign t.kind, c₁.stream.pos⟩ := by
              rw [hon₂.stream.all_eq, ← hon₁.stream.all_eq]
              refine c₁.pointsInto_ahead ?_ (fun _ => by simp [Problem.wanted])
              rw [hahead]
              rfl
            refine (ends_reject_pinned hon₂.pinned ?_ hpoints).mono
              (fun _ _ h => h) (fun _ _ h => ⟨hon₂.trans h.1, h.2⟩)
            exact Int.ofNat_le.2 hc₁.le_pos
        · exact ends_pure.2 ⟨hon₁, h⟩

theorem keeps_foldExpr : Keeps start .failed (foldExpr stmt) := by
  intro c hc
  unfold foldExpr
  rw [keepsAt_capacity_bind]
  refine (ends_foldItems_pinned hstmt _ hc (fun mark e hmark => by cases hmark)).bind ?_
    (fun _ _ h => h)
  intro folded c₁ h
  obtain ⟨hon, hplace⟩ := h
  refine KeepsAt.after ?_ hon
  split
  · apply keepsAt_peekNext_bind hon.pinned
    intro c₂ hon₂
    exact keepsAt_reject_here hon₂.pinned rfl (fun _ => by simp [Problem.wanted])
  · exact keeps_pure _ c₁ hon.pinned
  · split
    · exact keeps_throw (fun _ => Fault.noConfusion) c₁ hon.pinned
    next mark e hsingle =>
      have hmark : start ≤ mark := hplace mark e hsingle
      exact ((keeps_rewind hmark).bind (fun _ => keeps_pure e)) c₁ hon.pinned

theorem keeps_expr : Keeps start .failed (expr stmt) := by
  intro c hc
  unfold KeepsAt expr
  rw [ends_get_bind]
  cases c.grouping with
  | byPrecedence => exact keeps_foldExpr hstmt c hc
  | rightward => exact keepsAt_capacity_bind.2 (keeps_chainItems hstmt _ c hc)

theorem keeps_value (make : Tree → Tree) :
    Keeps start .failed (do
      let _ ← tag .equals
      let value ← expr stmt
      let _ ← tag .semi
      return make value) := by
  refine (keeps_tag .equals).bind (fun _ => (keeps_expr hstmt).bind (fun value => ?_))
  exact (keeps_tag .semi).bind (fun _ => keeps_pure _)

theorem keeps_binding : Keeps start .failed (binding stmt) := by
  unfold binding
  refine (keeps_tag .letWord).bind (fun _ => (keeps_tag .ident).bind (fun name => ?_))
  refine keeps_peekNext.bind (fun found => ?_)
  split
  · exact (keeps_tag .semi).bind (fun _ => keeps_pure _)
  · exact keeps_value hstmt _

theorem keeps_assignment : Keeps start .failed (assignment stmt) :=
  (keeps_tag .ident).bind (fun name => keeps_value hstmt (.assignment name.text))

theorem keeps_exprStatement : Keeps start .failed (exprStatement stmt) := by
  refine (keeps_expr hstmt).bind (fun e => ?_)
  exact (keeps_tag .semi).optional.bind (fun _ => keeps_pure e)

omit hstmt in
theorem ends_firstOf_recorded {ps : List (ParseM Tree)} (hps : ∀ p ∈ ps, Keeps start .failed p)
    (hc : c.Pinned start) :
    Ends (firstOf ps) c
      (fun r c' => c.Onward start c'
        ∧ ∀ es, r = .error es → ∀ e ∈ es, ∃ f ∈ c'.failures, e = .failed f)
      (fun fault c' => c.Onward start c' ∧ ¬ fault.IsRefusal) := by
  induction ps generalizing c with
  | nil =>
    refine ends_pure.2 ⟨hc.onward, fun es hes e he => ?_⟩
    rw [← Except.error.inj hes] at he
    cases he
  | cons p ps ih =>
    unfold firstOf
    refine ((hps p List.mem_cons_self).ends_trial hc).bind ?_ (fun _ _ h => h)
    intro r c₁ h
    obtain ⟨hon₁, hfirst⟩ := h
    cases r with
    | ok t => exact ends_pure.2 ⟨hon₁, fun es hes => by cases hes⟩
    | error e =>
      have hrest := ih (fun q hq => hps q (List.mem_cons_of_mem p hq)) hon₁.pinned
      refine hrest.bind ?_ (fun _ _ h => ⟨hon₁.trans h.1, h.2⟩)
      intro r c₂ h
      obtain ⟨hon₂, hothers⟩ := h
      have hon := hon₁.trans hon₂
      cases r with
      | ok t => exact ends_pure.2 ⟨hon, fun es hes => by cases hes⟩
      | error es =>
        refine ends_pure.2 ⟨hon, fun es' hes' => ?_⟩
        rw [← Except.error.inj hes']
        obtain ⟨f, hf, he⟩ := hfirst e rfl
        exact List.forall_mem_cons.2 ⟨⟨f, hon₂.recorded hf, he⟩, hothers es rfl⟩

/-- **A statement is refused for the furthest failure** that is not in front of it. -/
theorem ends_statementWith_furthest (hc : c.Pinned start) :
    Ends (statementWith stmt) c (fun _ c' => c.Onward start c')
      (fun fault c' => c.Onward start c' ∧ fault.NamesFurthest c.stream.pos c') := by
  have hstop : ∀ {c' : Cursor} {fault : Fault}, c.Onward start c' → ¬ fault.IsRefusal →
      c.Onward start c' ∧ fault.NamesFurthest c.stream.pos c' :=
    fun hon hstop => ⟨hon, fun e he => absurd ⟨e, he⟩ hstop⟩
  unfold statementWith
  rw [ends_position_bind]
  refine (ends_look hc (ends_startsAssignment hc.fit)).andThen ?_
  intro assigns c₁ hlook
  have hon₁ : c.Onward start c₁ := hlook.1
  refine ((keeps_binding hstmt).ends_trial hon₁.pinned).bind ?_
    (fun _ _ h => hstop (hon₁.trans h.1) h.2)
  intro r c₂ h
  obtain ⟨hon₂, hbinding⟩ := h
  have hon := hon₁.trans hon₂
  cases r with
  | ok t => exact ends_pure.2 hon
  | error bindingError =>
    have hothers : ∀ p ∈ (if assigns = true then [assignment stmt, exprStatement stmt]
          else [exprStatement stmt]), Keeps start .failed p := by
      intro p hp
      rcases eq_of_mem_others hp with rfl | rfl
      · exact keeps_assignment hstmt
      · exact keeps_exprStatement hstmt
    refine (ends_firstOf_recorded hothers hon₂.pinned).bind ?_
      (fun _ _ h => hstop (hon.trans h.1) h.2)
    intro r c₃ h
    obtain ⟨hon₃, herrors⟩ := h
    have hon' := hon.trans hon₃
    cases r with
    | ok t => exact ends_pure.2 hon'
    | error errors =>
      have hlast : ∃ f ∈ c₃.failures, bindingError = .failed f := by
        obtain ⟨f, hf, he⟩ := hbinding bindingError rfl
        exact ⟨f, hon₃.recorded hf, he⟩
      -- whichever alternatives there are, the error is the furthest of errors on record
      have hbest : ∀ e others, (∀ e' ∈ e :: others, ∃ f ∈ c₃.failures, e' = .failed f) →
          Ends (do throw (.refused (.malformed (← bestError e others c.stream.pos))) : ParseM Tree)
            c₃ (fun _ c' => c.Onward start c')
            (fun fault c' => c.Onward start c' ∧ fault.NamesFurthest c.stream.pos c') := by
        intro e others hrecorded
        refine (ends_bestError_recorded c.stream.pos hrecorded).andThen ?_
        intro best c₄ h
        obtain ⟨rfl, f, hf, rfl, hfar⟩ := h
        exact ends_throw.2 ⟨hon', fun e he => ⟨f, hf, (Fault.refused.inj he).symm, hfar⟩⟩
      cases errors with
      | nil => exact hbest bindingError [] (List.forall_mem_singleton.2 hlast)
      | cons e es =>
        apply hbest e (es ++ [bindingError])
        obtain ⟨he, hes⟩ := List.forall_mem_cons.1 (herrors (e :: es) rfl)
        refine List.forall_mem_cons.2 ⟨he, fun e' he' => ?_⟩
        rcases List.mem_append.1 he' with he' | he'
        · exact hes e' he'
        · rw [List.mem_singleton.1 he']
          exact hlast

end Statements

theorem keeps_statementAt (depth : Nat) : Keeps start .malformedBy (statementAt depth) := by
  induction depth with
  | zero => exact keeps_outOfSteps
  | succ depth ih =>
    intro c hc
    exact (ends_statementWith_furthest ih hc).mono (fun _ _ h => h)
      (fun _ _ h => ⟨h.1, h.2.recorded⟩)

/-- **A statement is refused for the furthest failure**, however deep its blocks are. -/
theorem ends_statement_furthest (hc : c.Pinned start) :
    Ends statement c (fun _ c' => c.Onward start c')
      (fun fault c' => c.Onward start c' ∧ fault.NamesFurthest c.stream.pos c') := by
  unfold statement
  rw [ends_capacity_bind]
  exact ends_statementWith_furthest (keeps_statementAt c.stream.capacity) hc

end Parser

end BlockLang
