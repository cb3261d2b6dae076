import BlockLang.Parser.Cursor
import BlockLang.Proofs.Ends
import BlockLang.Proofs.Stream

/-!
# What the primitives do to the cursor

Each primitive of the parser has one lemma here that says how it ends.  A primitive that
takes a token takes the first that is ahead,

    c.ahead = t :: c'.ahead,

and one that refuses stays where it was.  `attempt`, `trial` and `optional` turn any
parser into one that stays where it was when it refuses.

`Along c c'` says that `c'` is a later state of the cursor `c`, at the same place or right
behind a token that counts; every parser leads along, also where it stops, which is why a
place that was marked can always be gone back to.
-/

namespace BlockLang

open StepM

/-- Whether a fault is a refusal of the input. -/
def Fault.IsRefusal (fault : Fault) : Prop :=
  ∃ e, fault = .refused e

namespace Cursor

variable {c c' c'' : Cursor}

/-- The tokens ahead of the cursor that are no blanks. -/
def ahead (c : Cursor) : List Token :=
  c.stream.ahead

/-- A cursor over a stream that is fit to be parsed. -/
def Fit (c : Cursor) : Prop :=
  c.stream.Fit

/-- A later state of a cursor, at any place already seen. -/
structure Later (c c' : Cursor) : Prop where
  stream : c.stream.Along c'.stream
  grouping_eq : c'.grouping = c.grouping

/-- The place of a cursor, or one right behind a token that counts. -/
def Halt (c : Cursor) (i : Nat) : Prop :=
  i = c.stream.pos ∨ ∃ j t, i = j + 1 ∧ c.stream.all[j]? = some t ∧ t.counts = true

/-- **A later state of a cursor** where a parser may stop. -/
structure Along (c c' : Cursor) : Prop extends Later c c' where
  halt : c.Halt c'.stream.pos

/-- A later state of a cursor, at the same place. -/
structure Stays (c c' : Cursor) : Prop extends Later c c' where
  pos_eq : c'.stream.pos = c.stream.pos

theorem Stays.toAlong (h : c.Stays c') : c.Along c' :=
  ⟨h.toLater, .inl h.pos_eq⟩

theorem Fit.stays (h : c.Fit) : c.Stays c :=
  ⟨⟨h.sound.along, rfl⟩, rfl⟩

theorem Fit.along (h : c.Fit) : c.Along c :=
  h.stays.toAlong

theorem Later.fit (h : c.Later c') (hc : c.Fit) : c'.Fit :=
  h.stream.fit hc

theorem Later.trans (h : c.Later c') (h' : c'.Later c'') : c.Later c'' :=
  ⟨h.stream.trans h'.stream, h'.grouping_eq.trans h.grouping_eq⟩

theorem Along.halt_of (h : c.Along c') {i : Nat} (hi : c'.Halt i) : c.Halt i := by
  rcases hi with rfl | hi
  · exact h.halt
  · rw [h.stream.all_eq] at hi
    exact .inr hi

theorem Along.trans (h : c.Along c') (h' : c'.Along c'') : c.Along c'' :=
  ⟨h.toLater.trans h'.toLater, h.halt_of h'.halt⟩

theorem Stays.trans (h : c.Stays c') (h' : c'.Stays c'') : c.Stays c'' :=
  ⟨h.toLater.trans h'.toLater, h'.pos_eq.trans h.pos_eq⟩

theorem Stays.ahead_eq (h : c.Stays c') : c'.ahead = c.ahead :=
  h.stream.ahead_eq h.pos_eq

/-- **The place of the next token that counts**, behind the blanks that stand in front of it, or the
end if there is none. -/
structure NextAt (c : Cursor) (i : Nat) : Prop where
  le : c.stream.pos ≤ i
  le_length : i ≤ c.stream.all.length
  ahead_eq : c.stream.aheadAt i = c.ahead
  next : c.stream.all[i]? = c.ahead.head?

theorem Fit.length_ahead_le (h : c.Fit) : c.ahead.length ≤ c.stream.capacity := by
  have hle := h.length_le
  have hfilter := (c.stream.all.drop c.stream.pos).length_filter_le Token.counts
  rw [List.length_drop] at hfilter
  simp only [ahead, TokenStream.ahead, TokenStream.aheadAt]
  omega

theorem Fit.proper_of_ahead (h : c.Fit) {t : Token} {rest : List Token} (ht : c.ahead = t :: rest) :
    t.Proper := by
  have hmem : t ∈ c.ahead := by rw [ht]; exact List.mem_cons_self
  exact h.proper t (List.mem_of_mem_drop (List.mem_filter.1 hmem).1)

end Cursor

namespace Parser

variable {c : Cursor} {α : Type}

/-! ### Looking and moving -/

theorem ends_onStream {f : TokenStream → α × TokenStream} {Q : α → Cursor → Prop}
    {E : Fault → Cursor → Prop} :
    Ends (onStream f) c Q E ↔ Q (f c.stream).1 { c with stream := (f c.stream).2 } :=
  ends_modifyGet

theorem ends_onStream_failures (f : TokenStream → α × TokenStream) (c : Cursor) :
    Ends (onStream f) c (fun _ c' => c'.failures = c.failures) (fun _ _ => False) :=
  ends_onStream.2 rfl

theorem ends_get_bind {f : Cursor → ParseM α} {Q : α → Cursor → Prop} {E : Fault → Cursor → Prop} :
    Ends (get >>= f) c Q E ↔ Ends (f c) c Q E := by
  rw [ends_bind, ends_get]

theorem ends_position_bind {f : Nat → ParseM α} {Q : α → Cursor → Prop}
    {E : Fault → Cursor → Prop} :
    Ends (position >>= f) c Q E ↔ Ends (f c.stream.pos) c Q E := by
  rw [ends_bind, position, ends_get_bind, ends_pure]

theorem ends_capacity_bind {f : Nat → ParseM α} {Q : α → Cursor → Prop}
    {E : Fault → Cursor → Prop} :
    Ends (capacity >>= f) c Q E ↔ Ends (f c.stream.capacity) c Q E := by
  rw [ends_bind, capacity, ends_get_bind, ends_pure]

theorem ends_peekNext (hc : c.Fit) :
    Ends peekNext c (fun found c' => found = c.ahead.head? ∧ c.Stays c') (fun _ _ => False) := by
  have hspec := TokenStream.peekSignificant_spec hc
  exact ends_onStream.2 ⟨hspec.1, ⟨⟨hspec.2.1, rfl⟩, hspec.2.2⟩⟩

theorem ends_peekNext_false (hc : c.Fit) :
    Ends (peekNext false) c (fun found c' => found = c.stream.all[c.stream.pos]? ∧ c.Stays c')
      (fun _ _ => False) :=
  ends_onStream.2 ⟨TokenStream.fst_peek hc.sound 0, ⟨⟨TokenStream.along_peek hc.sound 0, rfl⟩,
    TokenStream.pos_snd_peek _ _⟩⟩

theorem ends_startsAssignment (hc : c.Fit) :
    Ends (onStream TokenStream.startsAssignment) c
      (fun b c' => b = decide ((c.ahead.take 2).map Token.kind = [.ident, .equals]) ∧ c.Stays c')
      (fun _ _ => False) := by
  have hspec := TokenStream.startsAssignment_spec hc
  exact ends_onStream.2 ⟨hspec.1, ⟨⟨hspec.2.1, rfl⟩, hspec.2.2⟩⟩

theorem ends_advance (hc : c.Fit) {t : Token} (ht : c.stream.all[c.stream.pos]? = some t) :
    Ends advance c (fun _ c' => c.Later c' ∧ c'.stream.pos = c.stream.pos + 1)
      (fun _ _ => False) := by
  have hspec := TokenStream.next_spec hc.sound
  rw [if_pos (List.getElem?_eq_some_iff.1 ht).1] at hspec
  exact ends_onStream.2 ⟨⟨hspec.2.1, rfl⟩, hspec.2.2⟩

theorem ends_rewind (hc : c.Fit) {mark : Nat} (hm : mark ≤ c.stream.buffer.size) :
    Ends (rewind mark) c (fun _ c' => c.Later c' ∧ c'.stream.pos = mark) (fun _ _ => False) := by
  obtain ⟨s, hs, halong, hpos⟩ := TokenStream.reset_spec hc.sound hm
  unfold rewind
  rw [ends_get_bind, hs]
  exact ends_set.2 ⟨⟨halong, rfl⟩, hpos⟩

theorem ends_rewind_failures (mark : Nat) (c : Cursor) :
    Ends (rewind mark) c (fun _ c' => c'.failures = c.failures)
      (fun _ c' => c'.failures = c.failures) := by
  unfold rewind
  rw [ends_get_bind]
  cases c.stream.reset mark with
  | some stream => exact ends_set.2 rfl
  | none => exact ends_throw.2 rfl

theorem ends_reject (hc : c.Fit) (problem : Problem) (at? : Option Int) {Q : α → Cursor → Prop} :
    Ends (reject problem at? : ParseM α) c Q (fun e c' => e.IsRefusal ∧ c.Stays c') := by
  unfold reject record
  rw [ends_bind, ends_position_bind, ends_bind, ends_modify, ends_pure, ends_throw]
  exact ⟨⟨_, rfl⟩, ⟨⟨hc.sound.along, rfl⟩, rfl⟩⟩

/-! ### Taking tokens -/

/-- Blanks are taken up to the next token that is none, and nothing ahead is lost. -/
theorem ends_takeSome_blanks (hc : c.Fit) (fuel : Nat)
    (hf : c.stream.all.length < c.stream.pos + fuel) :
    Ends (takeSome Token.isWhitespace fuel) c
      (fun _ c' => c.Later c' ∧ c'.failures = c.failures ∧ c.stream.pos ≤ c'.stream.pos
        ∧ c'.ahead = c.ahead
        ∧ ∀ t, c'.stream.all[c'.stream.pos]? = some t → ¬ t.isWhitespace = true)
      (fun _ _ => False) := by
  induction fuel generalizing c with
  | zero =>
    refine ends_pure.2 ⟨hc.stays.toLater, rfl, Nat.le_refl _, rfl, fun t ht => ?_⟩
    have hlt := (List.getElem?_eq_some_iff.1 ht).1
    omega
  | succ fuel ih =>
    unfold takeSome
    refine ((ends_peekNext_false hc).and (ends_onStream_failures _ c)).bind ?_
      (fun _ _ h => h.1.elim)
    rintro found c₁ ⟨⟨hfound, hstay⟩, hkept⟩
    have hnext : c₁.stream.all[c₁.stream.pos]? = found := by
      rw [hstay.stream.all_eq, hstay.pos_eq, hfound]
    have hle := Nat.le_of_eq hstay.pos_eq.symm
    rcases found with _ | t
    · refine ends_pure.2 ⟨hstay.toLater, hkept, hle, hstay.ahead_eq, fun t ht => ?_⟩
      rw [hnext] at ht
      exact absurd ht (by simp)
    · by_cases hb : t.isWhitespace = true
      · simp only [hb, if_true]
        refine ((ends_advance (hstay.fit hc) hnext).and (ends_onStream_failures _ c₁)).bind ?_
          (fun _ _ h => h.1.elim)
        rintro _ c₂ ⟨⟨hmove, hpos⟩, hkept₂⟩
        refine (ih (hmove.fit (hstay.fit hc)) ?_).andThen ?_
        · rw [hmove.stream.all_eq, hstay.stream.all_eq, hpos, hstay.pos_eq]
          omega
        · rintro _ c₃ ⟨hrest, hkept₃, hle₃, hahead, hstop⟩
          refine ends_pure.2 ⟨(hstay.toLater.trans hmove).trans hrest,
            hkept₃.trans (hkept₂.trans hkept), by omega, ?_, hstop⟩
          rw [hahead, ← hstay.ahead_eq, Cursor.ahead, Cursor.ahead, TokenStream.ahead,
            TokenStream.ahead, TokenStream.aheadAt_of_blank hnext hb, hpos,
            hmove.stream.aheadAt_eq]
      · simp only [hb]
        refine ends_pure.2 ⟨hstay.toLater, hkept, hle, hstay.ahead_eq, fun u hu => ?_⟩
        rw [hnext] at hu
        exact Option.some.inj hu ▸ hb

/-- **One token.**  It is the first ahead and satisfies `p`; or the first ahead does not satisfy
`p`, and the input is refused on the spot, for a failure at the place of that token. -/
theorem ends_takeOne_recorded (hc : c.Fit) (p : Token → Bool) (want : Expectation) :
    Ends (takeOne p want) c
      (fun t c' => c.Along c' ∧ c'.failures = c.failures ∧ c.stream.pos ≤ c'.stream.pos
        ∧ c.ahead = t :: c'.ahead ∧ p t = true)
      (fun fault c' => c.Stays c' ∧ c.ahead.head?.filter p = none
        ∧ ∃ (i : Nat) (f : Failure), c.NextAt i
          ∧ f = ⟨.expected want (c.ahead.head?.map Token.kind), i⟩
          ∧ fault = .refused (.failed f) ∧ c'.failures = f :: c.failures) := by
  unfold takeOne
  rw [ends_position_bind]
  simp only [if_true]
  have hlen := hc.length_le
  refine Ends.andThen
    (ends_capacity_bind.2 (ends_takeSome_blanks hc (c.stream.capacity + 1) (by omega))) ?_
  rintro _ c₁ ⟨hlater₁, hkept₁, hle₁, hahead₁, hstop⟩
  refine ((ends_peekNext_false (hlater₁.fit hc)).and (ends_onStream_failures _ c₁)).bind ?_
    (fun _ _ h => h.1.elim)
  rintro found c₂ ⟨⟨hfound, hstay₂⟩, hkept₂⟩
  have hlater₂ := hlater₁.trans hstay₂.toLater
  have hfailures₂ := hkept₂.trans hkept₁
  have hnext : c₂.stream.all[c₂.stream.pos]? = found := by
    rw [hstay₂.stream.all_eq, hstay₂.pos_eq, hfound]
  have hahead₂ : c₂.ahead = c.ahead := hstay₂.ahead_eq.trans hahead₁
  have hhead : c.ahead.head? = found := by
    rw [← hahead₂, Cursor.ahead, TokenStream.ahead]
    rcases found with _ | t
    · rw [TokenStream.aheadAt_of_none hnext, List.head?_nil]
    · rw [TokenStream.aheadAt_of_counts hnext (hstop t hfound.symm), List.head?_cons]
  rcases hfilter : found.filter p with _ | t
  · have hat : c.NextAt c₂.stream.pos := by
      have hpos := (hlater₂.fit hc).sound.pos_le_length
      refine ⟨hstay₂.pos_eq.symm ▸ hle₁, hlater₂.stream.all_eq ▸ hpos, ?_, ?_⟩
      · rw [← hlater₂.stream.aheadAt_eq]
        exact hahead₂
      · rw [← hlater₂.stream.all_eq, hnext, hhead]
    simp only [ends_position_bind]
    refine ((ends_rewind (hlater₂.fit hc) (Nat.le_trans hc.sound.pos_le
      hlater₂.stream.buffer_le)).and (ends_rewind_failures _ c₂)).bind ?_ (fun _ _ h => h.1.elim)
    rintro _ c₃ ⟨⟨hlater₃, hpos₃⟩, hkept₃⟩
    have hlater := hlater₂.trans hlater₃
    unfold reject record
    rw [ends_bind, ends_position_bind, ends_bind, ends_modify, ends_pure, ends_throw]
    have hstay : c.Stays c₃ := ⟨hlater, hpos₃⟩
    refine ⟨hstay.trans ⟨⟨hlater.fit hc |>.sound.along, rfl⟩, rfl⟩, hhead ▸ hfilter,
      c₂.stream.pos, _, hat, rfl, ?_, ?_⟩
    · rw [hhead]
      rfl
    · rw [hhead]
      exact congrArg (_ :: ·) (hkept₃.trans hfailures₂)
  · obtain ⟨hsome, hp⟩ := Option.filter_eq_some_iff.1 hfilter
    rw [hsome] at hnext hhead
    refine ((ends_advance (hlater₂.fit hc) hnext).and (ends_onStream_failures _ c₂)).bind ?_
      (fun _ _ h => h.1.elim)
    rintro _ c₃ ⟨⟨hlater₃, hpos₃⟩, hkept₃⟩
    have hcounts : ¬ t.isWhitespace = true := hstop t (hfound.symm.trans hsome)
    have hhalt : c.Halt c₃.stream.pos :=
      .inr ⟨c₂.stream.pos, t, hpos₃, hlater₂.stream.all_eq ▸ hnext,
        by simpa [Token.counts] using hcounts⟩
    have hle : c.stream.pos ≤ c₃.stream.pos := by
      have := hstay₂.pos_eq
      omega
    refine ends_pure.2 ⟨⟨hlater₂.trans hlater₃, hhalt⟩, hkept₃.trans hfailures₂, hle, ?_, hp⟩
    rw [← hahead₂, Cursor.ahead, Cursor.ahead, TokenStream.ahead, TokenStream.ahead, hpos₃,
      hlater₃.stream.aheadAt_eq,
      TokenStream.aheadAt_of_counts hnext hcounts]

theorem ends_takeOne (hc : c.Fit) (p : Token → Bool) (want : Expectation) :
    Ends (takeOne p want) c
      (fun t c' => c.Along c' ∧ c.ahead = t :: c'.ahead ∧ p t = true)
      (fun e c' => e.IsRefusal ∧ c.Stays c' ∧ ∀ t, c.ahead.head? = some t → ¬ p t = true) := by
  refine (ends_takeOne_recorded hc p want).mono
    (fun _ _ ⟨halong, _, _, hahead, hp⟩ => ⟨halong, hahead, hp⟩) ?_
  rintro _ c' ⟨hstay, hnone, _, f, -, -, rfl, -⟩
  refine ⟨⟨_, rfl⟩, hstay, fun t ht => ?_⟩
  rw [ht] at hnone
  simpa using hnone

theorem ends_tag (hc : c.Fit) (k : TokenKind) :
    Ends (tag k) c
      (fun t c' => c.Along c' ∧ c.ahead = t :: c'.ahead ∧ t.kind = k)
      (fun e c' => e.IsRefusal ∧ c.Stays c' ∧ ∀ t, c.ahead.head? = some t → t.kind ≠ k) :=
  (ends_takeOne hc _ _).mono
    (fun _ _ ⟨halong, hahead, hk⟩ => ⟨halong, hahead, by simpa using hk⟩)
    (fun _ _ ⟨hrefusal, hstay, hno⟩ => ⟨hrefusal, hstay, fun t ht => by simpa using hno t ht⟩)

/-! ### Moving back -/

/-- **A parser tried.**  Where it refuses, the cursor is back at the place where it started. -/
theorem ends_attempt (hc : c.Fit) {p : ParseM α} {Q : α → Cursor → Prop}
    (hp : Ends p c Q (fun _ c' => c.Along c')) :
    Ends (attempt p) c Q (fun e c' => c.Along c' ∧ (e.IsRefusal → c.Stays c')) := by
  unfold attempt
  rw [ends_position_bind]
  refine hp.tryCatch (fun _ _ h => h) ?_
  intro e c' halong
  cases e with
  | refused e =>
    refine (ends_rewind (halong.fit hc)
      (Nat.le_trans hc.sound.pos_le halong.stream.buffer_le)).andThen ?_
    rintro _ c₁ ⟨hlater₁, hpos₁⟩
    have hstay : c.Stays c₁ := ⟨halong.toLater.trans hlater₁, hpos₁⟩
    exact ends_throw.2 ⟨hstay.toAlong, fun _ => hstay⟩
  | _ =>
    refine ends_throw.2 ⟨halong, ?_⟩
    rintro ⟨_, h⟩
    exact absurd h (by simp)

theorem ends_trial (hc : c.Fit) {p : ParseM α} {Q : α → Cursor → Prop}
    (hp : Ends p c Q (fun _ c' => c.Along c')) :
    Ends (trial p) c
      (fun r c' => match r with
        | .ok a => Q a c'
        | .error _ => c.Stays c')
      (fun _ c' => c.Along c') := by
  unfold trial
  have htried : Ends (do return .ok (← attempt p) : ParseM (Except ParseError α)) c
      (fun r c' => match r with
        | .ok a => Q a c'
        | .error _ => c.Stays c')
      (fun e c' => c.Along c' ∧ (e.IsRefusal → c.Stays c')) :=
    (ends_attempt hc hp).bind (fun _ _ h => ends_pure.2 h) (fun _ _ h => h)
  refine htried.tryCatch (fun _ _ h => h) ?_
  rintro e c' ⟨halong, hback⟩
  cases e with
  | refused e => exact ends_pure.2 (hback ⟨e, rfl⟩)
  | _ => exact ends_throw.2 halong

theorem ends_optional (hc : c.Fit) {p : ParseM α} {Q : α → Cursor → Prop}
    (hp : Ends p c Q (fun _ c' => c.Along c')) :
    Ends (Parser.optional p) c
      (fun r c' => match r with
        | some a => Q a c'
        | none => c.Stays c')
      (fun _ c' => c.Along c') := by
  unfold Parser.optional
  refine (ends_trial hc hp).bind ?_ (fun _ _ h => h)
  rintro (_ | a) c' h
  · exact ends_pure.2 h
  · exact ends_pure.2 h

theorem ends_atEnd (hc : c.Fit) :
    Ends atEnd c
      (fun b c' => b = c.ahead.head?.all (fun t => t.kind = .eof) ∧ c.Stays c')
      (fun _ _ => False) := by
  unfold atEnd
  refine (ends_peekNext hc).andThen ?_
  rintro found c' ⟨rfl, hstay⟩
  rcases hhead : c.ahead.head? with _ | t
  · exact ends_pure.2 ⟨by simp, hstay⟩
  · exact ends_pure.2 ⟨by simp, hstay⟩

theorem ends_bestError (e : ParseError) (others : List ParseError) (start : Nat) (hc : c.Fit) :
    Ends (bestError e others start) c (fun _ c' => c.Stays c') (fun _ _ => False) := by
  unfold bestError
  rw [ends_get_bind]
  exact ends_pure.2 hc.stays

end Parser

end BlockLang
