import BlockLang.Proofs.Parser.Behind
import BlockLang.Proofs.Parser.Coupled

/-!
# Parsing behind other tokens

A parser that starts behind the tokens `pre` goes in step with one that starts where
these tokens are not there: it gives the same result, or refuses with the same error
moved on, and the cursors stay behind each other.  `InStep pre V p q` says so of two
parsers, of which `p` runs behind `pre` and `q` alone; `V` relates their results, since
places differ by the length of `pre`.

Cursors behind each other are a lawful coupling, `behind pre`, in which nothing is
excused.  Where `q` runs out of steps or stops for any other reason than a refusal,
nothing is said of `p`.
-/

namespace BlockLang

open StepM

namespace Parser

variable {α β : Type} {pre : List Token} {c d : Cursor}

/-- From cursors of which one is behind `pre`, `p` ends as `q` does. -/
def InStepAt (pre : List Token) (V : α → β → Prop) (p : ParseM α) (c : Cursor) (q : ParseM β)
    (d : Cursor) : Prop :=
  Ends q d
    (fun b d' => Ends p c (fun a c' => V a b ∧ c'.Behind pre d') (fun _ _ => False))
    (fun fault d' => ∀ e, fault = .refused e →
      Ends p c (fun _ _ => False)
        (fun fault' c' => fault' = .refused (e.moved pre.length) ∧ c'.Behind pre d'))

/-- **In step.**  Behind `pre`, `p` ends as `q` does alone. -/
def InStep (pre : List Token) (V : α → β → Prop) (p : ParseM α) (q : ParseM β) : Prop :=
  ∀ c d : Cursor, c.Behind pre d → InStepAt pre V p c q d

/-- **The coupling behind `pre`**: places differ by the length of `pre`. -/
def behind (pre : List Token) : Coupling where
  states c d := c.Behind pre d
  places m n := m = pre.length + n
  errors e e' := e = e'.moved pre.length
  excused _ := False
  grouping_eq h := h.grouping_eq
  capacity_le h := h.stream.capacity_le
  place h := h.stream.pos_eq
  malformed h := congrArg ParseError.malformed h
  not_isRefusal h := h.elim

theorem inStep_of_coupled {V : α → β → Prop} {p : ParseM α} {q : ParseM β}
    (h : Coupled (behind pre) V p q) : InStep pre V p q := by
  intro c d hbehind
  refine (h c d hbehind).mono (fun _ _ h => h) (fun fault d' hstop e he => ?_)
  refine (hstop e he).mono (fun _ _ h => h) ?_
  rintro _ c' (hfalse | ⟨_, rfl, rfl, hbehind'⟩)
  · exact hfalse.elim
  · exact ⟨rfl, hbehind'⟩

/-! ### Looking and moving -/

theorem behind_onStream {f : TokenStream → α × TokenStream}
    (hf : ∀ s t : TokenStream, s.Behind pre t → (f s).1 = (f t).1 ∧ (f s).2.Behind pre (f t).2) :
    Coupled (behind pre) Eq (onStream f) (onStream f) := by
  intro c d hbehind
  have h := hf c.stream d.stream hbehind.stream
  exact ends_onStream.2 (ends_onStream.2 ⟨h.1, h.2, hbehind.grouping_eq, hbehind.failures_eq⟩)

theorem behind_peekNext : Coupled (behind pre) Eq peekNext peekNext :=
  behind_onStream (fun _ _ h => h.peekSignificant)

theorem behind_peekNext_false : Coupled (behind pre) Eq (peekNext false) (peekNext false) :=
  behind_onStream (fun _ _ h => h.peek 0)

theorem behind_startsAssignment :
    Coupled (behind pre) Eq (onStream TokenStream.startsAssignment)
      (onStream TokenStream.startsAssignment) :=
  behind_onStream (fun _ _ h => h.startsWith _)

theorem behind_advance : Coupled (behind pre) Eq advance advance :=
  behind_onStream (fun _ _ h => h.next)

theorem behind_rewind (mark : Nat) :
    Coupled (behind pre) (fun _ _ => True) (rewind (pre.length + mark)) (rewind mark) := by
  intro c d hbehind
  unfold rewind
  refine ends_get_bind.2 ?_
  rcases ht : d.stream.reset mark with _ | t
  · exact ends_throw.2 (fun e he => Fault.noConfusion he)
  · obtain ⟨s, hs, hstream⟩ := hbehind.stream.reset ht
    refine ends_set.2 (ends_get_bind.2 ?_)
    rw [hs]
    exact ends_set.2 ⟨trivial, hstream, hbehind.grouping_eq, hbehind.failures_eq⟩

theorem behind_record (problem : Problem) (at? : Option Int) :
    Coupled (behind pre) (fun f f' => f = f'.moved pre.length)
      (record problem (at?.map (· + pre.length))) (record problem at?) := by
  unfold record
  refine coupled_position.bind ?_
  rintro _ here rfl
  have hfailure : (⟨problem, (at?.map (· + (pre.length : Int))).getD (pre.length + here : Nat)⟩ :
      Failure) = Failure.moved pre.length ⟨problem, at?.getD here⟩ := by
    cases at? with
    | none => simp [Failure.moved, Int.add_comm]
    | some k => rfl
  simp only [hfailure]
  refine Coupled.bind (V := fun _ _ => True) ?_ (fun _ _ _ => coupled_pure rfl)
  intro c d hbehind
  refine ends_modify.2 (ends_modify.2 ⟨trivial, hbehind.stream, hbehind.grouping_eq, ?_⟩)
  exact congrArg (_ :: ·) hbehind.failures_eq

theorem behind_record_at (problem : Problem) (start : Nat) :
    Coupled (behind pre) (fun f f' => f = f'.moved pre.length)
      (record problem (some (pre.length + start : Nat))) (record problem (some start)) := by
  have hat : (some ((pre.length + start : Nat) : Int))
      = (some (start : Int)).map (· + (pre.length : Int)) := by
    simp [Int.add_comm]
  rw [hat]
  exact behind_record problem (some (start : Int))

theorem behind_reject_at {V : α → β → Prop} (problem : Problem) (start : Nat) :
    Coupled (behind pre) V (reject problem (some (pre.length + start : Nat)))
      (reject problem (some start)) :=
  (behind_record_at problem start).bind (fun _ _ h => coupled_throw (congrArg ParseError.failed h))

theorem behind_forget : Coupled (behind pre) (fun _ _ => True)
    (modify fun c => { c with failures := [] }) (modify fun c => { c with failures := [] }) :=
  fun _ _ hbehind =>
    ends_modify.2 (ends_modify.2 ⟨trivial, hbehind.stream, hbehind.grouping_eq, rfl⟩)

/-! ### Taking tokens -/

theorem behindAt_takeSome (p : Token → Bool) {fuel' fuel : Nat} (hfuel : fuel' ≤ fuel)
    (hbehind : c.Behind pre d) (hroom : d.stream.all.length < d.stream.pos + fuel') :
    CoupledAt (behind pre) Eq (takeSome p fuel) c (takeSome p fuel') d := by
  induction fuel' generalizing fuel c d with
  | zero =>
    have hpos := hbehind.stream.fit'.sound.pos_le_length
    omega
  | succ fuel' ih =>
    obtain ⟨fuel, rfl⟩ : ∃ n, fuel = n + 1 := ⟨fuel - 1, by omega⟩
    unfold takeSome
    refine (behind_peekNext_false c d hbehind).bind (ends_peekNext_false hbehind.stream.fit') ?_
    rintro found _ c₁ d₁ rfl ⟨hfound, hstay⟩ hbehind₁
    have hnext : d₁.stream.all[d₁.stream.pos]? = found := by
      rw [hstay.stream.all_eq, hstay.pos_eq, hfound]
    rcases found with _ | t
    · exact coupled_pure rfl c₁ d₁ hbehind₁
    · dsimp only
      split
      · refine (behind_advance c₁ d₁ hbehind₁).bind (ends_advance hbehind₁.stream.fit' hnext) ?_
        rintro _ _ c₂ d₂ rfl ⟨hlater, hpos⟩ hbehind₂
        have hroom₂ : d₂.stream.all.length < d₂.stream.pos + fuel' := by
          rw [hlater.stream.all_eq, hstay.stream.all_eq, hpos, hstay.pos_eq]
          omega
        have hrest : CoupledAt (behind pre) Eq (takeSome p fuel) c₂ (takeSome p fuel') d₂ :=
          ih (by omega) hbehind₂ hroom₂
        refine hrest.andThen ?_
        rintro ts _ c₃ d₃ rfl hbehind₃
        exact coupled_pure rfl c₃ d₃ hbehind₃
      · exact coupled_pure rfl c₁ d₁ hbehind₁

theorem behind_takeBlanks : Coupled (behind pre) Eq takeBlanks takeBlanks := by
  intro c d hbehind
  have hroom := hbehind.stream.fit'.length_le
  have hcapacity := hbehind.stream.capacity_le
  refine ends_capacity_bind.2 ?_
  refine (behindAt_takeSome _ (Nat.succ_le_succ hcapacity) hbehind (by omega)).mono ?_ ?_
  · exact fun _ _ h => ends_capacity_bind.2 h
  · exact fun _ _ h e he => ends_capacity_bind.2 (h e he)

theorem behind_takeOne (p : Token → Bool) (want : Expectation) :
    Coupled (behind pre) Eq (takeOne p want) (takeOne p want) := by
  unfold takeOne
  refine coupled_position.bind ?_
  rintro _ mark rfl
  simp only [if_true]
  refine behind_takeBlanks.bind (fun _ _ _ => ?_)
  refine behind_peekNext_false.bind ?_
  rintro found _ rfl
  rcases found.filter p with _ | t
  · refine coupled_position.bind ?_
    rintro _ here rfl
    exact (behind_rewind mark).bind (fun _ _ _ => behind_reject_at _ here)
  · exact behind_advance.bind (fun _ _ _ => coupled_pure rfl)

theorem behind_tag (k : TokenKind) : Coupled (behind pre) Eq (tag k) (tag k) :=
  behind_takeOne _ _

theorem behind_bestError (e : ParseError) (others : List ParseError) (start : Nat) :
    Coupled (behind pre) (fun a b => a = b.moved pre.length)
      (bestError (e.moved pre.length) (others.map (ParseError.moved pre.length))
        (pre.length + start))
      (bestError e others start) := by
  unfold bestError
  refine coupled_get.bind ?_
  intro c d hbehind
  refine coupled_pure ?_
  have hrecorded : c.furthest.filter (fun f => ((pre.length + start : Nat) : Int) ≤ f.position)
      = (d.furthest.filter (fun f => (start : Int) ≤ f.position)).map
        (Failure.moved pre.length) := by
    rw [Cursor.furthest, hbehind.failures_eq, Failure.furthest_map_moved, ← Cursor.furthest]
    rcases d.furthest with _ | f
    · rfl
    · have hplace : (((pre.length + start : Nat) : Int) ≤ f.position + pre.length)
          ↔ (start : Int) ≤ f.position := by omega
      simp only [Option.map_some, Option.filter_some, Failure.moved, hplace]
      split <;> rfl
  rw [hrecorded, ← ParseError.furthestOf_moved, List.map_append]
  generalize d.furthest.filter (fun f => (start : Int) ≤ f.position) = recorded
  cases recorded <;> rfl

/-! ### The grammar -/

/-- **Parsing behind other tokens is lawful.** -/
theorem lawful_behind (pre : List Token) : (behind pre).Lawful where
  peekNext := behind_peekNext
  startsAssignment := behind_startsAssignment
  tag := behind_tag
  rewind := by
    rintro _ mark rfl
    exact behind_rewind mark
  record_here problem := (behind_record problem none).imp (fun _ _ h => congrArg ParseError.failed h)
  record_at problem := by
    rintro _ start rfl
    exact (behind_record_at problem start).imp (fun _ _ h => congrArg ParseError.failed h)
  forget := behind_forget
  bestError := by
    rintro _ e es es' _ start rfl hes rfl
    have hmoved : List.Forall₂ Eq es (es'.map (ParseError.moved pre.length)) :=
      List.forall₂_map_right_iff.2 hes
    rw [List.forall₂_eq_eq_eq] at hmoved
    obtain rfl := hmoved
    exact behind_bestError e es' start

theorem inStep_statements {fuel' fuel : Nat} (hfuel : fuel' ≤ fuel) :
    InStep pre Eq (statements fuel) (statements fuel') :=
  inStep_of_coupled (coupled_statements (lawful_behind pre) hfuel)

end Parser

end BlockLang
