import BlockLang.Proofs.Cursor
import BlockLang.Proofs.Parser.Closed

/-!
# The failures on record

A failure that is recorded stays on record: whatever a parser does, and however often it
moves back, the failures recorded before are the last part of those recorded after,

    c.failures <:+ c'.failures.

So the furthest of them, which is as far as any of them, never moves towards the front.
-/

namespace BlockLang

open StepM

namespace Failure

/-- **The furthest** is as far as any failure of the list. -/
theorem le_furthest {failures : List Failure} {f : Failure} (h : f ∈ failures) :
    ∃ best, furthest failures = some best ∧ f.position ≤ best.position := by
  induction failures with
  | nil => simp at h
  | cons last earlier ih =>
    rw [furthest]
    rcases List.mem_cons.1 h with rfl | hmem
    · cases furthest earlier with
      | none => exact ⟨f, rfl, Int.le_refl _⟩
      | some best =>
        refine ⟨_, rfl, ?_⟩
        split
        · exact Int.le_refl _
        · omega
    · obtain ⟨best, hbest, hle⟩ := ih hmem
      rw [hbest]
      refine ⟨_, rfl, ?_⟩
      split
      · omega
      · exact hle

theorem furthest_mem {failures : List Failure} {best : Failure}
    (h : furthest failures = some best) : best ∈ failures := by
  induction failures generalizing best with
  | nil => simp [furthest] at h
  | cons last earlier ih =>
    rw [furthest] at h
    cases hbest : furthest earlier with
    | none =>
      rw [hbest] at h
      obtain rfl := Option.some.inj h
      exact List.mem_cons_self
    | some old =>
      rw [hbest] at h
      obtain rfl := Option.some.inj h
      split
      · exact List.mem_cons_self
      · exact List.mem_cons_of_mem last (ih hbest)

/-- **It never moves back** while failures are added in front. -/
theorem furthest_mono {failures failures' : List Failure} (h : failures <:+ failures')
    {best : Failure} (hbest : furthest failures = some best) :
    ∃ best', furthest failures' = some best' ∧ best.position ≤ best'.position :=
  le_furthest (h.subset (furthest_mem hbest))

end Failure

namespace Parser

variable {α β : Type} {p : ParseM α} {f : α → ParseM β}

/-- **Nothing forgotten.**  However the parser ends, the failures recorded before are still on
record. -/
def Records (p : ParseM α) : Prop :=
  ∀ c : Cursor, Ends p c (fun _ c' => c.failures <:+ c'.failures)
    (fun _ c' => c.failures <:+ c'.failures)

theorem Records.suffix {c c' : Cursor} {r : Except Fault α} (h : Records p)
    (hr : runFrom p c = (r, c')) : c.failures <:+ c'.failures := by
  have hsuffix := ends_snd.1 (h c)
  rw [hr] at hsuffix
  exact hsuffix

/-! ### Ways of putting parsers together -/

theorem records_pure (a : α) : Records (pure a) :=
  fun _ => ends_pure.2 (List.suffix_refl _)

theorem records_throw (fault : Fault) : Records (throw fault : ParseM α) :=
  fun _ => ends_throw.2 (List.suffix_refl _)

theorem records_get : Records (get : ParseM Cursor) :=
  fun _ => ends_get.2 (List.suffix_refl _)

theorem Records.bind (hp : Records p) (hf : ∀ a, Records (f a)) : Records (p >>= f) := by
  intro c
  refine (hp c).bind ?_ (fun _ _ h => h)
  intro a c' hle
  exact (hf a c').mono (fun _ _ h => hle.trans h) (fun _ _ h => hle.trans h)

theorem Records.tryCatch {h : Fault → ParseM α} (hp : Records p)
    (hrefused : ∀ e, Records (h (.refused e)))
    (hother : ∀ fault, (∀ e, fault ≠ .refused e) → h fault = throw fault) :
    Records (MonadExcept.tryCatch p h) := by
  intro c
  refine (hp c).tryCatch (fun _ _ h => h) ?_
  intro fault c' hle
  have hrest : Records (h fault) := by
    by_cases hr : fault.IsRefusal
    · obtain ⟨e, rfl⟩ := hr
      exact hrefused e
    · rw [hother fault (fun e he => hr ⟨e, he⟩)]
      exact records_throw fault
  exact (hrest c').mono (fun _ _ h => hle.trans h) (fun _ _ h => hle.trans h)

/-! ### Looking, moving and recording -/

theorem records_onStream (g : TokenStream → α × TokenStream) : Records (onStream g) :=
  fun _ => ends_onStream.2 (List.suffix_refl _)

theorem records_rewind (mark : Nat) : Records (rewind mark) := by
  intro c
  unfold rewind
  rw [ends_get_bind]
  cases c.stream.reset mark with
  | some stream => exact ends_set.2 (List.suffix_refl _)
  | none => exact ends_throw.2 (List.suffix_refl _)

theorem records_record (problem : Problem) (at? : Option Int) : Records (record problem at?) := by
  intro c
  unfold record
  rw [ends_position_bind, ends_bind, ends_modify, ends_pure]
  exact List.suffix_cons _ _

theorem records_reject (problem : Problem) (at? : Option Int) :
    Records (reject problem at? : ParseM α) :=
  (records_record problem at?).bind (fun _ => records_throw _)

theorem records_takeSome (want : Token → Bool) (fuel : Nat) : Records (takeSome want fuel) := by
  induction fuel with
  | zero => exact records_pure _
  | succ fuel ih =>
    unfold takeSome
    refine (records_onStream _).bind (fun found => ?_)
    cases found with
    | none => exact records_pure _
    | some t =>
      by_cases hwant : want t = true
      · simp only [hwant, if_true]
        exact (records_onStream _).bind (fun _ => ih.bind (fun _ => records_pure _))
      · simp only [hwant]
        exact records_pure _

theorem records_takeWhile (want : Token → Bool) : Records (takeWhile want) :=
  (records_get.bind (fun _ => records_pure _)).bind (fun n => records_takeSome want (n + 1))

theorem records_takeOne (want : Token → Bool) (expected : Expectation) (skipBlanks : Bool) :
    Records (takeOne want expected skipBlanks) := by
  have hposition : Records position := records_get.bind (fun _ => records_pure _)
  unfold takeOne
  refine hposition.bind (fun mark => ?_)
  -- what follows the blanks is the same, whether they are taken or not
  extract_lets rest
  have hrest : Records (rest ()) := by
    refine (records_onStream _).bind (fun found => ?_)
    cases found.filter want with
    | some t => exact (records_onStream _).bind (fun _ => records_pure _)
    | none =>
      exact hposition.bind (fun here => (records_rewind mark).bind (fun _ => records_reject _ _))
  cases skipBlanks with
  | true => exact (records_takeWhile _).bind (fun _ => hrest)
  | false => exact hrest

theorem records_literal : Records literal := by
  unfold literal
  refine (records_onStream _).bind (fun found => ?_)
  cases found.filter (fun t => isLiteral t.kind) with
  | none => exact records_reject _ _
  | some t =>
    refine (records_get.bind (fun _ => records_pure _)).bind (fun start => ?_)
    refine (records_takeOne _ _ _).bind (fun t => ?_)
    split
    · split
      · exact records_pure _
      · exact records_reject _ _
    · split
      · exact records_throw _
      · split
        · exact records_reject _ _
        · exact records_pure _

/-- Nothing that the grammar is put together from forgets a failure. -/
theorem closed_records : Closed Records where
  of_pure := records_pure
  of_bind := Records.bind
  of_throw := fun _ => records_throw _
  of_tryCatch := Records.tryCatch
  of_get := records_get
  of_peekNext := records_onStream _
  of_startsAssignment := records_onStream _
  of_rewind := records_rewind
  of_reject := records_reject
  of_tag := fun _ => records_takeOne _ _ _
  of_literal := records_literal

end Parser

end BlockLang
