import BlockLang.Proofs.Parser.Coupled
import BlockLang.Proofs.Parser.Spot

/-!
# Parsing in two layouts

The same tokens in two layouts: two streams with the same tokens that count, and blanks in
different places.  `laidOut s s'` couples the cursors over the two streams that are in front
of the same blanks, or where these would stand, and have the same failures on record, each at
the same spot.

The coupling is lawful.  The parser notes places only where it starts and right behind tokens
that it took, which is in front of blanks; it records a failure there, or at the token that
it found instead of the one it took blanks for, which is past them.  So all places that
belong together are at the same spot, and the furthest failure is at the same token.
-/

namespace BlockLang

open StepM

/-- **Places in front of the same tokens**, and in front of the blanks that stand there. -/
def SamePlace (s s' : TokenStream) (m n : Nat) : Prop :=
  ∃ toks, Spot.At s ⟨toks, false⟩ m ∧ Spot.At s' ⟨toks, false⟩ n

/-- **Cursors in two layouts**: in front of the same tokens, with the same failures on record. -/
structure Cursor.LaidOut (s s' : TokenStream) (c d : Cursor) : Prop where
  fit : c.Fit
  fit' : d.Fit
  all_eq : c.stream.all = s.all
  all_eq' : d.stream.all = s'.all
  grouping_eq : c.grouping = d.grouping
  capacity_le : d.stream.capacity ≤ c.stream.capacity
  place : SamePlace s s' c.stream.pos d.stream.pos
  failures : List.Forall₂ (SameFailure s s') c.failures d.failures

namespace Cursor

variable {s s' : TokenStream} {c c' d d' : Cursor}

theorem aheadAt_eq_of_all_eq {t t' : TokenStream} (h : t.all = t'.all) (i : Nat) :
    t.aheadAt i = t'.aheadAt i := by
  rw [TokenStream.aheadAt, TokenStream.aheadAt, h]

/-- Where a parser stops that starts in front of blanks, it is in front of blanks. -/
theorem Along.front {toks : List Token} (h : c.Along c') (hc : c.Fit)
    (hall : c.stream.all = s.all) (hpos : Spot.At s ⟨toks, false⟩ c.stream.pos) :
    Spot.At s ⟨c'.ahead, false⟩ c'.stream.pos := by
  have hall' : c'.stream.all = s.all := h.stream.all_eq.trans hall
  have hle := (h.toLater.fit hc).sound.pos_le_length
  refine ⟨hall' ▸ hle, (aheadAt_eq_of_all_eq hall' _).symm, fun h => absurd h (by simp),
    fun _ => ?_⟩
  rcases h.halt with hpos' | ⟨j, t, hj, ht, hcounts⟩
  · rw [hpos']
    exact hpos.front rfl
  · rintro j' u hj' hu
    obtain rfl : j = j' := by omega
    rw [hall, hu] at ht
    obtain rfl := Option.some.inj ht
    simpa [Token.counts] using hcounts

namespace LaidOut

theorem ahead_eq (h : c.LaidOut s s' d) : c.ahead = d.ahead := by
  obtain ⟨toks, hp, hp'⟩ := h.place
  have hc : c.ahead = toks := (aheadAt_eq_of_all_eq h.all_eq _).trans hp.ahead_eq
  have hd : d.ahead = toks := (aheadAt_eq_of_all_eq h.all_eq' _).trans hp'.ahead_eq
  rw [hc, hd]

theorem later (h : c.LaidOut s s' d) (hc : c.Later c') (hd : d.Later d')
    (hplace : SamePlace s s' c'.stream.pos d'.stream.pos)
    (hfailures : List.Forall₂ (SameFailure s s') c'.failures d'.failures) :
    c'.LaidOut s s' d' where
  fit := hc.fit h.fit
  fit' := hd.fit h.fit'
  all_eq := hc.stream.all_eq.trans h.all_eq
  all_eq' := hd.stream.all_eq.trans h.all_eq'
  grouping_eq := by rw [hc.grouping_eq, hd.grouping_eq, h.grouping_eq]
  capacity_le := by rw [hc.stream.capacity_eq, hd.stream.capacity_eq]; exact h.capacity_le
  place := hplace
  failures := hfailures

theorem stays (h : c.LaidOut s s' d) (hc : c.Stays c') (hd : d.Stays d')
    (hkept : c'.failures = c.failures) (hkept' : d'.failures = d.failures) :
    c'.LaidOut s s' d' := by
  refine h.later hc.toLater hd.toLater ?_ ?_
  · rw [hc.pos_eq, hd.pos_eq]
    exact h.place
  · rw [hkept, hkept']
    exact h.failures

theorem along (h : c.LaidOut s s' d) (hc : c.Along c') (hd : d.Along d')
    (hahead : c'.ahead = d'.ahead)
    (hfailures : List.Forall₂ (SameFailure s s') c'.failures d'.failures) :
    c'.LaidOut s s' d' := by
  obtain ⟨toks, hpos, hpos'⟩ := h.place
  refine h.later hc.toLater hd.toLater ⟨c'.ahead, hc.front h.fit h.all_eq hpos, ?_⟩ hfailures
  rw [hahead]
  exact hd.front h.fit' h.all_eq' hpos'

end LaidOut

theorem NextAt.past {i : Nat} (h : c.NextAt i) (hall : c.stream.all = s.all) :
    Spot.At s ⟨c.ahead, true⟩ i := by
  refine ⟨hall ▸ h.le_length, (aheadAt_eq_of_all_eq hall i).symm.trans h.ahead_eq, fun _ t ht => ?_,
    fun h => absurd h (by simp)⟩
  rw [← hall, h.next] at ht
  have hmem : t ∈ c.ahead := List.mem_of_head? ht
  have hcounts := (List.mem_filter.1 hmem).2
  simpa [Token.counts] using hcounts

end Cursor

namespace Parser

variable {α : Type} {s s' : TokenStream} {c d : Cursor}

/-- **The coupling of two layouts.**  Nothing is said of the first side where it stops for another
reason than a refusal. -/
def laidOut (s s' : TokenStream) : Coupling where
  states c d := c.LaidOut s s' d
  places m n := SamePlace s s' m n
  errors e e' := SameToken s s' e e'
  excused fault := ¬ fault.IsRefusal
  grouping_eq h := h.grouping_eq
  capacity_le h := h.capacity_le
  place h := h.place
  malformed h := h.malformed
  not_isRefusal h := h

theorem laidOut_look {g : TokenStream → α × TokenStream} (shows : List Token → α)
    (hg : ∀ c : Cursor, c.Fit →
      Ends (onStream g) c (fun a c' => a = shows c.ahead ∧ c.Stays c') (fun _ _ => False)) :
    Coupled (laidOut s s') Eq (onStream g) (onStream g) := by
  intro c d h
  refine coupledAt_of_ends
    (((hg c h.fit).and (ends_onStream_failures g c)).mono (fun _ _ h => h) (fun _ _ h => h.1))
    (((hg d h.fit').and (ends_onStream_failures g d)).mono (fun _ _ h => h) (fun _ _ h => h.1)) ?_
  rintro _ c' _ d' ⟨⟨rfl, hstay⟩, hkept⟩ ⟨⟨rfl, hstay'⟩, hkept'⟩
  exact ⟨congrArg shows h.ahead_eq, h.stays hstay hstay' hkept hkept'⟩

theorem laidOut_tag (k : TokenKind) : Coupled (laidOut s s') Eq (tag k) (tag k) := by
  intro c d h
  have hc := ends_takeOne_recorded h.fit (fun t => t.kind = k) (.kind k)
  refine (ends_takeOne_recorded h.fit' (fun t => t.kind = k) (.kind k)).mono ?_ ?_
  · rintro t d' ⟨hd, hkept', -, hahead', hk⟩
    refine hc.mono ?_ ?_
    · rintro u c' ⟨hc, hkept, -, hahead, -⟩
      rw [h.ahead_eq, hahead'] at hahead
      obtain ⟨rfl, hrest⟩ := List.cons.inj hahead
      refine ⟨rfl, h.along hc hd hrest.symm ?_⟩
      rw [hkept, hkept']
      exact h.failures
    · rintro fault c' ⟨-, hnone, -⟩
      rw [h.ahead_eq, hahead'] at hnone
      exact absurd hnone (by simpa using hk)
  · rintro _ d' ⟨hd, hnone, i', f', hat', rfl, rfl, hkept'⟩ e he
    obtain rfl := Fault.refused.inj he
    refine hc.mono ?_ ?_
    · rintro t c' ⟨-, -, -, hahead, hk⟩
      rw [← h.ahead_eq, hahead] at hnone
      exact absurd hnone (by simpa using hk)
    · rintro _ c' ⟨hc, -, i, f, hat, rfl, rfl, hkept⟩
      have hsame : SameFailure s s'
          ⟨.expected (.kind k) (c.ahead.head?.map Token.kind), i⟩
          ⟨.expected (.kind k) (d.ahead.head?.map Token.kind), i'⟩ := by
        refine ⟨?_, ⟨c.ahead, true⟩, i, i', rfl, rfl, hat.past h.all_eq, ?_⟩
        · rw [h.ahead_eq]
        · rw [h.ahead_eq]
          exact hat'.past h.all_eq'
      refine .inr ⟨_, rfl, hsame.sameToken, h.later hc.toLater hd.toLater ?_ ?_⟩
      · rw [hc.pos_eq, hd.pos_eq]
        exact h.place
      · rw [hkept, hkept']
        exact .cons hsame h.failures

/-- Going back to a place that may not have been seen. -/
theorem ends_rewind_any (hc : c.Fit) (mark : Nat) :
    Ends (rewind mark) c
      (fun _ c' => c.Later c' ∧ c'.stream.pos = mark ∧ c'.failures = c.failures)
      (fun fault _ => ¬ fault.IsRefusal) := by
  by_cases hm : mark ≤ c.stream.buffer.size
  · exact ((ends_rewind hc hm).and (ends_rewind_failures mark c)).mono
      (fun _ _ h => ⟨h.1.1, h.1.2, h.2⟩) (fun _ _ h => h.1.elim)
  · unfold rewind
    rw [ends_get_bind, TokenStream.reset_eq_none hm]
    exact ends_throw.2 (fun ⟨_, h⟩ => Fault.noConfusion h)

theorem laidOut_rewind {m n : Nat} (hplace : SamePlace s s' m n) :
    Coupled (laidOut s s') (fun _ _ => True) (rewind m) (rewind n) := by
  intro c d h
  refine (ends_rewind_any h.fit' n).mono ?_ (fun _ _ hstop e he => absurd ⟨e, he⟩ hstop)
  rintro _ d' ⟨hd, rfl, hkept'⟩
  refine (ends_rewind_any h.fit m).mono ?_ (fun _ _ hstop => hstop)
  rintro _ c' ⟨hc, rfl, hkept⟩
  refine ⟨trivial, h.later hc hd hplace ?_⟩
  rw [hkept, hkept']
  exact h.failures

theorem ends_record (problem : Problem) (at? : Option Int) (c : Cursor) :
    Ends (record problem at?) c
      (fun f c' => f = ⟨problem, at?.getD c.stream.pos⟩
        ∧ c' = { c with failures := f :: c.failures })
      (fun _ _ => False) := by
  unfold record
  rw [ends_position_bind, ends_bind, ends_modify, ends_pure]
  exact ⟨rfl, rfl⟩

theorem laidOut_record (problem : Problem) {at? at?' : Option Int}
    (hplace : ∀ c d : Cursor, c.LaidOut s s' d → ∃ m n : Nat, SamePlace s s' m n
      ∧ at?.getD c.stream.pos = m ∧ at?'.getD d.stream.pos = n) :
    Coupled (laidOut s s') (fun f f' => SameToken s s' (.failed f) (.failed f'))
      (record problem at?) (record problem at?') := by
  intro c d h
  refine coupledAt_of_ends (ends_record problem at? c) (ends_record problem at?' d) ?_
  rintro _ _ _ _ ⟨rfl, rfl⟩ ⟨rfl, rfl⟩
  obtain ⟨m, n, ⟨toks, hm, hn⟩, hpos, hpos'⟩ := hplace c d h
  have hsame : SameFailure s s' ⟨problem, at?.getD c.stream.pos⟩
      ⟨problem, at?'.getD d.stream.pos⟩ :=
    ⟨rfl, ⟨toks, false⟩, m, n, hpos, hpos', hm, hn⟩
  exact ⟨hsame.sameToken, h.later ⟨h.fit.stays.stream, rfl⟩ ⟨h.fit'.stays.stream, rfl⟩ h.place
    (.cons hsame h.failures)⟩

theorem SamePlace.le_iff {m n : Nat} (h : SamePlace s s' m n) {e e' : ParseError}
    (he : SameToken s s' e e') : (m : Int) ≤ e.position ↔ (n : Int) ≤ e'.position := by
  obtain ⟨toks, hm, hn⟩ := h
  obtain ⟨p, p', i, i', hi, hi', hp, hp', hahead, -⟩ := he
  have hlt := hp.lt_iff hm
  have hlt' := hp'.lt_iff hn
  simp only [Bool.false_eq_true, false_and, and_false, or_false] at hlt hlt'
  rw [hi, hi', Int.ofNat_le, Int.ofNat_le, ← Nat.not_lt, ← Nat.not_lt, hlt, hlt', hahead]

theorem laidOut_bestError {e e' : ParseError} {es es' : List ParseError} {m n : Nat}
    (he : SameToken s s' e e') (hes : List.Forall₂ (SameToken s s') es es')
    (hplace : SamePlace s s' m n) :
    Coupled (laidOut s s') (SameToken s s') (bestError e es m) (bestError e' es' n) := by
  unfold bestError
  refine coupled_get.bind (fun c d h => coupled_pure (he.furthestOf (List.rel_append hes ?_)))
  have hfurthest : Option.Rel (fun f f' => SameToken s s' (.failed f) (.failed f')) c.furthest
      d.furthest := sameToken_furthest h.failures
  generalize c.furthest = found at hfurthest ⊢
  generalize d.furthest = found' at hfurthest ⊢
  cases hfurthest with
  | none => exact .nil
  | @some f f' hf =>
    have hle : (m : Int) ≤ f.position ↔ (n : Int) ≤ f'.position := SamePlace.le_iff hplace hf
    by_cases hm : (m : Int) ≤ f.position
    · simp only [Option.filter_some, hm, hle.1 hm, decide_true, if_true]
      exact .cons hf .nil
    · have hn : ¬ (n : Int) ≤ f'.position := fun hn => hm (hle.2 hn)
      simp only [Option.filter_some, hm, hn, decide_false, Bool.false_eq_true, if_false]
      exact .nil

/-- **Parsing in two layouts is lawful.** -/
theorem lawful_laidOut (s s' : TokenStream) : (laidOut s s').Lawful where
  peekNext := laidOut_look List.head? (fun _ hc => ends_peekNext hc)
  startsAssignment :=
    laidOut_look (fun toks => decide ((toks.take 2).map Token.kind = [.ident, .equals]))
      (fun _ hc => ends_startsAssignment hc)
  tag := laidOut_tag
  rewind := laidOut_rewind
  record_here problem := laidOut_record problem (fun c d h => ⟨_, _, h.place, rfl, rfl⟩)
  record_at problem _ _ hplace := laidOut_record problem (fun _ _ _ => ⟨_, _, hplace, rfl, rfl⟩)
  forget := by
    intro c d h
    exact ends_modify.2 (ends_modify.2 ⟨trivial,
      h.later ⟨h.fit.stays.stream, rfl⟩ ⟨h.fit'.stays.stream, rfl⟩ h.place .nil⟩)
  bestError := laidOut_bestError

end Parser

end BlockLang
