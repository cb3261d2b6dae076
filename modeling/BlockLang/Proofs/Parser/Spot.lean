import BlockLang.Proofs.Parser.Pinned
import Mathlib.Data.List.Forall2

/-!
# Spots in a layout

The same tokens may be laid out in two ways, with blanks in different places, and then the
places that the parser notes have different numbers.  What they have in common is the spot:
the tokens ahead that count, and the side of the blanks in front of them that the place is
on.  Which of two places of a layout is further shows in their spots, `Spot.At.lt_iff`:

    the one with fewer tokens ahead; and with the same tokens ahead, the one past the
    blanks, if there are any.

So the furthest of some failures is at the same token in both layouts, and it is the same
failure wherever blanks stand in front of this token in both layouts or in neither,
`SameToken.choose`.
-/

namespace BlockLang

/-- **A spot between tokens**: the tokens ahead that count, and whether the place is past the blanks
in front of them or in front of these blanks. -/
structure Spot where
  ahead : List Token
  past : Bool

/-- **A blank stands directly in front of the tokens** `toks`. -/
def TokenStream.BlankBefore (s : TokenStream) (toks : List Token) : Prop :=
  ∃ i b, s.all[i]? = some b ∧ b.isWhitespace = true ∧ s.aheadAt i = toks

/-- **The place of a spot** in a layout.  Past the blanks, no blank stands at the place; in front of
them, none stands directly before it. -/
structure Spot.At (s : TokenStream) (p : Spot) (i : Nat) : Prop where
  le_length : i ≤ s.all.length
  ahead_eq : s.aheadAt i = p.ahead
  past : p.past = true → ∀ t, s.all[i]? = some t → ¬ t.isWhitespace = true
  front : p.past = false → ∀ j t, i = j + 1 → s.all[j]? = some t → ¬ t.isWhitespace = true

section Places

variable {s : TokenStream} {i j k : Nat}

theorem TokenStream.aheadAt_sublist (h : i ≤ k) : (s.aheadAt k).Sublist (s.aheadAt i) :=
  (List.drop_sublist_drop_left s.all h).filter _

/-- Between two places with as many tokens ahead there are blanks only. -/
theorem TokenStream.isWhitespace_between (hij : i ≤ j) (hjk : j < k)
    (hlen : (s.aheadAt i).length ≤ (s.aheadAt k).length) {t : Token} (ht : s.all[j]? = some t) :
    t.isWhitespace = true := by
  by_contra hcounts
  have hi := (aheadAt_sublist (s := s) hij).length_le
  have hk := (aheadAt_sublist (s := s) (show j + 1 ≤ k from hjk)).length_le
  rw [aheadAt_of_counts ht hcounts, List.length_cons] at hi
  omega

variable {p q : Spot}

/-- The further of two places has fewer tokens ahead, or it is past the blanks that the other is in
front of. -/
theorem Spot.At.of_lt (hp : p.At s i) (hq : q.At s k) (hik : i < k) :
    q.ahead.length < p.ahead.length
      ∨ (p.ahead = q.ahead ∧ p.past = false ∧ q.past = true ∧ s.BlankBefore p.ahead) := by
  have hsub : q.ahead.Sublist p.ahead := by
    rw [← hp.ahead_eq, ← hq.ahead_eq]
    exact TokenStream.aheadAt_sublist (Nat.le_of_lt hik)
  rcases Nat.lt_or_eq_of_le hsub.length_le with hlt | heq
  · exact .inl hlt
  · -- there are blanks only between the two places, the first and the last token included
    have hlen : (s.aheadAt i).length ≤ (s.aheadAt k).length := by
      rw [hp.ahead_eq, hq.ahead_eq, heq]
    obtain ⟨m, rfl⟩ : ∃ m, k = m + 1 := ⟨k - 1, by omega⟩
    have hi : i < s.all.length := Nat.lt_of_lt_of_le hik hq.le_length
    have hm : m < s.all.length := hq.le_length
    have hfirst := TokenStream.isWhitespace_between (Nat.le_refl i) hik hlen
      (List.getElem?_eq_getElem hi)
    have hlast := TokenStream.isWhitespace_between (Nat.le_of_lt_succ hik) (Nat.lt_succ_self m)
      hlen (List.getElem?_eq_getElem hm)
    refine .inr ⟨(hsub.eq_of_length heq).symm, Bool.eq_false_iff.2 (fun h => ?_),
      Bool.of_not_eq_false (fun h => ?_), i, _, List.getElem?_eq_getElem hi, hfirst, hp.ahead_eq⟩
    · exact hp.past h _ (List.getElem?_eq_getElem hi) hfirst
    · exact hq.front h m _ rfl (List.getElem?_eq_getElem hm) hlast

theorem Spot.At.lt_of_blankBefore (hp : p.At s i) (hq : q.At s k) (hahead : p.ahead = q.ahead)
    (hfront : p.past = false) (hpast : q.past = true) (hblank : s.BlankBefore p.ahead) : i < k := by
  obtain ⟨j, b, hb, hwhite, hj⟩ := hblank
  have hjlen := (List.getElem?_eq_some_iff.1 hb).1
  have hij : i ≤ j := by
    by_contra hlt
    obtain ⟨m, rfl⟩ : ∃ m, i = m + 1 := ⟨i - 1, by omega⟩
    have hm := List.getElem?_eq_getElem (show m < s.all.length from hp.le_length)
    refine hp.front hfront m _ rfl hm ?_
    refine TokenStream.isWhitespace_between (show j ≤ m by omega) (Nat.lt_succ_self m) ?_ hm
    rw [hj, hp.ahead_eq]
  have hjk : j < k := by
    by_contra hle
    have hk := List.getElem?_eq_getElem (show k < s.all.length by omega)
    refine hq.past hpast _ hk ?_
    refine TokenStream.isWhitespace_between (Nat.le_refl k) (show k < j + 1 by omega) ?_ hk
    rw [hq.ahead_eq, ← TokenStream.aheadAt_of_blank hb hwhite, hj, hahead]
  omega

/-- **Which of two places is further** shows in their spots. -/
theorem Spot.At.lt_iff (hp : p.At s i) (hq : q.At s k) :
    i < k ↔ q.ahead.length < p.ahead.length
      ∨ (p.ahead = q.ahead ∧ p.past = false ∧ q.past = true ∧ s.BlankBefore p.ahead) := by
  refine ⟨hp.of_lt hq, ?_⟩
  rintro (hlt | ⟨hahead, hfront, hpast, hblank⟩)
  · by_contra hik
    have hlen := (TokenStream.aheadAt_sublist (s := s) (Nat.le_of_not_lt hik)).length_le
    rw [hp.ahead_eq, hq.ahead_eq] at hlen
    omega
  · exact hp.lt_of_blankBefore hq hahead hfront hpast hblank

end Places

/-! ### Failures and errors in two layouts -/

section Layouts

variable {s s' : TokenStream}

/-- **The same failure** in two layouts: the same problem, at the same spot. -/
def SameFailure (s s' : TokenStream) (f f' : Failure) : Prop :=
  f.problem = f'.problem ∧ ∃ (p : Spot) (i i' : Nat), f.position = i ∧ f'.position = i'
    ∧ p.At s i ∧ p.At s' i'

/-- Errors with the same message, expectation and found kind. -/
structure ParseError.SaysSame (e e' : ParseError) : Prop where
  message_eq : e.message = e'.message
  wanted_eq : e.wanted = e'.wanted
  found_eq : e.found = e'.found

/-- **Errors at the same token** in two layouts.  If a blank stands directly in front of this token
in both layouts or in neither, then they are at the same spot, and say the same. -/
def SameToken (s s' : TokenStream) (e e' : ParseError) : Prop :=
  ∃ (p p' : Spot) (i i' : Nat), e.position = i ∧ e'.position = i' ∧ p.At s i ∧ p'.At s' i'
    ∧ p.ahead = p'.ahead
    ∧ ((s.BlankBefore p.ahead ↔ s'.BlankBefore p.ahead) → p = p' ∧ e.SaysSame e')

theorem SameFailure.sameToken {f f' : Failure} (h : SameFailure s s' f f') :
    SameToken s s' (.failed f) (.failed f') := by
  obtain ⟨hproblem, p, i, i', hpos, hpos', hp, hp'⟩ := h
  refine ⟨p, p, i, i', hpos, hpos', hp, hp', rfl, fun _ => ⟨rfl, ?_, ?_, ?_⟩⟩
  · simp only [ParseError.message, ParseError.report, hproblem]
  · simp only [ParseError.wanted, ParseError.failure, hproblem]
  · simp only [ParseError.found, ParseError.failure, hproblem]

theorem SameToken.malformed {e e' : ParseError} (h : SameToken s s' e e') :
    SameToken s s' (.malformed e) (.malformed e') := by
  obtain ⟨p, p', i, i', hpos, hpos', hp, hp', hahead, hsame⟩ := h
  refine ⟨p, p', i, i', hpos, hpos', hp, hp', hahead, fun hblank => ?_⟩
  obtain ⟨hspot, hagree⟩ := hsame hblank
  have hmessage : e.report.message = e'.report.message := hagree.message_eq
  refine ⟨hspot, ?_, hagree.wanted_eq, hagree.found_eq⟩
  rw [ParseError.message, ParseError.report, hmessage, ParseError.message, ParseError.report]

/-- **The further of two errors** is at the same token in both layouts.  It can be another error only
where the two are on different sides of blanks that stand in one of the layouts. -/
theorem SameToken.choose {e₁ e₁' e₂ e₂' : ParseError} (h₁ : SameToken s s' e₁ e₁')
    (h₂ : SameToken s s' e₂ e₂') :
    SameToken s s' (if e₁.position < e₂.position then e₂ else e₁)
      (if e₁'.position < e₂'.position then e₂' else e₁') := by
  have h₁' := h₁
  have h₂' := h₂
  obtain ⟨p, p', i, i', hi, hi', hp, hp', hahead, hsame⟩ := h₁'
  obtain ⟨q, q', k, k', hk, hk', hq, hq', hahead', hsame'⟩ := h₂'
  have hlt : e₁.position < e₂.position ↔ i < k := by rw [hi, hk, Int.ofNat_lt]
  have hlt' : e₁'.position < e₂'.position ↔ i' < k' := by rw [hi', hk', Int.ofNat_lt]
  by_cases hdiffer : p.ahead = q.ahead ∧ ¬ (s.BlankBefore p.ahead ↔ s'.BlankBefore p.ahead)
  · obtain ⟨hpq, hblank⟩ := hdiffer
    split <;> split
    · exact ⟨q, q', k, k', hk, hk', hq, hq', hahead', fun h => absurd (hpq ▸ h) hblank⟩
    · exact ⟨q, p', k, i', hk, hi', hq, hp', hpq ▸ hahead, fun h => absurd (hpq ▸ h) hblank⟩
    · exact ⟨p, q', i, k', hi, hk', hp, hq', hpq ▸ hahead', fun h => absurd h hblank⟩
    · exact ⟨p, p', i, i', hi, hi', hp, hp', hahead, fun h => absurd h hblank⟩
  · -- the comparison comes out the same in both layouts
    have hiff : i < k ↔ i' < k' := by
      rw [hp.lt_iff hq, hp'.lt_iff hq', ← hahead, ← hahead']
      by_cases hpq : p.ahead = q.ahead
      · have hblank : s.BlankBefore p.ahead ↔ s'.BlankBefore p.ahead := by
          by_contra h
          exact hdiffer ⟨hpq, h⟩
        rw [(hsame hblank).1, (hsame' (hpq ▸ hblank)).1, ← hahead, hblank]
      · simp only [hpq, false_and]
    rw [← hlt, ← hlt'] at hiff
    by_cases h : e₁.position < e₂.position
    · rw [if_pos h, if_pos (hiff.1 h)]
      exact h₂
    · rw [if_neg h, if_neg (fun h' => h (hiff.2 h'))]
      exact h₁

theorem SameToken.furthestOf {e e' : ParseError} {es es' : List ParseError}
    (h : SameToken s s' e e') (hes : List.Forall₂ (SameToken s s') es es') :
    SameToken s s' (e.furthestOf es) (e'.furthestOf es') := by
  induction hes generalizing e e' with
  | nil => exact h
  | cons hnext _ ih => exact ih (h.choose hnext)

theorem sameToken_furthest {fs fs' : List Failure}
    (h : List.Forall₂ (SameFailure s s') fs fs') :
    Option.Rel (fun f f' => SameToken s s' (.failed f) (.failed f')) (Failure.furthest fs)
      (Failure.furthest fs') := by
  induction h with
  | nil => exact .none
  | cons hlast _ ih =>
    rw [Failure.furthest, Failure.furthest]
    generalize Failure.furthest _ = best at ih ⊢
    generalize Failure.furthest _ = best' at ih ⊢
    cases ih with
    | none => exact .some hlast.sameToken
    | some hbest =>
      have hchosen := hbest.choose hlast.sameToken
      rw [← apply_ite ParseError.failed, ← apply_ite ParseError.failed] at hchosen
      exact .some hchosen

end Layouts

end BlockLang
