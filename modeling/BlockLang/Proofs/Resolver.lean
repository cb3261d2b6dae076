import BlockLang.Proofs.Stream
import Mathlib.Data.List.TakeWhile

/-!
# What a resolver does to a token list

A resolver only moves tokens: what comes out is a permutation of what comes in,
`resolve_perm`.  Blanks pass at once and are never held, so they can be left out before
or after, and the end mark comes out last.
-/

namespace BlockLang

namespace Resolver

theorem operators_append (l l' : List Token) : operators (l ++ l') = operators l ++ operators l' :=
  List.filter_append ..

section NoBarrier

variable {held : List Token} (h : ∀ t ∈ held, isBarrier t = false)

include h

theorem aboveBarrier_eq_self : aboveBarrier held = held :=
  List.takeWhile_eq_self_iff.2 (fun t ht => by rw [h t ht]; rfl)

theorem fromBarrier_eq_nil : fromBarrier held = [] :=
  List.dropWhile_eq_nil_iff.2 (fun t ht => by rw [h t ht]; rfl)

theorem operators_eq_self : operators held = held :=
  List.filter_eq_self.2 (fun t ht => by rw [h t ht]; rfl)

end NoBarrier

/-- The operators above a barrier come out before those below it. -/
theorem operators_eq (held : List Token) :
    operators held = aboveBarrier held ++ operators (fromBarrier held) := by
  have habove : operators (aboveBarrier held) = aboveBarrier held :=
    operators_eq_self (fun t ht => by simpa using List.all_eq_true.1 List.all_takeWhile t ht)
  calc operators held
      = operators (aboveBarrier held ++ fromBarrier held) := by
        rw [aboveBarrier, fromBarrier, List.takeWhile_append_dropWhile]
    _ = aboveBarrier held ++ operators (fromBarrier held) := by
        rw [operators_append, habove]

theorem isBarrier_of_isOperator {o : Token} (h : o.isOperator = true) : isBarrier o = false := by
  obtain ⟨k, s⟩ := o
  cases k <;> simp_all [Token.isOperator, TokenKind.isOperator, isBarrier]

theorem isBarrier_of_yieldsTo {p : Nat} {t : Token} (h : yieldsTo p t = true) :
    isBarrier t = false := by
  simpa using (Bool.and_eq_true_iff.1 h).1

theorem shift_of_isOperand {t : Token} (h : t.isOperand = true) (held : List Token) :
    shift held t = ([t], held) := by
  obtain ⟨k, s⟩ := t
  cases k <;> simp_all [Token.isOperand, TokenKind.isOperand, shift]

theorem operators_drop_fromBarrier (held : List Token) :
    operators ((fromBarrier held).drop 1) = operators (fromBarrier held) := by
  rcases h : fromBarrier held with _ | ⟨t, rest⟩
  · rfl
  · have ht : isBarrier t = true := by
      have := List.head?_dropWhile_not (fun t => !isBarrier t) held
      rw [fromBarrier] at h
      rw [h] at this
      simpa using this
    simp [operators, ht]

/-- An operator that is held comes out after those that it calls for. -/
theorem hold_perm (p : Nat) {t : Token} (ht : isBarrier t = false) (held : List Token) :
    ((hold p t held).1 ++ operators (hold p t held).2).Perm (operators held ++ [t]) := by
  have hout : operators (held.takeWhile (yieldsTo p)) = held.takeWhile (yieldsTo p) :=
    operators_eq_self (fun u hu =>
      isBarrier_of_yieldsTo (List.all_eq_true.1 List.all_takeWhile u hu))
  have hsplit : operators held
      = held.takeWhile (yieldsTo p) ++ operators (held.dropWhile (yieldsTo p)) := by
    rw [← hout, ← operators_append, List.takeWhile_append_dropWhile]
  rw [hsplit, List.append_assoc]
  refine List.Perm.append_left _ ?_
  simp only [hold, operators, List.filter_cons, ht, Bool.not_false, if_true]
  exact (List.perm_append_singleton t _).symm

/-- **One step** lets out some of the operators and the token, and keeps the rest. -/
theorem shift_perm (held : List Token) (t : Token) :
    ((shift held t).1 ++ operators (shift held t).2).Perm (operators held ++ [t]) := by
  have hpass : (([t] : List Token) ++ operators held).Perm (operators held ++ [t]) :=
    List.perm_append_comm
  have hflush : (aboveBarrier held ++ [t] ++ operators (fromBarrier held)).Perm
      (operators held ++ [t]) := by
    rw [operators_eq held, List.append_assoc, List.append_assoc]
    exact List.Perm.append_left _ List.perm_append_comm
  unfold shift
  rcases hk : t.kind
  case number | ident | string | whitespace => exact hpass
  case plus | minus => exact hold_perm 1 (by simp [isBarrier, hk]) held
  case star | slash | percent => exact hold_perm 2 (by simp [isBarrier, hk]) held
  case openBrace =>
    have : operators (t :: held) = operators held := by simp [operators, isBarrier, hk]
    rw [this]
    exact hpass
  case closeBrace =>
    rw [operators_drop_fromBarrier]
    exact hflush
  case eof => simp [operators]
  all_goals exact hflush

theorem resolveFrom_perm (held ts : List Token) :
    (resolveFrom held ts).Perm (operators held ++ ts) := by
  induction ts generalizing held with
  | nil => simp [resolveFrom]
  | cons t ts ih =>
    rw [resolveFrom]
    refine ((ih _).append_left _).trans ?_
    rw [← List.append_assoc, List.append_cons (operators held) t ts]
    exact (shift_perm held t).append_right ts

/-! ### Blanks and the end mark -/

/-- A step lets out held tokens and the token, and holds no others. -/
theorem mem_shift {held : List Token} {t u : Token}
    (h : u ∈ (shift held t).1 ∨ u ∈ (shift held t).2) : u ∈ held ∨ u = t := by
  have hout : u ∈ aboveBarrier held ++ [t] → u ∈ held ∨ u = t := by
    intro hu
    rcases List.mem_append.1 hu with hu | hu
    · exact .inl ((List.takeWhile_sublist _).subset hu)
    · exact .inr (List.mem_singleton.1 hu)
  have hkept : u ∈ fromBarrier held → u ∈ held := fun hu => (List.dropWhile_sublist _).subset hu
  have hhold : ∀ p, u ∈ (hold p t held).1 ∨ u ∈ (hold p t held).2 → u ∈ held ∨ u = t := by
    rintro p (hu | hu)
    · exact .inl ((List.takeWhile_sublist _).subset hu)
    · rcases List.mem_cons.1 hu with hu | hu
      · exact .inr hu
      · exact .inl ((List.dropWhile_sublist _).subset hu)
  have hpass : u ∈ [t] ∨ u ∈ held → u ∈ held ∨ u = t :=
    fun hu => hu.symm.imp_right List.mem_singleton.1
  unfold shift at h
  rcases hk : t.kind
  all_goals simp only [hk] at h
  case number | ident | string | whitespace => exact hpass h
  case plus | minus => exact hhold 1 h
  case star | slash | percent => exact hhold 2 h
  case openBrace =>
    rcases h with hu | hu
    · exact .inr (List.mem_singleton.1 hu)
    · exact (List.mem_cons.1 hu).symm
  case closeBrace =>
    rcases h with hu | hu
    · exact hout hu
    · exact .inl (hkept (List.mem_of_mem_drop hu))
  case eof =>
    rcases h with hu | hu
    · rcases List.mem_append.1 hu with hu | hu
      · exact .inl (List.mem_filter.1 hu).1
      · exact .inr (List.mem_singleton.1 hu)
    · exact absurd hu List.not_mem_nil
  all_goals
    rcases h with hu | hu
    · exact hout hu
    · exact .inl (hkept hu)

/-- **Blanks make no difference** to the order of the other tokens. -/
theorem filter_resolveFrom {held : List Token} (hheld : ∀ t ∈ held, t.counts = true)
    (ts : List Token) :
    (resolveFrom held ts).filter Token.counts = resolveFrom held (ts.filter Token.counts) := by
  induction ts generalizing held with
  | nil =>
    rw [List.filter_nil, resolveFrom, List.filter_eq_self]
    exact fun t ht => hheld t (List.mem_filter.1 ht).1
  | cons t ts ih =>
    rw [resolveFrom, List.filter_append]
    by_cases ht : t.counts = true
    · have hmem : ∀ u, u ∈ (shift held t).1 ∨ u ∈ (shift held t).2 → u.counts = true := by
        intro u hu
        rcases mem_shift hu with hu | rfl
        · exact hheld u hu
        · exact ht
      rw [List.filter_cons_of_pos ht, resolveFrom, ih (fun u hu => hmem u (.inr hu)),
        List.filter_eq_self.2 (fun u hu => hmem u (.inl hu))]
    · have hblank : t.kind = .whitespace := by simpa [Token.counts, Token.isWhitespace] using ht
      have hshift : shift held t = ([t], held) := by simp [shift, hblank]
      rw [List.filter_cons_of_neg ht, hshift, List.filter_cons_of_neg ht, ih hheld]
      rfl

theorem resolveFrom_endMark (held ts : List Token) :
    resolveFrom held (ts ++ [.endMark]) = resolveFrom held ts ++ [.endMark] := by
  induction ts generalizing held with
  | nil => simp [resolveFrom, shift, Token.endMark, operators]
  | cons t ts ih => rw [List.cons_append, resolveFrom, resolveFrom, ih, List.append_assoc]

end Resolver

/-- **A resolver only moves tokens.** -/
theorem resolve_perm (ts : List Token) : (resolve ts).Perm ts :=
  Resolver.resolveFrom_perm [] ts

theorem filter_resolve (ts : List Token) :
    (resolve ts).filter Token.counts = resolve (ts.filter Token.counts) :=
  Resolver.filter_resolveFrom (fun _ h => absurd h List.not_mem_nil) ts

theorem resolve_endMark (ts : List Token) : resolve (ts ++ [.endMark]) = resolve ts ++ [.endMark] :=
  Resolver.resolveFrom_endMark [] ts

end BlockLang
