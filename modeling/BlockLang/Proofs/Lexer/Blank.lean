import BlockLang.Parser.Grammar
import BlockLang.Proofs.Lexer.Append
import BlockLang.Proofs.Lexer.Spaced

/-!
# A blank between two sources

A blank carries no number and no name on, and it is no part of a string that has its
closing quote.  So the tokens of two sources that a blank keeps apart are those of the
one and those of the other,

    tokens (cs ++ b :: ds) = tokens cs ++ tokens (b :: ds),

but for the blanks, which may be joined to one run.
-/

namespace BlockLang

open BlockLang.Text

theorem numericRanges_covers_eq_false : ∀ r ∈ blankRanges,
    ∀ i ∈ List.range (r.2 + 1 - r.1), numericRanges.covers (r.1 + i) = false := by
  decide +kernel

namespace Lexer

theorem extendsName_of_isBlank {b : Char} (hb : isBlank b = true) : extendsName b = false := by
  obtain ⟨r, hr, hlo, hhi⟩ := (CodeRanges.covers_eq_true_iff increasing_blankRanges).1 hb
  have hnumeric : isNumeric b = false := by
    have h := numericRanges_covers_eq_false r hr (b.toNat - r.1) (List.mem_range.2 (by omega))
    rwa [Nat.add_sub_cancel' hlo] at h
  have hletter : isLetter b = false := isLetter_eq_false_of_isBlank hb
  have hline : b ≠ '_' := by
    rintro rfl
    exact absurd hb (by decide)
  simp [extendsName, CharClasses.extendsName, CharClasses.unicode, hline, hletter, hnumeric]

theorem span_append_of_stop {p : Char → Bool} {b : Char} (hb : p b = false) (cs ds : List Char) :
    (cs ++ b :: ds).takeWhile p = cs.takeWhile p
      ∧ (cs ++ b :: ds).dropWhile p = cs.dropWhile p ++ b :: ds := by
  have hstop : ¬ p b = true := by rw [hb]; exact Bool.false_ne_true
  induction cs with
  | nil =>
    rw [List.nil_append, List.takeWhile_cons_of_neg hstop, List.dropWhile_cons_of_neg hstop]
    exact ⟨rfl, rfl⟩
  | cons c cs ih =>
    rw [List.cons_append]
    by_cases hc : p c = true
    · simp only [List.takeWhile_cons_of_pos hc, List.dropWhile_cons_of_pos hc, ih, and_self]
    · simp only [List.takeWhile_cons_of_neg hc, List.dropWhile_cons_of_neg hc, List.cons_append,
        and_self]

/-- A string token that has its closing quote ends there. -/
theorem dropWhile_ne_nil_of_isTerminated {rest : List Char}
    (h : Parser.isTerminated (String.ofList ('"' :: (rest.takeWhile isUnquoted
      ++ (rest.dropWhile isUnquoted).take 1))) = true) : rest.dropWhile isUnquoted ≠ [] := by
  intro hnil
  have hall : rest.takeWhile isUnquoted = rest := by
    have hsplit := List.takeWhile_append_dropWhile (p := isUnquoted) (l := rest)
    rwa [hnil, List.append_nil] at hsplit
  rw [hnil, List.take_nil, List.append_nil, hall] at h
  simp only [Parser.isTerminated, String.toList_ofList, Bool.and_eq_true, beq_iff_eq] at h
  cases rest with
  | nil => exact absurd h.1 (by decide)
  | cons c rest =>
    have hquote : '"' ∈ c :: rest := List.mem_of_getLast? (by rw [← h.2, List.getLast?_cons_cons])
    rw [← hall] at hquote
    exact absurd (List.all_eq_true.1 List.all_takeWhile _ hquote) (by decide)

/-- **A token in front of a blank ends there**, if it is no blank itself and no open string. -/
theorem cut_append_blank {c b : Char} {rest : List Char} (hc : isBlank c = false)
    (hb : isBlank b = true)
    (hstring : (cut c rest).kind = .string → Parser.isTerminated (cut c rest).token.text = true)
    (ds : List Char) :
    (cut c (rest ++ b :: ds)).token = (cut c rest).token
      ∧ (cut c (rest ++ b :: ds)).after = (cut c rest).after ++ b :: ds := by
  have hname := extendsName_of_isBlank hb
  have hdigit := isDigit_of_isBlank hb
  have hblank : ¬ isBlank c = true := by rw [hc]; exact Bool.false_ne_true
  rw [cut_eq, if_neg hblank] at hstring ⊢
  rw [cut_eq, if_neg hblank]
  split
  · have hspan := span_append_of_stop hdigit rest ds
    exact ⟨by simp only [Cut.token_of, hspan.1], by simp only [Cut.after_of, hspan.2]⟩
  next hd =>
    rw [if_neg hd] at hstring
    split
    · have hspan := span_append_of_stop hname rest ds
      exact ⟨by simp only [Cut.token_of, hspan.1], by simp only [Cut.after_of, hspan.2]⟩
    next hn =>
      rw [if_neg hn] at hstring
      split
      next hq =>
        rw [if_pos hq] at hstring
        have hne := dropWhile_ne_nil_of_isTerminated (hq ▸ hstring rfl)
        obtain ⟨q, after, hdrop⟩ := List.exists_cons_of_ne_nil hne
        have hspan := span_append_of_dropWhile_ne_nil hne (b :: ds)
        simp only [hspan.1, hspan.2, hdrop, List.cons_append]
        exact ⟨rfl, rfl⟩
      · exact ⟨rfl, rfl⟩

theorem filter_tokens_dropWhile (cs : List Char) :
    (tokens (cs.dropWhile isBlank)).filter Token.counts = (tokens cs).filter Token.counts := by
  cases cs with
  | nil => rfl
  | cons c rest =>
    by_cases hc : isBlank c = true
    · have hcut : cut c rest
          = .of .whitespace (c :: rest.takeWhile isBlank) (rest.dropWhile isBlank) := by
        rw [cut_eq, if_pos hc]
      have hblank : ¬ (cut c rest).token.counts = true := by rw [hcut]; exact Bool.false_ne_true
      rw [tokens_cons, List.filter_cons_of_neg hblank, hcut, Cut.after_of,
        List.dropWhile_cons_of_pos hc]
    · rw [List.dropWhile_cons_of_neg hc]

theorem filter_tokens_cons {c : Char} (hc : isBlank c = true) (cs : List Char) :
    (tokens (c :: cs)).filter Token.counts = (tokens cs).filter Token.counts := by
  rw [← filter_tokens_dropWhile (c :: cs), List.dropWhile_cons_of_pos hc, filter_tokens_dropWhile]

/-- **Two sources with a blank between them** have the tokens of the one and those of the other. -/
theorem filter_tokens_append {cs : List Char} {b : Char} (hb : isBlank b = true)
    (hcs : ∀ t ∈ (tokens cs).filter Token.counts, t.kind = .string →
      Parser.isTerminated t.text = true) (ds : List Char) :
    (tokens (cs ++ b :: ds)).filter Token.counts
      = (tokens cs).filter Token.counts ++ (tokens (b :: ds)).filter Token.counts := by
  -- behind a blank the source is shorter by the blank alone, and not by a whole token
  induction hn : cs.length using Nat.strongRecOn generalizing cs with
  | _ n ih =>
    cases cs with
    | nil => rfl
    | cons c rest =>
      rw [List.length_cons] at hn
      by_cases hc : isBlank c = true
      · rw [filter_tokens_cons hc] at hcs ⊢
        rw [List.cons_append, filter_tokens_cons hc, ih _ (by omega) hcs rfl]
      · have hle := length_after_le c rest
        have hfirst : (cut c rest).kind = .string →
            Parser.isTerminated (cut c rest).token.text = true := by
          intro hk
          refine hcs _ (List.mem_filter.2 ⟨?_, ?_⟩) hk
          · rw [tokens_cons]
            exact List.mem_cons_self
          · simp [Token.counts, Token.isWhitespace, Cut.token, hk]
        have hafter : ∀ t ∈ (tokens (cut c rest).after).filter Token.counts, t.kind = .string →
            Parser.isTerminated t.text = true := by
          intro t ht
          refine hcs t (List.mem_filter.2 ⟨?_, (List.mem_filter.1 ht).2⟩)
          rw [tokens_cons]
          exact List.mem_cons_of_mem _ (List.mem_filter.1 ht).1
        have hrest := ih (cut c rest).after.length (by omega) hafter rfl
        have hcut := cut_append_blank (by simpa using hc) hb hfirst ds
        rw [List.cons_append, tokens_cons, tokens_cons, hcut.1, hcut.2, List.filter_cons,
          List.filter_cons, hrest]
        split <;> rfl

end Lexer

end BlockLang
