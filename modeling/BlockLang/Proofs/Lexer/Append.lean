import BlockLang.Proofs.Stream

/-!
# The tokens of two sources end to end

A token that something follows in its source ends there, whatever comes after: only the
last token of a source can be carried on by another source behind it, and a `;` never is.
So the tokens of a source that ends with `;` stay what they are,

    tokens (cs ++ ds) = tokens cs ++ tokens ds.
-/

namespace BlockLang

open BlockLang.Text

namespace Lexer

/-- A run of characters that ends before the end of the source ends there. -/
theorem span_append_of_dropWhile_ne_nil {p : Char → Bool} {rest : List Char}
    (h : rest.dropWhile p ≠ []) (more : List Char) :
    (rest ++ more).takeWhile p = rest.takeWhile p
      ∧ (rest ++ more).dropWhile p = rest.dropWhile p ++ more := by
  induction rest with
  | nil => exact absurd rfl h
  | cons c rest ih =>
    rw [List.cons_append]
    by_cases hc : p c = true
    · rw [List.dropWhile_cons_of_pos hc] at h
      simp only [List.takeWhile_cons_of_pos hc, List.dropWhile_cons_of_pos hc, ih h, and_self]
    · simp only [List.takeWhile_cons_of_neg hc, List.dropWhile_cons_of_neg hc, List.cons_append,
        and_self]

/-- **A first token that ends** before the end of the source, or that is a `;`, is not carried
on. -/
theorem cut_append {c : Char} {rest : List Char}
    (h : (cut c rest).after ≠ [] ∨ (cut c rest).kind = .semi) (more : List Char) :
    (cut c (rest ++ more)).token = (cut c rest).token
      ∧ (cut c (rest ++ more)).after = (cut c rest).after ++ more := by
  rw [cut_eq] at h ⊢
  rw [cut_eq]
  split
  next hb =>
    rw [if_pos hb] at h
    have hspan := span_append_of_dropWhile_ne_nil (h.resolve_right TokenKind.noConfusion) more
    exact ⟨by simp only [Cut.token_of, hspan.1], by simp only [Cut.after_of, hspan.2]⟩
  next hb =>
    rw [if_neg hb] at h
    split
    next hd =>
      rw [if_pos hd] at h
      have hspan := span_append_of_dropWhile_ne_nil (h.resolve_right TokenKind.noConfusion) more
      exact ⟨by simp only [Cut.token_of, hspan.1], by simp only [Cut.after_of, hspan.2]⟩
    next hd =>
      rw [if_neg hd] at h
      split
      next hn =>
        rw [if_pos hn] at h
        have hkind : nameKind (c :: rest.takeWhile extendsName) ≠ .semi := by
          unfold nameKind
          split <;> exact TokenKind.noConfusion
        have hspan := span_append_of_dropWhile_ne_nil (h.resolve_right hkind) more
        exact ⟨by simp only [Cut.token_of, hspan.1], by simp only [Cut.after_of, hspan.2]⟩
      next hn =>
        rw [if_neg hn] at h
        split
        next hq =>
          rw [if_pos hq] at h
          have hafter : (rest.dropWhile isUnquoted).drop 1 ≠ [] :=
            h.resolve_right TokenKind.noConfusion
          have hne : rest.dropWhile isUnquoted ≠ [] := by
            intro hnil
            rw [hnil] at hafter
            exact hafter rfl
          obtain ⟨q, after, hdrop⟩ := List.exists_cons_of_ne_nil hne
          have hspan := span_append_of_dropWhile_ne_nil hne more
          simp only [hspan.1, hspan.2, hdrop, List.cons_append]
          exact ⟨rfl, rfl⟩
        · exact ⟨rfl, rfl⟩

/-- **A source that ends with `;`** keeps its tokens where another source stands behind it. -/
theorem tokens_append {cs : List Char} (h : (tokens cs).getLast?.map Token.kind = some .semi)
    (ds : List Char) : tokens (cs ++ ds) = tokens cs ++ tokens ds := by
  induction cs using cut_induction with
  | nil => exact absurd h (by simp)
  | cons c rest ih =>
    rw [tokens_cons] at h
    have hcut : (cut c (rest ++ ds)).token = (cut c rest).token
        ∧ (cut c (rest ++ ds)).after = (cut c rest).after ++ ds := by
      refine cut_append ?_ ds
      by_cases hafter : (cut c rest).after = []
      · rw [hafter] at h
        exact .inr (Option.some.inj h)
      · exact .inl hafter
    rw [List.cons_append, tokens_cons, tokens_cons, hcut.1, hcut.2, List.cons_append]
    congr 1
    rcases hafter : (cut c rest).after with _ | ⟨d, after⟩
    · rfl
    · rw [hafter] at h ih
      refine ih ?_
      rw [tokens_cons] at h ⊢
      rw [List.getLast?_cons_cons] at h
      exact h

end Lexer

theorem dropLast_tokenize (source : String) :
    (tokenize source).dropLast = Lexer.tokens source.toList := by
  rw [tokenize_eq, List.dropLast_concat]

/-- **Sources end to end.**  Behind a source whose last token is `;`, another source has the tokens
that it has alone. -/
theorem tokenize_append {s₁ : String}
    (h : (tokenize s₁).dropLast.getLast?.map Token.kind = some .semi) (s₂ : String) :
    tokenize (s₁ ++ s₂) = (tokenize s₁).dropLast ++ tokenize s₂ := by
  rw [dropLast_tokenize] at h ⊢
  rw [tokenize_eq, String.toList_append, Lexer.tokens_append h, List.append_assoc]
  rfl

end BlockLang
