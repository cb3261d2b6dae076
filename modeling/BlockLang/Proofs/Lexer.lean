import BlockLang.Token.Lexer

/-!
# The tokens of a source

Punctuation and the word `let` have one text each, and a token of such a kind that comes
from a source has that text.  No token of a source is the end mark, which stands after
the last of them.
-/

namespace BlockLang

/-- Whether a kind has one text only: punctuation and `let`. -/
def TokenKind.isFixed : TokenKind → Bool
  | ident | number | string | whitespace | eof | unknown => false
  | _ => true

namespace Token

/-- The token of a kind that has one text only. -/
def fixed (k : TokenKind) : Token :=
  { kind := k, text := k.describe }

/-- A token is as long as its text, which is the text of its kind where there is only one. -/
structure Proper (t : Token) : Prop where
  length_eq : t.length = t.text.length
  text_eq : t.kind.isFixed = true → t.text = t.kind.describe

theorem Proper.eq_fixed {t : Token} {k : TokenKind} (h : t.Proper) (hkind : t.kind = k)
    (hk : k.isFixed = true) : t = fixed k := by
  obtain ⟨kind, text, length⟩ := t
  obtain rfl : kind = k := hkind
  obtain rfl : text = kind.describe := h.text_eq hk
  obtain rfl : length = kind.describe.length := h.length_eq
  rfl

end Token

theorem TokenKind.describe_of_ofPunctuation? {c : Char} {k : TokenKind}
    (h : ofPunctuation? c = some k) : String.ofList [c] = k.describe := by
  unfold ofPunctuation? at h
  split at h <;> simp only [Option.some.injEq, reduceCtorEq] at h <;> subst h <;> rfl

theorem TokenKind.ne_eof_of_ofPunctuation? {c : Char} {k : TokenKind}
    (h : ofPunctuation? c = some k) : k ≠ .eof := by
  unfold ofPunctuation? at h
  split at h <;> simp only [Option.some.injEq, reduceCtorEq] at h <;> subst h <;> decide

namespace Lexer

theorem proper_cut (c : Char) (rest : List Char) : (cut c rest).token.Proper := by
  refine ⟨CharClasses.unicode.length_token_cut c rest, ?_⟩
  rw [cut_eq]
  split
  · exact fun h => absurd h Bool.false_ne_true
  · split
    · exact fun h => absurd h Bool.false_ne_true
    · split
      · by_cases hlet : c :: rest.takeWhile extendsName = ['l', 'e', 't']
        · intro _
          rw [Cut.token_of, nameKind, if_pos hlet, hlet]
          rfl
        · rw [nameKind, if_neg hlet]
          exact fun h => absurd h Bool.false_ne_true
      · split
        · exact fun h => absurd h Bool.false_ne_true
        · rcases hk : TokenKind.ofPunctuation? c with _ | k
          · exact fun h => absurd h Bool.false_ne_true
          · intro _
            rw [Cut.token_of, Option.getD_some]
            exact TokenKind.describe_of_ofPunctuation? hk

theorem kind_cut_ne_eof (c : Char) (rest : List Char) : (cut c rest).token.kind ≠ .eof := by
  rw [cut_eq]
  split
  · exact TokenKind.noConfusion
  · split
    · exact TokenKind.noConfusion
    · split
      · simp only [Cut.token_of, nameKind]
        split <;> exact TokenKind.noConfusion
      · split
        · exact TokenKind.noConfusion
        · rcases hk : TokenKind.ofPunctuation? c with _ | k
          · exact TokenKind.noConfusion
          · exact TokenKind.ne_eof_of_ofPunctuation? hk

/-- **What holds of every first token holds of every token.** -/
theorem forall_mem_tokens {P : Token → Prop} (h : ∀ c rest, P (cut c rest).token) (cs : List Char) :
    ∀ t ∈ tokens cs, P t := by
  induction cs using cut_induction with
  | nil => simp
  | cons c rest ih =>
    rw [tokens_cons]
    exact List.forall_mem_cons.2 ⟨h c rest, ih⟩

end Lexer

theorem proper_of_mem_tokenize {source : String} {t : Token} (h : t ∈ tokenize source) :
    t.Proper := by
  rcases List.mem_append.1 h with h | h
  · exact Lexer.forall_mem_tokens Lexer.proper_cut _ t h
  · rw [List.mem_singleton.1 h]
    exact ⟨rfl, fun hf => absurd hf (by decide)⟩

end BlockLang
