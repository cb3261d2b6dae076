import BlockLang.Proofs.Stream

/-!
# Tokens with spaces between them

A token stands by itself if the lexer, given its text and then a space or the end, cuts
off just this token.  The texts of such tokens, joined by spaces, have these tokens and
blanks only: `filter_tokens_intercalate`.
-/

namespace BlockLang

open BlockLang.Text

namespace Lexer

theorem span_append {p : Char → Bool} (hp : p ' ' = false) {cs rest : List Char}
    (hcs : cs.all p = true) (hrest : ∀ c, rest.head? = some c → c = ' ') :
    (cs ++ rest).takeWhile p = cs ∧ (cs ++ rest).dropWhile p = rest := by
  have hcs : ∀ c ∈ cs, p c = true := List.all_eq_true.1 hcs
  rw [List.takeWhile_append_of_pos hcs, List.dropWhile_append_of_pos hcs]
  cases rest with
  | nil => exact ⟨List.append_nil cs, rfl⟩
  | cons c rest =>
    have hc : ¬ p c = true := by rw [hrest c rfl, hp]; exact Bool.false_ne_true
    rw [List.takeWhile_cons_of_neg hc, List.dropWhile_cons_of_neg hc, List.append_nil]
    exact ⟨rfl, rfl⟩

/-- The token is cut off by itself where a space or nothing follows it, and it does not begin with
a blank. -/
def Stands (t : Token) : Prop :=
  ∃ c cs, t.text.toList = c :: cs ∧ isBlank c = false ∧ t.counts = true
    ∧ ∀ rest : List Char, (∀ d, rest.head? = some d → d = ' ') →
      (cut c (cs ++ rest)).token = t ∧ (cut c (cs ++ rest)).after = rest

theorem stands_of_cut {k : TokenKind} {c : Char} {cs : List Char} (hc : isBlank c = false)
    (hk : k ≠ .whitespace)
    (h : ∀ rest : List Char, (∀ d, rest.head? = some d → d = ' ') →
      cut c (cs ++ rest) = .of k (c :: cs) rest) :
    Stands { kind := k, text := String.ofList (c :: cs) } := by
  refine ⟨c, cs, String.toList_ofList, hc, by simp [Token.counts, Token.isWhitespace, hk], ?_⟩
  intro rest hrest
  rw [h rest hrest]
  exact ⟨Cut.token_of .., rfl⟩

/-- A punctuation character is in no other class. -/
theorem classes_of_ofPunctuation? {c : Char} {k : TokenKind}
    (h : TokenKind.ofPunctuation? c = some k) :
    isBlank c = false ∧ isDigit c = false ∧ startsName c = false ∧ c ≠ '"' ∧ k ≠ .whitespace := by
  unfold TokenKind.ofPunctuation? at h
  split at h <;> simp only [Option.some.injEq, reduceCtorEq] at h <;> subst h <;> decide

theorem stands_punctuation {c : Char} {k : TokenKind} (h : TokenKind.ofPunctuation? c = some k) :
    Stands (.fixed k) := by
  obtain ⟨hblank, hdigit, hname, hquote, hk⟩ := classes_of_ofPunctuation? h
  rw [Token.fixed, ← TokenKind.describe_of_ofPunctuation? h]
  refine stands_of_cut hblank hk (fun rest _ => ?_)
  simp [cut_eq, hblank, hdigit, hname, hquote, h]

theorem stands_number {c : Char} {cs : List Char} (hblank : isBlank c = false)
    (hdigit : isDigit c = true) (hcs : cs.all isDigit = true) :
    Stands { kind := .number, text := String.ofList (c :: cs) } := by
  refine stands_of_cut hblank TokenKind.noConfusion (fun rest hrest => ?_)
  obtain ⟨htake, hdrop⟩ := span_append (p := isDigit) (by decide) hcs hrest
  simp [cut_eq, hblank, hdigit, htake, hdrop]

theorem stands_word {c : Char} {cs : List Char} (hc : startsName c = true)
    (hcs : cs.all extendsName = true) :
    Stands { kind := nameKind (c :: cs), text := String.ofList (c :: cs) } := by
  obtain ⟨hblank, hdigit⟩ := isBlank_of_startsName hc
  have hk : nameKind (c :: cs) ≠ .whitespace := by
    unfold nameKind
    split <;> exact TokenKind.noConfusion
  refine stands_of_cut hblank hk (fun rest hrest => ?_)
  obtain ⟨htake, hdrop⟩ := span_append (p := extendsName) (by decide) hcs hrest
  simp [cut_eq, hblank, hdigit, hc, htake, hdrop]

theorem stands_string {cs : List Char} (hcs : cs.all isUnquoted = true) :
    Stands { kind := .string, text := String.ofList ('"' :: (cs ++ ['"'])) } := by
  refine stands_of_cut (by decide) TokenKind.noConfusion (fun rest _ => ?_)
  have hall : ∀ c ∈ cs, isUnquoted c = true := List.all_eq_true.1 hcs
  have htake : (cs ++ '"' :: rest).takeWhile isUnquoted = cs := by
    rw [List.takeWhile_append_of_pos hall, List.takeWhile_cons_of_neg (by decide), List.append_nil]
  have hdrop : (cs ++ '"' :: rest).dropWhile isUnquoted = '"' :: rest := by
    rw [List.dropWhile_append_of_pos hall, List.dropWhile_cons_of_neg (by decide)]
  have hblank : isBlank '"' = false := by decide
  have hdigit : isDigit '"' = false := by decide
  have hname : startsName '"' = false := by decide
  simp [cut_eq, hblank, hdigit, hname, htake, hdrop]

theorem stands_fixed {k : TokenKind} (h : k.isFixed = true) : Stands (.fixed k) := by
  cases k with
  | letWord =>
    have hword : ['e', 't'].all extendsName = true := by decide
    exact stands_word (c := 'l') (by decide) hword
  | openParen => exact stands_punctuation (c := '(') rfl
  | closeParen => exact stands_punctuation (c := ')') rfl
  | openBrace => exact stands_punctuation (c := '{') rfl
  | closeBrace => exact stands_punctuation (c := '}') rfl
  | openBracket => exact stands_punctuation (c := '[') rfl
  | closeBracket => exact stands_punctuation (c := ']') rfl
  | semi => exact stands_punctuation (c := ';') rfl
  | equals => exact stands_punctuation (c := '=') rfl
  | plus => exact stands_punctuation (c := '+') rfl
  | minus => exact stands_punctuation (c := '-') rfl
  | star => exact stands_punctuation (c := '*') rfl
  | slash => exact stands_punctuation (c := '/') rfl
  | percent => exact stands_punctuation (c := '%') rfl
  | ident | number | string | whitespace | eof | unknown => exact absurd h Bool.false_ne_true

theorem tokens_space {d : Char} (hd : isBlank d = false) (ds : List Char) :
    tokens (' ' :: d :: ds) = { kind := .whitespace, text := " " } :: tokens (d :: ds) := by
  have hcut : cut ' ' (d :: ds) = .of .whitespace [' '] (d :: ds) := by
    have hspace : isBlank ' ' = true := by decide
    simp [cut_eq, hspace, hd]
  rw [tokens_cons, hcut]
  rfl

/-- **Tokens that stand by themselves** are the tokens of their texts joined by spaces. -/
theorem filter_tokens_intercalate : ∀ ts : List Token, (∀ t ∈ ts, Stands t) →
    (tokens (" ".intercalate (ts.map Token.text)).toList).filter Token.counts = ts
  | [], _ => rfl
  | [t], h => by
    obtain ⟨c, cs, htext, -, hcounts, hcut⟩ := h t List.mem_cons_self
    obtain ⟨htoken, hafter⟩ := hcut [] (fun d hd => absurd hd (by simp))
    rw [List.append_nil] at htoken hafter
    rw [List.map_singleton, String.intercalate_singleton, htext, tokens_cons, htoken, hafter,
      tokens_nil, List.filter_cons_of_pos hcounts, List.filter_nil]
  | t :: u :: ts, h => by
    have ih := filter_tokens_intercalate (u :: ts) (fun v hv => h v (List.mem_cons_of_mem t hv))
    obtain ⟨c, cs, htext, -, hcounts, hcut⟩ := h t List.mem_cons_self
    obtain ⟨d, ds, hutext, hd, -, -⟩ := h u (List.mem_cons_of_mem t List.mem_cons_self)
    -- the rest of the source begins with the next token, which begins with no blank
    obtain ⟨more, hmore⟩ :
        ∃ more, (" ".intercalate ((u :: ts).map Token.text)).toList = d :: more := by
      cases ts with
      | nil => exact ⟨ds, by rw [List.map_singleton, String.intercalate_singleton, hutext]⟩
      | cons v ts =>
        exact ⟨_, by
          rw [List.map_cons, List.map_cons, String.intercalate_cons_cons, String.toList_append,
            String.toList_append, hutext]
          rfl⟩
    have hsource : (" ".intercalate ((t :: u :: ts).map Token.text)).toList
        = c :: (cs ++ ' ' :: d :: more) := by
      rw [List.map_cons, List.map_cons, String.intercalate_cons_cons, String.toList_append,
        String.toList_append, htext, ← List.map_cons, hmore]
      simp
    obtain ⟨htoken, hafter⟩ := hcut (' ' :: d :: more) (fun e he => (Option.some.inj he).symm)
    rw [hmore] at ih
    rw [hsource, tokens_cons, htoken, hafter, List.filter_cons_of_pos hcounts, tokens_space hd,
      List.filter_cons_of_neg (by decide), ih]

end Lexer

end BlockLang
