import BlockLang.Proofs.Lexer.Blank
import BlockLang.Proofs.Lexer.Braces

/-!
# Open strings

A string without its closing quote reaches to the end of its text, so whatever is put
behind the text is part of the string, up to the next quote.  This is where blanks count.
If no string is open behind `cs`, one more blank in front of a blank, or at the end,
changes nothing but blanks,

    filter counts (tokens (cs ++ b :: ds)) = filter counts (tokens (cs ++ ds)),

and if one is, it makes this string longer and changes nothing else.  In either case the
same braces are open at the end, and a string is open if one was.
-/

namespace BlockLang

open BlockLang.Text

/-- Whether a token is a string without its closing quote. -/
def Token.isUnclosed (t : Token) : Bool :=
  t.kind = .string && !Parser.isTerminated t.text

/-- The number of characters of the tokens that count. -/
def width (ts : List Token) : Nat :=
  ((ts.filter Token.counts).map Token.length).sum

namespace Token

theorem kind_eq_of_isUnclosed {t : Token} (h : t.isUnclosed = true) : t.kind = .string := by
  simp only [isUnclosed, Bool.and_eq_true, decide_eq_true_eq] at h
  exact h.1

theorem counts_of_kind_eq_string {t : Token} (h : t.kind = .string) : t.counts = true := by
  simp [counts, isWhitespace, h]

end Token

/-! ### What the tokens that count determine -/

theorem any_isUnclosed_filter (ts : List Token) :
    (ts.filter Token.counts).any Token.isUnclosed = ts.any Token.isUnclosed := by
  rw [List.any_filter]
  congr 1
  funext t
  by_cases h : t.isUnclosed = true
  · rw [h, Token.counts_of_kind_eq_string (Token.kind_eq_of_isUnclosed h), Bool.and_true]
  · rw [Bool.not_eq_true] at h
    rw [h, Bool.and_false]

theorem width_append (ts us : List Token) : width (ts ++ us) = width ts + width us := by
  rw [width, List.filter_append, List.map_append, List.sum_append, width, width]

theorem width_cons {t : Token} (h : t.kind = .string) (ts : List Token) :
    width (t :: ts) = t.length + width ts := by
  rw [width, List.filter_cons_of_pos (Token.counts_of_kind_eq_string h), List.map_cons,
    List.sum_cons, width]

namespace Lexer

/-! ### An open string goes on -/

/-- Whether characters end inside a string. -/
def endsInString (cs : List Char) : Bool :=
  (tokens cs).any Token.isUnclosed

theorem cut_quote (rest : List Char) :
    cut '"' rest = .of .string ('"' :: (rest.takeWhile isUnquoted
      ++ (rest.dropWhile isUnquoted).take 1)) ((rest.dropWhile isUnquoted).drop 1) :=
  cut_eq '"' rest

theorem eq_quote_of_kind_cut {c : Char} {rest : List Char} (h : (cut c rest).kind = .string) :
    c = '"' := by
  rw [cut_eq] at h
  split at h
  · exact TokenKind.noConfusion h
  · split at h
    · exact TokenKind.noConfusion h
    · split at h
      · dsimp only [nameKind] at h
        split at h
        · exact TokenKind.noConfusion h
        · exact TokenKind.noConfusion h
      · split at h
        next hquote => exact hquote
        · dsimp only [TokenKind.ofPunctuation?] at h
          split at h <;> exact TokenKind.noConfusion h

/-- **A string is open** if and only if there is no quote behind its first one. -/
theorem isUnclosed_cut_quote (rest : List Char) :
    (cut '"' rest).token.isUnclosed = true ↔ rest.dropWhile isUnquoted = [] := by
  have hiff : (cut '"' rest).token.isUnclosed = true
      ↔ ¬ Parser.isTerminated (cut '"' rest).token.text = true := by
    rw [cut_quote]
    simp [Token.isUnclosed]
  rw [hiff, not_iff_comm]
  constructor
  · intro hne
    obtain ⟨q, after, hdrop⟩ := List.exists_cons_of_ne_nil hne
    have hq : isUnquoted q = false := by
      have hhead := List.head?_dropWhile_not isUnquoted rest
      rw [hdrop] at hhead
      simpa using hhead
    obtain rfl : q = '"' := by simpa [isUnquoted] using hq
    have hlength : "\"".length = 1 := rfl
    rw [cut_quote, hdrop, List.take_succ_cons, List.take_zero]
    simp [Parser.isTerminated, List.getLast?_cons, hlength]
    omega
  · intro h
    rw [cut_quote, Cut.token_of] at h
    exact dropWhile_ne_nil_of_isTerminated h

/-- **A text that ends in a string** goes on with the string, whatever is put behind it. -/
theorem exists_tokens_append {cs : List Char} (h : endsInString cs = true) :
    ∃ ts body, (∀ d ∈ body, isUnquoted d = true)
      ∧ ∀ ds, tokens (cs ++ ds) = ts ++ tokens ('"' :: (body ++ ds)) := by
  induction cs using cut_induction with
  | nil => exact absurd h (by decide)
  | cons c rest ih =>
    -- the first token is the open string, or it ends and is not carried on
    by_cases hfirst : (cut c rest).token.isUnclosed = true
    · obtain rfl := eq_quote_of_kind_cut (Token.kind_eq_of_isUnclosed hfirst)
      refine ⟨[], rest, ?_, fun ds => rfl⟩
      exact List.dropWhile_eq_nil_iff.1 ((isUnclosed_cut_quote rest).1 hfirst)
    · rw [Bool.not_eq_true] at hfirst
      rw [endsInString, tokens_cons, List.any_cons, hfirst, Bool.false_or] at h
      obtain ⟨ts, body, hbody, htokens⟩ := ih h
      have hafter : (cut c rest).after ≠ [] := by
        intro hnil
        rw [hnil] at h
        exact absurd h (by decide)
      refine ⟨(cut c rest).token :: ts, body, hbody, fun ds => ?_⟩
      obtain ⟨htoken, hrest⟩ := cut_append (.inl hafter) ds
      rw [List.cons_append, tokens_cons, htoken, hrest, htokens, List.cons_append]

/-! ### One more blank -/

variable {b : Char} {cs ds : List Char}

/-- **Outside a string** a blank in front of a blank, or at the end, does not count. -/
theorem filter_tokens_blank (hb : isBlank b = true) (hcs : endsInString cs = false)
    (hds : ∀ d ∈ ds.head?, isBlank d = true) :
    (tokens (cs ++ b :: ds)).filter Token.counts = (tokens (cs ++ ds)).filter Token.counts := by
  have hclosed : ∀ t ∈ (tokens cs).filter Token.counts, t.kind = .string →
      Parser.isTerminated t.text = true := by
    intro t ht hkind
    have hunclosed := List.any_eq_false.1 hcs t (List.mem_filter.1 ht).1
    simpa [Token.isUnclosed, hkind] using hunclosed
  rw [filter_tokens_append hb hclosed, filter_tokens_cons hb]
  cases ds with
  | nil => rw [tokens_nil, List.filter_nil, List.append_nil, List.append_nil]
  | cons d ds => rw [filter_tokens_append (hds d rfl) hclosed]

/-- **Inside a string** a blank is one more character of it. -/
theorem exists_tokens_blank (hb : isBlank b = true) (hcs : endsInString cs = true)
    (ds : List Char) :
    ∃ (ts : List Token) (t t' : Token) (us : List Token),
      tokens (cs ++ b :: ds) = ts ++ t :: us ∧ tokens (cs ++ ds) = ts ++ t' :: us
      ∧ t.kind = .string ∧ t'.kind = .string ∧ t.isUnclosed = t'.isUnclosed
      ∧ t.length = t'.length + 1 := by
  have hquote : isUnquoted b = true := by
    have hne : b ≠ '"' := by
      intro h
      rw [h] at hb
      exact absurd hb (by decide)
    simpa [isUnquoted] using hne
  obtain ⟨ts, body, hbody, htokens⟩ := exists_tokens_append hcs
  have hdrop : ∀ es : List Char, (body ++ es).dropWhile isUnquoted = es.dropWhile isUnquoted :=
    fun es => List.dropWhile_append_of_pos hbody
  have hblank : (b :: ds).dropWhile isUnquoted = ds.dropWhile isUnquoted :=
    List.dropWhile_cons_of_pos hquote
  refine ⟨ts, (cut '"' (body ++ b :: ds)).token, (cut '"' (body ++ ds)).token,
    tokens ((ds.dropWhile isUnquoted).drop 1), ?_, ?_, rfl, rfl, ?_, ?_⟩
  · rw [htokens, tokens_cons, cut_quote, hdrop, hblank, Cut.after_of]
  · rw [htokens, tokens_cons, cut_quote, hdrop, Cut.after_of]
  · rw [Bool.eq_iff_iff, isUnclosed_cut_quote, isUnclosed_cut_quote, hdrop, hdrop, hblank]
  · rw [cut_quote, cut_quote, hdrop, hdrop, hblank, List.takeWhile_append_of_pos hbody,
      List.takeWhile_append_of_pos hbody, List.takeWhile_cons_of_pos hquote]
    simp
    omega

/-- **The tokens that count are the same**, but for `n` characters that strings have more. -/
structure Longer (n : Nat) (ts ts' : List Token) : Prop where
  any_isUnclosed_eq : ts.any Token.isUnclosed = ts'.any Token.isUnclosed
  balance_eq : balance ts = balance ts'
  width_eq : width ts = width ts' + n
  filter_eq : n = 0 → ts.filter Token.counts = ts'.filter Token.counts

theorem Longer.of_filter_eq {ts ts' : List Token}
    (h : ts.filter Token.counts = ts'.filter Token.counts) : Longer 0 ts ts' where
  any_isUnclosed_eq := by rw [← any_isUnclosed_filter ts, h, any_isUnclosed_filter]
  balance_eq := by rw [← balance_filter ts, h, balance_filter]
  width_eq := by rw [width, h, width, Nat.add_zero]
  filter_eq _ := h

theorem Longer.trans {m n : Nat} {ts ts' ts'' : List Token} (h : Longer m ts ts')
    (h' : Longer n ts' ts'') : Longer (n + m) ts ts'' where
  any_isUnclosed_eq := h.any_isUnclosed_eq.trans h'.any_isUnclosed_eq
  balance_eq := h.balance_eq.trans h'.balance_eq
  width_eq := by rw [h.width_eq, h'.width_eq, Nat.add_assoc]
  filter_eq hzero := by
    obtain ⟨hn, hm⟩ := Nat.add_eq_zero_iff.1 hzero
    exact (h.filter_eq hm).trans (h'.filter_eq hn)

/-- The tokens that count are the same if and only if no string is longer. -/
theorem Longer.filter_eq_iff {n : Nat} {ts ts' : List Token} (h : Longer n ts ts') :
    ts.filter Token.counts = ts'.filter Token.counts ↔ n = 0 := by
  refine ⟨fun hsame => ?_, h.filter_eq⟩
  have hwidth := h.width_eq
  rw [width, hsame, ← width] at hwidth
  omega

theorem longer_blank (hb : isBlank b = true) (hds : ∀ d ∈ ds.head?, isBlank d = true)
    (cs : List Char) :
    Longer (if endsInString cs then 1 else 0) (tokens (cs ++ b :: ds)) (tokens (cs ++ ds)) := by
  cases hcs : endsInString cs with
  | false => exact .of_filter_eq (filter_tokens_blank hb hcs hds)
  | true =>
    obtain ⟨ts, t, t', us, htokens, htokens', hkind, hkind', hunclosed, hlength⟩ :=
      exists_tokens_blank hb hcs ds
    rw [htokens, htokens', if_pos rfl]
    refine ⟨?_, ?_, ?_, fun h => absurd h Nat.one_ne_zero⟩
    · rw [List.any_append, List.any_append, List.any_cons, List.any_cons, hunclosed]
    · rw [balance_append, balance_append, balance_cons, balance_cons, hkind, hkind']
    · rw [width_append, width_append, width_cons hkind, width_cons hkind', hlength]
      omega

/-- **Characters with more blanks**, of which `n` are inside a string: whatever is put behind them,
if it begins with a blank. -/
def Padded (n : Nat) (cs cs' : List Char) : Prop :=
  ∀ ds : List Char, (∀ d ∈ ds.head?, isBlank d = true) →
    Longer n (tokens (cs ++ ds)) (tokens (cs' ++ ds))

theorem Padded.refl (cs : List Char) : Padded 0 cs cs :=
  fun _ _ => .of_filter_eq rfl

theorem Padded.longer {n : Nat} {cs cs' : List Char} (h : Padded n cs cs') :
    Longer n (tokens cs) (tokens cs') := by
  have hnil := h [] (fun d hd => absurd hd (by simp))
  rwa [List.append_nil, List.append_nil] at hnil

theorem Padded.append {n : Nat} {cs cs' : List Char} (h : Padded n cs cs') (hb : isBlank b = true)
    (ds : List Char) : Padded n (cs ++ b :: ds) (cs' ++ b :: ds) := by
  intro es _
  rw [List.append_assoc, List.append_assoc]
  refine h (b :: ds ++ es) (fun d hd => ?_)
  rw [← Option.some.inj hd]
  exact hb

theorem Padded.blank {n : Nat} {cs cs' : List Char} (h : Padded n cs cs') (hb : isBlank b = true) :
    Padded (n + if endsInString cs then 1 else 0) (cs ++ [b]) cs' := by
  intro es hes
  rw [List.append_assoc]
  exact (longer_blank hb hes cs).trans (h es hes)

/-- Blanks behind a text neither close a string nor open one. -/
theorem endsInString_append {cs bs : List Char} (hbs : ∀ b ∈ bs, isBlank b = true) :
    endsInString (cs ++ bs) = endsInString cs := by
  have hnil : ∀ d ∈ ([] : List Char).head?, isBlank d = true :=
    fun d hd => absurd hd (Option.not_mem_none d)
  induction bs using List.reverseRecOn with
  | nil => rw [List.append_nil]
  | append_singleton bs b ih =>
    have hb : isBlank b = true := hbs b (List.mem_append_right _ List.mem_cons_self)
    have h := (longer_blank hb hnil (cs ++ bs)).any_isUnclosed_eq
    rw [List.append_nil, List.append_assoc] at h
    exact h.trans (ih (fun c hc => hbs c (List.mem_append_left _ hc)))

/-- **Blanks behind a text** are characters of the string that is open there, or do not count. -/
theorem Padded.blanks {n : Nat} {cs cs' bs : List Char} (h : Padded n cs cs')
    (hbs : ∀ b ∈ bs, isBlank b = true) :
    Padded (n + if endsInString cs then bs.length else 0) (cs ++ bs) cs' := by
  induction bs using List.reverseRecOn with
  | nil => rwa [List.length_nil, ite_self, List.append_nil]
  | append_singleton bs b ih =>
    have hfront : ∀ c ∈ bs, isBlank c = true := fun c hc => hbs c (List.mem_append_left _ hc)
    have hb : isBlank b = true := hbs b (List.mem_append_right _ List.mem_cons_self)
    have hmore := (ih hfront).blank hb
    rw [endsInString_append hfront, List.append_assoc] at hmore
    cases hcs : endsInString cs with
    | false => simpa [hcs] using hmore
    | true => simpa [hcs, Nat.add_assoc] using hmore

end Lexer

theorem openBraces_concat_blank {b : Char} (hb : isBlank b = true) (text : String) :
    openBraces (text ++ String.ofList [b]) = openBraces text := by
  have hnil : ∀ d ∈ ([] : List Char).head?, isBlank d = true :=
    fun d hd => absurd hd (Option.not_mem_none d)
  have h := Lexer.longer_blank hb hnil text.toList
  rw [openBraces_eq_balance, openBraces_eq_balance, String.toList_append, String.toList_ofList,
    h.balance_eq, List.append_nil]

end BlockLang
